/-!
# The journal

What the program notes about its work. Every entry has a severity; a threshold lets through the
entries that are at least as severe.
-/

namespace MiniC

inductive Severity
  | error | warn | info | debug | trace
  deriving DecidableEq, Repr, Inhabited

namespace Severity

/-- The rank of a severity, from the most severe on. -/
def rank : Severity → Nat
  | .error => 1
  | .warn => 2
  | .info => 3
  | .debug => 4
  | .trace => 5

def name : Severity → String
  | .error => "ERROR"
  | .warn => "WARN"
  | .info => "INFO"
  | .debug => "DEBUG"
  | .trace => "TRACE"

def all : List Severity := [.error, .warn, .info, .debug, .trace]

end Severity

/-- The least severity that is let through; none at all if there is no threshold. -/
abbrev Threshold := Option Severity

namespace Threshold

def name : Threshold → String
  | none => "OFF"
  | some severity => severity.name

def admits (threshold : Threshold) (severity : Severity) : Bool :=
  match threshold with
  | none => false
  | some least => severity.rank ≤ least.rank

/-- The threshold with this name, in any case. -/
def ofName? (name : String) : Option Threshold :=
  (none :: Severity.all.map some).find? fun threshold =>
    Threshold.name threshold == name.map Char.toUpper

end Threshold

structure Entry where
  severity : Severity
  /-- The part of the program that made the entry. -/
  target : String
  message : String
  deriving DecidableEq, Repr, Inhabited

abbrev Journal := List Entry

end MiniC
