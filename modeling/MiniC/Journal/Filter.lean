import MiniC.Journal
import MiniC.Text.Blank

/-!
# Filters of the journal

A filter has a threshold for all entries and further ones for the parts of the program whose names
start in a certain way; of those that apply the one with the longest start decides.

A filter is written as clauses with commas between them: a level, the start of a target, or both
with an equals sign between them, as in `warn,c2js::parser=trace`. What follows a slash is a text
that messages must hold. A clause that cannot be read is left out, with a warning.
-/

namespace MiniC

structure Filter where
  /-- The threshold of entries that no part of `parts` is about. -/
  base : Threshold
  /-- Starts of targets, each with its threshold. -/
  parts : List (String × Threshold)
  /-- A text that messages must hold. -/
  needle : String
  deriving DecidableEq, Repr

namespace Filter

/-- A threshold for the targets that start with `target`, or for all. -/
structure Clause where
  target : Option String
  threshold : Threshold
  deriving DecidableEq, Repr

namespace Clause

/-- The threshold that lets everything through. -/
def widest : Threshold := some .trace

/-- Reads a clause. The error is the part that cannot be read. A word that is no level is the start
of a target, which is let through. -/
def read (text : String) : Except String Clause :=
  match text.splitOn "=" with
  | [word] =>
    match Threshold.ofName? word with
    | some threshold => .ok ⟨none, threshold⟩
    | none => .ok ⟨some word, widest⟩
  | [target, level] =>
    let level := trimBlanks level
    if level.isEmpty then .ok ⟨some target, widest⟩
    else
      match Threshold.ofName? level with
      | some threshold => .ok ⟨some target, threshold⟩
      | none => .error level
  | _ => .error text

end Clause

def ofThreshold (threshold : Threshold) : Filter := ⟨threshold, [], ""⟩

/-- Takes a clause on; it replaces an earlier one for the same targets. -/
def add (f : Filter) (clause : Clause) : Filter :=
  match clause.target with
  | none => { f with base := clause.threshold }
  | some target =>
    { f with parts := (target, clause.threshold) :: f.parts.filter (·.1 ≠ target) }

/-- Of two parts the one with the longer start. -/
def longer (a b : String × Threshold) : String × Threshold :=
  if a.1.length ≤ b.1.length then b else a

/-- The threshold for the entries of a target. -/
def threshold (f : Filter) (target : String) : Threshold :=
  match f.parts.filter fun part => part.1.toList.isPrefixOf target.toList with
  | [] => f.base
  | part :: parts => (parts.foldl longer part).2

/-- Does `text` hold `needle`? -/
def holds (needle : List Char) : List Char → Bool
  | [] => needle.isEmpty
  | c :: cs => needle.isPrefixOf (c :: cs) || holds needle cs

def admits (f : Filter) (entry : Entry) : Bool :=
  (f.threshold entry.target).admits entry.severity &&
    holds f.needle.toList entry.message.toList

/-- The warning about a part of a filter that is left out. -/
def warning (part : String) : String :=
  "warning: invalid logging spec '" ++ part ++ "', ignoring it"

/-- Takes on the clauses with these texts; the second part of the result holds the warnings. -/
def addAll (f : Filter) : List String → Filter × List String
  | [] => (f, [])
  | text :: texts =>
    let text := trimBlanks text
    if text.isEmpty then f.addAll texts
    else
      match Clause.read text with
      | .ok clause => (f.add clause).addAll texts
      | .error part =>
        let rest := f.addAll texts
        (rest.1, warning part :: rest.2)

/-- Takes on a written filter; the second part of the result holds the warnings. -/
def apply (f : Filter) (text : String) : Filter × List String :=
  match text.splitOn "/" with
  | [clauses] => f.addAll (clauses.splitOn ",")
  | [clauses, needle] => { f with needle := needle }.addAll (clauses.splitOn ",")
  | _ => (f, ["warning: invalid logging spec '" ++ text ++ "' (too many '/'s), ignoring it"])

end Filter

/-- The entries that a filter lets through. -/
def Journal.through (filter : Filter) (journal : Journal) : Journal :=
  journal.filter filter.admits

end MiniC
