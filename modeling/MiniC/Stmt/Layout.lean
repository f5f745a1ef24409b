import MiniC.Expr.Script
import MiniC.Stmt
import MiniC.Text.Line

/-!
# Statements in JavaScript

A statement is laid out as indented lines. `Stmt.emit` gives the lines and, if some part has no
form in JavaScript, the first such part; the lines in front of it are kept.

Where a statement stands decides how its first line looks. A body under a header starts on the
header's line if it is a block, and is one level deeper on lines of its own otherwise. The block
of a then-branch leaves its closing brace to what follows, which may be `} else`.
-/

namespace MiniC

/-- A statement that has no form in JavaScript where it stands, by its label. -/
structure LayoutError where
  label : String
  deriving DecidableEq, Repr

/-- Lines, and why there are no more of them. -/
structure Emission where
  lines : List Line
  error : Option LayoutError
  deriving DecidableEq, Repr

namespace Emission

def ofLines (ls : List Line) : Emission := ⟨ls, none⟩

/-- Nothing follows an error. -/
def append (a b : Emission) : Emission :=
  match a.error with
  | none => ⟨a.lines ++ b.lines, b.error⟩
  | some _ => a

instance : Append Emission := ⟨append⟩

end Emission

namespace Stmt

/-- Where a statement stands. -/
inductive Slot
  | own
  /-- Under a header, which starts its first line. -/
  | body (header : String)
  /-- After `else` or `} else`, which starts its first line. -/
  | elseBody (word : String)
  deriving DecidableEq, Repr

namespace Slot

/-- The line in front of a statement that is not a block. -/
def lead (depth : Nat) : Slot → List Line
  | .own => []
  | .body header => [⟨depth, header⟩]
  | .elseBody word => [⟨depth, word⟩]

/-- The depth of a statement that is not a block. -/
def inner (depth : Nat) : Slot → Nat
  | .own => depth
  | .body _ | .elseBody _ => depth + 1

/-- As `lead`, for an `if`, which stays on the line of its `else`. -/
def ifLead (depth : Nat) : Slot → List Line
  | .elseBody _ => []
  | slot => slot.lead depth

/-- As `inner`, for an `if`. -/
def ifInner (depth : Nat) : Slot → Nat
  | .elseBody _ => depth
  | slot => slot.inner depth

/-- What stands before an `if` on its line. -/
def ifWord : Slot → String
  | .elseBody word => word ++ " "
  | _ => ""

/-- The line that opens a block. -/
def brace : Slot → String
  | .own => "\x7b"
  | .body header => header ++ " \x7b"
  | .elseBody word => word ++ " \x7b"

/-- The line that closes a block, unless that is left to what follows. -/
def unbrace (depth : Nat) : Slot → List Line
  | .body _ => []
  | _ => [⟨depth, "\x7d"⟩]

/-- A statement of one line. -/
def line (depth : Nat) (slot : Slot) (text : String) : Emission :=
  .ofLines (slot.lead depth ++ [⟨slot.inner depth, text⟩])

end Slot

/-- The line that closes a body, if it is a block. -/
def closing (depth : Nat) (body : Stmt) : Emission :=
  .ofLines (if body.isBlock then [⟨depth, "\x7d"⟩] else [])

/-- How the else-branch behind a then-branch starts. -/
def elseWord (thenBranch : Stmt) : String :=
  if thenBranch.isBlock then "\x7d else" else "else"

/-- The first part of a `for`; only a declaration or an expression can be one. -/
def forStart : Option Stmt → Except LayoutError String
  | none => .ok ""
  | some (.decl x e) => .ok ("let " ++ x ++ " = " ++ e.script)
  | some (.eval e) => .ok e.script
  | some s => .error ⟨s.label⟩

mutual

/-- The lines of a statement. -/
def emit (slot : Slot) (depth : Nat) : Stmt → Emission
  | .decl x e => slot.line depth ("let " ++ x ++ " = " ++ e.script ++ ";")
  | .eval e => slot.line depth (e.script ++ ";")
  | .ret e => slot.line depth ("return " ++ e.script ++ ";")
  | .ifElse c t e =>
    let inner := slot.ifInner depth
    .ofLines (slot.ifLead depth) ++
      t.emit (.body (slot.ifWord ++ "if (" ++ c.script ++ ")")) inner ++
      emitElse t inner e
  | .whileLoop c b =>
    let inner := slot.inner depth
    .ofLines (slot.lead depth) ++ b.emit (.body ("while (" ++ c.script ++ ")")) inner ++
      closing inner b
  | .forLoop init c u b =>
    let inner := slot.inner depth
    match forStart init with
    | .error error => ⟨slot.lead depth, some error⟩
    | .ok start =>
      .ofLines (slot.lead depth) ++
        b.emit (.body ("for (" ++ start ++ "; " ++ c.script ++ "; " ++ u.script ++ ")")) inner ++
        closing inner b
  | .block ss =>
    .ofLines [⟨depth, slot.brace⟩] ++ emitAll (depth + 1) ss ++ .ofLines (slot.unbrace depth)
  | .function name params body =>
    ⟨slot.lead depth, some ⟨(Stmt.function name params body).label⟩⟩

/-- What follows the then-branch `t`. -/
def emitElse (t : Stmt) (depth : Nat) : Option Stmt → Emission
  | none => closing depth t
  | some e => e.emit (.elseBody (elseWord t)) depth

def emitAll (depth : Nat) : List Stmt → Emission
  | [] => .ofLines []
  | s :: ss => s.emit .own depth ++ emitAll depth ss

end

/-- The lines of a top-level item. -/
def emitItem (depth : Nat) : Stmt → Emission
  | .function f params body =>
    .ofLines [⟨depth, "function " ++ f ++ "(" ++ ", ".intercalate params ++ ") \x7b"⟩] ++
      emitAll (depth + 1) body ++ .ofLines [⟨depth, "\x7d"⟩]
  | s => s.emit .own depth

end Stmt

end MiniC
