/-!
# Binary operators

The thirteen operators that join two expressions. `BinOp.precedence` is the grouping strength of
each, from `||` (weakest) to `* / %`.
-/

namespace MiniC

inductive BinOp
  | or | and | eq | ne | lt | gt | le | ge | add | sub | mul | div | mod
  deriving DecidableEq, Repr, Inhabited

namespace BinOp

/-- The operator's spelling, the same in C and in JavaScript. -/
def spelling : BinOp → String
  | .or => "||"
  | .and => "&&"
  | .eq => "=="
  | .ne => "!="
  | .lt => "<"
  | .gt => ">"
  | .le => "<="
  | .ge => ">="
  | .add => "+"
  | .sub => "-"
  | .mul => "*"
  | .div => "/"
  | .mod => "%"

/-- How strongly the operator binds its operands; at least 1. -/
def precedence : BinOp → Nat
  | .or => 1
  | .and => 2
  | .eq | .ne => 3
  | .lt | .gt | .le | .ge => 4
  | .add | .sub => 5
  | .mul | .div | .mod => 6

/-- The name of the operation in an outline. -/
def label : BinOp → String
  | .or => "Or"
  | .and => "And"
  | .eq => "Eq"
  | .ne => "Ne"
  | .lt => "Lt"
  | .gt => "Gt"
  | .le => "Le"
  | .ge => "Ge"
  | .add => "Add"
  | .sub => "Sub"
  | .mul => "Mul"
  | .div => "Div"
  | .mod => "Mod"

/-- All operators. -/
def all : List BinOp :=
  [.or, .and, .eq, .ne, .lt, .gt, .le, .ge, .add, .sub, .mul, .div, .mod]

theorem one_le_precedence (op : BinOp) : 1 ≤ op.precedence := by
  cases op <;> decide

end BinOp

end MiniC
