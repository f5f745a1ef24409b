import MiniC.BinOp

/-!
# Grouping of operators

How a chain of operands and operators is grouped: a level for each operator, and the side to
which operators of one level lean. `Grouping.standard` is the one of the language.
-/

namespace MiniC

inductive Side
  | left | right
  deriving DecidableEq, Repr

structure Grouping where
  level : BinOp → Nat
  side : Side

namespace Grouping

/-- Operators of one level lean to the right: `a - b - c` is `a - (b - c)`. -/
def standard : Grouping := ⟨BinOp.precedence, .right⟩

/-- The floor of a whole expression: every operator may join its chain. -/
def lowest : Nat := 1

/-- The least level that may join the right operand of `op`. -/
def floor (g : Grouping) (op : BinOp) : Nat :=
  match g.side with
  | .left => g.level op + 1
  | .right => g.level op

end Grouping

end MiniC
