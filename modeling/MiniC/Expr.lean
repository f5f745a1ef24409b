import MiniC.BinOp

/-!
# Expressions
-/

namespace MiniC

inductive Expr
  | literal (value : Int)
  /-- A string, kept as it is written between its quotes. -/
  | string (raw : String)
  | variable (name : String)
  | assign (name : String) (value : Expr)
  | binary (op : BinOp) (left right : Expr)
  | call (callee : String) (args : List Expr)
  deriving Inhabited

end MiniC
