import MiniC.Expr

/-!
# Statements
-/

namespace MiniC

/-- A statement. Function definitions are statements too, and a `for` may start with any
statement: which of these can be written out as JavaScript is for the layout to say. -/
inductive Stmt
  | decl (name : String) (init : Expr)
  | eval (expr : Expr)
  | ret (expr : Expr)
  | ifElse (cond : Expr) (thenBranch : Stmt) (elseBranch : Option Stmt)
  | whileLoop (cond : Expr) (body : Stmt)
  | forLoop (init : Option Stmt) (cond update : Expr) (body : Stmt)
  | block (body : List Stmt)
  | function (name : String) (params : List String) (body : List Stmt)
  deriving Inhabited

namespace Stmt

def isBlock : Stmt → Bool
  | .block _ => true
  | _ => false

/-- Does the statement define the function `name`? -/
def definesFunction (name : String) : Stmt → Bool
  | .function f _ _ => f == name
  | _ => false

/-- The statement's kind in messages and outlines. -/
def label : Stmt → String
  | .decl .. => "VarDecl"
  | .eval _ => "ExprStmt"
  | .ret _ => "Return"
  | .ifElse .. => "If"
  | .whileLoop .. => "While"
  | .forLoop .. => "For"
  | .block _ => "Block"
  | .function .. => "Function"

end Stmt

end MiniC
