import MiniC.Expr
import MiniC.Text.Quoted

/-!
# Expressions in JavaScript

Every binary expression is written in brackets, so the text does not depend on how JavaScript
groups its operators. An assignment that is an operand has brackets of its own.
-/

namespace MiniC

namespace Expr

def isAssign : Expr → Bool
  | .assign .. => true
  | _ => false

/-- The text of an operand whose own text is `text`. -/
def operandScript (e : Expr) (text : String) : String :=
  if e.isAssign then "(" ++ text ++ ")" else text

/-- The JavaScript name of a C function. -/
def calleeScript (f : String) : String :=
  if f == "printf" then "console.log" else f

mutual

def script : Expr → String
  | .literal n => toString n
  | .string raw => quoted raw
  | .variable x => x
  | .assign x v => x ++ " = " ++ v.script
  | .binary o l r =>
    "(" ++ operandScript l l.script ++ " " ++ o.spelling ++ " " ++ operandScript r r.script ++ ")"
  | .call f args => calleeScript f ++ "(" ++ ", ".intercalate (scripts args) ++ ")"

def scripts : List Expr → List String
  | [] => []
  | e :: es => e.script :: scripts es

end

end Expr

end MiniC
