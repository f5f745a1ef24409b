import MiniC.Outline
import MiniC.Program
import MiniC.Text.Escaped

/-!
# Programs in outline form
-/

namespace MiniC

mutual

def Expr.outline : Expr → Outline
  | .literal n => .tuple "Literal" [.atom (toString n)]
  | .string raw => .tuple "StringLiteral" [.atom (escaped raw)]
  | .variable x => .tuple "Variable" [.atom (escaped x)]
  | .assign x v => .record "Assign" [("name", .atom (escaped x)), ("value", v.outline)]
  | .binary o l r =>
    .record "Binary" [("op", .atom o.label), ("left", l.outline), ("right", r.outline)]
  | .call f args =>
    .record "Call" [("callee", .atom (escaped f)), ("args", .list (Expr.outlines args))]

def Expr.outlines : List Expr → List Outline
  | [] => []
  | e :: es => e.outline :: Expr.outlines es

end

mutual

def Stmt.outline : Stmt → Outline
  | .decl x e => .record "VarDecl" [("name", .atom (escaped x)), ("init", e.outline)]
  | .eval e => .tuple "ExprStmt" [e.outline]
  | .ret e => .tuple "Return" [e.outline]
  | .ifElse c t e =>
    .record "If"
      [("condition", c.outline), ("then_branch", t.outline), ("else_branch", Stmt.outline? e)]
  | .whileLoop c b => .record "While" [("condition", c.outline), ("body", b.outline)]
  | .forLoop init c u b =>
    .record "For"
      [("init", Stmt.outline? init), ("condition", c.outline), ("update", u.outline),
        ("body", b.outline)]
  | .block ss => .tuple "Block" [.list (Stmt.outlines ss)]
  | .function f params body =>
    .record "Function"
      [("name", .atom (escaped f)), ("params", .list (params.map fun x => .atom (escaped x))),
        ("body", .list (Stmt.outlines body))]

def Stmt.outline? : Option Stmt → Outline
  | none => .atom "None"
  | some s => .tuple "Some" [s.outline]

def Stmt.outlines : List Stmt → List Outline
  | [] => []
  | s :: ss => s.outline :: Stmt.outlines ss

end

def Program.outline (p : Program) : Outline :=
  .record "Program" [("body", .list (Stmt.outlines p.body))]

end MiniC
