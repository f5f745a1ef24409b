import MiniC.Stmt

/-!
# Programs
-/

namespace MiniC

/-- A program is its top-level items in order. -/
structure Program where
  body : List Stmt
  deriving Inhabited

/-- Does a top-level item define the function `main`? -/
def Program.hasMain (p : Program) : Bool :=
  p.body.any (Stmt.definesFunction "main")

end MiniC
