import MiniC.Program
import MiniC.Stmt.Emitter

/-!
# Programs in JavaScript

The items in order, then a call of `main` if there is one. `Program.emit` lays a program out, and
an emitter writes one program below the other.
-/

namespace MiniC

namespace Program

def emitItems (depth : Nat) : List Stmt → Emission
  | [] => .ofLines []
  | s :: ss => s.emitItem depth ++ emitItems depth ss

/-- The lines of a program. -/
def emit (depth : Nat) (p : Program) : Emission :=
  emitItems depth p.body ++ .ofLines (if p.hasMain then [⟨depth, "main();"⟩] else [])

/-- The JavaScript text of a program. -/
def generate (p : Program) : Except LayoutError String :=
  let emission := p.emit 0
  match emission.error with
  | none => .ok (Line.renderAll emission.lines)
  | some error => .error error

end Program

namespace Emitter

/-- The items in order, then the call of `main` if there is one. Nothing follows an error. -/
def program (p : Program) : Emit := do
  p.body.forM item
  if p.hasMain then
    line "main();"

/-- Writes one more program. -/
def emit (e : Emitter) (p : Program) : Emitter × Except LayoutError Unit :=
  let (result, e) := (program p).run.run e
  (e, result)

def text (e : Emitter) : String := Line.renderAll e.lines

end Emitter

end MiniC
