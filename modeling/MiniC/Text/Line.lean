/-!
# Indented lines
-/

namespace MiniC

/-- A line of text at a nesting depth. -/
structure Line where
  depth : Nat
  text : String
  deriving DecidableEq, Repr, Inhabited

namespace Line

/-- Each level of nesting is four spaces. -/
def render (l : Line) : String :=
  String.ofList (List.replicate (4 * l.depth) ' ') ++ l.text

/-- The lines as one text, without a newline at its end. -/
def renderAll (ls : List Line) : String :=
  "\n".intercalate (ls.map render)

end Line

end MiniC
