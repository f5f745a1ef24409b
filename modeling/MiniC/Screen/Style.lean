/-!
# Colours and styles

A style names the parts of a cell's look that it sets. A span is text in one style.
-/

namespace MiniC

inductive Color
  /-- The terminal's own colour. -/
  | reset
  | black
  | white
  | rgb (red green blue : UInt8)
  deriving DecidableEq, Repr, Inhabited

namespace Color

/-- Two hexadecimal digits. -/
def hex (n : UInt8) : String :=
  String.ofList [Nat.digitChar (n.toNat / 16), Nat.digitChar (n.toNat % 16)]

def name : Color → String
  | .reset => "reset"
  | .black => "black"
  | .white => "white"
  | .rgb red green blue => "#" ++ hex red ++ hex green ++ hex blue

end Color

structure Style where
  fg : Option Color
  bg : Option Color
  bold : Bool
  deriving DecidableEq, Repr, Inhabited

namespace Style

/-- Sets nothing. -/
def plain : Style := ⟨none, none, false⟩

def ofFg (color : Color) : Style := ⟨some color, none, false⟩

def ofBg (color : Color) : Style := ⟨none, some color, false⟩

def onBg (s : Style) (color : Color) : Style := { s with bg := some color }

def inBold (s : Style) : Style := { s with bold := true }

end Style

structure Span where
  text : String
  style : Style
  deriving DecidableEq, Repr, Inhabited

/-- A character in a style. -/
structure Glyph where
  char : Char
  style : Style
  deriving DecidableEq, Repr, Inhabited

def Span.glyphs (s : Span) : List Glyph := s.text.toList.map (⟨·, s.style⟩)

end MiniC
