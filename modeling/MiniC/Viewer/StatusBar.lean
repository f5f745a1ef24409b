import MiniC.Screen.Picture
import MiniC.Viewer.Palette

/-!
# The status bar

At the left the state of the last compile and a message, at the right the keys.
-/

namespace MiniC

structure StatusBar where
  message : String
  compiled : Bool

namespace StatusBar

def textStyle : Style := (Style.ofFg Palette.text).onBg Palette.bar

def ruleStyle : Style := (Style.ofFg Palette.comment).onBg Palette.bar

def keyStyle : Style := (Style.ofFg .black).onBg Palette.comment

/-- The state of the last compile. -/
def badge (bar : StatusBar) : Span :=
  let style : Style := (Style.ofFg .black).inBold
  if bar.compiled then ⟨" OK ", style.onBg Palette.success⟩
  else ⟨" ERROR ", style.onBg Palette.error⟩

/-- The state of the last compile, and the message. -/
def state (bar : StatusBar) : List Span :=
  let tone := if bar.compiled then Palette.text else Palette.error
  [bar.badge, ⟨" | ", ruleStyle⟩,
    ⟨" " ++ bar.message ++ " ", (Style.ofFg tone).onBg Palette.bar⟩]

/-- A key and what it does. -/
def hint (key action : String) : List Span := [⟨key, keyStyle⟩, ⟨action, textStyle⟩]

/-- The keys. -/
def hints : List Span :=
  let rule : List Span := [⟨"│", ruleStyle⟩, ⟨" ", textStyle⟩]
  hint " ↑/↓ " " scroll " ++ rule ++ hint " ⇥ " " focus " ++ rule ++
    hint " r " " reload " ++ rule ++ hint " q " " quit "

/-- The width of the left one of two halves, which takes the odd column. -/
def leftHalf (width : Nat) : Nat := (width + 1) / 2

/-- The bar on `width` × `height` cells, its texts in the first row. The keys stand at the right
end, and are cut there if they are too long. -/
def picture (bar : StatusBar) (width height : Nat) : Picture :=
  let left := leftHalf width
  let right := width - left
  let keys := hints.flatMap Span.glyphs
  let skip := right - keys.length
  [⟨⟨0, 0, width, height⟩, .fill (.ofBg Palette.bar)⟩,
    ⟨⟨0, 0, left, height⟩, .glyphs [bar.state.flatMap Span.glyphs]⟩,
    ⟨⟨left + skip, 0, right - skip, height⟩, .glyphs [keys]⟩]

end StatusBar

end MiniC
