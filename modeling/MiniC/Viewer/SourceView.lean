import MiniC.Screen.Picture
import MiniC.Text.Align
import MiniC.Text.Lines
import MiniC.Viewer.Highlight
import MiniC.Viewer.Scroll

/-!
# The source pane

The source with line numbers; the line of an error stands out.
-/

namespace MiniC

structure SourceView where
  title : String
  source : String
  errorLine : Option Nat
  focused : Bool
  offset : Nat

namespace SourceView

/-- How the text of the erroneous line looks. -/
def errorStyle : Style := ((Style.ofFg .white).onBg Palette.error).inBold

/-- The spans of the line `number`. -/
def lineSpans (view : SourceView) (number : Nat) (line : String) : List Span :=
  let label := alignRight 4 (toString number) ++ " "
  let spans := highlight .c line
  if view.errorLine = some number then
    ⟨label, (Style.ofFg Palette.error).inBold⟩ :: spans.map fun s => { s with style := errorStyle }
  else ⟨label, .ofFg Palette.comment⟩ :: spans

/-- The view with an offset at which a pane of this height is filled. -/
def clamped (view : SourceView) (height : Nat) : SourceView :=
  { view with
    offset := Scroll.clamp view.offset (lines view.source).length (Scroll.visible height) }

/-- The lines that a pane of this height shows, with their numbers. -/
def shown (view : SourceView) (height : Nat) : List (String × Nat) :=
  (((lines view.source).zipIdx 1).drop view.offset).take (Scroll.visible height)

/-- The pane on `width` × `height` cells. -/
def picture (view : SourceView) (width height : Nat) : Picture :=
  Picture.box width height (Palette.border view.focused) (" " ++ view.title ++ " ") ++
    [⟨.inside width height 0, .glyphs <| (view.shown height).map fun line =>
      (view.lineSpans line.2 line.1).flatMap Span.glyphs⟩]

end SourceView

end MiniC
