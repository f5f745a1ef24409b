import MiniC.Diagnostic
import MiniC.Screen.Picture
import MiniC.Screen.Wrap
import MiniC.Text.Lines
import MiniC.Viewer.Highlight
import MiniC.Viewer.Scroll

/-!
# The output pane

The JavaScript text, or why there is none.
-/

namespace MiniC

structure OutputView where
  output : Except Diagnostic String
  focused : Bool
  offset : Nat

namespace OutputView

/-- The view with an offset at which a pane of this height is filled. Only JavaScript is
scrolled. -/
def clamped (view : OutputView) (height : Nat) : OutputView :=
  match view.output with
  | .error _ => view
  | .ok js =>
    if js.isEmpty then view
    else { view with offset := Scroll.clamp view.offset (lines js).length (Scroll.visible height) }

/-- A diagnostic as text: a heading, an empty line and the message. -/
def report (d : Diagnostic) : List Span :=
  [⟨"Compilation error (" ++ d.stage.name ++ ")", (Style.ofFg Palette.error).inBold⟩,
    ⟨"", .plain⟩, ⟨d.message, .ofFg Palette.text⟩]

/-- A diagnostic in rows of a width. -/
def reportRows (width : Nat) (d : Diagnostic) : List (List Glyph) :=
  (report d).flatMap fun span => (wrap width span.text).map fun row => row.map (⟨·, span.style⟩)

/-- What a view without JavaScript says. -/
def emptyNote : Span := ⟨"(no output)", .ofFg Palette.comment⟩

/-- The lines that a pane of this height shows. -/
def shown (js : String) (offset height : Nat) : List String :=
  ((lines js).drop offset).take (Scroll.visible height)

/-- The pane on `width` × `height` cells. -/
def picture (view : OutputView) (width height : Nat) : Picture :=
  let box := Picture.box width height (Palette.border view.focused) " JavaScript "
  let inside := Area.inside width height 0
  let padded := Area.inside width height 1
  match view.output with
  | .error d => box ++ [⟨padded, .glyphs (reportRows padded.width d)⟩]
  | .ok js =>
    if js.isEmpty then
      let ground : Drawing := .fill (.ofFg Palette.comment)
      ⟨⟨0, 0, width, height⟩, ground⟩ :: box ++
        [⟨inside, ground⟩, ⟨inside, .glyphs [emptyNote.glyphs]⟩]
    else
      box ++ [⟨padded, .glyphs <| (shown js view.offset height).map fun line =>
        (highlight .javascript line).flatMap Span.glyphs⟩]

end OutputView

end MiniC
