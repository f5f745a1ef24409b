import MiniC.Screen.Style

/-!
# Pictures

A picture is a list of layers, each of which fills an area with a style, draws a border around it
or writes rows of glyphs into it. Later layers lie over earlier ones. A screen is the table of
what a picture makes of empty cells.
-/

namespace MiniC

structure Cell where
  char : Char
  fg : Color
  bg : Color
  bold : Bool
  deriving DecidableEq, Repr, Inhabited

namespace Cell

def empty : Cell := ⟨' ', .reset, .reset, false⟩

/-- Sets what the style names; bold is only ever added. -/
def restyle (s : Style) (c : Cell) : Cell :=
  { c with fg := s.fg.getD c.fg, bg := s.bg.getD c.bg, bold := c.bold || s.bold }

def write (g : Glyph) (c : Cell) : Cell := { c.restyle g.style with char := g.char }

/-- Do the cells look the same but for their characters? -/
def sameLook (a b : Cell) : Bool := a.fg == b.fg && a.bg == b.bg && a.bold == b.bold

end Cell

structure Area where
  left : Nat
  top : Nat
  width : Nat
  height : Nat
  deriving DecidableEq, Repr

namespace Area

def contains (a : Area) (x y : Nat) : Bool :=
  a.left ≤ x && x < a.left + a.width && a.top ≤ y && y < a.top + a.height

/-- The inside of a box, with `padding` free columns at its left. -/
def inside (width height padding : Nat) : Area :=
  ⟨1 + padding, 1, width - 2 - padding, height - 2⟩

def shift (left top : Nat) (a : Area) : Area := { a with left := a.left + left, top := a.top + top }

end Area

/-- What is drawn into an area. -/
inductive Drawing
  | fill (style : Style)
  | border (style : Style)
  /-- One list of glyphs for each row, from the top left. -/
  | glyphs (rows : List (List Glyph))
  deriving DecidableEq, Repr

structure Layer where
  area : Area
  drawing : Drawing
  deriving DecidableEq, Repr

/-- The sign at a position of a border around `width` × `height` cells. Where the border is a
single row or column, the corners win over the sides, and those on the left and top over the
others. -/
def borderChar? (width height x y : Nat) : Option Char :=
  let firstCol := x == 0
  let lastCol := x + 1 == width
  let firstRow := y == 0
  let lastRow := y + 1 == height
  if firstCol && firstRow then some '┌'
  else if firstCol && lastRow then some '└'
  else if lastCol && firstRow then some '┐'
  else if lastCol && lastRow then some '┘'
  else if lastRow then some '─'
  else if lastCol then some '│'
  else if firstRow then some '─'
  else if firstCol then some '│'
  else none

/-- What a drawing of `width` × `height` cells makes of the cell in a column and a row of it. -/
def Drawing.paint (width height x y : Nat) (c : Cell) : Drawing → Cell
  | .fill style => c.restyle style
  | .border style =>
    match borderChar? width height x y with
    | some sign => c.write ⟨sign, style⟩
    | none => c
  | .glyphs rows =>
    match rows[y]?.bind (·[x]?) with
    | some g => c.write g
    | none => c

/-- What a layer makes of the cell in a column and a row of the screen. -/
def Layer.paint (l : Layer) (x y : Nat) (c : Cell) : Cell :=
  if l.area.contains x y then
    l.drawing.paint l.area.width l.area.height (x - l.area.left) (y - l.area.top) c
  else c

abbrev Picture := List Layer

namespace Picture

/-- The cell in a column and a row, both counted from 0. -/
def cell (p : Picture) (x y : Nat) : Cell :=
  p.foldl (fun c l => l.paint x y c) .empty

/-- The picture moved to the right and down. -/
def shift (left top : Nat) (p : Picture) : Picture :=
  p.map fun l => { l with area := l.area.shift left top }

/-- A box of `width` × `height` cells with a title in its upper border, which takes the look of
the border. -/
def box (width height : Nat) (s : Style) (title : String) : Picture :=
  [⟨⟨0, 0, width, height⟩, .border s⟩,
    ⟨⟨1, 0, width - 2, min 1 height⟩, .glyphs [Span.glyphs ⟨title, .plain⟩]⟩]

end Picture

/-- Rows of cells. -/
abbrev Screen := List (List Cell)

namespace Screen

def ofPicture (width height : Nat) (p : Picture) : Screen :=
  (List.range height).map fun y => (List.range width).map fun x => p.cell x y

/-- The longest runs of cells that look the same. -/
def runs : List Cell → List (List Cell)
  | [] => []
  | c :: cs =>
    match runs cs with
    | (d :: ds) :: rest => if c.sameLook d then (c :: d :: ds) :: rest else [c] :: (d :: ds) :: rest
    | rest => [c] :: rest

end Screen

end MiniC
