import MiniC.Text.Blank

/-!
# Word wrap

A line of text is broken into rows of a width. Rows end between words; a word longer than a row
is broken. Blanks at the end of a row are dropped as far as they do not fit, all others stay.

The text is read character by character. Its last word and the blanks in front of that word are
kept apart from the current row until it is clear that they fit.
-/

namespace MiniC

/-- The state of wrapping a line. -/
structure Wrap where
  /-- Rows that are complete. -/
  rows : List (List Char)
  /-- The current row. -/
  row : List Char
  /-- Blanks behind the current row. -/
  blanks : List Char
  /-- The word behind the blanks. -/
  word : List Char
  /-- Was the last character part of a word? -/
  inWord : Bool
  deriving DecidableEq, Repr

namespace Wrap

def start : Wrap := ⟨[], [], [], [], false⟩

/-- Takes the word and its blanks into the current row. -/
def commit (w : Wrap) : Wrap :=
  { w with row := w.row ++ w.blanks ++ w.word, blanks := [], word := [] }

def push (c : Char) (w : Wrap) : Wrap :=
  if isBlank c then { w with blanks := w.blanks ++ [c], inWord := false }
  else { w with word := w.word ++ [c], inWord := true }

/-- Completes the current row; blanks that would have fitted into it are dropped. -/
def breakRow (width : Nat) (w : Wrap) : Wrap :=
  { w with rows := w.rows ++ [w.row], row := [], blanks := w.blanks.drop (width - w.row.length) }

/-- A word is over, or fills a row of its own. -/
def commits (width : Nat) (c : Char) (w : Wrap) : Bool :=
  (w.inWord && isBlank c) || (w.row.isEmpty && w.word.length + w.blanks.length + 1 > width)

/-- The current row takes no more. -/
def isFull (width : Nat) (w : Wrap) : Bool :=
  w.row.length ≥ width || w.row.length + w.blanks.length + w.word.length ≥ width

/-- Reads one character. A blank right behind a break is dropped. -/
def step (width : Nat) (w : Wrap) (c : Char) : Wrap :=
  let w := if w.commits width c then w.commit else w
  if w.isFull width then
    let w := w.breakRow width
    if isBlank c && w.blanks.isEmpty then w else w.push c
  else w.push c

/-- All rows, at least one. -/
def finish (w : Wrap) : List (List Char) :=
  let rows :=
    if w.row.isEmpty && w.word.isEmpty && !w.blanks.isEmpty then w.rows ++ [[]] else w.rows
  let last := w.commit.row
  let rows := if last.isEmpty then rows else rows ++ [last]
  if rows.isEmpty then [[]] else rows

end Wrap

/-- The rows of a line of text, each of at most `width` characters. -/
def wrap (width : Nat) (line : String) : List (List Char) :=
  (line.toList.foldl (Wrap.step width) .start).finish

end MiniC
