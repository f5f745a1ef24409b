import MiniC.Token.Lexeme

/-!
# Reading tokens

A cursor is a place in a source: what is still to be read, and the line that begins there.
`Cursor.tokens` reads to the end, or up to the first faulty piece, and says where it stopped. A
faulty piece has then been read too, so that reading can go on behind it.
-/

namespace MiniC

/-- A faulty piece of source and the line it starts on. -/
structure LexError where
  fault : Lexeme.Fault
  line : Nat
  deriving DecidableEq, Repr

structure Cursor where
  rest : List Char
  line : Nat
  deriving DecidableEq, Repr

namespace Cursor

def start (source : String) : Cursor := ⟨source.toList, 1⟩

/-- The tokens from the cursor on, the last of which is the end of the source, and the cursor
behind what was read. -/
def tokens : Cursor → Except LexError (List Token) × Cursor
  | ⟨[], line⟩ => (.ok [⟨.eof, line⟩], ⟨[], line⟩)
  | ⟨c :: cs, line⟩ =>
    let lexeme := Lexeme.scan c cs
    let next : Cursor := ⟨lexeme.rest, line + lexeme.text.count '\n'⟩
    match lexeme.reading with
    | .gap => next.tokens
    | .token kind =>
      let read := next.tokens
      (read.1.map (⟨kind, line⟩ :: ·), read.2)
    | .fault fault => (.error ⟨fault, line⟩, next)
termination_by cursor => cursor.rest.length
decreasing_by
  all_goals exact Lexeme.length_rest_lt c cs

end Cursor

/-- The tokens of a source. -/
def tokenize (source : String) : Except LexError (List Token) :=
  (Cursor.start source).tokens.1

end MiniC
