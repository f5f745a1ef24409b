import MiniC.Program
import MiniC.Stmt.Reader

/-!
# Reading programs

A stream is the tokens up to the first end token, which closes it. `Program.read` reads one
program from a stream. If it fails, the offending token has been read and the stream behind it is
what is left, so reading can go on there; the end of the stream is never passed.
-/

namespace MiniC

/-- Tokens, and the line on which they end. -/
structure Stream where
  tokens : List Token
  endLine : Nat
  deriving DecidableEq, Repr, Inhabited

namespace Stream

/-- The stream of the tokens up to the first end token. Without one it ends on the line of the
last token. -/
def ofTokens (ts : List Token) : Stream where
  tokens := ts.takeWhile (·.kind ≠ .eof)
  endLine :=
    match ts.find? (·.kind = .eof), ts.getLast? with
    | some t, _ => t.line
    | none, some t => t.line
    | none, none => 1

/-- The token that closes the stream. -/
def eof (s : Stream) : Token := ⟨.eof, s.endLine⟩

/-- The tokens with an end token behind them, if the last of them is not one already. -/
def closed (ts : List Token) : List Token :=
  match ts.getLast? with
  | none => [⟨.eof, 1⟩]
  | some t => if t.kind = .eof then ts else ts ++ [⟨.eof, t.line⟩]

end Stream

namespace Program

/-- How reading a program ended. -/
structure Outcome where
  /-- The items that were finished, all of them if there is no error. -/
  items : List Stmt
  error : Option ParseError
  /-- What is left to read. -/
  rest : Stream
  deriving Inhabited

/-- Reads on from the state `r`. -/
def readFrom (r : Stmt.Reader) (endLine : Nat) : List Token → Outcome
  | [] =>
    match r.step ⟨.eof, endLine⟩ with
    | .ok r => ⟨r.items, none, ⟨[], endLine⟩⟩
    | .error error => ⟨r.items, some error, ⟨[], endLine⟩⟩
  | t :: ts =>
    match r.step t with
    | .ok r => readFrom r endLine ts
    | .error error => ⟨r.items, some error, ⟨ts, endLine⟩⟩

/-- Reads one program. -/
def read (s : Stream) : Outcome :=
  readFrom .start s.endLine s.tokens

/-- The program that was read, or why there is none. -/
def Outcome.result (o : Outcome) : Except ParseError Program :=
  match o.error with
  | none => .ok ⟨o.items⟩
  | some error => .error error

/-- The program that the tokens up to the first end token spell. -/
def parse (ts : List Token) : Except ParseError Program :=
  (read (.ofTokens ts)).result

end Program

end MiniC
