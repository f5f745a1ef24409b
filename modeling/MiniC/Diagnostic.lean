import MiniC.Program.Reader
import MiniC.Program.Script
import MiniC.Token.Cursor

/-!
# Diagnostics

Why a source does not compile: the cause found by the first stage that fails, its message, and
the line it is about.
-/

namespace MiniC

/-- The steps from source to JavaScript. -/
inductive Stage
  | lex | parse | codegen
  deriving DecidableEq, Repr

def Stage.name : Stage → String
  | .lex => "lex"
  | .parse => "parse"
  | .codegen => "codegen"

def LexError.message (e : LexError) : String :=
  let cause :=
    match e.fault with
    | .unknownChar c => "Unknown char: " ++ String.singleton c
    | .unterminatedString => "Unterminated string literal"
    | .unterminatedComment => "Unterminated block comment"
    | .invalidNumber digits => "Invalid integer literal: " ++ digits
  cause ++ " at line " ++ toString e.line

namespace ParseError

/-- The offending token. -/
def found : ParseError → Token
  | .expected _ t => t
  | .noOperand t => t

def message : ParseError → String
  | .expected wanted t =>
    "Expected " ++ wanted.name ++ " but got " ++ t.kind.tag.name ++ " at line " ++ toString t.line
  | .noOperand t => "Unexpected token in primary: " ++ t.kind.tag.name

end ParseError

def LayoutError.message (e : LayoutError) : String :=
  "Unknown stmt type: " ++ e.label

inductive Diagnostic
  | lex (error : LexError)
  | parse (error : ParseError)
  | layout (error : LayoutError)
  deriving DecidableEq, Repr

namespace Diagnostic

def stage : Diagnostic → Stage
  | .lex _ => .lex
  | .parse _ => .parse
  | .layout _ => .codegen

def message : Diagnostic → String
  | .lex e => e.message
  | .parse e => e.message
  | .layout e => e.message

/-- The line the diagnostic is about, if it is about one. -/
def line? : Diagnostic → Option Nat
  | .lex e => some e.line
  | .parse e => some e.found.line
  | .layout _ => none

end Diagnostic

end MiniC
