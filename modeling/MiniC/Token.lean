import MiniC.BinOp
import MiniC.Text.Align

/-!
# Tokens

A token is a kind and the line its spelling starts on. Numbers, strings and names carry their
content; `Tag` is the kind without it, which is what messages speak of. The end of the source is
a token too.
-/

namespace MiniC

inductive Keyword
  | int | return_ | if_ | else_ | while_ | for_
  deriving DecidableEq, Repr, Inhabited

/-- The signs that are no binary operator. -/
inductive Mark
  | assign | semicolon | comma | lparen | rparen | lbrace | rbrace
  deriving DecidableEq, Repr, Inhabited

/-- What a token is, without its content. -/
inductive Tag
  | number | string | ident
  | keyword (word : Keyword)
  | op (op : BinOp)
  | mark (mark : Mark)
  | eof
  deriving DecidableEq, Repr, Inhabited

/-- What a token is, with its content. A string is kept as it is written between its quotes. -/
inductive Kind
  | number (value : Int)
  | string (raw : String)
  | ident (name : String)
  | keyword (word : Keyword)
  | op (op : BinOp)
  | mark (mark : Mark)
  | eof
  deriving DecidableEq, Repr, Inhabited

structure Token where
  kind : Kind
  /-- The line the token starts on, counted from 1. -/
  line : Nat
  deriving DecidableEq, Repr, Inhabited

namespace Keyword

def spelling : Keyword → String
  | .int => "int"
  | .return_ => "return"
  | .if_ => "if"
  | .else_ => "else"
  | .while_ => "while"
  | .for_ => "for"

def all : List Keyword := [.int, .return_, .if_, .else_, .while_, .for_]

/-- The keyword spelled `name`. -/
def ofName? (name : String) : Option Keyword :=
  all.find? fun word => word.spelling == name

/-- The keyword's name in messages. -/
def name : Keyword → String
  | .int => "INT"
  | .return_ => "RETURN"
  | .if_ => "IF"
  | .else_ => "ELSE"
  | .while_ => "WHILE"
  | .for_ => "FOR"

end Keyword

namespace Mark

def spelling : Mark → Char
  | .assign => '='
  | .semicolon => ';'
  | .comma => ','
  | .lparen => '('
  | .rparen => ')'
  | .lbrace => '\x7b'
  | .rbrace => '\x7d'

/-- The sign's name in messages. -/
def name : Mark → String
  | .assign => "ASSIGN"
  | .semicolon => "SEMICOLON"
  | .comma => "COMMA"
  | .lparen => "LPAREN"
  | .rparen => "RPAREN"
  | .lbrace => "LBRACE"
  | .rbrace => "RBRACE"

end Mark

/-- The operator's name in messages: its spelling if that has two characters, else a word. -/
def BinOp.name : BinOp → String
  | .lt => "LT"
  | .gt => "GT"
  | .add => "PLUS"
  | .sub => "MINUS"
  | .mul => "STAR"
  | .div => "SLASH"
  | .mod => "PERC"
  | op => op.spelling

/-- The tag's name in messages. -/
def Tag.name : Tag → String
  | .number => "NUMBER"
  | .string => "STRING"
  | .ident => "IDENT"
  | .keyword word => word.name
  | .op o => o.name
  | .mark m => m.name
  | .eof => "EOF"

namespace Kind

def tag : Kind → Tag
  | .number _ => .number
  | .string _ => .string
  | .ident _ => .ident
  | .keyword word => .keyword word
  | .op o => .op o
  | .mark m => .mark m
  | .eof => .eof

/-- The kind's name, with its content in brackets if it has one. -/
def render : Kind → String
  | .number n => "NUMBER(" ++ toString n ++ ")"
  | .string raw => "STRING(\"" ++ raw ++ "\")"
  | .ident name => "IDENT(" ++ name ++ ")"
  | kind => kind.tag.name

end Kind

/-- One line of a token listing: the line number in four columns, then the kind. -/
def Token.render (t : Token) : String :=
  alignRight 4 (toString t.line) ++ "  " ++ t.kind.render

end MiniC
