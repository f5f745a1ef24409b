import MiniC.Outline
import MiniC.Text.Escaped
import MiniC.Token

/-!
# Tokens in outline form
-/

namespace MiniC

def Keyword.label : Keyword → String
  | .int => "Int"
  | .return_ => "Return"
  | .if_ => "If"
  | .else_ => "Else"
  | .while_ => "While"
  | .for_ => "For"

def Mark.label : Mark → String
  | .assign => "Assign"
  | .semicolon => "Semicolon"
  | .comma => "Comma"
  | .lparen => "LParen"
  | .rparen => "RParen"
  | .lbrace => "LBrace"
  | .rbrace => "RBrace"

/-- The name of an operator's sign; `BinOp.label` names the operation. -/
def BinOp.signLabel : BinOp → String
  | .or => "OrOr"
  | .and => "AndAnd"
  | .eq => "EqEq"
  | .ne => "NotEq"
  | .lt => "Lt"
  | .gt => "Gt"
  | .le => "Le"
  | .ge => "Ge"
  | .add => "Plus"
  | .sub => "Minus"
  | .mul => "Star"
  | .div => "Slash"
  | .mod => "Percent"

def Kind.outline : Kind → Outline
  | .number n => .tuple "Number" [.atom (toString n)]
  | .string raw => .tuple "Str" [.atom (escaped raw)]
  | .ident name => .tuple "Ident" [.atom (escaped name)]
  | .keyword word => .atom word.label
  | .op o => .atom o.signLabel
  | .mark m => .atom m.label
  | .eof => .atom "Eof"

def Token.outline (t : Token) : Outline :=
  .record "Token" [("kind", t.kind.outline), ("line", .atom (toString t.line))]

end MiniC
