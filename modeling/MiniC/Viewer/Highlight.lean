import MiniC.Token.Lexeme
import MiniC.Viewer.Palette

/-!
# Colouring a line of code

A line is cut into spans: words, strings, a comment up to the end of the line, and all other
characters one by one. Only the line itself is looked at, so a comment over several lines is not
seen as one.
-/

namespace MiniC

inductive Language
  | c | javascript
  deriving DecidableEq, Repr

namespace Highlight

/-- The words of a language that are shown as keywords. -/
def keywords : Language → List String
  | .c => ["return", "if", "else", "while", "for"]
  | .javascript => ["function", "let", "return", "if", "else", "while", "for"]

/-- The style of a word, which depends on the character behind it. -/
def wordStyle (lang : Language) (word : String) (next : Option Char) : Style :=
  if lang == .c && word == "int" then .ofFg Palette.type
  else if (keywords lang).contains word then (Style.ofFg Palette.keyword).inBold
  else if word.toList.all Char.isDigit then .ofFg Palette.number
  else if next == some '(' then .ofFg Palette.function
  else .ofFg Palette.text

/-- The style of a character outside of words and strings. -/
def charStyle (c : Char) : Style :=
  if c = '\x7b' ∨ c = '\x7d' ∨ c = '(' ∨ c = ')' then .ofFg Palette.bracket
  else if c = '#' then .ofFg Palette.comment
  else .ofFg Palette.text

/-- The span of a word, if there is one. -/
def wordSpan (lang : Language) (word : List Char) (next : Option Char) : List Span :=
  if word.isEmpty then []
  else [⟨String.ofList word, wordStyle lang (String.ofList word) next⟩]

/-- What the characters read last belong to. -/
inductive Mode
  /-- A word, which may be empty. -/
  | code (word : List Char)
  /-- A string from its opening quote on; is its next character escaped? -/
  | string (text : List Char) (escaped : Bool)
  deriving DecidableEq, Repr

/-- The spans of the rest of a line. -/
def spansFrom (lang : Language) : Mode → List Char → List Span
  | .code word, [] => wordSpan lang word none
  | .string text _, [] => [⟨String.ofList text, .ofFg Palette.string⟩]
  | .code word, c :: cs =>
    if Lexeme.isNameChar c then spansFrom lang (.code (word ++ [c])) cs
    else
      wordSpan lang word (some c) ++
      if c = '/' ∧ cs.head? = some '/' then [⟨String.ofList (c :: cs), .ofFg Palette.comment⟩]
      else if c = '"' then spansFrom lang (.string [c] false) cs
      else ⟨String.singleton c, charStyle c⟩ :: spansFrom lang (.code []) cs
  | .string text escaped, c :: cs =>
    if c = '"' ∧ escaped = false then
      ⟨String.ofList (text ++ [c]), .ofFg Palette.string⟩ :: spansFrom lang (.code []) cs
    else spansFrom lang (.string (text ++ [c]) (c == '\\' && !escaped)) cs

end Highlight

/-- The spans of a line of code. -/
def highlight (lang : Language) (line : String) : List Span :=
  Highlight.spansFrom lang (.code []) line.toList

end MiniC
