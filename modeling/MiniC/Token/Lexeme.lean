import MiniC.Text.Blank
import MiniC.Token

/-!
# Lexemes

A source is cut from the left into pieces. `Lexeme.scan` cuts off the first one and says what it
is: a gap (a run of blanks, a comment, a directive line), a token, or a fault. Each piece is as
long as it can be, none is empty, and piece and rest together are the whole source
(`Lexeme.text_append_rest`), so a reader that goes on behind a faulty piece loses nothing.
-/

namespace MiniC

/-- Why a piece of source is neither token nor gap. -/
inductive Lexeme.Fault
  | unknownChar (char : Char)
  | unterminatedString
  | unterminatedComment
  /-- A number too large for a signed 64-bit integer. -/
  | invalidNumber (digits : String)
  deriving DecidableEq, Repr

/-- What a piece of source is. -/
inductive Lexeme.Reading
  | gap
  | token (kind : Kind)
  | fault (fault : Fault)
  deriving DecidableEq, Repr

/-- The first piece of a source, and what follows it. -/
structure Lexeme where
  reading : Lexeme.Reading
  text : List Char
  rest : List Char
  deriving DecidableEq, Repr

namespace Lexeme

def isNameStart (c : Char) : Bool := c.isAlpha || c == '_'

def isNameChar (c : Char) : Bool := c.isAlphanum || c == '_'

/-- Numbers are below this bound, which is 2^63. -/
def numberBound : Nat := 0x8000000000000000

/-- A keyword or a name. -/
def wordKind (name : String) : Kind :=
  match Keyword.ofName? name with
  | some word => .keyword word
  | none => .ident name

/-- What a run of digits is read as. -/
def readNumber (digits : List Char) : Reading :=
  let value := Nat.ofDigitChars 10 digits 0
  if value < numberBound then .token (.number value)
  else .fault (.invalidNumber (String.ofList digits))

/-- The signs of two characters. -/
def pairKind? : Char → Char → Option Kind
  | '=', '=' => some (.op .eq)
  | '!', '=' => some (.op .ne)
  | '<', '=' => some (.op .le)
  | '>', '=' => some (.op .ge)
  | '&', '&' => some (.op .and)
  | '|', '|' => some (.op .or)
  | _, _ => none

/-- The signs of one character. -/
def singleKind? : Char → Option Kind
  | '+' => some (.op .add)
  | '-' => some (.op .sub)
  | '*' => some (.op .mul)
  | '/' => some (.op .div)
  | '%' => some (.op .mod)
  | '<' => some (.op .lt)
  | '>' => some (.op .gt)
  | '=' => some (.mark .assign)
  | ';' => some (.mark .semicolon)
  | ',' => some (.mark .comma)
  | '(' => some (.mark .lparen)
  | ')' => some (.mark .rparen)
  | '\x7b' => some (.mark .lbrace)
  | '\x7d' => some (.mark .rbrace)
  | _ => none

/-- Cuts `cs` behind its first newline, or at its end. -/
def cutLine : List Char → List Char × List Char
  | [] => ([], [])
  | c :: cs =>
    if c = '\n' then ([c], cs)
    else
      let cut := cutLine cs
      (c :: cut.1, cut.2)

/-- Cuts `cs` behind its first `*/`. -/
def cutComment? : List Char → Option (List Char × List Char)
  | [] => none
  | '*' :: '/' :: cs => some (['*', '/'], cs)
  | c :: cs => (cutComment? cs).map fun cut => (c :: cut.1, cut.2)

/-- Cuts `cs` behind its first double quote. -/
def cutString? : List Char → Option (List Char × List Char)
  | [] => none
  | c :: cs => if c = '"' then some ([], cs) else (cutString? cs).map fun cut => (c :: cut.1, cut.2)

/-- A sign of one character, or no sign at all. -/
def scanSingle (c : Char) (cs : List Char) : Lexeme :=
  match singleKind? c with
  | some kind => ⟨.token kind, [c], cs⟩
  | none => ⟨.fault (.unknownChar c), [c], cs⟩

/-- A sign, the longer one if two are possible. -/
def scanSign (c : Char) : List Char → Lexeme
  | [] => scanSingle c []
  | d :: cs =>
    match pairKind? c d with
    | some kind => ⟨.token kind, [c, d], cs⟩
    | none => scanSingle c (d :: cs)

/-- What follows an opening quote. -/
def scanString (cs : List Char) : Lexeme :=
  match cutString? cs with
  | some (raw, rest) => ⟨.token (.string (String.ofList raw)), '"' :: raw ++ ['"'], rest⟩
  | none => ⟨.fault .unterminatedString, '"' :: cs, []⟩

/-- What follows `/*`. -/
def scanComment (cs : List Char) : Lexeme :=
  match cutComment? cs with
  | some (text, rest) => ⟨.gap, '/' :: '*' :: text, rest⟩
  | none => ⟨.fault .unterminatedComment, '/' :: '*' :: cs, []⟩

/-- The first piece of the source `c :: cs`. -/
def scan (c : Char) (cs : List Char) : Lexeme :=
  if isBlank c then ⟨.gap, c :: cs.takeWhile isBlank, cs.dropWhile isBlank⟩
  else if isNameStart c then
    let name := c :: cs.takeWhile isNameChar
    ⟨.token (wordKind (String.ofList name)), name, cs.dropWhile isNameChar⟩
  else if c.isDigit then
    let digits := c :: cs.takeWhile Char.isDigit
    ⟨readNumber digits, digits, cs.dropWhile Char.isDigit⟩
  else if c = '"' then scanString cs
  else if c = '#' then
    let cut := cutLine cs
    ⟨.gap, c :: cut.1, cut.2⟩
  else
    match c, cs with
    | '/', '/' :: cs =>
      let cut := cutLine cs
      ⟨.gap, '/' :: '/' :: cut.1, cut.2⟩
    | '/', '*' :: cs => scanComment cs
    | c, cs => scanSign c cs

theorem cutLine_append (cs : List Char) : (cutLine cs).1 ++ (cutLine cs).2 = cs := by
  induction cs with
  | nil => rfl
  | cons c cs ih => by_cases h : c = '\n' <;> simp [cutLine, h, ih]

theorem cutComment?_append {cs : List Char} :
    ∀ {cut}, cutComment? cs = some cut → cut.1 ++ cut.2 = cs := by
  fun_induction cutComment? cs with
  | case1 => simp
  | case2 cs => simp
  | case3 c cs _ ih =>
    intro cut h
    obtain ⟨cut, hcut, rfl⟩ := Option.map_eq_some_iff.1 h
    simp [ih hcut]

theorem cutString?_append {cs : List Char} :
    ∀ {cut}, cutString? cs = some cut → cut.1 ++ '"' :: cut.2 = cs := by
  induction cs with
  | nil => simp [cutString?]
  | cons c cs ih =>
    intro cut h
    by_cases hc : c = '"'
    · simp only [cutString?, hc, if_true, Option.some.injEq] at h
      simp [← h, hc]
    · simp only [cutString?, hc, if_false] at h
      obtain ⟨cut, hcut, rfl⟩ := Option.map_eq_some_iff.1 h
      simp [ih hcut]

theorem scanSingle_append (c : Char) (cs : List Char) :
    (scanSingle c cs).text ++ (scanSingle c cs).rest = c :: cs := by
  unfold scanSingle
  split <;> rfl

theorem scanSign_append (c : Char) (cs : List Char) :
    (scanSign c cs).text ++ (scanSign c cs).rest = c :: cs := by
  fun_cases scanSign c cs with
  | case1 => exact scanSingle_append c []
  | case2 => rfl
  | case3 d cs => exact scanSingle_append c (d :: cs)

theorem scanString_append (cs : List Char) :
    (scanString cs).text ++ (scanString cs).rest = '"' :: cs := by
  unfold scanString
  split
  · rename_i raw rest h
    simpa using cutString?_append h
  · simp

theorem scanComment_append (cs : List Char) :
    (scanComment cs).text ++ (scanComment cs).rest = '/' :: '*' :: cs := by
  unfold scanComment
  split
  · rename_i text rest h
    simpa using cutComment?_append h
  · simp

/-- Nothing of the source is lost between a piece and its rest. -/
theorem text_append_rest (c : Char) (cs : List Char) :
    (scan c cs).text ++ (scan c cs).rest = c :: cs := by
  unfold scan
  split
  · simp [List.takeWhile_append_dropWhile]
  split
  · simp [List.takeWhile_append_dropWhile]
  split
  · simp [List.takeWhile_append_dropWhile]
  split
  · rename_i h
    rw [h]
    exact scanString_append cs
  split
  · simp [cutLine_append]
  split
  · simp [cutLine_append]
  · exact scanComment_append _
  · exact scanSign_append _ _

theorem scanSign_text_ne_nil (c : Char) (cs : List Char) : (scanSign c cs).text ≠ [] := by
  fun_cases scanSign c cs with
  | case1 => unfold scanSingle; split <;> simp
  | case2 => simp
  | case3 d cs => unfold scanSingle; split <;> simp

/-- No piece is empty. -/
theorem text_ne_nil (c : Char) (cs : List Char) : (scan c cs).text ≠ [] := by
  unfold scan
  split
  · simp
  split
  · simp
  split
  · simp
  split
  · unfold scanString; split <;> simp
  split
  · simp
  split
  · simp
  · unfold scanComment; split <;> simp
  · exact scanSign_text_ne_nil _ _

theorem length_rest_lt (c : Char) (cs : List Char) :
    (scan c cs).rest.length < (c :: cs).length := by
  rw [← text_append_rest c cs, List.length_append]
  have := List.length_pos_iff.2 (text_ne_nil c cs)
  omega

end Lexeme

end MiniC
