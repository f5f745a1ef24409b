import Mathlib
import MiniC.Text.Quoted

/-!
# Decoding quoted text

A quoted text is a string of JSON: it has no control character, it ends at the first quote that no
backslash escapes, and what stands between its quotes decodes to the text that was quoted.

`unescape` follows the rules of JSON and knows nothing of how texts are quoted, so it also takes
escapes that are never written, such as a solidus, capital digits and pairs of surrogates. What a
character can be written as is said once, in `quoteChar_cases`.
-/

namespace MiniC

/-! ## Strings of JSON -/

/-- The character that a backslash and the given one stand for. -/
def shortEscape? : Char → Option Char
  | '"' => some '"'
  | '\\' => some '\\'
  | '/' => some '/'
  | 'b' => some '\x08'
  | 'f' => some '\x0c'
  | 'n' => some '\n'
  | 'r' => some '\r'
  | 't' => some '\t'
  | _ => none

def hexDigit? (c : Char) : Option Nat :=
  if c.isDigit then some (c.toNat - 48)
  else if 'a' ≤ c ∧ c ≤ 'f' then some (c.toNat - 87)
  else if 'A' ≤ c ∧ c ≤ 'F' then some (c.toNat - 55)
  else none

def hexNumber? (digits : List Char) : Option Nat :=
  digits.foldlM (fun n d => (hexDigit? d).map (16 * n + ·)) 0

def isSurrogate (n : Nat) : Bool := 0xd800 ≤ n && n < 0xe000

/-- The character beyond the first 65536 that two surrogates stand for. -/
def surrogatePair? (high low : Nat) : Option Char :=
  if high < 0xdc00 ∧ 0xdc00 ≤ low ∧ low < 0xe000 then
    some (Char.ofNat (0x10000 + 0x400 * (high - 0xd800) + (low - 0xdc00)))
  else none

/-- What the characters between the quotes of a JSON string stand for. -/
def unescape : List Char → Option (List Char)
  | [] => some []
  | '\\' :: 'u' :: a :: b :: c :: d :: cs =>
    match hexNumber? [a, b, c, d] with
    | none => none
    | some n =>
      if isSurrogate n then
        match cs with
        | '\\' :: 'u' :: a' :: b' :: c' :: d' :: ds =>
          match (hexNumber? [a', b', c', d']).bind (surrogatePair? n) with
          | none => none
          | some x => (unescape ds).map (x :: ·)
        | _ => none
      else (unescape cs).map (Char.ofNat n :: ·)
  | '\\' :: c :: cs =>
    match shortEscape? c with
    | none => none
    | some x => (unescape cs).map (x :: ·)
  | c :: cs =>
    if c = '"' ∨ c = '\\' ∨ c.toNat < 0x20 then none else (unescape cs).map (c :: ·)

example : unescape "\\ud83D\\uDe00\\/\\u00e9é".toList = some "😀/éé".toList := by cbv

/-- What stands in front of the first quote that is not escaped, and what follows it. -/
def untilQuote : List Char → Option (List Char × List Char)
  | [] => none
  | '"' :: cs => some ([], cs)
  | '\\' :: c :: cs => (untilQuote cs).map (Prod.map ('\\' :: c :: ·) id)
  | c :: cs => (untilQuote cs).map (Prod.map (c :: ·) id)

/-- The text of a string that opens with the first character, and what follows the string. -/
def stringBody : List Char → Option (List Char × List Char)
  | '"' :: cs => untilQuote cs
  | _ => none

/-- Up to its quote a text is made of escapes and of characters that stand for themselves. -/
theorem untilQuote_induction {motive : List Char → List Char → Prop} {rest : List Char}
    (quote : motive ('"' :: rest) [])
    (escape : ∀ c cs body, motive cs body → motive ('\\' :: c :: cs) ('\\' :: c :: body))
    (plain : ∀ c cs body, c ≠ '"' → c ≠ '\\' → motive cs body → motive (c :: cs) (c :: body))
    {cs body : List Char} (h : untilQuote cs = some (body, rest)) : motive cs body := by
  fun_induction untilQuote cs generalizing body with
  | case1 => cases h
  | case2 cs =>
    cases h
    exact quote
  | case3 c cs ih =>
    obtain ⟨⟨b, r⟩, hcs, hr⟩ := Option.map_eq_some_iff.1 h
    cases hr
    exact escape c cs b (ih hcs)
  | case4 c cs hquote hback ih =>
    obtain ⟨⟨b, r⟩, hcs, hr⟩ := Option.map_eq_some_iff.1 h
    cases hr
    refine plain c cs b hquote ?_ (ih hcs)
    rintro rfl
    -- a backslash at the end of the text is in front of no quote
    rcases cs with _ | ⟨d, cs⟩
    · cases hcs
    · exact hback d cs rfl rfl

/-! ## How a character is quoted -/

/-- A character stands for itself, or it is a short escape, or two digits give its number. -/
theorem quoteChar_cases (c : Char) :
    (quoteChar c = [c] ∧ c ≠ '"' ∧ c ≠ '\\' ∧ 0x20 ≤ c.toNat) ∨
      (∃ d, quoteChar c = ['\\', d] ∧ shortEscape? d = some c) ∨
      (∃ high < 16, ∃ low < 16, c.toNat = 16 * high + low ∧ c.toNat < 0x20 ∧
        quoteChar c = ['\\', 'u', '0', '0', Nat.digitChar high, Nat.digitChar low]) := by
  fun_cases quoteChar c with
  | case8 h1 h2 h3 h4 h5 h6 h7 hlow =>
    exact .inr (.inr ⟨_, by omega, _, by omega, (Nat.div_add_mod c.toNat 16).symm, hlow, rfl⟩)
  | case9 hquote hback h3 h4 h5 h6 h7 hlow => exact .inl ⟨rfl, hquote, hback, by omega⟩
  | _ =>
    subst_vars
    exact .inr (.inl ⟨_, rfl, rfl⟩)

theorem printable_of_shortEscape? {d c : Char} (h : shortEscape? d = some c) :
    0x20 ≤ d.toNat := by
  unfold shortEscape? at h
  split at h
  iterate 8
    · decide
  · cases h

theorem printable_digitChar : ∀ n < 16, 0x20 ≤ (Nat.digitChar n).toNat := by decide

theorem hexDigit?_digitChar : ∀ n < 16, hexDigit? (Nat.digitChar n) = some n := by decide

theorem digitChar_ne : ∀ n < 16, Nat.digitChar n ≠ '"' ∧ Nat.digitChar n ≠ '\\' := by decide

theorem printable_quoteChar (c : Char) : ∀ d ∈ quoteChar c, 0x20 ≤ d.toNat := by
  rcases quoteChar_cases c with ⟨hc, -, -, hlow⟩ | ⟨d, hc, hd⟩ | ⟨high, hhigh, low, hlow, -, -, hc⟩
  · simpa [hc] using hlow
  · simpa [hc] using printable_of_shortEscape? hd
  · simpa [hc] using ⟨printable_digitChar high hhigh, printable_digitChar low hlow⟩

theorem quote_notMem_quoteChar {c : Char} (h : '"' ≠ c) : '"' ∉ quoteChar c := by
  rcases quoteChar_cases c with ⟨hc, -⟩ | ⟨d, hc, hd⟩ | ⟨high, hhigh, low, hlow, -, -, hc⟩
  · simpa [hc] using h
  · have hquote : '"' ≠ d := by
      rintro rfl
      exact h (Option.some.inj hd)
    simpa [hc] using hquote
  · have hhigh := (digitChar_ne high hhigh).1.symm
    have hlow := (digitChar_ne low hlow).1.symm
    simp [hc, hhigh, hlow]

theorem unescape_quoteChar (c : Char) (cs : List Char) :
    unescape (quoteChar c ++ cs) = (unescape cs).map (c :: ·) := by
  rcases quoteChar_cases c with ⟨hc, hquote, hback, hlow⟩ | ⟨d, hc, hd⟩ |
    ⟨high, hhigh, low, hlow, hvalue, hlt, hc⟩
  · have hraw : ¬(c = '"' ∨ c = '\\' ∨ c.toNat < 0x20) := by
      rw [not_or, not_or, not_lt]
      exact ⟨hquote, hback, hlow⟩
    rw [hc, List.singleton_append, unescape, if_neg hraw]
    all_goals intros; contradiction
  · rw [hc, List.cons_append, List.singleton_append, unescape, hd]
    -- no short escape is the start of a number
    rintro _ _ _ _ _ rfl
    cases hd
  · have hzero : hexDigit? '0' = some 0 := by decide
    have hnumber : hexNumber? ['0', '0', Nat.digitChar high, Nat.digitChar low] = some c.toNat := by
      simp [hexNumber?, hzero, hexDigit?_digitChar _ hhigh, hexDigit?_digitChar _ hlow, hvalue]
    have hscalar : isSurrogate c.toNat = false := by
      rw [isSurrogate, Bool.and_eq_false_iff, decide_eq_false_iff_not]
      omega
    simp [hc, unescape, hnumber, hscalar]

theorem untilQuote_cons {c : Char} (cs : List Char) (hquote : c ≠ '"') (hback : c ≠ '\\') :
    untilQuote (c :: cs) = (untilQuote cs).map (Prod.map (c :: ·) id) := by
  rw [untilQuote]
  all_goals intros; contradiction

theorem untilQuote_quoteChar (c : Char) (cs : List Char) :
    untilQuote (quoteChar c ++ cs) = (untilQuote cs).map (Prod.map (quoteChar c ++ ·) id) := by
  rcases quoteChar_cases c with ⟨hc, hquote, hback, hlow⟩ | ⟨d, hc, hd⟩ |
    ⟨high, hhigh, low, hlow, -, -, hc⟩
  · rw [hc]
    exact untilQuote_cons cs hquote hback
  · rw [hc]
    rfl
  · obtain ⟨hquote, hback⟩ := digitChar_ne high hhigh
    obtain ⟨hquote', hback'⟩ := digitChar_ne low hlow
    rw [hc]
    show untilQuote ('\\' :: 'u' :: '0' :: '0' :: high.digitChar :: low.digitChar :: cs) = _
    rw [untilQuote, untilQuote_cons _ (by decide) (by decide),
      untilQuote_cons _ (by decide) (by decide), untilQuote_cons _ hquote hback,
      untilQuote_cons _ hquote' hback']
    cases untilQuote cs <;> rfl

/-! ## Quoted texts -/

theorem quoteBody_cons (c : Char) (cs : List Char) :
    quoteBody (c :: cs) = quoteChar c ++ quoteBody cs := rfl

theorem toList_quoted (text : String) :
    (quoted text).toList = '"' :: (quoteBody text.toList ++ ['"']) := by
  simp [quoted]

theorem printable_quoteBody (cs : List Char) : ∀ d ∈ quoteBody cs, 0x20 ≤ d.toNat := by
  intro d hd
  obtain ⟨c, -, hd⟩ := List.mem_flatMap.1 hd
  exact printable_quoteChar c d hd

theorem quote_notMem_quoteBody {cs : List Char} (h : '"' ∉ cs) : '"' ∉ quoteBody cs := by
  intro hmem
  obtain ⟨c, hc, hquote⟩ := List.mem_flatMap.1 hmem
  exact quote_notMem_quoteChar (fun heq => h (heq ▸ hc)) hquote

theorem unescape_quoteBody (cs : List Char) : unescape (quoteBody cs) = some cs := by
  induction cs with
  | nil => rfl
  | cons c cs ih => rw [quoteBody_cons, unescape_quoteChar, ih, Option.map_some]

theorem untilQuote_quoteBody (cs rest : List Char) :
    untilQuote (quoteBody cs ++ '"' :: rest) = some (quoteBody cs, rest) := by
  induction cs with
  | nil => rfl
  | cons c cs ih =>
    rw [quoteBody_cons, List.append_assoc, untilQuote_quoteChar, ih]
    rfl

/-- A quoted text has no control character, it ends at its first quote that is not escaped, and
what stands before that quote decodes to the text. -/
theorem unescape_stringBody_quoted (text rest : String) :
    (∀ c ∈ (quoted text).toList, 0x20 ≤ c.toNat) ∧
      ∃ body, (quoted text).toList = '"' :: (body ++ ['"']) ∧
        stringBody (quoted text ++ rest).toList = some (body, rest.toList) ∧
        unescape body = some text.toList := by
  refine ⟨?_, quoteBody text.toList, toList_quoted text, ?_, unescape_quoteBody text.toList⟩
  · have hquote : 0x20 ≤ '"'.toNat := by decide
    have hbody := printable_quoteBody text.toList
    simp only [toList_quoted, List.forall_mem_cons, List.forall_mem_append]
    exact ⟨hquote, hbody, hquote, List.forall_mem_nil _⟩
  · rw [String.toList_append, toList_quoted, List.cons_append, List.append_assoc]
    exact untilQuote_quoteBody text.toList rest.toList

end MiniC
