import MiniC.Proofs.StringSpans
import MiniC.Proofs.Tokenization

/-!
# Strings of a source in colour

A string of a source ends at its first quote, whatever stands in front of it. In the colours that
quote may be escaped, and then the string goes on. So the strings in colour are the strings that are
read only where no string ends with an escape, that is with an odd number of backslashes. At the end
of the source it does not matter, since nothing is left to go on with.

`ShowsUnlessEscaped` says this of any text and its strings. It is kept where something without a
quote is put in front (`ShowsUnlessEscaped.append`) and where a string is
(`ShowsUnlessEscaped.string`), and a source is such pieces (`Piece.Fits.quote_cases`).
-/

namespace MiniC

open Lexeme

namespace Highlight

/-- Is the character behind the text of a string escaped? -/
def escapeAfter (escaped : Bool) (cs : List Char) : Bool :=
  cs.foldl (fun escaped c => c == '\\' && !escaped) escaped

/-- A backslash escapes what follows it, unless it is escaped itself. -/
theorem escapeAfter_eq_true_iff (cs : List Char) :
    escapeAfter false cs = true ↔ Odd (cs.rtakeWhile (· = '\\')).length := by
  induction cs using List.reverseRecOn with
  | nil => decide
  | append_singleton cs c ih =>
    have hstep : escapeAfter false (cs ++ [c]) = (c == '\\' && !escapeAfter false cs) :=
      List.foldl_concat ..
    rw [hstep, Bool.and_eq_true, beq_iff_eq, Bool.not_eq_true', ← Bool.not_eq_true, ih]
    by_cases hc : c = '\\'
    · rw [List.rtakeWhile_concat_pos _ _ _ (by simpa using hc), List.length_append,
        List.length_singleton, Nat.odd_add_one]
      exact and_iff_right hc
    · rw [List.rtakeWhile_concat_neg _ _ _ (by simpa using hc)]
      simp [hc]

theorem spansFrom_string_append (lang : Language) {body : List Char} (h : '"' ∉ body)
    (text : List Char) (escaped : Bool) (cs : List Char) :
    spansFrom lang (.string text escaped) (body ++ cs) =
      spansFrom lang (.string (text ++ body) (escapeAfter escaped body)) cs := by
  induction body generalizing text escaped with
  | nil => rw [List.append_nil]; rfl
  | cons c body ih =>
    rw [List.mem_cons, not_or] at h
    rw [List.cons_append, spansFrom, if_neg fun hc => h.1 hc.1.symm, ih h.2, List.append_assoc]
    rfl

/-- A string that is not closed goes on at least to the end of what is read of it. -/
theorem exists_spansFrom_string (lang : Language) (text : List Char) (escaped : Bool)
    (cs : List Char) : ∃ more spans,
      spansFrom lang (.string text escaped) cs = stringSpan (text ++ more) :: spans ∧
        (cs ≠ [] → more ≠ []) := by
  induction cs generalizing text escaped with
  | nil => exact ⟨[], [], by rw [List.append_nil]; rfl, absurd rfl⟩
  | cons c cs ih =>
    rw [spansFrom]
    split
    · exact ⟨[c], _, rfl, by simp⟩
    · obtain ⟨more, spans, hspans, -⟩ := ih (text ++ [c]) (c == '\\' && !escaped)
      exact ⟨c :: more, spans, by rw [hspans, List.append_assoc]; rfl, by simp⟩

/-- The texts with the colour of strings. -/
def stringTexts (lang : Language) (cs : List Char) : List String :=
  coloured Palette.string (proseOf lang cs)

end Highlight

open Highlight

/-- A string with its quotes around it. -/
def stringSpelling (raw : String) : String := String.ofList ('"' :: (raw.toList ++ ['"']))

/-- The string ends with an odd number of backslashes, so that the last one is not escaped. -/
def EndsEscaping (raw : String) : Prop := Odd (raw.toList.rtakeWhile (· = '\\')).length

instance (raw : String) : Decidable (EndsEscaping raw) := inferInstanceAs (Decidable (Odd _))

namespace Highlight

section Literal

variable {raw : String} (lang : Language) (hraw : '"' ∉ raw.toList)

include hraw

/-- How a string is coloured depends on whether its closing quote is escaped. -/
theorem stringTexts_string (cs : List Char) :
    stringTexts lang ('"' :: (raw.toList ++ '"' :: cs)) =
      coloured Palette.string (prose (spansFrom lang
        (.string ('"' :: raw.toList) (escapeAfter false raw.toList)) ('"' :: cs))) := by
  rw [stringTexts, proseOf_string, spansFrom_string_append lang hraw]
  rfl

theorem stringTexts_closed (hend : ¬ EndsEscaping raw) (cs : List Char) :
    stringTexts lang ('"' :: (raw.toList ++ '"' :: cs)) =
      stringSpelling raw :: stringTexts lang cs := by
  have hescape : escapeAfter false raw.toList = false := by
    rw [Bool.eq_false_iff, ne_eq, escapeAfter_eq_true_iff]
    exact hend
  rw [stringTexts_string lang hraw, hescape, spansFrom, if_pos ⟨rfl, rfl⟩]
  rfl

theorem stringTexts_escaped (hend : EndsEscaping raw) (cs : List Char) :
    stringTexts lang ('"' :: (raw.toList ++ '"' :: cs)) =
      coloured Palette.string (prose (spansFrom lang
        (.string ('"' :: (raw.toList ++ ['"'])) false) cs)) := by
  rw [stringTexts_string lang hraw, (escapeAfter_eq_true_iff _).2 hend, spansFrom,
    if_neg (by simp)]
  rfl

/-- Where nothing follows, it does not matter whether the quote is escaped. -/
theorem stringTexts_last : stringTexts lang ('"' :: (raw.toList ++ ['"'])) =
    [stringSpelling raw] := by
  by_cases hend : EndsEscaping raw
  · rw [stringTexts_escaped lang hraw hend]
    rfl
  · rw [stringTexts_closed lang hraw hend, stringTexts, proseOf_nil]
    rfl

/-- Where something follows, a string with an escaped quote is longer than it should be. -/
theorem stringTexts_open (hend : EndsEscaping raw) {cs : List Char} (hcs : cs ≠ [])
    (texts : List String) :
    stringTexts lang ('"' :: (raw.toList ++ '"' :: cs)) ≠ stringSpelling raw :: texts := by
  obtain ⟨more, spans, hspans, hmore⟩ :=
    exists_spansFrom_string lang ('"' :: (raw.toList ++ ['"'])) false cs
  rw [stringTexts_escaped lang hraw hend, hspans]
  intro h
  have hhead : String.ofList ('"' :: (raw.toList ++ ['"']) ++ more) = stringSpelling raw :=
    (List.cons.inj h).1
  rw [stringSpelling, String.ofList_inj] at hhead
  exact hmore hcs (List.append_right_eq_self.1 hhead)

end Literal

theorem stringTexts_append (lang : Language) {xs : List Char} (hquote : '"' ∉ xs)
    (hhash : '#' ∉ xs) (hslash : '/' ∉ xs) (cs : List Char) :
    stringTexts lang (xs ++ cs) = stringTexts lang cs := by
  rw [stringTexts, proseOf_append lang hquote hhash hslash, stringTexts]

end Highlight

/-! ## Tokens and gaps -/

theorem quote_notMem_of_spells {k : Kind} {text : List Char} (h : Spells k text)
    (hk : k.string? = none) : '"' ∉ text := by
  intro hmem
  cases h with
  | number hne hdigits hbound => exact absurd (hdigits _ hmem) (by decide)
  | string => cases hk
  | ident hc hcs hword =>
    rcases List.mem_cons.1 hmem with rfl | hmem
    · exact absurd hc (by decide)
    · exact absurd (hcs _ hmem) (by decide)
  | keyword word => cases word <;> exact absurd hmem (by decide)
  | op o => cases o <;> exact absurd hmem (by decide)
  | mark m => cases m <;> exact absurd hmem (by decide)

/-- A gap without comments and directives is blank, so it has no quote. -/
theorem quote_notMem_gap {gap rest : List Char} (h : Gap gap rest) (hhash : '#' ∉ gap)
    (hslash : '/' ∉ gap) : '"' ∉ gap := by
  induction h with
  | nil => simp
  | blank hc h ih =>
    rw [List.mem_cons, not_or] at hhash hslash ⊢
    refine ⟨?_, ih hhash.2 hslash.2⟩
    rintro rfl
    exact absurd hc (by decide)
  | comment | lastComment | block => exact absurd List.mem_cons_self hslash
  | directive | lastDirective => exact absurd List.mem_cons_self hhash

/-! ## Strings with something behind them -/

/-- The strings among the tokens. -/
def tokenStrings (ts : List Token) : List String := ts.filterMap (·.kind.string?)

theorem tokenStrings_of_eq_none {t : Token} (h : t.kind.string? = none) (ts : List Token) :
    tokenStrings (t :: ts) = tokenStrings ts :=
  List.filterMap_cons_none h

theorem tokenStrings_of_eq_some {t : Token} {raw : String} (h : t.kind.string? = some raw)
    (ts : List Token) : tokenStrings (t :: ts) = raw :: tokenStrings ts :=
  List.filterMap_cons_some h

/-- The strings of a text without the one that ends it, if one does. -/
def followedStrings (cs : List Char) (raws : List String) : List String :=
  if cs.getLast? = some '"' then raws.dropLast else raws

theorem followedStrings_append {xs : List Char} (h : '"' ∉ xs) (cs : List Char)
    (raws : List String) : followedStrings (xs ++ cs) raws = followedStrings cs raws := by
  rcases cs with _ | ⟨c, cs⟩
  · have hlast : xs.getLast? ≠ some '"' := fun hlast => h (List.mem_of_getLast? hlast)
    rw [List.append_nil, followedStrings, followedStrings, if_neg hlast, if_neg (by simp)]
  · rw [followedStrings, List.getLast?_append_of_ne_nil _ (List.cons_ne_nil c cs), followedStrings]

theorem followedStrings_cons (raw : String) {cs : List Char} {raws : List String} (hcs : cs ≠ [])
    (hraws : '"' ∈ cs → raws ≠ []) :
    followedStrings ('"' :: (raw.toList ++ '"' :: cs)) (raw :: raws) =
      raw :: followedStrings cs raws := by
  have hlast : ('"' :: (raw.toList ++ '"' :: cs)).getLast? = cs.getLast? := by
    rw [← List.getLast?_append_of_ne_nil ('"' :: (raw.toList ++ ['"'])) hcs]
    simp
  rw [followedStrings, hlast, followedStrings]
  split_ifs with hquote
  · exact List.dropLast_cons_of_ne_nil (hraws (List.mem_of_getLast? hquote))
  · rfl

/-- In the colours of a text the strings are the given ones, exactly if none of them with something
behind it ends with an escape. -/
def ShowsUnlessEscaped (lang : Language) (cs : List Char) (raws : List String) : Prop :=
  stringTexts lang cs = raws.map stringSpelling ↔
    ∀ raw ∈ followedStrings cs raws, ¬ EndsEscaping raw

theorem showsUnlessEscaped_nil (lang : Language) : ShowsUnlessEscaped lang [] [] := by
  have hnil : stringTexts lang [] = [] := by
    rw [stringTexts, proseOf_nil]
    rfl
  exact iff_of_true hnil (List.forall_mem_nil _)

theorem ShowsUnlessEscaped.append {lang : Language} {cs : List Char} {raws : List String}
    (h : ShowsUnlessEscaped lang cs raws) {xs : List Char} (hquote : '"' ∉ xs) (hhash : '#' ∉ xs)
    (hslash : '/' ∉ xs) : ShowsUnlessEscaped lang (xs ++ cs) raws := by
  rw [ShowsUnlessEscaped, stringTexts_append lang hquote hhash hslash,
    followedStrings_append hquote]
  exact h

theorem ShowsUnlessEscaped.string {lang : Language} {cs : List Char} {raws : List String}
    (h : ShowsUnlessEscaped lang cs raws) {raw : String} (hraw : '"' ∉ raw.toList)
    (hraws : '"' ∈ cs → raws ≠ []) (hnil : cs = [] → raws = []) :
    ShowsUnlessEscaped lang ('"' :: (raw.toList ++ '"' :: cs)) (raw :: raws) := by
  by_cases hcs : cs = []
  · obtain rfl := hcs
    obtain rfl := hnil rfl
    have hfollowed : followedStrings ('"' :: (raw.toList ++ ['"'])) [raw] = [] :=
      if_pos (by rw [← List.cons_append]; exact List.getLast?_concat)
    refine iff_of_true (stringTexts_last lang hraw) ?_
    rw [hfollowed]
    exact List.forall_mem_nil _
  · rw [ShowsUnlessEscaped, followedStrings_cons raw hcs hraws, List.forall_mem_cons, List.map_cons]
    by_cases hend : EndsEscaping raw
    · exact iff_of_false (stringTexts_open lang hraw hend hcs _) fun h => h.1 hend
    · rw [stringTexts_closed lang hraw hend, List.cons_inj_right, and_iff_right hend]
      exact h

/-! ## The strings of a source -/

theorem Kind.eq_string {k : Kind} {raw : String} (h : k.string? = some raw) : k = .string raw := by
  cases k <;> cases h
  rfl

/-- A piece is a string and a gap, or it has no quote. -/
theorem Piece.Fits.quote_cases {p : Piece} {line : Nat} {rest : List Char} (h : p.Fits line rest)
    (hhash : '#' ∉ p.source) (hslash : '/' ∉ p.source) :
    (p.token.kind.string? = none ∧ '"' ∉ p.source) ∨
      ∃ raw, p.token.kind.string? = some raw ∧ '"' ∉ raw.toList ∧ '"' ∉ p.gap ∧
        p.source = '"' :: (raw.toList ++ '"' :: p.gap) := by
  obtain ⟨token, text, gap⟩ := p
  simp only [source, List.mem_append, not_or] at hhash hslash ⊢
  have hgap := quote_notMem_gap h.gap hhash.2 hslash.2
  have hspells := h.spells
  rcases hstring : token.kind.string? with _ | raw
  · exact .inl ⟨rfl, quote_notMem_of_spells hspells hstring, hgap⟩
  · rw [Kind.eq_string hstring] at hspells
    cases hspells with
    | string hraw => exact .inr ⟨_, rfl, by simpa using hraw, hgap, by simp⟩

theorem tokenStrings_ne_nil {ps : List Piece} {line : Nat} (hcut : Cut line ps)
    (hhash : '#' ∉ ps.flatMap Piece.source) (hslash : '/' ∉ ps.flatMap Piece.source)
    (h : '"' ∈ ps.flatMap Piece.source) : tokenStrings (ps.map Piece.token) ≠ [] := by
  induction ps generalizing line with
  | nil => simp at h
  | cons p ps ih =>
    obtain ⟨hfits, hcut⟩ := hcut
    rw [List.flatMap_cons, List.mem_append] at h hhash hslash
    rw [not_or] at hhash hslash
    rcases hfits.quote_cases hhash.1 hslash.1 with ⟨hnone, hquote⟩ | ⟨raw, hsome, -⟩
    · rw [List.map_cons, tokenStrings_of_eq_none hnone]
      exact ih hcut hhash.2 hslash.2 (h.resolve_left hquote)
    · rw [List.map_cons, tokenStrings_of_eq_some hsome]
      exact List.cons_ne_nil _ _

theorem Cut.eq_nil {ps : List Piece} {line : Nat} (hcut : Cut line ps)
    (h : ps.flatMap Piece.source = []) : ps = [] := by
  rcases ps with _ | ⟨p, ps⟩
  · rfl
  · rw [List.flatMap_cons, Piece.source] at h
    have htext := (List.append_eq_nil_iff.1 (List.append_eq_nil_iff.1 h).1).1
    exact absurd htext hcut.1.spells.ne_nil

theorem Cut.showsUnlessEscaped (lang : Language) {ps : List Piece} {line : Nat} (hcut : Cut line ps)
    (hhash : '#' ∉ ps.flatMap Piece.source) (hslash : '/' ∉ ps.flatMap Piece.source) :
    ShowsUnlessEscaped lang (ps.flatMap Piece.source) (tokenStrings (ps.map Piece.token)) := by
  induction ps generalizing line with
  | nil => exact showsUnlessEscaped_nil lang
  | cons p ps ih =>
    obtain ⟨hfits, hcut⟩ := hcut
    rw [List.flatMap_cons] at hhash hslash ⊢
    rw [List.mem_append, not_or] at hhash hslash
    have ih := ih hcut hhash.2 hslash.2
    rcases hfits.quote_cases hhash.1 hslash.1 with
      ⟨hnone, hquote⟩ | ⟨raw, hsome, hraw, hgap, hsource⟩
    · rw [List.map_cons, tokenStrings_of_eq_none hnone]
      exact ih.append hquote hhash.1 hslash.1
    · have hgapped := ih.append hgap (fun hmem => hhash.1 (List.mem_append_right _ hmem))
        fun hmem => hslash.1 (List.mem_append_right _ hmem)
      rw [List.map_cons, tokenStrings_of_eq_some hsome, hsource, List.cons_append,
        List.append_assoc, List.cons_append]
      refine hgapped.string hraw (fun hmem => ?_) fun hnil => ?_
      · exact tokenStrings_ne_nil hcut hhash.2 hslash.2
          ((List.mem_append.1 hmem).resolve_left hgap)
      · rw [hcut.eq_nil (List.append_eq_nil_iff.1 hnil).2]
        rfl

/-- In the colours of a source without comments and directives, the strings are those that are read
from it, exactly if no string with something behind it ends with an odd number of backslashes. -/
theorem highlight_strings_iff {source : String} {ts : List Token} (h : tokenize source = .ok ts)
    (hhash : '#' ∉ source.toList) (hslash : '/' ∉ source.toList) :
    coloured Palette.string (highlight .c source) = (tokenStrings ts).map stringSpelling ↔
      ∀ raw ∈ followedStrings source.toList (tokenStrings ts), ¬ EndsEscaping raw := by
  obtain ⟨gap, ps, hsource, rfl, hgap, hcut⟩ := Cursor.exists_cut _ _ h
  replace hsource : source.toList = gap ++ ps.flatMap Piece.source := hsource
  have hstrings (n : Nat) : tokenStrings (ps.map Piece.token ++ [⟨.eof, n⟩]) =
      tokenStrings (ps.map Piece.token) := by
    rw [tokenStrings, List.filterMap_append]
    exact List.append_nil _
  have htexts : coloured Palette.string (highlight .c source) = stringTexts .c source.toList :=
    (coloured_prose (.inl rfl) _).symm
  rw [hsource, List.mem_append, not_or] at hhash hslash
  rw [hstrings, htexts, hsource]
  exact (hcut.showsUnlessEscaped .c hhash.2 hslash.2).append
    (quote_notMem_gap hgap hhash.1 hslash.1) hhash.1 hslash.1

/-- The first string ends with two backslashes, and nothing follows the last one. -/
def backslashes : String := "f(\"a\\nb\\\\\", \"c\") \"\\\""

theorem highlight_strings_iff_backslashes :
    ∃ ts, tokenize backslashes = .ok ts ∧ '#' ∉ backslashes.toList ∧ '/' ∉ backslashes.toList ∧
      tokenStrings ts = ["a\\nb\\\\", "c", "\\"] ∧
      coloured Palette.string (highlight .c backslashes) =
        ["\"a\\nb\\\\\"", "\"c\"", "\"\\\""] := by
  have h : tokenize backslashes = .ok [⟨.ident "f", 1⟩, ⟨.mark .lparen, 1⟩,
      ⟨.string "a\\nb\\\\", 1⟩, ⟨.mark .comma, 1⟩, ⟨.string "c", 1⟩, ⟨.mark .rparen, 1⟩,
      ⟨.string "\\", 1⟩, ⟨.eof, 1⟩] := by
    cbv
  have hhash : '#' ∉ backslashes.toList := by decide
  have hslash : '/' ∉ backslashes.toList := by decide
  exact ⟨_, h, hhash, hslash, rfl, (highlight_strings_iff h hhash hslash).2 (by decide)⟩

/-- The closing quote of a string is taken for an escaped one. -/
theorem exists_string_shown_too_long :
    ∃ source ts, tokenize source = .ok ts ∧
      '\n' ∉ source.toList ∧ '#' ∉ source.toList ∧ '/' ∉ source.toList ∧
      (tokenStrings ts).map stringSpelling = ["\"\\\""] ∧
      coloured Palette.string (highlight .c source) = ["\"\\\");"] := by
  have h : tokenize "puts(\"\\\");" = .ok [⟨.ident "puts", 1⟩, ⟨.mark .lparen, 1⟩,
      ⟨.string "\\", 1⟩, ⟨.mark .rparen, 1⟩, ⟨.mark .semicolon, 1⟩, ⟨.eof, 1⟩] := by
    cbv
  exact ⟨_, _, h, by decide, by decide, by decide, by cbv, by cbv⟩

end MiniC
