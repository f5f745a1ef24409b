import MiniC.Proofs.ErrorInView
import MiniC.Proofs.Spelling

/-!
# Words in the spans of a line

The spans of a line are its text, cut into pieces of which none is empty, and a run of name
characters that lies outside of strings and comments is not cut at all: it is one span.

That words are whole is a property of spans (`WordsWhole`) that is kept where spans are put behind
spans, unless a word goes over the seam (`WordsWhole.append`). A run lies on one side of such a seam
(`WordRun.side`). What `spansFrom` puts together has a character at every seam that is in no name:
the one behind a word, the quotes of a string, the slash of a comment, and all signs.
-/

namespace MiniC

open Lexeme

namespace Highlight

/-- The characters of the spans. -/
def chars (spans : List Span) : List Char := spans.flatMap (·.text.toList)

theorem chars_append (ss ts : List Span) : chars (ss ++ ts) = chars ss ++ chars ts :=
  List.flatMap_append

/-! ## Runs -/

/-- Between `front` and `back`, the word is a run of name characters that cannot be longer. -/
structure WordRun (front word back : List Char) : Prop where
  ne_nil : word ≠ []
  chars : ∀ c ∈ word, isNameChar c = true
  start : ∀ c ∈ front.getLast?, isNameChar c = false
  stop : ∀ c ∈ back.head?, isNameChar c = false

/-- No word goes from the one text over to the other. -/
def Seam (xs ys : List Char) : Prop :=
  (∀ c ∈ xs.getLast?, isNameChar c = false) ∨ ∀ c ∈ ys.head?, isNameChar c = false

/-- A run lies on one side of a seam. -/
theorem WordRun.side {front word back xs ys : List Char} (h : WordRun front word back)
    (hseam : Seam xs ys) (heq : front ++ word ++ back = xs ++ ys) :
    (∃ zs, xs = front ++ word ++ zs ∧ back = zs ++ ys) ∨
      ∃ zs, front = xs ++ zs ∧ ys = zs ++ word ++ back := by
  rcases List.append_eq_append_iff.1 heq with ⟨zs, hxs, hback⟩ | ⟨zs, hfront, hys⟩
  · exact .inl ⟨zs, hxs, hback⟩
  rcases List.append_eq_append_iff.1 hfront with ⟨ws, hxs, hword⟩ | ⟨ws, hfront, hzs⟩
  · -- the word goes over the seam, unless one of its two parts is empty
    rcases List.eq_nil_or_concat ws with rfl | ⟨us, c, rfl⟩
    · exact .inr ⟨[], by simpa using hxs.symm, by simpa [hword] using hys⟩
    rcases zs with _ | ⟨d, zs⟩
    · exact .inl ⟨[], by simpa [hword] using hxs, by simpa using hys.symm⟩
    · have hc := h.chars c (by simp [hword])
      have hd := h.chars d (by simp [hword])
      rcases hseam with hseam | hseam
      · rw [hseam c (by simp [hxs])] at hc
        cases hc
      · rw [hseam d (by simp [hys])] at hd
        cases hd
  · exact .inr ⟨ws, hfront, by simpa [hzs] using hys⟩

theorem WordRun.of_stop {front word zs ys : List Char} (h : WordRun front word (zs ++ ys)) :
    WordRun front word zs :=
  ⟨h.ne_nil, h.chars, h.start, fun c hc => h.stop c (by simp_all)⟩

theorem WordRun.of_start {xs zs word back : List Char} (h : WordRun (xs ++ zs) word back) :
    WordRun zs word back :=
  ⟨h.ne_nil, h.chars, fun c hc => h.start c (by simp_all), h.stop⟩

/-! ## Whole words -/

/-- The span is a string or a comment. -/
def IsProse (s : Span) : Prop :=
  s.style.fg = some Palette.string ∨ s.style.fg = some Palette.comment

instance (s : Span) : Decidable (IsProse s) :=
  inferInstanceAs (Decidable (s.style.fg = some Palette.string ∨ s.style.fg = some Palette.comment))

/-- The word behind `front` has no character in common with a string or a comment. -/
def Outside (spans : List Span) (front word : List Char) : Prop :=
  ∀ before s after, spans = before ++ s :: after → IsProse s →
    (chars (before ++ [s])).length ≤ front.length ∨
      front.length + word.length ≤ (chars before).length

/-- The word behind `front` is a span. -/
def IsSpan (spans : List Span) (front word back : List Char) : Prop :=
  ∃ before s after, spans = before ++ s :: after ∧ chars before = front ∧
    s.text.toList = word ∧ chars after = back

/-- Each run outside of strings and comments is a span. -/
def WordsWhole (spans : List Span) : Prop :=
  ∀ front word back, chars spans = front ++ word ++ back → WordRun front word back →
    Outside spans front word → IsSpan spans front word back

theorem wordsWhole_nil : WordsWhole [] := by
  intro front word back heq hrun _
  have hword := (List.append_eq_nil_iff.1 heq.symm).1
  exact absurd (List.append_eq_nil_iff.1 hword).2 hrun.ne_nil

theorem WordsWhole.append {ss ts : List Span} (hs : WordsWhole ss) (ht : WordsWhole ts)
    (hseam : Seam (chars ss) (chars ts)) : WordsWhole (ss ++ ts) := by
  intro front word back heq hrun hout
  rw [chars_append] at heq
  rcases hrun.side hseam heq.symm with ⟨zs, hss, rfl⟩ | ⟨zs, rfl, hts⟩
  · have hleft : Outside ss front word := by
      rintro before s after rfl
      exact hout before s (after ++ ts) (by simp)
    obtain ⟨before, s, after, rfl, hfront, hword, hback⟩ :=
      hs front word zs hss hrun.of_stop hleft
    exact ⟨before, s, after ++ ts, by simp, hfront, hword, by rw [chars_append, hback]⟩
  · have hright : Outside ts zs word := by
      rintro before s after rfl hprose
      have hplace := hout (ss ++ before) s after (by simp) hprose
      rw [List.append_assoc, chars_append, chars_append ss, List.length_append, List.length_append,
        List.length_append] at hplace
      omega
    obtain ⟨before, s, after, rfl, hfront, hword, hback⟩ :=
      ht zs word back hts hrun.of_start hright
    exact ⟨ss ++ before, s, after, by simp, by rw [chars_append, hfront], hword, hback⟩

theorem wordsWhole_word {s : Span} (h : ∀ c ∈ s.text.toList, isNameChar c = true) :
    WordsWhole [s] := by
  intro front word back heq hrun _
  have htext : s.text.toList = front ++ word ++ back := by simpa [chars] using heq
  have hfront : front = [] := by
    rcases List.eq_nil_or_concat front with rfl | ⟨us, c, rfl⟩
    · rfl
    · have hc := hrun.start c (by simp)
      rw [h c (by simp [htext])] at hc
      cases hc
  have hback : back = [] := by
    rcases back with _ | ⟨c, back⟩
    · rfl
    · have hc := hrun.stop c rfl
      rw [h c (by simp [htext])] at hc
      cases hc
  subst hfront hback
  exact ⟨[], s, [], rfl, rfl, by simpa using htext, rfl⟩

theorem wordsWhole_sign {s : Span} {c : Char} (htext : s.text.toList = [c])
    (hc : isNameChar c = false) : WordsWhole [s] := by
  intro front word back heq hrun _
  obtain ⟨d, hd⟩ := List.exists_mem_of_ne_nil word hrun.ne_nil
  have hmem : d ∈ chars [s] := by simp [heq, hd]
  obtain rfl : d = c := by simpa [chars, htext] using hmem
  rw [hrun.chars d hd] at hc
  cases hc

theorem wordsWhole_prose {s : Span} (h : IsProse s) : WordsWhole [s] := by
  intro front word back heq hrun hout
  have hlength := congrArg List.length heq
  have hword := List.length_pos_iff.2 hrun.ne_nil
  have hplace := hout [] s [] rfl h
  simp only [List.length_append, List.nil_append, chars, List.flatMap_nil,
    List.length_nil] at hlength hplace
  omega

/-! ## The spans of a line -/

theorem wordsWhole_wordSpan (lang : Language) {word : List Char}
    (h : ∀ c ∈ word, isNameChar c = true) (next : Option Char) :
    WordsWhole (wordSpan lang word next) := by
  unfold wordSpan
  split
  · exact wordsWhole_nil
  · exact wordsWhole_word (by simpa using h)

/-- A word that is not finished has name characters only, and a string has its opening quote. -/
def Mode.Sound : Mode → Prop
  | .code word => ∀ c ∈ word, isNameChar c = true
  | .string text _ => text ≠ []

theorem chars_spansFrom (lang : Language) (mode : Mode) (cs : List Char) :
    chars (spansFrom lang mode cs) = mode.text ++ cs :=
  text_spansFrom lang mode cs

theorem wordsWhole_spansFrom (lang : Language) (mode : Mode) (cs : List Char) (h : mode.Sound) :
    WordsWhole (spansFrom lang mode cs) := by
  fun_induction spansFrom lang mode cs with
  | case1 word => exact wordsWhole_wordSpan lang h none
  | case2 text => exact wordsWhole_prose (.inl rfl)
  | case3 word c cs hname ih =>
    exact ih (List.forall_mem_append.2 ⟨h, by simpa using hname⟩)
  | case4 word c cs hname ihString ihCode =>
    rw [Bool.not_eq_true] at hname
    refine (wordsWhole_wordSpan lang h (some c)).append ?_ (.inr ?_)
    · split_ifs
      · exact wordsWhole_prose (.inr rfl)
      · exact ihString (by simp [Mode.Sound])
      · have hsign : WordsWhole [⟨String.singleton c, charStyle c⟩] :=
          wordsWhole_sign (String.toList_singleton c) hname
        refine hsign.append (ihCode (by simp [Mode.Sound])) (.inl ?_)
        simpa [chars] using hname
    · split_ifs
      · simpa [chars] using hname
      · simpa [chars_spansFrom, Mode.text] using hname
      · simpa [chars] using hname
  | case5 text escaped c cs hquote ih =>
    have hstring : WordsWhole [⟨String.ofList (text ++ [c]), .ofFg Palette.string⟩] :=
      wordsWhole_prose (.inl rfl)
    refine hstring.append (ih (by simp [Mode.Sound])) (.inl ?_)
    simp [chars, hquote.1]
    decide
  | case6 text escaped c cs hquote ih => exact ih (by simp [Mode.Sound])

theorem text_ne_empty_of_mem_wordSpan {lang : Language} {word : List Char} {next : Option Char} :
    ∀ s ∈ wordSpan lang word next, s.text ≠ "" := by
  unfold wordSpan
  split
  · exact List.forall_mem_nil _
  · intro s hs
    obtain rfl := List.mem_singleton.1 hs
    simp_all

theorem text_ne_empty_of_mem_spansFrom (lang : Language) (mode : Mode) (cs : List Char)
    (h : mode.Sound) : ∀ s ∈ spansFrom lang mode cs, s.text ≠ "" := by
  fun_induction spansFrom lang mode cs with
  | case1 word => exact text_ne_empty_of_mem_wordSpan
  | case2 text => simpa [Mode.Sound] using h
  | case3 word c cs hname ih =>
    exact ih (List.forall_mem_append.2 ⟨h, by simpa using hname⟩)
  | case4 word c cs hname ihString ihCode =>
    refine List.forall_mem_append.2 ⟨text_ne_empty_of_mem_wordSpan, ?_⟩
    split_ifs
    · simp
    · exact ihString (by simp [Mode.Sound])
    · exact List.forall_mem_cons.2 ⟨by simp, ihCode (by simp [Mode.Sound])⟩
  | case5 text escaped c cs hquote ih =>
    exact List.forall_mem_cons.2 ⟨by simp, ih (by simp [Mode.Sound])⟩
  | case6 text escaped c cs hquote ih => exact ih (by simp [Mode.Sound])

end Highlight

open Highlight

/-- The spans of a line have all its text in order, none is empty, and each run of name characters
outside of strings and comments is a span. -/
theorem highlight_keeps_text (lang : Language) (line : String) :
    String.ofList (chars (highlight lang line)) = line ∧
      (∀ s ∈ highlight lang line, s.text ≠ "") ∧
      ∀ front word back, line.toList = front ++ word ++ back → WordRun front word back →
        Outside (highlight lang line) front word →
          IsSpan (highlight lang line) front word back := by
  have hsound : (Mode.code []).Sound := List.forall_mem_nil _
  have htext : chars (highlight lang line) = line.toList := chars_spansFrom lang _ _
  refine ⟨by rw [htext, String.ofList_toList], ?_, ?_⟩
  · exact text_ne_empty_of_mem_spansFrom lang _ _ hsound
  · intro front word back hline
    exact wordsWhole_spansFrom lang _ _ hsound front word back (htext.trans hline)

/-- A word between a string with an escaped quote and a comment. -/
def flankedLine : String := "\"\\\"\"_1//a"

theorem highlight_keeps_text_flanked :
    (highlight .c flankedLine).map Span.text = ["\"\\\"\"", "_1", "//a"] ∧
      WordRun "\"\\\"\"".toList "_1".toList "//a".toList ∧
      Outside (highlight .c flankedLine) "\"\\\"\"".toList "_1".toList ∧
      IsSpan (highlight .c flankedLine) "\"\\\"\"".toList "_1".toList "//a".toList := by
  have hspans : highlight .c flankedLine = [⟨"\"\\\"\"", .ofFg Palette.string⟩,
      ⟨"_1", .ofFg Palette.text⟩, ⟨"//a", .ofFg Palette.comment⟩] := by
    cbv
  have hrun : WordRun "\"\\\"\"".toList "_1".toList "//a".toList :=
    ⟨by decide, List.all_eq_true.1 (by decide), by simp; decide, by simp; decide⟩
  have hout : Outside (highlight .c flankedLine) "\"\\\"\"".toList "_1".toList := by
    rw [hspans]
    intro before s after h hprose
    rcases before with _ | ⟨b, _ | ⟨b', _ | ⟨b'', before⟩⟩⟩
    · cases h
      exact .inl (by decide)
    · cases h
      exact absurd hprose (by simp [IsProse, Style.ofFg]; decide)
    · cases h
      exact .inr (by decide)
    · simp at h
  refine ⟨by rw [hspans]; rfl, hrun, hout, ?_⟩
  exact (highlight_keeps_text .c flankedLine).2.2 _ _ _ rfl hrun hout

end MiniC
