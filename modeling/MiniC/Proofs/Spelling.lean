import Mathlib
import MiniC.Token.Lexeme

/-!
# Spellings and gaps

What the pieces of a source look like, apart from how they are found. `Spells` says which texts
spell a kind, `MaximalBefore` which texts may follow a spelling so that it cannot be longer, and
`Gap` which texts separate tokens.

The scanner finds exactly these: what it reads as a token is a maximal spelling of its kind
(`spells_of_scan`), a maximal spelling is read as such a token (`scan_of_spells`), and what it
skips is part of a gap (`gap_of_scan`).
-/

namespace MiniC

namespace Lexeme

/-- The text spells a token of the kind. -/
inductive Spells : Kind → List Char → Prop
  | number {digits : List Char} (hne : digits ≠ []) (h : ∀ d ∈ digits, d.isDigit = true)
      (hbound : Nat.ofDigitChars 10 digits 0 < numberBound) :
      Spells (.number (Nat.ofDigitChars 10 digits 0)) digits
  | string {raw : List Char} (h : '"' ∉ raw) :
      Spells (.string (String.ofList raw)) ('"' :: (raw ++ ['"']))
  | ident {c : Char} {cs : List Char} (hc : isNameStart c = true)
      (hcs : ∀ d ∈ cs, isNameChar d = true)
      (hword : ∀ word : Keyword, word.spelling ≠ String.ofList (c :: cs)) :
      Spells (.ident (String.ofList (c :: cs))) (c :: cs)
  | keyword (word : Keyword) : Spells (.keyword word) word.spelling.toList
  | op (o : BinOp) : Spells (.op o) o.spelling.toList
  | mark (m : Mark) : Spells (.mark m) [m.spelling]

/-- No longer spelling starts where a token of the kind is followed by `rest`: a run of digits or
a word is whole, and a sign does not go on to a longer one or to a comment. -/
def MaximalBefore (rest : List Char) : Kind → Prop
  | .number _ => ∀ c ∈ rest.head?, c.isDigit = false
  | .ident _ | .keyword _ => ∀ c ∈ rest.head?, isNameChar c = false
  | .op .lt | .op .gt | .mark .assign => rest.head? ≠ some '='
  | .op .div => rest.head? ≠ some '/' ∧ rest.head? ≠ some '*'
  | _ => True

/-- The first text can stand in front of the second as a gap: it is made of blanks, comments and
directives. A comment or directive that goes to the end of its line takes the newline along; only
the last line of a source may do without. -/
inductive Gap : List Char → List Char → Prop
  | nil {rest : List Char} : Gap [] rest
  | blank {c : Char} {gap rest : List Char} (hc : isBlank c = true) (h : Gap gap rest) :
      Gap (c :: gap) rest
  | comment {body gap rest : List Char} (hbody : '\n' ∉ body) (h : Gap gap rest) :
      Gap ('/' :: '/' :: (body ++ '\n' :: gap)) rest
  | lastComment {body : List Char} (hbody : '\n' ∉ body) : Gap ('/' :: '/' :: body) []
  | block {body gap rest : List Char} (hbody : ¬ ['*', '/'] <:+: body) (h : Gap gap rest) :
      Gap ('/' :: '*' :: (body ++ '*' :: '/' :: gap)) rest
  | directive {body gap rest : List Char} (hbody : '\n' ∉ body) (h : Gap gap rest) :
      Gap ('#' :: (body ++ '\n' :: gap)) rest
  | lastDirective {body : List Char} (hbody : '\n' ∉ body) : Gap ('#' :: body) []

/-! ## Classes of characters -/

theorem isDigit_iff {c : Char} : c.isDigit = true ↔ 48 ≤ c.toNat ∧ c.toNat ≤ 57 := by
  simp only [Char.isDigit, Bool.and_eq_true, decide_eq_true_eq, ge_iff_le, UInt32.le_iff_toNat_le]
  rfl

theorem isNameStart_iff {c : Char} : isNameStart c = true ↔
    ((65 ≤ c.toNat ∧ c.toNat ≤ 90) ∨ 97 ≤ c.toNat ∧ c.toNat ≤ 122) ∨ c.toNat = 95 := by
  have h95 : c = '_' ↔ c.toNat = 95 := by
    rw [← Char.toNat_inj]
    rfl
  simp only [isNameStart, Char.isAlpha, Char.isUpper, Char.isLower, Bool.or_eq_true,
    Bool.and_eq_true, decide_eq_true_eq, ge_iff_le, UInt32.le_iff_toNat_le, beq_iff_eq, h95]
  rfl

theorem isNameChar_eq (c : Char) : isNameChar c = (isNameStart c || c.isDigit) := by
  simp only [isNameChar, isNameStart, Char.isAlphanum]
  cases c.isAlpha <;> cases c.isDigit <;> simp

theorem isNameStart_of_isDigit {c : Char} (h : c.isDigit = true) : isNameStart c = false := by
  rw [Bool.eq_false_iff, ne_eq, isNameStart_iff]
  have := isDigit_iff.1 h
  omega

theorem isNameChar_of_isDigit {c : Char} (h : c.isDigit = true) : isNameChar c = true := by
  rw [isNameChar_eq, h, Bool.or_true]

theorem isNameChar_of_isNameStart {c : Char} (h : isNameStart c = true) : isNameChar c = true := by
  rw [isNameChar_eq, h, Bool.true_or]

theorem isBlank_of_isNameChar {c : Char} (h : isNameChar c = true) : isBlank c = false := by
  rw [isNameChar_eq, Bool.or_eq_true, isNameStart_iff, isDigit_iff] at h
  rw [Bool.eq_false_iff]
  intro hb
  simp only [isBlank, blankRanges, List.any_cons, List.any_nil, Bool.or_eq_true, Bool.and_eq_true,
    decide_eq_true_eq, Bool.false_eq_true, or_false] at hb
  omega

theorem takeWhile_of_head {p : Char → Bool} {cs rest : List Char} (hcs : ∀ c ∈ cs, p c = true)
    (hrest : ∀ c ∈ rest.head?, p c = false) :
    (cs ++ rest).takeWhile p = cs ∧ (cs ++ rest).dropWhile p = rest := by
  rw [List.takeWhile_append_of_pos hcs, List.dropWhile_append_of_pos hcs]
  cases rest with
  | nil => simp
  | cons c rest => simp [hrest c rfl]

theorem head_dropWhile (p : Char → Bool) (cs : List Char) :
    ∀ c ∈ (cs.dropWhile p).head?, p c = false := by
  intro c hc
  have := List.head?_dropWhile_not p cs
  rw [Option.mem_def.1 hc] at this
  simpa using this

/-! ## Cuts -/

theorem cutLine_cases (cs : List Char) :
    (∃ body rest, '\n' ∉ body ∧ cutLine cs = (body ++ ['\n'], rest)) ∨
      '\n' ∉ cs ∧ cutLine cs = (cs, []) := by
  induction cs with
  | nil => exact .inr ⟨by simp, rfl⟩
  | cons c cs ih =>
    by_cases hc : c = '\n'
    · refine .inl ⟨[], cs, by simp, ?_⟩
      simp [cutLine, hc]
    · rcases ih with ⟨body, rest, hbody, h⟩ | ⟨hcs, h⟩
      · refine .inl ⟨c :: body, rest, by simp [hbody, Ne.symm hc], ?_⟩
        simp [cutLine, hc, h]
      · refine .inr ⟨by simp [hcs, Ne.symm hc], ?_⟩
        simp [cutLine, hc, h]

theorem cutString?_append_quote {raw : List Char} (rest : List Char) (h : '"' ∉ raw) :
    cutString? (raw ++ '"' :: rest) = some (raw, rest) := by
  induction raw with
  | nil => simp [cutString?]
  | cons c raw ih =>
    simp only [List.mem_cons, not_or] at h
    simp [cutString?, Ne.symm h.1, ih h.2]

theorem quote_notMem_cutString? {cs : List Char} :
    ∀ {cut}, cutString? cs = some cut → '"' ∉ cut.1 := by
  induction cs with
  | nil => simp [cutString?]
  | cons c cs ih =>
    intro cut h
    by_cases hc : c = '"'
    · simp only [cutString?, hc, if_true, Option.some.injEq] at h
      simp [← h]
    · simp only [cutString?, hc, if_false] at h
      obtain ⟨cut, hcut, rfl⟩ := Option.map_eq_some_iff.1 h
      simp [ih hcut, Ne.symm hc]

theorem cutComment?_eq_some {cs text rest : List Char} (h : cutComment? cs = some (text, rest)) :
    ∃ body, ¬ ['*', '/'] <:+: body ∧ text = body ++ ['*', '/'] := by
  fun_induction cutComment? cs generalizing text with
  | case1 => simp at h
  | case2 cs =>
    simp only [Option.some.injEq, Prod.mk.injEq] at h
    exact ⟨[], by simp, h.1.symm⟩
  | case3 c cs hcs ih =>
    obtain ⟨⟨text', rest'⟩, hcut, heq⟩ := Option.map_eq_some_iff.1 h
    simp only [Prod.mk.injEq] at heq
    obtain ⟨rfl, rfl⟩ := heq
    obtain ⟨body, hbody, rfl⟩ := ih hcut
    refine ⟨c :: body, ?_, rfl⟩
    rw [List.infix_cons_iff]
    rintro (hp | hi)
    · -- a `*` here with a `/` behind it would have ended the comment
      obtain ⟨rfl, hslash⟩ := List.cons_prefix_cons.1 hp
      obtain ⟨body, rfl⟩ := hslash
      have happend := cutComment?_append hcut
      exact hcs _ rfl (by simpa using happend.symm)
    · exact hbody hi

/-! ## Words -/

theorem ofName?_eq_some_iff {name : String} {word : Keyword} :
    Keyword.ofName? name = some word ↔ word.spelling = name := by
  constructor
  · intro h
    simpa using List.find?_some h
  · rintro rfl
    cases word <;> rfl

theorem ofName?_eq_none_iff {name : String} :
    Keyword.ofName? name = none ↔ ∀ word : Keyword, word.spelling ≠ name := by
  rw [Option.eq_none_iff_forall_ne_some]
  simp only [ne_eq, ofName?_eq_some_iff]

theorem spelling_eq_cons (word : Keyword) : ∃ c cs, word.spelling.toList = c :: cs ∧
    isNameStart c = true ∧ ∀ d ∈ cs, isNameChar d = true := by
  cases word <;> exact ⟨_, _, rfl, by decide, List.all_eq_true.1 (by decide)⟩

theorem spells_wordKind {c : Char} {cs : List Char} (hc : isNameStart c = true)
    (hcs : ∀ d ∈ cs, isNameChar d = true) :
    Spells (wordKind (String.ofList (c :: cs))) (c :: cs) := by
  unfold wordKind
  split
  · rename_i word h
    have hword := congrArg String.toList (ofName?_eq_some_iff.1 h)
    rw [String.toList_ofList] at hword
    rw [← hword]
    exact .keyword word
  · rename_i h
    exact .ident hc hcs (ofName?_eq_none_iff.1 h)

theorem maximal_wordKind {rest : List Char} (name : String) :
    MaximalBefore rest (wordKind name) ↔ ∀ c ∈ rest.head?, isNameChar c = false := by
  unfold wordKind
  split <;> rfl

theorem scan_word {c : Char} {cs rest : List Char} (hc : isNameStart c = true)
    (hcs : ∀ d ∈ cs, isNameChar d = true) (hrest : ∀ d ∈ rest.head?, isNameChar d = false) :
    scan c (cs ++ rest) = ⟨.token (wordKind (String.ofList (c :: cs))), c :: cs, rest⟩ := by
  obtain ⟨htake, hdrop⟩ := takeWhile_of_head hcs hrest
  have hblank := isBlank_of_isNameChar (isNameChar_of_isNameStart hc)
  simp [scan, hblank, hc, htake, hdrop]

/-! ## Signs -/

theorem spells_of_pairKind? {c d : Char} {k : Kind} (rest : List Char)
    (h : pairKind? c d = some k) : Spells k [c, d] ∧ MaximalBefore rest k := by
  unfold pairKind? at h
  split at h <;> cases h <;> exact ⟨.op _, trivial⟩

theorem spells_of_singleKind? {c : Char} {k : Kind} (h : singleKind? c = some k) :
    Spells k [c] := by
  unfold singleKind? at h
  split at h <;> cases h <;> first | exact .op _ | exact .mark _

/-- A sign of one character that no second one can be added to is maximal, unless it opens a
comment. -/
theorem maximal_of_singleKind? {c : Char} {rest : List Char} {k : Kind}
    (h : singleKind? c = some k) (hpair : ∀ d ∈ rest.head?, pairKind? c d = none)
    (hslash : c = '/' → rest.head? ≠ some '/' ∧ rest.head? ≠ some '*') : MaximalBefore rest k := by
  have heq : pairKind? c '=' ≠ none → rest.head? ≠ some '=' :=
    fun hsome hhead => hsome (hpair '=' hhead)
  unfold singleKind? at h
  split at h <;> cases h <;> first | trivial | exact heq (by decide) | exact hslash rfl

theorem spells_of_scanSign {c : Char} {cs : List Char} {k : Kind}
    (hslash : c = '/' → cs.head? ≠ some '/' ∧ cs.head? ≠ some '*')
    (h : (scanSign c cs).reading = .token k) :
    Spells k (scanSign c cs).text ∧ MaximalBefore (scanSign c cs).rest k := by
  have single (hpair : ∀ d ∈ cs.head?, pairKind? c d = none)
      (hs : (scanSingle c cs).reading = .token k) :
      Spells k (scanSingle c cs).text ∧ MaximalBefore (scanSingle c cs).rest k := by
    unfold scanSingle at hs ⊢
    split at hs
    · rename_i k' hk
      cases hs
      exact ⟨spells_of_singleKind? hk, maximal_of_singleKind? hk hpair hslash⟩
    · cases hs
  revert h
  fun_cases scanSign c cs with
  | case1 => exact single (by simp)
  | case2 d cs k' hk =>
    rintro ⟨⟩
    exact spells_of_pairKind? cs hk
  | case3 d cs hnone => exact single (by simpa using hnone)

theorem scanSign_reading_ne_gap (c : Char) (cs : List Char) : (scanSign c cs).reading ≠ .gap := by
  have single (ds : List Char) : (scanSingle c ds).reading ≠ .gap := by
    unfold scanSingle
    split <;> rintro ⟨⟩
  fun_cases scanSign c cs with
  | case1 => exact single []
  | case2 => rintro ⟨⟩
  | case3 d cs => exact single (d :: cs)

theorem scan_pair {c d : Char} {k : Kind} (rest : List Char) (h : pairKind? c d = some k) :
    scan c (d :: rest) = ⟨.token k, [c, d], rest⟩ := by
  unfold pairKind? at h
  split at h <;> cases h <;> rfl

theorem pairKind?_of_maximal {c d : Char} {rest : List Char} {k : Kind}
    (h : singleKind? c = some k) (hmax : MaximalBefore (d :: rest) k) : pairKind? c d = none := by
  unfold pairKind?
  split <;> first | rfl | (cases h <;> exact absurd rfl hmax)

theorem scan_single {c : Char} {rest : List Char} {k : Kind} (h : singleKind? c = some k)
    (hmax : MaximalBefore rest k) : scan c rest = ⟨.token k, [c], rest⟩ := by
  have hsign : scan c rest = scanSign c rest := by
    unfold singleKind? at h
    split at h <;> cases h <;> try rfl
    -- a slash is a sign only where no comment starts
    obtain ⟨hline, hblock⟩ := hmax
    cases rest with
    | nil => rfl
    | cons d rest =>
      simp only [List.head?_cons, ne_eq, Option.some.injEq] at hline hblock
      simp [scan, hline, hblock, show isBlank '/' = false by decide,
        show isNameStart '/' = false by decide]
  rw [hsign]
  cases rest with
  | nil => simp [scanSign, scanSingle, h]
  | cons d rest => simp [scanSign, scanSingle, pairKind?_of_maximal h hmax, h]

/-! ## Pieces -/

theorem Spells.ne_nil {k : Kind} {text : List Char} (h : Spells k text) : text ≠ [] := by
  cases h with
  | number hne => exact hne
  | keyword word => cases word <;> decide
  | op o => cases o <;> decide
  | string | ident | mark => exact List.cons_ne_nil _ _

theorem Spells.ne_eof {k : Kind} {text : List Char} (h : Spells k text) : k ≠ .eof := by
  cases h <;> rintro ⟨⟩

theorem spells_toDigits {n : Nat} (h : n < numberBound) :
    Spells (.number n) (Nat.toDigits 10 n) := by
  have hspells : Spells (.number (Nat.ofDigitChars 10 (Nat.toDigits 10 n) 0))
      (Nat.toDigits 10 n) := by
    refine .number Nat.toDigits_ne_nil ?_ ?_
    · intro d hd
      exact Nat.isDigit_of_mem_toDigits (by decide) (by decide) hd
    · rwa [Nat.ofDigitChars_ten_toDigits]
  rwa [Nat.ofDigitChars_ten_toDigits] at hspells

/-- What is scanned as a token is a maximal spelling of its kind. -/
theorem spells_of_scan {c : Char} {cs : List Char} {k : Kind}
    (h : (scan c cs).reading = .token k) :
    Spells k (scan c cs).text ∧ MaximalBefore (scan c cs).rest k := by
  revert h
  unfold scan
  split
  · rintro ⟨⟩
  split
  · rename_i hc
    rintro ⟨⟩
    refine ⟨spells_wordKind hc fun d hd => List.mem_takeWhile_imp hd, ?_⟩
    exact (maximal_wordKind _).2 (head_dropWhile _ _)
  split
  · rename_i hc
    simp only [readNumber]
    split
    · rename_i hbound
      rintro ⟨⟩
      refine ⟨.number (by simp) ?_ hbound, head_dropWhile _ _⟩
      intro d hd
      rcases List.mem_cons.1 hd with rfl | hd
      · exact hc
      · exact List.mem_takeWhile_imp hd
    · rintro ⟨⟩
  split
  · unfold scanString
    split
    · rename_i raw rest hcut
      rintro ⟨⟩
      exact ⟨.string (quote_notMem_cutString? hcut), trivial⟩
    · rintro ⟨⟩
  split
  · rintro ⟨⟩
  split
  · rintro ⟨⟩
  · unfold scanComment
    split <;> rintro ⟨⟩
  · rename_i hline hblock
    refine spells_of_scanSign ?_
    rintro rfl
    constructor
    · intro hhead
      obtain ⟨ds, rfl⟩ := List.head?_eq_some_iff.1 hhead
      exact hline ds rfl rfl
    · intro hhead
      obtain ⟨ds, rfl⟩ := List.head?_eq_some_iff.1 hhead
      exact hblock ds rfl rfl

/-- A maximal spelling is scanned as a token of its kind. -/
theorem scan_of_spells {k : Kind} {x rest cs : List Char} {c : Char} (h : Spells k x)
    (hmax : MaximalBefore rest k) (hx : x ++ rest = c :: cs) : scan c cs = ⟨.token k, x, rest⟩ := by
  cases h with
  | @number digits hne h hbound =>
    obtain ⟨c', digits, rfl⟩ := List.exists_cons_of_ne_nil hne
    obtain ⟨rfl, rfl⟩ := List.cons.inj hx
    have hc := h c' List.mem_cons_self
    obtain ⟨htake, hdrop⟩ :=
      takeWhile_of_head (fun d hd => h d (List.mem_cons_of_mem _ hd)) hmax
    have hblank := isBlank_of_isNameChar (isNameChar_of_isDigit hc)
    simp [scan, hblank, isNameStart_of_isDigit hc, hc, htake, hdrop, readNumber, hbound]
  | @string raw hraw =>
    obtain ⟨rfl, rfl⟩ := List.cons.inj hx
    have hcut := cutString?_append_quote rest hraw
    simp [scan, scanString, hcut, show isBlank '"' = false by decide,
      show isNameStart '"' = false by decide]
  | @ident c' name hc hname hword =>
    simp only [List.cons_append, List.cons.injEq] at hx
    obtain ⟨rfl, rfl⟩ := hx
    rw [scan_word hc hname hmax, wordKind, ofName?_eq_none_iff.2 hword]
  | keyword word =>
    obtain ⟨c', name, heq, hc, hname⟩ := spelling_eq_cons word
    rw [heq] at hx ⊢
    simp only [List.cons_append, List.cons.injEq] at hx
    obtain ⟨rfl, rfl⟩ := hx
    rw [scan_word hc hname hmax, ← heq, String.ofList_toList, wordKind, ofName?_eq_some_iff.2 rfl]
  | op o =>
    cases o with
    | lt | gt | add | sub | mul | div | mod =>
      cases hx
      exact scan_single rfl hmax
    | or | and | eq | ne | le | ge =>
      cases hx
      exact scan_pair rest rfl
  | mark m =>
    cases hx
    exact scan_single (by cases m <;> rfl) hmax

theorem Gap.blanks {blanks gap rest : List Char} (hblanks : ∀ c ∈ blanks, isBlank c = true)
    (h : Gap gap rest) : Gap (blanks ++ gap) rest := by
  induction blanks with
  | nil => exact h
  | cons c blanks ih =>
    exact .blank (hblanks c List.mem_cons_self)
      (ih fun d hd => hblanks d (List.mem_cons_of_mem _ hd))

/-- What is scanned as a gap can be put in front of a gap. -/
theorem gap_of_scan {c : Char} {cs gap rest : List Char} (h : (scan c cs).reading = .gap)
    (hrest : (scan c cs).rest = gap ++ rest) (hgap : Gap gap rest) :
    Gap ((scan c cs).text ++ gap) rest := by
  revert h hrest
  unfold scan
  split
  · rename_i hc
    intro _ _
    exact .blank hc (.blanks (fun d hd => List.mem_takeWhile_imp hd) hgap)
  split
  · rintro ⟨⟩
  split
  · simp only [readNumber]
    split <;> rintro ⟨⟩
  split
  · unfold scanString
    split <;> rintro ⟨⟩
  split
  · rename_i hc
    intro _ hrest
    subst hc
    rcases cutLine_cases cs with ⟨body, cs', hbody, hcut⟩ | ⟨hcs, hcut⟩
    · simpa [hcut] using Gap.directive hbody hgap
    · obtain ⟨rfl, rfl⟩ := List.append_eq_nil_iff.1 (by simpa [hcut] using hrest.symm)
      simpa [hcut] using Gap.lastDirective hcs
  split
  · rename_i cs _ _ _ _ _
    intro _ hrest
    rcases cutLine_cases cs with ⟨body, cs', hbody, hcut⟩ | ⟨hcs, hcut⟩
    · simpa [hcut] using Gap.comment hbody hgap
    · obtain ⟨rfl, rfl⟩ := List.append_eq_nil_iff.1 (by simpa [hcut] using hrest.symm)
      simpa [hcut] using Gap.lastComment hcs
  · unfold scanComment
    split
    · rename_i text cs' hcut
      intro _ _
      obtain ⟨body, hbody, rfl⟩ := cutComment?_eq_some hcut
      simpa using Gap.block hbody hgap
    · rintro ⟨⟩
  · intro h
    exact absurd h (scanSign_reading_ne_gap _ _)

end Lexeme

end MiniC
