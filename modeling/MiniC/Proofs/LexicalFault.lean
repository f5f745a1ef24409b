import MiniC.Proofs.Spacing

/-!
# Where a source stops having tokens

Reading tokens fails at the first place where none can be read: `Faulty` says what stands there,
apart from how it is found. In front of it are tokens that are written whole, with trivia between
them (`Written.Whole`), and these are read as they are everywhere else. So the fault that is
reported, and its line, are those of any such place in the source, and there is only one.
-/

namespace MiniC

namespace Lexeme

/-- A string, a directive or another token starts with `c`, where `cs` follows. Comments need no
mention here: their first character alone is a token. -/
def Opens (c : Char) (cs : List Char) : Prop :=
  c = '"' ∨ c = '#' ∨ ∃ k text, Spells k text ∧ text <+: c :: cs

/-- The text starts with a piece that has the fault: a string or a comment that is not closed, a
number that is too large, or a character with which nothing starts. -/
inductive Faulty : Fault → List Char → Prop
  | string {cs : List Char} (h : '"' ∉ cs) : Faulty .unterminatedString ('"' :: cs)
  | comment {cs : List Char} (h : ¬ ['*', '/'] <:+: cs) :
      Faulty .unterminatedComment ('/' :: '*' :: cs)
  | number {digits rest : List Char} (hne : digits ≠ []) (h : ∀ d ∈ digits, d.isDigit = true)
      (hrest : ∀ c ∈ rest.head?, c.isDigit = false)
      (hbound : numberBound ≤ Nat.ofDigitChars 10 digits 0) :
      Faulty (.invalidNumber (String.ofList digits)) (digits ++ rest)
  | char {c : Char} {cs : List Char} (hblank : isBlank c = false) (hopens : ¬ Opens c cs) :
      Faulty (.unknownChar c) (c :: cs)

theorem Faulty.ne_nil {f : Fault} {cs : List Char} (h : Faulty f cs) : cs ≠ [] := by
  cases h with
  | number hne => simp [hne]
  | string | comment | char => exact List.cons_ne_nil _ _

/-! ## Characters that start nothing -/

theorem spells_digit {c : Char} (h : c.isDigit = true) : ∃ k, Spells k [c] := by
  refine ⟨_, .number (by simp) (by simpa using h) ?_⟩
  have hrange := isDigit_iff.1 h
  rw [Nat.ofDigitChars_cons, Nat.ofDigitChars_nil]
  unfold numberBound
  omega

/-- An operator is a sign of one character or of two. -/
theorem spelling_cases (o : BinOp) :
    (∃ c, o.spelling.toList = [c] ∧ singleKind? c = some (.op o)) ∨
      ∃ c d, o.spelling.toList = [c, d] ∧ pairKind? c d = some (.op o) := by
  cases o with
  | lt | gt | add | sub | mul | div | mod => exact .inl ⟨_, rfl, rfl⟩
  | or | and | eq | ne | le | ge => exact .inr ⟨_, _, rfl, rfl⟩

theorem not_opens_iff {c : Char} {cs : List Char} : ¬ Opens c cs ↔
    c ≠ '"' ∧ c ≠ '#' ∧ isNameStart c = false ∧ c.isDigit = false ∧ singleKind? c = none ∧
      ∀ d ∈ cs.head?, pairKind? c d = none := by
  constructor
  · intro h
    simp only [Opens, not_or, not_exists, not_and] at h
    obtain ⟨hquote, hhash, hspells⟩ := h
    have hone : ∀ k, ¬ Spells k [c] := fun k hk => hspells k [c] hk ⟨cs, rfl⟩
    refine ⟨hquote, hhash, ?_, ?_, ?_, ?_⟩
    · rw [Bool.eq_false_iff]
      intro hc
      exact hone _ (spells_wordKind hc (by simp))
    · rw [Bool.eq_false_iff]
      intro hc
      obtain ⟨k, hk⟩ := spells_digit hc
      exact hone k hk
    · rw [Option.eq_none_iff_forall_ne_some]
      intro k hk
      exact hone k (spells_of_singleKind? hk)
    · intro d hd
      obtain ⟨ds, rfl⟩ := List.head?_eq_some_iff.1 hd
      rw [Option.eq_none_iff_forall_ne_some]
      intro k hk
      exact hspells k [c, d] (spells_of_pairKind? ds hk).1 ⟨ds, rfl⟩
  · rintro ⟨hquote, hhash, hname, hdigit, hsingle, hpair⟩ (rfl | rfl | ⟨k, text, hk, hpre⟩)
    · exact hquote rfl
    · exact hhash rfl
    have hno (x : Char) (xs : List Char) (h : x :: xs <+: c :: cs) : x = c ∧ xs <+: cs :=
      List.cons_prefix_cons.1 h
    cases hk with
    | @number digits hne h =>
      obtain ⟨d, digits, rfl⟩ := List.exists_cons_of_ne_nil hne
      obtain ⟨rfl, -⟩ := hno _ _ hpre
      rw [h d List.mem_cons_self] at hdigit
      cases hdigit
    | string => exact hquote (hno _ _ hpre).1.symm
    | ident hc =>
      rw [(hno _ _ hpre).1, hname] at hc
      cases hc
    | keyword word =>
      obtain ⟨x, xs, hx, hc, -⟩ := spelling_eq_cons word
      rw [hx] at hpre
      rw [(hno _ _ hpre).1, hname] at hc
      cases hc
    | op o =>
      rcases spelling_cases o with ⟨x, hx, hkind⟩ | ⟨x, y, hx, hkind⟩ <;> rw [hx] at hpre
      · rw [(hno _ _ hpre).1, hsingle] at hkind
        cases hkind
      · obtain ⟨rfl, ds, rfl⟩ := hno _ _ hpre
        rw [hpair y rfl] at hkind
        cases hkind
    | mark m =>
      have hkind : singleKind? m.spelling = some (.mark m) := by cases m <;> rfl
      rw [(hno _ _ hpre).1, hsingle] at hkind
      cases hkind

/-! ## Faults of the scanner -/

theorem cutString?_eq_none_iff {cs : List Char} : cutString? cs = none ↔ '"' ∉ cs := by
  induction cs with
  | nil => simp [cutString?]
  | cons c cs ih =>
    by_cases hc : c = '"'
    · simp [cutString?, hc]
    · simp [cutString?, hc, Ne.symm hc, ih]

theorem cutComment?_eq_none_iff {cs : List Char} :
    cutComment? cs = none ↔ ¬ ['*', '/'] <:+: cs := by
  fun_induction cutComment? cs with
  | case1 => simp
  | case2 cs =>
    have hcloses : ['*', '/'] <:+: '*' :: '/' :: cs := ⟨[], cs, rfl⟩
    simp [hcloses]
  | case3 c cs hcs ih =>
    have hclose : ¬ ['*', '/'] <+: c :: cs := by
      rintro ⟨rest, hrest⟩
      obtain ⟨rfl, rfl⟩ := List.cons.inj hrest
      exact hcs rest rfl rfl
    rw [Option.map_eq_none_iff, ih, List.infix_cons_iff, not_or, and_iff_right hclose]

theorem scanSingle_reading_eq_fault_iff {c : Char} {cs : List Char} {f : Fault} :
    (scanSingle c cs).reading = .fault f ↔ f = .unknownChar c ∧ singleKind? c = none := by
  unfold scanSingle
  split
  · simp_all
  · simp_all [eq_comm]

theorem scanSign_reading_eq_fault_iff {c : Char} {cs : List Char} {f : Fault} :
    (scanSign c cs).reading = .fault f ↔
      f = .unknownChar c ∧ singleKind? c = none ∧ ∀ d ∈ cs.head?, pairKind? c d = none := by
  fun_cases scanSign c cs with
  | case1 => simp [scanSingle_reading_eq_fault_iff]
  | case2 d cs k hk => simp [hk]
  | case3 d cs hnone => simp [scanSingle_reading_eq_fault_iff, hnone]

/-- What is scanned as a fault is one. -/
theorem faulty_of_scan {c : Char} {cs : List Char} {f : Fault}
    (h : (scan c cs).reading = .fault f) : Faulty f (c :: cs) := by
  revert h
  unfold scan
  split
  · rintro ⟨⟩
  rename_i hblank
  split
  · rintro ⟨⟩
  rename_i hname
  split
  · rename_i hc
    simp only [readNumber]
    split
    · rintro ⟨⟩
    · rename_i hbound
      rintro ⟨⟩
      have hdigits : ∀ d ∈ c :: cs.takeWhile Char.isDigit, d.isDigit = true := by
        intro d hd
        rcases List.mem_cons.1 hd with rfl | hd
        · exact hc
        · exact List.mem_takeWhile_imp hd
      have hfault := Faulty.number (by simp) hdigits (head_dropWhile _ cs) (Nat.le_of_not_lt hbound)
      rwa [List.cons_append, List.takeWhile_append_dropWhile] at hfault
  rename_i hdigit
  split
  · rename_i hquote
    subst hquote
    unfold scanString
    split
    · rintro ⟨⟩
    · rename_i hnone
      rintro ⟨⟩
      exact .string (cutString?_eq_none_iff.1 hnone)
  rename_i hquote
  split
  · rintro ⟨⟩
  rename_i hhash
  split
  · rintro ⟨⟩
  · unfold scanComment
    split
    · rintro ⟨⟩
    · rename_i hnone
      rintro ⟨⟩
      exact .comment (cutComment?_eq_none_iff.1 hnone)
  · intro h
    obtain ⟨rfl, hsingle, hpair⟩ := scanSign_reading_eq_fault_iff.1 h
    refine .char (Bool.eq_false_iff.2 hblank) (not_opens_iff.2 ?_)
    exact ⟨hquote, hhash, Bool.eq_false_iff.2 hname, Bool.eq_false_iff.2 hdigit, hsingle, hpair⟩

/-- A fault is scanned as such. -/
theorem scan_of_faulty {f : Fault} {text cs : List Char} {c : Char} (h : Faulty f text)
    (htext : text = c :: cs) : (scan c cs).reading = .fault f := by
  cases h with
  | string h =>
    cases htext
    simp [scan, scanString, cutString?_eq_none_iff.2 h, show isBlank '"' = false by decide,
      show isNameStart '"' = false by decide]
  | @comment cs h =>
    cases htext
    have hscan : scan '/' ('*' :: cs) = scanComment cs := rfl
    rw [hscan, scanComment, cutComment?_eq_none_iff.2 h]
  | @number digits rest hne h hrest hbound =>
    obtain ⟨d, digits, rfl⟩ := List.exists_cons_of_ne_nil hne
    obtain ⟨rfl, rfl⟩ := List.cons.inj htext
    have hd := h d List.mem_cons_self
    obtain ⟨htake, hdrop⟩ :=
      takeWhile_of_head (fun d hd => h d (List.mem_cons_of_mem _ hd)) hrest
    have hblank := isBlank_of_isNameChar (isNameChar_of_isDigit hd)
    simp [scan, hblank, isNameStart_of_isDigit hd, hd, htake, readNumber, Nat.not_lt.2 hbound]
  | char hblank hopens =>
    cases htext
    obtain ⟨hquote, hhash, hname, hdigit, hsingle, hpair⟩ := not_opens_iff.1 hopens
    have hsign : scan c cs = scanSign c cs := by
      simp only [scan, hblank, hname, hdigit, hquote, hhash, Bool.false_eq_true, if_false]
      split
      · cases hsingle
      · cases hsingle
      · rfl
    rw [hsign]
    exact scanSign_reading_eq_fault_iff.2 ⟨rfl, hsingle, hpair⟩

end Lexeme

open Lexeme

/-! ## Tokens in front of a fault -/

/-- The kinds are written whole in front of `rest`: none of the spellings goes on, and trivia stands
behind each. -/
def Written.Whole (rest : List Char) : List Written → Prop
  | [] => True
  | w :: ws => (Spells w.kind w.text ∧ Trivia w.sep ∧
      MaximalBefore (w.sep ++ ws.flatMap source ++ rest) w.kind) ∧ Whole rest ws

namespace Cursor

/-- Whole tokens are read as they are, whatever is read behind them. -/
theorem tokens_of_whole {rest : List Char} : ∀ {ws : List Written} {lead : List Char} {line : Nat},
    Trivia lead → Written.Whole rest ws →
      (Cursor.mk (lead ++ ws.flatMap Written.source ++ rest) line).tokens.1 =
        (Cursor.mk rest (line + (lead ++ ws.flatMap Written.source).count '\n')).tokens.1.map
          ((Written.pieces (line + lead.count '\n') ws).map Piece.token ++ ·)
  | [], lead, line, hlead, _ => by
    rw [List.flatMap_nil, List.append_nil, skips_trivia hlead]
    cases (Cursor.mk rest (line + lead.count '\n')).tokens.1 <;> rfl
  | w :: ws, lead, line, hlead, ⟨⟨hspells, hsep, hmax⟩, hws⟩ => by
    have hsource : (w :: ws).flatMap Written.source ++ rest =
        w.text ++ (w.sep ++ ws.flatMap Written.source ++ rest) := by
      simp [Written.source]
    rw [List.append_assoc, skips_trivia hlead, hsource, tokens_spelling _ hspells hmax,
      tokens_of_whole hsep hws]
    have hend : line + lead.count '\n' + w.text.count '\n' +
          (w.sep ++ ws.flatMap Written.source).count '\n' =
        line + (lead ++ (w :: ws).flatMap Written.source).count '\n' := by
      simp [Written.source, Nat.add_assoc]
    have hnext : line + lead.count '\n' + w.text.count '\n' + w.sep.count '\n' =
        line + lead.count '\n' + w.source.count '\n' := by
      rw [Written.source, List.count_append, Nat.add_assoc]
    rw [hend, hnext]
    cases (Cursor.mk rest _).tokens.1 <;> rfl

theorem tokens_of_faulty {f : Fault} {text : List Char} (h : Faulty f text) (line : Nat) :
    (Cursor.mk text line).tokens.1 = .error ⟨f, line⟩ := by
  obtain ⟨c, cs, rfl⟩ := List.exists_cons_of_ne_nil h.ne_nil
  rw [Cursor.tokens, scan_of_faulty h rfl]

/-- Where reading fails there is a fault behind whole tokens. -/
theorem exists_whole (cursor : Cursor) : ∀ e, cursor.tokens.1 = .error e →
    ∃ lead ws rest, cursor.rest = lead ++ ws.flatMap Written.source ++ rest ∧ Trivia lead ∧
      Written.Whole rest ws ∧ Faulty e.fault rest ∧
      e.line = cursor.line + (lead ++ ws.flatMap Written.source).count '\n' := by
  fun_induction Cursor.tokens cursor with
  | case1 => rintro e ⟨⟩
  | case2 c cs line lexeme next hread ih =>
    intro e h
    obtain ⟨lead, ws, rest, hrest, hlead, hws, hfault, hline⟩ := ih e h
    have happend : lexeme.text ++ next.rest = c :: cs := text_append_rest c cs
    have hne : ws.flatMap Written.source ++ rest ≠ [] := by simp [hfault.ne_nil]
    -- more text follows, so what is skipped here has its newline
    have hgap : Gap (lexeme.text ++ lead) (ws.flatMap Written.source ++ rest) :=
      gap_of_scan hread (by rw [← List.append_assoc]; exact hrest) (hlead.gap _)
    refine ⟨lexeme.text ++ lead, ws, rest, ?_, hgap.trivia hne, hws, hfault, ?_⟩
    · rw [← happend, hrest]
      simp
    · rw [hline, List.append_assoc]
      simp [next, Nat.add_assoc]
  | case3 c cs line lexeme next kind hread read ih =>
    intro e h
    obtain ⟨lead, ws, rest, hrest, hlead, hws, hfault, hline⟩ :=
      ih e (eq_error_of_map_eq_error h)
    have happend : lexeme.text ++ next.rest = c :: cs := text_append_rest c cs
    obtain ⟨hspells, hmax⟩ := spells_of_scan hread
    refine ⟨[], ⟨kind, lexeme.text, lead⟩ :: ws, rest, ?_, .nil, ⟨⟨hspells, hlead, ?_⟩, hws⟩,
      hfault, ?_⟩
    · rw [← happend, hrest]
      simp [Written.source]
    · exact hrest ▸ hmax
    · rw [hline]
      simp [Written.source, next, Nat.add_assoc]
  | case4 c cs line lexeme next fault hread =>
    rintro e ⟨⟩
    exact ⟨[], [], c :: cs, rfl, .nil, trivial, faulty_of_scan hread, rfl⟩

end Cursor

/-! ## Lone signs -/

theorem faulty_unknownChar_iff {c : Char} {cs : List Char} :
    Faulty (.unknownChar c) (c :: cs) ↔ isBlank c = false ∧ ¬ Opens c cs := by
  constructor
  · generalize htext : c :: cs = text
    intro h
    cases h with
    | char hblank hopens =>
      cases htext
      exact ⟨hblank, hopens⟩
  · rintro ⟨hblank, hopens⟩
    exact .char hblank hopens

/-- A first character goes with one second character only. -/
theorem pairKind?_eq_none_iff {c d : Char} {k : Kind} (h : pairKind? c d = some k) (x : Char) :
    pairKind? c x = none ↔ x ≠ d := by
  by_cases hx : x = d
  · simp [hx, h]
  · unfold pairKind? at h
    split at h <;> cases h <;> simp [pairKind?, hx]

/-- A character that is a sign only together with `d` is unknown in front of all else. -/
theorem faulty_lone_iff {c d : Char} {k : Kind} (hpair : pairKind? c d = some k)
    (hsingle : singleKind? c = none) (cs : List Char) :
    Faulty (.unknownChar c) (c :: cs) ↔ cs.head? ≠ some d := by
  have hc : isBlank c = false ∧ c ≠ '"' ∧ c ≠ '#' ∧ isNameStart c = false ∧
      c.isDigit = false := by
    unfold pairKind? at hpair
    split at hpair <;> cases hpair <;> decide
  have hhead : (∀ x ∈ cs.head?, x ≠ d) ↔ cs.head? ≠ some d := by
    cases cs <;> simp
  rw [faulty_unknownChar_iff, not_opens_iff, ← hhead]
  simp only [hc, hsingle, pairKind?_eq_none_iff hpair, ne_eq, not_false_eq_true, true_and]

/-- Reading the tokens of a source fails exactly where whole tokens, with trivia around them, are
followed by a fault, which is then reported with the line it starts on. -/
theorem tokenize_eq_error_iff (source : String) (e : LexError) :
    (tokenize source = .error e ↔
      ∃ lead ws rest, source.toList = lead ++ ws.flatMap Written.source ++ rest ∧ Trivia lead ∧
        Written.Whole rest ws ∧ Faulty e.fault rest ∧
        e.line = 1 + (lead ++ ws.flatMap Written.source).count '\n') ∧
    ∀ cs, (Faulty (.unknownChar '!') ('!' :: cs) ↔ cs.head? ≠ some '=') ∧
      (Faulty (.unknownChar '&') ('&' :: cs) ↔ cs.head? ≠ some '&') ∧
      (Faulty (.unknownChar '|') ('|' :: cs) ↔ cs.head? ≠ some '|') := by
  refine ⟨⟨Cursor.exists_whole (.start source) e, ?_⟩, fun cs => ?_⟩
  · rintro ⟨lead, ws, rest, hsource, hlead, hws, hfault, hline⟩
    rw [tokenize, Cursor.start, hsource, Cursor.tokens_of_whole hlead hws,
      Cursor.tokens_of_faulty hfault, ← hline]
    rfl
  · exact ⟨faulty_lone_iff rfl rfl cs, faulty_lone_iff rfl rfl cs, faulty_lone_iff rfl rfl cs⟩

end MiniC
