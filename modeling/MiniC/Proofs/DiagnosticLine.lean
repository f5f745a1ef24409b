import MiniC.Proofs.EarliestError
import MiniC.Proofs.LayoutTotal
import MiniC.Proofs.Tokenization
import MiniC.Text.Lines

/-!
# The line of a diagnostic

A diagnostic is about a piece of the source, whose first character is on its line
(`Cursor.Reaches`), or about the end of the source. A line with a character on it is one of the
lines of the text. The end is on the line behind the last newline, which the text does not have if
nothing stands on it: so a source that ends with a newline, but should have gone on, is at fault on
a line that cannot be shown.
-/

namespace MiniC

/-! ## How many lines a text has -/

theorem cutLines_eq_nil_iff {cs : List Char} : cutLines cs = [] ↔ cs = [] := by
  fun_cases cutLines cs <;> simp

/-- Does the text go on behind its last newline? -/
def hasOpenLine (cs : List Char) : Bool := cs.getLast?.any (· ≠ '\n')

theorem hasOpenLine_cons_cons (c d : Char) (cs : List Char) :
    hasOpenLine (c :: d :: cs) = hasOpenLine (d :: cs) := by
  simp [hasOpenLine, List.getLast?_cons_cons]

theorem hasOpenLine_newline_cons (cs : List Char) : hasOpenLine ('\n' :: cs) = hasOpenLine cs := by
  cases cs with
  | nil => rfl
  | cons c cs => exact hasOpenLine_cons_cons '\n' c cs

theorem hasOpenLine_eq_false_iff {cs : List Char} (h : cs ≠ []) :
    hasOpenLine cs = false ↔ cs.getLast? = some '\n' := by
  rw [hasOpenLine, List.getLast?_eq_some_getLast h]
  simp

/-- A text has a line for each newline, and one more if it goes on behind the last. -/
theorem length_cutLines (cs : List Char) :
    (cutLines cs).length = cs.count '\n' + (hasOpenLine cs).toNat := by
  fun_induction cutLines cs with
  | case1 => rfl
  | case2 cs ih =>
    have hopen : hasOpenLine ('\r' :: '\n' :: cs) = hasOpenLine cs :=
      (hasOpenLine_cons_cons ..).trans (hasOpenLine_newline_cons cs)
    simp [hopen, ih]
    omega
  | case3 cs ih =>
    simp [hasOpenLine_newline_cons, ih]
    omega
  | case4 c cs hcr hnl hnil ih =>
    obtain rfl := cutLines_eq_nil_iff.1 hnil
    have hc : c ≠ '\n' := fun h => hnl h
    simp [hasOpenLine, hc]
  | case5 c cs hcr hnl l ls hcons ih =>
    have hc : c ≠ '\n' := fun h => hnl h
    have hne : cs ≠ [] := by
      rintro rfl
      cases hcons
    obtain ⟨d, cs, rfl⟩ := List.exists_cons_of_ne_nil hne
    rw [hcons] at ih
    rw [hasOpenLine_cons_cons, List.count_cons_of_ne hc, ← ih, List.length_cons, List.length_cons]

theorem length_lines (text : String) :
    (lines text).length = text.toList.count '\n' + (hasOpenLine text.toList).toNat := by
  rw [lines, List.length_map, length_cutLines]

/-- A character on the line is still to be read. -/
def Cursor.Reaches (cursor : Cursor) (line : Nat) : Prop :=
  ∃ before c after, cursor.rest = before ++ c :: after ∧ line = cursor.line + before.count '\n'

theorem Cursor.Reaches.cons (c : Char) (cs : List Char) (line : Nat) :
    Reaches ⟨c :: cs, line⟩ line :=
  ⟨[], c, cs, rfl, rfl⟩

theorem Cursor.Reaches.append {rest text : List Char} {line start : Nat}
    (h : Reaches ⟨rest, start + text.count '\n'⟩ line) : Reaches ⟨text ++ rest, start⟩ line := by
  obtain ⟨before, c, after, hrest, hline⟩ := h
  refine ⟨text ++ before, c, after, ?_, ?_⟩
  · simp [← hrest]
  · rw [hline, List.count_append, Nat.add_assoc]

/-- A line that holds a character of the text is one of its lines. -/
theorem Cursor.Reaches.mem_lines {text : String} {line : Nat}
    (h : (Cursor.start text).Reaches line) : 1 ≤ line ∧ line ≤ (lines text).length := by
  obtain ⟨before, c, after, htext, rfl⟩ := h
  have hlen := length_lines text
  change text.toList = _ at htext
  rw [htext, List.count_append] at hlen
  refine ⟨Nat.le_add_right 1 _, ?_⟩
  simp only [Cursor.start]
  by_cases hnl : '\n' ∈ c :: after
  · have hpos := List.count_pos_iff.2 hnl
    omega
  · -- nothing ends the line, so the text goes on behind its last newline
    have hopen : hasOpenLine (before ++ c :: after) = true := by
      rw [← Bool.not_eq_false, hasOpenLine_eq_false_iff (by simp), List.getLast?_append,
        List.getLast?_eq_some_getLast (List.cons_ne_nil c after)]
      intro h
      exact hnl (Option.some.inj h ▸ List.getLast_mem _)
    rw [hopen, Bool.toNat_true] at hlen
    omega

/-! ## Where reading fails -/

/-- A faulty piece starts on its line. -/
theorem Cursor.reaches_of_tokens_error (cursor : Cursor) : ∀ e, cursor.tokens.1 = .error e →
    cursor.Reaches e.line := by
  fun_induction Cursor.tokens cursor with
  | case1 => rintro e ⟨⟩
  | case2 c cs line lexeme next hread ih =>
    intro e h
    rw [← Lexeme.text_append_rest c cs]
    exact (ih e h).append
  | case3 c cs line lexeme next kind hread read ih =>
    intro e h
    rw [← Lexeme.text_append_rest c cs]
    exact (ih e (eq_error_of_map_eq_error h)).append
  | case4 c cs line lexeme next fault hread =>
    rintro e ⟨⟩
    exact .cons c cs line

/-- A token starts on its line, or is the end of the source. -/
theorem reaches_of_mem_tokens {source : String} {ts : List Token} (h : tokenize source = .ok ts)
    {t : Token} (ht : t ∈ ts) : t.kind ≠ .eof ∧ (Cursor.start source).Reaches t.line ∨
      t = ⟨.eof, 1 + source.toList.count '\n'⟩ := by
  obtain ⟨gap, ps, hsource, rfl, -, hcut⟩ := Cursor.exists_cut _ _ h
  rcases List.mem_append.1 ht with ht | ht
  · left
    obtain ⟨p, hp, rfl⟩ := List.mem_map.1 ht
    obtain ⟨before, after, rfl⟩ := List.append_of_mem hp
    have hfits := hcut.fits
    obtain ⟨c, text, htext⟩ := List.exists_cons_of_ne_nil hfits.spells.ne_nil
    change source.toList = _ at hsource
    rw [Cursor.start, hsource, List.flatMap_append, List.flatMap_cons, Piece.source, htext,
      hfits.line_eq]
    exact ⟨hfits.spells.ne_eof, ((Cursor.Reaches.cons c _ _).append).append⟩
  · exact .inr (List.mem_singleton.1 ht)

namespace Program

/-- The offending token is one of the stream or closes it. -/
theorem found_mem_of_parse {ts : List Token} {e : ParseError} (h : parse ts = .error e) :
    e.found ∈ (Stream.ofTokens ts).tokens ++ [(Stream.ofTokens ts).eof] := by
  obtain ⟨before, t, after, r, hsplit, -, -, hstep⟩ := exists_of_readFrom_error h
  rw [Stmt.Reader.found_of_step hstep, Stream.eof, hsplit]
  exact List.mem_append_right _ List.mem_cons_self

theorem found_mem_of_tokenize {source : String} {ts : List Token} {e : ParseError}
    (hlex : tokenize source = .ok ts) (h : parse ts = .error e) : e.found ∈ ts := by
  have hfound := found_mem_of_parse h
  obtain ⟨us, line, rfl, hspells⟩ := exists_spells_of_tokenize hlex
  have heof : ∀ u ∈ us, u.kind ≠ .eof := by
    intro u hu
    obtain ⟨text, htext⟩ := hspells u hu
    exact htext.ne_eof
  rwa [Stream.ofTokens_append_eof heof] at hfound

end Program

/-- The diagnostic is that the source ends too early. -/
def Diagnostic.AtEnd : Diagnostic → Prop
  | .parse e => e.found.kind = .eof
  | _ => False

/-- A diagnostic is about a line with something on it, or the source has ended. -/
theorem FailsToRead.reaches {source : String} {d : Diagnostic} (h : FailsToRead source d) :
    ∃ line, d.line? = some line ∧
      (¬ d.AtEnd ∧ (Cursor.start source).Reaches line ∨
        d.AtEnd ∧ line = 1 + source.toList.count '\n') := by
  rcases h with ⟨e, hlex, rfl⟩ | ⟨ts, e, hlex, hparse, rfl⟩
  · exact ⟨_, rfl, .inl ⟨id, Cursor.reaches_of_tokens_error _ _ hlex⟩⟩
  · refine ⟨_, rfl, ?_⟩
    rcases reaches_of_mem_tokens hlex (Program.found_mem_of_tokenize hlex hparse) with hline | heof
    · exact .inl hline
    · exact .inr ⟨congrArg Token.kind heof, congrArg Token.line heof⟩

theorem compile_empty : compile "" = .ok "" := by
  cbv

/-- A diagnostic names a line of the source, except that a source which ends too early, and with a
newline, is at fault on the line behind its last. -/
theorem compile_error_line {source : String} {d : Diagnostic} (h : compile source = .error d) :
    ∃ line, d.line? = some line ∧ 1 ≤ line ∧
      (¬ (d.AtEnd ∧ source.toList.getLast? = some '\n') → line ≤ (lines source).length) ∧
      (d.AtEnd ∧ source.toList.getLast? = some '\n' → line = (lines source).length + 1) := by
  have hne : source.toList ≠ [] := by
    intro hnil
    obtain rfl := String.toList_eq_nil_iff.1 hnil
    rw [compile_empty] at h
    cases h
  have hlen := length_lines source
  obtain ⟨line, hline, ⟨hend, hon⟩ | ⟨hend, rfl⟩⟩ := (compile_eq_error_iff.1 h).reaches
  · exact ⟨line, hline, hon.mem_lines.1, fun _ => hon.mem_lines.2, fun h => absurd h.1 hend⟩
  · refine ⟨_, hline, Nat.le_add_right 1 _, fun hlast => ?_, fun ⟨_, hlast⟩ => ?_⟩
    · have hopen : hasOpenLine source.toList = true := by
        rw [← Bool.not_eq_false, hasOpenLine_eq_false_iff hne]
        exact fun h => hlast ⟨hend, h⟩
      rw [hopen, Bool.toNat_true] at hlen
      omega
    · rw [(hasOpenLine_eq_false_iff hne).2 hlast, Bool.toNat_false] at hlen
      omega

/-- A string that is never closed, on the last of three lines, and a missing semicolon behind
them. -/
theorem compile_error_line_open :
    (∃ line, (Diagnostic.lex ⟨.unterminatedString, 3⟩).line? = some line ∧ 1 ≤ line ∧
      line ≤ (lines "x\n=\r\n\"").length) ∧
    ∃ line, (Diagnostic.parse (.expected (.mark .semicolon) ⟨.eof, 4⟩)).line? = some line ∧
      line = (lines "x\n=\r\n1\n").length + 1 := by
  have hlex : compile "x\n=\r\n\"" = .error (.lex ⟨.unterminatedString, 3⟩) := by cbv
  have hparse : compile "x\n=\r\n1\n" =
      .error (.parse (.expected (.mark .semicolon) ⟨.eof, 4⟩)) := by
    cbv
  obtain ⟨line, hline, hone, hle, -⟩ := compile_error_line hlex
  obtain ⟨line', hline', -, -, hend⟩ := compile_error_line hparse
  exact ⟨⟨line, hline, hone, hle fun h => h.1⟩, line', hline', hend ⟨rfl, by decide⟩⟩

/-- Not every diagnostic names a line of the source: a semicolon is missing on line 2 of 1. -/
theorem exists_compile_error_line_unseen : ∃ d, compile "x\n" = .error d ∧ d.line? = some 2 ∧
    (lines "x\n").length = 1 :=
  ⟨.parse (.expected (.mark .semicolon) ⟨.eof, 2⟩), by cbv, rfl, by cbv⟩

end MiniC
