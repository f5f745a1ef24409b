import MiniC.Proofs.LayoutTotal
import MiniC.Proofs.Spacing

/-!
# Two sources, one below the other

If two sources compile, the second can be put below the first. Each stage takes the seam in its own
way. The newline ends whatever comment, directive or token the first source ends with, so its
tokens are read as before and those of the second follow, further down
(`Cursor.tokens_append_newline`). The items of two programs, one behind the other, are a program:
no item starts with `else`, so an `if` that is open at the seam stays without one. And items are
laid out one by one, so only the call of `main` has to move to the end.
-/

namespace MiniC

open Lexeme

/-! ## Tokens -/

theorem Lexeme.MaximalBefore.append_newline {k : Kind} {text : List Char}
    (h : MaximalBefore text k) (rest : List Char) : MaximalBefore (text ++ '\n' :: rest) k := by
  cases text with
  | nil =>
    have hends : Ends ('\n' :: rest) := by
      rintro c ⟨⟩
      decide
    exact hends.maximal k
  | cons c text => exact h

namespace Cursor

/-- A gap that a newline follows is skipped, even if it is a comment that the newline ends. -/
theorem skips_of_scan_gap {c : Char} {cs : List Char} (h : (scan c cs).reading = .gap)
    (rest : List Char) : Skips (scan c cs).text ((scan c cs).rest ++ '\n' :: rest) := by
  have hgap : Gap (scan c cs).text (scan c cs).rest := by
    simpa using gap_of_scan h rfl .nil
  by_cases hrest : (scan c cs).rest = []
  · intro line
    have hopen := skips_trivia hgap.trivia_append_newline rest line
    have hnl := tokens_blank rest (line + (scan c cs).text.count '\n') (c := '\n') (by decide)
    rw [List.append_assoc, List.count_append, ← Nat.add_assoc] at hopen
    rw [hrest, List.nil_append, hnl]
    exact hopen
  · exact skips_trivia (hgap.trivia hrest) _

theorem line_add_count_scan (line : Nat) (c : Char) (cs : List Char) :
    line + (scan c cs).text.count '\n' + (scan c cs).rest.count '\n' =
      line + (c :: cs).count '\n' := by
  rw [Nat.add_assoc, ← List.count_append, text_append_rest]

/-- A newline and more text behind a source leave its tokens as they are. -/
theorem tokens_append_newline (cursor : Cursor) : ∀ ts, cursor.tokens.1 = .ok ts →
    ∃ us, ts = us ++ [⟨.eof, cursor.line + cursor.rest.count '\n'⟩] ∧
      ∀ rest, (Cursor.mk (cursor.rest ++ '\n' :: rest) cursor.line).tokens.1 =
        (Cursor.mk rest (cursor.line + cursor.rest.count '\n' + 1)).tokens.1.map (us ++ ·) := by
  fun_induction Cursor.tokens cursor with
  | case1 line =>
    rintro ts ⟨⟩
    refine ⟨[], rfl, fun rest => ?_⟩
    have hnl := tokens_blank rest line (c := '\n') (by decide)
    rw [List.nil_append, hnl, List.count_singleton_self, List.count_nil, Nat.add_zero]
    cases (Cursor.mk rest (line + 1)).tokens.1 <;> rfl
  | case2 c cs line lexeme next hread ih =>
    intro ts h
    obtain ⟨us, rfl, hrest⟩ := ih ts h
    have hline : next.line + next.rest.count '\n' = line + (c :: cs).count '\n' :=
      line_add_count_scan line c cs
    rw [hline] at hrest ⊢
    refine ⟨us, rfl, fun rest => ?_⟩
    have hskip := skips_of_scan_gap hread rest line
    rw [← List.append_assoc, text_append_rest] at hskip
    exact (congrArg Prod.fst hskip).trans (hrest rest)
  | case3 c cs line lexeme next kind hread read ih =>
    intro ts h
    obtain ⟨ts, hts, rfl⟩ := exists_of_map_eq_ok h
    obtain ⟨us, rfl, hrest⟩ := ih ts hts
    have hline : next.line + next.rest.count '\n' = line + (c :: cs).count '\n' :=
      line_add_count_scan line c cs
    rw [hline] at hrest ⊢
    refine ⟨⟨kind, line⟩ :: us, rfl, fun rest => ?_⟩
    obtain ⟨hspells, hmax⟩ := spells_of_scan hread
    have htoken := tokens_spelling line hspells (hmax.append_newline rest)
    rw [← List.append_assoc, text_append_rest] at htoken
    rw [htoken, hrest rest]
    cases (Cursor.mk rest (line + (c :: cs).count '\n' + 1)).tokens.1 <;> rfl
  | case4 => rintro ts ⟨⟩

end Cursor

/-- The token `n` lines further down. -/
def Token.down (n : Nat) (t : Token) : Token := { t with line := t.line + n }

/-- The error `n` lines further down. -/
def LexError.down (n : Nat) (e : LexError) : LexError := { e with line := e.line + n }

/-- Where a source stands decides the lines of its tokens or of its error, and nothing else. -/
theorem Cursor.tokens_down (n : Nat) (cursor : Cursor) :
    (Cursor.mk cursor.rest (cursor.line + n)).tokens =
      ((cursor.tokens.1.map (List.map (Token.down n))).mapError (LexError.down n),
        ⟨cursor.tokens.2.rest, cursor.tokens.2.line + n⟩) := by
  fun_induction Cursor.tokens cursor with
  | case1 line =>
    rw [Cursor.tokens]
    rfl
  | case2 c cs line lexeme next hread ih =>
    rw [Cursor.tokens, hread, Nat.add_right_comm]
    exact ih
  | case3 c cs line lexeme next kind hread read ih =>
    have hnext : (Cursor.mk lexeme.rest (line + n + lexeme.text.count '\n')).tokens = _ :=
      Nat.add_right_comm line n _ ▸ ih
    rw [Cursor.tokens, hread]
    simp only [lexeme, next, read] at hnext ⊢
    rw [hnext]
    cases next.tokens.1 <;> rfl
  | case4 c cs line lexeme next fault hread =>
    rw [Cursor.tokens, hread, Nat.add_right_comm]
    rfl

/-- A source with `n` lines above it. -/
theorem Cursor.tokens_below (source : String) (n : Nat) :
    (Cursor.mk source.toList (1 + n)).tokens.1 =
      ((tokenize source).map (List.map (Token.down n))).mapError (LexError.down n) :=
  congrArg Prod.fst (Cursor.tokens_down n (.start source))

theorem tokenize_append_newline {a b : String} {ts us : List Token} (ha : tokenize a = .ok ts)
    (hb : tokenize b = .ok us) : ∃ front line, ts = front ++ [⟨.eof, line⟩] ∧
      tokenize (a ++ "\n" ++ b) = .ok (front ++ us.map (Token.down line)) := by
  obtain ⟨front, hts, hjoin⟩ := Cursor.tokens_append_newline _ _ ha
  have hbelow := Cursor.tokens_below b (1 + a.toList.count '\n')
  rw [hb, Nat.add_comm] at hbelow
  refine ⟨front, _, hts, ?_⟩
  have htext : (a ++ "\n" ++ b).toList = a.toList ++ '\n' :: b.toList := by simp
  rw [tokenize, Cursor.start, htext]
  refine (hjoin b.toList).trans ?_
  simp only [Cursor.start]
  rw [hbelow]
  rfl

/-- The stream of two sources is that of the first and then that of the second. -/
theorem kinds_append_newline {a b : String} {ts us : List Token} (ha : tokenize a = .ok ts)
    (hb : tokenize b = .ok us) : ∃ vs, tokenize (a ++ "\n" ++ b) = .ok vs ∧
      (Stream.ofTokens vs).tokens.map Token.kind =
        (Stream.ofTokens ts).tokens.map Token.kind ++
          (Stream.ofTokens us).tokens.map Token.kind := by
  obtain ⟨front, line, rfl, hjoin⟩ := tokenize_append_newline ha hb
  obtain ⟨us, line', rfl, hus⟩ := exists_spells_of_tokenize hb
  obtain ⟨front', line'', hfront, hspells⟩ := exists_spells_of_tokenize ha
  obtain ⟨rfl, -⟩ := List.append_inj' hfront rfl
  have heof : ∀ t ∈ front, t.kind ≠ .eof := fun t ht => (hspells t ht).choose_spec.ne_eof
  have heof' : ∀ u ∈ us, u.kind ≠ .eof := fun u hu => (hus u hu).choose_spec.ne_eof
  have hdown : ∀ t ∈ front ++ us.map (Token.down line), t.kind ≠ .eof := by
    intro t ht
    rcases List.mem_append.1 ht with ht | ht
    · exact heof t ht
    · obtain ⟨u, hu, rfl⟩ := List.mem_map.1 ht
      exact heof' u hu
  refine ⟨_, hjoin, ?_⟩
  have hstream := Program.tokens_ofTokens_append_eof hdown (line' + line)
  rw [List.append_assoc] at hstream
  rw [List.map_append]
  refine (congrArg (List.map Token.kind) hstream).trans ?_
  rw [Program.tokens_ofTokens_append_eof heof, Program.tokens_ofTokens_append_eof heof',
    List.map_append, List.map_map]
  rfl

/-! ## Programs -/

namespace Program

/-- The items of two programs, one behind the other, are read as such. -/
theorem parse_append {ts us vs : List Token} {p q : Program} (hp : parse ts = .ok p)
    (hq : parse us = .ok q)
    (hvs : (Stream.ofTokens vs).tokens.map Token.kind =
      (Stream.ofTokens ts).tokens.map Token.kind ++
        (Stream.ofTokens us).tokens.map Token.kind) :
    parse vs = .ok ⟨p.body ++ q.body⟩ := by
  obtain ⟨d, hd, hres, rfl⟩ := parse_eq_ok_iff_exists_resolved.1 hp
  obtain ⟨d', hd', hres', rfl⟩ := parse_eq_ok_iff_exists_resolved.1 hq
  rw [parse_eq_ok_iff_exists_resolved]
  refine ⟨⟨d.items ++ d'.items⟩, ?_, ?_, ?_⟩
  · rw [hvs, ← hd, ← hd', Derivation.frontier, List.flatMap_append]
    rfl
  · intro i hi
    rcases List.mem_append.1 hi with hi | hi
    · exact hres i hi
    · exact hres' i hi
  · simp [Derivation.program]

theorem hasMain_append (ss ss' : List Stmt) :
    hasMain ⟨ss ++ ss'⟩ = (hasMain ⟨ss⟩ || hasMain ⟨ss'⟩) :=
  List.any_append

end Program

/-! ## Layout -/

theorem Emission.append_assoc (a b c : Emission) : a ++ b ++ c = a ++ (b ++ c) := by
  rcases a with ⟨ls, _ | e⟩ <;> rcases b with ⟨ms, _ | e'⟩ <;> simp [append_def, append]

namespace Program

theorem emitItems_append (depth : Nat) (ss ss' : List Stmt) :
    emitItems depth (ss ++ ss') = emitItems depth ss ++ emitItems depth ss' := by
  induction ss with
  | nil => rfl
  | cons s ss ih => rw [List.cons_append, emitItems, emitItems, ih, Emission.append_assoc]

/-- The lines of the items of a program, without a call of `main` behind them. -/
def itemLines (p : Program) : List Line := (emitItems 0 p.body).lines

/-- A call of `main`, or nothing. -/
def entryCall (called : Bool) : List Line := if called then [⟨0, "main();"⟩] else []

theorem error_emitItems_of_parse {ts : List Token} {p : Program} (h : parse ts = .ok p) :
    (emitItems 0 p.body).error = none := by
  obtain ⟨d, -, -, rfl⟩ := parse_eq_ok_iff_exists_resolved.1 h
  exact Grammar.error_emitItems 0 d.items

theorem generate_of_parse {ts : List Token} {p : Program} (h : parse ts = .ok p) :
    p.generate = .ok (Line.renderAll (p.itemLines ++ entryCall p.hasMain)) := by
  have herror := error_emitItems_of_parse h
  have hlines : (p.emit 0).lines = p.itemLines ++ entryCall p.hasMain :=
    Emission.lines_append herror
  rw [← hlines]
  exact generate_eq_ok ((Emission.error_append herror).trans rfl)

theorem itemLines_append {p q : Program} (h : (emitItems 0 p.body).error = none) :
    itemLines ⟨p.body ++ q.body⟩ = p.itemLines ++ q.itemLines := by
  rw [itemLines, emitItems_append, Emission.lines_append h]
  rfl

end Program

/-! ## Sources -/

theorem parseSource_eq_ok_iff {source : String} {p : Program} :
    parseSource source = .ok p ↔ ∃ ts, tokenize source = .ok ts ∧ Program.parse ts = .ok p := by
  unfold parseSource
  rcases hlex : tokenize source with e | ts
  · simp [Except.mapError, bind, Except.bind]
  · rcases hparse : Program.parse ts with e | q <;>
      simp [Except.mapError, bind, Except.bind, hparse]

theorem compile_of_parse {source : String} {ts : List Token} {p : Program}
    (hlex : tokenize source = .ok ts) (hparse : Program.parse ts = .ok p) :
    compile source =
      .ok (Line.renderAll (p.itemLines ++ Program.entryCall p.hasMain)) := by
  have hread := parseSource_eq_ok_iff.2 ⟨ts, hlex, hparse⟩
  rw [compile, hread]
  simp [bind, Except.bind, Program.generate_of_parse hparse, Except.mapError]

theorem exists_parse_of_compile {source js : String} (h : compile source = .ok js) :
    ∃ ts p, tokenize source = .ok ts ∧ Program.parse ts = .ok p := by
  rcases hlex : tokenize source with e | ts
  · rw [compile_eq_error_iff.2 (.inl ⟨e, hlex, rfl⟩)] at h
    cases h
  · rcases hparse : Program.parse ts with e | p
    · rw [compile_eq_error_iff.2 (.inr ⟨ts, e, hlex, hparse, rfl⟩)] at h
      cases h
    · exact ⟨ts, p, rfl, hparse⟩

/-- Two sources that compile do so together, the one below the other: the program has the items of
both, the lines are those of both, and `main` is called once at the end if one of them has it. -/
theorem compile_append_newline {a b js js' : String} (ha : compile a = .ok js)
    (hb : compile b = .ok js') :
    ∃ p q, parseSource a = .ok p ∧ parseSource b = .ok q ∧
      parseSource (a ++ "\n" ++ b) = .ok ⟨p.body ++ q.body⟩ ∧
      js = Line.renderAll (p.itemLines ++ Program.entryCall p.hasMain) ∧
      js' = Line.renderAll (q.itemLines ++ Program.entryCall q.hasMain) ∧
      compile (a ++ "\n" ++ b) = .ok (Line.renderAll
        (p.itemLines ++ q.itemLines ++ Program.entryCall (p.hasMain || q.hasMain))) := by
  obtain ⟨ts, p, hlex, hp⟩ := exists_parse_of_compile ha
  obtain ⟨us, q, hlex', hq⟩ := exists_parse_of_compile hb
  obtain ⟨vs, hjoin, hkinds⟩ := kinds_append_newline hlex hlex'
  have hpq := Program.parse_append hp hq hkinds
  rw [compile_of_parse hlex hp, Except.ok.injEq] at ha
  rw [compile_of_parse hlex' hq, Except.ok.injEq] at hb
  refine ⟨p, q, parseSource_eq_ok_iff.2 ⟨ts, hlex, hp⟩, parseSource_eq_ok_iff.2 ⟨us, hlex', hq⟩,
    parseSource_eq_ok_iff.2 ⟨vs, hjoin, hpq⟩, ha.symm, hb.symm, ?_⟩
  rw [compile_of_parse hjoin hpq,
    Program.itemLines_append (Program.error_emitItems_of_parse hp), Program.hasMain_append]

/-- An `if` and a comment are open at the seam, and only the second source has a `main`. -/
theorem compile_append_newline_open :
    compile "if(x)y;//" = .ok "if (x)\n    y;" ∧
    compile "int main()\x7b\x7d#" = .ok "function main() \x7b\n\x7d\nmain();" ∧
    ∃ p q, parseSource "if(x)y;//" = .ok p ∧ parseSource "int main()\x7b\x7d#" = .ok q ∧
      parseSource ("if(x)y;//" ++ "\n" ++ "int main()\x7b\x7d#") = .ok ⟨p.body ++ q.body⟩ ∧
      compile ("if(x)y;//" ++ "\n" ++ "int main()\x7b\x7d#") = .ok (Line.renderAll
        (p.itemLines ++ q.itemLines ++ Program.entryCall (p.hasMain || q.hasMain))) := by
  have ha : compile "if(x)y;//" = .ok "if (x)\n    y;" := by cbv
  have hb : compile "int main()\x7b\x7d#" = .ok "function main() \x7b\n\x7d\nmain();" := by cbv
  obtain ⟨p, q, hp, hq, hpq, -, -, hjoin⟩ := compile_append_newline ha hb
  exact ⟨ha, hb, p, q, hp, hq, hpq, hjoin⟩

end MiniC
