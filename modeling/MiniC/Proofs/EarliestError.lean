import MiniC.Diagnostic
import MiniC.Proofs.Acceptance

/-!
# An error names the first token that fits no program

A reader that has not failed can always be brought to an end: what its frames have begun can be
completed, innermost first, with the shortest operands and statements there are. In terms of the
grammar, the kinds that lead to a state begin the frontier of a derivation
(`Stmt.HasRead.begins`), so no prefix that is read is a dead end. And what a reader does with a
token is settled by the tokens before it, so a token that is refused is refused whatever follows.
-/

namespace MiniC

/-- The kinds are those with which some program begins. -/
def Begins (ks : List Kind) : Prop := ∃ d : Derivation, ks <+: d.frontier

theorem Begins.mono {ks ls : List Kind} (hbefore : ks <+: ls) (h : Begins ls) : Begins ks := by
  obtain ⟨d, hd⟩ := h
  exact ⟨d, hbefore.trans hd⟩

/-! ## Completing what has been begun -/

namespace Expr

open Grammar

/-- With `c` at its innermost place, what has been opened can be closed to a chain. -/
theorem Opened.exists_chain {frames : List Frame} {pre : List Kind} (h : Opened frames pre) :
    ∀ c : Chain, ∃ c' : Chain, pre ++ c.frontier <+: c'.frontier := by
  induction h with
  | nil => exact fun c => ⟨c, List.prefix_rfl⟩
  | @operator frames floor left o pre ks h c' hks ih =>
    intro c
    obtain ⟨whole, hwhole⟩ := ih (c'.extend o c)
    refine ⟨whole, List.IsPrefix.trans ?_ hwhole⟩
    simp [hks, Chain.frontier_extend]
  | @group frames floor pre ks h hks ih =>
    intro c
    obtain ⟨whole, hwhole⟩ := ih (.last (.group c))
    refine ⟨whole, List.IsPrefix.trans ?_ hwhole⟩
    simp [hks, Chain.frontier, Operand.frontier]
  | @assign frames floor x pre ks h hks ih =>
    intro c
    obtain ⟨whole, hwhole⟩ := ih (.last (.assign x c))
    refine ⟨whole, List.IsPrefix.trans ?_ hwhole⟩
    simp [hks, Chain.frontier, Operand.frontier]
  | @call frames floor f args pre ks h done hks ih =>
    intro c
    obtain ⟨whole, hwhole⟩ := ih (.last (.call f (done ++ [c])))
    refine ⟨whole, List.IsPrefix.trans ?_ hwhole⟩
    simp [hks, Chain.frontier, Operand.frontier, argFrontier_append]

theorem HasRead.exists_chain {r : Reader} {ks : List Kind} (h : HasRead r ks) :
    ∃ c : Chain, ks <+: c.frontier := by
  cases h with
  | operand h =>
    obtain ⟨c, hc⟩ := h.exists_chain (.last (.number 0))
    exact ⟨c, (List.prefix_append _ _).trans hc⟩
  | @name frames floor x pre ks h hks =>
    obtain ⟨c, hc⟩ := h.exists_chain (.last (.name x))
    exact ⟨c, hks ▸ hc⟩
  | @arguments frames floor f pre ks h hks =>
    obtain ⟨c, hc⟩ := h.exists_chain (.last (.call f []))
    refine ⟨c, List.IsPrefix.trans ?_ hc⟩
    simp [hks, Chain.frontier, Operand.frontier]
  | value h c hks =>
    subst hks
    exact h.exists_chain c

end Expr

namespace Stmt

open Grammar

/-- With `s` at its innermost place, what has been opened can be closed to a program. -/
theorem Opened.begins_append : ∀ {frames : List Frame} {pre : List Kind}, Opened frames pre →
    ∀ s : Statement, (frames = [] → s.frontier.head? ≠ some (.keyword .int)) →
      Begins (pre ++ s.frontier)
  | [], _, h, s, hint => by
    obtain ⟨d, hd⟩ := (h.item (.statement s (hint rfl))).derivation
    exact ⟨d, hd ▸ List.prefix_rfl⟩
  | .inside body stmts :: frames, _, h, s, _ => by
    cases h with
    | block h done hks =>
      have hblock := Opened.begins_append h (.block (done ++ [s])) fun _ => by
        simp [Statement.frontier]
      exact hblock.mono (by simp [hks, Statement.frontier, bodyFrontier_append])
    | @function f _ _ _ _ h ps done hks =>
      obtain ⟨d, hd⟩ := (h.item (.function f ps (done ++ [s]))).derivation
      exact ⟨d, hd ▸ by simp [hks, Item.frontier, bodyFrontier_append]⟩
  | .under _ :: _, _, h, s, _ => by
    obtain ⟨s', pre', h', heq, hint⟩ := h.under s
    rw [heq]
    exact Opened.begins_append h' s' fun _ => hint

/-- A block can stand wherever a statement can. -/
theorem Opened.begins {frames : List Frame} {pre : List Kind} (h : Opened frames pre) :
    Begins pre := by
  have hblock := h.begins_append (.block []) fun _ => by simp [Statement.frontier]
  exact hblock.mono (List.prefix_append _ _)

theorem Opened.begins_for {frames : List Frame} {pre : List Kind} (h : Opened frames pre)
    (init : ForInit) (c u : Chain) : Begins (pre ++ forFrontier init c u) :=
  (@Opened.forOf frames init.tree c.expr u.expr pre _ h init c u rfl).begins

theorem Placed.begins_append {place : Place} {frames : List Frame} {pre : List Kind}
    (h : Placed place frames pre) (x : String) (e : Chain) : Begins (pre ++ declFrontier x e) := by
  cases h with
  | statement h hframes => exact h.begins_append (.decl x e) (absurd · hframes)
  | forInit h hks =>
    exact (h.begins_for (.decl x e) e e).mono (by simp [hks, forFrontier, ForInit.frontier])

theorem Asked.begins_append {purpose : Purpose} {frames : List Frame} {pre : List Kind}
    (h : Asked purpose frames pre) (c : Chain) : Begins (pre ++ c.frontier) := by
  cases h with
  | @declInit place frames x pre ks h hks =>
    exact (h.begins_append x c).mono (by simp [hks, declFrontier])
  | eval h =>
    obtain ⟨k, ks, hc, hk⟩ := c.frontier_eq_cons
    have heval := h.begins_append (.eval c) fun _ => by
      rw [Statement.frontier, hc]
      rintro ⟨⟩
      exact hk
    exact heval.mono (by simp [Statement.frontier])
  | forEval h hks =>
    exact (h.begins_for (.eval c) c c).mono (by simp [hks, forFrontier, ForInit.frontier])
  | ret h hks =>
    have hret := h.begins_append (.ret c) fun _ => by simp [Statement.frontier]
    exact hret.mono (by simp [hks, Statement.frontier])
  | ifCond h hks =>
    have hif := (@Opened.thenOf frames c.expr _ _ h c rfl).begins
    exact hif.mono (by simp [hks, headFrontier])
  | whileCond h hks =>
    have hwhile := (@Opened.whileOf frames c.expr _ _ h c rfl).begins
    exact hwhile.mono (by simp [hks, headFrontier])
  | forCond h init hks =>
    exact (h.begins_for init c c).mono (by simp [hks, forFrontier])
  | forUpdate h init cond hks =>
    exact (h.begins_for init cond c).mono (by simp [hks, forFrontier])

theorem Opened.begins_function {pre : List Kind} (h : Opened [] pre) (f : String)
    (ps : List Param) : Begins (pre ++ functionFrontier f ps) := by
  obtain ⟨d, hd⟩ := (h.item (.function f ps [])).derivation
  exact ⟨d, hd ▸ by simp [Item.frontier]⟩

/-- What a reader has read is the beginning of a program. -/
theorem HasRead.begins {r : Reader} {ks : List Kind} (h : HasRead r ks) : Begins ks := by
  cases h with
  | ready h => exact h.begins
  | afterThen h c s hks =>
    have hif := h.begins_append (.ifThen c s) fun _ => by simp [Statement.frontier, headFrontier]
    exact hif.mono (by simp [hks, Statement.frontier])
  | @header items frames word pre ks h hks =>
    have c : Chain := .last (.number 0)
    cases word with
    | if_ =>
      have hif := (@Opened.thenOf frames c.expr _ _ h c rfl).begins
      exact hif.mono (by simp [hks, headFrontier, Header.word])
    | while_ =>
      have hwhile := (@Opened.whileOf frames c.expr _ _ h c rfl).begins
      exact hwhile.mono (by simp [hks, headFrontier, Header.word])
    | for_ => exact (h.begins_for .none c c).mono (by simp [hks, forFrontier, Header.word])
  | forInit h hks =>
    have c : Chain := .last (.number 0)
    exact (h.begins_for .none c c).mono (by simp [hks, forFrontier])
  | declName h hks =>
    exact (h.begins_append "x" (.last (.number 0))).mono (by simp [hks, declFrontier])
  | @declAssign items place x frames pre ks h hks =>
    exact (h.begins_append x (.last (.number 0))).mono (by simp [hks, declFrontier])
  | expr h hr hks =>
    obtain ⟨c, hc⟩ := hr.exists_chain
    exact (h.begins_append c).mono (by simpa [hks] using hc)
  | functionName h hks =>
    exact (h.begins_function "f" []).mono (by simp [hks, functionFrontier])
  | @functionParen items f pre ks h hks =>
    exact (h.begins_function f []).mono (by simp [hks, functionFrontier])
  | @params items f pre ks h hks =>
    exact (h.begins_function f []).mono (by simp [hks, functionFrontier, functionStart])
  | @param items f names pre ks h ps hks =>
    have hf := h.begins_function f (ps ++ [⟨true, "x"⟩])
    exact hf.mono (by simp [hks, functionFrontier, functionStart, paramFrontier_append])
  | @paramName items f names pre ks h ps hks =>
    have hf := h.begins_function f (ps ++ [⟨true, "x"⟩])
    exact hf.mono (by
      simp [hks, functionFrontier, functionStart, paramFrontier_append, Param.frontier])
  | @afterParam items f names pre ks h ps p hks =>
    have hf := h.begins_function f (ps ++ [p])
    exact hf.mono (by simp [hks, functionFrontier, functionStart, paramFrontier_append])
  | @functionBrace items f names pre ks h ps hks =>
    have hf := h.begins_function f ps
    exact hf.mono (by simp [hks, functionFrontier, functionStart])

end Stmt

/-! ## Derived kinds -/

namespace Grammar

mutual

theorem Operand.eof_notMem_frontier : ∀ o : Operand, Kind.eof ∉ o.frontier
  | .number _ | .string _ | .name _ => by simp [Operand.frontier]
  | .call _ args => by simp [Operand.frontier, (eof_notMem_argFrontier args).1]
  | .assign _ v => by simp [Operand.frontier, Chain.eof_notMem_frontier v]
  | .group c => by simp [Operand.frontier, Chain.eof_notMem_frontier c]

theorem Chain.eof_notMem_frontier : ∀ c : Chain, Kind.eof ∉ c.frontier
  | .last o => Operand.eof_notMem_frontier o
  | .more o _ c => by
    simp [Chain.frontier, Operand.eof_notMem_frontier o, Chain.eof_notMem_frontier c]

theorem eof_notMem_argFrontier : ∀ cs : List Chain,
    Kind.eof ∉ argFrontier cs ∧ Kind.eof ∉ moreArgFrontier cs
  | [] => by simp [argFrontier, moreArgFrontier]
  | c :: cs => by
    have hc := Chain.eof_notMem_frontier c
    have hcs := (eof_notMem_argFrontier cs).2
    simp [argFrontier, moreArgFrontier, hc, hcs]

end

theorem eof_notMem_declFrontier (x : String) (e : Chain) : Kind.eof ∉ declFrontier x e := by
  simp [declFrontier, e.eof_notMem_frontier]

theorem eof_notMem_headFrontier (word : Keyword) (c : Chain) :
    Kind.eof ∉ headFrontier word c := by
  simp [headFrontier, c.eof_notMem_frontier]

theorem eof_notMem_forFrontier (init : ForInit) (c u : Chain) :
    Kind.eof ∉ forFrontier init c u := by
  have hinit : Kind.eof ∉ init.frontier := by
    cases init with
    | none => simp [ForInit.frontier]
    | decl x e => exact eof_notMem_declFrontier x e
    | eval e => simp [ForInit.frontier, e.eof_notMem_frontier]
  simp [forFrontier, hinit, c.eof_notMem_frontier, u.eof_notMem_frontier]

mutual

theorem Statement.eof_notMem_frontier : ∀ s : Statement, Kind.eof ∉ s.frontier
  | .block body => by simp [Statement.frontier, eof_notMem_bodyFrontier body]
  | .decl x e => eof_notMem_declFrontier x e
  | .ret e | .eval e => by simp [Statement.frontier, e.eof_notMem_frontier]
  | .ifThen c s | .whileLoop c s => by
    simp [Statement.frontier, eof_notMem_headFrontier, Statement.eof_notMem_frontier s]
  | .ifElse c s e => by
    simp [Statement.frontier, eof_notMem_headFrontier, Statement.eof_notMem_frontier s,
      Statement.eof_notMem_frontier e]
  | .forLoop init c u s => by
    simp [Statement.frontier, eof_notMem_forFrontier, Statement.eof_notMem_frontier s]

theorem eof_notMem_bodyFrontier : ∀ ss : List Statement, Kind.eof ∉ bodyFrontier ss
  | [] => by simp [bodyFrontier]
  | s :: ss => by
    simp [bodyFrontier, Statement.eof_notMem_frontier s, eof_notMem_bodyFrontier ss]

end

theorem eof_notMem_paramFrontier : ∀ ps : List Param,
    Kind.eof ∉ paramFrontier ps ∧ Kind.eof ∉ moreParamFrontier ps
  | [] => by simp [paramFrontier, moreParamFrontier]
  | p :: ps => by
    have hps := (eof_notMem_paramFrontier ps).2
    rcases p with ⟨_ | _, x⟩ <;> simp [paramFrontier, moreParamFrontier, Param.frontier, hps]

theorem Item.eof_notMem_frontier (i : Item) : Kind.eof ∉ i.frontier := by
  cases i with
  | function f params body =>
    simp [Item.frontier, functionFrontier, (eof_notMem_paramFrontier params).1,
      eof_notMem_bodyFrontier body]
  | statement s noInt => exact s.eof_notMem_frontier

end Grammar

theorem Derivation.eof_notMem_frontier (d : Derivation) : Kind.eof ∉ d.frontier := by
  intro h
  obtain ⟨i, -, hi⟩ := List.mem_flatMap.1 h
  exact i.eof_notMem_frontier hi

/-! ## The offending token -/

theorem Stream.ofTokens_append_eof {before : List Token} (h : ∀ t ∈ before, t.kind ≠ .eof)
    (line : Nat) (after : List Token) :
    ofTokens (before ++ ⟨.eof, line⟩ :: after) = ⟨before, line⟩ := by
  have hfind : before.find? (·.kind = .eof) = none := by simpa using h
  simp only [ofTokens, List.find?_append, hfind]
  rw [List.takeWhile_append_of_pos (by simpa using h)]
  simp

/-- The stream is the closed tokens up to their first end token. -/
theorem Stream.exists_closed_eq (ts : List Token) : ∃ after,
    closed ts = (ofTokens ts).tokens ++ (ofTokens ts).eof :: after := by
  rcases hfind : ts.find? (·.kind = .eof) with _ | t
  · -- no token is an end token: one is put behind the last
    have h : ∀ t ∈ ts, t.kind ≠ .eof := by simpa using hfind
    have htake : ts.takeWhile (·.kind ≠ .eof) = ts :=
      List.takeWhile_eq_self_iff.2 (by simpa using h)
    refine ⟨[], ?_⟩
    simp only [ofTokens, eof, htake, hfind]
    rcases hlast : ts.getLast? with _ | t
    · simp [closed, List.getLast?_eq_none_iff.1 hlast]
    · simp [closed, hlast, h t (List.mem_of_getLast? hlast)]
  · obtain ⟨hkind, before, after, rfl, hbefore⟩ := List.find?_eq_some_iff_append.1 hfind
    obtain ⟨kind, line⟩ := t
    obtain rfl : kind = .eof := by simpa using hkind
    rw [ofTokens_append_eof (by simpa using hbefore), closed]
    split
    · rename_i hnone
      simp at hnone
    · split
      · exact ⟨after, rfl⟩
      · exact ⟨_, List.append_assoc ..⟩

namespace ParseError

theorem found_relabel (e : ParseError) (t : Token) : (e.relabel t).found = t := by
  cases e <;> rfl

end ParseError

/-- A reader refuses a token by naming it. -/
theorem Stmt.Reader.found_of_step {r : Stmt.Reader} {t : Token} {e : ParseError}
    (h : r.step t = .error e) : e.found = t := by
  have hrelabel := step_relabel (rfl : t.kind = t.kind) r
  rw [h] at hrelabel
  rw [Except.error.inj hrelabel, ParseError.found_relabel]

namespace Program

open Stmt (HasRead Reader)

/-- Tokens that are read do not matter for how reading goes on behind them. -/
theorem readFrom_append {endLine : Nat} {r' : Reader} {ts : List Token} :
    ∀ {before : List Token} {r : Reader}, r.run (before.map Token.kind) = .ok r' →
      readFrom r endLine (before ++ ts) = readFrom r' endLine ts
  | [], r, h => by
    cases h
    rfl
  | t :: before, r, h => by
    rw [List.map_cons, Reader.run_cons] at h
    rcases hs : r.step ⟨t.kind, 0⟩ with e | r₁ <;> rw [hs] at h
    · cases h
    · rw [List.cons_append, readFrom, (Reader.step_eq_ok_iff t r r₁).2 hs]
      exact readFrom_append h

/-- Where reading fails, the tokens before the offending one have been read. -/
theorem exists_of_readFrom_error {endLine : Nat} {e : ParseError} :
    ∀ {ts : List Token} {r : Reader}, (readFrom r endLine ts).result = .error e →
      ∃ before t after r', ts ++ [⟨.eof, endLine⟩] = before ++ t :: after ∧ before <+: ts ∧
        r.run (before.map Token.kind) = .ok r' ∧ r'.step t = .error e
  | [], r, h => by
    rw [readFrom] at h
    rcases hs : r.step ⟨.eof, endLine⟩ with e' | r' <;> rw [hs] at h
    · cases h
      exact ⟨[], _, [], r, rfl, List.nil_prefix, rfl, hs⟩
    · cases h
  | t :: ts, r, h => by
    rw [readFrom] at h
    rcases hs : r.step t with e' | r₁ <;> rw [hs] at h
    · cases h
      exact ⟨[], t, _, r, rfl, List.nil_prefix, rfl, hs⟩
    · obtain ⟨before, u, after, r', heq, hpre, hrun, hu⟩ := exists_of_readFrom_error h
      refine ⟨t :: before, u, after, r', congrArg (t :: ·) heq, ?_, ?_, hu⟩
      · exact List.cons_prefix_cons.2 ⟨rfl, hpre⟩
      · rw [List.map_cons, Reader.run_cons_ok ((Reader.step_eq_ok_iff t r r₁).1 hs), hrun]

theorem tokens_ofTokens_append_cons {before : List Token} {t : Token}
    (h : ∀ u ∈ before, u.kind ≠ .eof) (ht : t.kind ≠ .eof) (us : List Token) : ∃ vs,
    (Stream.ofTokens (before ++ t :: us)).tokens = before ++ t :: vs := by
  refine ⟨us.takeWhile (·.kind ≠ .eof), ?_⟩
  simp only [Stream.ofTokens]
  rw [List.takeWhile_append_of_pos (by simpa using h),
    List.takeWhile_cons_of_pos (by simpa using ht)]

/-- Tokens that begin a program can be extended to one. -/
theorem exists_parse_append {ts : List Token} (h : Begins (ts.map Token.kind)) :
    ∃ us p, parse (ts ++ us) = .ok p := by
  obtain ⟨d, ls, hd⟩ := h
  refine ⟨ls.map (⟨·, 0⟩), exists_parse_eq_ok_iff.2 ⟨d, ?_⟩⟩
  have hkinds : (ts ++ ls.map (Token.mk · 0)).map Token.kind = d.frontier := by
    simp [← hd, Function.comp_def]
  have heof : ∀ t ∈ ts ++ ls.map (Token.mk · 0), t.kind ≠ .eof := by
    intro t ht hkind
    exact d.eof_notMem_frontier (hkinds ▸ hkind ▸ List.mem_map_of_mem ht)
  simp only [Stream.ofTokens]
  rw [List.takeWhile_eq_self_iff.2 (by simpa using heof), hkinds]

/-- The error of a stream names its first token with which no program begins, if that is not its
end: the tokens before it can be extended to a program, and it is refused whatever follows. -/
theorem parse_error_earliest {ts : List Token} {e : ParseError} (h : parse ts = .error e) :
    ∃ k, (Stream.closed ts)[k]? = some e.found ∧
      (∀ t ∈ (Stream.closed ts).take k, t.kind ≠ .eof) ∧
      (∃ us p, parse ((Stream.closed ts).take k ++ us) = .ok p) ∧
      (e.found.kind ≠ .eof → ∀ us, parse ((Stream.closed ts).take (k + 1) ++ us) = .error e) := by
  obtain ⟨after, hclosed⟩ := Stream.exists_closed_eq ts
  obtain ⟨before, t, rest, r, hsplit, hpre, hrun, hstep⟩ := exists_of_readFrom_error h
  obtain rfl := Reader.found_of_step hstep
  have hts : Stream.closed ts = before ++ e.found :: (rest ++ after) := by
    rw [hclosed, ← List.singleton_append, ← List.append_assoc]
    exact (congrArg (· ++ after) hsplit).trans (List.append_assoc ..)
  have heof : ∀ u ∈ before, u.kind ≠ .eof := by
    intro u hu hkind
    exact eof_notMem_tokens ts (hkind ▸ List.mem_map_of_mem (hpre.subset hu))
  have hbegins : Begins (before.map Token.kind) := by
    have hread := HasRead.start.run (by simpa using heof) hrun
    simpa using hread.begins
  refine ⟨before.length, ?_, ?_, ?_, fun hkind us => ?_⟩
  · simp [hts]
  · simpa [hts] using heof
  · simpa [hts] using exists_parse_append hbegins
  · obtain ⟨vs, hvs⟩ := tokens_ofTokens_append_cons heof hkind us
    have htake : (Stream.closed ts).take (before.length + 1) ++ us = before ++ e.found :: us := by
      simp [hts, List.take_append]
    rw [htake, parse, read, hvs, readFrom_append hrun, readFrom, hstep]
    rfl

/-- `while (a) { f(1 *` on line 1 and `); else` on line 2, without an end token. -/
def brokenCall : List Token :=
  [.keyword .while_, .mark .lparen, .ident "a", .mark .rparen, .mark .lbrace, .ident "f",
    .mark .lparen, .number 1, .op .mul].map (Token.mk · 1) ++
  [.mark .rparen, .mark .semicolon, .keyword .else_].map (Token.mk · 2)

/-- The bracket is refused, though the `else` could not stand there either. -/
theorem parse_error_earliest_brokenCall :
    parse brokenCall = .error (.noOperand ⟨.mark .rparen, 2⟩) ∧
      ∃ k, (Stream.closed brokenCall)[k]? = some ⟨.mark .rparen, 2⟩ ∧
        (∃ us p, parse ((Stream.closed brokenCall).take k ++ us) = .ok p) ∧
        ∀ us, parse ((Stream.closed brokenCall).take (k + 1) ++ us) =
          .error (.noOperand ⟨.mark .rparen, 2⟩) := by
  have h : parse brokenCall = .error (.noOperand ⟨.mark .rparen, 2⟩) := rfl
  obtain ⟨k, hk, -, hbefore, hafter⟩ := parse_error_earliest h
  exact ⟨h, k, hk, hbefore, hafter (by decide)⟩

end Program

end MiniC
