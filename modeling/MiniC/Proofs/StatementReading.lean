import MiniC.Proofs.ChainReading
import MiniC.Proofs.TokenLines

/-!
# Reading a derived program

Reading the frontier of a resolved statement leaves a reader that goes on as if the statement's
tree had just been given to the construct around it (`Statement.run`). If the statement ends in an
`if` without `else`, the reader still waits for one, and the next token must not be an `else`. In a
resolved derivation it never is: the statement in front of an `else` is not open.

A whole program is then read item by item, and accepted at the end (`Derivation.parse`).
-/

namespace MiniC

namespace Stmt.Reader

open Grammar

/-- Two readers that take the next token alike take all of them alike. -/
theorem run_eq_of_step_eq {r r' : Reader} {k : Kind} (h : r.step ⟨k, 0⟩ = r'.step ⟨k, 0⟩)
    (ks : List Kind) : r.run (k :: ks) = r'.run (k :: ks) := by
  rw [run_cons, run_cons, h]

/-- Where a statement may start, an operand starts an expression. -/
theorem step_ready_of_startsOperand {k : Kind} (h : StartsOperand k) (items : List Stmt)
    (frames : List Frame) :
    (Reader.mk items .ready frames).step ⟨k, 0⟩ =
      (Reader.mk items (.expr (.eval .statement) .start) frames).step ⟨k, 0⟩ := by
  cases k with
  | number n | string raw | ident x =>
    rcases frames with _ | ⟨_ | _, _⟩ <;> rfl
  | mark m =>
    cases m with
    | lparen => rcases frames with _ | ⟨_ | _, _⟩ <;> rfl
    | _ => exact h.elim
  | _ => exact h.elim

/-- The kinds, other than those of operands, that start a statement wherever one may start. -/
def StartsStatement : Kind → Prop
  | .mark .lbrace | .keyword .return_ | .keyword .if_ | .keyword .while_ | .keyword .for_ => True
  | _ => False

theorem run_ready (k : Kind) (hk : StartsStatement k) {items : List Stmt} {frames : List Frame}
    {r : Reader} (h : statement items frames ⟨k, 0⟩ = .ok r) (ks : List Kind) :
    run ⟨items, .ready, frames⟩ (k :: ks) = r.run ks := by
  have hstep : ready items frames ⟨k, 0⟩ = statement items frames ⟨k, 0⟩ := by
    unfold ready
    split <;> first | rfl | (rename_i hkind; cases hkind; exact hk.elim)
  exact run_cons_ok (r := ⟨items, .ready, frames⟩) (hstep.trans h) ks

theorem run_ready_int {frames : List Frame} (h : frames ≠ []) (items : List Stmt)
    (ks : List Kind) :
    run ⟨items, .ready, frames⟩ (.keyword .int :: ks) =
      run ⟨items, .declName .statement, frames⟩ ks := by
  rcases frames with _ | ⟨_ | _, _⟩
  · exact absurd rfl h
  · rfl
  · rfl

/-- Behind a finished statement, a token other than `else` is read in the innermost construct that
is still open. -/
theorem step_deliver {t : Token} (h : t.kind ≠ .keyword .else_) (items : List Stmt) :
    ∀ (frames : List Frame) (s : Stmt), (deliver items s frames).step t =
      ready (settle items s frames).1 (settle items s frames).2 t
  | [], _ => rfl
  | .inside _ _ :: _, _ => rfl
  | .under (.thenOf c) :: frames, s => by
    simp only [deliver, step, h, if_false]
    rfl
  | .under (.elseOf c s') :: frames, s => step_deliver h items frames _
  | .under (.whileOf c) :: frames, s => step_deliver h items frames _
  | .under (.forOf init c u) :: frames, s => step_deliver h items frames _

/-- Without an `else`, an `if` is delivered as the statement it is. -/
theorem step_afterThen {t : Token} (h : t.kind ≠ .keyword .else_) (items : List Stmt) (c : Expr)
    (s : Stmt) (frames : List Frame) :
    (Reader.mk items (.afterThen c s) frames).step t =
      (deliver items (.ifElse c s none) frames).step t := by
  rw [step_deliver h]
  simp only [step, h, if_false]

theorem run_inExpr (items : List Stmt) (purpose : Purpose) (frames : List Frame) :
    ∀ {ks : List Kind} {r r' : Expr.Reader}, r.run .standard ks = some r' →
      run ⟨items, .expr purpose r, frames⟩ ks = .ok ⟨items, .expr purpose r', frames⟩
  | [], r, r', h => by
    cases h
    rfl
  | k :: ks, r, r', h => by
    rw [Expr.Reader.run_cons] at h
    rcases hs : r.step .standard ⟨k, 0⟩ with r₁ | e | error <;> rw [hs] at h
    · have hstep : (Reader.mk items (.expr purpose r) frames).step ⟨k, 0⟩ =
          .ok ⟨items, .expr purpose r₁, frames⟩ := by
        simp only [step, inExpr, hs]
      rw [run_cons_ok hstep]
      exact run_inExpr items purpose frames h
    · simp [Expr.Step.more?] at h
    · simp [Expr.Step.more?] at h

/-- An expression and the sign behind it complete what they were read for. -/
theorem run_expr {c : Chain} (h : c.Resolved) (items : List Stmt) (purpose : Purpose)
    (frames : List Frame) (ks : List Kind) :
    run ⟨items, .expr purpose .start, frames⟩ (c.frontier ++ .mark purpose.closer :: ks) =
      run (complete items frames c.expr purpose) ks := by
  obtain ⟨r, hr, ht⟩ := Chain.run (g := .standard) BinOp.one_le_precedence c h []
  have hends : Expr.Reader.Ends (.mark purpose.closer) := by
    cases purpose <;> exact ⟨⟨by simp [Purpose.closer], by simp [Purpose.closer]⟩, by simp⟩
  have hrun := run_inExpr items purpose frames (r := .start) hr
  rw [run_append hrun, run_cons_ok]
  simp only [step, inExpr, ht ⟨_, 0⟩ hends, Expr.Reader.close, if_true]
  rfl

theorem run_ready_chain (c : Chain) (items : List Stmt) (frames : List Frame) (ks : List Kind) :
    run ⟨items, .ready, frames⟩ (c.frontier ++ ks) =
      run ⟨items, .expr (.eval .statement) .start, frames⟩ (c.frontier ++ ks) := by
  obtain ⟨k, ls, hc, hk⟩ := c.frontier_eq_cons
  rw [hc]
  exact run_eq_of_step_eq (step_ready_of_startsOperand hk items frames) _

/-- The same for the first part of a `for`. -/
theorem run_forInit_chain (c : Chain) (items : List Stmt) (frames : List Frame) (ks : List Kind) :
    run ⟨items, .forInit, frames⟩ (c.frontier ++ ks) =
      run ⟨items, .expr (.eval .forInit) .start, frames⟩ (c.frontier ++ ks) := by
  obtain ⟨k, ls, hc, hk⟩ := c.frontier_eq_cons
  rw [hc]
  refine run_eq_of_step_eq ?_ _
  cases k with
  | mark m => cases m <;> first | rfl | exact hk.elim
  | _ => first | rfl | exact hk.elim

/-- A bracketed condition. -/
theorem run_header {c : Chain} (h : c.Resolved) {word : Header} (purpose : Purpose)
    (hfocus : headerFocus word = .expr purpose .start) (hcloser : purpose.closer = .rparen)
    (items : List Stmt) (frames : List Frame) (ks : List Kind) :
    run ⟨items, .header word, frames⟩ (.mark .lparen :: (c.frontier ++ [.mark .rparen]) ++ ks) =
      run (complete items frames c.expr purpose) ks := by
  have hstep : (Reader.mk items (.header word) frames).step ⟨.mark .lparen, 0⟩ =
      .ok ⟨items, .expr purpose .start, frames⟩ := by
    simp only [step, expect, if_true, hfocus]
  rw [List.cons_append, run_cons_ok hstep, List.append_assoc, List.singleton_append, ← hcloser,
    run_expr h]

/-- The first part of a `for` and its semicolon. -/
theorem run_forInit {init : ForInit} (h : init.Resolved) (items : List Stmt) (frames : List Frame)
    (ks : List Kind) :
    run ⟨items, .forInit, frames⟩ (init.frontier ++ ks) =
      run ⟨items, .expr (.forCond init.tree) .start, frames⟩ ks := by
  cases init with
  | none => rfl
  | decl x e =>
    rw [ForInit.frontier, declFrontier, List.cons_append, run_cons_ok rfl, List.cons_append,
      run_cons_ok rfl, List.cons_append, run_cons_ok rfl, List.append_assoc]
    exact run_expr h items (.declInit .forInit x) frames ks
  | eval e =>
    rw [ForInit.frontier, List.append_assoc, run_forInit_chain]
    exact run_expr h items (.eval .forInit) frames ks

end Stmt.Reader

namespace Grammar

open Stmt Stmt.Reader

/-- Every statement starts with a token, which is no `else`. -/
theorem Statement.frontier_eq_cons (s : Statement) :
    ∃ k ks, s.frontier = k :: ks ∧ k ≠ .keyword .else_ := by
  cases s with
  | eval e =>
    obtain ⟨k, ks, he, hk⟩ := e.frontier_eq_cons
    refine ⟨k, _, by rw [Statement.frontier, he, List.cons_append], ?_⟩
    rintro rfl
    exact hk
  | _ => exact ⟨_, _, rfl, by simp⟩

theorem run_bodyFrontier_eq_of_step_eq {r r' : Reader} (ss : List Statement)
    (h : ∀ t : Token, t.kind ≠ .keyword .else_ → r.step t = r'.step t) (ks : List Kind) :
    r.run (bodyFrontier ss ++ .mark .rbrace :: ks) =
      r'.run (bodyFrontier ss ++ .mark .rbrace :: ks) := by
  cases ss with
  | nil => exact run_eq_of_step_eq (h _ (by simp)) ks
  | cons s ss =>
    obtain ⟨k, ls, hs, hk⟩ := s.frontier_eq_cons
    rw [bodyFrontier, hs]
    exact run_eq_of_step_eq (h _ hk) _

mutual

/-- What the reader does behind a statement. -/
theorem Statement.run : ∀ s : Statement, s.Resolved → ∀ (items : List Stmt) (frames : List Frame),
    (frames = [] → s.frontier.head? ≠ some (.keyword .int)) →
      ∃ r, Reader.run ⟨items, .ready, frames⟩ s.frontier = .ok r ∧
        ∀ t : Token, (s.isOpen = true → t.kind ≠ .keyword .else_) →
          r.step t = (deliver items s.tree frames).step t
  | .eval e, h, items, frames, _ => by
    refine ⟨_, ?_, fun _ _ => rfl⟩
    rw [Statement.frontier, run_ready_chain]
    exact run_expr h items (.eval .statement) frames []
  | .ret e, h, items, frames, _ => by
    refine ⟨_, ?_, fun _ _ => rfl⟩
    rw [Statement.frontier, run_ready (.keyword .return_) trivial rfl]
    exact run_expr h items .ret frames []
  | .decl x e, h, items, frames, hint => by
    have hframes : frames ≠ [] := fun hf => hint hf rfl
    refine ⟨_, ?_, fun _ _ => rfl⟩
    rw [Statement.frontier, declFrontier, run_ready_int hframes, run_cons_ok rfl, run_cons_ok rfl]
    exact run_expr h items (.declInit .statement x) frames []
  | .block body, h, items, frames, _ => by
    refine ⟨_, ?_, fun _ _ => rfl⟩
    rw [Statement.frontier, run_ready (.mark .lbrace) trivial rfl]
    exact run_body body h items .block [] frames []
  | .whileLoop c s, h, items, frames, _ => by
    obtain ⟨r, hr, ht⟩ := Statement.run s h.2 items (.under (.whileOf c.expr) :: frames) (by simp)
    refine ⟨r, ?_, ht⟩
    rw [Statement.frontier, headFrontier, List.cons_append,
      run_ready (.keyword .while_) trivial rfl]
    exact (run_header h.1 .whileCond rfl rfl items frames _).trans hr
  | .forLoop init c u s, h, items, frames, _ => by
    obtain ⟨hinit, hc, hu, hs⟩ := h
    obtain ⟨r, hr, ht⟩ := Statement.run s hs items
      (.under (.forOf init.tree c.expr u.expr) :: frames) (by simp)
    refine ⟨r, ?_, ht⟩
    rw [Statement.frontier, forFrontier, List.cons_append, run_ready (.keyword .for_) trivial rfl,
      List.cons_append, run_cons_ok rfl]
    simp only [List.append_assoc, List.cons_append, List.nil_append]
    refine (run_forInit hinit items frames _).trans ?_
    refine (run_expr hc items (.forCond init.tree) frames _).trans ?_
    exact (run_expr hu items (.forUpdate init.tree c.expr) frames _).trans hr
  | .ifThen c s, h, items, frames, _ => by
    obtain ⟨r, hr, ht⟩ := Statement.run s h.2 items (.under (.thenOf c.expr) :: frames) (by simp)
    refine ⟨r, ?_, fun t helse => ?_⟩
    · rw [Statement.frontier, headFrontier, List.cons_append,
        run_ready (.keyword .if_) trivial rfl]
      exact (run_header h.1 .ifCond rfl rfl items frames _).trans hr
    · rw [ht t fun _ => helse rfl]
      exact step_afterThen (helse rfl) items c.expr s.tree frames
  | .ifElse c s e, h, items, frames, _ => by
    obtain ⟨hc, hs, hclosed, he⟩ := h
    obtain ⟨r, hr, ht⟩ := Statement.run s hs items (.under (.thenOf c.expr) :: frames) (by simp)
    obtain ⟨r', hr', ht'⟩ := Statement.run e he items
      (.under (.elseOf c.expr s.tree) :: frames) (by simp)
    have helse := ht ⟨.keyword .else_, 0⟩ (by simp [hclosed])
    refine ⟨r', ?_, ht'⟩
    rw [Statement.frontier, headFrontier, List.cons_append, run_ready (.keyword .if_) trivial rfl]
    refine (run_header hc .ifCond rfl rfl items frames _).trans ?_
    exact (run_append hr _).trans ((run_cons_ok helse _).trans hr')

/-- The statements behind an open brace, and the closing one. -/
theorem run_body : ∀ ss : List Statement, BodyResolved ss → ∀ (items : List Stmt) (body : Body)
    (done : List Stmt) (frames : List Frame) (ks : List Kind),
      Reader.run ⟨items, .ready, .inside body done :: frames⟩
          (bodyFrontier ss ++ .mark .rbrace :: ks) =
        (deliver items (body.close (done ++ bodyTrees ss)) frames).run ks
  | [], _, items, body, done, frames, ks => by
    rw [bodyFrontier, List.nil_append, run_cons_ok rfl, bodyTrees, List.append_nil]
  | s :: ss, h, items, body, done, frames, ks => by
    obtain ⟨r, hr, ht⟩ := Statement.run s h.1 items (.inside body done :: frames) (by simp)
    rw [bodyFrontier, List.append_assoc, run_append hr,
      run_bodyFrontier_eq_of_step_eq ss (fun t hk => ht t fun _ => hk), deliver, run_body ss h.2,
      bodyTrees, List.append_assoc]
    rfl

end

theorem run_param (p : Param) (f : String) (done : List String) (items : List Stmt)
    (frames : List Frame) (ks : List Kind) :
    Reader.run ⟨items, .param f done, frames⟩ (p.frontier ++ ks) =
      Reader.run ⟨items, .afterParam f (done ++ [p.name]), frames⟩ ks := by
  rcases p with ⟨_ | _, x⟩ <;> rfl

theorem run_moreParams (f : String) (items : List Stmt) (frames : List Frame) (ks : List Kind) :
    ∀ (ps : List Param) (done : List String),
      Reader.run ⟨items, .afterParam f done, frames⟩ (moreParamFrontier ps ++ .mark .rparen :: ks) =
        Reader.run ⟨items, .functionBrace f (done ++ ps.map Param.name), frames⟩ ks
  | [], done => by
    rw [moreParamFrontier, List.nil_append, run_cons_ok rfl, List.map_nil, List.append_nil]
  | p :: ps, done => by
    rw [moreParamFrontier, List.cons_append, run_cons_ok rfl, List.append_assoc]
    refine (run_param p f done items frames _).trans ?_
    rw [run_moreParams f items frames ks ps, List.append_assoc]
    rfl

theorem run_params (f : String) (items : List Stmt) (frames : List Frame) (ks : List Kind) :
    ∀ ps : List Param,
      Reader.run ⟨items, .params f, frames⟩ (paramFrontier ps ++ .mark .rparen :: ks) =
        Reader.run ⟨items, .functionBrace f (ps.map Param.name), frames⟩ ks
  | [] => rfl
  | p :: ps => by
    have hfirst : ∀ ls, Reader.run ⟨items, .params f, frames⟩ (p.frontier ++ ls) =
        Reader.run ⟨items, .param f [], frames⟩ (p.frontier ++ ls) := by
      intro ls
      rcases p with ⟨_ | _, x⟩ <;> rfl
    rw [paramFrontier, List.append_assoc, hfirst, run_param, run_moreParams]
    rfl

/-- Behind an item the reader is between two items again, unless an `else` follows. -/
theorem Item.run (i : Item) (h : i.Resolved) (items : List Stmt) :
    ∃ r, Reader.run ⟨items, .ready, []⟩ i.frontier = .ok r ∧
      ∀ t : Token, t.kind ≠ .keyword .else_ →
        r.step t = (Reader.mk (items ++ [i.tree]) .ready []).step t := by
  cases i with
  | function f params body =>
    refine ⟨_, ?_, fun _ _ => rfl⟩
    rw [Item.frontier, functionFrontier]
    simp only [List.append_assoc, List.cons_append, List.nil_append]
    rw [run_cons_ok rfl, run_cons_ok rfl, run_cons_ok rfl]
    refine (run_params f items [] _ params).trans ?_
    rw [run_cons_ok rfl]
    exact run_body body h items (.function f (params.map Param.name)) [] [] []
  | statement s hint =>
    obtain ⟨r, hr, ht⟩ := s.run h items [] fun _ => hint
    exact ⟨r, hr, fun t hk => ht t fun _ => hk⟩

theorem Item.frontier_eq_cons (i : Item) : ∃ k ks, i.frontier = k :: ks ∧ k ≠ .keyword .else_ := by
  cases i with
  | function f params body => exact ⟨_, _, rfl, by simp⟩
  | statement s _ => exact s.frontier_eq_cons

theorem run_items : ∀ (is : List Item), (∀ i ∈ is, i.Resolved) → ∀ items : List Stmt,
    ∃ r, Reader.run ⟨items, .ready, []⟩ (is.flatMap Item.frontier) = .ok r ∧
      ∀ t : Token, t.kind ≠ .keyword .else_ →
        r.step t = (Reader.mk (items ++ is.map Item.tree) .ready []).step t
  | [], _, items => ⟨_, rfl, fun t _ => by rw [List.map_nil, List.append_nil]⟩
  | i :: is, h, items => by
    obtain ⟨r₁, hr₁, ht₁⟩ := i.run (h i (by simp)) items
    obtain ⟨r₂, hr₂, ht₂⟩ := run_items is (fun j hj => h j (by simp [hj])) (items ++ [i.tree])
    rw [List.append_assoc] at ht₂
    rw [List.flatMap_cons, run_append hr₁]
    cases is with
    | nil => exact ⟨r₁, rfl, ht₁⟩
    | cons j is =>
      -- the items behind `i` are read from where `i` leaves the reader, which their first token
      -- does not tell from a reader between two items
      obtain ⟨k, ks, hj, hk⟩ := j.frontier_eq_cons
      refine ⟨r₂, ?_, ht₂⟩
      rw [← hr₂, List.flatMap_cons, hj]
      exact run_eq_of_step_eq (ht₁ _ hk) _

end Grammar

/-- A stream with a resolved derivation is read as the program derived. -/
theorem Derivation.parse {d : Derivation} (h : d.Resolved) {ts : List Token}
    (hts : (Stream.ofTokens ts).tokens.map Token.kind = d.frontier) :
    Program.parse ts = .ok d.program := by
  obtain ⟨r, hr, ht⟩ := Grammar.run_items d.items h []
  rw [Program.parse_eq_ok_iff, hts]
  exact ⟨r, _, hr, (ht ⟨.eof, 0⟩ (by simp)).trans rfl, rfl⟩

end MiniC
