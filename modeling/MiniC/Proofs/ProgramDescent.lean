import MiniC.Proofs.ExpressionDescent

/-!
# Programs by descent

A statement is followed from where it may start to where the reader has given it to the construct
around it (`Parses.statement`). For the statements between braces the construct is the open brace,
and they are followed up to the closing one (`Parses.statements`). The two call each other, and the
tokens that are left become fewer. An `if` needs care: the reader waits behind its then-branch for
an `else` and settles the `if` only with the next token, as if it had been given away before
(`Reader.step_afterThen`).

So a parser in front of a stream gives what the reader gives for it (`exists_parse_eq`). That it
gives anything at all means that its loops end and that it finds a token wherever it looks; what
makes the loops end is that each round reads something (`rounds_advance`).
-/

namespace MiniC

namespace Stmt.Reader

theorem ready_under (items : List Stmt) (clause : Clause) (frames : List Frame) (t : Token) :
    ready items (.under clause :: frames) t = statement items (.under clause :: frames) t := by
  unfold ready
  split <;> first | rfl | (rename_i hframes _; cases hframes)

theorem ready_inside {t : Token} (hbrace : t.kind ≠ .mark .rbrace) (hend : t.kind ≠ .eof)
    (items : List Stmt) (body : Body) (done : List Stmt) (frames : List Frame) :
    ready items (.inside body done :: frames) t =
      statement items (.inside body done :: frames) t := by
  unfold ready
  split <;> first | rfl | contradiction

theorem ready_rbrace {t : Token} (h : t.kind = .mark .rbrace) (items : List Stmt) (body : Body)
    (done : List Stmt) (frames : List Frame) :
    ready items (.inside body done :: frames) t = .ok (deliver items (body.close done) frames) := by
  unfold ready
  rw [h]

theorem ready_inside_eof {t : Token} (h : t.kind = .eof) (items : List Stmt) (body : Body)
    (done : List Stmt) (frames : List Frame) :
    ready items (.inside body done :: frames) t = .error (.expected (.mark .rbrace) t) := by
  unfold ready
  rw [h]

theorem ready_nil {t : Token} (hint : t.kind ≠ .keyword .int) (hend : t.kind ≠ .eof)
    (items : List Stmt) : ready items [] t = statement items [] t := by
  unfold ready
  split <;> first | rfl | contradiction

/-- What follows a declaration or an expression with its semicolon. -/
def behind (items : List Stmt) (frames : List Frame) : Place → Stmt → Reader
  | .statement, s => deliver items s frames
  | .forInit, s => ⟨items, .expr (.forCond (some s)) .start, frames⟩

end Stmt.Reader

namespace Tokens

open Stmt (Reader)

variable {ts : Tokens} {s : Stream}

section Simple

variable (ts) (items : List Stmt) (frames : List Stmt.Frame)

theorem declaration_follows (place : Stmt.Place) (h : s.head.kind = .keyword .int) :
    ts.Follows ts.declaration s 1
      (finish (Reader.mk items (.declName place) frames).step (s.skip 1))
      fun st => finish (Reader.behind items frames place st).step := by
  rw [declaration]
  refine .expect_bind nofun (fun _ _ => ?_) fun htag => absurd (Kind.tag_eq_keyword.2 h) htag
  refine .name_bind fun x s' _ => .mark_bind fun s' _ => ?_
  refine .expression_bind ⟨items, frames, .declInit place x⟩ fun e s' _ => ?_
  refine .value ?_
  cases place <;> rfl

theorem evaluation_follows (place : Stmt.Place) :
    ts.Follows ts.evaluation s 1 (finish (Reader.inExpr items frames (.eval place) .start) s)
      fun st => finish (Reader.behind items frames place st).step := by
  rw [evaluation]
  refine .expression_bind ⟨items, frames, .eval place⟩ fun e s' _ => ?_
  refine .value ?_
  cases place <;> rfl

theorem returning_follows (h : s.head.kind = .keyword .return_) :
    ts.Follows ts.returning s 1
      (finish (Reader.mk items (.expr .ret .start) frames).step (s.skip 1))
      fun st => finish (Reader.deliver items st frames).step := by
  rw [returning]
  refine .expect_bind nofun (fun _ _ => ?_) fun htag => absurd (Kind.tag_eq_keyword.2 h) htag
  exact .expression_bind ⟨items, frames, .ret⟩ fun e s' _ => .value rfl

theorem forStart_follows :
    ts.Follows ts.forStart s 0 (finish (Reader.mk items .forInit frames).step s)
      fun init => finish (Reader.mk items (.expr (.forCond init) .start) frames).step := by
  rw [forStart]
  refine .accept_ite nofun (fun htag hs => ?_) fun hsemicolon => ?_
  · refine .value (finish_ok ?_ hs)
    rw [Reader.step, Kind.tag_eq_mark.1 htag]
  · refine .check_ite (fun htag => ?_) fun hint => ?_
    · have hkind := Kind.tag_eq_keyword.1 htag
      have hdecl := ts.declaration_follows items frames .forInit hkind
      refine Follows.of_eq (hdecl.bind fun st s' _ => ?_) (finish_ok ?_ ?_)
      · exact .value rfl
      · rw [Reader.step, hkind]
      · rw [hkind]
        decide
    · have heval := ts.evaluation_follows (s := s) items frames .forInit
      refine Follows.of_eq (heval.bind fun st s' _ => ?_) (finish_congr ?_)
      · exact .value rfl
      · unfold Reader.step
        dsimp only
        split
        · exact absurd (Kind.tag_eq_mark.2 ‹_›) hsemicolon
        · exact absurd (Kind.tag_eq_keyword.2 ‹_›) hint
        · rfl

end Simple

/-- What is known of a parser in front of a statement, or inside braces. -/
structure Parses (ts : Tokens) (s : Stream) : Prop where
  statement (items : List Stmt) (frames : List Stmt.Frame) :
    ts.Follows ts.statement s 1 (finish (Reader.statement items frames) s)
      fun st => finish (Reader.deliver items st frames).step
  statements (items : List Stmt) (frames : List Stmt.Frame) (body : Stmt.Body) (done : List Stmt) :
    ts.Follows (ts.statements done) s 0
      (finish (Reader.ready items (.inside body done :: frames)) s)
      fun ss => finish (Reader.expect .rbrace · (Reader.deliver items (body.close ss) frames))

/-- The statement that a header or an `else` takes. -/
theorem Parses.under (h : ts.Parses s) (items : List Stmt) (clause : Stmt.Clause)
    (frames : List Stmt.Frame) :
    ts.Follows ts.statement s 1 (finish (Reader.mk items .ready (.under clause :: frames)).step s)
      fun st => finish (Reader.deliver items st (.under clause :: frames)).step :=
  (h.statement items (.under clause :: frames)).of_eq
    (finish_congr (Reader.ready_under items clause frames s.head))

section Step

variable (ih : ∀ s', s'.tokens.length < s.tokens.length → ts.Parses s') (items : List Stmt)
  (frames : List Stmt.Frame)
include ih

theorem block_of (h : s.head.kind = .mark .lbrace) :
    ts.Follows ts.block s 1
      (finish (Reader.mk items .ready (.inside .block [] :: frames)).step (s.skip 1))
      fun st => finish (Reader.deliver items st frames).step := by
  rw [block]
  refine .expect_bind nofun (fun _ hs => ?_) fun htag => absurd (Kind.tag_eq_mark.2 h) htag
  have hbody := (ih _ (Stream.length_skip_one hs)).statements items frames .block []
  refine hbody.bind fun ss s' _ => ?_
  exact .mark_bind fun s'' _ => .value rfl

theorem ifElse_of (h : s.head.kind = .keyword .if_) :
    ts.Follows ts.ifElse s 1 (finish (Reader.mk items (.header .if_) frames).step (s.skip 1))
      fun st => finish (Reader.deliver items st frames).step := by
  rw [ifElse]
  refine .expect_bind nofun (fun _ hs => ?_) fun htag => absurd (Kind.tag_eq_keyword.2 h) htag
  have hshort := Stream.length_skip_one hs
  refine .mark_bind fun s₁ _ => ?_
  refine .expression_bind ⟨items, frames, .ifCond⟩ fun c s₂ _ => ?_
  refine ((ih s₂ (by omega)).under items (.thenOf c) frames).bind fun t s₃ _ => ?_
  refine .accept_ite nofun (fun htag hs => ?_) fun htag => ?_
  · have hshort := Stream.length_skip_one hs
    have helse := (ih (s₃.skip 1) (by omega)).under items (.elseOf c t) frames
    refine Follows.of_eq (helse.bind fun e s₄ _ => ?_)
      (finish_ok (if_pos (Kind.tag_eq_keyword.1 htag)) hs)
    exact .value rfl
  · -- the reader still waits for an `else`, but takes the next token as if the `if` were over
    refine .value (finish_congr ?_)
    exact Reader.step_afterThen (mt Kind.tag_eq_keyword.2 htag) items c t frames

theorem whileLoop_of (h : s.head.kind = .keyword .while_) :
    ts.Follows ts.whileLoop s 1 (finish (Reader.mk items (.header .while_) frames).step (s.skip 1))
      fun st => finish (Reader.deliver items st frames).step := by
  rw [whileLoop]
  refine .expect_bind nofun (fun _ hs => ?_) fun htag => absurd (Kind.tag_eq_keyword.2 h) htag
  have hshort := Stream.length_skip_one hs
  refine .mark_bind fun s₁ _ => ?_
  refine .expression_bind ⟨items, frames, .whileCond⟩ fun c s₂ _ => ?_
  refine ((ih s₂ (by omega)).under items (.whileOf c) frames).bind fun b s₃ _ => ?_
  exact .value rfl

theorem forLoop_of (h : s.head.kind = .keyword .for_) :
    ts.Follows ts.forLoop s 1 (finish (Reader.mk items (.header .for_) frames).step (s.skip 1))
      fun st => finish (Reader.deliver items st frames).step := by
  rw [forLoop]
  refine .expect_bind nofun (fun _ hs => ?_) fun htag => absurd (Kind.tag_eq_keyword.2 h) htag
  have hshort := Stream.length_skip_one hs
  refine .mark_bind fun s₁ _ => ?_
  refine (ts.forStart_follows items frames).bind fun init s₂ _ => ?_
  refine .expression_bind ⟨items, frames, .forCond init⟩ fun c s₃ _ => ?_
  refine .expression_bind ⟨items, frames, .forUpdate init c⟩ fun u s₄ _ => ?_
  refine ((ih s₄ (by omega)).under items (.forOf init c u) frames).bind fun b s₅ _ => ?_
  exact .value rfl

theorem statement_of :
    ts.Follows ts.statement s 1 (finish (Reader.statement items frames) s)
      fun st => finish (Reader.deliver items st frames).step := by
  rw [statement]
  refine .peek_bind ?_
  have hnext {kind : Kind} {r : Reader} (hkind : s.head.kind = kind) (hne : kind ≠ .eof)
      (h : Reader.statement items frames ⟨kind, s.head.line⟩ = .ok r) :
      finish (Reader.statement items frames) s = finish r.step (s.skip 1) := by
    subst hkind
    exact finish_ok h hne
  split
  · rename_i hkind
    exact (block_of ih items frames hkind).of_eq (hnext hkind (by decide) rfl)
  · rename_i hkind
    exact (ts.declaration_follows items frames .statement hkind).of_eq (hnext hkind (by decide) rfl)
  · rename_i hkind
    exact (ts.returning_follows items frames hkind).of_eq (hnext hkind (by decide) rfl)
  · rename_i hkind
    exact (ifElse_of ih items frames hkind).of_eq (hnext hkind (by decide) rfl)
  · rename_i hkind
    exact (whileLoop_of ih items frames hkind).of_eq (hnext hkind (by decide) rfl)
  · rename_i hkind
    exact (forLoop_of ih items frames hkind).of_eq (hnext hkind (by decide) rfl)
  · refine (ts.evaluation_follows items frames .statement).of_eq (finish_congr ?_)
    unfold Reader.statement
    split <;> first | rfl | contradiction

theorem statements_of (body : Stmt.Body) (done : List Stmt) :
    ts.Follows (ts.statements done) s 0
      (finish (Reader.ready items (.inside body done :: frames)) s)
      fun ss => finish (Reader.expect .rbrace · (Reader.deliver items (body.close ss) frames)) := by
  rw [statements]
  refine .check_ite (fun htag => ?_) fun htag => .isAtEnd_ite (fun hend => ?_) fun hend => ?_
  · have hkind := Kind.tag_eq_mark.1 htag
    refine .value (finish_congr ?_)
    rw [Reader.ready_rbrace hkind, Reader.expect, if_pos hkind]
  · -- the missing brace is left to what follows
    have heof : s.head.kind = .eof := by
      rw [Stream.head, hend]
      rfl
    refine .value (finish_congr ?_)
    rw [Reader.ready_inside_eof heof, Reader.expect, if_neg (mt Kind.tag_eq_mark.2 htag)]
  · have hbrace := mt Kind.tag_eq_mark.2 htag
    exact Follows.of_eq ((statement_of ih items (.inside body done :: frames)).bind
      fun st s' hs' => (ih s' hs').statements items frames body (done ++ [st]))
      (finish_congr (Reader.ready_inside hbrace hend items body done frames))

end Step

theorem parses (ts : Tokens) (s : Stream) : ts.Parses s :=
  have ih : ∀ s', s'.tokens.length < s.tokens.length → ts.Parses s' := fun s' _ => parses ts s'
  ⟨statement_of ih, statements_of ih⟩
termination_by s.tokens.length

/-! ## Functions and programs -/

theorem moreParameters_follows (r : Reader) (f : String) (params : List String) (s : Stream) :
    ts.Follows (ts.moreParameters params) s 1 (finish (r.param f params) s)
      fun ps => finish (Reader.expect .rparen · { r with focus := .functionBrace f ps }) := by
  have hname (s' : Stream) (hle : s'.tokens.length ≤ s.tokens.length) :
      ts.Follows
        (do
          let x ← ts.expectName
          if ← ts.accept (.mark .comma) then
            ts.moreParameters (params ++ [x])
          else
            return params ++ [x])
        s' 1
        (finish (Reader.expectName · fun x => { r with focus := .afterParam f (params ++ [x]) }) s')
        fun ps => finish (Reader.expect .rparen · { r with focus := .functionBrace f ps }) := by
    refine .name_bind fun x s₁ _ => .accept_ite nofun (fun htag hs => ?_) fun htag => ?_
    · have hshort := Stream.length_skip_one hs
      let next : Reader := { r with focus := .param f (params ++ [x]) }
      refine Follows.of_eq (.weaken (moreParameters_follows next f (params ++ [x]) (s₁.skip 1)))
        (finish_ok (r := next) ?_ hs)
      exact if_pos (Kind.tag_eq_mark.1 htag)
    · refine .value (finish_congr ?_)
      exact if_neg (mt Kind.tag_eq_mark.2 htag)
  rw [moreParameters]
  refine .accept_bind nofun (fun htag hs => ?_) fun htag => ?_
  · refine (hname _ (Stream.length_skip_one hs).le).weaken.of_eq
      (finish_ok (r := { r with focus := .paramName f params }) ?_ hs)
    exact if_pos (Kind.tag_eq_keyword.1 htag)
  · exact (hname s le_rfl).of_eq (finish_congr (if_neg (mt Kind.tag_eq_keyword.2 htag)))
termination_by s.tokens.length
decreasing_by omega

theorem parameters_follows (items : List Stmt) (f : String) :
    ts.Follows ts.parameters s 0 (finish (Reader.mk items (.params f) []).step s)
      fun ps => finish (Reader.expect .rparen · ⟨items, .functionBrace f ps, []⟩) := by
  rw [parameters]
  refine .check_ite (fun htag => ?_) fun htag => ?_
  · have hkind := Kind.tag_eq_mark.1 htag
    refine .value (finish_congr ?_)
    rw [Reader.expect, if_pos hkind]
    exact if_pos hkind
  · exact Follows.of_eq (.weaken (moreParameters_follows _ f [] s))
      (finish_congr (if_neg (mt Kind.tag_eq_mark.2 htag)))

theorem function_follows (items : List Stmt) (h : s.head.kind = .keyword .int) :
    ts.Follows ts.function s 1 (finish (Reader.mk items .functionName []).step (s.skip 1))
      fun st => finish (Reader.mk (items ++ [st]) .ready []).step := by
  rw [function]
  refine .expect_bind nofun (fun _ _ => ?_) fun htag => absurd (Kind.tag_eq_keyword.2 h) htag
  refine .name_bind fun f s₁ _ => .mark_bind fun s₂ _ => ?_
  refine (parameters_follows items f).bind fun ps s₃ _ => ?_
  refine .mark_bind fun s₄ _ => .mark_bind fun s₅ _ => ?_
  refine ((ts.parses s₅).statements items [] (.function f ps) []).bind fun body s₆ _ => ?_
  refine .mark_bind fun s₇ _ => ?_
  exact .value rfl

theorem items_follows (done : List Stmt) (s : Stream) :
    ts.Follows (ts.items done) s 0 (finish (Reader.mk done .ready []).step s)
      fun body s' => (.ok ⟨body⟩, s') := by
  rw [items]
  refine .isAtEnd_ite (fun hend => ?_) fun hs => .check_ite (fun htag => ?_) fun htag => ?_
  · obtain ⟨_, endLine⟩ := s
    obtain rfl := hend
    exact .value rfl
  · have hkind := Kind.tag_eq_keyword.1 htag
    refine Follows.of_eq ((function_follows done hkind).bind fun st s' _ =>
      items_follows (done ++ [st]) s') (finish_ok ?_ hs)
    change Reader.ready done [] s.head = _
    unfold Reader.ready
    rw [hkind]
  · refine Follows.of_eq (((ts.parses s).statement done []).bind fun st s' _ =>
      items_follows (done ++ [st]) s') (finish_congr ?_)
    exact Reader.ready_nil (mt Kind.tag_eq_keyword.2 htag) hs done
termination_by s.tokens.length

theorem program_follows (ts : Tokens) (s : Stream) :
    ts.Follows ts.program s 0 (finish Reader.start.step s) fun p s' => (.ok p, s') := by
  rw [program]
  exact (items_follows [] s).bind fun body s' _ => .value rfl

/-! ## Rounds of the loops -/

/-- At the start of any stream, `x` ends and stays in the stream, and if it gives a value, it has
read something. -/
def Advances {α : Type} (ts : Tokens) (x : Parse α) : Prop :=
  ∀ i s, ts.At i s → ∃ result, ∃ n ≤ s.tokens.length,
    x.run.run i = some (result, i + n) ∧ ∀ a, result = .ok a → 0 < n

theorem advances_of_follows {α : Type} {x : Parse α}
    (h : ∀ s, ∃ before after, ts.Follows x s 1 before after) : ts.Advances x := by
  intro i s hi
  obtain ⟨before, after, hx⟩ := h s
  obtain ⟨n, hn, ⟨a, hrun, hpos, -⟩ | ⟨error, hrun, -⟩⟩ := hx i hi
  · exact ⟨.ok a, n, hn, hrun, fun _ _ => hpos⟩
  · exact ⟨.error error, n, hn, hrun, nofun⟩

/-- No loop goes round without reading something: each round of it reads one of these. -/
theorem rounds_advance (ts : Tokens) :
    (∀ floor, ts.Advances (ts.expression floor)) ∧ ts.Advances ts.statement ∧
      ts.Advances ts.function ∧ (∀ args, ts.Advances (ts.moreArguments args)) ∧
      ∀ params, ts.Advances (ts.moreParameters params) := by
  refine ⟨fun floor => ?_, ?_, ?_, fun args => ?_, fun params => ?_⟩ <;>
    refine advances_of_follows fun s => ?_
  · exact ⟨_, _, (Setting.parses ⟨[], [], .ret⟩ ts s).expression floor []⟩
  · exact ⟨_, _, (ts.parses s).statement [] []⟩
  · by_cases h : s.head.kind = .keyword .int
    · exact ⟨_, _, function_follows [] h⟩
    · refine ⟨(.error (.expected (.keyword .int) s.head), s.skip 1),
        fun _ => finish Reader.start.step, ?_⟩
      rw [function]
      exact .expect_bind nofun (fun htag => absurd (Kind.tag_eq_keyword.1 htag) h) fun _ => rfl
  · exact ⟨_, _, (Setting.parses ⟨[], [], .ret⟩ ts s).moreArguments Grouping.lowest "" args []⟩
  · exact ⟨_, _, moreParameters_follows .start "" params s⟩

end Tokens

/-! ## What a parser gives -/

/-- A parser gives what the reader gives, and stands where the reader has stopped. -/
theorem Parser.exists_parse_eq {ts : Tokens} {i : ℕ} {s : Stream} (h : ts.At i s) :
    ∃ n ≤ s.tokens.length,
      (Parser.mk ts i).parse = some ((Program.read s).result, ⟨ts, i + n⟩) ∧
        (Program.read s).rest = s.skip n := by
  have hread : finish Stmt.Reader.start.step s =
      ((Program.read s).result, (Program.read s).rest) :=
    finishFrom_step s.endLine s.tokens .start
  obtain ⟨n, hn, result, hrun, hfinish⟩ : ∃ n ≤ s.tokens.length, ∃ result,
      ts.program.run.run i = some (result, i + n) ∧
        finish Stmt.Reader.start.step s = (result, s.skip n) := by
    obtain ⟨n, hn, ⟨program, hrun, -, hfinish⟩ | ⟨error, hrun, hfinish⟩⟩ :=
      ts.program_follows s i h
    · exact ⟨n, hn, .ok program, hrun, hfinish⟩
    · exact ⟨n, hn, .error error, hrun, hfinish⟩
  obtain ⟨hresult, hrest⟩ := Prod.mk.inj (hread.symm.trans hfinish)
  refine ⟨n, hn, ?_, hrest⟩
  rw [parse, hrun, hresult]
  rfl

theorem Parser.parse_eq {ts : Tokens} {i : ℕ} {s : Stream} (h : ts.At i s) :
    (Parser.mk ts i).parse = some ((Program.read s).result,
      ⟨ts, i + (s.tokens.length - (Program.read s).rest.tokens.length)⟩) := by
  obtain ⟨n, hn, hparse, hrest⟩ := exists_parse_eq h
  rw [hparse, hrest, Stream.length_skip, Nat.sub_sub_self hn]

end MiniC
