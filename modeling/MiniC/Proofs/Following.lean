import MiniC.Parser
import MiniC.Proofs.StatementReading

/-!
# A parser that follows a reader

A parser moves a cursor along its tokens and calls itself for the parts of a construct. The reader
takes one token after the other and keeps the constructs it is in as frames. They are compared at
the start of a stream (`At`): there, how the reader finishes is known from its state (`finish`), and
`Follows` says that a part of the parser leads from one such state to another. If it gives a value,
the reader finishes as it does from the state with that value, and if it gives an error, the reader
finishes with that error and leaves the same tokens.

`Follows` also says that the part ends, that it finds a token wherever it looks, and how many tokens
it reads at least. Parts in a row add up (`Follows.bind`), and the one behind has fewer tokens to
read, which is what the recursions of the parser end by.
-/

namespace MiniC

open Stmt (Reader)

namespace Stream

/-- The token in front. -/
def head (s : Stream) : Token := s.tokens.headD s.eof

def skip (s : Stream) (n : ℕ) : Stream := { s with tokens := s.tokens.drop n }

theorem skip_skip (s : Stream) (n m : ℕ) : (s.skip n).skip m = s.skip (n + m) :=
  congrArg (Stream.mk · s.endLine) List.drop_drop

theorem length_skip (s : Stream) (n : ℕ) : (s.skip n).tokens.length = s.tokens.length - n :=
  List.length_drop

theorem length_skip_one {s : Stream} (h : s.head.kind ≠ .eof) :
    (s.skip 1).tokens.length < s.tokens.length := by
  rcases s with ⟨_ | ⟨t, ts⟩, endLine⟩
  · exact absurd rfl h
  · exact Nat.lt_succ_self _

end Stream

theorem Kind.tag_eq_mark {kind : Kind} {m : Mark} : kind.tag = .mark m ↔ kind = .mark m := by
  cases kind <;> simp [Kind.tag]

theorem Kind.tag_eq_keyword {kind : Kind} {w : Keyword} :
    kind.tag = .keyword w ↔ kind = .keyword w := by
  cases kind <;> simp [Kind.tag]

/-- What a program comes to, and what is left behind it. -/
abbrev Finish := Except ParseError Program × Stream

/-- How reading ends if `f` reads the next token. -/
def finishFrom (f : Token → Except ParseError Reader) (endLine : ℕ) : List Token → Finish
  | [] =>
    match f ⟨.eof, endLine⟩ with
    | .ok r => (.ok ⟨r.items⟩, ⟨[], endLine⟩)
    | .error error => (.error error, ⟨[], endLine⟩)
  | t :: ts =>
    match f t with
    | .ok r => finishFrom r.step endLine ts
    | .error error => (.error error, ⟨ts, endLine⟩)

def finish (f : Token → Except ParseError Reader) (s : Stream) : Finish :=
  finishFrom f s.endLine s.tokens

theorem finishFrom_step (endLine : ℕ) (ts : List Token) (r : Reader) :
    finishFrom r.step endLine ts =
      ((Program.readFrom r endLine ts).result, (Program.readFrom r endLine ts).rest) := by
  induction ts generalizing r with
  | nil =>
    rw [finishFrom, Program.readFrom]
    cases r.step ⟨.eof, endLine⟩ <;> rfl
  | cons t ts ih =>
    rw [finishFrom, Program.readFrom]
    cases r.step t with
    | error => rfl
    | ok r => exact ih r

/-- Only the next token is read by `f`. -/
theorem finish_congr {f g : Token → Except ParseError Reader} {s : Stream}
    (h : f s.head = g s.head) : finish f s = finish g s := by
  rcases s with ⟨_ | ⟨t, ts⟩, endLine⟩
  · change f ⟨.eof, endLine⟩ = g ⟨.eof, endLine⟩ at h
    rw [finish, finish, finishFrom, finishFrom, h]
  · change f t = g t at h
    rw [finish, finish, finishFrom, finishFrom, h]

theorem finish_error {f : Token → Except ParseError Reader} {s : Stream} {error : ParseError}
    (h : f s.head = .error error) : finish f s = (.error error, s.skip 1) := by
  rcases s with ⟨_ | ⟨t, ts⟩, endLine⟩
  · change f ⟨.eof, endLine⟩ = _ at h
    rw [finish, finishFrom, h]
    rfl
  · change f t = _ at h
    rw [finish, finishFrom, h]
    rfl

theorem finish_ok {f : Token → Except ParseError Reader} {s : Stream} {r : Reader}
    (h : f s.head = .ok r) (hs : s.head.kind ≠ .eof) :
    finish f s = finish r.step (s.skip 1) := by
  rcases s with ⟨_ | ⟨t, ts⟩, endLine⟩
  · exact absurd rfl hs
  · change f t = _ at h
    rw [finish, finishFrom, h]
    rfl

namespace Tokens

variable {α β : Type} {ts : Tokens} {i j : ℕ} {s : Stream}

/-- From the cursor on there are the tokens of the stream, none of them an end token, and the one
that closes it. -/
structure At (ts : Tokens) (i : ℕ) (s : Stream) : Prop where
  exists_after : ∃ after, ts.drop i = s.tokens ++ s.eof :: after
  ne_eof : ∀ t ∈ s.tokens, t.kind ≠ .eof

theorem At.skip (h : ts.At i s) {n : ℕ} (hn : n ≤ s.tokens.length) :
    ts.At (i + n) (s.skip n) := by
  obtain ⟨after, hafter⟩ := h.exists_after
  refine ⟨⟨after, ?_⟩, fun t ht => h.ne_eof t (List.mem_of_mem_drop ht)⟩
  calc ts.drop (i + n)
      = (ts.drop i).drop n := List.drop_drop.symm
    _ = (s.tokens ++ s.eof :: after).drop n := by rw [hafter]
    _ = s.tokens.drop n ++ s.eof :: after := List.drop_append_of_le_length hn

/-- There is a token at the cursor. -/
theorem At.getElem? (h : ts.At i s) : ts[i]? = some s.head := by
  obtain ⟨after, hafter⟩ := h.exists_after
  rw [← List.head?_drop, hafter]
  rcases s with ⟨_ | ⟨t, ts⟩, endLine⟩ <;> rfl

theorem At.head_eq_eof (h : ts.At i s) : s.head.kind = .eof ↔ s.tokens = [] := by
  rcases s with ⟨_ | ⟨t, ts⟩, endLine⟩
  · exact ⟨fun _ => rfl, fun _ => rfl⟩
  · exact ⟨fun hkind => absurd hkind (h.ne_eof t (by simp)), fun hnil => nomatch hnil⟩

/-! ## Single tokens -/

theorem run_bind_ok {x : Parse α} {f : α → Parse β} {a : α}
    (h : x.run.run i = some (.ok a, j)) : (x >>= f).run.run i = (f a).run.run j := by
  rw [ExceptT.run_bind, StateT.run_bind, h]
  rfl

theorem run_bind_error {x : Parse α} {f : α → Parse β} {error : ParseError}
    (h : x.run.run i = some (.error error, j)) :
    (x >>= f).run.run i = some (.error error, j) := by
  rw [ExceptT.run_bind, StateT.run_bind, h]
  rfl

theorem run_peek (h : ts.At i s) : ts.peek.run.run i = some (.ok s.head, i) := by
  have hget : (get : Parse ℕ).run.run i = some (.ok i, i) := rfl
  rw [peek, run_bind_ok hget, h.getElem?]
  rfl

theorem run_isAtEnd (h : ts.At i s) :
    ts.isAtEnd.run.run i = some (.ok (decide (s.head.kind = .eof)), i) :=
  run_bind_ok (run_peek h)

theorem run_check (h : ts.At i s) (tag : Tag) :
    (ts.check tag).run.run i = some (.ok (decide (s.head.kind.tag = tag)), i) :=
  run_bind_ok (run_peek h)

theorem run_advance (h : ts.At i s) (hs : s.head.kind ≠ .eof) :
    ts.advance.run.run i = some (.ok s.head, i + 1) := by
  rw [advance, run_bind_ok (run_peek h), run_bind_ok (run_isAtEnd h), decide_eq_false hs]
  rfl

/-- Reading at the end of a stream leaves it as it is. -/
theorem exists_run_advance (h : ts.At i s) : ∃ n ≤ s.tokens.length,
    ts.advance.run.run i = some (.ok s.head, i + n) ∧ s.skip n = s.skip 1 := by
  by_cases hs : s.head.kind = .eof
  · refine ⟨0, Nat.zero_le _, ?_, ?_⟩
    · rw [advance, run_bind_ok (run_peek h), run_bind_ok (run_isAtEnd h), decide_eq_true hs]
      rfl
    · rw [Stream.skip, Stream.skip, h.head_eq_eof.1 hs]
      rfl
  · exact ⟨1, Nat.one_le_of_lt (Stream.length_skip_one hs), run_advance h hs, rfl⟩

/-- At the start of the stream, `x` ends and stays in the stream. If the reader is to finish with
`before` there, then `x` either gives a value, behind at least `k` tokens, with which the reader
finishes with `after`, or it gives the error with which the reader finishes, at the same token. -/
def Follows (ts : Tokens) (x : Parse α) (s : Stream) (k : ℕ) (before : Finish)
    (after : α → Stream → Finish) : Prop :=
  ∀ i, ts.At i s → ∃ n ≤ s.tokens.length,
    (∃ a, x.run.run i = some (.ok a, i + n) ∧ k ≤ n ∧ before = after a (s.skip n)) ∨
    (∃ error, x.run.run i = some (.error error, i + n) ∧ before = (.error error, s.skip n))

namespace Follows

variable {x : Parse α} {f : α → Parse β} {k : ℕ} {before : Finish}
  {mid : α → Stream → Finish} {after : β → Stream → Finish}

theorem value {a : α} (h : before = mid a s) : ts.Follows (pure a) s 0 before mid :=
  fun _ _ => ⟨0, Nat.zero_le _, .inl ⟨a, rfl, Nat.le_refl 0, h⟩⟩

theorem of_eq {before' : Finish} (h : ts.Follows x s k before mid) (hbefore : before' = before) :
    ts.Follows x s k before' mid :=
  hbefore ▸ h

theorem weaken (h : ts.Follows x s k before mid) : ts.Follows x s 0 before mid := by
  intro i hi
  obtain ⟨n, hn, ⟨a, hrun, -, hbefore⟩ | hfails⟩ := h i hi
  · exact ⟨n, hn, .inl ⟨a, hrun, Nat.zero_le n, hbefore⟩⟩
  · exact ⟨n, hn, .inr hfails⟩

/-- What `x` has read is no longer there for what follows it. -/
theorem bind (hx : ts.Follows x s j before mid)
    (hf : ∀ a s', s'.tokens.length + j ≤ s.tokens.length →
      ts.Follows (f a) s' (k - j) (mid a s') after) :
    ts.Follows (x >>= f) s k before after := by
  intro i hi
  obtain ⟨n, hn, ⟨a, hrun, hj, rfl⟩ | ⟨error, hrun, rfl⟩⟩ := hx i hi
  · have hlen := s.length_skip n
    obtain ⟨m, hm, hends⟩ := hf a (s.skip n) (by omega) (i + n) (hi.skip hn)
    rw [Stream.skip_skip, Nat.add_assoc] at hends
    refine ⟨n + m, by omega, ?_⟩
    rw [run_bind_ok hrun]
    rcases hends with ⟨b, hb, hk, hmid⟩ | hfails
    · exact .inl ⟨b, hb, by omega, hmid⟩
    · exact .inr hfails
  · exact ⟨n, hn, .inr ⟨error, run_bind_error hrun, rfl⟩⟩

/-- What is known without reading anything. -/
theorem looking {a : α} (hx : ∀ i, ts.At i s → x.run.run i = some (.ok a, i))
    (h : ts.Follows (f a) s k before after) : ts.Follows (x >>= f) s k before after := by
  intro i hi
  rw [run_bind_ok (hx i hi)]
  exact h i hi

/-- What is known from the token in front, which is read. -/
theorem reading {a : α} (hs : s.head.kind ≠ .eof)
    (hx : ∀ i, ts.At i s → x.run.run i = some (.ok a, i + 1))
    (h : ts.Follows (f a) (s.skip 1) (k - 1) before after) :
    ts.Follows (x >>= f) s k before after := by
  intro i hi
  have hlt := Stream.length_skip_one hs
  obtain ⟨n, hn, hends⟩ := h _ (hi.skip (Nat.one_le_of_lt hlt))
  rw [Stream.skip_skip, Nat.add_assoc, Nat.add_comm 1 n] at hends
  refine ⟨n + 1, by omega, ?_⟩
  rw [run_bind_ok (hx i hi)]
  rcases hends with ⟨b, hb, hk, hmid⟩ | hfails
  · exact .inl ⟨b, hb, by omega, hmid⟩
  · exact .inr hfails

theorem peek_bind {f : Token → Parse β} (h : ts.Follows (f s.head) s k before after) :
    ts.Follows (ts.peek >>= f) s k before after :=
  looking (fun _ => run_peek) h

theorem isAtEnd_ite {x y : Parse β} (hpos : s.tokens = [] → ts.Follows x s k before after)
    (hneg : s.head.kind ≠ .eof → ts.Follows y s k before after) :
    ts.Follows (ts.isAtEnd >>= fun b => if b = true then x else y) s k before after := by
  intro i hi
  rw [run_bind_ok (run_isAtEnd hi)]
  split_ifs with h
  · exact hpos (hi.head_eq_eof.1 (of_decide_eq_true h)) i hi
  · exact hneg (fun hs => h (decide_eq_true hs)) i hi

theorem check_ite {tag : Tag} {x y : Parse β}
    (hpos : s.head.kind.tag = tag → ts.Follows x s k before after)
    (hneg : s.head.kind.tag ≠ tag → ts.Follows y s k before after) :
    ts.Follows (ts.check tag >>= fun b => if b = true then x else y) s k before after := by
  refine looking (fun _ hi => run_check hi tag) ?_
  split_ifs with h
  · exact hpos (of_decide_eq_true h)
  · exact hneg fun hs => h (decide_eq_true hs)

theorem advance_bind {f : Token → Parse β} (hs : s.head.kind ≠ .eof)
    (h : ts.Follows (f s.head) (s.skip 1) (k - 1) before after) :
    ts.Follows (ts.advance >>= f) s k before after :=
  reading hs (fun _ hi => run_advance hi hs) h

theorem advance_failure {f : Token → Parse β} {error : ParseError} (hf : f s.head = throw error) :
    ts.Follows (ts.advance >>= f) s k (.error error, s.skip 1) after := by
  intro i hi
  obtain ⟨n, hn, hrun, hskip⟩ := exists_run_advance hi
  refine ⟨n, hn, .inr ⟨error, ?_, by rw [hskip]⟩⟩
  rw [run_bind_ok hrun, hf]
  rfl

theorem accept_bind {tag : Tag} {f : Bool → Parse β} (htag : tag ≠ .eof)
    (hpos : s.head.kind.tag = tag → s.head.kind ≠ .eof →
      ts.Follows (f true) (s.skip 1) (k - 1) before after)
    (hneg : s.head.kind.tag ≠ tag → ts.Follows (f false) s k before after) :
    ts.Follows (ts.accept tag >>= f) s k before after := by
  by_cases h : s.head.kind.tag = tag
  · have hs : s.head.kind ≠ .eof := fun hs => htag (h.symm.trans (congrArg Kind.tag hs))
    refine reading hs (fun _ hi => ?_) (hpos h hs)
    rw [accept, run_bind_ok (run_check hi _), decide_eq_true h, if_pos rfl,
      run_bind_ok (run_advance hi hs)]
    rfl
  · refine looking (fun _ hi => ?_) (hneg h)
    rw [accept, run_bind_ok (run_check hi _), decide_eq_false h]
    rfl

theorem accept_ite {tag : Tag} {x y : Parse β} (htag : tag ≠ .eof)
    (hpos : s.head.kind.tag = tag → s.head.kind ≠ .eof →
      ts.Follows x (s.skip 1) (k - 1) before after)
    (hneg : s.head.kind.tag ≠ tag → ts.Follows y s k before after) :
    ts.Follows (ts.accept tag >>= fun b => if b = true then x else y) s k before after := by
  refine accept_bind htag (fun h hs => ?_) fun h => ?_
  · rw [if_pos rfl]
    exact hpos h hs
  · rw [if_neg Bool.false_ne_true]
    exact hneg h

theorem expect_bind {tag : Tag} {f : Unit → Parse β} (htag : tag ≠ .eof)
    (hpos : s.head.kind.tag = tag → s.head.kind ≠ .eof →
      ts.Follows (f ()) (s.skip 1) (k - 1) before after)
    (hneg : s.head.kind.tag ≠ tag → before = (.error (.expected tag s.head), s.skip 1)) :
    ts.Follows (ts.expect tag >>= f) s k before after := by
  by_cases h : s.head.kind.tag = tag
  · have hs : s.head.kind ≠ .eof := fun hs => htag (h.symm.trans (congrArg Kind.tag hs))
    refine reading hs (fun _ hi => ?_) (hpos h hs)
    rw [expect, run_bind_ok (run_advance hi hs), if_pos h]
    rfl
  · rw [hneg h, expect, bind_assoc]
    refine advance_failure ?_
    rw [if_neg h]
    rfl

/-! ## Tokens as the reader takes them -/

/-- A sign that must follow. -/
theorem mark_bind {m : Mark} {next : Reader} {f : Unit → Parse β}
    (h : ∀ s', s'.tokens.length < s.tokens.length →
      ts.Follows (f ()) s' (k - 1) (finish next.step s') after) :
    ts.Follows (ts.expect (.mark m) >>= f) s k (finish (Reader.expect m · next) s) after := by
  refine expect_bind nofun (fun htag hs => ?_) fun htag => ?_
  · exact (h _ (Stream.length_skip_one hs)).of_eq
      (finish_ok (if_pos (Kind.tag_eq_mark.1 htag)) hs)
  · exact finish_error (if_neg fun hkind => htag (Kind.tag_eq_mark.2 hkind))

/-- A name that must follow. -/
theorem name_bind {next : String → Reader} {f : String → Parse β}
    (h : ∀ x s', s'.tokens.length < s.tokens.length →
      ts.Follows (f x) s' (k - 1) (finish (next x).step s') after) :
    ts.Follows (ts.expectName >>= f) s k (finish (Reader.expectName · next) s) after := by
  rw [expectName, bind_assoc]
  by_cases hkind : ∃ x, s.head.kind = .ident x
  · obtain ⟨x, hkind⟩ := hkind
    have hs : s.head.kind ≠ .eof := by
      rw [hkind]
      nofun
    have hnext : Reader.expectName s.head next = .ok (next x) := by
      rw [Reader.expectName, hkind]
    rw [finish_ok hnext hs]
    refine advance_bind hs ?_
    rw [hkind]
    exact h x _ (Stream.length_skip_one hs)
  · have hfails : Reader.expectName s.head next = .error (.expected .ident s.head) := by
      unfold Reader.expectName
      split
      · exact absurd ⟨_, ‹_›⟩ hkind
      · rfl
    rw [finish_error hfails]
    refine advance_failure ?_
    split
    · exact absurd ⟨_, ‹_›⟩ hkind
    · rfl

end Follows

end Tokens

end MiniC
