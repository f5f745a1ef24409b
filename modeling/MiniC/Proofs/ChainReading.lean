import MiniC.Proofs.Derivation

/-!
# Reading a derived expression

Reading the frontier of a resolved chain leaves a reader that goes on as behind the chain's tree
(`Chain.run`). The reader need not have closed the chain: it does so with the next token, which
shows that no more links follow.

A chain with several links is read as it is split. Up to its weakest link the reader is in the left
part; no frame of that part can take the operator, so it closes them all, and the right part is read
above a frame for the link (`Reading.run`). An operand in front of an operator is no assignment,
which would take the operator into its value: this is where the chain has to be resolved.
-/

namespace MiniC

namespace Expr

open Grammar

/-- The reader of a step that goes on. -/
def Step.more? : Step → Option Reader
  | .more r => some r
  | _ => none

namespace Reader

/-- The reader behind tokens of the kinds `ks`, if all of them go on with the expression. -/
def run (g : Grouping) (r : Reader) (ks : List Kind) : Option Reader :=
  ks.foldlM (fun r k => (r.step g ⟨k, 0⟩).more?) r

variable {g : Grouping}

@[simp] theorem run_nil (r : Reader) : r.run g [] = some r := rfl

theorem run_cons (r : Reader) (k : Kind) (ks : List Kind) :
    r.run g (k :: ks) = (r.step g ⟨k, 0⟩).more?.bind (·.run g ks) := rfl

theorem run_cons_more {r r' : Reader} {k : Kind} (h : r.step g ⟨k, 0⟩ = .more r')
    (ks : List Kind) : r.run g (k :: ks) = r'.run g ks := by
  rw [run_cons, h]
  rfl

theorem run_append {r r' : Reader} {ks : List Kind} (h : r.run g ks = some r')
    (ls : List Kind) : r.run g (ks ++ ls) = r'.run g ls := by
  unfold run at h ⊢
  rw [List.foldlM_append, h]
  rfl

/-- A kind that makes neither a call nor an assignment of the name before it. -/
def Stops (k : Kind) : Prop := k ≠ .mark .lparen ∧ k ≠ .mark .assign

/-- A kind that cannot go on with an expression. -/
def Ends (k : Kind) : Prop := Stops k ∧ ∀ o, k ≠ .op o

theorem operator?_of_ends {floor : Nat} {k : Kind} (h : Ends k) : operator? g floor k = none := by
  cases k with
  | op o => exact absurd rfl (h.2 o)
  | _ => rfl

theorem operator?_of_lt {floor : Nat} {k : Kind} (h : ∀ o, k = .op o → g.level o < floor) :
    operator? g floor k = none := by
  cases k with
  | op o =>
    have := h o rfl
    simp only [operator?, ite_eq_right_iff]
    omega
  | _ => rfl

theorem after_of_ends {floor : Nat} {e : Expr} {t : Token} {frames : List Frame}
    (h : Ends t.kind) : after g floor e t frames = close g e t frames := by
  simp only [after, operator?_of_ends h]

theorem after_op {floor : Nat} {o : BinOp} (h : floor ≤ g.level o) (e : Expr) (line : Nat)
    (frames : List Frame) :
    after g floor e ⟨.op o, line⟩ frames =
      .more ⟨.operand (g.floor o), .operator floor e o :: frames⟩ := by
  simp only [after, operator?, if_pos h, join]

/-- The right operand of `o` is over when the next operator, if there is one, is too weak for it:
then the token is read behind the whole of `left o right`. -/
theorem after_operator {floor : Nat} {left right : Expr} {o : BinOp} {t : Token}
    {frames : List Frame} (h : ∀ next, t.kind = .op next → g.level next < g.floor o) :
    after g (g.floor o) right t (.operator floor left o :: frames) =
      after g floor (.binary o left right) t frames := by
  simp only [after, operator?_of_lt h, close]

/-- Reading `ks` where an operand is due leaves a reader that takes the next token, if its kind is
among `next`, as behind the operand `e`. -/
def Reads (g : Grouping) (next : Kind → Prop) (ks : List Kind) (e : Expr) : Prop :=
  ∀ floor frames, ∃ r, run g ⟨.operand floor, frames⟩ ks = some r ∧
    ∀ t : Token, next t.kind → r.step g t = after g floor e t frames

theorem Reads.mono {p q : Kind → Prop} (hpq : ∀ k, q k → p k) {ks : List Kind} {e : Expr}
    (h : Reads g p ks e) : Reads g q ks e := by
  intro floor frames
  obtain ⟨r, hr, ht⟩ := h floor frames
  exact ⟨r, hr, fun t hq => ht t (hpq _ hq)⟩

/-- The kinds `ks` are a first operand, read as `e`, and links. Only the last operand may need to
be followed by one of the kinds `next`. -/
inductive Reading (g : Grouping) (next : Kind → Prop) : List Kind → Expr → List Link → Prop
  | last {ks : List Kind} {e : Expr} (h : Reads g next ks e) : Reading g next ks e []
  | more {ks ks' : List Kind} {e e' : Expr} {o : BinOp} {ls : List Link} (h : Reads g Stops ks e)
      (hrest : Reading g next ks' e' ls) : Reading g next (ks ++ .op o :: ks') e (⟨o, e'⟩ :: ls)

/-- A chain can be cut at any of its links. -/
theorem Reading.split {next : Kind → Prop} {l : Link} {right : List Link} :
    ∀ {left : List Link} {ks : List Kind} {e : Expr}, Reading g next ks e (left ++ l :: right) →
      ∃ ks₁ ks₂, ks = ks₁ ++ .op l.op :: ks₂ ∧ Reading g Stops ks₁ e left ∧
        Reading g next ks₂ l.operand right
  | [], _, _, .more h hrest => ⟨_, _, rfl, .last h, hrest⟩
  | _ :: _, _, _, .more h hrest => by
    obtain ⟨ks₁, ks₂, rfl, hleft, hright⟩ := hrest.split
    exact ⟨_, ks₂, by rw [List.append_assoc, List.cons_append], .more h hleft, hright⟩

/-- A chain whose links all reach the floor is read as the tree into which it is grouped, if the
operator behind it, should there be one, is too weak to join a right operand in it. -/
theorem Reading.run {next : Kind → Prop} {ks : List Kind} {e : Expr} {ls : List Link}
    (h : Reading g next ks e ls) {floor : Nat} (hfloor : ∀ l ∈ ls, floor ≤ g.level l.op)
    (frames : List Frame) :
    ∃ r, Reader.run g ⟨.operand floor, frames⟩ ks = some r ∧
      ∀ t : Token, next t.kind →
        (∀ o, t.kind = .op o → ∀ l ∈ ls, g.level o < g.floor l.op) →
        r.step g t = after g floor (g.group e ls) t frames := by
  -- along the recursion of `group`: first the part before the weakest link, then the part behind it
  induction e, ls using Grouping.group.induct g generalizing next ks floor frames with
  | case1 e =>
    cases h with
    | last h =>
      obtain ⟨r, hr, ht⟩ := h floor frames
      refine ⟨r, hr, fun t hnext _ => ?_⟩
      rw [Grouping.group, ht t hnext]
  | case2 e l ls ihleft ihright =>
    have hls := (g.weakest_append l ls).symm
    have hlt := g.level_weakest_lt l ls
    have hle := g.floor_weakest_le l ls
    rw [Grouping.group]
    generalize g.weakest l ls = cut at *
    rw [hls] at h hfloor ⊢
    simp only [List.mem_append, List.mem_cons] at hfloor ⊢
    obtain ⟨ks₁, ks₂, rfl, hleft, hright⟩ := h.split
    obtain ⟨r₁, hr₁, ht₁⟩ := ihleft hleft (fun m hm => hfloor m (.inl hm)) frames
    obtain ⟨r₂, hr₂, ht₂⟩ := ihright hright hle
      (.operator floor (g.group e cut.left) cut.link.op :: frames)
    have hstep := ht₁ ⟨.op cut.link.op, 0⟩ ⟨by simp, by simp⟩ (by
      rintro o ho m hm
      cases ho
      exact hlt m hm)
    rw [after_op (hfloor _ (.inr (.inl rfl)))] at hstep
    refine ⟨r₂, ?_, fun t hnext hweak => ?_⟩
    · rw [run_append hr₁, run_cons_more hstep, hr₂]
    · rw [ht₂ t hnext fun o ho m hm => hweak o ho m (.inr (.inr hm)),
        after_operator fun o ho => hweak o ho _ (.inr (.inl rfl))]

end Reader

end Expr

namespace Grammar

open MiniC.Expr MiniC.Expr.Reader

/-- A kind with which an operand can start. -/
def StartsOperand : Kind → Prop
  | .number _ | .string _ | .ident _ | .mark .lparen => True
  | _ => False

theorem Operand.frontier_eq_cons (o : Operand) :
    ∃ k ks, o.frontier = k :: ks ∧ StartsOperand k := by
  cases o <;> exact ⟨_, _, rfl, trivial⟩

theorem Chain.frontier_eq_cons (c : Chain) : ∃ k ks, c.frontier = k :: ks ∧ StartsOperand k := by
  cases c with
  | last o => exact o.frontier_eq_cons
  | more o op c =>
    obtain ⟨k, ks, ho, hk⟩ := o.frontier_eq_cons
    exact ⟨k, _, by rw [Chain.frontier, ho, List.cons_append], hk⟩

/-- The kinds with which an operand may be followed where its derivation ends it. -/
def Operand.Next (o : Operand) : Kind → Prop := if o.isAssign then Ends else Stops

variable {g : Grouping}

theorem Operand.next_of_ends (o : Operand) {k : Kind} (h : Ends k) : o.Next k := by
  unfold Operand.Next
  split
  · exact h
  · exact h.1

/-- The first argument of a call is read as any expression. -/
theorem run_arguments (c : Chain) (floor : Nat) (f : String) (frames : List Frame) :
    Reader.run g ⟨.arguments floor f, frames⟩ c.frontier =
      Reader.run g ⟨.operand Grouping.lowest, .call floor f [] :: frames⟩ c.frontier := by
  obtain ⟨k, ks, hc, hk⟩ := c.frontier_eq_cons
  rw [hc, run_cons, run_cons]
  cases k with
  | mark m => cases m <;> first | rfl | exact hk.elim
  | _ => rfl

theorem run_of_reading (hg : ∀ o, Grouping.lowest ≤ g.level o) {ks : List Kind} {e : Expr}
    {ls : List Link} (h : Reading g Ends ks e ls) (frames : List Frame) :
    ∃ r, Reader.run g ⟨.operand Grouping.lowest, frames⟩ ks = some r ∧
      ∀ t : Token, Ends t.kind → r.step g t = close g (g.group e ls) t frames := by
  obtain ⟨r, hr, ht⟩ := h.run (fun l _ => hg l.op) frames
  refine ⟨r, hr, fun t hend => ?_⟩
  rw [ht t hend fun o ho => absurd ho (hend.2 o), after_of_ends hend]

mutual

theorem Operand.reads (hg : ∀ o, Grouping.lowest ≤ g.level o) :
    ∀ o : Operand, o.Resolved → Reads g o.Next o.frontier (o.tree g)
  | .number n, _, floor, frames => ⟨⟨.value floor (.literal n), frames⟩, rfl, fun _ _ => rfl⟩
  | .string raw, _, floor, frames => ⟨⟨.value floor (.string raw), frames⟩, rfl, fun _ _ => rfl⟩
  | .name x, _, floor, frames => by
    refine ⟨⟨.name floor x, frames⟩, rfl, fun t ht => ?_⟩
    obtain ⟨hparen, hassign⟩ : Stops t.kind := ht
    simp only [Reader.step]
    rfl
  | .group c, h, floor, frames => by
    obtain ⟨e, ls, -, htree, hread⟩ := Chain.reading hg c h
    obtain ⟨r, hr, ht⟩ := run_of_reading hg hread (.group floor :: frames)
    refine ⟨⟨.value floor (c.tree g), frames⟩, ?_, fun _ _ => rfl⟩
    rw [Operand.frontier, run_cons_more rfl, run_append hr, run_cons_more, run_nil]
    rw [ht _ ⟨⟨by simp, by simp⟩, by simp⟩, htree]
    rfl
  | .assign x v, h, floor, frames => by
    obtain ⟨e, ls, -, htree, hread⟩ := Chain.reading hg v h
    obtain ⟨r, hr, ht⟩ := run_of_reading hg hread (.assign floor x :: frames)
    refine ⟨r, ?_, fun t hend => ?_⟩
    · rw [Operand.frontier, run_cons_more rfl, run_cons_more rfl, hr]
    · have hend : Ends t.kind := hend
      rw [ht t hend, ← htree, after_of_ends hend, close, operator?_of_ends hend]
      rfl
  | .call f [], _, floor, frames =>
    ⟨⟨.value floor (.call f []), frames⟩, rfl, fun _ _ => rfl⟩
  | .call f (c :: cs), h, floor, frames => by
    obtain ⟨e, ls, -, htree, hread⟩ := Chain.reading hg c h.1
    obtain ⟨r, hr, ht⟩ := run_of_reading hg hread (.call floor f [] :: frames)
    rw [← run_arguments] at hr
    rw [← htree] at ht
    refine ⟨⟨.value floor (.call f (c.tree g :: argTrees g cs)), frames⟩, ?_, fun _ _ => rfl⟩
    rw [Operand.frontier, run_cons_more rfl, run_cons_more rfl, argFrontier, List.append_assoc,
      run_append hr]
    exact run_moreArgs hg cs h.2 ht

/-- A resolved chain is a first operand and links, as its tree has them. -/
theorem Chain.reading (hg : ∀ o, Grouping.lowest ≤ g.level o) :
    ∀ c : Chain, c.Resolved → ∃ e ls, (∀ op, c.links g op = ⟨op, e⟩ :: ls) ∧
      c.tree g = g.group e ls ∧ Reading g Ends c.frontier e ls
  | .last o, h => by
    refine ⟨o.tree g, [], fun _ => rfl, ?_, ?_⟩
    · rw [Chain.tree, Grouping.group]
    · exact .last ((Operand.reads hg o h).mono fun _ => o.next_of_ends)
  | .more o op c, h => by
    obtain ⟨e, ls, hlinks, -, hread⟩ := Chain.reading hg c h.2.2
    refine ⟨o.tree g, c.links g op, fun _ => rfl, rfl, ?_⟩
    rw [hlinks op]
    refine .more ((Operand.reads hg o h.2.1).mono fun k hk => ?_) hread
    rw [Operand.Next, h.1]
    exact hk

/-- The arguments behind one that has just been read, and the closing bracket. -/
theorem run_moreArgs (hg : ∀ o, Grouping.lowest ≤ g.level o) :
    ∀ cs : List Chain, ArgsResolved cs → ∀ {r : Reader} {floor : Nat} {f : String}
      {done : List Expr} {v : Expr} {frames : List Frame},
      (∀ t : Token, Ends t.kind → r.step g t = close g v t (.call floor f done :: frames)) →
      r.run g (moreArgFrontier cs ++ [.mark .rparen]) =
        some ⟨.value floor (.call f (done ++ v :: argTrees g cs)), frames⟩
  | [], _, r, floor, f, done, v, frames, hr => by
    rw [moreArgFrontier, List.nil_append, run_cons_more, run_nil]
    rw [hr _ ⟨⟨by simp, by simp⟩, by simp⟩]
    rfl
  | c :: cs, h, r, floor, f, done, v, frames, hr => by
    obtain ⟨e, ls, -, htree, hread⟩ := Chain.reading hg c h.1
    obtain ⟨r', hr', ht⟩ := run_of_reading hg hread (.call floor f (done ++ [v]) :: frames)
    have hcomma := hr ⟨.mark .comma, 0⟩ ⟨⟨by simp, by simp⟩, by simp⟩
    rw [← htree] at ht
    rw [moreArgFrontier, List.cons_append, run_cons_more hcomma, List.append_assoc, run_append hr',
      run_moreArgs hg cs h.2 ht, List.append_assoc]
    rfl

end

/-- Behind a resolved chain the reader takes a token that ends it as behind the chain's tree. -/
theorem Chain.run (hg : ∀ o, Grouping.lowest ≤ g.level o) (c : Chain) (h : c.Resolved)
    (frames : List Frame) :
    ∃ r, Reader.run g ⟨.operand Grouping.lowest, frames⟩ c.frontier = some r ∧
      ∀ t : Token, Ends t.kind → r.step g t = close g (c.tree g) t frames := by
  obtain ⟨e, ls, -, htree, hread⟩ := Chain.reading hg c h
  rw [htree]
  exact run_of_reading hg hread frames

end Grammar

end MiniC
