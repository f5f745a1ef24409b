import MiniC.Proofs.EarliestError

/-!
# How an expression is grouped

The tree of a chain of operators can be told without a reader: the chain is split at the leftmost
of its weakest operators, and both sides are grouped in the same way (`Grouped`). There is one such
tree (`grouped_iff`), and `Chain.Groups` extends this to the expressions inside a chain: arguments,
bracketed expressions, and the value of an assignment, which is all that follows the sign.

The reader decides about an operator when it meets it, by the floor of the chain it is in. It comes
to the same tree (`Chain.read_groups`). Operators of one precedence are therefore grouped to the
right (`Grouped.eq_nestRight`).
-/

namespace MiniC

namespace Grammar

open MiniC.Expr (Link)
open MiniC.Expr.Reader (Ends)

/-! ## Splitting at the weakest operator -/

/-- The tree of an operand and the links behind it. -/
inductive Grouped : Expr → List Link → Expr → Prop
  | operand (e : Expr) : Grouped e [] e
  /-- No operator is weaker than that of `l`, and those before it are stronger. -/
  | split {e left right : Expr} {before after : List Link} {l : Link}
      (hbefore : ∀ m ∈ before, l.op.precedence < m.op.precedence)
      (hafter : ∀ m ∈ after, l.op.precedence ≤ m.op.precedence)
      (hleft : Grouped e before left) (hright : Grouped l.operand after right) :
      Grouped e (before ++ l :: after) (.binary l.op left right)

section

variable {before before' after after' : List Link} {l l' : Link}

/-- The leftmost weakest link is not to the right of another one. -/
theorem eq_nil_of_split {between : List Link}
    (hbefore : ∀ m ∈ between, l'.op.precedence < m.op.precedence)
    (hafter : ∀ m ∈ after, l.op.precedence ≤ m.op.precedence)
    (h : l :: after = between ++ l' :: after') : between = [] := by
  cases between with
  | nil => rfl
  | cons m between =>
    obtain ⟨rfl, rfl⟩ := List.cons.inj h
    have hlt := hbefore l List.mem_cons_self
    have hle := hafter l' (by simp)
    omega

theorem split_unique (hbefore : ∀ m ∈ before, l.op.precedence < m.op.precedence)
    (hafter : ∀ m ∈ after, l.op.precedence ≤ m.op.precedence)
    (hbefore' : ∀ m ∈ before', l'.op.precedence < m.op.precedence)
    (hafter' : ∀ m ∈ after', l'.op.precedence ≤ m.op.precedence)
    (h : before ++ l :: after = before' ++ l' :: after') :
    before = before' ∧ l = l' ∧ after = after' := by
  rcases List.append_eq_append_iff.1 h with ⟨between, rfl, hrest⟩ | ⟨between, rfl, hrest⟩
  · obtain rfl :=
      eq_nil_of_split (fun m hm => hbefore' m (List.mem_append_right _ hm)) hafter hrest
    obtain ⟨rfl, rfl⟩ := List.cons.inj hrest
    exact ⟨(List.append_nil _).symm, rfl, rfl⟩
  · obtain rfl :=
      eq_nil_of_split (fun m hm => hbefore m (List.mem_append_right _ hm)) hafter' hrest
    obtain ⟨rfl, rfl⟩ := List.cons.inj hrest
    exact ⟨List.append_nil _, rfl, rfl⟩

end

theorem Grouped.unique {e t t' : Expr} {ls : List Link} (h : Grouped e ls t)
    (h' : Grouped e ls t') : t = t' := by
  induction h generalizing t' with
  | operand e =>
    generalize hls : ([] : List Link) = ls at h'
    cases h' with
    | operand => rfl
    | split => simp at hls
  | @split e left right before after l hbefore hafter _ _ ihleft ihright =>
    generalize hls : before ++ l :: after = ls at h'
    cases h' with
    | operand => simp at hls
    | split hbefore' hafter' hleft' hright' =>
      obtain ⟨rfl, rfl, rfl⟩ := split_unique hbefore hafter hbefore' hafter' hls
      rw [ihleft hleft', ihright hright']

theorem grouped_group (e : Expr) (ls : List Link) :
    Grouped e ls (Grouping.standard.group e ls) := by
  fun_induction Grouping.group Grouping.standard e ls with
  | case1 e => exact .operand e
  | case2 e l ls ihleft ihright =>
    have hbefore := Grouping.standard.level_weakest_lt l ls
    have hafter := Grouping.standard.floor_weakest_le l ls
    rw [← Grouping.standard.weakest_append l ls]
    exact .split hbefore hafter ihleft ihright

theorem grouped_iff {e t : Expr} {ls : List Link} :
    Grouped e ls t ↔ t = Grouping.standard.group e ls := by
  constructor
  · intro h
    exact h.unique (grouped_group e ls)
  · rintro rfl
    exact grouped_group e ls

/-- The operand and the links behind it, each link with all that follows it on its right. -/
def nestRight (e : Expr) : List Link → Expr
  | [] => e
  | l :: ls => .binary l.op e (nestRight l.operand ls)

/-- Operators of one precedence lean to the right. -/
theorem Grouped.eq_nestRight {e t : Expr} {ls : List Link} (h : Grouped e ls t) {p : Nat}
    (hp : ∀ l ∈ ls, l.op.precedence = p) : t = nestRight e ls := by
  induction h with
  | operand e => rfl
  | @split e left right before after l hbefore _ hleft _ ihleft ihright =>
    have hl : l.op.precedence = p := hp l (by simp)
    cases before with
    | nil =>
      rw [List.nil_append, nestRight, ← ihright fun m hm => hp m (by simp [hm]),
        ihleft (by simp), nestRight]
    | cons m before =>
      -- a stronger operator before the weakest one would have another precedence
      have hlt := hbefore m List.mem_cons_self
      have hm : m.op.precedence = p := hp m (by simp)
      omega

/-! ## Expressions inside a chain -/

mutual

/-- The tree of an operand. -/
inductive Operand.Groups : Operand → Expr → Prop
  | number (n : Int) : Operand.Groups (.number n) (.literal n)
  | string (raw : String) : Operand.Groups (.string raw) (.string raw)
  | name (x : String) : Operand.Groups (.name x) (.variable x)
  | call {f : String} {args : List Chain} {es : List Expr} (h : ArgsGroup args es) :
      Operand.Groups (.call f args) (.call f es)
  | assign {x : String} {value : Chain} {e : Expr} (h : Chain.Groups value e) :
      Operand.Groups (.assign x value) (.assign x e)
  | group {inner : Chain} {e : Expr} (h : Chain.Groups inner e) : Operand.Groups (.group inner) e

/-- The trees of the operands of a chain: that of the first, and links for the others. -/
inductive Chain.Operands : Chain → Expr → List Link → Prop
  | last {o : Operand} {e : Expr} (h : Operand.Groups o e) : Chain.Operands (.last o) e []
  | more {o : Operand} {op : BinOp} {rest : Chain} {e e' : Expr} {ls : List Link}
      (h : Operand.Groups o e) (hrest : Chain.Operands rest e' ls) :
      Chain.Operands (.more o op rest) e (⟨op, e'⟩ :: ls)

/-- The tree of a chain. -/
inductive Chain.Groups : Chain → Expr → Prop
  | mk {c : Chain} {e t : Expr} {ls : List Link} (h : Chain.Operands c e ls)
      (hgroup : Grouped e ls t) : Chain.Groups c t

inductive ArgsGroup : List Chain → List Expr → Prop
  | nil : ArgsGroup [] []
  | cons {c : Chain} {cs : List Chain} {e : Expr} {es : List Expr} (h : Chain.Groups c e)
      (hrest : ArgsGroup cs es) : ArgsGroup (c :: cs) (e :: es)

end

theorem Chain.exists_links (g : Grouping) (c : Chain) : ∃ e ls,
    (∀ op, c.links g op = ⟨op, e⟩ :: ls) ∧ c.tree g = g.group e ls := by
  cases c with
  | last o => exact ⟨o.tree g, [], fun _ => rfl, by rw [Chain.tree, Grouping.group]⟩
  | more o op c => exact ⟨o.tree g, c.links g op, fun _ => rfl, rfl⟩

/-- The operands of a chain are those of its tree. -/
def Chain.HasOperands (c : Chain) : Prop :=
  ∀ e ls, c.Operands e ls ↔ ∀ op, c.links .standard op = ⟨op, e⟩ :: ls

theorem Chain.HasOperands.groups_iff {c : Chain} (h : c.HasOperands) (e : Expr) :
    c.Groups e ↔ e = c.tree .standard := by
  obtain ⟨first, ls, hlinks, htree⟩ := c.exists_links .standard
  have hfirst := (h first ls).2 hlinks
  rw [htree]
  constructor
  · rintro ⟨hoperands, hgroup⟩
    have hsame := (h _ _).1 hoperands .or
    rw [hlinks, List.cons.injEq, Link.mk.injEq] at hsame
    obtain ⟨⟨-, rfl⟩, rfl⟩ := hsame
    exact grouped_iff.1 hgroup
  · intro he
    exact ⟨hfirst, grouped_iff.2 he⟩

mutual

theorem Operand.groups_iff : ∀ (o : Operand) (e : Expr), o.Groups e ↔ e = o.tree .standard
  | .number n, e => by
    refine ⟨fun h => ?_, fun h => h ▸ .number n⟩
    cases h
    rfl
  | .string raw, e => by
    refine ⟨fun h => ?_, fun h => h ▸ .string raw⟩
    cases h
    rfl
  | .name x, e => by
    refine ⟨fun h => ?_, fun h => h ▸ .name x⟩
    cases h
    rfl
  | .call f args, e => by
    have hargs := argsGroup_iff args
    refine ⟨fun h => ?_, fun h => h ▸ .call ((hargs _).2 rfl)⟩
    cases h with
    | call h => rw [(hargs _).1 h, Operand.tree]
  | .assign x v, e => by
    have hv := (Chain.hasOperands v).groups_iff
    refine ⟨fun h => ?_, fun h => h ▸ .assign ((hv _).2 rfl)⟩
    cases h with
    | assign h => rw [(hv _).1 h, Operand.tree]
  | .group c, e => by
    have hc := (Chain.hasOperands c).groups_iff
    refine ⟨fun h => ?_, fun h => h ▸ .group ((hc _).2 rfl)⟩
    cases h with
    | group h => rw [(hc _).1 h, Operand.tree]

theorem Chain.hasOperands : ∀ c : Chain, c.HasOperands
  | .last o, e, ls => by
    have ho := Operand.groups_iff o e
    constructor
    · rintro ⟨h⟩ op
      rw [Chain.links, ho.1 h]
    · intro h
      have hlinks := h .or
      simp only [Chain.links, List.cons.injEq, Link.mk.injEq, true_and] at hlinks
      obtain ⟨rfl, rfl⟩ := hlinks
      exact .last (ho.2 rfl)
  | .more o next c, e, ls => by
    have ho := Operand.groups_iff o e
    have hc := Chain.hasOperands c
    constructor
    · rintro (_ | ⟨h, hrest⟩) op
      rw [Chain.links, ho.1 h, (hc _ _).1 hrest next]
    · intro h
      obtain ⟨e', ls', hlinks, -⟩ := c.exists_links .standard
      have hmore := h .or
      simp only [Chain.links, hlinks, List.cons.injEq, Link.mk.injEq, true_and] at hmore
      obtain ⟨rfl, rfl⟩ := hmore
      exact .more (ho.2 rfl) ((hc e' ls').2 hlinks)

theorem argsGroup_iff : ∀ (cs : List Chain) (es : List Expr), ArgsGroup cs es ↔
    es = argTrees .standard cs
  | [], es => by
    refine ⟨fun h => ?_, fun h => h ▸ .nil⟩
    cases h
    rfl
  | c :: cs, es => by
    have hc := (Chain.hasOperands c).groups_iff
    have hcs := argsGroup_iff cs
    refine ⟨fun h => ?_, fun h => h ▸ .cons ((hc _).2 rfl) ((hcs _).2 rfl)⟩
    cases h with
    | cons h hrest => rw [(hc _).1 h, (hcs _).1 hrest, argTrees]

end

/-! ## Reading a chain -/

/-- Tokens that go on with an expression are passed by. -/
theorem read_of_run {g : Grouping} : ∀ {ts : List Token} {r r' : Expr.Reader},
    r.run g (ts.map Token.kind) = some r' → ∀ rest, r.read g (ts ++ rest) = r'.read g rest
  | [], r, r', h, rest => by
    cases h
    rfl
  | t :: ts, r, r', h, rest => by
    rw [List.map_cons, Expr.Reader.run_cons] at h
    have hkind : (Token.mk t.kind 0).kind = t.kind := rfl
    have hstep := Expr.Reader.step_relabel (g := g) hkind r
    rcases hs : r.step g ⟨t.kind, 0⟩ with r₁ | e | error <;> rw [hs] at h hstep
    · rw [List.cons_append, Expr.Reader.read, hstep]
      exact read_of_run h rest
    · cases h
    · cases h

/-- Up to a token that cannot go on with it, a chain is read as its tree. -/
theorem Chain.read_tree {g : Grouping} (hg : ∀ o, Grouping.lowest ≤ g.level o) {c : Chain}
    (hc : c.Resolved) {ts : List Token} (hts : ts.map Token.kind = c.frontier) {t : Token}
    (ht : Ends t.kind) (rest : List Token) :
    Expr.Reader.start.read g (ts ++ t :: rest) = some (.ok (c.tree g, t :: rest)) := by
  obtain ⟨r, hr, hstep⟩ := c.run hg hc []
  rw [← hts] at hr
  have hdone : r.step g t = .done (c.tree g) := hstep t ht
  rw [read_of_run (r := .start) hr, Expr.Reader.read, hdone]

theorem Chain.read {c : Chain} (hc : c.Resolved) {ts : List Token}
    (hts : ts.map Token.kind = c.frontier) {t : Token} (ht : Ends t.kind) (rest : List Token) :
    Expr.Reader.start.read .standard (ts ++ t :: rest) = some (.ok (c.expr, t :: rest)) :=
  Chain.read_tree (g := .standard) BinOp.one_le_precedence hc hts ht rest

/-- An expression with a semicolon is a program of one statement. -/
theorem Chain.parse {c : Chain} (hc : c.Resolved) {ts : List Token}
    (hts : ts.map Token.kind = c.frontier) (line line' : Nat) :
    Program.parse (ts ++ [⟨.mark .semicolon, line⟩] ++ [⟨.eof, line'⟩]) =
      .ok ⟨[.eval c.expr]⟩ := by
  have hint : (Statement.eval c).frontier.head? ≠ some (.keyword .int) := by
    obtain ⟨k, ks, hk, hstart⟩ := c.frontier_eq_cons
    rw [Statement.frontier, hk]
    rintro ⟨⟩
    exact hstart
  have heof : ∀ t ∈ ts ++ [⟨.mark .semicolon, line⟩], t.kind ≠ .eof := by
    intro t ht h
    have hmem := List.mem_map_of_mem (f := Token.kind) ht
    rw [List.map_append, hts, h] at hmem
    exact (Statement.eval c).eof_notMem_frontier hmem
  refine Program.parse_eq_ok_iff_exists_resolved.2
    ⟨⟨[.statement (.eval c) hint]⟩, ?_, fun i hi => ?_, rfl⟩
  · rw [Program.tokens_ofTokens_append_eof heof, List.map_append, hts]
    exact List.flatMap_singleton Item.frontier _
  · rw [List.mem_singleton.1 hi]
    exact hc

/-- A chain of operands has one tree, in which it is split at the leftmost of its weakest operators
and so on with both sides. Up to a token that cannot go on with it, the chain is read as that tree,
also where it is a statement; operators of one precedence lean to the right. -/
theorem Chain.read_groups {c : Chain} (hc : c.Resolved) {ts : List Token}
    (hts : ts.map Token.kind = c.frontier) :
    ∃ e, (∀ e', c.Groups e' ↔ e' = e) ∧
      (∀ t rest, Ends t.kind →
        Expr.Reader.start.read .standard (ts ++ t :: rest) = some (.ok (e, t :: rest))) ∧
      (∀ line line', Program.parse (ts ++ [⟨.mark .semicolon, line⟩] ++ [⟨.eof, line'⟩]) =
        .ok ⟨[.eval e]⟩) ∧
      ∀ first ls p, c.Operands first ls → (∀ l ∈ ls, l.op.precedence = p) →
        e = nestRight first ls := by
  have hgroups := c.hasOperands.groups_iff
  refine ⟨c.expr, hgroups, fun t rest ht => Chain.read hc hts ht rest,
    fun line line' => Chain.parse hc hts line line', fun first ls p hoperands hp => ?_⟩
  have hgroup := grouped_group first ls
  have hexpr : Grouping.standard.group first ls = c.expr := (hgroups _).1 ⟨hoperands, hgroup⟩
  rw [← hexpr, hgroup.eq_nestRight hp]

/-- `1 - 2 - 3 * (a || b) < x = y == f(4, 5) && 6` -/
def mixedChain : Chain :=
  .more (.number 1) .sub (.more (.number 2) .sub (.more (.number 3) .mul
    (.more (.group (.more (.name "a") .or (.last (.name "b")))) .lt
      (.last (.assign "x" (.more (.name "y") .eq
        (.more (.call "f" [.last (.number 4), .last (.number 5)]) .and (.last (.number 6)))))))))

/-- The comparison is the weakest operator outside brackets and before the assignment, which takes
the conjunction. -/
def mixedTree : Expr :=
  .binary .lt
    (.binary .sub (.literal 1) (.binary .sub (.literal 2)
      (.binary .mul (.literal 3) (.binary .or (.variable "a") (.variable "b")))))
    (.assign "x" (.binary .and
      (.binary .eq (.variable "y") (.call "f" [.literal 4, .literal 5])) (.literal 6)))

theorem read_groups_mixed : mixedChain.Resolved ∧ mixedChain.Groups mixedTree ∧
    Expr.Reader.start.read .standard
        (mixedChain.frontier.map (⟨·, 1⟩) ++ [⟨.mark .rparen, 1⟩, ⟨.op .add, 2⟩]) =
      some (.ok (mixedTree, [⟨.mark .rparen, 1⟩, ⟨.op .add, 2⟩])) := by
  have hresolved : mixedChain.Resolved := by
    simp [mixedChain, Chain.Resolved, Operand.Resolved, ArgsResolved, Operand.isAssign]
  have hkinds : (mixedChain.frontier.map (Token.mk · 1)).map Token.kind = mixedChain.frontier := rfl
  obtain ⟨e, hgroups, hread, -, -⟩ := Chain.read_groups hresolved hkinds
  have htree := hread ⟨.mark .rparen, 1⟩ [⟨.op .add, 2⟩] ⟨⟨by simp, by simp⟩, by simp⟩
  have hmixed : Expr.Reader.start.read .standard
      (mixedChain.frontier.map (⟨·, 1⟩) ++ [⟨.mark .rparen, 1⟩, ⟨.op .add, 2⟩]) =
      some (.ok (mixedTree, [⟨.mark .rparen, 1⟩, ⟨.op .add, 2⟩])) := rfl
  obtain rfl : mixedTree = e := by
    rw [hmixed] at htree
    cases htree
    rfl
  exact ⟨hresolved, (hgroups _).2 rfl, hmixed⟩

end Grammar

end MiniC
