import MiniC.Proofs.Derivation

/-!
# Every derivation can be resolved

A derivation that is not resolved can be changed into one that is, with the same frontier
(`Derivation.exists_resolved`). An operator behind an assignment moves, with all that follows it in
the chain, to the end of the assignment's value (`Chain.extend`), and an `else` behind an open
statement moves to the last `if` of that statement (`Statement.attach`).
-/

namespace MiniC

namespace Grammar

/-! ## Assignments -/

/-- The chain `c` with `op rest` at its end, inside the last operand if that is an assignment. -/
def Chain.extend (c : Chain) (op : BinOp) (rest : Chain) : Chain :=
  match c with
  | .last (.assign x v) => .last (.assign x (v.extend op rest))
  | .last o => .more o op rest
  | .more o op' c => .more o op' (c.extend op rest)

theorem Chain.frontier_extend (op : BinOp) (rest : Chain) :
    ∀ c : Chain, (c.extend op rest).frontier = c.frontier ++ .op op :: rest.frontier
  | .last (.assign x v) => by
    simp only [extend, frontier, Operand.frontier, List.cons_append, frontier_extend op rest v]
  | .last (.number _) | .last (.string _) | .last (.name _) | .last (.call _ _)
  | .last (.group _) => rfl
  | .more o op' c => by
    simp only [extend, frontier, frontier_extend op rest c, List.append_assoc, List.cons_append]

theorem Chain.resolved_extend (op : BinOp) {rest : Chain} (hrest : rest.Resolved) :
    ∀ c : Chain, c.Resolved → (c.extend op rest).Resolved
  | .last (.assign _ v), h => Chain.resolved_extend op hrest v h
  | .last (.number _), h | .last (.string _), h | .last (.name _), h | .last (.call _ _), h
  | .last (.group _), h => ⟨rfl, h, hrest⟩
  | .more _ _ c, h => ⟨h.1, h.2.1, Chain.resolved_extend op hrest c h.2.2⟩

mutual

theorem Operand.exists_resolved :
    ∀ o : Operand, ∃ o' : Operand, o'.Resolved ∧ o'.frontier = o.frontier
  | .number n => ⟨.number n, trivial, rfl⟩
  | .string raw => ⟨.string raw, trivial, rfl⟩
  | .name x => ⟨.name x, trivial, rfl⟩
  | .call f args => by
    obtain ⟨args', hres, hfr, -⟩ := exists_argsResolved args
    exact ⟨.call f args', hres, by simp only [Operand.frontier, hfr]⟩
  | .assign x v => by
    obtain ⟨v', hres, hfr⟩ := Chain.exists_resolved v
    exact ⟨.assign x v', hres, by simp only [Operand.frontier, hfr]⟩
  | .group c => by
    obtain ⟨c', hres, hfr⟩ := Chain.exists_resolved c
    exact ⟨.group c', hres, by simp only [Operand.frontier, hfr]⟩

theorem Chain.exists_resolved : ∀ c : Chain, ∃ c' : Chain, c'.Resolved ∧ c'.frontier = c.frontier
  | .last o => by
    obtain ⟨o', hres, hfr⟩ := Operand.exists_resolved o
    exact ⟨.last o', hres, hfr⟩
  | .more o op c => by
    obtain ⟨o', hores, hofr⟩ := Operand.exists_resolved o
    obtain ⟨c', hcres, hcfr⟩ := Chain.exists_resolved c
    refine ⟨(Chain.last o').extend op c', Chain.resolved_extend op hcres _ hores, ?_⟩
    rw [Chain.frontier_extend, hcfr, Chain.frontier, hofr, Chain.frontier]

theorem exists_argsResolved : ∀ cs : List Chain, ∃ cs' : List Chain, ArgsResolved cs' ∧
    argFrontier cs' = argFrontier cs ∧ moreArgFrontier cs' = moreArgFrontier cs
  | [] => ⟨[], trivial, rfl, rfl⟩
  | c :: cs => by
    obtain ⟨c', hcres, hcfr⟩ := Chain.exists_resolved c
    obtain ⟨cs', hres, -, hmore⟩ := exists_argsResolved cs
    refine ⟨c' :: cs', ⟨hcres, hres⟩, ?_, ?_⟩
    · rw [argFrontier, argFrontier, hcfr, hmore]
    · rw [moreArgFrontier, moreArgFrontier, hcfr, hmore]

end

theorem ForInit.exists_resolved (init : ForInit) :
    ∃ init' : ForInit, init'.Resolved ∧ init'.frontier = init.frontier := by
  cases init with
  | none => exact ⟨.none, trivial, rfl⟩
  | decl x e =>
    obtain ⟨e', hres, hfr⟩ := e.exists_resolved
    exact ⟨.decl x e', hres, by simp only [ForInit.frontier, declFrontier, hfr]⟩
  | eval e =>
    obtain ⟨e', hres, hfr⟩ := e.exists_resolved
    exact ⟨.eval e', hres, by simp only [ForInit.frontier, hfr]⟩

/-! ## Branches -/

/-- The open statement with `else e` behind it, as the else-branch of its last `if`. -/
def Statement.attach (s e : Statement) : Statement :=
  match s with
  | .ifThen c s => if s.isOpen then .ifThen c (s.attach e) else .ifElse c s e
  | .ifElse c s e' => .ifElse c s (e'.attach e)
  | .whileLoop c s => .whileLoop c (s.attach e)
  | .forLoop init c u s => .forLoop init c u (s.attach e)
  | s => s

theorem Statement.frontier_attach (e : Statement) : ∀ s : Statement, s.isOpen = true →
    (s.attach e).frontier = s.frontier ++ .keyword .else_ :: e.frontier
  | .ifThen c s, _ => by
    rw [attach]
    split
    · rename_i hopen
      rw [frontier, frontier_attach e s hopen, frontier, List.append_assoc]
    · rw [frontier, frontier, List.append_assoc]
  | .ifElse c s e', h => by
    simp only [attach, frontier, frontier_attach e e' h, List.append_assoc, List.cons_append]
  | .whileLoop c s, h => by
    simp only [attach, frontier, frontier_attach e s h, List.append_assoc]
  | .forLoop init c u s, h => by
    simp only [attach, frontier, frontier_attach e s h, List.append_assoc]
  | .block _, h | .decl _ _, h | .ret _, h | .eval _, h => by cases h

theorem Statement.resolved_attach {e : Statement} (he : e.Resolved) :
    ∀ s : Statement, s.Resolved → (s.attach e).Resolved
  | .ifThen c s, h => by
    rw [attach]
    split
    · exact ⟨h.1, resolved_attach he s h.2⟩
    · rename_i hclosed
      exact ⟨h.1, h.2, by simpa using hclosed, he⟩
  | .ifElse c s e', h => ⟨h.1, h.2.1, h.2.2.1, resolved_attach he e' h.2.2.2⟩
  | .whileLoop c s, h => ⟨h.1, resolved_attach he s h.2⟩
  | .forLoop init c u s, h => ⟨h.1, h.2.1, h.2.2.1, resolved_attach he s h.2.2.2⟩
  | .block _, h | .decl _ _, h | .ret _, h | .eval _, h => h

mutual

theorem Statement.exists_resolved :
    ∀ s : Statement, ∃ s' : Statement, s'.Resolved ∧ s'.frontier = s.frontier
  | .block body => by
    obtain ⟨body', hres, hfr⟩ := exists_bodyResolved body
    exact ⟨.block body', hres, by simp only [Statement.frontier, hfr]⟩
  | .decl x e => by
    obtain ⟨e', hres, hfr⟩ := e.exists_resolved
    exact ⟨.decl x e', hres, by simp only [Statement.frontier, declFrontier, hfr]⟩
  | .ret e => by
    obtain ⟨e', hres, hfr⟩ := e.exists_resolved
    exact ⟨.ret e', hres, by simp only [Statement.frontier, hfr]⟩
  | .eval e => by
    obtain ⟨e', hres, hfr⟩ := e.exists_resolved
    exact ⟨.eval e', hres, by simp only [Statement.frontier, hfr]⟩
  | .ifThen c s => by
    obtain ⟨c', hcres, hcfr⟩ := c.exists_resolved
    obtain ⟨s', hres, hfr⟩ := Statement.exists_resolved s
    exact ⟨.ifThen c' s', ⟨hcres, hres⟩, by simp only [Statement.frontier, headFrontier, hcfr, hfr]⟩
  | .ifElse c s e => by
    obtain ⟨c', hcres, hcfr⟩ := c.exists_resolved
    obtain ⟨s', hsres, hsfr⟩ := Statement.exists_resolved s
    obtain ⟨e', heres, hefr⟩ := Statement.exists_resolved e
    by_cases hopen : s'.isOpen = true
    · refine ⟨.ifThen c' (s'.attach e'), ⟨hcres, Statement.resolved_attach heres s' hsres⟩, ?_⟩
      simp only [Statement.frontier, headFrontier, Statement.frontier_attach e' s' hopen, hcfr,
        hsfr, hefr]
    · refine ⟨.ifElse c' s' e', ⟨hcres, hsres, by simpa using hopen, heres⟩, ?_⟩
      simp only [Statement.frontier, headFrontier, hcfr, hsfr, hefr]
  | .whileLoop c s => by
    obtain ⟨c', hcres, hcfr⟩ := c.exists_resolved
    obtain ⟨s', hres, hfr⟩ := Statement.exists_resolved s
    exact ⟨.whileLoop c' s', ⟨hcres, hres⟩, by
      simp only [Statement.frontier, headFrontier, hcfr, hfr]⟩
  | .forLoop init c u s => by
    obtain ⟨init', hires, hifr⟩ := init.exists_resolved
    obtain ⟨c', hcres, hcfr⟩ := c.exists_resolved
    obtain ⟨u', hures, hufr⟩ := u.exists_resolved
    obtain ⟨s', hres, hfr⟩ := Statement.exists_resolved s
    exact ⟨.forLoop init' c' u' s', ⟨hires, hcres, hures, hres⟩, by
      simp only [Statement.frontier, forFrontier, hifr, hcfr, hufr, hfr]⟩

theorem exists_bodyResolved : ∀ ss : List Statement, ∃ ss' : List Statement, BodyResolved ss' ∧
    bodyFrontier ss' = bodyFrontier ss
  | [] => ⟨[], trivial, rfl⟩
  | s :: ss => by
    obtain ⟨s', hsres, hsfr⟩ := Statement.exists_resolved s
    obtain ⟨ss', hres, hfr⟩ := exists_bodyResolved ss
    exact ⟨s' :: ss', ⟨hsres, hres⟩, by simp only [bodyFrontier, hsfr, hfr]⟩

end

theorem Item.exists_resolved (i : Item) :
    ∃ i' : Item, i'.Resolved ∧ i'.frontier = i.frontier := by
  cases i with
  | function f params body =>
    obtain ⟨body', hres, hfr⟩ := exists_bodyResolved body
    exact ⟨.function f params body', hres, by simp only [Item.frontier, hfr]⟩
  | statement s hint =>
    obtain ⟨s', hres, hfr⟩ := s.exists_resolved
    exact ⟨.statement s' (by rwa [hfr]), hres, hfr⟩

theorem exists_itemsResolved : ∀ is : List Item, ∃ is' : List Item, (∀ i ∈ is', i.Resolved) ∧
    is'.flatMap Item.frontier = is.flatMap Item.frontier
  | [] => ⟨[], by simp, rfl⟩
  | i :: is => by
    obtain ⟨i', hires, hifr⟩ := i.exists_resolved
    obtain ⟨is', hres, hfr⟩ := exists_itemsResolved is
    refine ⟨i' :: is', by simpa [hires] using hres, ?_⟩
    rw [List.flatMap_cons, List.flatMap_cons, hifr, hfr]

end Grammar

/-- Every derivation has a resolved one with its frontier. -/
theorem Derivation.exists_resolved (d : Derivation) :
    ∃ d' : Derivation, d'.Resolved ∧ d'.frontier = d.frontier := by
  obtain ⟨is, hres, hfr⟩ := Grammar.exists_itemsResolved d.items
  exact ⟨⟨is⟩, hres, hfr⟩

end MiniC
