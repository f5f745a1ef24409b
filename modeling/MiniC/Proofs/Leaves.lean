import MiniC.Proofs.Derivation

/-!
# What a program is made of

The leaves of an expression are its numbers, strings and names, as the kinds of tokens they are
read from, and its callees are the names it calls. The parts of a statement are its expressions and
the names it declares.

A tree has no leaf that its derivation does not derive: grouping a chain only arranges its operands
(`Grouping.leaves_group_subset`), and every other part of a tree stands in its production.
-/

namespace MiniC

namespace Expr

mutual

/-- The numbers, strings and names of the expression. -/
def leaves : Expr → List Kind
  | .literal n => [.number n]
  | .string raw => [.string raw]
  | .variable x => [.ident x]
  | .assign x v => .ident x :: v.leaves
  | .binary _ l r => l.leaves ++ r.leaves
  | .call f args => .ident f :: argLeaves args

def argLeaves : List Expr → List Kind
  | [] => []
  | e :: es => e.leaves ++ argLeaves es

end

mutual

/-- The names the expression calls. -/
def callees : Expr → List String
  | .literal _ | .string _ | .variable _ => []
  | .assign _ v => v.callees
  | .binary _ l r => l.callees ++ r.callees
  | .call f args => f :: argCallees args

def argCallees : List Expr → List String
  | [] => []
  | e :: es => e.callees ++ argCallees es

end

end Expr

/-- A name that is declared, or an expression. -/
inductive Part
  | name (x : String)
  | expr (e : Expr)

namespace Part

def leaves : Part → List Kind
  | .name x => [.ident x]
  | .expr e => e.leaves

def callees : Part → List String
  | .name _ => []
  | .expr e => e.callees

end Part

namespace Stmt

mutual

/-- The declared names and the expressions of the statement, in order. -/
def parts : Stmt → List Part
  | .decl x e => [.name x, .expr e]
  | .eval e | .ret e => [.expr e]
  | .ifElse c t e => .expr c :: (t.parts ++ optionParts e)
  | .whileLoop c b => .expr c :: b.parts
  | .forLoop init c u b => optionParts init ++ .expr c :: .expr u :: b.parts
  | .block body => bodyParts body
  | .function f params body => .name f :: (params.map .name ++ bodyParts body)

def optionParts : Option Stmt → List Part
  | none => []
  | some s => s.parts

def bodyParts : List Stmt → List Part
  | [] => []
  | s :: ss => s.parts ++ bodyParts ss

end

end Stmt

namespace Program

def parts (p : Program) : List Part := p.body.flatMap Stmt.parts

/-- The numbers, strings and names of the program. -/
def leaves (p : Program) : List Kind := p.parts.flatMap Part.leaves

/-- The names the program calls. -/
def callees (p : Program) : List String := p.parts.flatMap Part.callees

end Program

/-! ## Leaves of a tree -/

theorem Grouping.leaves_group_subset (g : Grouping) (e : Expr) (links : List Expr.Link) :
    (g.group e links).leaves ⊆ e.leaves ++ links.flatMap (fun l => l.operand.leaves) := by
  fun_induction Grouping.group g e links with
  | case1 e => simp
  | case2 e l ls ihl ihr =>
    rw [← weakest_append g l ls, List.flatMap_append, List.flatMap_cons]
    intro k hk
    rcases List.mem_append.1 hk with hk | hk
    · rcases List.mem_append.1 (ihl hk) with hk | hk <;> simp only [List.mem_append, hk, true_or,
        or_true]
    · rcases List.mem_append.1 (ihr hk) with hk | hk <;> simp only [List.mem_append, hk, true_or,
        or_true]

namespace Grammar

variable (g : Grouping)

mutual

theorem Operand.leaves_subset : ∀ o : Operand, (o.tree g).leaves ⊆ o.frontier
  | .number _ | .string _ | .name _ => List.Subset.refl _
  | .call f args => by
    have hargs := (leaves_argTrees_subset args).1
    intro k hk
    rcases List.mem_cons.1 hk with rfl | hk
    · exact List.mem_cons_self
    · simp [Operand.frontier, hargs hk]
  | .assign x v => by
    have hv := Chain.leaves_subset v
    intro k hk
    rcases List.mem_cons.1 hk with rfl | hk
    · exact List.mem_cons_self
    · simp [Operand.frontier, hv hk]
  | .group c => by
    have hc := Chain.leaves_subset c
    intro k hk
    simp [Operand.frontier, hc hk]

theorem Chain.leaves_subset : ∀ c : Chain, (c.tree g).leaves ⊆ c.frontier
  | .last o => Operand.leaves_subset o
  | .more o op c => by
    have ho := Operand.leaves_subset o
    have hc := Chain.leaves_links_subset op c
    intro k hk
    rcases List.mem_append.1 (g.leaves_group_subset _ _ hk) with hk | hk
    · simp [Chain.frontier, ho hk]
    · simp [Chain.frontier, hc hk]

theorem Chain.leaves_links_subset (op : BinOp) : ∀ c : Chain,
    (c.links g op).flatMap (fun l => l.operand.leaves) ⊆ c.frontier
  | .last o => by
    have ho := Operand.leaves_subset o
    simpa [Chain.links, Chain.frontier] using ho
  | .more o next c => by
    have ho := Operand.leaves_subset o
    have hc := Chain.leaves_links_subset next c
    intro k hk
    rw [Chain.links, List.flatMap_cons, List.mem_append] at hk
    rcases hk with hk | hk
    · simp [Chain.frontier, ho hk]
    · simp [Chain.frontier, hc hk]

theorem leaves_argTrees_subset : ∀ cs : List Chain,
    Expr.argLeaves (argTrees g cs) ⊆ argFrontier cs ∧
      Expr.argLeaves (argTrees g cs) ⊆ moreArgFrontier cs
  | [] => ⟨List.Subset.refl _, List.Subset.refl _⟩
  | c :: cs => by
    have hc := Chain.leaves_subset c
    have hcs := (leaves_argTrees_subset cs).2
    have hall : Expr.argLeaves (argTrees g (c :: cs)) ⊆ argFrontier (c :: cs) := by
      intro k hk
      rcases List.mem_append.1 hk with hk | hk
      · simp [argFrontier, hc hk]
      · simp [argFrontier, hcs hk]
    exact ⟨hall, fun k hk => List.mem_cons_of_mem _ (hall hk)⟩

end

theorem ForInit.leaves_subset (init : ForInit) :
    ∀ part ∈ Stmt.optionParts init.tree, part.leaves ⊆ init.frontier := by
  cases init with
  | none => simp [ForInit.tree, Stmt.optionParts]
  | decl x e =>
    have he := e.leaves_subset .standard
    simp only [ForInit.tree, Stmt.optionParts, Stmt.parts, List.forall_mem_cons]
    refine ⟨by simp [Part.leaves, ForInit.frontier, declFrontier], fun k hk => ?_, by simp⟩
    simp [ForInit.frontier, declFrontier, he hk]
  | eval e =>
    have he := e.leaves_subset .standard
    simp only [ForInit.tree, Stmt.optionParts, Stmt.parts, List.forall_mem_cons]
    refine ⟨fun k hk => ?_, by simp⟩
    simp [ForInit.frontier, he hk]

mutual

theorem Statement.leaves_subset : ∀ s : Statement, ∀ part ∈ s.tree.parts, part.leaves ⊆ s.frontier
  | .block body, part, hpart, k, hk => by
    have hbody := leaves_bodyTrees_subset body part hpart hk
    simp [Statement.frontier, hbody]
  | .decl x e, part, hpart, k, hk => by
    have he := e.leaves_subset .standard
    simp only [Statement.tree, Stmt.parts, List.mem_cons, List.not_mem_nil, or_false] at hpart
    rcases hpart with rfl | rfl
    · simp [Statement.frontier, declFrontier, List.mem_singleton.1 hk]
    · simp [Statement.frontier, declFrontier, he hk]
  | .ret e, part, hpart, k, hk | .eval e, part, hpart, k, hk => by
    have he := e.leaves_subset .standard
    obtain rfl := List.mem_singleton.1 hpart
    simp [Statement.frontier, he hk]
  | .ifThen c s, part, hpart, k, hk => by
    have hc := c.leaves_subset .standard
    simp only [Statement.tree, Stmt.parts, Stmt.optionParts, List.append_nil, List.mem_cons]
      at hpart
    rcases hpart with rfl | hpart
    · simp [Statement.frontier, headFrontier, hc hk]
    · simp [Statement.frontier, Statement.leaves_subset s part hpart hk]
  | .ifElse c s e, part, hpart, k, hk => by
    have hc := c.leaves_subset .standard
    simp only [Statement.tree, Stmt.parts, Stmt.optionParts, List.mem_cons, List.mem_append]
      at hpart
    rcases hpart with rfl | hpart | hpart
    · simp [Statement.frontier, headFrontier, hc hk]
    · simp [Statement.frontier, Statement.leaves_subset s part hpart hk]
    · simp [Statement.frontier, Statement.leaves_subset e part hpart hk]
  | .whileLoop c s, part, hpart, k, hk => by
    have hc := c.leaves_subset .standard
    rcases List.mem_cons.1 hpart with rfl | hpart
    · simp [Statement.frontier, headFrontier, hc hk]
    · simp [Statement.frontier, Statement.leaves_subset s part hpart hk]
  | .forLoop init c u s, part, hpart, k, hk => by
    have hc := c.leaves_subset .standard
    have hu := u.leaves_subset .standard
    simp only [Statement.tree, Stmt.parts, List.mem_cons, List.mem_append] at hpart
    rcases hpart with hpart | rfl | rfl | hpart
    · simp [Statement.frontier, forFrontier, init.leaves_subset part hpart hk]
    · simp [Statement.frontier, forFrontier, hc hk]
    · simp [Statement.frontier, forFrontier, hu hk]
    · simp [Statement.frontier, Statement.leaves_subset s part hpart hk]

theorem leaves_bodyTrees_subset : ∀ ss : List Statement,
    ∀ part ∈ Stmt.bodyParts (bodyTrees ss), part.leaves ⊆ bodyFrontier ss
  | [], part, hpart, _, _ => by cases hpart
  | s :: ss, part, hpart, k, hk => by
    rcases List.mem_append.1 hpart with hpart | hpart
    · simp [bodyFrontier, Statement.leaves_subset s part hpart hk]
    · simp [bodyFrontier, leaves_bodyTrees_subset ss part hpart hk]

end

theorem mem_paramFrontier {p : Param} : ∀ {ps : List Param}, p ∈ ps →
    Kind.ident p.name ∈ paramFrontier ps ∧ Kind.ident p.name ∈ moreParamFrontier ps
  | q :: ps, h => by
    have hall : Kind.ident p.name ∈ paramFrontier (q :: ps) := by
      rcases List.mem_cons.1 h with rfl | h
      · by_cases htyped : p.typed <;> simp [paramFrontier, Param.frontier, htyped]
      · simp [paramFrontier, (mem_paramFrontier h).2]
    exact ⟨hall, List.mem_cons_of_mem _ hall⟩

theorem Item.leaves_subset (i : Item) : ∀ part ∈ i.tree.parts, part.leaves ⊆ i.frontier := by
  cases i with
  | statement s hint => exact s.leaves_subset
  | function f params body =>
    intro part hpart k hk
    simp only [Item.tree, Stmt.parts, List.mem_cons, List.mem_append, List.mem_map] at hpart
    rcases hpart with rfl | ⟨x, ⟨p, hp, rfl⟩, rfl⟩ | hpart
    · simp [Item.frontier, functionFrontier, List.mem_singleton.1 hk]
    · simp [Item.frontier, functionFrontier, List.mem_singleton.1 hk, (mem_paramFrontier hp).1]
    · simp [Item.frontier, leaves_bodyTrees_subset body part hpart hk]

end Grammar

/-- Each leaf of a derived program has been derived. -/
theorem Derivation.leaves_subset (d : Derivation) : d.program.leaves ⊆ d.frontier := by
  intro k hk
  obtain ⟨part, hpart, hk⟩ := List.mem_flatMap.1 hk
  obtain ⟨s, hs, hpart⟩ := List.mem_flatMap.1 hpart
  obtain ⟨i, hi, rfl⟩ := List.mem_map.1 hs
  exact List.mem_flatMap.2 ⟨i, hi, i.leaves_subset part hpart hk⟩

end MiniC
