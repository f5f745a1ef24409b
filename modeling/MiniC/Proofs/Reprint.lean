import MiniC.Proofs.ChainReading
import MiniC.Proofs.WrittenExpr

/-!
# Derivations of written programs

A derivation of a program is turned into one of its text by `reprint`: each expression gets the
derivation of its own text, and parameters have no type. All else stays, so the `else`s belong to
the same `if`s (`Statement.resolved_reprint`), and the tree is the old one with its strings as they
are written (`Statement.tree_reprint`). A program with a function `main` ends in a call of it.
-/

namespace MiniC

open Grammar

namespace Stmt

mutual

/-- The statement with its strings as they are written. -/
def quoteStrings : Stmt → Stmt
  | .decl x e => .decl x e.quoteStrings
  | .eval e => .eval e.quoteStrings
  | .ret e => .ret e.quoteStrings
  | .ifElse c t e => .ifElse c.quoteStrings t.quoteStrings (quoteOption e)
  | .whileLoop c b => .whileLoop c.quoteStrings b.quoteStrings
  | .forLoop init c u b =>
    .forLoop (quoteOption init) c.quoteStrings u.quoteStrings b.quoteStrings
  | .block body => .block (quoteAll body)
  | .function f params body => .function f params (quoteAll body)

def quoteOption : Option Stmt → Option Stmt
  | none => none
  | some s => some s.quoteStrings

def quoteAll : List Stmt → List Stmt
  | [] => []
  | s :: ss => s.quoteStrings :: quoteAll ss

end

end Stmt

namespace Grammar

/-! ## Derivations of written statements -/

def Chain.reprint (c : Chain) : Chain := .last c.expr.written

theorem Chain.expr_reprint (c : Chain) : c.reprint.expr = c.expr.quoteStrings :=
  Expr.tree_written .standard c.expr

theorem Chain.resolved_reprint (c : Chain) : c.reprint.Resolved := Expr.resolved_written c.expr

def ForInit.reprint : ForInit → ForInit
  | .none => .none
  | .decl x e => .decl x e.reprint
  | .eval e => .eval e.reprint

theorem ForInit.tree_reprint (init : ForInit) :
    init.reprint.tree = Stmt.quoteOption init.tree := by
  cases init with
  | none => rfl
  | decl x e | eval e =>
    simp only [ForInit.reprint, ForInit.tree, Chain.expr_reprint, Stmt.quoteOption,
      Stmt.quoteStrings]

theorem ForInit.resolved_reprint (init : ForInit) : init.reprint.Resolved := by
  cases init with
  | none => trivial
  | decl x e | eval e => exact e.resolved_reprint

mutual

/-- How the text of the derived statement is derived. -/
def Statement.reprint : Statement → Statement
  | .block body => .block (bodyReprint body)
  | .decl x e => .decl x e.reprint
  | .ret e => .ret e.reprint
  | .ifThen c s => .ifThen c.reprint s.reprint
  | .ifElse c s e => .ifElse c.reprint s.reprint e.reprint
  | .whileLoop c s => .whileLoop c.reprint s.reprint
  | .forLoop init c u s => .forLoop init.reprint c.reprint u.reprint s.reprint
  | .eval e => .eval e.reprint

def bodyReprint : List Statement → List Statement
  | [] => []
  | s :: ss => s.reprint :: bodyReprint ss

end

mutual

theorem Statement.tree_reprint : ∀ s : Statement, s.reprint.tree = s.tree.quoteStrings
  | .block body => by
    have hbody := bodyTrees_bodyReprint body
    simp only [Statement.reprint, Statement.tree, hbody, Stmt.quoteStrings]
  | .decl _ e | .ret e | .eval e => by
    simp only [Statement.reprint, Statement.tree, e.expr_reprint, Stmt.quoteStrings]
  | .ifThen c s | .whileLoop c s => by
    have hs := Statement.tree_reprint s
    simp only [Statement.reprint, Statement.tree, c.expr_reprint, hs, Stmt.quoteStrings,
      Stmt.quoteOption]
  | .ifElse c s e => by
    have hs := Statement.tree_reprint s
    have he := Statement.tree_reprint e
    simp only [Statement.reprint, Statement.tree, c.expr_reprint, hs, he, Stmt.quoteStrings,
      Stmt.quoteOption]
  | .forLoop init c u s => by
    have hs := Statement.tree_reprint s
    simp only [Statement.reprint, Statement.tree, init.tree_reprint, c.expr_reprint,
      u.expr_reprint, hs, Stmt.quoteStrings]

theorem bodyTrees_bodyReprint : ∀ ss : List Statement,
    bodyTrees (bodyReprint ss) = Stmt.quoteAll (bodyTrees ss)
  | [] => rfl
  | s :: ss => by
    have hs := Statement.tree_reprint s
    have hss := bodyTrees_bodyReprint ss
    simp only [bodyReprint, bodyTrees, hs, hss, Stmt.quoteAll]

end

theorem Statement.isOpen_reprint (s : Statement) : s.reprint.isOpen = s.isOpen := by
  fun_induction Statement.isOpen s with
  | case1 => rfl
  | case2 c s e ih => exact ih
  | case3 c s ih => exact ih
  | case4 init c u s ih => exact ih
  | case5 s hif helse hwhile hfor =>
    cases s with
    | ifThen c s => exact absurd rfl (hif c s)
    | ifElse c s e => exact absurd rfl (helse c s e)
    | whileLoop c s => exact absurd rfl (hwhile c s)
    | forLoop init c u s => exact absurd rfl (hfor init c u s)
    | _ => rfl

mutual

theorem Statement.resolved_reprint : ∀ s : Statement, s.Resolved → s.reprint.Resolved
  | .block body, h => resolved_bodyReprint body h
  | .decl _ e, _ | .ret e, _ | .eval e, _ => e.resolved_reprint
  | .ifThen c s, h | .whileLoop c s, h => ⟨c.resolved_reprint, Statement.resolved_reprint s h.2⟩
  | .ifElse c s e, ⟨_, hs, hopen, he⟩ =>
    ⟨c.resolved_reprint, Statement.resolved_reprint s hs, s.isOpen_reprint.trans hopen,
      Statement.resolved_reprint e he⟩
  | .forLoop init c u s, ⟨_, _, _, hs⟩ =>
    ⟨init.resolved_reprint, c.resolved_reprint, u.resolved_reprint,
      Statement.resolved_reprint s hs⟩

theorem resolved_bodyReprint : ∀ ss : List Statement, BodyResolved ss →
    BodyResolved (bodyReprint ss)
  | [], _ => trivial
  | s :: ss, h => ⟨Statement.resolved_reprint s h.1, resolved_bodyReprint ss h.2⟩

end

def Param.untyped (p : Param) : Param := ⟨false, p.name⟩

theorem Statement.head_reprint {s : Statement} (h : s.frontier.head? ≠ some (.keyword .int)) :
    s.reprint.frontier.head? ≠ some (.keyword .int) := by
  cases s with
  | decl x e => exact absurd rfl h
  | eval e =>
    obtain ⟨k, ks, hk, hstart⟩ := e.reprint.frontier_eq_cons
    rw [Statement.reprint, Statement.frontier, hk]
    rintro ⟨⟩
    exact hstart
  | _ => rintro ⟨⟩

/-- How the text of the derived item is derived. -/
def Item.reprint : Item → Item
  | .function f params body => .function f (params.map Param.untyped) (bodyReprint body)
  | .statement s noInt => .statement s.reprint (Statement.head_reprint noInt)

theorem Item.tree_reprint (i : Item) : i.reprint.tree = i.tree.quoteStrings := by
  cases i with
  | function f params body =>
    have hparams : (params.map Param.untyped).map Param.name = params.map Param.name := by
      rw [List.map_map]
      rfl
    simp only [Item.reprint, Item.tree, hparams, bodyTrees_bodyReprint, Stmt.quoteStrings]
  | statement s noInt => exact s.tree_reprint

theorem Item.resolved_reprint {i : Item} (h : i.Resolved) : i.reprint.Resolved := by
  cases i with
  | function f params body => exact resolved_bodyReprint body h
  | statement s noInt => exact s.resolved_reprint h

/-- The call that a written program with a function `main` ends in. -/
def mainCall : Item := .statement (.eval (.last (.call "main" []))) (by rintro ⟨⟩)

end Grammar

namespace Derivation

/-- How the text of the derived program is derived. -/
def reprint (d : Derivation) : Derivation :=
  ⟨d.items.map Item.reprint ++ if d.program.hasMain then [mainCall] else []⟩

theorem program_reprint (d : Derivation) : d.reprint.program =
    ⟨d.program.body.map Stmt.quoteStrings ++
      if d.program.hasMain then [.eval (.call "main" [])] else []⟩ := by
  have hitems : (d.items.map Item.reprint).map Item.tree =
      d.program.body.map Stmt.quoteStrings := by
    simp only [program, List.map_map]
    exact List.map_congr_left fun i _ => i.tree_reprint
  have hcall : (if d.program.hasMain then [mainCall] else []).map Item.tree =
      if d.program.hasMain then [.eval (.call "main" [])] else [] := by
    split <;> rfl
  rw [program, reprint, List.map_append, hitems, hcall]

theorem resolved_reprint {d : Derivation} (h : d.Resolved) : d.reprint.Resolved := by
  intro i hi
  rcases List.mem_append.1 hi with hi | hi
  · obtain ⟨j, hj, rfl⟩ := List.mem_map.1 hi
    exact Item.resolved_reprint (h j hj)
  · split at hi
    · rw [List.mem_singleton.1 hi]
      trivial
    · cases hi

end Derivation

end MiniC
