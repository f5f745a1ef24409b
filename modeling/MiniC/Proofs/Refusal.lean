import MiniC.Proofs.LayoutTotal

/-!
# What cannot be laid out

The statements of a program in pre-order, with what each is for the one around it, tell whether it
has a layout: it has none if a function stands below an item, or a `for` starts with anything but a
declaration or an expression. The error is about the first such statement.

Emissions one after the other fail with the first error among them (`Emission.error_append_or`), as
a list is searched from its front, so the error of a statement is the first fault in its nodes
(`Stmt.error_emit`).
-/

namespace MiniC

theorem Emission.error_append_or (a b : Emission) : (a ++ b).error = a.error.or b.error := by
  rcases a with ⟨ls, _ | e⟩ <;> rfl

namespace Stmt

open Emission

/-- What a statement is for the one around it. -/
inductive Position
  | item
  | inner
  /-- What a `for` starts with. -/
  | start
  deriving DecidableEq, Repr

structure Node where
  position : Position
  stmt : Stmt

mutual

/-- The statements below this one, in pre-order. -/
def nodesBelow : Stmt → List Node
  | .decl _ _ | .eval _ | .ret _ => []
  | .ifElse _ t e => ⟨.inner, t⟩ :: t.nodesBelow ++ optionNodes .inner e
  | .whileLoop _ b => ⟨.inner, b⟩ :: b.nodesBelow
  | .forLoop init _ _ b => optionNodes .start init ++ ⟨.inner, b⟩ :: b.nodesBelow
  | .block body | .function _ _ body => bodyNodes body

def optionNodes (position : Position) : Option Stmt → List Node
  | none => []
  | some s => ⟨position, s⟩ :: s.nodesBelow

def bodyNodes : List Stmt → List Node
  | [] => []
  | s :: ss => ⟨.inner, s⟩ :: s.nodesBelow ++ bodyNodes ss

end

def isFunction : Stmt → Bool
  | .function .. => true
  | _ => false

/-- Can a `for` start with the statement? -/
def isStart : Stmt → Bool
  | .decl .. | .eval _ => true
  | _ => false

/-- Is the statement a `for` with a start that it cannot have? -/
def startsOddly : Stmt → Bool
  | .forLoop (some init) _ _ _ => !init.isStart
  | _ => false

def Node.malformed : Node → Bool
  | ⟨.item, _⟩ => false
  | ⟨.inner, s⟩ => s.isFunction
  | ⟨.start, s⟩ => !s.isStart

/-- The error of the first malformed node. -/
def firstFault (ns : List Node) : Option LayoutError :=
  (ns.find? Node.malformed).map fun n => ⟨n.stmt.label⟩

theorem firstFault_append (ns ms : List Node) :
    firstFault (ns ++ ms) = (firstFault ns).or (firstFault ms) := by
  rw [firstFault, List.find?_append, firstFault, firstFault]
  cases ns.find? Node.malformed <;> rfl

theorem firstFault_start (init : Option Stmt) :
    firstFault (optionNodes .start init) =
      match forStart init with
      | .ok _ => none
      | .error error => some error := by
  rcases init with _ | s
  · rfl
  · cases s <;> rfl

mutual

theorem error_emit : ∀ (s : Stmt) (slot : Slot) (depth : Nat),
    (s.emit slot depth).error = firstFault (⟨.inner, s⟩ :: s.nodesBelow)
  | .decl _ _, _, _ | .eval _, _, _ | .ret _, _, _ | .function _ _ _, _, _ => rfl
  | .ifElse c t e, slot, depth => by
    rw [emit, error_append_or, error_append_or, error_emit t, error_emitElse t e]
    exact (firstFault_append (⟨.inner, t⟩ :: t.nodesBelow) (optionNodes .inner e)).symm
  | .whileLoop c b, slot, depth => by
    rw [emit, error_append_or, error_append_or, error_emit b]
    exact Option.or_none
  | .forLoop init c u b, slot, depth => by
    have hnodes : firstFault (⟨.inner, .forLoop init c u b⟩ :: (forLoop init c u b).nodesBelow) =
        (firstFault (optionNodes .start init)).or (firstFault (⟨.inner, b⟩ :: b.nodesBelow)) :=
      firstFault_append (optionNodes .start init) (⟨.inner, b⟩ :: b.nodesBelow)
    rw [hnodes, firstFault_start, emit]
    cases forStart init with
    | error error => rfl
    | ok start =>
      dsimp only
      rw [error_append_or, error_append_or, error_emit b]
      exact Option.or_none
  | .block body, slot, depth => by
    rw [emit, error_append_or, error_append_or, error_emitAll body]
    exact Option.or_none

theorem error_emitElse (t : Stmt) : ∀ (e : Option Stmt) (depth : Nat),
    (emitElse t depth e).error = firstFault (optionNodes .inner e)
  | none, _ => rfl
  | some e, depth => error_emit e _ depth

theorem error_emitAll : ∀ (ss : List Stmt) (depth : Nat),
    (emitAll depth ss).error = firstFault (bodyNodes ss)
  | [], _ => rfl
  | s :: ss, depth => by
    rw [emitAll, error_append_or, error_emit s, error_emitAll ss, ← firstFault_append]
    rfl

end

theorem error_emitItem (s : Stmt) (depth : Nat) :
    (s.emitItem depth).error = firstFault (⟨.item, s⟩ :: s.nodesBelow) := by
  cases s with
  | function f params body =>
    rw [emitItem, error_append_or, error_append_or, error_emitAll]
    exact Option.or_none
  | _ => exact error_emit _ .own depth

theorem not_isStart_eq_or (s : Stmt) : (!s.isStart) = (s.isFunction || !s.isStart) := by
  cases s <;> rfl

mutual

/-- Below a statement something is malformed if and only if a function stands there, or the
statement or one below it is a `for` with a start that it cannot have. -/
theorem any_malformed : ∀ s : Stmt, s.nodesBelow.any Node.malformed =
    (s.nodesBelow.any (·.stmt.isFunction) ||
      (s.startsOddly || s.nodesBelow.any (·.stmt.startsOddly)))
  | .decl _ _ | .eval _ | .ret _ => rfl
  | .ifElse c t e => by
    have ht := any_malformed t
    have he := any_malformed_option e
    simp only [nodesBelow, List.any_cons, List.any_append, startsOddly, Node.malformed, ht, he]
    ac_rfl
  | .whileLoop c b => by
    have hb := any_malformed b
    simp only [nodesBelow, List.any_cons, startsOddly, Node.malformed, hb]
    ac_rfl
  | .forLoop none c u b => by
    have hb := any_malformed b
    simp only [nodesBelow, optionNodes, List.nil_append, List.any_cons, startsOddly,
      Node.malformed, hb]
    ac_rfl
  | .forLoop (some init) c u b => by
    have hinit := any_malformed init
    have hb := any_malformed b
    simp only [nodesBelow, optionNodes, List.any_cons, List.any_append, startsOddly,
      Node.malformed, hinit, hb]
    -- a function is among the statements that a `for` cannot start with
    rw [not_isStart_eq_or init]
    ac_rfl
  | .block body => by
    simpa [nodesBelow, startsOddly] using any_malformed_body body
  | .function f params body => by
    simpa [nodesBelow, startsOddly] using any_malformed_body body

theorem any_malformed_option : ∀ e : Option Stmt, (optionNodes .inner e).any Node.malformed =
    ((optionNodes .inner e).any (·.stmt.isFunction) ||
      (optionNodes .inner e).any (·.stmt.startsOddly))
  | none => rfl
  | some s => by
    have hs := any_malformed s
    simp only [optionNodes, List.any_cons, Node.malformed, hs]
    ac_rfl

theorem any_malformed_body : ∀ ss : List Stmt, (bodyNodes ss).any Node.malformed =
    ((bodyNodes ss).any (·.stmt.isFunction) || (bodyNodes ss).any (·.stmt.startsOddly))
  | [] => rfl
  | s :: ss => by
    have hs := any_malformed s
    have hss := any_malformed_body ss
    simp only [bodyNodes, List.any_cons, List.any_append, Node.malformed, hs, hss]
    ac_rfl

end

end Stmt

namespace Program

open Stmt Emission

/-- The statements of the program in pre-order. -/
def nodes (p : Program) : List Node := p.body.flatMap fun s => ⟨.item, s⟩ :: s.nodesBelow

theorem error_emitItems (depth : Nat) (ss : List Stmt) :
    (emitItems depth ss).error = firstFault (nodes ⟨ss⟩) := by
  induction ss with
  | nil => rfl
  | cons s ss ih =>
    rw [emitItems, error_append_or, error_emitItem, ih, ← firstFault_append]
    rfl

theorem generate_eq_error {p : Program} {error : LayoutError} :
    p.generate = .error error ↔ firstFault p.nodes = some error := by
  have hemit : (p.emit 0).error = firstFault p.nodes := by
    rw [emit, error_append_or, error_emitItems]
    exact Option.or_none
  rw [generate, hemit]
  cases firstFault p.nodes <;> simp

theorem any_malformed_nodes (ss : List Stmt) : (nodes ⟨ss⟩).any Node.malformed =
    (ss.any (fun s => s.nodesBelow.any (·.stmt.isFunction)) ||
      (nodes ⟨ss⟩).any (·.stmt.startsOddly)) := by
  induction ss with
  | nil => rfl
  | cons s ss ih =>
    have hitem : Node.malformed ⟨.item, s⟩ = false := rfl
    simp only [nodes] at ih
    simp only [nodes, List.flatMap_cons, List.any_append, List.any_cons, hitem, any_malformed s, ih,
      Bool.false_or]
    ac_rfl

/-- A program has no layout if and only if a function stands below one of its items, or a `for` in
it starts with neither a declaration nor an expression. The error is about the first of these
statements in pre-order, by its label. -/
theorem generate_refuses_first (p : Program) :
    ((∃ error, p.generate = .error error) ↔
        (∃ s ∈ p.body, ∃ n ∈ s.nodesBelow, n.stmt.isFunction = true) ∨
          ∃ n ∈ p.nodes, n.stmt.startsOddly = true) ∧
      ∀ error, p.generate = .error error ↔
        ∃ before n after, p.nodes = before ++ n :: after ∧
          (∀ m ∈ before, m.malformed = false) ∧ n.malformed = true ∧ error = ⟨n.stmt.label⟩ := by
  constructor
  · have hany := any_malformed_nodes p.body
    rw [← Bool.coe_iff_coe] at hany
    simp only [Bool.or_eq_true, List.any_eq_true] at hany
    simp only [generate_eq_error, ← Option.isSome_iff_exists, firstFault, Option.isSome_map,
      List.find?_isSome]
    exact hany
  · intro error
    simp only [generate_eq_error, firstFault, Option.map_eq_some_iff, List.find?_eq_some_iff_append,
      Bool.not_eq_true']
    constructor
    · rintro ⟨n, ⟨hn, before, after, hnodes, hbefore⟩, rfl⟩
      exact ⟨before, n, after, hnodes, hbefore, hn, rfl⟩
    · rintro ⟨before, n, after, hnodes, hbefore, hn, rfl⟩
      exact ⟨n, ⟨hn, before, after, hnodes, hbefore⟩, rfl⟩

example : generate ⟨[.forLoop (some (.block [.function "f" [] []])) (.literal 1) (.literal 1)
    (.function "g" [] [])]⟩ = .error ⟨"Block"⟩ := rfl

end Program

end MiniC
