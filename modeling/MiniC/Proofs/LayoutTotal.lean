import MiniC.Pipeline
import MiniC.Proofs.Acceptance

/-!
# Every program that is read can be laid out

The layout refuses a function inside a statement, and a `for` that starts with something other than
a declaration or an expression. The grammar has no production for either, so the tree of a
derivation is laid out whole (`Statement.error_emit`), and a source fails to compile only where it
fails to be read.
-/

namespace MiniC

namespace Emission

theorem append_def (a b : Emission) : a ++ b = a.append b := rfl

theorem error_append {a b : Emission} (ha : a.error = none) : (a ++ b).error = b.error := by
  rw [append_def, append, ha]

theorem lines_append {a b : Emission} (ha : a.error = none) :
    (a ++ b).lines = a.lines ++ b.lines := by
  rw [append_def, append, ha]

theorem lines_append₃ {a b : Emission} (c : Emission) (ha : a.error = none)
    (hb : b.error = none) : (a ++ b ++ c).lines = a.lines ++ b.lines ++ c.lines := by
  rw [lines_append ((error_append ha).trans hb), lines_append ha]

end Emission

namespace Grammar

open Emission Stmt

theorem ForInit.exists_forStart (init : ForInit) : ∃ text, forStart init.tree = .ok text := by
  cases init <;> exact ⟨_, rfl⟩

theorem error_closing (depth : Nat) (body : Stmt) : (closing depth body).error = none := rfl

theorem error_line (depth : Nat) (slot : Slot) (text : String) :
    (slot.line depth text).error = none := rfl

mutual

/-- A derived statement has a layout wherever it stands. -/
theorem Statement.error_emit : ∀ (s : Statement) (slot : Slot) (depth : Nat),
    (s.tree.emit slot depth).error = none
  | .decl _ _, slot, depth | .ret _, slot, depth | .eval _, slot, depth => error_line depth slot _
  | .block body, slot, depth => by
    rw [Statement.tree, Stmt.emit, error_append, Emission.ofLines]
    rw [error_append (by rfl), error_emitAll body]
  | .whileLoop c s, slot, depth => by
    rw [Statement.tree, Stmt.emit, error_append, error_closing]
    rw [error_append (by rfl), Statement.error_emit s]
  | .forLoop init c u s, slot, depth => by
    obtain ⟨text, htext⟩ := init.exists_forStart
    simp only [Statement.tree, Stmt.emit, htext]
    rw [error_append, error_closing]
    rw [error_append (by rfl), Statement.error_emit s]
  | .ifThen c s, slot, depth => by
    rw [Statement.tree, Stmt.emit, error_append, emitElse, error_closing]
    rw [error_append (by rfl), Statement.error_emit s]
  | .ifElse c s e, slot, depth => by
    rw [Statement.tree, Stmt.emit, error_append, emitElse, Statement.error_emit e]
    rw [error_append (by rfl), Statement.error_emit s]

theorem error_emitAll : ∀ (ss : List Statement) (depth : Nat),
    (emitAll depth (bodyTrees ss)).error = none
  | [], _ => rfl
  | s :: ss, depth => by
    rw [bodyTrees, emitAll, error_append (Statement.error_emit s _ _), error_emitAll ss]

end

theorem Item.error_emitItem (i : Item) (depth : Nat) : (i.tree.emitItem depth).error = none := by
  cases i with
  | function f params body =>
    rw [Item.tree, emitItem, error_append, Emission.ofLines]
    rw [error_append (by rfl), error_emitAll body]
  | statement s hint =>
    have hemit := s.error_emit .own depth
    cases s <;> exact hemit

theorem error_emitItems (depth : Nat) : ∀ is : List Item,
    (Program.emitItems depth (is.map Item.tree)).error = none
  | [] => rfl
  | i :: is => by
    rw [List.map_cons, Program.emitItems, error_append (i.error_emitItem depth),
      error_emitItems depth is]

end Grammar

theorem Derivation.error_emit (d : Derivation) (depth : Nat) :
    (d.program.emit depth).error = none := by
  have h := Grammar.error_emitItems depth d.items
  exact (Emission.error_append h).trans rfl

namespace Program

theorem generate_eq_ok {p : Program} (h : (p.emit 0).error = none) :
    p.generate = .ok (Line.renderAll (p.emit 0).lines) := by
  simp only [generate, h]

theorem exists_generate_eq_ok {ts : List Token} {p : Program} (h : parse ts = .ok p) :
    ∃ text, p.generate = .ok text := by
  obtain ⟨d, -, -, rfl⟩ := parse_eq_ok_iff_exists_resolved.1 h
  exact ⟨_, generate_eq_ok (d.error_emit 0)⟩

end Program

/-- The diagnostic is the error of the first stage that cannot read the source. -/
def FailsToRead (source : String) (d : Diagnostic) : Prop :=
  (∃ e, tokenize source = .error e ∧ d = .lex e) ∨
    ∃ ts e, tokenize source = .ok ts ∧ Program.parse ts = .error e ∧ d = .parse e

theorem compile_eq_error_iff {source : String} {d : Diagnostic} :
    compile source = .error d ↔ FailsToRead source d := by
  unfold compile parseSource FailsToRead
  rcases hlex : tokenize source with e | ts
  · simp [Except.mapError, bind, Except.bind, eq_comm]
  · rcases hparse : Program.parse ts with e | p
    · simp [Except.mapError, bind, Except.bind, hparse, eq_comm]
    · obtain ⟨text, htext⟩ := Program.exists_generate_eq_ok hparse
      simp [Except.mapError, bind, Except.bind, hparse, htext]

theorem check_eq_error_iff {source : String} {d : Diagnostic} :
    check source = .error d ↔ compile source = .error d := by
  unfold check
  cases compile source <;> simp [Except.map]

theorem FailsToRead.exists_line {source : String} {d : Diagnostic} (h : FailsToRead source d) :
    ∃ line, d.line? = some line := by
  rcases h with ⟨e, -, rfl⟩ | ⟨ts, e, -, -, rfl⟩
  · exact ⟨_, rfl⟩
  · exact ⟨_, rfl⟩

/-- Every program that is read is written out, so a source compiles unless one of the two reading
stages fails, whose error is then the diagnostic and names a line. -/
theorem compile_fails_only_to_read :
    (∀ ts p, Program.parse ts = .ok p → ∃ text, p.generate = .ok text) ∧
      (∀ source d, compile source = .error d ↔ FailsToRead source d) ∧
      (∀ source d, check source = .error d ↔ FailsToRead source d) ∧
      ∀ source d, compile source = .error d → ∃ line, d.line? = some line := by
  refine ⟨fun ts p h => Program.exists_generate_eq_ok h, fun source d => compile_eq_error_iff,
    fun source d => check_eq_error_iff.trans compile_eq_error_iff, fun source d h => ?_⟩
  exact (compile_eq_error_iff.1 h).exists_line

/-- A `for` with a declaration is laid out, and a source that is read up to its end, where a
bracket is missing, fails on that line. -/
theorem compile_fails_only_to_read_open :
    (∃ text, Program.generate ⟨[.forLoop (some (.decl "i" (.literal 0))) (.variable "i")
      (.assign "i" (.literal 1)) (.block [])]⟩ = .ok text) ∧
    compile "f(1,\n2" = .error (.parse (.expected (.mark .rparen) ⟨.eof, 2⟩)) ∧
      ∃ line, (Diagnostic.parse (.expected (.mark .rparen) ⟨.eof, 2⟩)).line? = some line := by
  have hparse : Program.parse ([.keyword .for_, .mark .lparen, .keyword .int, .ident "i",
      .mark .assign, .number 0, .mark .semicolon, .ident "i", .mark .semicolon, .ident "i",
      .mark .assign, .number 1, .mark .rparen, .mark .lbrace, .mark .rbrace].map (⟨·, 1⟩)) =
      .ok ⟨[.forLoop (some (.decl "i" (.literal 0))) (.variable "i")
        (.assign "i" (.literal 1)) (.block [])]⟩ := by
    cbv
  have hcompile : compile "f(1,\n2" =
      .error (.parse (.expected (.mark .rparen) ⟨.eof, 2⟩)) := by
    cbv
  exact ⟨compile_fails_only_to_read.1 _ _ hparse, hcompile,
    compile_fails_only_to_read.2.2.2 _ _ hcompile⟩

end MiniC
