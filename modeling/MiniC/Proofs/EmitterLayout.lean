import MiniC.Proofs.JoinedSource

/-!
# Layout by an emitter

An emitter writes a program line by line, and enters and leaves levels as it goes. What it has
written in the end is the layout of the program at the depth where it stood (`emit_eq_layout`), and
it stands at that depth again, also behind an error.

`Emits` says this of a part of the work. It holds of one line, of two parts in a row (`Emits.seq`),
and one level deeper if the level is left again (`Emits.nested`), and so of each function of the
emitter, by the recursion that they follow. The layout has one function for a statement in all of
its places, where the emitter has three, so the layout of a body is first told from that of a
statement on its own (`emit_body`, `emit_elseBody`).
-/

namespace MiniC

namespace Emission

/-- What is reported of an emission: its error, if it has one. -/
def result (e : Emission) : Except LayoutError Unit :=
  match e.error with
  | none => .ok ()
  | some error => .error error

theorem append_ofLines_nil (a : Emission) : a ++ ofLines [] = a := by
  rcases a with ⟨ls, _ | error⟩
  · exact congrArg (Emission.mk · none) (List.append_nil ls)
  · rfl

end Emission

open Emission

/-- At every depth, what is done writes the lines of the layout at that depth below those that are
there, reports its error, and leaves the depth as it was. -/
def Emits (x : Emit) (layout : ℕ → Emission) : Prop :=
  ∀ e : Emitter, x.run.run e =
    ((layout e.depth).result, ⟨e.lines ++ (layout e.depth).lines, e.depth⟩)

namespace Emits

variable {x y : Emit} {a b : ℕ → Emission}

theorem of_eq (h : Emits x a) (hab : ∀ d, a d = b d) : Emits x b :=
  funext hab ▸ h

theorem line (text : String) : Emits (Emitter.line text) fun d => ofLines [⟨d, text⟩] :=
  fun _ => rfl

theorem nothing : Emits (pure ()) fun _ => ofLines [] := by
  intro e
  rw [ofLines, List.append_nil]
  rfl

theorem failing (error : LayoutError) : Emits (throw error) fun _ => ⟨[], some error⟩ := by
  intro e
  rw [List.append_nil]
  rfl

/-- Nothing is done behind an error. -/
theorem seq (hx : Emits x a) (hy : Emits y b) : Emits (do x; y) fun d => a d ++ b d := by
  intro e
  dsimp only
  rcases ha : a e.depth with ⟨ls, _ | error⟩
  · have hdone : x.run.run e = (.ok (), ⟨e.lines ++ ls, e.depth⟩) := by rw [hx e, ha]; rfl
    have hrun : (do x; y : Emit).run.run e = y.run.run ⟨e.lines ++ ls, e.depth⟩ := by
      rw [ExceptT.run_bind, StateT.run_bind, hdone]
      rfl
    have hsum : a e.depth ++ b e.depth = ⟨ls ++ (b e.depth).lines, (b e.depth).error⟩ := by
      rw [ha]
      rfl
    rw [hrun, hy, ← ha, hsum, List.append_assoc]
    rfl
  · have hfails : x.run.run e = (.error error, ⟨e.lines ++ ls, e.depth⟩) := by rw [hx e, ha]; rfl
    rw [ExceptT.run_bind, StateT.run_bind, hfails]
    rfl

/-- The level that is entered is the level that is left. -/
theorem nested (hx : Emits x a) : Emits (Emitter.nested x) fun d => a (d + 1) := by
  intro e
  have hinner := hx ⟨e.lines, e.depth + 1⟩
  have hrun : (Emitter.nested x).run.run e =
      ((x.run.run ⟨e.lines, e.depth + 1⟩).1,
        { (x.run.run ⟨e.lines, e.depth + 1⟩).2 with
          depth := (x.run.run ⟨e.lines, e.depth + 1⟩).2.depth - 1 }) := rfl
  rw [hrun, hinner]
  rfl

end Emits

/-! ## Statements -/

namespace Stmt

/-- Below a header, a statement that is not a block is one level deeper on lines of its own. -/
theorem emit_body {s : Stmt} (h : s.isBlock = false) (header : String) (depth : ℕ) :
    s.emit (.body header) depth = ofLines [⟨depth, header⟩] ++ s.emit .own (depth + 1) := by
  cases s with
  | block ss => cases h
  | decl | eval | ret | function => rfl
  | ifElse c t e =>
    rw [emit, emit, append_assoc, append_assoc]
    rfl
  | whileLoop c b =>
    rw [emit, emit, append_assoc, append_assoc]
    rfl
  | forLoop init c u b =>
    rw [emit, emit]
    cases forStart init with
    | error error => rfl
    | ok start =>
      dsimp only
      rw [append_assoc, append_assoc]
      rfl

theorem emit_body_block (ss : List Stmt) (header : String) (depth : ℕ) :
    (block ss).emit (.body header) depth =
      ofLines [⟨depth, header ++ " \x7b"⟩] ++ emitAll (depth + 1) ss :=
  append_ofLines_nil _

/-- Behind an `else`, what is not an `if` is a body that is closed. -/
theorem emit_elseBody {s : Stmt} (h : ∀ c t e, s ≠ .ifElse c t e) (word : String) (depth : ℕ) :
    s.emit (.elseBody word) depth = s.emit (.body word) depth ++ closing depth s := by
  cases s with
  | ifElse c t e => exact absurd rfl (h c t e)
  | block ss =>
    rw [emit_body_block]
    rfl
  | _ => exact (append_ofLines_nil _).symm

end Stmt

namespace Emitter

open Stmt

theorem emits_closeBody (s : Stmt) : Emits (closeBody s) (closing · s) := by
  unfold closeBody closing
  split
  · exact .line _
  · exact .nothing

mutual

theorem emits_statement : ∀ s : Stmt, Emits (statement s) (s.emit .own)
  | .decl x e | .eval e | .ret e => by
    rw [statement]
    exact .line _
  | .ifElse c t e => by
    rw [statement]
    exact emits_ifElse "" c t e
  | .whileLoop c b => by
    rw [statement]
    exact (emits_body _ b).seq (emits_closeBody b)
  | .forLoop init c u b => by
    rw [statement]
    unfold Stmt.emit
    cases forStart init with
    | error error => exact .failing error
    | ok start => exact (emits_body _ b).seq (emits_closeBody b)
  | .block ss => by
    rw [statement]
    exact ((Emits.line _).seq ((emits_contents ss).seq (.line _))).of_eq
      fun d => (append_assoc _ _ _).symm
  | .function f params ss => by
    rw [statement]
    exact .failing _
termination_by s => 3 * sizeOf s

theorem emits_ifElse (word : String) (c : Expr) (t : Stmt) (e : Option Stmt) :
    Emits (ifElse word c t e) fun d =>
      t.emit (.body (word ++ "if (" ++ c.script ++ ")")) d ++ emitElse t d e := by
  rw [ifElse]
  exact (emits_body _ t).seq (emits_elseBranch t e)
termination_by 3 * (sizeOf t + sizeOf e) + 2

theorem emits_elseBranch (t : Stmt) : ∀ e : Option Stmt, Emits (elseBranch t e) (emitElse t · e)
  | none => by
    rw [elseBranch]
    exact emits_closeBody t
  | some e => by
    by_cases hif : ∃ c t' e', e = .ifElse c t' e'
    · obtain ⟨c, t', e', rfl⟩ := hif
      rw [elseBranch]
      exact emits_ifElse _ c t' e'
    · have hne : ∀ c t' e', e ≠ .ifElse c t' e' := fun c t' e' h => hif ⟨c, t', e', h⟩
      rw [elseBranch]
      · exact ((emits_body _ e).seq (emits_closeBody e)).of_eq fun d =>
          (emit_elseBody hne _ d).symm
      · exact hne
termination_by e => 3 * sizeOf e + 1

theorem emits_body (header : String) (s : Stmt) :
    Emits (body header s) (s.emit (.body header)) := by
  by_cases hblock : ∃ ss, s = .block ss
  · obtain ⟨ss, rfl⟩ := hblock
    rw [body]
    exact ((Emits.line _).seq (emits_contents ss)).of_eq fun d =>
      (emit_body_block ss header d).symm
  · have hne : ∀ ss, s ≠ .block ss := fun ss h => hblock ⟨ss, h⟩
    have hs : s.isBlock = false := by
      cases s with
      | block ss => exact absurd rfl (hne ss)
      | _ => rfl
    rw [body]
    · exact ((Emits.line _).seq (emits_statement s).nested).of_eq fun d =>
        (emit_body hs header d).symm
    · exact hne
termination_by 3 * sizeOf s + 1

theorem emits_contents (ss : List Stmt) : Emits (contents ss) fun d => emitAll (d + 1) ss := by
  rw [contents]
  exact (emits_statements ss).nested
termination_by 3 * sizeOf ss + 1

theorem emits_statements : ∀ ss : List Stmt, Emits (statements ss) (emitAll · ss)
  | [] => by
    rw [statements]
    exact .nothing
  | s :: ss => by
    rw [statements]
    exact (emits_statement s).seq (emits_statements ss)
termination_by ss => 3 * sizeOf ss

end

theorem emits_item (s : Stmt) : Emits (item s) (s.emitItem ·) := by
  cases s with
  | function f params ss =>
    exact ((Emits.line _).seq ((emits_contents ss).seq (.line _))).of_eq
      fun d => (append_assoc _ _ _).symm
  | _ => exact emits_statement _

theorem emits_items (ss : List Stmt) : Emits (ss.forM item) (Program.emitItems · ss) := by
  induction ss with
  | nil => exact .nothing
  | cons s ss ih => exact (emits_item s).seq ih

theorem emits_program (p : Program) : Emits (program p) (p.emit ·) := by
  have hmain : Emits (if p.hasMain then line "main();" else pure ()) fun d =>
      ofLines (if p.hasMain then [⟨d, "main();"⟩] else []) := by
    cases p.hasMain
    · exact .nothing
    · exact .line _
  exact (emits_items p.body).seq hmain

/-- An emitter writes the lines of a program at its own depth below what it has, and then stands at
that depth again. -/
theorem emit_eq_layout (e : Emitter) (p : Program) :
    e.emit p = (⟨e.lines ++ (p.emit e.depth).lines, e.depth⟩, (p.emit e.depth).result) := by
  rw [emit, emits_program p e]

theorem lines_empty_emit (p : Program) : (empty.emit p).1.lines = (p.emit 0).lines := by
  rw [emit_eq_layout]
  rfl

theorem result_empty_emit (p : Program) : (empty.emit p).2 = (p.emit 0).result := by
  rw [emit_eq_layout]
  rfl

/-- The text of a program is that of a new emitter behind it. -/
theorem generate_eq_text (p : Program) :
    p.generate = (empty.emit p).2.map fun _ => (empty.emit p).1.text := by
  rw [result_empty_emit, text, lines_empty_emit, Program.generate, result]
  cases (p.emit 0).error <;> rfl

end Emitter

end MiniC
