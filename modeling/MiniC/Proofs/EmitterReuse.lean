import MiniC.Proofs.EmitterLayout

/-!
# One emitter for many programs

An emitter that has written programs, some of them only up to an error, writes the next one as a
new emitter does. The depth at which it stands shows in the depth of the new lines and in nothing
else (`Program.emit_deeper`), and comes back after each program.

What a program leaves behind that cannot be laid out is told by putting another statement in the
place of the first one refused (`Stmt.exists_hole`): the line of that statement then comes right
behind the lines that were left.
-/

namespace MiniC

/-! ## Depth -/

/-- The line `n` levels deeper. -/
def Line.deeper (n : ℕ) (l : Line) : Line := { l with depth := l.depth + n }

namespace Emission

def deeper (n : ℕ) (e : Emission) : Emission := { e with lines := e.lines.map (Line.deeper n) }

theorem deeper_append (n : ℕ) (a b : Emission) : (a ++ b).deeper n = a.deeper n ++ b.deeper n := by
  rcases a with ⟨ls, _ | e⟩ <;> simp [append_def, append, deeper]

end Emission

namespace Stmt

open Emission

theorem Slot.lead_deeper (n depth : ℕ) (slot : Slot) :
    slot.lead (depth + n) = (slot.lead depth).map (Line.deeper n) := by
  cases slot <;> rfl

theorem Slot.ifLead_deeper (n depth : ℕ) (slot : Slot) :
    slot.ifLead (depth + n) = (slot.ifLead depth).map (Line.deeper n) := by
  cases slot <;> rfl

theorem Slot.inner_deeper (n depth : ℕ) (slot : Slot) :
    slot.inner (depth + n) = slot.inner depth + n := by
  cases slot with
  | own => rfl
  | body | elseBody => exact Nat.add_right_comm depth n 1

theorem Slot.ifInner_deeper (n depth : ℕ) (slot : Slot) :
    slot.ifInner (depth + n) = slot.ifInner depth + n := by
  cases slot with
  | own | elseBody => rfl
  | body => exact Nat.add_right_comm depth n 1

theorem Slot.line_deeper (n depth : ℕ) (slot : Slot) (text : String) :
    slot.line (depth + n) text = (slot.line depth text).deeper n := by
  rw [Slot.line, Slot.lead_deeper, Slot.inner_deeper]
  simp [Slot.line, ofLines, deeper, Line.deeper]

theorem closing_deeper (n depth : ℕ) (body : Stmt) :
    closing (depth + n) body = (closing depth body).deeper n := by
  unfold closing
  split <;> rfl

mutual

theorem emit_deeper (n : ℕ) : ∀ (s : Stmt) (slot : Slot) (depth : ℕ),
    s.emit slot (depth + n) = (s.emit slot depth).deeper n
  | .decl _ _, slot, depth | .eval _, slot, depth | .ret _, slot, depth =>
    slot.line_deeper n depth _
  | .ifElse c t e, slot, depth => by
    rw [emit, emit, slot.ifInner_deeper, slot.ifLead_deeper, emit_deeper n t,
      emitElse_deeper n t e, deeper_append, deeper_append]
    rfl
  | .whileLoop c b, slot, depth => by
    rw [emit, emit, slot.inner_deeper, slot.lead_deeper, emit_deeper n b, closing_deeper,
      deeper_append, deeper_append]
    rfl
  | .forLoop init c u b, slot, depth => by
    rw [emit, emit, slot.inner_deeper, slot.lead_deeper]
    cases forStart init with
    | error error => rfl
    | ok start =>
      dsimp only
      rw [emit_deeper n b, closing_deeper, deeper_append, deeper_append]
      rfl
  | .block ss, slot, depth => by
    rw [emit, emit, Nat.add_right_comm, emitAll_deeper n ss, deeper_append, deeper_append]
    cases slot <;> rfl
  | .function _ _ _, slot, depth => by
    rw [emit, emit, slot.lead_deeper]
    rfl

theorem emitElse_deeper (n : ℕ) (t : Stmt) : ∀ (e : Option Stmt) (depth : ℕ),
    emitElse t (depth + n) e = (emitElse t depth e).deeper n
  | none, depth => closing_deeper n depth t
  | some e, depth => emit_deeper n e _ depth

theorem emitAll_deeper (n : ℕ) : ∀ (ss : List Stmt) (depth : ℕ),
    emitAll (depth + n) ss = (emitAll depth ss).deeper n
  | [], _ => rfl
  | s :: ss, depth => by
    rw [emitAll, emitAll, emit_deeper n s, emitAll_deeper n ss, deeper_append]

end

theorem emitItem_deeper (n depth : ℕ) (s : Stmt) :
    s.emitItem (depth + n) = (s.emitItem depth).deeper n := by
  cases s with
  | function f params body =>
    rw [emitItem, emitItem, Nat.add_right_comm, emitAll_deeper, deeper_append, deeper_append]
    rfl
  | _ => exact emit_deeper n _ .own depth

end Stmt

namespace Program

open Emission

theorem emitItems_deeper (n depth : ℕ) (ss : List Stmt) :
    emitItems (depth + n) ss = (emitItems depth ss).deeper n := by
  induction ss with
  | nil => rfl
  | cons s ss ih => rw [emitItems, emitItems, s.emitItem_deeper, ih, deeper_append]

theorem emit_deeper (n depth : ℕ) (p : Program) :
    p.emit (depth + n) = (p.emit depth).deeper n := by
  rw [emit, emit, emitItems_deeper, deeper_append]
  cases p.hasMain <;> rfl

end Program

/-! ## What is left in front of an error -/

namespace Emission

theorem append_of_error {a : Emission} {error : LayoutError} (h : a.error = some error)
    (b : Emission) : a ++ b = a := by
  rw [append_def, append, h]

theorem error_append_cases {a b : Emission} {error : LayoutError}
    (h : (a ++ b).error = some error) :
    a.error = some error ∨ a.error = none ∧ b.error = some error := by
  rcases ha : a.error with _ | e
  · exact .inr ⟨rfl, error_append ha ▸ h⟩
  · rw [append_of_error ha, ha] at h
    exact .inl h

/-- The second emission has the lines of the first and `l` right behind them. -/
def StopsAt (l : Line) (e e' : Emission) : Prop := e.lines ++ [l] <+: e'.lines

variable {l : Line} {a a' b b' c c' : Emission} {error : LayoutError}

theorem StopsAt.append (h : StopsAt l a a') (ha : a.error = some error) :
    StopsAt l (a ++ b) (a' ++ b') := by
  rw [append_of_error ha]
  refine h.trans ?_
  rcases ha' : a'.error with _ | e
  · rw [lines_append ha']
    exact List.prefix_append _ _
  · rw [append_of_error ha']

theorem StopsAt.after (h : StopsAt l b b') (ha : a.error = none) :
    StopsAt l (a ++ b) (a ++ b') := by
  rw [StopsAt, lines_append ha, lines_append ha, List.append_assoc]
  exact List.prefix_append_right_inj _ |>.2 h

/-- Lines of its own around a part change nothing about where that part stops. -/
theorem StopsAt.framed (h : StopsAt l b b') (hb : b.error = some error) (ls : List Line) :
    StopsAt l (ofLines ls ++ b ++ c) (ofLines ls ++ b' ++ c') :=
  (h.after rfl).append ((error_append rfl).trans hb)

theorem error_of_framed {ls : List Line} (h : (ofLines ls ++ b ++ c).error = some error)
    (hc : c.error = none) : b.error = some error := by
  rcases error_append_cases h with hb | ⟨-, hc'⟩
  · exact (error_append rfl).symm.trans hb
  · rw [hc] at hc'
    cases hc'

end Emission

namespace Stmt

open Emission

/-- A statement that is refused below another one, and the label of what is wrong: the function
itself, or what a `for` starts with. -/
inductive Refused : Stmt → String → Prop
  | function (f : String) (params : List String) (body : List Stmt) :
      Refused (.function f params body) "Function"
  | forLoop {init : Stmt} (hdecl : ∀ x e, init ≠ .decl x e) (heval : ∀ e, init ≠ .eval e)
      (c u : Expr) (b : Stmt) : Refused (.forLoop (some init) c u b) init.label

theorem refused_of_forStart {init : Option Stmt} {error : LayoutError}
    (h : forStart init = .error error) (c u : Expr) (b : Stmt) :
    Refused (.forLoop init c u b) error.label := by
  unfold forStart at h
  split at h <;> cases h
  rename_i s hdecl heval
  exact .forLoop hdecl heval c u b

/-- A place for a statement inside another one. -/
inductive Hole
  | here
  | thenOf (cond : Expr) (hole : Hole) (elseBranch : Option Stmt)
  | elseOf (cond : Expr) (thenBranch : Stmt) (hole : Hole)
  | whileOf (cond : Expr) (hole : Hole)
  | forOf (init : Option Stmt) (cond update : Expr) (hole : Hole)
  | blockOf (before : List Stmt) (hole : Hole) (after : List Stmt)
  | functionOf (name : String) (params : List String) (before : List Stmt) (hole : Hole)
      (after : List Stmt)

def Hole.fill (s : Stmt) : Hole → Stmt
  | .here => s
  | .thenOf c hole e => .ifElse c (hole.fill s) e
  | .elseOf c t hole => .ifElse c t (some (hole.fill s))
  | .whileOf c hole => .whileLoop c (hole.fill s)
  | .forOf init c u hole => .forLoop init c u (hole.fill s)
  | .blockOf before hole after => .block (before ++ hole.fill s :: after)
  | .functionOf f params before hole after => .function f params (before ++ hole.fill s :: after)

/-- The line of an expression as a statement. -/
def evalLine (depth : ℕ) (x : Expr) : Line := ⟨depth, x.script ++ ";"⟩

theorem stopsAt_here {slot : Slot} {depth : ℕ} {error : LayoutError} (x : Expr) :
    StopsAt (evalLine (slot.inner depth) x) ⟨slot.lead depth, some error⟩
      ((Hole.here.fill (.eval x)).emit slot depth) :=
  List.prefix_rfl

mutual

/-- Where a statement is refused, the lines that are left are those in front of the place of that
statement: any expression there comes right behind them. -/
theorem exists_hole {error : LayoutError} : ∀ (s : Stmt) (slot : Slot) (depth : ℕ),
    (s.emit slot depth).error = some error →
      ∃ (hole : Hole) (bad : Stmt) (d : ℕ), s = hole.fill bad ∧ Refused bad error.label ∧
        ∀ x, StopsAt (evalLine d x) (s.emit slot depth) ((hole.fill (.eval x)).emit slot depth)
  | .decl _ _, slot, depth, h | .eval _, slot, depth, h | .ret _, slot, depth, h => by
    rw [emit] at h
    cases h
  | .ifElse c t e, slot, depth, h => by
    rw [emit] at h ⊢
    rcases error_append_cases h with ht | ⟨ht, he⟩
    · rw [error_append rfl] at ht
      obtain ⟨hole, bad, d, rfl, hbad, hstops⟩ := exists_hole t _ _ ht
      exact ⟨.thenOf c hole e, bad, d, rfl, hbad, fun x => (hstops x).framed ht _⟩
    · obtain ⟨hole, bad, d, rfl, hbad, hstops⟩ := exists_hole_else t e _ he
      exact ⟨.elseOf c t hole, bad, d, rfl, hbad, fun x => (hstops x).after ht⟩
  | .whileLoop c b, slot, depth, h => by
    rw [emit] at h ⊢
    have hb := error_of_framed h rfl
    obtain ⟨hole, bad, d, rfl, hbad, hstops⟩ := exists_hole b _ _ hb
    exact ⟨.whileOf c hole, bad, d, rfl, hbad, fun x => (hstops x).framed hb _⟩
  | .forLoop init c u b, slot, depth, h => by
    rw [emit] at h ⊢
    rcases hstart : forStart init with error' | start <;> rw [hstart] at h
    · cases h
      exact ⟨.here, _, _, rfl, refused_of_forStart hstart c u b, fun x => stopsAt_here x⟩
    · have hb := error_of_framed h rfl
      obtain ⟨hole, bad, d, rfl, hbad, hstops⟩ := exists_hole b _ _ hb
      refine ⟨.forOf init c u hole, bad, d, rfl, hbad, fun x => ?_⟩
      rw [Hole.fill, emit, hstart]
      exact (hstops x).framed hb _
  | .block ss, slot, depth, h => by
    rw [emit] at h ⊢
    have hss := error_of_framed h rfl
    obtain ⟨before, hole, bad, after, d, rfl, hbad, hstops⟩ := exists_hole_all ss _ hss
    exact ⟨.blockOf before hole after, bad, d, rfl, hbad, fun x => (hstops x).framed hss _⟩
  | .function f params body, slot, depth, h => by
    rw [emit] at h ⊢
    cases h
    exact ⟨.here, _, _, rfl, .function f params body, fun x => stopsAt_here x⟩

theorem exists_hole_else {error : LayoutError} (t : Stmt) : ∀ (e : Option Stmt) (depth : ℕ),
    (emitElse t depth e).error = some error →
      ∃ (hole : Hole) (bad : Stmt) (d : ℕ), e = some (hole.fill bad) ∧ Refused bad error.label ∧
        ∀ x, StopsAt (evalLine d x) (emitElse t depth e)
          (emitElse t depth (some (hole.fill (.eval x))))
  | none, depth, h => by
    rw [emitElse] at h
    cases h
  | some e, depth, h => by
    rw [emitElse] at h
    obtain ⟨hole, bad, d, rfl, hbad, hstops⟩ := exists_hole e _ _ h
    exact ⟨hole, bad, d, rfl, hbad, hstops⟩

theorem exists_hole_all {error : LayoutError} : ∀ (ss : List Stmt) (depth : ℕ),
    (emitAll depth ss).error = some error →
      ∃ (before : List Stmt) (hole : Hole) (bad : Stmt) (after : List Stmt) (d : ℕ),
        ss = before ++ hole.fill bad :: after ∧ Refused bad error.label ∧
        ∀ x, StopsAt (evalLine d x) (emitAll depth ss)
          (emitAll depth (before ++ hole.fill (.eval x) :: after))
  | [], depth, h => by
    rw [emitAll] at h
    cases h
  | s :: ss, depth, h => by
    rw [emitAll] at h
    rcases error_append_cases h with hs | ⟨hs, hss⟩
    · obtain ⟨hole, bad, d, rfl, hbad, hstops⟩ := exists_hole s _ _ hs
      exact ⟨[], hole, bad, ss, d, rfl, hbad, fun x => (hstops x).append hs⟩
    · obtain ⟨before, hole, bad, after, d, rfl, hbad, hstops⟩ := exists_hole_all ss _ hss
      exact ⟨s :: before, hole, bad, after, d, rfl, hbad, fun x => (hstops x).after hs⟩

end

theorem exists_hole_item {error : LayoutError} (s : Stmt) (depth : ℕ)
    (h : (s.emitItem depth).error = some error) :
    ∃ (hole : Hole) (bad : Stmt) (d : ℕ), s = hole.fill bad ∧ Refused bad error.label ∧
      ∀ x, StopsAt (evalLine d x) (s.emitItem depth) ((hole.fill (.eval x)).emitItem depth) := by
  by_cases hs : ∃ f params body, s = .function f params body
  · obtain ⟨f, params, body, rfl⟩ := hs
    have hbody := error_of_framed h rfl
    obtain ⟨before, hole, bad, after, d, rfl, hbad, hstops⟩ := exists_hole_all body _ hbody
    exact ⟨.functionOf f params before hole after, bad, d, rfl, hbad,
      fun x => (hstops x).framed hbody _⟩
  · -- any other item is laid out as a statement, and so is what takes the place inside it
    have hitem : ∀ s : Stmt, (¬ ∃ f params body, s = .function f params body) →
        s.emitItem depth = s.emit .own depth := by
      intro s hs
      cases s with
      | function f params body => exact absurd ⟨f, params, body, rfl⟩ hs
      | _ => rfl
    rw [hitem s hs] at h ⊢
    obtain ⟨hole, bad, d, rfl, hbad, hstops⟩ := exists_hole s .own depth h
    refine ⟨hole, bad, d, rfl, hbad, fun x => ?_⟩
    rw [hitem]
    · exact hstops x
    · cases hole with
      | functionOf f params before hole after => exact absurd ⟨f, params, _, rfl⟩ hs
      | _ => simp [Hole.fill]

end Stmt

namespace Program

open Emission Stmt

theorem exists_hole_items {error : LayoutError} (ss : List Stmt) (depth : ℕ)
    (h : (emitItems depth ss).error = some error) :
    ∃ (before : List Stmt) (hole : Hole) (bad : Stmt) (after : List Stmt) (d : ℕ),
      ss = before ++ hole.fill bad :: after ∧ Refused bad error.label ∧
      ∀ x, StopsAt (evalLine d x) (emitItems depth ss)
        (emitItems depth (before ++ hole.fill (.eval x) :: after)) := by
  induction ss with
  | nil => cases h
  | cons s ss ih =>
    rw [emitItems] at h
    rcases error_append_cases h with hs | ⟨hs, hss⟩
    · obtain ⟨hole, bad, d, rfl, hbad, hstops⟩ := exists_hole_item s _ hs
      exact ⟨[], hole, bad, ss, d, rfl, hbad, fun x => (hstops x).append hs⟩
    · obtain ⟨before, hole, bad, after, d, rfl, hbad, hstops⟩ := ih hss
      exact ⟨s :: before, hole, bad, after, d, rfl, hbad, fun x => (hstops x).after hs⟩

end Program

/-! ## Programs one after the other -/

namespace Emitter

/-- The emitter behind some programs, whether or not they could be written. -/
def after (e : Emitter) (ps : List Program) : Emitter := ps.foldl (fun e p => (e.emit p).1) e

theorem depth_after (e : Emitter) (ps : List Program) : (e.after ps).depth = e.depth := by
  induction ps generalizing e with
  | nil => rfl
  | cons p ps ih => exact (ih (e.emit p).1).trans (by rw [emit_eq_layout])

/-- An emitter writes a program below what it has, at its own depth, and is otherwise the same as
at first. -/
theorem emit_eq (e : Emitter) (p : Program) :
    e.emit p = ({ e with lines := e.lines ++ (empty.emit p).1.lines.map (Line.deeper e.depth) },
      (empty.emit p).2) := by
  have hdeeper := p.emit_deeper e.depth 0
  rw [Nat.zero_add] at hdeeper
  rw [emit_eq_layout, lines_empty_emit, result_empty_emit, hdeeper]
  rfl

/-- A program that is written has a call of `main` at its end if it defines one. -/
theorem lines_of_ok {p : Program} (h : (empty.emit p).2 = .ok ()) :
    (empty.emit p).1.lines = p.itemLines ++ Program.entryCall p.hasMain := by
  rw [result_empty_emit] at h
  have herror : (Program.emitItems 0 p.body).error = none := by
    rcases hitems : (Program.emitItems 0 p.body).error with _ | error
    · rfl
    · simp [Program.emit, Emission.append_of_error hitems, Emission.result, hitems] at h
  rw [lines_empty_emit]
  exact Emission.lines_append herror

/-- One that is refused has the lines in front of what was refused, and no call of `main`. -/
theorem lines_of_error {p : Program} {error : LayoutError}
    (h : (empty.emit p).2 = .error error) :
    (empty.emit p).1.lines = p.itemLines ∧
      ∃ (before after : List Stmt) (hole : Stmt.Hole) (bad : Stmt) (d : ℕ),
        p.body = before ++ hole.fill bad :: after ∧ bad.Refused error.label ∧
        ∀ x : Expr, (empty.emit p).1.lines ++ [⟨d, x.script ++ ";"⟩] <+:
          (empty.emit ⟨before ++ hole.fill (.eval x) :: after⟩).1.lines := by
  rw [result_empty_emit] at h
  simp only [lines_empty_emit]
  have herror : (p.emit 0).error = some error := by
    rcases hp : (p.emit 0).error with _ | error' <;> simp [Emission.result, hp] at h
    exact congrArg some h
  have hitems : (Program.emitItems 0 p.body).error = some error := by
    rcases Emission.error_append_cases herror with hitems | ⟨-, hmain⟩
    · exact hitems
    · cases hmain
  obtain ⟨before, hole, bad, after, d, hbody, hbad, hstops⟩ := Program.exists_hole_items _ _ hitems
  refine ⟨congrArg Emission.lines (Emission.append_of_error hitems _), before, after, hole, bad, d,
    hbody, hbad, fun x => ?_⟩
  exact (hstops x).append hitems

/-- However many programs an emitter has written, and whatever became of them, it writes the next
one as a new emitter does: the answer is the same, the depth is the same again, and the lines come
below those that are there, at the depth of the emitter. -/
theorem emit_after (e : Emitter) (ps : List Program) (p : Program) :
    let now := e.after ps
    let fresh := empty.emit p
    (now.emit p).2 = fresh.2 ∧ (now.emit p).1.depth = now.depth ∧ now.depth = e.depth ∧
      (now.emit p).1.lines = now.lines ++ fresh.1.lines.map (Line.deeper e.depth) ∧
      (e.depth = 0 → (now.emit p).1.lines = now.lines ++ fresh.1.lines) ∧
      (fresh.2 = .ok () → fresh.1.lines = p.itemLines ++ Program.entryCall p.hasMain) ∧
      ∀ error, fresh.2 = .error error → fresh.1.lines = p.itemLines ∧
        ∃ (before after : List Stmt) (hole : Stmt.Hole) (bad : Stmt) (d : ℕ),
          p.body = before ++ hole.fill bad :: after ∧ bad.Refused error.label ∧
          ∀ x : Expr, fresh.1.lines ++ [⟨d, x.script ++ ";"⟩] <+:
            (empty.emit ⟨before ++ hole.fill (.eval x) :: after⟩).1.lines := by
  intro now fresh
  have hdepth : now.depth = e.depth := depth_after e ps
  have hemit := now.emit_eq p
  rw [hdepth] at hemit
  have hlines : (now.emit p).1.lines = now.lines ++ fresh.1.lines.map (Line.deeper e.depth) := by
    rw [hemit]
  refine ⟨by rw [hemit], by rw [hemit, hdepth], hdepth, hlines, fun hzero => ?_, lines_of_ok,
    fun error => lines_of_error⟩
  have hid : Line.deeper 0 = id := rfl
  rw [hlines, hzero, hid, List.map_id]

/-- A function inside a loop inside a function, behind an `else`. -/
def nestedFunction : Program :=
  ⟨[.eval (.variable "a"), .function "main" [] [.whileLoop (.variable "b")
    (.ifElse (.variable "c") (.block []) (some (.function "f" [] []))), .ret (.literal 0)]]⟩

/-- It is written twice, up to the `else`. -/
theorem emit_after_nestedFunction :
    let now := empty.after [nestedFunction]
    (now.emit nestedFunction).2 = .error ⟨"Function"⟩ ∧
      (now.emit nestedFunction).1.lines = now.lines ++ nestedFunction.itemLines ∧
      nestedFunction.itemLines = [⟨0, "a;"⟩, ⟨0, "function main() \x7b"⟩, ⟨1, "while (b)"⟩,
        ⟨2, "if (c) \x7b"⟩, ⟨2, "\x7d else"⟩] ∧
      ∃ (before after : List Stmt) (hole : Stmt.Hole) (bad : Stmt) (d : ℕ),
        nestedFunction.body = before ++ hole.fill bad :: after ∧ bad.Refused "Function" ∧
        ∀ x : Expr, nestedFunction.itemLines ++ [⟨d, x.script ++ ";"⟩] <+:
          (empty.emit ⟨before ++ hole.fill (.eval x) :: after⟩).1.lines := by
  intro now
  obtain ⟨hresult, -, -, -, hlines, -, herror⟩ := emit_after empty [nestedFunction] nestedFunction
  have hfresh : (empty.emit nestedFunction).2 = .error ⟨"Function"⟩ := by
    rw [result_empty_emit]
    cbv
  obtain ⟨hitems, hplace⟩ := herror _ hfresh
  rw [hitems] at hlines hplace
  exact ⟨hresult.trans hfresh, hlines rfl, by cbv, hplace⟩

end Emitter

end MiniC
