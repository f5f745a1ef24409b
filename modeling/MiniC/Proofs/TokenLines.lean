import Mathlib
import MiniC.Program.Reader

/-!
# Readers look at kinds only

A token's line has no part in what a reader does with it, errors apart, which name the token
itself: another token of the same kind gives the same step with the other token in the error
(`Expr.Reader.step_relabel`, `Stmt.Reader.step_relabel`). So a program is a matter of the kinds of
its tokens (`Program.parse_eq_ok_iff`), and the readers can be run over kinds.
-/

namespace MiniC

/-- The same error about the token `t`. -/
def ParseError.relabel (t : Token) : ParseError → ParseError
  | .expected wanted _ => .expected wanted t
  | .noOperand _ => .noOperand t

namespace Expr

def Step.relabel (t : Token) : Step → Step
  | .fail error => .fail (error.relabel t)
  | step => step

namespace Reader

variable {g : Grouping} {t t' : Token}

theorem operand_relabel (h : t.kind = t'.kind) (floor : Nat) (frames : List Frame) :
    operand floor frames t' = (operand floor frames t).relabel t' := by
  unfold operand
  rw [h]
  split <;> rfl

theorem close_relabel (h : t.kind = t'.kind) : ∀ (frames : List Frame) (e : Expr),
    close g e t' frames = (close g e t frames).relabel t'
  | [], _ => rfl
  | .operator floor left o :: frames, e => by
    simp only [close, h]
    split
    · rfl
    · exact close_relabel h frames _
  | .assign floor x :: frames, e => by
    simp only [close, h]
    split
    · rfl
    · exact close_relabel h frames _
  | .group floor :: frames, e => by
    simp only [close, h]
    split <;> rfl
  | .call floor f args :: frames, e => by
    simp only [close, h]
    split <;> rfl

theorem after_relabel (h : t.kind = t'.kind) (floor : Nat) (e : Expr) (frames : List Frame) :
    after g floor e t' frames = (after g floor e t frames).relabel t' := by
  unfold after
  rw [h]
  split
  · rfl
  · exact close_relabel h frames e

theorem step_relabel (h : t.kind = t'.kind) (r : Reader) :
    r.step g t' = (r.step g t).relabel t' := by
  rcases r with ⟨focus, frames⟩
  cases focus with
  | operand floor => exact operand_relabel h floor frames
  | name floor x =>
    simp only [step, h]
    split
    · rfl
    · rfl
    · exact after_relabel h floor _ frames
  | arguments floor f =>
    simp only [step, h]
    split
    · rfl
    · exact operand_relabel h _ _
  | value floor e => exact after_relabel h floor e frames

end Reader

end Expr

namespace Stmt.Reader

variable {t t' : Token}

theorem inExpr_relabel (h : t.kind = t'.kind) (items : List Stmt) (frames : List Frame)
    (purpose : Purpose) (r : Expr.Reader) :
    inExpr items frames purpose r t' =
      (inExpr items frames purpose r t).mapError (·.relabel t') := by
  unfold inExpr
  rw [Expr.Reader.step_relabel h, ← h]
  rcases r.step .standard t with r | e | error
  · rfl
  · simp only [Expr.Step.relabel]
    split <;> rfl
  · rfl

theorem statement_relabel (h : t.kind = t'.kind) (items : List Stmt) (frames : List Frame) :
    statement items frames t' = (statement items frames t).mapError (·.relabel t') := by
  unfold statement
  rw [h]
  split
  all_goals first | rfl | exact inExpr_relabel h items frames _ _

theorem ready_relabel (h : t.kind = t'.kind) (items : List Stmt) (frames : List Frame) :
    ready items frames t' = (ready items frames t).mapError (·.relabel t') := by
  unfold ready
  rw [h]
  split
  all_goals first | rfl | exact statement_relabel h items _

theorem expect_relabel (h : t.kind = t'.kind) (m : Mark) (next : Reader) :
    expect m t' next = (expect m t next).mapError (·.relabel t') := by
  unfold expect
  rw [h]
  split <;> rfl

theorem expectName_relabel (h : t.kind = t'.kind) (next : String → Reader) :
    expectName t' next = (expectName t next).mapError (·.relabel t') := by
  unfold expectName
  rw [h]
  split <;> rfl

theorem param_relabel (h : t.kind = t'.kind) (r : Reader) (f : String) (params : List String) :
    param r f params t' = (param r f params t).mapError (·.relabel t') := by
  unfold param
  rw [h]
  split
  · rfl
  · exact expectName_relabel h _

theorem step_relabel (h : t.kind = t'.kind) (r : Reader) :
    r.step t' = (r.step t).mapError (·.relabel t') := by
  rcases r with ⟨items, focus, frames⟩
  cases focus with
  | ready => exact ready_relabel h items frames
  | afterThen c s =>
    simp only [step, h]
    split
    · rfl
    · exact ready_relabel h _ _
  | header word => exact expect_relabel h _ _
  | forInit =>
    simp only [step, h]
    split
    · rfl
    · rfl
    · exact inExpr_relabel h items frames _ _
  | declName place => exact expectName_relabel h _
  | declAssign place x => exact expect_relabel h _ _
  | expr purpose e => exact inExpr_relabel h items frames purpose e
  | functionName => exact expectName_relabel h _
  | functionParen f => exact expect_relabel h _ _
  | params f =>
    simp only [step, h]
    split
    · rfl
    · exact param_relabel h _ f []
  | param f params => exact param_relabel h _ f params
  | paramName f params => exact expectName_relabel h _
  | afterParam f params =>
    simp only [step, h]
    split
    · rfl
    · exact expect_relabel h _ _
  | functionBrace f params => exact expect_relabel h _ _

theorem step_eq_ok_iff (t : Token) (r r' : Reader) :
    r.step t = .ok r' ↔ r.step ⟨t.kind, 0⟩ = .ok r' := by
  have hkind : t.kind = (Token.mk t.kind 0).kind := rfl
  rw [step_relabel hkind r]
  cases r.step t <;> simp [Except.mapError]

/-- The reader behind tokens of the kinds `ks`, if all of them can be read. -/
def run (r : Reader) (ks : List Kind) : Except ParseError Reader :=
  ks.foldlM (fun r k => r.step ⟨k, 0⟩) r

@[simp] theorem run_nil (r : Reader) : r.run [] = .ok r := rfl

theorem run_cons (r : Reader) (k : Kind) (ks : List Kind) :
    r.run (k :: ks) = (r.step ⟨k, 0⟩).bind (·.run ks) := rfl

theorem run_cons_ok {r r' : Reader} {k : Kind} (h : r.step ⟨k, 0⟩ = .ok r') (ks : List Kind) :
    r.run (k :: ks) = r'.run ks := by
  rw [run_cons, h]
  rfl

theorem run_append {r r' : Reader} {ks : List Kind} (h : r.run ks = .ok r') (ls : List Kind) :
    r.run (ks ++ ls) = r'.run ls := by
  unfold run at h ⊢
  rw [List.foldlM_append, h]
  rfl

end Stmt.Reader

namespace Program

open Stmt (Reader)

theorem readFrom_result_eq_ok_iff {p : Program} {endLine : Nat} :
    ∀ {ts : List Token} {r : Reader}, (readFrom r endLine ts).result = .ok p ↔
      ∃ r₁ r₂, r.run (ts.map Token.kind) = .ok r₁ ∧ r₁.step ⟨.eof, 0⟩ = .ok r₂ ∧ p = ⟨r₂.items⟩
  | [], r => by
    have h := Reader.step_eq_ok_iff ⟨.eof, endLine⟩ r
    simp only [readFrom, List.map_nil, Reader.run_nil, Except.ok.injEq, exists_and_left,
      exists_eq_left']
    rcases hs : r.step ⟨.eof, endLine⟩ with error | r'
    · simp only [hs, reduceCtorEq, false_iff] at h
      simp [Outcome.result, h]
    · rw [(h r').1 hs]
      simp [Outcome.result, eq_comm]
  | t :: ts, r => by
    have h := Reader.step_eq_ok_iff t r
    simp only [readFrom, List.map_cons, Reader.run_cons]
    rcases hs : r.step t with error | r'
    · simp only [hs, reduceCtorEq, false_iff] at h
      rcases hk : r.step ⟨t.kind, 0⟩ with error | r'
      · simp [Outcome.result, Except.bind]
      · exact absurd hk (h r')
    · rw [(h r').1 hs]
      exact readFrom_result_eq_ok_iff

/-- The program of a stream is read off the kinds of its tokens and the end behind them. -/
theorem parse_eq_ok_iff {ts : List Token} {p : Program} :
    parse ts = .ok p ↔ ∃ r₁ r₂, Reader.start.run ((Stream.ofTokens ts).tokens.map Token.kind) =
      .ok r₁ ∧ r₁.step ⟨.eof, 0⟩ = .ok r₂ ∧ p = ⟨r₂.items⟩ :=
  readFrom_result_eq_ok_iff

theorem eof_notMem_tokens (ts : List Token) :
    Kind.eof ∉ (Stream.ofTokens ts).tokens.map Token.kind := by
  intro hmem
  obtain ⟨t, ht, hk⟩ := List.mem_map.1 hmem
  simpa [hk] using List.mem_takeWhile_imp ht

theorem tokens_ofTokens_append_eof {ts : List Token} (h : ∀ t ∈ ts, t.kind ≠ .eof) (line : Nat) :
    (Stream.ofTokens (ts ++ [⟨.eof, line⟩])).tokens = ts := by
  simp only [Stream.ofTokens]
  rw [List.takeWhile_append_of_pos (by simpa using h)]
  simp

end Program

end MiniC
