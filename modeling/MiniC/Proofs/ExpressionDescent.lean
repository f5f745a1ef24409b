import MiniC.Proofs.Following

/-!
# Expressions by descent

In an expression, a call of the parser for an operand or a chain is a frame of the reader. What the
reader does behind an operand is `Setting.chain`, and behind a whole chain `Setting.closed`; with
these as the states, each function of the parser follows the reader, whatever the frames around it
are. The functions call each other, so this is shown of all of them at once (`Setting.Parses`), by
induction on the tokens that are left: before an operand or an argument is read again, at least one
token has been read.
-/

namespace MiniC

namespace Tokens

open Stmt (Reader)

variable {β : Type} {ts : Tokens}

/-- What an expression stands in. -/
structure Setting where
  items : List Stmt
  frames : List Stmt.Frame
  purpose : Stmt.Purpose

namespace Setting

/-- What a step of the expression is for the reader of the statement. -/
def ofStep (c : Setting) (t : Token) : Expr.Step → Except ParseError Reader
  | .more r => .ok ⟨c.items, .expr c.purpose r, c.frames⟩
  | .done e => Reader.expect c.purpose.closer t (Reader.complete c.items c.frames e c.purpose)
  | .fail error => .error error

/-- How reading ends if `step` reads the next token. -/
def finish (c : Setting) (step : Token → Expr.Step) (s : Stream) : Finish :=
  MiniC.finish (fun t => c.ofStep t (step t)) s

/-- An operand is next. -/
def operand (c : Setting) (floor : ℕ) (around : List Expr.Frame) : Stream → Finish :=
  c.finish (Expr.Reader.operand floor around)

/-- The chain `value` may go on. -/
def chain (c : Setting) (floor : ℕ) (value : Expr) (around : List Expr.Frame) : Stream → Finish :=
  c.finish (Expr.Reader.after .standard floor value · around)

/-- The chain `value` is over. -/
def closed (c : Setting) (value : Expr) (around : List Expr.Frame) : Stream → Finish :=
  c.finish (Expr.Reader.close .standard value · around)

/-- A closing bracket is next, and then `r` goes on. -/
def bracket (c : Setting) (r : Expr.Reader) : Stream → Finish :=
  MiniC.finish (Reader.expect .rparen · ⟨c.items, .expr c.purpose r, c.frames⟩)

variable {c : Setting} {s : Stream} {step : Token → Expr.Step}

theorem inExpr_eq (c : Setting) (r : Expr.Reader) (t : Token) :
    Reader.inExpr c.items c.frames c.purpose r t = c.ofStep t (r.step .standard t) := by
  rw [Reader.inExpr]
  cases r.step .standard t <;> rfl

theorem finish_step (c : Setting) (r : Expr.Reader) (s : Stream) :
    MiniC.finish (Reader.mk c.items (.expr c.purpose r) c.frames).step s =
      c.finish (r.step .standard) s :=
  finish_congr (c.inExpr_eq r s.head)

theorem finish_more {r : Expr.Reader} (h : step s.head = .more r) (hs : s.head.kind ≠ .eof) :
    c.finish step s = c.finish (r.step .standard) (s.skip 1) := by
  rw [← finish_step]
  exact finish_ok (congrArg (c.ofStep s.head) h) hs

theorem finish_congr {step' : Token → Expr.Step} (h : step s.head = step' s.head) :
    c.finish step s = c.finish step' s :=
  MiniC.finish_congr (congrArg (c.ofStep s.head) h)

theorem finish_fail {error : ParseError} (h : step s.head = .fail error) :
    c.finish step s = (.error error, s.skip 1) :=
  finish_error (congrArg (c.ofStep s.head) h)

theorem advance_more {f : Token → Parse β} {t : Token} {rest : List Token} {endLine k : ℕ}
    {r : Expr.Reader} {after : β → Stream → Finish} (ht : t.kind ≠ .eof) (hstep : step t = .more r)
    (h : ts.Follows (f t) ⟨rest, endLine⟩ (k - 1) (c.finish (r.step .standard) ⟨rest, endLine⟩)
      after) :
    ts.Follows (ts.advance >>= f) ⟨t :: rest, endLine⟩ k (c.finish step ⟨t :: rest, endLine⟩)
      after :=
  Follows.of_eq (.advance_bind ht h) (finish_more hstep ht)

theorem closed_group (floor : ℕ) (e : Expr) (around : List Expr.Frame) :
    c.closed e (.group floor :: around) s = c.bracket ⟨.value floor e, around⟩ s := by
  refine MiniC.finish_congr ?_
  dsimp only
  rw [Expr.Reader.close, Reader.expect]
  split
  · rw [if_pos ‹_›]
    rfl
  · rw [if_neg ‹_›]
    rfl

theorem closed_call_comma (h : s.head.kind = .mark .comma) (floor : ℕ) (callee : String)
    (args : List Expr) (e : Expr) (around : List Expr.Frame) :
    c.closed e (.call floor callee args :: around) s =
      c.operand Grouping.lowest (.call floor callee (args ++ [e]) :: around) (s.skip 1) := by
  refine finish_more (r := ⟨.operand Grouping.lowest, .call floor callee (args ++ [e]) :: around⟩)
    ?_ ?_
  · rw [Expr.Reader.close, h]
  · rw [h]
    nofun

theorem closed_call (h : s.head.kind ≠ .mark .comma) (floor : ℕ) (callee : String)
    (args : List Expr) (e : Expr) (around : List Expr.Frame) :
    c.closed e (.call floor callee args :: around) s =
      c.bracket ⟨.value floor (.call callee (args ++ [e])), around⟩ s := by
  refine MiniC.finish_congr ?_
  dsimp only
  rw [Expr.Reader.close, Reader.expect]
  split
  · exact absurd ‹_› h
  · rw [if_pos ‹_›]
    rfl
  · rw [if_neg ‹_›]
    rfl

/-- What is known of a parser in front of an expression. -/
structure Parses (c : Setting) (ts : Tokens) (s : Stream) : Prop where
  expression (floor : ℕ) (around : List Expr.Frame) :
    ts.Follows (ts.expression floor) s 1 (c.operand floor around s) (c.closed · around)
  operators (floor : ℕ) (left : Expr) (around : List Expr.Frame) :
    ts.Follows (ts.operators floor left) s 0 (c.chain floor left around s) (c.closed · around)
  moreArguments (floor : ℕ) (callee : String) (args : List Expr) (around : List Expr.Frame) :
    ts.Follows (ts.moreArguments args) s 1
      (c.operand Grouping.lowest (.call floor callee args :: around) s)
      fun args => c.bracket ⟨.value floor (.call callee args), around⟩

theorem Parses.arguments (h : c.Parses ts s) (floor : ℕ) (callee : String)
    (around : List Expr.Frame) :
    ts.Follows ts.arguments s 0
      (c.finish (Expr.Reader.step .standard ⟨.arguments floor callee, around⟩) s)
      fun args => c.bracket ⟨.value floor (.call callee args), around⟩ := by
  rw [Tokens.arguments]
  refine .check_ite (fun htag => ?_) fun htag => ?_
  · have hkind := Kind.tag_eq_mark.1 htag
    refine .value (MiniC.finish_congr ?_)
    rw [Reader.expect, if_pos hkind, Expr.Reader.step, hkind]
    rfl
  · have hkind := mt Kind.tag_eq_mark.2 htag
    refine ((h.moreArguments floor callee [] around).of_eq (finish_congr ?_)).weaken
    unfold Expr.Reader.step
    dsimp only
    split
    · exact absurd ‹_› hkind
    · rfl

section Step

variable (ih : ∀ s', s'.tokens.length < s.tokens.length → c.Parses ts s')
include ih

theorem operators_of (floor : ℕ) (left : Expr) (around : List Expr.Frame) :
    ts.Follows (ts.operators floor left) s 0 (c.chain floor left around s) (c.closed · around) := by
  have hreturn (h : ∀ o, s.head.kind = .op o → o.precedence < floor) :
      ts.Follows (pure left) s 0 (c.chain floor left around s) (c.closed · around) := by
    refine .value (finish_congr ?_)
    rw [Expr.Reader.after, Expr.Reader.operator?_of_lt h]
  rw [operators]
  refine .peek_bind ?_
  split
  · rename_i o hkind
    split_ifs with hlt
    · refine hreturn fun o' ho' => ?_
      cases hkind.symm.trans ho'
      exact hlt
    · have hs : s.head.kind ≠ .eof := by
        rw [hkind]
        nofun
      have hmore : Expr.Reader.after .standard floor left s.head around =
          .more ⟨.operand o.precedence, .operator floor left o :: around⟩ := by
        have hop : Expr.Reader.operator? .standard floor s.head.kind = some o := by
          rw [hkind]
          exact if_pos (Nat.le_of_not_lt hlt)
        rw [Expr.Reader.after, hop]
        rfl
      have hshort := Stream.length_skip_one hs
      have hright := (ih _ hshort).expression o.precedence (.operator floor left o :: around)
      refine Follows.of_eq (.advance_bind hs ?_) (finish_more hmore hs)
      exact hright.bind fun right s' hs' =>
        (ih s' (by omega)).operators floor (.binary o left right) around
  · rename_i hkind
    exact hreturn fun o ho => absurd ho (hkind o)

/-- Behind a name, what makes of it a call, an assignment or a variable. -/
theorem operand_ident_of (floor : ℕ) (x : String) (around : List Expr.Frame) :
    ts.Follows
      (do
        if ← ts.accept (.mark .lparen) then
          let args ← ts.arguments
          ts.expect (.mark .rparen)
          return .call x args
        else if ← ts.accept (.mark .assign) then
          let value ← ts.expression Grouping.lowest
          return .assign x value
        else
          return .variable x)
      s 0 (c.finish (Expr.Reader.step .standard ⟨.name floor x, around⟩) s)
      (c.chain floor · around) := by
  refine .accept_ite nofun (fun htag hs => ?_) fun hcall => ?_
  · have hstep : Expr.Reader.step .standard ⟨.name floor x, around⟩ s.head =
        .more ⟨.arguments floor x, around⟩ := by
      rw [Expr.Reader.step, Kind.tag_eq_mark.1 htag]
    have hargs := (ih _ (Stream.length_skip_one hs)).arguments floor x around
    refine Follows.of_eq (hargs.bind fun args s' _ => ?_) (finish_more hstep hs)
    exact .mark_bind fun s'' _ => .value (c.finish_step _ s'')
  · refine .accept_ite nofun (fun htag hs => ?_) fun hassign => ?_
    · have hstep : Expr.Reader.step .standard ⟨.name floor x, around⟩ s.head =
          .more ⟨.operand Grouping.lowest, .assign floor x :: around⟩ := by
        rw [Expr.Reader.step, Kind.tag_eq_mark.1 htag]
      have hvalue := (ih _ (Stream.length_skip_one hs)).expression Grouping.lowest
        (.assign floor x :: around)
      refine Follows.of_eq (hvalue.bind fun value s' _ => ?_)
        (finish_more hstep hs)
      exact .value rfl
    · refine .value (finish_congr ?_)
      unfold Expr.Reader.step
      dsimp only
      split
      · exact absurd (Kind.tag_eq_mark.2 ‹_›) hcall
      · exact absurd (Kind.tag_eq_mark.2 ‹_›) hassign
      · rfl

theorem operand_of (floor : ℕ) (around : List Expr.Frame) :
    ts.Follows ts.operand s 1 (c.operand floor around s) (c.chain floor · around) := by
  rw [Tokens.operand]
  rcases s with ⟨_ | ⟨⟨kind, line⟩, rest⟩, endLine⟩
  · exact (Follows.advance_failure rfl).of_eq (finish_fail rfl)
  · have hlt : rest.length < rest.length + 1 := Nat.lt_succ_self _
    cases kind with
    | number n =>
      exact advance_more (r := ⟨.value floor (.literal n), around⟩) nofun rfl
        (.value rfl)
    | string raw =>
      exact advance_more (r := ⟨.value floor (.string raw), around⟩) nofun rfl
        (.value rfl)
    | ident x =>
      refine advance_more (r := ⟨.name floor x, around⟩) nofun rfl ?_
      exact operand_ident_of (fun s' hs' => ih s' (hs'.trans hlt)) floor x around
    | mark m =>
      cases m with
      | lparen =>
        refine advance_more (r := ⟨.operand Grouping.lowest, .group floor :: around⟩) nofun rfl ?_
        have hinner := (ih ⟨rest, endLine⟩ hlt).expression Grouping.lowest (.group floor :: around)
        refine hinner.bind fun e s' _ => ?_
        refine Follows.of_eq (.mark_bind fun s'' _ => ?_) (closed_group floor e around)
        exact .value (c.finish_step _ s'')
      | _ => exact (Follows.advance_failure rfl).of_eq (finish_fail rfl)
    | _ => exact (Follows.advance_failure rfl).of_eq (finish_fail rfl)

theorem expression_of (floor : ℕ) (around : List Expr.Frame) :
    ts.Follows (ts.expression floor) s 1 (c.operand floor around s) (c.closed · around) := by
  rw [expression]
  exact (operand_of ih floor around).bind fun left s' hs' => (ih s' hs').operators floor left around

theorem moreArguments_of (floor : ℕ) (callee : String) (args : List Expr)
    (around : List Expr.Frame) :
    ts.Follows (ts.moreArguments args) s 1
      (c.operand Grouping.lowest (.call floor callee args :: around) s)
      fun args => c.bracket ⟨.value floor (.call callee args), around⟩ := by
  rw [moreArguments]
  refine (expression_of ih Grouping.lowest _).bind fun e s' hs' => ?_
  refine .accept_ite nofun (fun htag hs => ?_) fun htag => ?_
  · have hshort := Stream.length_skip_one hs
    have hmore := (ih (s'.skip 1) (by omega)).moreArguments floor callee (args ++ [e]) around
    exact Follows.of_eq (.weaken hmore)
      (closed_call_comma (Kind.tag_eq_mark.1 htag) floor callee args e around)
  · exact .value
      (closed_call (mt Kind.tag_eq_mark.2 htag) floor callee args e around)

end Step

theorem parses (c : Setting) (ts : Tokens) (s : Stream) : c.Parses ts s :=
  have ih : ∀ s', s'.tokens.length < s.tokens.length → c.Parses ts s' := fun s' _ => c.parses ts s'
  ⟨expression_of ih, operators_of ih, moreArguments_of ih⟩
termination_by s.tokens.length

end Setting

/-- An expression and the sign that closes it complete what they are read for. -/
theorem Follows.expression_bind (c : Setting) {s : Stream} {k : ℕ} {f : Expr → Parse β}
    {after : β → Stream → Finish}
    (h : ∀ e s', s'.tokens.length < s.tokens.length →
      ts.Follows (f e) s' (k - 2) (finish (Reader.complete c.items c.frames e c.purpose).step s')
        after) :
    ts.Follows
      (do
        let e ← ts.expression Grouping.lowest
        ts.expect (.mark c.purpose.closer)
        f e)
      s k (finish (Reader.inExpr c.items c.frames c.purpose .start) s) after := by
  have hexpr := (c.parses ts s).expression Grouping.lowest []
  refine Follows.of_eq (hexpr.bind fun e s' hs' => ?_)
    (finish_congr (c.inExpr_eq .start s.head))
  exact .mark_bind fun s'' hs'' => h e s'' (by omega)

end Tokens

end MiniC
