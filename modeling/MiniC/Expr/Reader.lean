import MiniC.Expr
import MiniC.Expr.Grouping
import MiniC.Token

/-!
# Reading expressions

An expression is read one token at a time. The state is what comes next (`Focus`) and the
constructs that have been begun and wait for it (`Frame`, innermost first). A token either moves
the state on, or shows that the expression is over, in which case it has not been used, or cannot
stand there at all.

Every operand belongs to a chain of operators, which has a floor: an operator below it is not the
chain's, and closes it. With an operand complete, the next token either goes on with the chain
(`Reader.join`) or shows that the chain is over, which completes the construct around it
(`Reader.close`).
-/

namespace MiniC

/-- Why a token stream is no program. -/
inductive ParseError
  /-- Only `wanted` may stand where `found` does. -/
  | expected (wanted : Tag) (found : Token)
  /-- An expression must start where `found` stands. -/
  | noOperand (found : Token)
  deriving DecidableEq, Repr

namespace Expr

/-- A construct that has been begun. `floor` is that of the chain in which the finished construct
is an operand. -/
inductive Frame
  /-- A chain `left op □`. -/
  | operator (floor : Nat) (left : Expr) (op : BinOp)
  /-- An expression in brackets, `( □`. -/
  | group (floor : Nat)
  /-- An assignment `name = □`. -/
  | assign (floor : Nat) (name : String)
  /-- A call `callee(args, □`. -/
  | call (floor : Nat) (callee : String) (args : List Expr)
  deriving Inhabited

/-- What comes next. -/
inductive Focus
  /-- An operand. -/
  | operand (floor : Nat)
  /-- Whatever makes of `name` a call, an assignment or a variable. -/
  | name (floor : Nat) (name : String)
  /-- The first argument, or the end of the arguments. -/
  | arguments (floor : Nat) (callee : String)
  /-- An operator, or the end of the chain `value`. -/
  | value (floor : Nat) (value : Expr)
  deriving Inhabited

structure Reader where
  focus : Focus
  frames : List Frame
  deriving Inhabited

/-- What one more token does. -/
inductive Step
  | more (reader : Reader)
  /-- The expression is over and the token is not part of it. -/
  | done (expr : Expr)
  | fail (error : ParseError)

namespace Reader

/-- The reader before the first token of an expression. -/
def start : Reader := ⟨.operand Grouping.lowest, []⟩

/-- Reads `t` as the start of an operand. -/
def operand (floor : Nat) (frames : List Frame) (t : Token) : Step :=
  match t.kind with
  | .number n => .more ⟨.value floor (.literal n), frames⟩
  | .string raw => .more ⟨.value floor (.string raw), frames⟩
  | .ident x => .more ⟨.name floor x, frames⟩
  | .mark .lparen => .more ⟨.operand Grouping.lowest, .group floor :: frames⟩
  | _ => .fail (.noOperand t)

/-- The operator with which `kind` goes on with a chain of this floor. -/
def operator? (g : Grouping) (floor : Nat) : Kind → Option BinOp
  | .op o => if floor ≤ g.level o then some o else none
  | _ => none

/-- Goes on with the chain `value` by the operator `o`. -/
def join (g : Grouping) (floor : Nat) (value : Expr) (o : BinOp) (frames : List Frame) : Step :=
  .more ⟨.operand (g.floor o), .operator floor value o :: frames⟩

/-- Reads `t` behind the complete chain `value`, which goes to the construct around it. -/
def close (g : Grouping) (value : Expr) (t : Token) : List Frame → Step
  | [] => .done value
  | .operator floor left o :: frames =>
    match operator? g floor t.kind with
    | some next => join g floor (.binary o left value) next frames
    | none => close g (.binary o left value) t frames
  | .assign floor x :: frames =>
    match operator? g floor t.kind with
    | some next => join g floor (.assign x value) next frames
    | none => close g (.assign x value) t frames
  | .group floor :: frames =>
    match t.kind with
    | .mark .rparen => .more ⟨.value floor value, frames⟩
    | _ => .fail (.expected (.mark .rparen) t)
  | .call floor f args :: frames =>
    match t.kind with
    | .mark .comma => .more ⟨.operand Grouping.lowest, .call floor f (args ++ [value]) :: frames⟩
    | .mark .rparen => .more ⟨.value floor (.call f (args ++ [value])), frames⟩
    | _ => .fail (.expected (.mark .rparen) t)

/-- Reads `t` after the operand `value`. -/
def after (g : Grouping) (floor : Nat) (value : Expr) (t : Token) (frames : List Frame) : Step :=
  match operator? g floor t.kind with
  | some next => join g floor value next frames
  | none => close g value t frames

/-- Reads one token. -/
def step (g : Grouping) (r : Reader) (t : Token) : Step :=
  match r.focus with
  | .operand floor => operand floor r.frames t
  | .name floor x =>
    match t.kind with
    | .mark .lparen => .more ⟨.arguments floor x, r.frames⟩
    | .mark .assign => .more ⟨.operand Grouping.lowest, .assign floor x :: r.frames⟩
    | _ => after g floor (.variable x) t r.frames
  | .arguments floor f =>
    match t.kind with
    | .mark .rparen => .more ⟨.value floor (.call f []), r.frames⟩
    | _ => operand Grouping.lowest (.call floor f [] :: r.frames) t
  | .value floor value => after g floor value t r.frames

/-- Reads an expression from the front of `ts`, and gives what is left behind it. The stream must
go on behind the expression, as every stream does that closes with its end token. -/
def read (g : Grouping) : Reader → List Token → Option (Except ParseError (Expr × List Token))
  | _, [] => none
  | r, t :: ts =>
    match r.step g t with
    | .more r => read g r ts
    | .done e => some (.ok (e, t :: ts))
    | .fail error => some (.error error)

end Reader

end Expr

end MiniC
