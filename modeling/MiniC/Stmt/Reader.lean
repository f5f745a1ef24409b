import MiniC.Expr.Reader
import MiniC.Stmt

/-!
# Reading statements and items

The items of a program are read one token at a time, like expressions: the state is the items
that are finished, what comes next (`Focus`), and the constructs begun around it (`Frame`,
innermost first). `Reader.step` reads one token, and refuses it if the tokens so far, with this
one, begin no program. So an error always names the first such token.

An `else` belongs to the nearest `if` that can take it: after a then-branch the reader waits for
one more token before it gives the `if` to the construct around it.
-/

namespace MiniC

namespace Stmt

/-- What a list of statements between braces is. -/
inductive Body
  | block
  | function (name : String) (params : List String)
  deriving Inhabited

def Body.close : Body → List Stmt → Stmt
  | .block, stmts => .block stmts
  | .function name params, stmts => .function name params stmts

/-- What stands in front of a statement and takes it as its last part. -/
inductive Clause
  | thenOf (cond : Expr)
  | elseOf (cond : Expr) (thenBranch : Stmt)
  | whileOf (cond : Expr)
  | forOf (init : Option Stmt) (cond update : Expr)
  deriving Inhabited

def Clause.close : Clause → Stmt → Stmt
  | .thenOf c, s => .ifElse c s none
  | .elseOf c thenBranch, s => .ifElse c thenBranch (some s)
  | .whileOf c, s => .whileLoop c s
  | .forOf init c update, s => .forLoop init c update s

/-- A construct that has been begun. -/
inductive Frame
  /-- An open brace and the statements behind it. -/
  | inside (body : Body) (done : List Stmt)
  | under (clause : Clause)
  deriving Inhabited

/-- Where a declaration or an expression with its semicolon stands. -/
inductive Place
  | statement | forInit
  deriving DecidableEq, Inhabited

/-- What an expression is read for. -/
inductive Purpose
  | declInit (place : Place) (name : String)
  | eval (place : Place)
  | ret
  | ifCond
  | whileCond
  | forCond (init : Option Stmt)
  | forUpdate (init : Option Stmt) (cond : Expr)
  deriving Inhabited

/-- The sign that must follow the expression. -/
def Purpose.closer : Purpose → Mark
  | .declInit .. | .eval _ | .ret | .forCond _ => .semicolon
  | .ifCond | .whileCond | .forUpdate .. => .rparen

/-- The words that are followed by a bracket. -/
inductive Header
  | if_ | while_ | for_
  deriving DecidableEq, Inhabited

/-- What comes next. -/
inductive Focus
  /-- A statement, or what ends the construct around it. -/
  | ready
  /-- An `else`, or whatever follows an `if` without one. -/
  | afterThen (cond : Expr) (thenBranch : Stmt)
  | header (header : Header)
  | forInit
  | declName (place : Place)
  | declAssign (place : Place) (name : String)
  | expr (purpose : Purpose) (reader : Expr.Reader)
  | functionName
  | functionParen (name : String)
  /-- The first parameter, or the end of the parameters. -/
  | params (name : String)
  /-- A parameter, after a comma. -/
  | param (name : String) (params : List String)
  /-- A parameter's name, after its type. -/
  | paramName (name : String) (params : List String)
  | afterParam (name : String) (params : List String)
  | functionBrace (name : String) (params : List String)
  deriving Inhabited

structure Reader where
  /-- The finished items. -/
  items : List Stmt
  focus : Focus
  frames : List Frame
  deriving Inhabited

namespace Reader

/-- The reader before the first token of a program. -/
def start : Reader := ⟨[], .ready, []⟩

/-- Gives a finished statement to the construct around it. -/
def deliver (items : List Stmt) (s : Stmt) : List Frame → Reader
  | [] => ⟨items ++ [s], .ready, []⟩
  | .inside body done :: frames => ⟨items, .ready, .inside body (done ++ [s]) :: frames⟩
  | .under (.thenOf c) :: frames => ⟨items, .afterThen c s, frames⟩
  | .under clause :: frames => deliver items (clause.close s) frames

/-- Gives a finished statement to the construct around it when no `else` follows: the finished
items and what is still open. -/
def settle (items : List Stmt) (s : Stmt) : List Frame → List Stmt × List Frame
  | [] => (items ++ [s], [])
  | .inside body done :: frames => (items, .inside body (done ++ [s]) :: frames)
  | .under clause :: frames => settle items (clause.close s) frames

/-- What a complete expression makes of the construct it was read for, once its closing sign has
been read. -/
def complete (items : List Stmt) (frames : List Frame) (e : Expr) : Purpose → Reader
  | .declInit .statement x => deliver items (.decl x e) frames
  | .declInit .forInit x => ⟨items, .expr (.forCond (some (.decl x e))) .start, frames⟩
  | .eval .statement => deliver items (.eval e) frames
  | .eval .forInit => ⟨items, .expr (.forCond (some (.eval e))) .start, frames⟩
  | .ret => deliver items (.ret e) frames
  | .ifCond => ⟨items, .ready, .under (.thenOf e) :: frames⟩
  | .whileCond => ⟨items, .ready, .under (.whileOf e) :: frames⟩
  | .forCond init => ⟨items, .expr (.forUpdate init e) .start, frames⟩
  | .forUpdate init c => ⟨items, .ready, .under (.forOf init c e) :: frames⟩

/-- Reads `t` inside or behind an expression. -/
def inExpr (items : List Stmt) (frames : List Frame) (purpose : Purpose) (r : Expr.Reader)
    (t : Token) : Except ParseError Reader :=
  match r.step .standard t with
  | .more r => .ok ⟨items, .expr purpose r, frames⟩
  | .fail error => .error error
  | .done e =>
    if t.kind = .mark purpose.closer then .ok (complete items frames e purpose)
    else .error (.expected (.mark purpose.closer) t)

/-- Reads `t` as the start of a statement. -/
def statement (items : List Stmt) (frames : List Frame) (t : Token) : Except ParseError Reader :=
  match t.kind with
  | .mark .lbrace => .ok ⟨items, .ready, .inside .block [] :: frames⟩
  | .keyword .int => .ok ⟨items, .declName .statement, frames⟩
  | .keyword .return_ => .ok ⟨items, .expr .ret .start, frames⟩
  | .keyword .if_ => .ok ⟨items, .header .if_, frames⟩
  | .keyword .while_ => .ok ⟨items, .header .while_, frames⟩
  | .keyword .for_ => .ok ⟨items, .header .for_, frames⟩
  | _ => inExpr items frames (.eval .statement) .start t

/-- Reads `t` where a statement may start. On the top level `int` starts a function, and the end of
the tokens may come; between braces the closing one may come. -/
def ready (items : List Stmt) (frames : List Frame) (t : Token) : Except ParseError Reader :=
  match frames, t.kind with
  | [], .keyword .int => .ok ⟨items, .functionName, []⟩
  | [], .eof => .ok ⟨items, .ready, []⟩
  | .inside body done :: frames, .mark .rbrace => .ok (deliver items (body.close done) frames)
  | .inside _ _ :: _, .eof => .error (.expected (.mark .rbrace) t)
  | _, _ => statement items frames t

/-- Reads `t`, which must be the sign `m` and leads to `next`. -/
def expect (m : Mark) (t : Token) (next : Reader) : Except ParseError Reader :=
  if t.kind = .mark m then .ok next else .error (.expected (.mark m) t)

/-- Reads `t`, which must be a name and leads to `next`. -/
def expectName (t : Token) (next : String → Reader) : Except ParseError Reader :=
  match t.kind with
  | .ident x => .ok (next x)
  | _ => .error (.expected .ident t)

/-- The focus behind the bracket of a header. -/
def headerFocus : Header → Focus
  | .if_ => .expr .ifCond .start
  | .while_ => .expr .whileCond .start
  | .for_ => .forInit

/-- Reads `t` where a parameter must start; its type may be left out. -/
def param (r : Reader) (name : String) (params : List String) (t : Token) :
    Except ParseError Reader :=
  if t.kind = .keyword .int then .ok { r with focus := .paramName name params }
  else expectName t fun x => { r with focus := .afterParam name (params ++ [x]) }

/-- Reads one token. The end of the tokens leaves a reader between two items as it is. -/
def step (r : Reader) (t : Token) : Except ParseError Reader :=
  match r.focus with
  | .ready => ready r.items r.frames t
  | .afterThen c s =>
    if t.kind = .keyword .else_ then
      .ok { r with focus := .ready, frames := .under (.elseOf c s) :: r.frames }
    else
      let settled := settle r.items (.ifElse c s none) r.frames
      ready settled.1 settled.2 t
  | .header h => expect .lparen t { r with focus := headerFocus h }
  | .forInit =>
    match t.kind with
    | .mark .semicolon => .ok { r with focus := .expr (.forCond none) .start }
    | .keyword .int => .ok { r with focus := .declName .forInit }
    | _ => inExpr r.items r.frames (.eval .forInit) .start t
  | .declName place => expectName t fun x => { r with focus := .declAssign place x }
  | .declAssign place x => expect .assign t { r with focus := .expr (.declInit place x) .start }
  | .expr purpose e => inExpr r.items r.frames purpose e t
  | .functionName => expectName t fun f => { r with focus := .functionParen f }
  | .functionParen f => expect .lparen t { r with focus := .params f }
  | .params f =>
    if t.kind = .mark .rparen then .ok { r with focus := .functionBrace f [] }
    else param r f [] t
  | .param f params => param r f params t
  | .paramName f params => expectName t fun x => { r with focus := .afterParam f (params ++ [x]) }
  | .afterParam f params =>
    if t.kind = .mark .comma then .ok { r with focus := .param f params }
    else expect .rparen t { r with focus := .functionBrace f params }
  | .functionBrace f params =>
    expect .lbrace t
      { r with focus := .ready, frames := .inside (.function f params) [] :: r.frames }

end Reader

end Stmt

end MiniC
