import MiniC.Program.Reader

/-!
# Parsing by descent

A parser has a list of tokens and a cursor into it. There is a function for each construct of the
language, which reads that construct from the cursor on and leaves the cursor behind it. An error
leaves the cursor where it was found, so that a parser can be asked again for the program that
follows.

Nothing here says that a loop ends or that the cursor is at a token. A parser that never ends, and
one that looks for a token where there is none, have no outcome at all.
-/

namespace MiniC

/-- The tokens of a parser. They stay as they are, and only the cursor moves. -/
abbrev Tokens := List Token

/-- What a parser does: it moves the cursor, and then gives a value or an error, if it comes to that
at all. -/
abbrev Parse (α : Type) := ExceptT ParseError (StateT Nat Option) α

namespace Tokens

/-! ## Single tokens -/

/-- The token at the cursor. -/
def peek (ts : Tokens) : Parse Token := do
  let position ← get
  ts[position]?

def isAtEnd (ts : Tokens) : Parse Bool := do
  return (← ts.peek).kind = .eof

/-- Reads the token at the cursor. The end token is never passed. -/
def advance (ts : Tokens) : Parse Token := do
  let t ← ts.peek
  unless ← ts.isAtEnd do
    modify (· + 1)
  return t

/-- Has the token at the cursor this tag? -/
def check (ts : Tokens) (tag : Tag) : Parse Bool := do
  return (← ts.peek).kind.tag = tag

/-- Reads the token at the cursor if it has this tag. -/
def accept (ts : Tokens) (tag : Tag) : Parse Bool := do
  if ← ts.check tag then
    let _ ← ts.advance
    return true
  return false

/-- Reads a token that must have this tag. -/
def expect (ts : Tokens) (tag : Tag) : Parse Unit := do
  let t ← ts.advance
  unless t.kind.tag = tag do
    throw (.expected tag t)

def expectName (ts : Tokens) : Parse String := do
  let t ← ts.advance
  match t.kind with
  | .ident x => return x
  | _ => throw (.expected .ident t)

/-! ## Expressions -/

mutual

/-- An expression whose operators have at least the precedence `floor`. -/
def expression (ts : Tokens) (floor : Nat) : Parse Expr := do
  let left ← ts |>.operand
  ts |>.operators floor left
partial_fixpoint

/-- Goes on with the expression `left` as long as there are operators for it. -/
def operators (ts : Tokens) (floor : Nat) (left : Expr) : Parse Expr := do
  match (← ts.peek).kind with
  | .op o =>
    if o.precedence < floor then
      return left
    let _ ← ts.advance
    let right ← ts |>.expression o.precedence
    ts |>.operators floor (.binary o left right)
  | _ => return left
partial_fixpoint

def operand (ts : Tokens) : Parse Expr := do
  let t ← ts.advance
  match t.kind with
  | .number n => return .literal n
  | .string raw => return .string raw
  | .ident x =>
    if ← ts.accept (.mark .lparen) then
      let args ← ts |>.arguments
      ts.expect (.mark .rparen)
      return .call x args
    else if ← ts.accept (.mark .assign) then
      let value ← ts |>.expression Grouping.lowest
      return .assign x value
    else
      return .variable x
  | .mark .lparen =>
    let e ← ts |>.expression Grouping.lowest
    ts.expect (.mark .rparen)
    return e
  | _ => throw (.noOperand t)
partial_fixpoint

def arguments (ts : Tokens) : Parse (List Expr) := do
  if ← ts.check (.mark .rparen) then
    return []
  ts |>.moreArguments []
partial_fixpoint

/-- One more argument behind `args`, and those behind it. -/
def moreArguments (ts : Tokens) (args : List Expr) : Parse (List Expr) := do
  let e ← ts |>.expression Grouping.lowest
  if ← ts.accept (.mark .comma) then
    ts |>.moreArguments (args ++ [e])
  else
    return args ++ [e]
partial_fixpoint

end

/-! ## Statements -/

def declaration (ts : Tokens) : Parse Stmt := do
  ts.expect (.keyword .int)
  let x ← ts.expectName
  ts.expect (.mark .assign)
  let e ← ts |>.expression Grouping.lowest
  ts.expect (.mark .semicolon)
  return .decl x e

def evaluation (ts : Tokens) : Parse Stmt := do
  let e ← ts |>.expression Grouping.lowest
  ts.expect (.mark .semicolon)
  return .eval e

def returning (ts : Tokens) : Parse Stmt := do
  ts.expect (.keyword .return_)
  let e ← ts |>.expression Grouping.lowest
  ts.expect (.mark .semicolon)
  return .ret e

/-- The first part of a `for`, with its semicolon. -/
def forStart (ts : Tokens) : Parse (Option Stmt) := do
  if ← ts.accept (.mark .semicolon) then
    return none
  else if ← ts.check (.keyword .int) then
    let s ← ts |>.declaration
    return some s
  else
    let s ← ts |>.evaluation
    return some s

mutual

def statement (ts : Tokens) : Parse Stmt := do
  match (← ts.peek).kind with
  | .mark .lbrace => ts |>.block
  | .keyword .int => ts |>.declaration
  | .keyword .return_ => ts |>.returning
  | .keyword .if_ => ts |>.ifElse
  | .keyword .while_ => ts |>.whileLoop
  | .keyword .for_ => ts |>.forLoop
  | _ => ts |>.evaluation
partial_fixpoint

/-- The statements behind `done`, up to a closing brace or the end. -/
def statements (ts : Tokens) (done : List Stmt) : Parse (List Stmt) := do
  if ← ts.check (.mark .rbrace) then
    return done
  if ← ts.isAtEnd then
    return done
  let s ← ts |>.statement
  ts |>.statements (done ++ [s])
partial_fixpoint

def block (ts : Tokens) : Parse Stmt := do
  ts.expect (.mark .lbrace)
  let body ← ts |>.statements []
  ts.expect (.mark .rbrace)
  return .block body
partial_fixpoint

/-- An `else` belongs to the nearest `if`. -/
def ifElse (ts : Tokens) : Parse Stmt := do
  ts.expect (.keyword .if_)
  ts.expect (.mark .lparen)
  let c ← ts |>.expression Grouping.lowest
  ts.expect (.mark .rparen)
  let thenBranch ← ts |>.statement
  if ← ts.accept (.keyword .else_) then
    let elseBranch ← ts |>.statement
    return .ifElse c thenBranch (some elseBranch)
  else
    return .ifElse c thenBranch none
partial_fixpoint

def whileLoop (ts : Tokens) : Parse Stmt := do
  ts.expect (.keyword .while_)
  ts.expect (.mark .lparen)
  let c ← ts |>.expression Grouping.lowest
  ts.expect (.mark .rparen)
  let body ← ts |>.statement
  return .whileLoop c body
partial_fixpoint

def forLoop (ts : Tokens) : Parse Stmt := do
  ts.expect (.keyword .for_)
  ts.expect (.mark .lparen)
  let init ← ts |>.forStart
  let c ← ts |>.expression Grouping.lowest
  ts.expect (.mark .semicolon)
  let update ← ts |>.expression Grouping.lowest
  ts.expect (.mark .rparen)
  let body ← ts |>.statement
  return .forLoop init c update body
partial_fixpoint

end

/-! ## Items -/

/-- One more parameter behind `params`, and those behind it. A type may stand before each. -/
def moreParameters (ts : Tokens) (params : List String) : Parse (List String) := do
  let _ ← ts.accept (.keyword .int)
  let x ← ts.expectName
  if ← ts.accept (.mark .comma) then
    ts |>.moreParameters (params ++ [x])
  else
    return params ++ [x]
partial_fixpoint

def parameters (ts : Tokens) : Parse (List String) := do
  if ← ts.check (.mark .rparen) then
    return []
  ts |>.moreParameters []

def function (ts : Tokens) : Parse Stmt := do
  ts.expect (.keyword .int)
  let f ← ts.expectName
  ts.expect (.mark .lparen)
  let params ← ts |>.parameters
  ts.expect (.mark .rparen)
  ts.expect (.mark .lbrace)
  let body ← ts |>.statements []
  ts.expect (.mark .rbrace)
  return .function f params body

/-- The items behind `done`, up to the end. On the top level `int` starts a function. -/
def items (ts : Tokens) (done : List Stmt) : Parse (List Stmt) := do
  if ← ts.isAtEnd then
    return done
  if ← ts.check (.keyword .int) then
    let s ← ts |>.function
    ts |>.items (done ++ [s])
  else
    let s ← ts |>.statement
    ts |>.items (done ++ [s])
partial_fixpoint

def program (ts : Tokens) : Parse Program := do
  let body ← ts |>.items []
  return ⟨body⟩

end Tokens

structure Parser where
  tokens : Tokens
  position : Nat
  deriving DecidableEq, Repr

namespace Parser

/-- The parser in front of the first token. If no end token is the last one, it is added. -/
def ofTokens (ts : List Token) : Parser := ⟨Stream.closed ts, 0⟩

/-- Reads a program from the cursor on: what comes of it, and the parser behind it. -/
def parse (p : Parser) : Option (Except ParseError Program × Parser) := do
  let (result, position) ← p.tokens.program.run.run p.position
  return (result, { p with position })

/-- Reads `n` programs, one behind the other: what comes of each, and the parser behind them. -/
def programs (p : Parser) : Nat → Option (List (Except ParseError Program) × Parser)
  | 0 => some ([], p)
  | n + 1 => do
    let (results, p) ← p.programs n
    let (result, p) ← p.parse
    return (results ++ [result], p)

end Parser

end MiniC
