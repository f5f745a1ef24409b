import MiniC.Stmt.Layout

/-!
# Writing statements line by line

An emitter has the lines written so far and the depth of the next one. The statements below a header
or between braces are written one level deeper, and the level is left again behind them, also where
one of them has no form in JavaScript and nothing more is written.
-/

namespace MiniC

structure Emitter where
  lines : List Line
  depth : Nat
  deriving DecidableEq, Repr

/-- What is done with an emitter. -/
abbrev Emit := ExceptT LayoutError (StateM Emitter) Unit

namespace Emitter

def empty : Emitter := ⟨[], 0⟩

/-- Writes a line at the depth of the emitter. -/
def line (text : String) : Emit :=
  modify fun e => { e with lines := e.lines ++ [⟨e.depth, text⟩] }

def indent : StateM Emitter Unit :=
  modify fun e => { e with depth := e.depth + 1 }

/-- No depth is less than 0. -/
def dedent : StateM Emitter Unit :=
  modify fun e => { e with depth := e.depth - 1 }

/-- Does something one level deeper. The level is left again whatever comes of it. -/
def nested (inner : Emit) : Emit := ExceptT.mk do
  indent
  let result ← inner.run
  dedent
  return result

/-- The line that closes a body, if it is a block. -/
def closeBody (s : Stmt) : Emit := do
  if s.isBlock then
    line "\x7d"

mutual

def statement : Stmt → Emit
  | .decl x e => line ("let " ++ x ++ " = " ++ e.script ++ ";")
  | .eval e => line (e.script ++ ";")
  | .ret e => line ("return " ++ e.script ++ ";")
  | .ifElse c t e => ifElse "" c t e
  | .whileLoop c b => do
    body ("while (" ++ c.script ++ ")") b
    closeBody b
  | .forLoop init c u b => do
    let start ← Stmt.forStart init
    body ("for (" ++ start ++ "; " ++ c.script ++ "; " ++ u.script ++ ")") b
    closeBody b
  | .block ss => do
    line "\x7b"
    contents ss
    line "\x7d"
  | .function f params ss => throw ⟨(Stmt.function f params ss).label⟩
termination_by s => 3 * sizeOf s

/-- An `if`, with `word` in front of it on its line. -/
def ifElse (word : String) (c : Expr) (t : Stmt) (e : Option Stmt) : Emit := do
  body (word ++ "if (" ++ c.script ++ ")") t
  elseBranch t e
termination_by 3 * (sizeOf t + sizeOf e) + 2

/-- What follows the then-branch `t`. An `if` stays on the line of its `else`. -/
def elseBranch (t : Stmt) : Option Stmt → Emit
  | none => closeBody t
  | some (.ifElse c t' e) => ifElse (Stmt.elseWord t ++ " ") c t' e
  | some e => do
    body (Stmt.elseWord t) e
    closeBody e
termination_by e => 3 * sizeOf e + 1

/-- A header and the statement below it. The closing brace of a block is left to what follows. -/
def body (header : String) : Stmt → Emit
  | .block ss => do
    line (header ++ " \x7b")
    contents ss
  | s => do
    line header
    nested (statement s)
termination_by s => 3 * sizeOf s + 1

/-- The statements between two braces. -/
def contents (ss : List Stmt) : Emit :=
  nested (statements ss)
termination_by 3 * sizeOf ss + 1

def statements : List Stmt → Emit
  | [] => pure ()
  | s :: ss => do
    statement s
    statements ss
termination_by ss => 3 * sizeOf ss

end

/-- A top-level item. Functions may stand only here. -/
def item : Stmt → Emit
  | .function f params ss => do
    line ("function " ++ f ++ "(" ++ ", ".intercalate params ++ ") \x7b")
    contents ss
    line "\x7d"
  | s => statement s

end Emitter

end MiniC
