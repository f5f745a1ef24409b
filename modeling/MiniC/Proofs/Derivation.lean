import MiniC.Program.Reader

/-!
# Derivations

The grammar of the language, a production a constructor. A derivation is a tree of productions;
its frontier is the token kinds it derives, in order, and its tree is the program it stands for.

The grammar derives some streams in several ways. An operand `x = e` may end before an operator or
take it into `e`, and an `else` may belong to any of the open `if`s before it. A derivation is
`Resolved` if values extend as far as they can and each `else` is that of the nearest `if`. How the
operators of a chain group is not in the grammar at all: `Grouping.group` splits a chain at its
weakest operator.
-/

namespace MiniC

/-- An operator and the operand to its right. -/
structure Expr.Link where
  op : BinOp
  operand : Expr

namespace Grouping

open MiniC.Expr (Link)

/-- A chain of links cut at one of them. -/
structure Cut where
  left : List Link
  link : Link
  right : List Link

variable (g : Grouping)

/-- Cuts the links `l :: ls` at the weakest. Of several it is the first if operators of one level
lean to the right, and the last if they lean to the left. -/
def weakest (l : Link) : List Link → Cut
  | [] => ⟨[], l, []⟩
  | m :: ls =>
    let cut := weakest m ls
    if g.floor l.op ≤ g.level cut.link.op then ⟨[], l, m :: ls⟩
    else ⟨l :: cut.left, cut.link, cut.right⟩

theorem level_le_floor (o : BinOp) : g.level o ≤ g.floor o := by
  unfold floor
  split <;> omega

theorem floor_le_level (o : BinOp) : g.floor o ≤ g.level o + 1 := by
  unfold floor
  split <;> omega

/-- Nothing is lost in the cut. -/
theorem weakest_append : ∀ (l : Link) (ls : List Link),
    (g.weakest l ls).left ++ (g.weakest l ls).link :: (g.weakest l ls).right = l :: ls
  | _, [] => rfl
  | l, m :: ls => by
    simp only [weakest]
    split
    · rfl
    · rw [List.cons_append, weakest_append m ls]

/-- No link to the left can take the weakest into its right operand. -/
theorem level_weakest_lt : ∀ (l : Link) (ls : List Link),
    ∀ m ∈ (g.weakest l ls).left, g.level (g.weakest l ls).link.op < g.floor m.op
  | l, [] => by simp [weakest]
  | l, m :: ls => by
    simp only [weakest]
    split
    · simp
    · rename_i h
      intro k hk
      rcases List.mem_cons.1 hk with rfl | hk
      · exact Nat.lt_of_not_le h
      · exact level_weakest_lt m ls k hk

/-- All links to the right join the right operand of the weakest. -/
theorem floor_weakest_le : ∀ (l : Link) (ls : List Link),
    ∀ m ∈ (g.weakest l ls).right, g.floor (g.weakest l ls).link.op ≤ g.level m.op
  | l, [] => by simp [weakest]
  | l, m :: ls => by
    simp only [weakest]
    split
    · rename_i h
      intro k hk
      rw [← weakest_append g m ls, List.mem_append, List.mem_cons] at hk
      refine Nat.le_trans h ?_
      rcases hk with hk | rfl | hk
      · have := level_weakest_lt g m ls k hk
        have := floor_le_level g k.op
        omega
      · exact Nat.le_refl _
      · exact Nat.le_trans (level_le_floor g _) (floor_weakest_le m ls k hk)
    · exact floor_weakest_le m ls

theorem length_weakest (l : Link) (ls : List Link) :
    (g.weakest l ls).left.length + (g.weakest l ls).right.length = ls.length := by
  have h := congrArg List.length (weakest_append g l ls)
  simp only [List.length_append, List.length_cons] at h
  omega

/-- The tree of the chain that starts with `e` and goes on with the links: the chain is split at its
weakest link, and both sides are grouped in the same way. -/
def group (e : Expr) : List Link → Expr
  | [] => e
  | l :: ls =>
    .binary (g.weakest l ls).link.op (group e (g.weakest l ls).left)
      (group (g.weakest l ls).link.operand (g.weakest l ls).right)
termination_by ls => ls.length
decreasing_by
  all_goals
    have := length_weakest g l ls
    simp only [List.length_cons]
    omega

end Grouping

namespace Grammar

mutual

/-- `operand ::= NUMBER | STRING | IDENT | IDENT '(' (expr (',' expr)*)? ')' | IDENT '=' expr |
'(' expr ')'` -/
inductive Operand
  | number (value : Int)
  | string (raw : String)
  | name (name : String)
  | call (callee : String) (args : List Chain)
  | assign (name : String) (value : Chain)
  | group (inner : Chain)

/-- `expr ::= operand (binop operand)*` -/
inductive Chain
  | last (operand : Operand)
  | more (operand : Operand) (op : BinOp) (rest : Chain)

end

/-- `';' | INT IDENT '=' expr ';' | expr ';'` -/
inductive ForInit
  | none
  | decl (name : String) (init : Chain)
  | eval (value : Chain)

/-- `statement ::= '{' statement* '}' | INT IDENT '=' expr ';' | RETURN expr ';' |
IF '(' expr ')' statement (ELSE statement)? | WHILE '(' expr ')' statement |
FOR '(' init expr ';' expr ')' statement | expr ';'` -/
inductive Statement
  | block (body : List Statement)
  | decl (name : String) (init : Chain)
  | ret (value : Chain)
  | ifThen (cond : Chain) (thenBranch : Statement)
  | ifElse (cond : Chain) (thenBranch elseBranch : Statement)
  | whileLoop (cond : Chain) (body : Statement)
  | forLoop (init : ForInit) (cond update : Chain) (body : Statement)
  | eval (value : Chain)

/-- `param ::= INT? IDENT` -/
structure Param where
  typed : Bool
  name : String

/-! ## Frontiers -/

mutual

def Operand.frontier : Operand → List Kind
  | .number n => [.number n]
  | .string raw => [.string raw]
  | .name x => [.ident x]
  | .call f args => .ident f :: .mark .lparen :: (argFrontier args ++ [.mark .rparen])
  | .assign x v => .ident x :: .mark .assign :: v.frontier
  | .group c => .mark .lparen :: (c.frontier ++ [.mark .rparen])

def Chain.frontier : Chain → List Kind
  | .last o => o.frontier
  | .more o op c => o.frontier ++ .op op :: c.frontier

/-- `(expr (',' expr)*)?` -/
def argFrontier : List Chain → List Kind
  | [] => []
  | c :: cs => c.frontier ++ moreArgFrontier cs

/-- `(',' expr)*` -/
def moreArgFrontier : List Chain → List Kind
  | [] => []
  | c :: cs => .mark .comma :: (c.frontier ++ moreArgFrontier cs)

end

/-- `INT IDENT '=' expr ';'` -/
def declFrontier (x : String) (e : Chain) : List Kind :=
  .keyword .int :: .ident x :: .mark .assign :: (e.frontier ++ [.mark .semicolon])

/-- `WORD '(' expr ')'` -/
def headFrontier (word : Keyword) (c : Chain) : List Kind :=
  .keyword word :: .mark .lparen :: (c.frontier ++ [.mark .rparen])

def ForInit.frontier : ForInit → List Kind
  | .none => [.mark .semicolon]
  | .decl x e => declFrontier x e
  | .eval e => e.frontier ++ [.mark .semicolon]

/-- `FOR '(' init expr ';' expr ')'` -/
def forFrontier (init : ForInit) (c u : Chain) : List Kind :=
  .keyword .for_ :: .mark .lparen ::
    (init.frontier ++ (c.frontier ++ .mark .semicolon :: (u.frontier ++ [.mark .rparen])))

mutual

def Statement.frontier : Statement → List Kind
  | .block body => .mark .lbrace :: (bodyFrontier body ++ [.mark .rbrace])
  | .decl x e => declFrontier x e
  | .ret e => .keyword .return_ :: (e.frontier ++ [.mark .semicolon])
  | .ifThen c s => headFrontier .if_ c ++ s.frontier
  | .ifElse c s e => headFrontier .if_ c ++ (s.frontier ++ .keyword .else_ :: e.frontier)
  | .whileLoop c s => headFrontier .while_ c ++ s.frontier
  | .forLoop init c u s => forFrontier init c u ++ s.frontier
  | .eval e => e.frontier ++ [.mark .semicolon]

/-- `statement*` -/
def bodyFrontier : List Statement → List Kind
  | [] => []
  | s :: ss => s.frontier ++ bodyFrontier ss

end

def Param.frontier (p : Param) : List Kind :=
  if p.typed then [.keyword .int, .ident p.name] else [.ident p.name]

/-- `(',' param)*` -/
def moreParamFrontier : List Param → List Kind
  | [] => []
  | p :: ps => .mark .comma :: (p.frontier ++ moreParamFrontier ps)

/-- `(param (',' param)*)?` -/
def paramFrontier : List Param → List Kind
  | [] => []
  | p :: ps => p.frontier ++ moreParamFrontier ps

/-- `INT IDENT '(' params ')' '{'` -/
def functionFrontier (f : String) (params : List Param) : List Kind :=
  .keyword .int :: .ident f :: .mark .lparen ::
    (paramFrontier params ++ [.mark .rparen, .mark .lbrace])

/-- `item ::= function | a statement not starting with INT` and
`function ::= INT IDENT '(' (param (',' param)*)? ')' '{' statement* '}'` -/
inductive Item
  | function (name : String) (params : List Param) (body : List Statement)
  | statement (s : Statement) (noInt : s.frontier.head? ≠ some (.keyword .int))

def Item.frontier : Item → List Kind
  | .function f params body =>
    functionFrontier f params ++ (bodyFrontier body ++ [.mark .rbrace])
  | .statement s _ => s.frontier

end Grammar

/-- `program ::= item*` -/
structure Derivation where
  items : List Grammar.Item

/-- The token kinds that are derived. -/
def Derivation.frontier (d : Derivation) : List Kind :=
  d.items.flatMap Grammar.Item.frontier

namespace Grammar

/-! ## Trees -/

section Tree

variable (g : Grouping)

mutual

def Operand.tree : Operand → Expr
  | .number n => .literal n
  | .string raw => .string raw
  | .name x => .variable x
  | .call f args => .call f (argTrees args)
  | .assign x v => .assign x v.tree
  | .group c => c.tree

def Chain.tree : Chain → Expr
  | .last o => o.tree
  | .more o op c => g.group o.tree (c.links op)

/-- The links of a chain that `op` joins to what stands before it. -/
def Chain.links (op : BinOp) : Chain → List Expr.Link
  | .last o => [⟨op, o.tree⟩]
  | .more o next c => ⟨op, o.tree⟩ :: c.links next

def argTrees : List Chain → List Expr
  | [] => []
  | c :: cs => c.tree :: argTrees cs

end

end Tree

/-- The tree of a chain as the language groups it. -/
def Chain.expr (c : Chain) : Expr := c.tree .standard

def ForInit.tree : ForInit → Option Stmt
  | .none => Option.none
  | .decl x e => some (.decl x e.expr)
  | .eval e => some (.eval e.expr)

mutual

def Statement.tree : Statement → Stmt
  | .block body => .block (bodyTrees body)
  | .decl x e => .decl x e.expr
  | .ret e => .ret e.expr
  | .ifThen c s => .ifElse c.expr s.tree none
  | .ifElse c s e => .ifElse c.expr s.tree (some e.tree)
  | .whileLoop c s => .whileLoop c.expr s.tree
  | .forLoop init c u s => .forLoop init.tree c.expr u.expr s.tree
  | .eval e => .eval e.expr

def bodyTrees : List Statement → List Stmt
  | [] => []
  | s :: ss => s.tree :: bodyTrees ss

end

def Item.tree : Item → Stmt
  | .function f params body => .function f (params.map Param.name) (bodyTrees body)
  | .statement s _ => s.tree

/-! ## Ambiguities -/

def Operand.isAssign : Operand → Bool
  | .assign .. => true
  | _ => false

mutual

def Operand.Resolved : Operand → Prop
  | .call _ args => ArgsResolved args
  | .assign _ v => v.Resolved
  | .group c => c.Resolved
  | _ => True

/-- Each assignment's value extends as far to the right as it can: an assignment that an operator
follows would have taken it into its value. -/
def Chain.Resolved : Chain → Prop
  | .last o => o.Resolved
  | .more o _ c => o.isAssign = false ∧ o.Resolved ∧ c.Resolved

def ArgsResolved : List Chain → Prop
  | [] => True
  | c :: cs => c.Resolved ∧ ArgsResolved cs

end

def ForInit.Resolved : ForInit → Prop
  | .none => True
  | .decl _ e | .eval e => e.Resolved

/-- Does the statement end in an `if` without `else`, so that an `else` behind it could be that
`if`'s? -/
def Statement.isOpen : Statement → Bool
  | .ifThen _ _ => true
  | .ifElse _ _ e => e.isOpen
  | .whileLoop _ s | .forLoop _ _ _ s => s.isOpen
  | _ => false

mutual

/-- Each `else` belongs to the nearest `if` before it that can take it: the then-branch in front
of an `else` does not end in an `if` that could take it. -/
def Statement.Resolved : Statement → Prop
  | .block body => BodyResolved body
  | .decl _ e | .ret e | .eval e => e.Resolved
  | .ifThen c s | .whileLoop c s => c.Resolved ∧ s.Resolved
  | .ifElse c s e => c.Resolved ∧ s.Resolved ∧ s.isOpen = false ∧ e.Resolved
  | .forLoop init c u s => init.Resolved ∧ c.Resolved ∧ u.Resolved ∧ s.Resolved

def BodyResolved : List Statement → Prop
  | [] => True
  | s :: ss => s.Resolved ∧ BodyResolved ss

end

def Item.Resolved : Item → Prop
  | .function _ _ body => BodyResolved body
  | .statement s _ => s.Resolved

end Grammar

namespace Derivation

/-- The program that is derived. -/
def program (d : Derivation) : Program := ⟨d.items.map Grammar.Item.tree⟩

def Resolved (d : Derivation) : Prop := ∀ i ∈ d.items, i.Resolved

end Derivation

end MiniC
