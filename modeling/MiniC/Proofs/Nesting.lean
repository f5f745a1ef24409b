import MiniC.Proofs.UniqueProgram
import MiniC.Text.Lines

/-!
# Nesting of lines

The braces at the ends of the lines of a text match as a stack says that holds the indentation of
each line with an open brace (`Braces.scan`), and each line is indented by how deep its statement
is nested (`Stmt.rows`).

A statement leaves the stack as it finds it (`Statement.lays_own`), but its parts do not: the first
line may open a brace for the lines behind it to close, and a then-branch that is a block leaves
its closing brace to the line of the `else`. `Statement.Nests` says what these parts do. Lines that
are put one behind the other take the stack from one to the next (`Lays.append`), and fit the rows
that are put one behind the other, so both are told by one induction.
-/

namespace MiniC

open Lexeme Grammar

/-! ## Lines of a text -/

theorem cutLines_cons {c : Char} {cs l : List Char} {ls : List (List Char)} (hc : '\n' ≠ c)
    (hcs : cs.head? ≠ some '\n') (h : cutLines cs = l :: ls) :
    cutLines (c :: cs) = (c :: l) :: ls := by
  rw [cutLines, h]
  · rintro ds - rfl
    exact hcs rfl
  · exact fun heq => hc heq.symm

theorem cutLines_line {l : List Char} (hne : l ≠ []) (hl : '\n' ∉ l) : cutLines l = [l] := by
  induction l with
  | nil => exact absurd rfl hne
  | cons c l ih =>
    rw [List.mem_cons, not_or] at hl
    rcases l with _ | ⟨d, l⟩
    · rw [cutLines]
      · rfl
      · simp
      · exact fun heq => hl.1 heq.symm
    · have hd : (d :: l).head? ≠ some '\n' := by
        rintro ⟨⟩
        exact hl.2 List.mem_cons_self
      exact cutLines_cons hl.1 hd (ih (List.cons_ne_nil d l) hl.2)

/-- A newline takes a carriage return along, so a line must not end with one. -/
theorem cutLines_append_newline {l : List Char} (hl : '\n' ∉ l) (hreturn : l.getLast? ≠ some '\r')
    (cs : List Char) : cutLines (l ++ '\n' :: cs) = l :: cutLines cs := by
  induction l with
  | nil => rfl
  | cons c l ih =>
    rw [List.mem_cons, not_or] at hl
    rcases l with _ | ⟨d, l⟩
    · rw [List.singleton_append, cutLines]
      · rfl
      · rintro ds rfl -
        exact hreturn rfl
      · exact fun heq => hl.1 heq.symm
    · have hd : (d :: l ++ '\n' :: cs).head? ≠ some '\n' := by
        rintro ⟨⟩
        exact hl.2 List.mem_cons_self
      rw [List.getLast?_cons_cons] at hreturn
      exact cutLines_cons hl.1 hd (ih hl.2 hreturn)

theorem lines_renderAll {ls : List Line} (htidy : AllTidy ls)
    (hreturn : ∀ l ∈ ls, l.text.toList.getLast? ≠ some '\r') :
    lines (Line.renderAll ls) = ls.map Line.render := by
  have hcut : cutLines (Line.renderAll ls).toList = ls.map fun l => l.render.toList := by
    induction ls with
    | nil => rfl
    | cons l ls ih =>
      rw [allTidy_cons] at htidy
      rw [List.forall_mem_cons] at hreturn
      obtain ⟨c, cs, hcs, -⟩ := htidy.1.start
      have hline := oneLine_render htidy.1.oneLine
      have hlast : l.render.toList.getLast? ≠ some '\r' := by
        rw [Line.render, String.toList_append, List.getLast?_append_of_ne_nil _ (by simp [hcs])]
        exact hreturn.1
      rcases ls with _ | ⟨m, ls⟩
      · have hne : l.render.toList ≠ [] := by simp [Line.render, hcs]
        rw [toList_renderAll, lineChars, List.flatMap_nil, List.append_nil, cutLines_line hne hline]
        rfl
      · have hcons : Line.renderAll (l :: m :: ls) = l.render ++ "\n" ++ Line.renderAll (m :: ls) :=
          String.intercalate_cons_cons
        rw [hcons, String.toList_append, String.toList_append, List.append_assoc]
        exact (cutLines_append_newline hline hlast _).trans
          (congrArg (l.render.toList :: ·) (ih htidy.2 hreturn.2))
  rw [lines, hcut, List.map_map]
  simp

theorem getLast?_text_append (a : String) {b : String} (hb : b ≠ "") :
    (a ++ b).toList.getLast? = b.toList.getLast? := by
  rw [String.toList_append, List.getLast?_append_of_ne_nil _ (by simpa using hb)]

/-! ## Braces -/

def indentation (line : String) : Nat := (line.toList.takeWhile (· = ' ')).length

def unindented (line : String) : String := String.ofList (line.toList.dropWhile (· = ' '))

namespace Braces

def closes (text : String) : Bool := text.toList.head? == some '\x7d'

def opens (text : String) : Bool := text.toList.getLast? == some '\x7b'

/-- The stack with `n` on top, if a brace is opened there. -/
def push (n : Nat) (isOpened : Bool) (stack : List Nat) : List Nat :=
  if isOpened then n :: stack else stack

/-- The stack without `n`, which must be on top, if a brace is closed there. -/
def pop (n : Nat) : Bool → List Nat → Option (List Nat)
  | false, stack => some stack
  | true, [] => none
  | true, top :: stack => if top = n then some stack else none

/-- What a line of this indentation does to the stack. -/
def step (indent : Nat) (text : String) (stack : List Nat) : Option (List Nat) :=
  (pop indent (closes text) stack).map (push indent (opens text))

/-- A line that starts with a closing brace takes its indentation from the stack, and then one that
ends with an opening brace puts its indentation there. -/
def scan (stack : List Nat) (line : String) : Option (List Nat) :=
  step (indentation line) (unindented line) stack

theorem step_push (indent : Nat) (text : String) (stack : List Nat) :
    step indent text (push indent (closes text) stack) = some (push indent (opens text) stack) := by
  rw [step]
  cases closes text <;> simp [push, pop]

theorem opens_append (a : String) {b : String} (hb : b ≠ "") : opens (a ++ b) = opens b := by
  rw [opens, opens, getLast?_text_append a hb]

/-- A header opens a brace if its body is a block. -/
theorem opens_suffix {header : String} (h : opens header = false) (body : Stmt) :
    opens (header ++ body.suffix) = body.isBlock := by
  unfold Stmt.suffix
  cases body.isBlock
  · exact (congrArg opens (String.append_empty)).trans h
  · exact opens_append header (by decide)

end Braces

theorem indentation_render {l : Line} (h : Tidy l.text) : indentation l.render = 4 * l.depth := by
  rw [indentation, (span_render h).1, List.length_replicate]

theorem unindented_render {l : Line} (h : Tidy l.text) : unindented l.render = l.text := by
  rw [unindented, (span_render h).2, String.ofList_toList]

/-! ## Rows -/

/-- A line of a statement that is nested `depth` levels deep. -/
structure Row where
  depth : Nat
  stmt : Stmt

namespace Stmt

def isIf : Stmt → Bool
  | .ifElse .. => true
  | _ => false

/-- The texts that lines of the statement can have. -/
def lineTexts : Stmt → List String
  | .decl x e => ["let " ++ x ++ " = " ++ e.script ++ ";"]
  | .eval e => [e.script ++ ";"]
  | .ret e => ["return " ++ e.script ++ ";"]
  | .ifElse c t e =>
    ["", "else ", "\x7d else "].map (· ++ ("if (" ++ c.script ++ ")" ++ t.suffix)) ++
      e.toList.map fun e => elseWord t ++ e.suffix
  | .whileLoop c b => ["while (" ++ c.script ++ ")" ++ b.suffix]
  | .forLoop init c u b =>
    (forStart init).toOption.toList.map fun start =>
      "for (" ++ start ++ "; " ++ c.script ++ "; " ++ u.script ++ ")" ++ b.suffix
  | .block _ => ["\x7b", "\x7d"]
  | .function f params _ =>
    ["function " ++ f ++ "(" ++ ", ".intercalate params ++ ") \x7b", "\x7d"]

/-- The rows of a body under a header of this depth. A block has its opening brace on the line of
the header, and anything else is one level deeper. -/
def underHeader (d : Nat) (isBlock : Bool) (rows : Nat → List Row) : List Row :=
  if isBlock then (rows d).tail else rows (d + 1)

/-- The rows of a then-branch in front of an `else`, which has the closing brace of a block on its
line. -/
def beforeElse (isBlock : Bool) (rows : List Row) : List Row :=
  if isBlock then rows.dropLast else rows

mutual

/-- The lines of a statement at this depth, each as a row. The statements of a function or a block
and a body without braces are one level deeper, but an `if` behind an `else` is not. -/
def rows (d : Nat) : Stmt → List Row
  | .decl x e => [⟨d, .decl x e⟩]
  | .eval e => [⟨d, .eval e⟩]
  | .ret e => [⟨d, .ret e⟩]
  | .ifElse c t e =>
    ⟨d, .ifElse c t e⟩ ::
      (beforeElse (t.isBlock && e.isSome) (underHeader d t.isBlock (rows · t)) ++
        elseRows d (.ifElse c t e) e)
  | .whileLoop c b => ⟨d, .whileLoop c b⟩ :: underHeader d b.isBlock (rows · b)
  | .forLoop init c u b => ⟨d, .forLoop init c u b⟩ :: underHeader d b.isBlock (rows · b)
  | .block body => ⟨d, .block body⟩ :: (allRows (d + 1) body ++ [⟨d, .block body⟩])
  | .function f params body =>
    ⟨d, .function f params body⟩ :: (allRows (d + 1) body ++ [⟨d, .function f params body⟩])

/-- The rows of the statement `s` from its `else` on. -/
def elseRows (d : Nat) (s : Stmt) : Option Stmt → List Row
  | none => []
  | some e =>
    if e.isIf then e.rows d else ⟨d, s⟩ :: underHeader d e.isBlock (rows · e)

def allRows (d : Nat) : List Stmt → List Row
  | [] => []
  | s :: ss => s.rows d ++ allRows d ss

end

theorem rows_eq_cons (d : Nat) (s : Stmt) : s.rows d = ⟨d, s⟩ :: (s.rows d).tail := by
  cases s <;> rfl

theorem allRows_eq_flatMap (d : Nat) (ss : List Stmt) : allRows d ss = ss.flatMap (rows d) := by
  induction ss with
  | nil => rfl
  | cons s ss ih => rw [allRows, ih, List.flatMap_cons]

/-- The rows of a body between those of its header and its closing brace. -/
def innerRows (d : Nat) (s : Stmt) : List Row :=
  beforeElse s.isBlock (underHeader d s.isBlock (rows · s))

theorem innerRows_block (d : Nat) (body : List Stmt) :
    innerRows d (.block body) = allRows (d + 1) body :=
  List.dropLast_concat

theorem innerRows_of_not_block {s : Stmt} (h : s.isBlock = false) (d : Nat) :
    innerRows d s = s.rows (d + 1) := by
  rw [innerRows, h]
  rfl

theorem tail_rows_block (d : Nat) (body : List Stmt) :
    (rows d (.block body)).tail = innerRows d (.block body) ++ [⟨d, .block body⟩] := by
  rw [innerRows_block]
  rfl

theorem tail_rows_ifThen (d : Nat) (c : Expr) (t : Stmt) :
    (rows d (.ifElse c t none)).tail = underHeader d t.isBlock (rows · t) := by
  simp [rows, elseRows, beforeElse]

theorem tail_rows_ifElse (d : Nat) (c : Expr) (t e : Stmt) :
    (rows d (.ifElse c t (some e))).tail =
      innerRows d t ++ elseRows d (.ifElse c t (some e)) (some e) := by
  simp [rows, innerRows]

end Stmt

def Row.Fits (r : Row) (l : Line) : Prop := l.depth = r.depth ∧ l.text ∈ r.stmt.lineTexts

open Braces

/-- The lines fit the rows, and with them the stack of open braces becomes `stack'`. -/
structure Lays (stack : List Nat) (rows : List Row) (ls : List Line) (stack' : List Nat) :
    Prop where
  braces : ls.foldlM (fun stack l => step (4 * l.depth) l.text stack) stack = some stack'
  rows : List.Forall₂ Row.Fits rows ls

theorem Lays.nil (stack : List Nat) : Lays stack [] [] stack := ⟨rfl, .nil⟩

theorem Lays.append {stack₁ stack₂ stack₃ : List Nat} {rs ss : List Row} {ls ms : List Line}
    (h : Lays stack₁ rs ls stack₂) (h' : Lays stack₂ ss ms stack₃) :
    Lays stack₁ (rs ++ ss) (ls ++ ms) stack₃ := by
  refine ⟨?_, List.rel_append h.rows h'.rows⟩
  rw [List.foldlM_append, h.braces]
  exact h'.braces

theorem Lays.flatMap {α : Type} {R : α → List Row} {L : α → List Line} {stack : List Nat} :
    ∀ {as : List α}, (∀ a ∈ as, Lays stack (R a) (L a) stack) →
      Lays stack (as.flatMap R) (as.flatMap L) stack
  | [], _ => .nil stack
  | a :: as, h => by
    rw [List.forall_mem_cons] at h
    exact h.1.append (Lays.flatMap h.2)

theorem lays_line {text : String} {s : Stmt} (htext : text ∈ s.lineTexts) {c o : Bool}
    (hcloses : closes text = c) (hopens : opens text = o) (d : Nat) (stack : List Nat) :
    Lays (push (4 * d) c stack) [⟨d, s⟩] [⟨d, text⟩] (push (4 * d) o stack) := by
  refine ⟨?_, .cons ⟨rfl, htext⟩ .nil⟩
  rw [← hcloses, ← hopens, List.foldlM_cons, step_push]
  rfl

theorem lays_brace {s : Stmt} (h : "\x7d" ∈ s.lineTexts) (d : Nat) (stack : List Nat) :
    Lays (4 * d :: stack) [⟨d, s⟩] [⟨d, "\x7d"⟩] stack := by
  have hcloses : closes "\x7d" = true := by decide
  have hopens : opens "\x7d" = false := by decide
  exact lays_line h hcloses hopens d stack

namespace Grammar.Statement

/-- Does the first line open a brace? -/
def opens : Statement → Bool
  | .decl .. | .ret _ | .eval _ => false
  | .block _ => true
  | .ifThen _ s | .ifElse _ s _ | .whileLoop _ s | .forLoop _ _ _ s => s.tree.isBlock

variable {s e : Statement}

theorem firstText_mem (s : Statement) : s.firstText ∈ s.tree.lineTexts := by
  cases s with
  | ifThen c s | ifElse c s e => simp [firstText, Statement.tree, Stmt.lineTexts]
  | forLoop init c u s =>
    simp [firstText, Statement.tree, Stmt.lineTexts, init.forStart_tree, Except.toOption]
  | _ => exact List.mem_cons_self

theorem closes_firstText (hs : s.Spelled) : closes s.firstText = false := by
  have hform := lineForm_firstText hs
  rw [Bool.eq_false_iff]
  intro hcloses
  rw [lineForm, beq_iff_eq.1 hcloses] at hform
  exact s.form_ne_more hform.symm

theorem opens_firstText (s : Statement) : Braces.opens s.firstText = s.opens := by
  have hheader (a : String) (s : Statement) :
      Braces.opens (a ++ ")" ++ s.tree.suffix) = s.tree.isBlock := by
    refine opens_suffix ?_ s.tree
    rw [opens_append a (by decide)]
    decide
  have hline (a : String) : Braces.opens (a ++ ";") = false := by
    rw [opens_append a (by decide)]
    decide
  cases s with
  | block ss =>
    have hbrace : Braces.opens "\x7b" = true := by decide
    exact hbrace
  | decl | ret | eval => exact hline _
  | ifThen c s | ifElse c s | whileLoop c s | forLoop init c u s => exact hheader _ s

/-- The lines behind the first close the brace that it opens, and those of a body between the
braces around it leave the stack as it is. -/
structure Nests (s : Statement) : Prop where
  inner : ∀ d stack, Lays stack (Stmt.innerRows d s.tree) (s.inner d) stack
  more : ∀ d stack,
    Lays (push (4 * d) s.opens stack) (s.tree.rows d).tail (s.moreLines d) stack

theorem lays_own (hs : s.Spelled) {d : Nat} {stack : List Nat}
    (hmore : Lays (push (4 * d) s.opens stack) (s.tree.rows d).tail (s.moreLines d) stack) :
    Lays stack (s.tree.rows d) (s.tree.emit .own d).lines stack := by
  rw [lines_own, Stmt.rows_eq_cons]
  exact (lays_line s.firstText_mem (closes_firstText hs) s.opens_firstText d stack).append hmore

theorem Nests.of_more (hblock : s.tree.isBlock = false) (hs : s.Spelled)
    (h : ∀ d stack,
      Lays (push (4 * d) s.opens stack) (s.tree.rows d).tail (s.moreLines d) stack) : s.Nests := by
  refine ⟨fun d stack => ?_, h⟩
  rw [inner_of_not_block hblock, Stmt.innerRows_of_not_block hblock]
  exact lays_own hs (h (d + 1) stack)

/-- A body with its closing brace, if it has one. -/
theorem Nests.closing (h : s.Nests) (d : Nat) (stack : List Nat) :
    Lays (push (4 * d) s.tree.isBlock stack)
      (Stmt.underHeader d s.tree.isBlock (Stmt.rows · s.tree))
      (s.inner d ++ (Stmt.closing d s.tree).lines) stack := by
  rcases hblock : s.tree.isBlock with _ | _
  · have hlines : s.inner d ++ (Stmt.closing d s.tree).lines = s.inner d := by
      rw [Stmt.closing, hblock]
      exact List.append_nil _
    have hinner := h.inner d stack
    rw [Stmt.innerRows_of_not_block hblock] at hinner
    rw [hlines]
    exact hinner
  · obtain ⟨ss, rfl⟩ := exists_of_isBlock hblock
    exact h.more d stack

theorem isIf_tree (s : Statement) : s.tree.isIf = true ↔ s.form = .cond := by
  cases s <;> simp [Statement.tree, Stmt.isIf, form]

theorem closes_elseWord (t : Stmt) (rest : String) :
    closes (Stmt.elseWord t ++ rest) = t.isBlock := by
  unfold Stmt.elseWord
  cases t.isBlock <;> simp [closes]

/-- An `if` behind an `else` has its first line there. -/
theorem else_firstText_mem (h : s.form = .cond) (t : Stmt) :
    Stmt.elseWord t ++ (" " ++ s.firstText) ∈ s.tree.lineTexts := by
  have hword : Stmt.elseWord t ++ " " = "else " ∨ Stmt.elseWord t ++ " " = "\x7d else " := by
    unfold Stmt.elseWord
    cases t.isBlock <;> simp
  rw [← String.append_assoc]
  cases s with
  | ifThen c s | ifElse c s e =>
    rcases hword with hword | hword <;> simp [hword, firstText, Statement.tree, Stmt.lineTexts]
  | _ => cases h

theorem Nests.orElse (h : e.Nests) (he : e.Spelled) (c : Expr) (t : Stmt) (d : Nat)
    (stack : List Nat) :
    Lays (push (4 * d) t.isBlock stack) (Stmt.elseRows d (.ifElse c t (some e.tree)) (some e.tree))
      (e.tree.emit (.elseBody (Stmt.elseWord t)) d).lines stack := by
  rw [lines_else, Stmt.elseRows, elseText, elseMore]
  by_cases hcond : e.form = .cond
  · have hopens : Braces.opens (Stmt.elseWord t ++ (" " ++ e.firstText)) = e.opens := by
      obtain ⟨c, cs, hcs, -⟩ := (tidy_firstText he).start
      have hne : e.firstText ≠ "" := by
        intro hempty
        simp [hempty] at hcs
      rw [← String.append_assoc, opens_append _ hne, opens_firstText]
    rw [if_pos ((isIf_tree e).2 hcond), if_pos hcond, if_pos hcond, Stmt.rows_eq_cons]
    exact (lays_line (else_firstText_mem hcond t) (closes_elseWord t _) hopens d stack).append
      (h.more d stack)
  · have hword : Braces.opens (Stmt.elseWord t) = false := by
      unfold Stmt.elseWord
      split <;> decide
    have hmem : Stmt.elseWord t ++ e.tree.suffix ∈
        (Stmt.ifElse c t (some e.tree)).lineTexts := by
      simp [Stmt.lineTexts]
    rw [if_neg fun h => hcond ((isIf_tree e).1 h), if_neg hcond, if_neg hcond]
    exact (lays_line hmem (closes_elseWord t _) (opens_suffix hword e.tree) d stack).append
      (h.closing d stack)

theorem nests (s : Statement) (hs : s.Spelled) : s.Nests := by
  induction s using Statement.induction with
  | block ss ih =>
    have hss := spelled_body hs
    have hinner (d : Nat) (stack : List Nat) :
        Lays stack (Stmt.innerRows d (block ss).tree) ((block ss).inner d) stack := by
      rw [Statement.tree, Stmt.innerRows_block, Stmt.allRows_eq_flatMap, bodyTrees_eq_map,
        List.flatMap_map, inner, lines_emitAll]
      exact Lays.flatMap fun s hs => lays_own (hss s hs) ((ih s hs (hss s hs)).more (d + 1) stack)
    refine ⟨hinner, fun d stack => ?_⟩
    rw [Statement.tree, Stmt.tail_rows_block]
    exact (hinner d _).append (lays_brace (by simp [Stmt.lineTexts]) d stack)
  | decl | ret | eval => exact .of_more rfl hs fun _ stack => .nil stack
  | ifThen c s ih =>
    refine .of_more rfl hs fun d stack => ?_
    rw [Statement.tree, Stmt.tail_rows_ifThen]
    exact (ih (spelled_ifThen.1 hs).2).closing d stack
  | ifElse c s e ihs ihe =>
    obtain ⟨-, hss, hse⟩ := spelled_ifElse.1 hs
    refine .of_more rfl hs fun d stack => ?_
    rw [Statement.tree, Stmt.tail_rows_ifElse]
    exact ((ihs hss).inner d _).append ((ihe hse).orElse hse c.expr s.tree d stack)
  | whileLoop c s ih => exact .of_more rfl hs (ih (spelled_whileLoop.1 hs).2).closing
  | forLoop init c u s ih => exact .of_more rfl hs (ih (spelled_forLoop.1 hs).2.2.2).closing

end Grammar.Statement

namespace Grammar

theorem Item.lays {i : Item} (hi : i.Spelled) (stack : List Nat) :
    Lays stack (i.tree.rows 0) (i.tree.emitItem 0).lines stack := by
  rw [lines_item]
  cases i with
  | function f params body =>
    have hbody := ((Statement.block body).nests (spelled_function hi).2.2).inner 0 (0 :: stack)
    rw [Statement.tree, Stmt.innerRows_block] at hbody
    have hcloses : closes (firstText (.function f params body)) = false := by
      simp [closes, firstText, String.append_assoc]
    have hopens : opens (firstText (.function f params body)) = true := by
      rw [firstText, opens_append _ (by decide)]
      decide
    have hfirst := lays_line (s := Item.tree (.function f params body))
      List.mem_cons_self hcloses hopens 0 stack
    exact hfirst.append (hbody.append (lays_brace (by simp [Stmt.lineTexts]) 0 stack))
  | statement s noInt =>
    have hown := Statement.lays_own hi ((s.nests hi).more 0 stack)
    rwa [Statement.lines_own] at hown

end Grammar

namespace Program

/-- A row for each line of the program. -/
def rows (p : Program) : List Row := (p.body ++ p.calls).flatMap (Stmt.rows 0)

end Program

theorem Derivation.lays_emit {d : Derivation} (hd : ∀ i ∈ d.writtenItems, i.Spelled) :
    Lays [] d.program.rows (d.program.emit 0).lines [] := by
  rw [Derivation.lines_emit, Program.rows, ← Derivation.map_tree_writtenItems, List.flatMap_map]
  exact Lays.flatMap fun i hi => Item.lays (hd i hi) []

/-! ## Lines of the text -/

theorem Stmt.getLast?_of_mem_lineTexts {s : Stmt} {text : String} (h : text ∈ s.lineTexts) :
    text.toList.getLast? ≠ some '\r' := by
  have hend (a : String) {b : String} (hb : b ≠ "" ∧ b.toList.getLast? ≠ some '\r') :
      (a ++ b).toList.getLast? ≠ some '\r' := by
    rw [getLast?_text_append a hb.1]
    exact hb.2
  have hsuffix (a : String) (body : Stmt) :
      (a ++ (")" ++ body.suffix)).toList.getLast? ≠ some '\r' := by
    refine hend a ?_
    unfold suffix
    cases body.isBlock <;> decide
  cases s with
  | decl | eval | ret =>
    obtain rfl := List.mem_singleton.1 h
    exact hend _ (by decide)
  | block body =>
    rw [lineTexts, List.mem_pair] at h
    rcases h with rfl | rfl <;> decide
  | function f params body =>
    rw [lineTexts, List.mem_pair] at h
    rcases h with rfl | rfl
    · exact hend _ (by decide)
    · decide
  | whileLoop c b =>
    obtain rfl := List.mem_singleton.1 h
    rw [String.append_assoc]
    exact hsuffix _ b
  | forLoop init c u b =>
    obtain ⟨start, -, rfl⟩ := List.mem_map.1 h
    rw [String.append_assoc]
    exact hsuffix _ b
  | ifElse c t e =>
    rcases List.mem_append.1 h with h | h
    · obtain ⟨word, -, rfl⟩ := List.mem_map.1 h
      rw [String.append_assoc, ← String.append_assoc]
      exact hsuffix _ t
    · obtain ⟨body, -, rfl⟩ := List.mem_map.1 h
      unfold elseWord suffix
      cases t.isBlock <;> cases body.isBlock <;> decide

theorem getLast?_of_fits {rs : List Row} {ls : List Line} (h : List.Forall₂ Row.Fits rs ls) :
    ∀ l ∈ ls, l.text.toList.getLast? ≠ some '\r' := by
  induction h with
  | nil => simp
  | cons hfits h ih =>
    exact List.forall_mem_cons.2 ⟨Stmt.getLast?_of_mem_lineTexts hfits.2, ih⟩

theorem foldlM_scan_render {ls : List Line} (h : AllTidy ls) (stack : List Nat) :
    (ls.map Line.render).foldlM Braces.scan stack =
      ls.foldlM (fun stack l => step (4 * l.depth) l.text stack) stack := by
  induction ls generalizing stack with
  | nil => rfl
  | cons l ls ih =>
    rw [allTidy_cons] at h
    simp only [List.map_cons, List.foldlM_cons, Braces.scan, indentation_render h.1,
      unindented_render h.1, ih h.2]

/-- The line is one of the row's statement, with four blanks in front for each level. -/
def Row.Shows (r : Row) (line : String) : Prop :=
  indentation line = 4 * r.depth ∧ unindented line ∈ r.stmt.lineTexts

theorem shows_render {rs : List Row} {ls : List Line} (h : List.Forall₂ Row.Fits rs ls)
    (htidy : AllTidy ls) : List.Forall₂ Row.Shows rs (ls.map Line.render) := by
  induction h with
  | nil => exact .nil
  | @cons r l rs ls hfits h ih =>
    rw [allTidy_cons] at htidy
    refine .cons ⟨?_, ?_⟩ (ih htidy.2)
    · rw [indentation_render htidy.1, hfits.1]
    · rw [unindented_render htidy.1]
      exact hfits.2

/-- The braces of a text match, each closing one at the indentation of the line that opens it, and
each line is indented by the depth of its statement. -/
theorem compile_nests {source js : String} (h : compile source = .ok js) :
    (lines js).foldlM Braces.scan [] = some [] ∧
      ∃ p, parseSource source = .ok p ∧ List.Forall₂ Row.Shows p.rows (lines js) := by
  obtain ⟨d, hparse, hspelled, rfl⟩ := exists_derivation_of_compile h
  have htidy := Derivation.allTidy_emit hspelled
  obtain ⟨hbraces, hrows⟩ := Derivation.lays_emit hspelled
  rw [lines_renderAll htidy (getLast?_of_fits hrows)]
  refine ⟨?_, d.program, hparse, shows_render hrows htidy⟩
  rw [foldlM_scan_render htidy, hbraces]

/-- `int main() { if (a) { s = "} {"; } else if (b) while (c) d; else { } return 0; }` -/
def chainedSource : String :=
  "int main()\x7bif(a)\x7bs=\"\x7d \x7b\";\x7delse if(b)while(c)d;else\x7b\x7dreturn 0;\x7d"

def chainedText : String :=
  "function main() \x7b\n    if (a) \x7b\n        s = \"\x7d \x7b\";\n    \x7d else if (b)\n" ++
    "        while (c)\n            d;\n    else \x7b\n    \x7d\n    return 0;\n\x7d\nmain();"

theorem compile_nests_chained :
    compile chainedSource = .ok chainedText ∧
      (lines chainedText).map indentation = [0, 4, 8, 4, 8, 12, 4, 4, 4, 0, 0] ∧
      (lines chainedText).foldlM Braces.scan [] = some [] ∧
      ∃ p, parseSource chainedSource = .ok p ∧
        List.Forall₂ Row.Shows p.rows (lines chainedText) := by
  have hcompile : compile chainedSource = .ok chainedText := by cbv
  have hindent : (lines chainedText).map indentation = [0, 4, 8, 4, 8, 12, 4, 4, 4, 0, 0] := by
    cbv
  exact ⟨hcompile, hindent, compile_nests hcompile⟩

end MiniC
