import MiniC.Proofs.UniqueProgram

/-!
# Declarations as bodies

JavaScript has no declaration as the body of an `if`, an `else` or a loop. A body that is no block
stands on the line below its header, and a header without a brace is the only line that ends in
neither a semicolon nor a brace (`isHeader`). So the text can be checked line by line
(`DeclarationsAllowed`). A body is written without braces whatever it is, so the text passes exactly
if no body of the program is a declaration (`declarationsAllowed_iff`).

The lines of a statement pass exactly if none of its bodies is a declaration, and the last of them
is no header (`Statement.Laid`), so lines of statements can be put one behind the other.
-/

namespace MiniC

open Lexeme Grammar

/-! ## Lines of a text -/

/-- The line ends with a header, and what is below is its body. -/
def isHeader (line : List Char) : Bool :=
  line.getLast?.any fun c => !([';', '\x7b', '\x7d'].contains c)

/-- The lower line is no declaration under a header. -/
def Allows (above below : List Char) : Prop :=
  lineForm (below.dropWhile (· = ' ')) = .decl → isHeader above = false

instance : DecidableRel Allows := fun above below =>
  inferInstanceAs
    (Decidable (lineForm (below.dropWhile (· = ' ')) = .decl → isHeader above = false))

/-- No line is a declaration under a header. -/
def DeclarationsAllowed (text : String) : Prop := (text.toList.splitOn '\n').IsChain Allows

instance (text : String) : Decidable (DeclarationsAllowed text) :=
  inferInstanceAs (Decidable ((text.toList.splitOn '\n').IsChain Allows))

theorem isHeader_append (a : List Char) {b : List Char} (hb : b ≠ []) :
    isHeader (a ++ b) = isHeader b := by
  rw [isHeader, isHeader, List.getLast?_append_of_ne_nil a hb]

theorem splitOn_renderAll {ls : List Line} (hne : ls ≠ []) (h : ∀ l ∈ ls, OneLine l.text) :
    (Line.renderAll ls).toList.splitOn '\n' = ls.map fun l => l.render.toList := by
  have hchars : (Line.renderAll ls).toList =
      ['\n'].intercalate (ls.map fun l => l.render.toList) := by
    rw [Line.renderAll, String.toList_intercalate, List.map_map]
    rfl
  rw [hchars, List.splitOn_intercalate]
  · intro cs hcs
    obtain ⟨l, hl, rfl⟩ := List.mem_map.1 hcs
    exact oneLine_render (h l hl)
  · simpa using hne

/-- As `Allows`, without the blanks in front. -/
def Line.Allows (above below : Line) : Prop :=
  lineForm below.text.toList = .decl → isHeader above.text.toList = false

theorem allows_render {l m : Line} (hl : Tidy l.text) (hm : Tidy m.text) :
    MiniC.Allows l.render.toList m.render.toList ↔ l.Allows m := by
  obtain ⟨c, cs, hcs, -⟩ := hl.start
  have habove : isHeader l.render.toList = isHeader l.text.toList := by
    rw [Line.render, String.toList_append, isHeader_append _ (by simp [hcs])]
  rw [MiniC.Allows, Line.Allows, habove, (span_render hm).2]

theorem declarationsAllowed_renderAll {ls : List Line} (h : AllTidy ls) :
    DeclarationsAllowed (Line.renderAll ls) ↔ ls.IsChain Line.Allows := by
  rcases eq_or_ne ls [] with rfl | hne
  · simp [DeclarationsAllowed, Line.renderAll]
  · rw [DeclarationsAllowed, splitOn_renderAll hne fun l hl => (h l hl).oneLine, List.isChain_map]
    exact List.IsChain.iff_of_mem_imp fun l m hl hm => allows_render (h l hl) (h m hm)

/-! ## Bodies -/

namespace Stmt

def isDecl : Stmt → Bool
  | .decl .. => true
  | _ => false

mutual

/-- All statements that are branches of an `if` or bodies of loops. -/
def bodies : Stmt → List Stmt
  | .decl .. | .eval _ | .ret _ => []
  | .ifElse _ t e => t :: t.bodies ++ elseBodies e
  | .whileLoop _ b | .forLoop _ _ _ b => b :: b.bodies
  | .block ss | .function _ _ ss => allBodies ss

def elseBodies : Option Stmt → List Stmt
  | none => []
  | some e => e :: e.bodies

def allBodies : List Stmt → List Stmt
  | [] => []
  | s :: ss => s.bodies ++ allBodies ss

end

end Stmt

/-- No body of the statement is a declaration. -/
def Stmt.BracesDecls (s : Stmt) : Prop := ∀ b ∈ s.bodies, b.isDecl = false

theorem Stmt.allBodies_eq_flatMap (ss : List Stmt) : allBodies ss = ss.flatMap bodies := by
  induction ss with
  | nil => rfl
  | cons s ss ih => rw [allBodies, ih, List.flatMap_cons]

/-! ## Lines that are put together -/

/-- The last line is no header. -/
def Complete (ls : List Line) : Prop := ∀ l ∈ ls.getLast?, isHeader l.text.toList = false

/-- The lines are allowed exactly if `P` holds, and any line can follow them. -/
def Passes (ls : List Line) (P : Prop) : Prop := (ls.IsChain Line.Allows ↔ P) ∧ Complete ls

theorem Complete.append (ls : List Line) {ms : List Line} (hne : ms ≠ []) (h : Complete ms) :
    Complete (ls ++ ms) := by
  rwa [Complete, List.getLast?_append_of_ne_nil ls hne]

theorem Complete.isChain_append {ls : List Line} (h : Complete ls) (ms : List Line) :
    (ls ++ ms).IsChain Line.Allows ↔ ls.IsChain Line.Allows ∧ ms.IsChain Line.Allows := by
  rw [List.isChain_append]
  constructor
  · exact fun hchain => ⟨hchain.1, hchain.2.1⟩
  · exact fun hchain => ⟨hchain.1, hchain.2, fun l hl _ _ _ => h l hl⟩

theorem Passes.flatMap {α : Type} {L : α → List Line} {P : α → Prop} :
    ∀ {as : List α}, (∀ a ∈ as, Passes (L a) (P a)) → Passes (as.flatMap L) (∀ a ∈ as, P a)
  | [], _ => by simp [Passes, Complete]
  | a :: as, h => by
    rw [List.forall_mem_cons] at h
    obtain ⟨⟨hchain, hcomplete⟩, has⟩ := h
    obtain ⟨hchains, hcompletes⟩ := Passes.flatMap has
    rw [List.flatMap_cons, Passes, hcomplete.isChain_append, hchain, hchains, List.forall_mem_cons]
    refine ⟨Iff.rfl, ?_⟩
    rcases hempty : as.flatMap L with _ | ⟨m, ms⟩
    · rw [List.append_nil]
      exact hcomplete
    · rw [← hempty]
      exact hcompletes.append _ (by simp [hempty])

section

variable {d : Nat} {text : String}

/-- A line that is no declaration may stand behind all lines. -/
theorem isChain_append_cons (h : lineForm text.toList ≠ .decl) (ls ms : List Line) :
    (ls ++ ⟨d, text⟩ :: ms).IsChain Line.Allows ↔
      ls.IsChain Line.Allows ∧ (⟨d, text⟩ :: ms : List Line).IsChain Line.Allows := by
  rw [List.isChain_append]
  constructor
  · exact fun hchain => ⟨hchain.1, hchain.2.1⟩
  · refine fun hchain => ⟨hchain.1, hchain.2, ?_⟩
    rintro _ - _ ⟨⟩ hdecl
    exact absurd hdecl h

/-- What may follow a line depends on its end only. -/
theorem Passes.of_isHeader_eq {text' : String} {ls : List Line} {P : Prop}
    (hpasses : Passes (⟨d, text'⟩ :: ls) P) (h : isHeader text.toList = isHeader text'.toList) :
    Passes (⟨d, text⟩ :: ls) P := by
  obtain ⟨hchain, hcomplete⟩ := hpasses
  refine ⟨?_, ?_⟩
  · rw [← hchain]
    simp only [List.isChain_cons, Line.Allows, h]
  · rcases ls with _ | ⟨m, ms⟩
    · rintro l ⟨⟩
      exact h.trans (hcomplete ⟨d, text'⟩ rfl)
    · exact hcomplete

theorem isChain_cons_of_not_header (h : isHeader text.toList = false) (ls : List Line) :
    (⟨d, text⟩ :: ls : List Line).IsChain Line.Allows ↔ ls.IsChain Line.Allows := by
  simp [List.isChain_cons, Line.Allows, h]

end

theorem isChain_append_closing (ls : List Line) (d : Nat) (s : Stmt) :
    (ls ++ (Stmt.closing d s).lines).IsChain Line.Allows ↔ ls.IsChain Line.Allows := by
  have hbrace : lineForm "\x7d".toList ≠ .decl := by decide
  unfold Stmt.closing
  split
  · exact (isChain_append_cons hbrace ls []).trans (by simp)
  · rw [Emission.ofLines, List.append_nil]

namespace Grammar

theorem isHeader_text (a : String) {b : String} (hb : b ≠ "") :
    isHeader (a ++ b).toList = isHeader b.toList := by
  rw [String.toList_append, isHeader_append _ (by simpa using hb)]

theorem Statement.isDecl_tree (s : Statement) : s.tree.isDecl = true ↔ s.form = .decl := by
  cases s <;> simp [Statement.tree, Stmt.isDecl, form]

namespace Statement

/-- The lines of the statement are allowed exactly if none of its bodies is a declaration. -/
def Laid (s : Statement) : Prop := ∀ d, Passes (s.tree.emit .own d).lines s.tree.BracesDecls

variable {s e : Statement}

theorem Laid.isChain_inner (h : s.Laid) (d : Nat) :
    (s.inner d).IsChain Line.Allows ↔ s.tree.BracesDecls := by
  rcases hblock : s.tree.isBlock with _ | _
  · rw [inner_of_not_block hblock]
    exact (h (d + 1)).1
  · obtain ⟨ss, rfl⟩ := exists_of_isBlock hblock
    have hown := (h d).1
    have hbrace : isHeader (block ss).firstText.toList = false := by
      rw [firstText]
      decide
    rw [lines_own, isChain_cons_of_not_header hbrace, moreLines, isChain_append_closing] at hown
    exact hown

/-- Under a header the statement itself may be no declaration either. -/
theorem Laid.isChain_under (h : s.Laid) (hs : s.Spelled) {header : String}
    (hheader : isHeader header.toList = true) (d : Nat) :
    (⟨d, header ++ s.tree.suffix⟩ :: s.inner d : List Line).IsChain Line.Allows ↔
      s.tree.isDecl = false ∧ s.tree.BracesDecls := by
  rw [← h.isChain_inner d]
  rcases hblock : s.tree.isBlock with _ | _
  · rw [Stmt.suffix_of_not_block hblock, inner_of_not_block hblock, lines_own, String.append_empty,
      List.isChain_cons_cons, Line.Allows, lineForm_firstText hs, hheader, ← isDecl_tree]
    simp
  · obtain ⟨ss, rfl⟩ := exists_of_isBlock hblock
    have hsuffix : (block ss).tree.suffix = " \x7b" := rfl
    have hdecl : (block ss).tree.isDecl = false := rfl
    have hbrace : isHeader (header ++ " \x7b").toList = false := by
      rw [isHeader_text header (by decide)]
      decide
    rw [hsuffix, hdecl, isChain_cons_of_not_header hbrace]
    exact (and_iff_right rfl).symm

theorem Laid.complete_under (h : s.Laid) (ls : List Line) (d : Nat) :
    Complete (ls ++ (s.inner d ++ (Stmt.closing d s.tree).lines)) := by
  rcases hblock : s.tree.isBlock with _ | _
  · have hlines : s.inner d ++ (Stmt.closing d s.tree).lines =
        (s.tree.emit .own (d + 1)).lines := by
      rw [inner_of_not_block hblock, Stmt.closing, hblock]
      exact List.append_nil _
    rw [hlines]
    exact (h (d + 1)).2.append ls (by simp [lines_own])
  · obtain ⟨ss, rfl⟩ := exists_of_isBlock hblock
    rw [← List.append_assoc]
    refine Complete.append _ (List.cons_ne_nil _ _) ?_
    have hbrace : isHeader "\x7d".toList = false := by decide
    rintro l ⟨⟩
    exact hbrace

theorem Laid.under (h : s.Laid) (hs : s.Spelled) {header : String}
    (hheader : isHeader header.toList = true) (d : Nat) :
    Passes (⟨d, header ++ s.tree.suffix⟩ :: (s.inner d ++ (Stmt.closing d s.tree).lines))
      (s.tree.isDecl = false ∧ s.tree.BracesDecls) := by
  refine ⟨?_, h.complete_under [_] d⟩
  rw [← List.cons_append, isChain_append_closing]
  exact h.isChain_under hs hheader d

theorem Laid.orElse (h : e.Laid) (he : e.Spelled) (t : Stmt) (d : Nat) :
    Passes (e.tree.emit (.elseBody (Stmt.elseWord t)) d).lines
      (e.tree.isDecl = false ∧ e.tree.BracesDecls) := by
  rw [lines_else]
  by_cases hcond : e.form = .cond
  · have hfirst : isHeader (Stmt.elseWord t ++ e.elseText).toList =
        isHeader e.firstText.toList := by
      obtain ⟨c, cs, hcs, -⟩ := (tidy_firstText he).start
      rw [elseText, if_pos hcond, ← String.append_assoc, isHeader_text]
      rintro hempty
      simp [hempty] at hcs
    have hdecl : e.tree.isDecl = false := by
      rw [Bool.eq_false_iff, ne_eq, isDecl_tree, hcond]
      decide
    have hown := h d
    rw [lines_own] at hown
    rw [elseMore, if_pos hcond, hdecl, eq_self, true_and]
    exact hown.of_isHeader_eq hfirst
  · have hword : isHeader (Stmt.elseWord t).toList = true := by
      unfold Stmt.elseWord
      split <;> decide
    rw [elseText, elseMore, if_neg hcond, if_neg hcond]
    exact h.under he hword d

theorem lineForm_else (t : Stmt) (e : Statement) :
    lineForm (Stmt.elseWord t ++ e.elseText).toList ≠ .decl := by
  rw [String.toList_append]
  unfold Stmt.elseWord
  split
  · rintro ⟨⟩
  · have hword : IsWord "else".toList := ⟨by decide, List.all_eq_true.1 (by decide)⟩
    rw [lineForm_word hword e.isWordChar_head_elseText]
    rintro ⟨⟩

/-- A statement that is a header with a body. -/
theorem Laid.headed (h : s.Laid) (hs : s.Spelled) {t : Statement} {header : String}
    (hbodies : t.tree.bodies = s.tree :: s.tree.bodies)
    (hfirst : t.firstText = header ++ ")" ++ s.tree.suffix)
    (hmore : ∀ d, t.moreLines d = s.inner d ++ (Stmt.closing d s.tree).lines) : t.Laid := by
  have hheader : isHeader (header ++ ")").toList = true := by
    rw [isHeader_text header (by decide)]
    decide
  intro d
  rw [lines_own, hfirst, hmore, Stmt.BracesDecls, hbodies, List.forall_mem_cons]
  exact h.under hs hheader d

theorem bracesDecls_ifElse {c : Chain} :
    (ifElse c s e).tree.BracesDecls ↔
      (s.tree.isDecl = false ∧ s.tree.BracesDecls) ∧
        e.tree.isDecl = false ∧ e.tree.BracesDecls := by
  simp [Statement.tree, Stmt.BracesDecls, Stmt.bodies, Stmt.elseBodies, List.forall_mem_append,
    -List.mem_append, and_assoc]

theorem bracesDecls_block {ss : List Statement} :
    (block ss).tree.BracesDecls ↔ ∀ s ∈ ss, s.tree.BracesDecls := by
  simp only [Statement.tree, Stmt.BracesDecls, Stmt.bodies, Stmt.allBodies_eq_flatMap,
    bodyTrees_eq_map, List.mem_flatMap, List.mem_map]
  grind

theorem laid_of_line {x : Statement} (hlines : ∀ d, (x.tree.emit .own d).lines = [⟨d, x.firstText⟩])
    (hbodies : x.tree.bodies = []) {text : String} (hend : x.firstText = text ++ ";") :
    x.Laid := by
  have hheader : isHeader x.firstText.toList = false := by
    rw [hend, isHeader_text text (by decide)]
    decide
  intro d
  rw [hlines, Passes, Stmt.BracesDecls, hbodies]
  refine ⟨by simp, ?_⟩
  rintro l ⟨⟩
  exact hheader

theorem laid (s : Statement) (hs : s.Spelled) : s.Laid := by
  induction s using Statement.induction with
  | block ss ih =>
    have hss := spelled_body hs
    intro d
    obtain ⟨hchain, -⟩ := Passes.flatMap fun s hs => ih s hs (hss s hs) (d + 1)
    have hopen : isHeader "\x7b".toList = false := by decide
    have hclose : isHeader "\x7d".toList = false := by decide
    rw [lines_own, Passes, bracesDecls_block, ← hchain, firstText, isChain_cons_of_not_header hopen,
      moreLines, isChain_append_closing, inner, lines_emitAll]
    refine ⟨Iff.rfl, ?_⟩
    rw [← List.cons_append]
    refine Complete.append _ (List.cons_ne_nil _ _) ?_
    rintro l ⟨⟩
    exact hclose
  | decl | ret | eval => exact laid_of_line (fun _ => rfl) rfl rfl
  | ifThen c s ih =>
    have hss := (spelled_ifThen.1 hs).2
    exact (ih hss).headed hss (List.append_nil _) rfl fun _ => rfl
  | ifElse c s e ihs ihe =>
    intro d
    obtain ⟨-, hss, hse⟩ := spelled_ifElse.1 hs
    obtain ⟨hchain, hcomplete⟩ := (ihe hse).orElse hse s.tree d
    have hthen := (ihs hss).isChain_under hss
      (isHeader_text ("if (" ++ c.expr.script) (b := ")") (by decide)) d
    rw [lines_own, bracesDecls_ifElse, ← hchain, ← hthen, moreLines, Passes, ← List.cons_append]
    rw [lines_else] at hcomplete ⊢
    exact ⟨isChain_append_cons (lineForm_else _ _) _ _, hcomplete.append _ (List.cons_ne_nil _ _)⟩
  | whileLoop c s ih =>
    have hss := (spelled_whileLoop.1 hs).2
    exact (ih hss).headed hss rfl rfl fun _ => rfl
  | forLoop init c u s ih =>
    have hss := (spelled_forLoop.1 hs).2.2.2
    exact (ih hss).headed hss rfl rfl fun _ => rfl

end Statement

theorem Item.passes_lines {i : Item} (hi : i.Spelled) :
    Passes (i.tree.emitItem 0).lines i.tree.BracesDecls := by
  rw [lines_item]
  cases i with
  | statement s noInt =>
    have hown := s.laid hi 0
    rw [Statement.lines_own] at hown
    exact hown
  | function f params body =>
    have hown := (Statement.block body).laid (spelled_function hi).2.2 0
    rw [Statement.lines_own] at hown
    refine hown.of_isHeader_eq ?_
    rw [firstText, isHeader_text _ (by decide), Statement.firstText]
    decide

end Grammar

/-- All statements of the program that are branches of an `if` or bodies of loops. -/
def Program.bodies (p : Program) : List Stmt := Stmt.allBodies p.body

theorem Derivation.passes_emit {d : Derivation} (hd : ∀ i ∈ d.writtenItems, i.Spelled) :
    Passes (d.program.emit 0).lines (∀ s ∈ d.program.bodies, s.isDecl = false) := by
  have hbodies : (∀ i ∈ d.writtenItems, i.tree.BracesDecls) ↔
      ∀ s ∈ d.program.bodies, s.isDecl = false := by
    have hcalls : ∀ s ∈ d.program.calls, s.BracesDecls := by
      unfold Program.calls Stmt.BracesDecls
      split <;> simp [Stmt.bodies]
    rw [← List.forall_mem_map (P := Stmt.BracesDecls), Derivation.map_tree_writtenItems,
      List.forall_mem_append, and_iff_left hcalls, Program.bodies, Stmt.allBodies_eq_flatMap]
    simp only [Stmt.BracesDecls, List.mem_flatMap]
    grind
  rw [Derivation.lines_emit, ← hbodies]
  exact Passes.flatMap fun i hi => Item.passes_lines (hd i hi)

/-- The text of a source declares names only where JavaScript allows it, exactly if no branch of an
`if` and no body of a loop in the program is a declaration. -/
theorem declarationsAllowed_iff {source js : String} (h : compile source = .ok js) :
    ∃ p, parseSource source = .ok p ∧
      (DeclarationsAllowed js ↔ ∀ s ∈ p.bodies, s.isDecl = false) := by
  obtain ⟨d, hparse, hspelled, rfl⟩ := exists_derivation_of_compile h
  refine ⟨d.program, hparse, ?_⟩
  rw [declarationsAllowed_renderAll (Derivation.allTidy_emit hspelled)]
  exact (Derivation.passes_emit hspelled).1

/-- `if (x) for (int i = 0; i < 3; i = i + 1) { int y = i; } else y;` -/
def bracedSource : String := "if(x)for(int i=0;i<3;i=i+1)\x7bint y=i;\x7delse y;"

def bracedText : String :=
  "if (x)\n    for (let i = 0; (i < 3); i = (i + 1)) \x7b\n        let y = i;\n    \x7d\n" ++
    "else\n    y;"

theorem declarationsAllowed_iff_braced :
    compile bracedSource = .ok bracedText ∧ DeclarationsAllowed bracedText ∧
      ∃ p, parseSource bracedSource = .ok p ∧ ∀ s ∈ p.bodies, s.isDecl = false := by
  have hcompile : compile bracedSource = .ok bracedText := by cbv
  have hallowed : DeclarationsAllowed bracedText := by decide
  obtain ⟨p, hparse, hiff⟩ := declarationsAllowed_iff hcompile
  exact ⟨hcompile, hallowed, p, hparse, hiff.1 hallowed⟩

/-- A declaration under an `if`. -/
theorem exists_declaration_not_allowed :
    ∃ js, compile "if (x) int y = 1;" = .ok js ∧ ¬ DeclarationsAllowed js :=
  ⟨"if (x)\n    let y = 1;", by cbv, by decide⟩

end MiniC
