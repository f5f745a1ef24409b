import MiniC.Proofs.JoinedSource
import MiniC.Proofs.RoundTrip
import MiniC.Proofs.UniqueLayout

/-!
# Programs with the same text

The text of a program that was read determines it. Its lines can be read off the text, since none
of them has a newline or starts with a blank (`renderAll_inj`), the items can be read off the lines
(`Item.cancel`), and the call of `main` at the end is there exactly if an item defines `main`.
-/

namespace MiniC

open Lexeme Grammar

/-! ## Lines of a text -/

/-- The text has no newline. -/
def OneLine (text : String) : Prop := '\n' ∉ text.toList

instance (text : String) : Decidable (OneLine text) :=
  inferInstanceAs (Decidable ('\n' ∉ text.toList))

theorem oneLine_append {a b : String} : OneLine (a ++ b) ↔ OneLine a ∧ OneLine b := by
  simp [OneLine]

/-- The text is a line that starts with a character other than a blank. -/
structure Tidy (text : String) : Prop where
  oneLine : OneLine text
  start : ∃ c cs, text.toList = c :: cs ∧ c ≠ ' '

theorem Tidy.append {a b : String} (ha : Tidy a) (hb : OneLine b) : Tidy (a ++ b) := by
  obtain ⟨c, cs, hcs, hc⟩ := ha.start
  exact ⟨oneLine_append.2 ⟨ha.oneLine, hb⟩, c, cs ++ b.toList, by simp [hcs], hc⟩

/-- The blanks in front of a line are its indentation. -/
theorem span_render {l : Line} (h : Tidy l.text) :
    l.render.toList.takeWhile (· = ' ') = List.replicate (4 * l.depth) ' ' ∧
      l.render.toList.dropWhile (· = ' ') = l.text.toList := by
  obtain ⟨c, cs, hcs, hc⟩ := h.start
  rw [Line.render, String.toList_append, String.toList_ofList]
  refine takeWhile_of_head ?_ (by simpa [hcs] using hc)
  intro d hd
  simp [List.eq_of_mem_replicate hd]

theorem render_inj {l m : Line} (hl : Tidy l.text) (hm : Tidy m.text)
    (h : l.render.toList = m.render.toList) : l = m := by
  obtain ⟨hdepth, htext⟩ := span_render hl
  obtain ⟨hdepth', htext'⟩ := span_render hm
  rw [h, hdepth'] at hdepth
  rw [h, htext'] at htext
  have hlength := congrArg List.length hdepth
  rw [List.length_replicate, List.length_replicate] at hlength
  have hdepths : l.depth = m.depth := by omega
  have htexts : l.text = m.text := String.toList_inj.1 htext.symm
  cases l
  cases m
  rw [Line.mk.injEq]
  exact ⟨hdepths, htexts⟩

theorem oneLine_render {l : Line} (h : OneLine l.text) : OneLine l.render := by
  refine oneLine_append.2 ⟨?_, h⟩
  simp [OneLine]

theorem lineChars_inj : ∀ {ls ms : List Line}, (∀ l ∈ ls, Tidy l.text) → (∀ m ∈ ms, Tidy m.text) →
    lineChars ls = lineChars ms → ls = ms
  | [], [], _, _, _ => rfl
  | [], _ :: _, _, _, h | _ :: _, [], _, _, h => by cases h
  | l :: ls, m :: ms, hls, hms, h => by
    obtain ⟨hl, hls⟩ := List.forall_mem_cons.1 hls
    obtain ⟨hm, hms⟩ := List.forall_mem_cons.1 hms
    have hrender {l : Line} (hl : Tidy l.text) : ∀ c ∈ l.render.toList, (c != '\n') = true := by
      intro c hc
      rw [bne_iff_ne]
      rintro rfl
      exact oneLine_render hl.oneLine hc
    have hnext (ls : List Line) : ∀ c ∈ (lineChars ls).head?, (c != '\n') = false := by
      cases ls <;> simp [lineChars]
    have hrest := (List.cons.inj h).2
    obtain ⟨hline, hlines⟩ :=
      append_inj_of_head (hrender hl) (hrender hm) (hnext ls) (hnext ms) hrest
    rw [render_inj hl hm hline, lineChars_inj hls hms hlines]

theorem renderAll_ne_empty {l : Line} (h : Tidy l.text) (ls : List Line) :
    Line.renderAll (l :: ls) ≠ "" := by
  intro hempty
  obtain ⟨c, cs, hcs, -⟩ := h.start
  have hnil := congrArg String.toList hempty
  rw [toList_renderAll, Line.render, String.toList_append, hcs] at hnil
  simp at hnil

/-- The lines can be read off their text. -/
theorem renderAll_inj {ls ms : List Line} (hls : ∀ l ∈ ls, Tidy l.text)
    (hms : ∀ m ∈ ms, Tidy m.text) (h : Line.renderAll ls = Line.renderAll ms) : ls = ms := by
  rcases ls with _ | ⟨l, ls⟩ <;> rcases ms with _ | ⟨m, ms⟩
  · rfl
  · exact absurd h.symm (renderAll_ne_empty (hms m List.mem_cons_self) ms)
  · exact absurd h (renderAll_ne_empty (hls l List.mem_cons_self) ls)
  · have hchars (l : Line) (ls : List Line) :
        lineChars (l :: ls) = '\n' :: (Line.renderAll (l :: ls)).toList := by
      rw [toList_renderAll]
      rfl
    exact lineChars_inj hls hms (by rw [hchars, hchars, h])

/-! ## Every line of a program is tidy -/

theorem newline_notMem_quoteBody (cs : List Char) : '\n' ∉ quoteBody cs :=
  fun h => absurd (printable_quoteBody cs '\n' h) (by decide)

theorem newline_notMem_of_isWord {w : List Char} (hw : IsWord w) : '\n' ∉ w :=
  fun h => absurd (hw.chars '\n' h) (by decide)

theorem oneLine_name {x : String} (hx : IsName x) : OneLine x := newline_notMem_of_isWord hx.isWord

theorem oneLine_intercalate : ∀ {texts : List String}, (∀ text ∈ texts, OneLine text) →
    OneLine (", ".intercalate texts)
  | [], _ => by decide
  | [text], h => by simpa using h
  | text :: text' :: texts, h => by
    rw [String.intercalate_cons_cons]
    rw [List.forall_mem_cons] at h
    exact oneLine_append.2 ⟨oneLine_append.2 ⟨h.1, by decide⟩, oneLine_intercalate h.2⟩

namespace Expr

theorem oneLine_operandScript (e : Expr) {text : String} (h : OneLine text) :
    OneLine (operandScript e text) := by
  unfold operandScript
  split
  · simp only [oneLine_append, h]
    decide
  · exact h

theorem oneLine_spelling (o : BinOp) : OneLine o.spelling := by
  cases o <;> decide

theorem oneLine_script {e : Expr} (he : e.Spelled) : OneLine e.script := by
  induction e using Expr.induction with
  | literal n =>
    obtain ⟨m, rfl⟩ := he.literal
    exact newline_notMem_of_isWord (isWord_toString m)
  | string raw =>
    rw [OneLine, toList_script_string]
    simp [newline_notMem_quoteBody]
  | name x => exact oneLine_name (he.name List.mem_cons_self)
  | assign x v ih =>
    have hx : OneLine x := oneLine_name (he.name List.mem_cons_self)
    simp only [script, oneLine_append, hx, ih he.value]
    decide
  | binary o a b iha ihb =>
    have ha := oneLine_operandScript a (iha he.left)
    have hb := oneLine_operandScript b (ihb he.right)
    simp only [script, oneLine_append, ha, hb, oneLine_spelling o]
    decide
  | call f args ih =>
    have hf : IsName f := he.name List.mem_cons_self
    have hcallee : OneLine (calleeScript f) := newline_notMem_of_isWord hf.isWord_calleeScript
    have hscripts : ∀ text ∈ scripts args, OneLine text := by
      rw [scripts_eq_map]
      intro text htext
      obtain ⟨e, hmem, rfl⟩ := List.mem_map.1 htext
      exact ih e hmem (he.arg e hmem)
    simp only [script, oneLine_append, hcallee, oneLine_intercalate hscripts]
    decide

end Expr

namespace Grammar

theorem oneLine_suffix (s : Stmt) : OneLine s.suffix := by
  unfold Stmt.suffix
  split <;> decide

theorem tidy_brace : Tidy "\x7d" := ⟨by decide, '\x7d', [], rfl, by decide⟩

theorem oneLine_decl {x : String} {e : Expr} (hx : IsName x) (he : e.Spelled) :
    OneLine ("let " ++ x ++ " = " ++ e.script) := by
  simp only [oneLine_append, oneLine_name hx, Expr.oneLine_script he]
  decide

theorem ForInit.oneLine_text {init : ForInit} (h : init.Spelled) : OneLine init.text := by
  cases init with
  | none => decide
  | decl x e =>
    obtain ⟨hx, he⟩ := spelled_decl.1 h
    exact oneLine_decl hx he
  | eval e => exact Expr.oneLine_script (spelled_eval.1 h)

namespace Statement

theorem oneLine_firstText {s : Statement} (hs : s.Spelled) : OneLine s.firstText := by
  have hheader {c : Chain} (hc : c.expr.Spelled) (word : String) (hword : OneLine word)
      (s : Statement) : OneLine (word ++ c.expr.script ++ ")" ++ s.tree.suffix) := by
    simp only [oneLine_append, hword, Expr.oneLine_script hc, oneLine_suffix]
    decide
  cases s with
  | block ss =>
    rw [firstText]
    decide
  | decl x e =>
    obtain ⟨hx, he⟩ := spelled_decl.1 hs
    exact oneLine_append.2 ⟨oneLine_decl hx he, by decide⟩
  | eval e => exact oneLine_append.2 ⟨Expr.oneLine_script (spelled_eval.1 hs), by decide⟩
  | ret e =>
    have he := Expr.oneLine_script (spelled_ret.1 hs)
    exact oneLine_append.2 ⟨oneLine_append.2 ⟨by decide, he⟩, by decide⟩
  | ifThen c s => exact hheader (spelled_ifThen.1 hs).1 "if (" (by decide) s
  | ifElse c s e => exact hheader (spelled_ifElse.1 hs).1 "if (" (by decide) s
  | whileLoop c s => exact hheader (spelled_whileLoop.1 hs).1 "while (" (by decide) s
  | forLoop init c u s =>
    obtain ⟨hinit, hc, hu, -⟩ := spelled_forLoop.1 hs
    simp only [firstText, oneLine_append, ForInit.oneLine_text hinit, Expr.oneLine_script hc,
      Expr.oneLine_script hu, oneLine_suffix]
    decide

theorem tidy_firstText {s : Statement} (hs : s.Spelled) : Tidy s.firstText := by
  refine ⟨oneLine_firstText hs, ?_⟩
  cases s with
  | eval e =>
    obtain ⟨c, cs, hcs, hc⟩ := Expr.exists_script_eq_cons (spelled_eval.1 hs)
    refine ⟨c, cs ++ [';'], by simp [firstText, hcs], ?_⟩
    rintro rfl
    exact absurd hc (by decide)
  | _ =>
    simp only [firstText, String.append_assoc, String.toList_append]
    exact ⟨_, _, rfl, by decide⟩

end Statement

end Grammar

def AllTidy (ls : List Line) : Prop := ∀ l ∈ ls, Tidy l.text

theorem allTidy_append {ls ms : List Line} : AllTidy (ls ++ ms) ↔ AllTidy ls ∧ AllTidy ms :=
  List.forall_mem_append

theorem allTidy_cons {l : Line} {ls : List Line} :
    AllTidy (l :: ls) ↔ Tidy l.text ∧ AllTidy ls :=
  List.forall_mem_cons

theorem allTidy_closing (d : Nat) (s : Stmt) : AllTidy (Stmt.closing d s).lines := by
  unfold Stmt.closing
  split
  · exact allTidy_cons.2 ⟨tidy_brace, by simp [AllTidy]⟩
  · simp [AllTidy, Emission.ofLines]

namespace Grammar

namespace Statement

theorem tidy_elseText {s : Stmt} {e : Statement} (he : e.Spelled) :
    Tidy (Stmt.elseWord s ++ e.elseText) := by
  have hword : Tidy (Stmt.elseWord s) := by
    unfold Stmt.elseWord
    split <;> exact ⟨by decide, _, _, rfl, by decide⟩
  refine hword.append ?_
  unfold elseText
  split
  · exact oneLine_append.2 ⟨by decide, oneLine_firstText he⟩
  · exact oneLine_suffix _

/-- The lines of a statement behind its first, and those of a body, are tidy. -/
def TidyLines (s : Statement) : Prop := ∀ d, AllTidy (s.moreLines d) ∧ AllTidy (s.inner d)

theorem TidyLines.own {s : Statement} (h : s.TidyLines) (hs : s.Spelled) (d : Nat) :
    AllTidy (s.tree.emit .own d).lines := by
  rw [lines_own]
  exact allTidy_cons.2 ⟨tidy_firstText hs, (h d).1⟩

theorem TidyLines.closing {s : Statement} (h : s.TidyLines) (d : Nat) :
    AllTidy (s.inner d ++ (Stmt.closing d s.tree).lines) :=
  allTidy_append.2 ⟨(h d).2, allTidy_closing d s.tree⟩

theorem TidyLines.orElse {s : Stmt} {e : Statement} (h : e.TidyLines) (he : e.Spelled) (d : Nat) :
    AllTidy (e.tree.emit (.elseBody (Stmt.elseWord s)) d).lines := by
  rw [lines_else]
  refine allTidy_cons.2 ⟨tidy_elseText he, ?_⟩
  unfold elseMore
  split
  · exact (h d).1
  · exact h.closing d

theorem TidyLines.of_more {s : Statement} (hblock : s.tree.isBlock = false) (hs : s.Spelled)
    (h : ∀ d, AllTidy (s.moreLines d)) : s.TidyLines := by
  intro d
  rw [inner_of_not_block hblock, lines_own]
  exact ⟨h d, allTidy_cons.2 ⟨tidy_firstText hs, h (d + 1)⟩⟩

theorem tidyLines (s : Statement) (hs : s.Spelled) : s.TidyLines := by
  induction s using Statement.induction with
  | block ss ih =>
    have hss := spelled_body hs
    have hinner (d : Nat) : AllTidy ((block ss).inner d) := by
      rw [inner, lines_emitAll]
      intro l hl
      obtain ⟨s, hs, hl⟩ := List.mem_flatMap.1 hl
      exact (ih s hs (hss s hs)).own (hss s hs) (d + 1) l hl
    exact fun d => ⟨allTidy_append.2 ⟨hinner d, allTidy_closing d _⟩, hinner d⟩
  | decl | ret | eval => exact .of_more rfl hs fun d => by simp [AllTidy, moreLines]
  | ifThen c s ih => exact .of_more rfl hs (ih (spelled_ifThen.1 hs).2).closing
  | ifElse c s e ihs ihe =>
    obtain ⟨-, hss, hse⟩ := spelled_ifElse.1 hs
    refine .of_more rfl hs fun d => ?_
    exact allTidy_append.2 ⟨(ihs hss d).2, (ihe hse).orElse hse d⟩
  | whileLoop c s ih => exact .of_more rfl hs (ih (spelled_whileLoop.1 hs).2).closing
  | forLoop init c u s ih => exact .of_more rfl hs (ih (spelled_forLoop.1 hs).2.2.2).closing

end Statement

/-! ## Items -/

namespace Item

def Spelled (i : Item) : Prop := ∀ part ∈ i.tree.parts, part.Spelled

/-- The first line of an item. -/
def firstText : Item → String
  | .function f params _ =>
    "function " ++ f ++ "(" ++ ", ".intercalate (params.map Param.name) ++ ") \x7b"
  | .statement s _ => s.firstText

def form : Item → LineForm
  | .function .. => .function
  | .statement s _ => s.form

/-- The lines of an item behind the first. -/
def moreLines (d : Nat) : Item → List Line
  | .function _ _ body => (Statement.block body).moreLines d
  | .statement s _ => s.moreLines d

theorem lines_item (i : Item) (d : Nat) :
    (i.tree.emitItem d).lines = ⟨d, i.firstText⟩ :: i.moreLines d := by
  cases i with
  | function f params body =>
    rw [Item.tree, Stmt.emitItem, Emission.lines_append₃ _ rfl (error_emitAll body _)]
    rfl
  | statement s noInt =>
    have hlines := s.lines_own d
    cases s <;> exact hlines

theorem spelled_function {f : String} {params : List Param} {body : List Statement}
    (h : (Item.function f params body).Spelled) :
    IsName f ∧ (∀ x ∈ params.map Param.name, IsName x) ∧ (Statement.block body).Spelled := by
  simp only [Spelled, Item.tree, Stmt.parts, List.forall_mem_cons, List.forall_mem_append] at h
  obtain ⟨hf, hparams, hbody⟩ := h
  exact ⟨hf, fun x hx => hparams (.name x) (List.mem_map_of_mem hx), hbody⟩

theorem lineForm_firstText {i : Item} (hi : i.Spelled) : lineForm i.firstText.toList = i.form := by
  cases i with
  | function f params body =>
    simp only [firstText, String.append_assoc]
    rw [← String.append_assoc]
    exact lineForm_function (spelled_function hi).1 _
  | statement s noInt => exact Statement.lineForm_firstText hi

theorem exists_lines_item {i : Item} (hi : i.Spelled) (d : Nat) : ∃ text more,
    (i.tree.emitItem d).lines = ⟨d, text⟩ :: more ∧ lineForm text.toList ≠ .more := by
  refine ⟨_, _, i.lines_item d, ?_⟩
  rw [lineForm_firstText hi]
  cases i with
  | function => rintro ⟨⟩
  | statement s noInt => exact s.form_ne_more

theorem function_inj {f g : String} {xs ys : List String} (hf : IsName f) (hg : IsName g)
    (hxs : ∀ x ∈ xs, IsName x) (hys : ∀ y ∈ ys, IsName y)
    (h : "function " ++ f ++ "(" ++ ", ".intercalate xs ++ ") \x7b" =
      "function " ++ g ++ "(" ++ ", ".intercalate ys ++ ") \x7b") : f = g ∧ xs = ys := by
  have hopen (r : String) : ∀ c ∈ ("(" ++ r).toList.head?, isWordChar c = false := by
    simp
    decide
  have hhead (x : String) (hx : IsName x) : ∃ c cs, (id x).toList = c :: cs ∧ c ≠ ')' := by
    obtain ⟨c, cs, hcs, hc⟩ := hx.start
    refine ⟨c, cs, hcs, ?_⟩
    rintro rfl
    exact absurd hc (by decide)
  simp only [String.append_assoc, String.append_right_inj] at h
  obtain ⟨hfg, hrest⟩ := name_append_inj hf hg (hopen _) (hopen _) h
  rw [String.append_right_inj, ← List.map_id xs, ← List.map_id ys, ← String.toList_inj,
    String.toList_append, String.toList_append] at hrest
  obtain ⟨hparams, -⟩ := intercalate_inj hhead (fun x hx => ⟨hxs x hx, IsName.cancels x⟩) hys hrest
  exact ⟨hfg, hparams⟩

/-- An item is determined by its lines. -/
theorem cancel {i j : Item} (hi : i.Spelled) (hj : j.Spelled) {d : Nat} {R S : List Line}
    (hR : Follows d R) (hS : Follows d S)
    (h : (i.tree.emitItem d).lines ++ R = (j.tree.emitItem d).lines ++ S) :
    i.tree = j.tree ∧ R = S := by
  rw [lines_item, lines_item, List.cons_append, List.cons_append, List.cons.injEq,
    Line.mk.injEq] at h
  obtain ⟨⟨-, hfirst⟩, hmore⟩ := h
  have hform : j.form = i.form := by
    rw [← lineForm_firstText hi, hfirst, lineForm_firstText hj]
  cases i with
  | function f params body =>
    cases j with
    | function g params' body' =>
      obtain ⟨hf, hparams, hbody⟩ := spelled_function hi
      obtain ⟨hg, hparams', hbody'⟩ := spelled_function hj
      obtain ⟨rfl, hnames⟩ := function_inj hf hg hparams hparams' hfirst
      obtain ⟨hblock, hRS⟩ :=
        (Statement.determined (.block body)).1 (.block body') d R S hbody hbody' hR hS rfl hmore
      rw [Statement.tree, Statement.tree, Stmt.block.injEq] at hblock
      exact ⟨by rw [Item.tree, Item.tree, hnames, hblock], hRS⟩
    | statement s noInt => cases s <;> cases hform
  | statement s noInt =>
    cases j with
    | function g params body => cases s <;> cases hform
    | statement t noInt' => exact (Statement.determined s).1 t d R S hi hj hR hS hfirst hmore

theorem allTidy_lines {i : Item} (hi : i.Spelled) (d : Nat) :
    AllTidy (i.tree.emitItem d).lines := by
  rw [lines_item]
  cases i with
  | function f params body =>
    obtain ⟨hf, hparams, hbody⟩ := spelled_function hi
    refine allTidy_cons.2 ⟨?_, ((Statement.block body).tidyLines hbody d).1⟩
    have hword : Tidy "function " := ⟨by decide, 'f', _, rfl, by decide⟩
    have hnames := oneLine_intercalate fun x hx => oneLine_name (hparams x hx)
    have hrest :
        OneLine (f ++ ("(" ++ (", ".intercalate (params.map Param.name) ++ ") \x7b"))) := by
      simp only [oneLine_append, oneLine_name hf, hnames]
      decide
    simpa only [firstText, String.append_assoc] using hword.append hrest
  | statement s noInt =>
    exact allTidy_cons.2 ⟨Statement.tidy_firstText hi, (s.tidyLines hi d).1⟩

end Item

theorem lines_emitItems (d : Nat) (is : List Item) :
    (Program.emitItems d (is.map Item.tree)).lines =
      is.flatMap fun i => (i.tree.emitItem d).lines := by
  induction is with
  | nil => rfl
  | cons i is ih =>
    rw [List.map_cons, Program.emitItems, Emission.lines_append (i.error_emitItem d), ih,
      List.flatMap_cons]

end Grammar

/-! ## Programs -/

/-- The call of `main` that is written behind a program. -/
def Program.calls (p : Program) : List Stmt :=
  if p.hasMain then [.eval (.call "main" [])] else []

/-- The call of `main` does not define it, so what is written says whether it is called. -/
theorem Program.eq_of_append_calls {p q : Program} (h : p.body ++ p.calls = q.body ++ q.calls) :
    p = q := by
  have hmain (p : Program) : (p.body ++ p.calls).any (Stmt.definesFunction "main") = p.hasMain := by
    rw [List.any_append, hasMain, calls]
    split <;> simp [Stmt.definesFunction]
  have hcalls : p.calls = q.calls := by
    rw [calls, calls, ← hmain p, ← hmain q, h]
  rw [hcalls] at h
  cases p
  cases q
  rw [Program.mk.injEq]
  exact List.append_cancel_right h

namespace Derivation

/-- The items that are written out. -/
def writtenItems (d : Derivation) : List Item :=
  d.items ++ if d.program.hasMain then [mainCall] else []

theorem map_tree_writtenItems (d : Derivation) :
    d.writtenItems.map Item.tree = d.program.body ++ d.program.calls := by
  rw [writtenItems, List.map_append, Program.calls, program]
  congr 1
  split <;> rfl

theorem lines_emit (d : Derivation) :
    (d.program.emit 0).lines = d.writtenItems.flatMap fun i => (i.tree.emitItem 0).lines := by
  rw [Program.emit, Emission.lines_append (by exact error_emitItems 0 d.items), writtenItems,
    List.flatMap_append, ← lines_emitItems]
  congr 1
  split <;> rfl

theorem spelled_writtenItems {d : Derivation} (h : ∀ k ∈ d.program.leaves, ∃ text, Spells k text) :
    ∀ i ∈ d.writtenItems, i.Spelled := by
  have hmain : Spells (.ident "main") "main".toList :=
    @spells_wordKind 'm' ['a', 'i', 'n'] (by decide) (List.all_eq_true.1 (by decide))
  intro i hi part hpart
  rcases List.mem_append.1 hi with hi | hi
  · have hleaf : ∀ k ∈ part.leaves, ∃ text, Spells k text := by
      intro k hk
      have hparts : part ∈ d.program.parts :=
        List.mem_flatMap.2 ⟨i.tree, List.mem_map_of_mem hi, hpart⟩
      exact h k (List.mem_flatMap.2 ⟨part, hparts, hk⟩)
    cases part with
    | name x =>
      obtain ⟨text, htext⟩ := hleaf (.ident x) List.mem_cons_self
      exact .of_spells htext
    | expr e => exact hleaf
  · split at hi
    · obtain rfl := List.mem_singleton.1 hi
      obtain rfl := List.mem_singleton.1 hpart
      intro k hk
      obtain rfl := List.mem_singleton.1 hk
      exact ⟨_, hmain⟩
    · cases hi

/-- A program is determined by its lines. -/
theorem program_eq_of_lines_eq {d d' : Derivation} (hd : ∀ i ∈ d.writtenItems, i.Spelled)
    (hd' : ∀ i ∈ d'.writtenItems, i.Spelled)
    (h : (d.program.emit 0).lines = (d'.program.emit 0).lines) : d.program = d'.program := by
  have hnil : Below 0 [] := by simp [Below]
  rw [lines_emit, lines_emit, ← List.append_nil (List.flatMap _ _),
    ← List.append_nil (List.flatMap _ d'.writtenItems)] at h
  obtain ⟨hmap, -⟩ := flatMap_inj (fun i hi => Item.exists_lines_item hi 0)
    (fun i hi => ⟨hd i hi, fun j R S hj hR hS h => Item.cancel (hd i hi) hj hR hS h⟩)
    hd' hnil hnil h
  rw [map_tree_writtenItems, map_tree_writtenItems] at hmap
  exact Program.eq_of_append_calls hmap

theorem allTidy_emit {d : Derivation} (hd : ∀ i ∈ d.writtenItems, i.Spelled) :
    AllTidy (d.program.emit 0).lines := by
  rw [lines_emit]
  intro l hl
  obtain ⟨i, hi, hl⟩ := List.mem_flatMap.1 hl
  exact Item.allTidy_lines (hd i hi) 0 l hl

end Derivation

/-- A text is that of a derivation whose names and literals are spelled. -/
theorem exists_derivation_of_compile {source js : String} (h : compile source = .ok js) :
    ∃ d : Derivation, parseSource source = .ok d.program ∧ (∀ i ∈ d.writtenItems, i.Spelled) ∧
      js = Line.renderAll (d.program.emit 0).lines := by
  obtain ⟨ts, p, hlex, hparse⟩ := exists_parse_of_compile h
  have hread := parseSource_eq_ok_iff.2 ⟨ts, hlex, hparse⟩
  obtain ⟨d, hfrontier, -, rfl⟩ := Program.parse_eq_ok_iff_exists_resolved.1 hparse
  have hspelled := Derivation.spelled_writtenItems fun k hk =>
    Program.exists_spells_of_mem_leaves hlex hfrontier hk
  have hjs : Line.renderAll (d.program.emit 0).lines = js := by
    simpa [compile, hread, Program.generate_eq_ok (d.error_emit 0), bind, Except.bind,
      Except.mapError] using h
  exact ⟨d, hread, hspelled, hjs.symm⟩

namespace Program

/-- Two programs that have been read and have the same text are the same. -/
theorem eq_of_generate_eq {source source' : String} {ts ts' : List Token} {p q : Program}
    (hlex : tokenize source = .ok ts) (hparse : parse ts = .ok p)
    (hlex' : tokenize source' = .ok ts') (hparse' : parse ts' = .ok q)
    (h : p.generate = q.generate) : p = q := by
  obtain ⟨d, hfrontier, -, rfl⟩ := parse_eq_ok_iff_exists_resolved.1 hparse
  obtain ⟨d', hfrontier', -, rfl⟩ := parse_eq_ok_iff_exists_resolved.1 hparse'
  have hd := Derivation.spelled_writtenItems fun k hk =>
    exists_spells_of_mem_leaves hlex hfrontier hk
  have hd' := Derivation.spelled_writtenItems fun k hk =>
    exists_spells_of_mem_leaves hlex' hfrontier' hk
  rw [generate_eq_ok (d.error_emit 0), generate_eq_ok (d'.error_emit 0), Except.ok.injEq] at h
  have hlines := renderAll_inj (Derivation.allTidy_emit hd) (Derivation.allTidy_emit hd') h
  exact Derivation.program_eq_of_lines_eq hd hd' hlines

/-- `int main() { if (let = 1) printf("\t"); else function(let); }` -/
def branched : Program :=
  ⟨[.function "main" [] [.ifElse (.assign "let" (.literal 1))
    (.eval (.call "printf" [.string "\t"])) (some (.eval (.call "function" [.variable "let"])))]]⟩

/-- A comment, a leading zero and brackets that change nothing do not show in the text. -/
theorem eq_of_generate_eq_branched : ∃ ts us p q,
    tokenize "int main()\x7bif(let=1)printf(\"\t\");else function(let);\x7d" = .ok ts ∧
    tokenize "int main()/**/\x7bif((let=01))printf(\"\t\");else function((let));\x7d" = .ok us ∧
    parse ts = .ok p ∧ parse us = .ok q ∧ p.generate = q.generate ∧ p = q := by
  let ts : List Token := [.keyword .int, .ident "main", .mark .lparen, .mark .rparen,
    .mark .lbrace, .keyword .if_, .mark .lparen, .ident "let", .mark .assign, .number 1,
    .mark .rparen, .ident "printf", .mark .lparen, .string "\t", .mark .rparen, .mark .semicolon,
    .keyword .else_, .ident "function", .mark .lparen, .ident "let", .mark .rparen,
    .mark .semicolon, .mark .rbrace, .eof].map (⟨·, 1⟩)
  let us : List Token := [.keyword .int, .ident "main", .mark .lparen, .mark .rparen,
    .mark .lbrace, .keyword .if_, .mark .lparen, .mark .lparen, .ident "let", .mark .assign,
    .number 1, .mark .rparen, .mark .rparen, .ident "printf", .mark .lparen, .string "\t",
    .mark .rparen, .mark .semicolon, .keyword .else_, .ident "function", .mark .lparen,
    .mark .lparen, .ident "let", .mark .rparen, .mark .rparen, .mark .semicolon, .mark .rbrace,
    .eof].map (⟨·, 1⟩)
  have hlex : tokenize "int main()\x7bif(let=1)printf(\"\t\");else function(let);\x7d" =
      .ok ts := by
    cbv
  have hlex' : tokenize "int main()/**/\x7bif((let=01))printf(\"\t\");else function((let));\x7d" =
      .ok us := by
    cbv
  have hparse : parse ts = .ok branched := by cbv
  have hparse' : parse us = .ok branched := by cbv
  exact ⟨ts, us, branched, branched, hlex, hlex', hparse, hparse', rfl,
    eq_of_generate_eq hlex hparse hlex' hparse' rfl⟩

end Program

end MiniC
