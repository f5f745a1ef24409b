import MiniC.Proofs.EmitterLayout
import MiniC.Proofs.Nesting
import MiniC.Viewer.Session

/-!
# A line of the text for each line written

Strings are the one part of a program that may hold newlines, and quoting takes these away, so
every line that is written is one line of the text.

A line is plain text and quoted strings (`Quotes`), and the strings in it are those of the
expressions that stand on it (`Stmt.HasLine`). Which lines a statement has is known already
(`Row.Fits`), so no further induction on statements is needed: the parts of the statement that a row
belongs to are parts of the program, and so they are spelled (`Statement.spelled_rows`).
-/

namespace MiniC

open Lexeme Grammar

/-! ## Plain text and quoted strings -/

/-- The character is no control character and starts neither a string nor a comment. -/
def isPlain (c : Char) : Bool := 0x20 ≤ c.toNat && c != '"' && c != '/' && c != '#'

/-- The text is plain but for the strings `raws`, which are quoted in it. -/
inductive Quotes : String → List String → Prop
  | plain {text : String} (h : text.toList.all isPlain = true) : Quotes text []
  /-- With a blank behind it a slash starts no comment. -/
  | slash : Quotes "/ " []
  | quoted (raw : String) : Quotes (quoted raw) [raw]
  | append {a b : String} {xs ys : List String} (ha : Quotes a xs) (hb : Quotes b ys) :
      Quotes (a ++ b) (xs ++ ys)

namespace Quotes

variable {a b text : String} {xs raws : List String}

theorem append_plain (h : Quotes a xs) (hb : b.toList.all isPlain = true) :
    Quotes (a ++ b) xs := by
  rw [← List.append_nil xs]
  exact h.append (.plain hb)

theorem plain_append (h : Quotes b xs) (ha : a.toList.all isPlain = true) :
    Quotes (a ++ b) xs := (Quotes.plain ha).append h

theorem intercalate {α : Type} {f : α → String} {g : α → List String} {as : List α}
    (h : ∀ a ∈ as, Quotes (f a) (g a)) : Quotes (", ".intercalate (as.map f)) (as.flatMap g) := by
  induction as with
  | nil => exact .plain rfl
  | cons a as ih =>
    obtain ⟨ha, has⟩ := List.forall_mem_cons.1 h
    cases as with
    | nil => simpa using ha
    | cons b as =>
      rw [List.map_cons, List.map_cons, String.intercalate_cons_cons, ← List.map_cons,
        List.flatMap_cons]
      exact (ha.append_plain (by decide)).append (ih has)

theorem printable (h : Quotes text raws) : ∀ c ∈ text.toList, 0x20 ≤ c.toNat := by
  induction h with
  | plain h =>
    intro c hc
    have hplain := List.all_eq_true.1 h c hc
    simp only [isPlain, Bool.and_eq_true, decide_eq_true_eq] at hplain
    exact hplain.1.1.1
  | slash => simp
  | quoted raw =>
    have hquote : 0x20 ≤ '"'.toNat := by decide
    simp only [toList_quoted, List.forall_mem_cons, List.forall_mem_append]
    exact ⟨hquote, printable_quoteBody raw.toList, hquote, List.forall_mem_nil _⟩
  | append ha hb iha ihb =>
    rw [String.toList_append]
    exact List.forall_mem_append.2 ⟨iha, ihb⟩

end Quotes

theorem isPlain_of_isWordChar {c : Char} (h : isWordChar c = true) : isPlain c = true := by
  have hrange : 0x20 ≤ c.toNat := by
    rw [isWordChar, isNameChar_eq, Bool.or_eq_true, Bool.or_eq_true, isNameStart_iff, isDigit_iff,
      beq_iff_eq] at h
    rcases h with h | rfl
    · omega
    · decide
  have hne {d : Char} (hd : isWordChar d = false) : c ≠ d := by
    rintro rfl
    cases h.symm.trans hd
  simp [isPlain, hrange, hne (d := '"') (by decide), hne (d := '/') (by decide),
    hne (d := '#') (by decide)]

theorem IsWord.all_isPlain {w : List Char} (h : IsWord w) : w.all isPlain = true :=
  List.all_eq_true.2 fun c hc => isPlain_of_isWordChar (h.chars c hc)

theorem all_isPlain_append (a b : String) :
    (a ++ b).toList.all isPlain = (a.toList.all isPlain && b.toList.all isPlain) := by
  rw [String.toList_append, List.all_append]

/-- The text of a string token. -/
def Kind.string? : Kind → Option String
  | .string raw => some raw
  | _ => none

namespace Expr

/-- The strings of the expression, in order. -/
def strings (e : Expr) : List String := e.leaves.filterMap Kind.string?

theorem quotes_operand {e : Expr} (h : Quotes e.script e.strings) :
    Quotes (operandScript e e.script) e.strings := by
  unfold operandScript
  split
  · exact (h.plain_append (by decide)).append_plain (by decide)
  · exact h

theorem quotes_spelling (o : BinOp) : Quotes (o.spelling ++ " ") [] := by
  cases o with
  | div => exact .slash
  | _ => exact .plain (by decide)

theorem quotes_script {e : Expr} (he : e.Spelled) : Quotes e.script e.strings := by
  induction e using Expr.induction with
  | literal n =>
    obtain ⟨m, rfl⟩ := he.literal
    exact .plain (isWord_toString m).all_isPlain
  | string raw => exact .quoted raw
  | name x => exact .plain (he.name List.mem_cons_self).isWord.all_isPlain
  | assign x v ih =>
    have hx : IsName x := he.name List.mem_cons_self
    rw [script, String.append_assoc]
    exact ((ih he.value).plain_append (by decide)).plain_append hx.isWord.all_isPlain
  | binary o a b iha ihb =>
    have ha := ((quotes_operand (iha he.left)).plain_append (a := "(") (by decide)).append_plain
      (b := " ") (by decide)
    have hb := (quotes_operand (ihb he.right)).append_plain (b := ")") (by decide)
    have hstrings : (binary o a b).strings = a.strings ++ ([] ++ b.strings) :=
      List.filterMap_append
    have hscript : (binary o a b).script = "(" ++ operandScript a a.script ++ " " ++
        (o.spelling ++ " " ++ (operandScript b b.script ++ ")")) := by
      simp only [script, String.append_assoc]
    rw [hstrings, hscript]
    exact ha.append ((quotes_spelling o).append hb)
  | call f args ih =>
    have hf : IsName f := he.name List.mem_cons_self
    have hargs := Quotes.intercalate fun e hmem => ih e hmem (he.arg e hmem)
    have hstrings : (call f args).strings = args.flatMap strings := by
      rw [strings, leaves, argLeaves_eq_flatMap]
      exact List.filterMap_flatMap
    have hcallee : (calleeScript f ++ "(").toList.all isPlain = true := by
      rw [all_isPlain_append, hf.isWord_calleeScript.all_isPlain]
      decide
    rw [hstrings, script, scripts_eq_map]
    exact (hargs.plain_append hcallee).append_plain (by decide)

end Expr

/-! ## The expressions on a line -/

namespace Stmt

/-- The expressions that the first part of a `for` starts with. -/
def startExprs : Option Stmt → List Expr
  | some (.decl _ e) | some (.eval e) => [e]
  | _ => []

/-- `s.HasLine es text`: the text is a line of `s`, and `es` are the expressions on it, in order. -/
inductive HasLine : Stmt → List Expr → String → Prop
  | decl (x : String) (e : Expr) : HasLine (.decl x e) [e] ("let " ++ x ++ " = " ++ e.script ++ ";")
  | eval (e : Expr) : HasLine (.eval e) [e] (e.script ++ ";")
  | ret (e : Expr) : HasLine (.ret e) [e] ("return " ++ e.script ++ ";")
  /-- An `if` may stand behind an `else`. -/
  | ifHead {word : String} (hword : word ∈ ["", "else ", "\x7d else "]) (c : Expr) (t : Stmt)
      (e : Option Stmt) :
      HasLine (.ifElse c t e) [c] (word ++ ("if (" ++ c.script ++ ")" ++ t.suffix))
  | elseHead (c : Expr) (t e : Stmt) : HasLine (.ifElse c t (some e)) [] (elseWord t ++ e.suffix)
  | whileHead (c : Expr) (b : Stmt) :
      HasLine (.whileLoop c b) [c] ("while (" ++ c.script ++ ")" ++ b.suffix)
  | forHead {init : Option Stmt} {start : String} (hstart : forStart init = .ok start)
      (c u : Expr) (b : Stmt) :
      HasLine (.forLoop init c u b) (startExprs init ++ [c, u])
        ("for (" ++ start ++ "; " ++ c.script ++ "; " ++ u.script ++ ")" ++ b.suffix)
  | blockBrace {brace : String} (hbrace : brace = "\x7b" ∨ brace = "\x7d") (body : List Stmt) :
      HasLine (.block body) [] brace
  | functionHead (f : String) (params : List String) (body : List Stmt) :
      HasLine (.function f params body) []
        ("function " ++ f ++ "(" ++ ", ".intercalate params ++ ") \x7b")
  | functionEnd (f : String) (params : List String) (body : List Stmt) :
      HasLine (.function f params body) [] "\x7d"

theorem exists_hasLine {s : Stmt} {text : String} (h : text ∈ s.lineTexts) :
    ∃ es, s.HasLine es text := by
  cases s with
  | decl x e =>
    obtain rfl := List.mem_singleton.1 h
    exact ⟨_, .decl x e⟩
  | eval e =>
    obtain rfl := List.mem_singleton.1 h
    exact ⟨_, .eval e⟩
  | ret e =>
    obtain rfl := List.mem_singleton.1 h
    exact ⟨_, .ret e⟩
  | ifElse c t e =>
    rcases List.mem_append.1 h with h | h
    · obtain ⟨word, hword, rfl⟩ := List.mem_map.1 h
      exact ⟨_, .ifHead hword c t e⟩
    · obtain ⟨e, he, rfl⟩ := List.mem_map.1 h
      obtain rfl := Option.mem_toList.1 he
      exact ⟨_, .elseHead c t e⟩
  | whileLoop c b =>
    obtain rfl := List.mem_singleton.1 h
    exact ⟨_, .whileHead c b⟩
  | forLoop init c u b =>
    obtain ⟨start, hstart, rfl⟩ := List.mem_map.1 h
    rcases hinit : forStart init with e | start'
    · simp [hinit, Except.toOption] at hstart
    · obtain rfl : start = start' := by simpa [hinit, Except.toOption] using hstart
      exact ⟨_, .forHead hinit c u b⟩
  | block body => exact ⟨_, .blockBrace (List.mem_pair.1 h) body⟩
  | function f params body =>
    rcases List.mem_pair.1 h with rfl | rfl
    · exact ⟨_, .functionHead f params body⟩
    · exact ⟨_, .functionEnd f params body⟩

/-- What is written for the statement is spelled. -/
def Spelled (s : Stmt) : Prop := ∀ part ∈ s.parts, part.Spelled

theorem Spelled.expr {s : Stmt} (hs : s.Spelled) {e : Expr} (he : .expr e ∈ s.parts) : e.Spelled :=
  hs _ he

theorem Spelled.name {s : Stmt} (hs : s.Spelled) {x : String} (hx : .name x ∈ s.parts) :
    IsName x :=
  hs _ hx

theorem all_isPlain_suffix (s : Stmt) : s.suffix.toList.all isPlain = true := by
  unfold suffix
  split <;> decide

theorem all_isPlain_elseWord (s : Stmt) : (elseWord s).toList.all isPlain = true := by
  unfold elseWord
  split <;> decide

theorem quotes_decl {x : String} {e : Expr} (hx : IsName x) (he : e.Spelled) :
    Quotes ("let " ++ x ++ " = " ++ e.script) e.strings := by
  refine (Expr.quotes_script he).plain_append ?_
  rw [all_isPlain_append, all_isPlain_append, hx.isWord.all_isPlain]
  decide

theorem quotes_start {init : Option Stmt} {start : String} (hstart : forStart init = .ok start)
    (h : ∀ part ∈ optionParts init, part.Spelled) :
    Quotes start ((startExprs init).flatMap Expr.strings) := by
  unfold forStart at hstart
  split at hstart
  · cases hstart
    exact .plain (by decide)
  · rename_i x e
    cases hstart
    have hx : IsName x := h (.name x) (by simp [optionParts, parts])
    have he : e.Spelled := h (.expr e) (by simp [optionParts, parts])
    simpa [startExprs] using quotes_decl hx he
  · rename_i e
    cases hstart
    have he : e.Spelled := h (.expr e) (by simp [optionParts, parts])
    simpa [startExprs] using Expr.quotes_script he
  · cases hstart

/-- A header with its condition. -/
theorem quotes_header {head text : String} {raws : List String} (hhead : head.toList.all isPlain)
    (h : Quotes text raws) (body : Stmt) : Quotes (head ++ text ++ ")" ++ body.suffix) raws :=
  ((h.plain_append hhead).append_plain (by decide)).append_plain body.all_isPlain_suffix

/-- The strings on a line are those of the expressions on it. -/
theorem HasLine.quotes {s : Stmt} {es : List Expr} {text : String} (h : s.HasLine es text)
    (hs : s.Spelled) : Quotes text (es.flatMap Expr.strings) := by
  cases h with
  | decl x e =>
    have hx : IsName x := hs.name (by simp [parts])
    have he : e.Spelled := hs.expr (by simp [parts])
    simpa using (quotes_decl hx he).append_plain (b := ";") (by decide)
  | eval e =>
    have he : e.Spelled := hs.expr (by simp [parts])
    simpa using (Expr.quotes_script he).append_plain (b := ";") (by decide)
  | ret e =>
    have he : e.Spelled := hs.expr (by simp [parts])
    simpa using ((Expr.quotes_script he).plain_append (a := "return ") (by decide)).append_plain
      (b := ";") (by decide)
  | @ifHead word hword c t e =>
    have hc : c.Spelled := hs.expr (by simp [parts])
    have hplain : word.toList.all isPlain = true := by
      simp only [List.mem_cons, List.not_mem_nil, or_false] at hword
      rcases hword with rfl | rfl | rfl <;> decide
    simpa using (quotes_header (by decide) (Expr.quotes_script hc) t).plain_append hplain
  | elseHead c t e =>
    exact (Quotes.plain (all_isPlain_elseWord t)).append_plain e.all_isPlain_suffix
  | whileHead c b =>
    have hc : c.Spelled := hs.expr (by simp [parts])
    simpa using quotes_header (by decide) (Expr.quotes_script hc) b
  | @forHead init start hstart c u b =>
    have hc : c.Spelled := hs.expr (by simp [parts])
    have hu : u.Spelled := hs.expr (by simp [parts])
    have hinit := quotes_start hstart fun part hpart => hs part (by simp [parts, hpart])
    have hparts := ((hinit.plain_append (a := "for (") (by decide)).append_plain (b := "; ")
      (by decide)).append ((Expr.quotes_script hc).append_plain (b := "; ") (by decide))
    simpa [String.append_assoc] using ((hparts.append (Expr.quotes_script hu)).append_plain
      (b := ")") (by decide)).append_plain b.all_isPlain_suffix
  | @blockBrace brace hbrace body =>
    rcases hbrace with rfl | rfl <;> exact .plain (by decide)
  | functionHead f params body =>
    have hf : IsName f := hs.name (by simp [parts])
    have hparams : Quotes (", ".intercalate (params.map id)) (params.flatMap fun _ => []) := by
      refine Quotes.intercalate fun x hx => .plain ?_
      exact (hs.name (x := x) (by simp [parts, hx])).isWord.all_isPlain
    have hhead : ("function " ++ f ++ "(").toList.all isPlain = true := by
      rw [all_isPlain_append, all_isPlain_append, hf.isWord.all_isPlain]
      decide
    rw [List.map_id, List.flatMap_eq_nil_iff.2 fun _ _ => rfl] at hparams
    exact (hparams.plain_append hhead).append_plain (by decide)
  | functionEnd => exact .plain (by decide)

end Stmt

/-! ## The lines of a program -/

theorem forall_mem_underHeader {P : Row → Prop} {rows : Nat → List Row}
    (h : ∀ d, ∀ r ∈ rows d, P r) (d : Nat) (isBlock : Bool) :
    ∀ r ∈ Stmt.underHeader d isBlock rows, P r := by
  unfold Stmt.underHeader
  split
  · exact fun r hr => h d r (List.mem_of_mem_tail hr)
  · exact h (d + 1)

theorem forall_mem_beforeElse {P : Row → Prop} {rows : List Row} (h : ∀ r ∈ rows, P r)
    (isBlock : Bool) : ∀ r ∈ Stmt.beforeElse isBlock rows, P r := by
  unfold Stmt.beforeElse
  split
  · exact fun r hr => h r (List.mem_of_mem_dropLast hr)
  · exact h

namespace Grammar

/-- The rows of a statement are of statements that are spelled if it is. -/
theorem Statement.spelled_rows (s : Statement) (hs : s.Spelled) :
    ∀ d, ∀ r ∈ s.tree.rows d, r.stmt.Spelled := by
  induction s using Statement.induction with
  | block ss ih =>
    intro d
    rw [Statement.tree, Stmt.rows, List.forall_mem_cons, List.forall_mem_append,
      List.forall_mem_singleton]
    refine ⟨hs, ?_, hs⟩
    intro r hr
    rw [Stmt.allRows_eq_flatMap, bodyTrees_eq_map, List.flatMap_map] at hr
    obtain ⟨s, hmem, hr⟩ := List.mem_flatMap.1 hr
    exact ih s hmem (spelled_body hs s hmem) (d + 1) r hr
  | decl | ret | eval =>
    intro d
    exact List.forall_mem_singleton.2 hs
  | ifThen c s ih =>
    intro d
    rw [Statement.tree, Stmt.rows_eq_cons, Stmt.tail_rows_ifThen]
    exact List.forall_mem_cons.2 ⟨hs, forall_mem_underHeader (ih (spelled_ifThen.1 hs).2) d _⟩
  | ifElse c s e ihs ihe =>
    obtain ⟨-, hss, hse⟩ := spelled_ifElse.1 hs
    intro d
    rw [Statement.tree, Stmt.rows_eq_cons, Stmt.tail_rows_ifElse, List.forall_mem_cons,
      List.forall_mem_append]
    refine ⟨hs, forall_mem_beforeElse (forall_mem_underHeader (ihs hss) d _) _, ?_⟩
    unfold Stmt.elseRows
    split
    · exact ihe hse d
    · exact List.forall_mem_cons.2 ⟨hs, forall_mem_underHeader (ihe hse) d _⟩
  | whileLoop c s ih =>
    intro d
    exact List.forall_mem_cons.2 ⟨hs, forall_mem_underHeader (ih (spelled_whileLoop.1 hs).2) d _⟩
  | forLoop init c u s ih =>
    intro d
    have hbody := ih (spelled_forLoop.1 hs).2.2.2
    exact List.forall_mem_cons.2 ⟨hs, forall_mem_underHeader hbody d _⟩

theorem Item.spelled_rows {i : Item} (hi : i.Spelled) : ∀ r ∈ i.tree.rows 0, r.stmt.Spelled := by
  cases i with
  | statement s noInt => exact s.spelled_rows hi 0
  | function f params body =>
    have hbody := (Statement.block body).spelled_rows (spelled_function hi).2.2 0
    rw [Item.tree, Stmt.rows, List.forall_mem_cons, List.forall_mem_append,
      List.forall_mem_singleton]
    refine ⟨hi, ?_, hi⟩
    intro r hr
    exact hbody r (List.mem_cons_of_mem _ (List.mem_append_left _ hr))

end Grammar

/-- The line is one of the row's statement, and the strings in it are those of the expressions that
it has there. -/
def Row.Holds (r : Row) (l : Line) : Prop :=
  ∃ es, r.stmt.HasLine es l.text ∧ Quotes l.text (es.flatMap Expr.strings)

theorem holds_of_fits {rs : List Row} {ls : List Line} (h : List.Forall₂ Row.Fits rs ls)
    (hspelled : ∀ r ∈ rs, r.stmt.Spelled) : List.Forall₂ Row.Holds rs ls := by
  induction h with
  | nil => exact .nil
  | cons hfits h ih =>
    rw [List.forall_mem_cons] at hspelled
    obtain ⟨es, hline⟩ := Stmt.exists_hasLine hfits.2
    exact .cons ⟨es, hline, hline.quotes hspelled.1⟩ (ih hspelled.2)

theorem Derivation.holds_emit {d : Derivation} (hd : ∀ i ∈ d.writtenItems, i.Spelled) :
    List.Forall₂ Row.Holds d.program.rows (d.program.emit 0).lines := by
  refine holds_of_fits (lays_emit hd).rows ?_
  intro r hr
  rw [Program.rows, ← map_tree_writtenItems, List.flatMap_map] at hr
  obtain ⟨i, hi, hr⟩ := List.mem_flatMap.1 hr
  exact Item.spelled_rows (hd i hi) r hr

theorem printable_of_holds {rs : List Row} {ls : List Line} (h : List.Forall₂ Row.Holds rs ls) :
    ∀ l ∈ ls, ∀ c ∈ l.render.toList, 0x20 ≤ c.toNat := by
  induction h with
  | nil => exact List.forall_mem_nil _
  | @cons r l rs ls hholds h ih =>
    obtain ⟨es, -, hquotes⟩ := hholds
    refine List.forall_mem_cons.2 ⟨?_, ih⟩
    rw [Line.render, String.toList_append, String.toList_ofList]
    refine List.forall_mem_append.2 ⟨fun c hc => ?_, hquotes.printable⟩
    obtain rfl := List.eq_of_mem_replicate hc
    decide

/-! ## Counting lines -/

/-- The lines that an emitter holds behind the program. -/
def Program.writtenLines (p : Program) : List String :=
  (Emitter.empty.emit p).1.lines.map Line.render

theorem target_of_mem_ofOutcome {o : Program.Outcome} {e : Entry} (h : e ∈ Journal.ofOutcome o) :
    e.target = "c2js::parser::parse" := by
  unfold Journal.ofOutcome at h
  rcases List.mem_append.1 h with h | h
  · obtain ⟨s, -, hs⟩ := List.mem_filterMap.1 h
    unfold Journal.ofItem? at hs
    split at hs <;> cases hs
    rfl
  · split at h
    · cases h
    · obtain rfl := List.mem_singleton.1 h
      rfl

/-- The layout makes one entry, with the number of its lines. -/
theorem filter_recompileJournal {s : Session} {ts : List Token} {p : Program}
    (hlex : tokenize s.source = .ok ts) (hparse : Program.parse ts = .ok p)
    (hemit : (p.emit 0).error = none) :
    s.recompileJournal.filter (·.target == "c2js::codegen") =
      [⟨.debug, "c2js::codegen",
        "emitted " ++ toString (p.emit 0).lines.length ++ " lines of JavaScript"⟩] := by
  have houtcome : (Journal.ofOutcome (Program.read (.ofTokens ts))).filter
      (·.target == "c2js::codegen") = [] := by
    rw [List.filter_eq_nil_iff]
    intro e he
    rw [target_of_mem_ofOutcome he]
    decide
  have hresult : (Program.read (.ofTokens ts)).result = .ok p := hparse
  rw [Session.recompileJournal, compileJournal, hlex]
  simp [hresult, Program.generate_eq_ok hemit, Journal.ofTokens, Journal.ofEmission, hemit,
    houtcome]

/-- Each line that is written is a line of the text, whatever the strings of the source hold, and
the viewer counts as many lines as the journal. -/
theorem compile_writes_lines {s : Session} {js : String} (h : compile s.source = .ok js) :
    ∃ p, parseSource s.source = .ok p ∧
      (∀ line ∈ p.writtenLines, line ≠ "" ∧ '\n' ∉ line.toList ∧ '\r' ∉ line.toList) ∧
      js = "\n".intercalate p.writtenLines ∧ lines js = p.writtenLines ∧
      s.recompile.status = toString p.writtenLines.length ++ " lines of JavaScript" ∧
      s.recompileJournal.filter (·.target == "c2js::codegen") =
        [⟨.debug, "c2js::codegen",
          "emitted " ++ toString p.writtenLines.length ++ " lines of JavaScript"⟩] := by
  obtain ⟨d, hread, hspelled, rfl⟩ := exists_derivation_of_compile h
  obtain ⟨ts, hlex, hparse⟩ := parseSource_eq_ok_iff.1 hread
  have htidy := Derivation.allTidy_emit hspelled
  have hprintable := printable_of_holds (Derivation.holds_emit hspelled)
  have hlines := lines_renderAll htidy (getLast?_of_fits (Derivation.lays_emit hspelled).rows)
  have hwritten : d.program.writtenLines = (d.program.emit 0).lines.map Line.render := by
    rw [Program.writtenLines, Emitter.lines_empty_emit]
  have hstatus : s.recompile.status =
      Session.statusOf (.ok (Line.renderAll (d.program.emit 0).lines)) := by
    rw [← h]
    rfl
  refine ⟨d.program, hread, ?_⟩
  rw [hwritten]
  refine ⟨?_, rfl, hlines, ?_, ?_⟩
  · intro line hline
    obtain ⟨l, hl, rfl⟩ := List.mem_map.1 hline
    have hcontrol (c : Char) (hc : c.toNat < 0x20) : c ∉ l.render.toList := by
      intro hmem
      have := hprintable l hl c hmem
      omega
    refine ⟨?_, hcontrol '\n' (by decide), hcontrol '\r' (by decide)⟩
    obtain ⟨c, cs, hcs, -⟩ := (htidy l hl).start
    intro hempty
    have hchars := congrArg String.toList hempty
    simp [Line.render, hcs] at hchars
  · rw [hstatus, Session.statusOf, hlines]
  · rw [filter_recompileJournal hlex hparse (d.error_emit 0), List.length_map]

/-- A function whose one string is a newline, a carriage return and a bell. -/
def bellSource : String := "int main()\x7bf(\"\n\r\x07\");//\r\n\x7d"

def bellText : String := "function main() \x7b\n    f(\"\\n\\r\\u0007\");\n\x7d\nmain();"

theorem compile_writes_lines_bell :
    compile bellSource = .ok bellText ∧ ∃ p, parseSource bellSource = .ok p ∧
      p.writtenLines =
        ["function main() \x7b", "    f(\"\\n\\r\\u0007\");", "\x7d", "main();"] ∧
      (Session.start "a.c" bellSource).status = "4 lines of JavaScript" ∧
      (Session.blank "a.c" bellSource).recompileJournal.filter (·.target == "c2js::codegen") =
        [⟨.debug, "c2js::codegen", "emitted 4 lines of JavaScript"⟩] := by
  have hcompile : compile bellSource = .ok bellText := by cbv
  have hlines : lines bellText =
      ["function main() \x7b", "    f(\"\\n\\r\\u0007\");", "\x7d", "main();"] := by
    cbv
  obtain ⟨p, hparse, -, -, hwritten, hstatus, hjournal⟩ :=
    compile_writes_lines (s := Session.blank "a.c" bellSource) hcompile
  rw [hlines] at hwritten
  rw [← hwritten] at hstatus hjournal
  exact ⟨hcompile, p, hparse, hwritten.symm, hstatus, hjournal⟩

end MiniC
