import MiniC.Proofs.LayoutTotal
import MiniC.Proofs.UniqueScript

/-!
# The first line of a statement

The lines of a statement are its first line and those behind it, wherever it stands: on its own
(`Statement.lines_own`), under a header (`Statement.lines_body`) or behind an `else`
(`Statement.lines_else`).

The first word or brace of a line says what the line starts, and also whether it starts anything at
all (`lineForm`). No name is a keyword, and `let` and `function`, which may be names, have a name
behind them only in a declaration. The names and expressions of a first line can then be read off.
-/

namespace MiniC

open Lexeme Grammar

/-! ## Forms of lines -/

/-- What a line is the first line of. -/
inductive LineForm
  | block | decl | ret | cond | loop | counted | eval | function
  /-- It goes on with a statement above it. -/
  | more
  deriving DecidableEq

/-- Does the text go on with a name? -/
def declares : List Char → Bool
  | ' ' :: c :: _ => isNameStart c
  | _ => false

/-- The form of a line that starts with a word. -/
def wordForm (word rest : List Char) : LineForm :=
  match Keyword.ofName? (String.ofList word) with
  | some .if_ => .cond
  | some .while_ => .loop
  | some .for_ => .counted
  | some .return_ => .ret
  | some .else_ => .more
  | _ =>
    if declares rest then
      if word = "let".toList then .decl else if word = "function".toList then .function else .eval
    else .eval

/-- The form of a line, by the word or brace that it starts with. -/
def lineForm (cs : List Char) : LineForm :=
  if cs.head? = some '\x7b' then .block
  else if cs.head? = some '\x7d' then .more
  else wordForm (cs.takeWhile isWordChar) (cs.dropWhile isWordChar)

theorem lineForm_of_startsScript {c : Char} (hc : Expr.startsScript c = true) (cs : List Char) :
    lineForm (c :: cs) =
      wordForm ((c :: cs).takeWhile isWordChar) ((c :: cs).dropWhile isWordChar) := by
  have hopen : c ≠ '\x7b' := by
    rintro rfl
    exact absurd hc (by decide)
  have hclose : c ≠ '\x7d' := by
    rintro rfl
    exact absurd hc (by decide)
  rw [lineForm, if_neg (by simpa using hopen), if_neg (by simpa using hclose)]

theorem lineForm_word {w r : List Char} (hw : IsWord w) (hr : ∀ c ∈ r.head?, isWordChar c = false) :
    lineForm (w ++ r) = wordForm w r := by
  obtain ⟨c, cs, rfl⟩ := List.exists_cons_of_ne_nil hw.ne_nil
  have hc : Expr.startsScript c = true := by
    simp [Expr.startsScript, hw.chars c List.mem_cons_self]
  have hsplit := takeWhile_of_head hw.chars hr
  rw [List.cons_append] at hsplit ⊢
  rw [lineForm_of_startsScript hc, hsplit.1, hsplit.2]

theorem wordForm_of_not_declares {w r : List Char} (hw : Keyword.ofName? (String.ofList w) = none)
    (hr : declares r = false) : wordForm w r = .eval := by
  rw [wordForm, hw, hr]
  rfl

theorem IsName.ofName?_eq_none {x : String} (hx : IsName x) :
    Keyword.ofName? (String.ofList x.toList) = none := by
  rw [String.ofList_toList]
  exact ofName?_eq_none_iff.2 hx.not_keyword

theorem IsName.ofName?_calleeScript {f : String} (hf : IsName f) :
    Keyword.ofName? (String.ofList (Expr.calleeScript f).toList) = none := by
  unfold Expr.calleeScript
  split
  · rfl
  · exact hf.ofName?_eq_none

theorem ofName?_toString (n : Nat) :
    Keyword.ofName? (String.ofList (toString (n : Int)).toList) = none := by
  rw [ofName?_eq_none_iff]
  intro word hword
  obtain ⟨c, cs, hcs, hc, -⟩ := spelling_eq_cons word
  have hdigits := isDigit_of_mem_toString n
  rw [← String.toList_inj, String.toList_ofList] at hword
  rw [← hword, hcs] at hdigits
  rw [isNameStart_of_isDigit (hdigits c List.mem_cons_self)] at hc
  cases hc

/-- A line that starts with an expression is that of an expression. -/
theorem lineForm_script : ∀ {e : Expr}, e.Spelled → ∀ r : List Char,
    lineForm (e.script.toList ++ ';' :: r) = .eval
  | .literal n, he, r => by
    obtain ⟨m, rfl⟩ := he.literal
    rw [Expr.script, lineForm_word (isWord_toString m) (by simp; decide)]
    exact wordForm_of_not_declares (ofName?_toString m) rfl
  | .string raw, _, r => by
    rw [Expr.toList_script_string]
    rfl
  | .variable x, he, r => by
    have hx : IsName x := he.name List.mem_cons_self
    rw [Expr.script, lineForm_word hx.isWord (by simp; decide)]
    exact wordForm_of_not_declares hx.ofName?_eq_none rfl
  | .assign x v, he, r => by
    have hx : IsName x := he.name List.mem_cons_self
    rw [Expr.toList_script_assign, List.append_assoc, lineForm_word hx.isWord (by simp; decide)]
    exact wordForm_of_not_declares hx.ofName?_eq_none rfl
  | .binary o a b, _, r => by
    rw [Expr.toList_script_binary]
    rfl
  | .call f args, he, r => by
    have hf : IsName f := he.name List.mem_cons_self
    rw [Expr.toList_script_call, List.append_assoc,
      lineForm_word hf.isWord_calleeScript (by simp; decide)]
    exact wordForm_of_not_declares hf.ofName?_calleeScript rfl

/-! ## The first line of a statement -/

/-- What follows a header on its line. -/
def Stmt.suffix (body : Stmt) : String := if body.isBlock then " \x7b" else ""

theorem Stmt.suffix_of_not_block {s : Stmt} (h : s.isBlock = false) : s.suffix = "" := by
  simp [suffix, h]

theorem Stmt.suffix_inj {s t : Stmt} (h : s.suffix = t.suffix) : s.isBlock = t.isBlock := by
  unfold suffix at h
  split at h <;> split at h <;> simp_all

namespace Grammar

/-- Induction on a statement, where those of a block are the members of a list. -/
theorem Statement.induction {motive : Statement → Prop}
    (block : ∀ ss, (∀ s ∈ ss, motive s) → motive (.block ss))
    (decl : ∀ x e, motive (.decl x e)) (ret : ∀ e, motive (.ret e))
    (eval : ∀ e, motive (.eval e)) (ifThen : ∀ c s, motive s → motive (.ifThen c s))
    (ifElse : ∀ c s e, motive s → motive e → motive (.ifElse c s e))
    (whileLoop : ∀ c s, motive s → motive (.whileLoop c s))
    (forLoop : ∀ init c u s, motive s → motive (.forLoop init c u s)) (s : Statement) : motive s :=
  @Statement.rec motive (fun ss => ∀ s ∈ ss, motive s) block decl ret ifThen ifElse whileLoop
    forLoop eval (List.forall_mem_nil motive)
    (fun _ _ hs hss => List.forall_mem_cons.2 ⟨hs, hss⟩) s

def ForInit.text : ForInit → String
  | .none => ""
  | .decl x e => "let " ++ x ++ " = " ++ e.expr.script
  | .eval e => e.expr.script

theorem ForInit.forStart_tree (init : ForInit) : Stmt.forStart init.tree = .ok init.text := by
  cases init <;> rfl

namespace Statement

/-- The text of the first line. -/
def firstText : Statement → String
  | .block _ => "\x7b"
  | .decl x e => "let " ++ x ++ " = " ++ e.expr.script ++ ";"
  | .ret e => "return " ++ e.expr.script ++ ";"
  | .eval e => e.expr.script ++ ";"
  | .ifThen c s | .ifElse c s _ => "if (" ++ c.expr.script ++ ")" ++ s.tree.suffix
  | .whileLoop c s => "while (" ++ c.expr.script ++ ")" ++ s.tree.suffix
  | .forLoop init c u s =>
    "for (" ++ init.text ++ "; " ++ c.expr.script ++ "; " ++ u.expr.script ++ ")" ++ s.tree.suffix

def form : Statement → LineForm
  | .block _ => .block
  | .decl .. => .decl
  | .ret _ => .ret
  | .eval _ => .eval
  | .ifThen .. | .ifElse .. => .cond
  | .whileLoop .. => .loop
  | .forLoop .. => .counted

/-- The lines of a body between the line of its header and its end. -/
def inner (d : Nat) : Statement → List Line
  | .block ss => (Stmt.emitAll (d + 1) (bodyTrees ss)).lines
  | s => (s.tree.emit .own (d + 1)).lines

/-- The lines behind the first. -/
def moreLines (d : Nat) : Statement → List Line
  | .decl .. | .ret _ | .eval _ => []
  | .block ss => inner d (.block ss) ++ (Stmt.closing d (.block (bodyTrees ss))).lines
  | .ifThen _ s | .whileLoop _ s | .forLoop _ _ _ s => s.inner d ++ (Stmt.closing d s.tree).lines
  | .ifElse _ s e => s.inner d ++ (e.tree.emit (.elseBody (Stmt.elseWord s.tree)) d).lines

/-- A statement that is not a block is laid out on its own under what leads to it, unless it is an
`if` behind an `else`. -/
theorem lines_lead {s : Statement} (hs : s.tree.isBlock = false) {slot : Stmt.Slot}
    (hslot : s.form = .cond → ∀ word, slot ≠ .elseBody word) (d : Nat) :
    (s.tree.emit slot d).lines = slot.lead d ++ (s.tree.emit .own (slot.inner d)).lines := by
  cases s with
  | block ss => cases hs
  | decl x e | ret e | eval e => rfl
  | whileLoop c s =>
    simp only [Statement.tree, Stmt.emit]
    rw [Emission.lines_append₃ _ rfl (s.error_emit _ _),
      Emission.lines_append₃ _ rfl (s.error_emit _ _), List.append_assoc]
    rfl
  | forLoop init c u s =>
    simp only [Statement.tree, Stmt.emit, init.forStart_tree]
    rw [Emission.lines_append₃ _ rfl (s.error_emit _ _),
      Emission.lines_append₃ _ rfl (s.error_emit _ _), List.append_assoc]
    rfl
  | ifThen c s | ifElse c s e =>
    cases slot with
    | own => rfl
    | body header =>
      simp only [Statement.tree, Stmt.emit]
      rw [Emission.lines_append₃ _ rfl (s.error_emit _ _),
        Emission.lines_append₃ _ rfl (s.error_emit _ _), List.append_assoc]
      rfl
    | elseBody word => exact absurd rfl (hslot rfl word)

theorem exists_of_isBlock {s : Statement} (h : s.tree.isBlock = true) : ∃ ss, s = .block ss := by
  cases s <;> first | exact ⟨_, rfl⟩ | cases h

theorem inner_of_not_block {s : Statement} (h : s.tree.isBlock = false) (d : Nat) :
    s.inner d = (s.tree.emit .own (d + 1)).lines := by
  cases s <;> first | rfl | cases h

theorem lines_body (s : Statement) (header : String) (d : Nat) :
    (s.tree.emit (.body header) d).lines = ⟨d, header ++ s.tree.suffix⟩ :: s.inner d := by
  rcases hblock : s.tree.isBlock with _ | _
  · rw [lines_lead hblock (by simp), inner_of_not_block hblock, Stmt.suffix_of_not_block hblock,
      String.append_empty]
    rfl
  · obtain ⟨ss, rfl⟩ := exists_of_isBlock hblock
    rw [Statement.tree, Stmt.emit, Emission.lines_append₃ _ rfl (error_emitAll ss _)]
    exact List.append_nil _

theorem lines_own (s : Statement) (d : Nat) :
    (s.tree.emit .own d).lines = ⟨d, s.firstText⟩ :: s.moreLines d := by
  cases s with
  | decl x e | ret e | eval e => rfl
  | block ss =>
    rw [Statement.tree, Stmt.emit, Emission.lines_append₃ _ rfl (error_emitAll ss _)]
    rfl
  | whileLoop c s =>
    rw [Statement.tree, Stmt.emit, Emission.lines_append₃ _ rfl (s.error_emit _ _), lines_body]
    rfl
  | forLoop init c u s =>
    simp only [Statement.tree, Stmt.emit, init.forStart_tree]
    rw [Emission.lines_append₃ _ rfl (s.error_emit _ _), lines_body]
    rfl
  | ifThen c s =>
    rw [Statement.tree, Stmt.emit, Emission.lines_append₃ _ rfl (s.error_emit _ _), lines_body]
    rfl
  | ifElse c s e =>
    rw [Statement.tree, Stmt.emit, Emission.lines_append₃ _ rfl (s.error_emit _ _), lines_body]
    rfl

/-- What follows an `else` on its line. -/
def elseText (s : Statement) : String :=
  if s.form = .cond then " " ++ s.firstText else s.tree.suffix

/-- The lines behind that of an `else`. -/
def elseMore (d : Nat) (s : Statement) : List Line :=
  if s.form = .cond then s.moreLines d else s.inner d ++ (Stmt.closing d s.tree).lines

theorem lines_else (s : Statement) (word : String) (d : Nat) :
    (s.tree.emit (.elseBody word) d).lines = ⟨d, word ++ s.elseText⟩ :: s.elseMore d := by
  by_cases hcond : s.form = .cond
  · rw [elseText, elseMore, if_pos hcond, if_pos hcond]
    cases s with
    | ifThen c s | ifElse c s e =>
      rw [Statement.tree, Stmt.emit, Emission.lines_append₃ _ rfl (s.error_emit _ _), lines_body]
      simp only [Stmt.Slot.ifWord, firstText, String.append_assoc]
      rfl
    | _ => cases hcond
  · rw [elseText, elseMore, if_neg hcond, if_neg hcond]
    rcases hblock : s.tree.isBlock with _ | _
    · rw [lines_lead hblock (fun h => absurd h hcond), inner_of_not_block hblock,
        Stmt.suffix_of_not_block hblock, String.append_empty, Stmt.closing, hblock]
      exact congrArg _ (List.append_nil _).symm
    · obtain ⟨ss, rfl⟩ := exists_of_isBlock hblock
      rw [Statement.tree, Stmt.emit, Emission.lines_append₃ _ rfl (error_emitAll ss _)]
      rfl

end Statement

end Grammar

/-! ## Reading off the first line -/

/-- What is written for the part is spelled. -/
def Part.Spelled : Part → Prop
  | .name x => IsName x
  | .expr e => e.Spelled

namespace Grammar

def ForInit.Spelled (init : ForInit) : Prop := ∀ part ∈ Stmt.optionParts init.tree, part.Spelled

theorem ForInit.spelled_decl {x : String} {e : Chain} :
    (ForInit.decl x e).Spelled ↔ IsName x ∧ e.expr.Spelled := by
  simp [Spelled, ForInit.tree, Stmt.optionParts, Stmt.parts, Part.Spelled]

theorem ForInit.spelled_eval {e : Chain} : (ForInit.eval e).Spelled ↔ e.expr.Spelled := by
  simp [Spelled, ForInit.tree, Stmt.optionParts, Stmt.parts, Part.Spelled]

namespace Statement

/-- What is written for the statement is spelled. -/
def Spelled (s : Statement) : Prop := ∀ part ∈ s.tree.parts, part.Spelled

variable {x : String} {init : ForInit} {c u e : Chain} {s t : Statement}

theorem spelled_decl : (decl x e).Spelled ↔ IsName x ∧ e.expr.Spelled := by
  simp [Spelled, Statement.tree, Stmt.parts, Part.Spelled]

theorem spelled_ret : (ret e).Spelled ↔ e.expr.Spelled := by
  simp [Spelled, Statement.tree, Stmt.parts, Part.Spelled]

theorem spelled_eval : (eval e).Spelled ↔ e.expr.Spelled := by
  simp [Spelled, Statement.tree, Stmt.parts, Part.Spelled]

theorem spelled_ifThen : (ifThen c s).Spelled ↔ c.expr.Spelled ∧ s.Spelled := by
  simp [Spelled, Statement.tree, Stmt.parts, Stmt.optionParts, Part.Spelled]

theorem spelled_ifElse : (ifElse c s t).Spelled ↔ c.expr.Spelled ∧ s.Spelled ∧ t.Spelled := by
  simp [Spelled, Statement.tree, Stmt.parts, Stmt.optionParts, Part.Spelled,
    List.forall_mem_append, -List.mem_append]

theorem spelled_whileLoop : (whileLoop c s).Spelled ↔ c.expr.Spelled ∧ s.Spelled := by
  simp [Spelled, Statement.tree, Stmt.parts, Part.Spelled]

theorem spelled_forLoop : (forLoop init c u s).Spelled ↔
    init.Spelled ∧ c.expr.Spelled ∧ u.expr.Spelled ∧ s.Spelled := by
  simp [Spelled, ForInit.Spelled, Statement.tree, Stmt.parts, Part.Spelled,
    List.forall_mem_append, -List.mem_append]

end Statement

theorem spelled_body : ∀ {ss : List Statement},
    (∀ part ∈ Stmt.bodyParts (bodyTrees ss), part.Spelled) → ∀ s ∈ ss, s.Spelled
  | [], _ => by simp
  | s :: ss, h => by
    rw [bodyTrees, Stmt.bodyParts, List.forall_mem_append] at h
    exact List.forall_mem_cons.2 ⟨h.1, spelled_body h.2⟩

theorem name_append_inj {x y : String} (hx : IsName x) (hy : IsName y) {r s : String}
    (hr : ∀ c ∈ r.toList.head?, isWordChar c = false)
    (hs : ∀ c ∈ s.toList.head?, isWordChar c = false) (h : x ++ r = y ++ s) : x = y ∧ r = s := by
  have hchars := congrArg String.toList h
  rw [String.toList_append, String.toList_append] at hchars
  obtain ⟨hxy, hrest⟩ := hx.append_inj hy hr hs hchars
  exact ⟨hxy, String.toList_inj.1 hrest⟩

theorem script_append_inj {a b : Expr} (ha : a.Spelled) (hb : b.Spelled) {r s : String}
    (hr : Stops r.toList) (hs : Stops s.toList) (h : a.script ++ r = b.script ++ s) :
    a = b ∧ r = s := by
  have hchars := congrArg String.toList h
  rw [String.toList_append, String.toList_append] at hchars
  obtain ⟨hab, hrest⟩ := a.cancels b ha hb _ _ hr hs hchars
  exact ⟨hab, String.toList_inj.1 hrest⟩

theorem stops_semicolon (r : String) : Stops (";" ++ r).toList := by
  rw [String.toList_append]
  exact stops_cons (c := ';') (by simp) _

theorem stops_bracket (r : String) : Stops (")" ++ r).toList := by
  rw [String.toList_append]
  exact stops_cons (c := ')') (by simp) _

/-- A header determines its condition and what follows it. -/
theorem header_inj {a b : Expr} (ha : a.Spelled) (hb : b.Spelled) {r s : String}
    (h : a.script ++ ")" ++ r = b.script ++ ")" ++ s) : a = b ∧ r = s := by
  rw [String.append_assoc, String.append_assoc] at h
  obtain ⟨hab, hrest⟩ := script_append_inj ha hb (stops_bracket r) (stops_bracket s) h
  exact ⟨hab, (String.append_right_inj _).1 hrest⟩

theorem line_inj {a b : Expr} (ha : a.Spelled) (hb : b.Spelled) {r s : String}
    (h : a.script ++ ";" ++ r = b.script ++ ";" ++ s) : a = b ∧ r = s := by
  rw [String.append_assoc, String.append_assoc] at h
  obtain ⟨hab, hrest⟩ := script_append_inj ha hb (stops_semicolon r) (stops_semicolon s) h
  exact ⟨hab, (String.append_right_inj _).1 hrest⟩

theorem decl_inj {x y : String} {a b : Expr} (hx : IsName x) (hy : IsName y) (ha : a.Spelled)
    (hb : b.Spelled) {r s : String}
    (h : "let " ++ x ++ " = " ++ a.script ++ ";" ++ r =
      "let " ++ y ++ " = " ++ b.script ++ ";" ++ s) :
    x = y ∧ a = b ∧ r = s := by
  have hequals (r : String) : ∀ c ∈ (" = " ++ r).toList.head?, isWordChar c = false := by
    simp
    decide
  have hname : x ++ (" = " ++ (a.script ++ ";" ++ r)) = y ++ (" = " ++ (b.script ++ ";" ++ s)) := by
    simpa only [String.append_assoc, String.append_right_inj] using h
  obtain ⟨hxy, hrest⟩ := name_append_inj hx hy (hequals _) (hequals _) hname
  exact ⟨hxy, line_inj ha hb ((String.append_right_inj _).1 hrest)⟩

/-! ## The form of a first line -/

/-- A word with a name behind it. -/
theorem exists_lineForm_eq {word : String} (hword : IsWord word.toList) {x : String} (hx : IsName x)
    (r : String) : ∃ rest, declares rest = true ∧
      lineForm (word ++ " " ++ x ++ r).toList = wordForm word.toList rest := by
  obtain ⟨c, cs, hcs, hc⟩ := hx.start
  refine ⟨' ' :: c :: (cs ++ r.toList), hc, ?_⟩
  have htext : (word ++ " " ++ x ++ r).toList = word.toList ++ ' ' :: c :: (cs ++ r.toList) := by
    simp [hcs]
  rw [htext, lineForm_word hword (by simp; decide)]

theorem lineForm_let {x : String} (hx : IsName x) (r : String) :
    lineForm ("let " ++ x ++ r).toList = .decl := by
  have hword : IsWord "let".toList := ⟨by decide, List.all_eq_true.1 (by decide)⟩
  obtain ⟨rest, hrest, hform⟩ := exists_lineForm_eq hword hx r
  rw [wordForm, hrest] at hform
  exact hform

theorem lineForm_function {f : String} (hf : IsName f) (r : String) :
    lineForm ("function " ++ f ++ r).toList = .function := by
  have hword : IsWord "function".toList := ⟨by decide, List.all_eq_true.1 (by decide)⟩
  obtain ⟨rest, hrest, hform⟩ := exists_lineForm_eq hword hf r
  rw [wordForm, hrest] at hform
  exact hform

theorem Statement.lineForm_firstText {s : Statement} (hs : s.Spelled) :
    lineForm s.firstText.toList = s.form := by
  cases s with
  | decl x e =>
    simp only [firstText, String.append_assoc]
    rw [← String.append_assoc]
    exact lineForm_let (spelled_decl.1 hs).1 _
  | eval e =>
    rw [firstText, String.toList_append]
    exact lineForm_script (spelled_eval.1 hs) []
  | _ =>
    -- the line starts with a brace or a keyword
    simp only [firstText, String.append_assoc, String.toList_append]
    rfl

/-- Which of its forms the start of a `for` has. -/
def ForInit.form : ForInit → Option LineForm
  | .none => Option.none
  | .decl .. => some .decl
  | .eval _ => some .eval

def ForInit.formOf (cs : List Char) : Option LineForm :=
  if cs.head? = some ';' then Option.none else some (lineForm cs)

theorem ForInit.formOf_text {init : ForInit} (h : init.Spelled) (r : String) :
    formOf (init.text ++ ";" ++ r).toList = init.form := by
  cases init with
  | none =>
    rw [String.toList_append]
    rfl
  | decl x e =>
    have hform := lineForm_let (spelled_decl.1 h).1 (" = " ++ e.expr.script ++ ";" ++ r)
    simp only [formOf, text, form, String.append_assoc] at hform ⊢
    rw [hform, String.toList_append]
    rfl
  | eval e =>
    have he := spelled_eval.1 h
    obtain ⟨c, cs, hcs, hc⟩ := Expr.exists_script_eq_cons he
    have hne : c ≠ ';' := by
      rintro rfl
      exact absurd hc (by decide)
    rw [text, String.append_assoc, String.toList_append, String.toList_append, formOf,
      if_neg (by simpa [hcs] using hne)]
    exact congrArg some (lineForm_script he r.toList)

theorem ForInit.text_inj {init init' : ForInit} (h : init.Spelled) (h' : init'.Spelled)
    {r s : String} (htext : init.text ++ ";" ++ r = init'.text ++ ";" ++ s) :
    init.tree = init'.tree ∧ r = s := by
  have hform := formOf_text h' s
  rw [← htext, formOf_text h] at hform
  cases init with
  | none =>
    cases init' with
    | none => exact ⟨rfl, (String.append_right_inj _).1 htext⟩
    | _ => cases hform
  | decl x e =>
    cases init' with
    | decl y e' =>
      obtain ⟨hx, he⟩ := spelled_decl.1 h
      obtain ⟨hy, he'⟩ := spelled_decl.1 h'
      obtain ⟨rfl, hee', hrest⟩ := decl_inj hx hy he he' htext
      exact ⟨by rw [ForInit.tree, ForInit.tree, hee'], hrest⟩
    | _ => cases hform
  | eval e =>
    cases init' with
    | eval e' =>
      obtain ⟨hee', hrest⟩ := line_inj (spelled_eval.1 h) (spelled_eval.1 h') htext
      exact ⟨by rw [ForInit.tree, ForInit.tree, hee'], hrest⟩
    | _ => cases hform

end Grammar

end MiniC
