import MiniC.Proofs.WrittenExpr

/-!
# Expressions with the same text

The text of an expression determines it, and also where it ends: if two texts that go on behind an
expression are equal, then so are the expressions and what follows them (`Expr.cancels`). What may
follow is limited by `Stops`, since a name can be longer, be called or be assigned to.

The first characters of a text say which form the expression has (`formOf_script`), so it is enough
to compare expressions of one form. Nothing is known of the names in an expression but how they are
spelled, so a call of `printf` is told apart by the dot in its text.
-/

namespace MiniC

open Lexeme

/-- Two runs of characters of one class are equal if they end in one place. -/
theorem append_inj_of_head {p : Char → Bool} {as bs r s : List Char} (has : ∀ c ∈ as, p c = true)
    (hbs : ∀ c ∈ bs, p c = true) (hr : ∀ c ∈ r.head?, p c = false)
    (hs : ∀ c ∈ s.head?, p c = false) (h : as ++ r = bs ++ s) : as = bs ∧ r = s := by
  obtain ⟨htake, hdrop⟩ := takeWhile_of_head has hr
  obtain ⟨htake', hdrop'⟩ := takeWhile_of_head hbs hs
  rw [h] at htake hdrop
  exact ⟨htake.symm.trans htake', hdrop.symm.trans hdrop'⟩

theorem quoteBody_inj {as bs : List Char} (h : quoteBody as = quoteBody bs) : as = bs := by
  have hdecode := unescape_quoteBody as
  rw [h, unescape_quoteBody] at hdecode
  exact (Option.some.inj hdecode).symm

/-- Induction on an expression, where the arguments of a call are the members of a list. -/
theorem Expr.induction {motive : Expr → Prop} (literal : ∀ n, motive (.literal n))
    (string : ∀ raw, motive (.string raw)) (name : ∀ x, motive (.variable x))
    (assign : ∀ x v, motive v → motive (.assign x v))
    (binary : ∀ o a b, motive a → motive b → motive (.binary o a b))
    (call : ∀ f args, (∀ e ∈ args, motive e) → motive (.call f args)) (e : Expr) : motive e :=
  @Expr.rec motive (fun es => ∀ e ∈ es, motive e) literal string name assign binary call
    (List.forall_mem_nil motive) (fun _ _ he hes => List.forall_mem_cons.2 ⟨he, hes⟩) e

/-! ## Words -/

/-- The characters of numbers, names and `console.log`. -/
def isWordChar (c : Char) : Bool := isNameChar c || c == '.'

structure IsWord (w : List Char) : Prop where
  ne_nil : w ≠ []
  chars : ∀ c ∈ w, isWordChar c = true

theorem isWord_of_isNameChar {w : List Char} (hne : w ≠ []) (h : ∀ c ∈ w, isNameChar c = true) :
    IsWord w :=
  ⟨hne, fun c hc => by simp [isWordChar, h c hc]⟩

theorem IsWord.append_inj {v w r s : List Char} (hv : IsWord v) (hw : IsWord w)
    (hr : ∀ c ∈ r.head?, isWordChar c = false) (hs : ∀ c ∈ s.head?, isWordChar c = false)
    (h : v ++ r = w ++ s) : v = w ∧ r = s :=
  append_inj_of_head hv.chars hw.chars hr hs h

/-- The text is a name of a source. -/
structure IsName (x : String) : Prop where
  start : ∃ c cs, x.toList = c :: cs ∧ isNameStart c = true
  chars : ∀ c ∈ x.toList, isNameChar c = true
  not_keyword : ∀ word : Keyword, word.spelling ≠ x

namespace IsName

variable {x y f g : String}

theorem of_spells {text : List Char} (h : Spells (.ident x) text) : IsName x := by
  cases h with
  | @ident c cs hc hcs hword =>
    refine ⟨⟨c, cs, String.toList_ofList, hc⟩, ?_, hword⟩
    rw [String.toList_ofList]
    exact List.forall_mem_cons.2 ⟨isNameChar_of_isNameStart hc, hcs⟩

theorem isWord (h : IsName x) : IsWord x.toList := by
  obtain ⟨c, cs, hcs, -⟩ := h.start
  exact isWord_of_isNameChar (by simp [hcs]) h.chars

theorem append_inj (hx : IsName x) (hy : IsName y) {r s : List Char}
    (hr : ∀ c ∈ r.head?, isWordChar c = false) (hs : ∀ c ∈ s.head?, isWordChar c = false)
    (h : x.toList ++ r = y.toList ++ s) : x = y ∧ r = s := by
  obtain ⟨hxy, hrest⟩ := hx.isWord.append_inj hy.isWord hr hs h
  exact ⟨String.toList_inj.1 hxy, hrest⟩

theorem isWord_calleeScript (h : IsName f) : IsWord (Expr.calleeScript f).toList := by
  unfold Expr.calleeScript
  split
  · exact ⟨by decide, List.all_eq_true.1 (by decide)⟩
  · exact h.isWord

/-- No name has a dot, so none is written like `printf`. -/
theorem calleeScript_inj (hf : IsName f) (hg : IsName g)
    (h : Expr.calleeScript f = Expr.calleeScript g) : f = g := by
  have hdot {x : String} (hx : IsName x) : x ≠ "console.log" := by
    rintro rfl
    exact absurd (hx.chars '.' (by decide)) (by decide)
  unfold Expr.calleeScript at h
  split at h <;> split at h
  · simp_all
  · exact absurd h.symm (hdot hg)
  · exact absurd h (hdot hf)
  · exact h

end IsName

theorem isDigit_of_mem_toString (n : Nat) :
    ∀ c ∈ (toString (n : Int)).toList, c.isDigit = true := by
  rw [toList_toString]
  exact fun c hc => Nat.isDigit_of_mem_toDigits (by decide) (by decide) hc

theorem isWord_toString (n : Nat) : IsWord (toString (n : Int)).toList := by
  refine isWord_of_isNameChar ?_ fun c hc => isNameChar_of_isDigit (isDigit_of_mem_toString n c hc)
  rw [toList_toString]
  exact Nat.toDigits_ne_nil

theorem toString_inj {m n : Nat} (h : (toString (m : Int)).toList = (toString (n : Int)).toList) :
    m = n := by
  rw [toList_toString, toList_toString] at h
  simpa only [Nat.ofDigitChars_ten_toDigits] using congrArg (Nat.ofDigitChars 10 · 0) h

theorem find?_spelling (o : BinOp) : BinOp.all.find? (·.spelling = o.spelling) = some o := by
  cases o <;> rfl

theorem spelling_append_inj {o p : BinOp} {r s : List Char}
    (h : o.spelling.toList ++ ' ' :: r = p.spelling.toList ++ ' ' :: s) : o = p ∧ r = s := by
  have hblank (o : BinOp) : ∀ c ∈ o.spelling.toList, (c != ' ') = true := by
    cases o <;> exact List.all_eq_true.1 (by decide)
  obtain ⟨hspelling, hrest⟩ := append_inj_of_head (hblank o) (hblank p) (by simp) (by simp) h
  have hfind := find?_spelling o
  rw [String.toList_inj.1 hspelling, find?_spelling p] at hfind
  exact ⟨(Option.some.inj hfind).symm, (List.cons.inj hrest).2⟩

/-! ## What follows an expression -/

/-- The text does not go on with an expression that ends in front of it: a word there would be
whole, and it is neither called nor assigned to. -/
structure Stops (r : List Char) : Prop where
  word : ∀ c ∈ r.head?, isWordChar c = false
  call : r.head? ≠ some '('
  assign : [' ', '=', ' '].isPrefixOf r = false

theorem stops_cons {c : Char} (hc : c = ';' ∨ c = ')' ∨ c = ',') (r : List Char) :
    Stops (c :: r) := by
  rcases hc with rfl | rfl | rfl <;> exact ⟨by simp; decide, by simp, rfl⟩

theorem stops_op (o : BinOp) (r : List Char) : Stops (' ' :: (o.spelling.toList ++ ' ' :: r)) := by
  refine ⟨by simp; decide, by simp, ?_⟩
  cases o <;> rfl

/-- Where the text of `a` starts another text, both `a` and the rest can be read off. -/
def Cancels {α : Type} (f : α → String) (P : α → Prop) (a : α) : Prop :=
  ∀ b, P a → P b → ∀ r s, Stops r → Stops s →
    (f a).toList ++ r = (f b).toList ++ s → a = b ∧ r = s

theorem IsName.cancels (x : String) : Cancels id IsName x :=
  fun _ hx hy _ _ hr hs h => hx.append_inj hy hr.word hs.word h

section List

variable {α : Type} {f : α → String} {P : α → Prop}

/-- The text behind the first of a list. -/
def moreText (f : α → String) (as : List α) : List Char :=
  as.flatMap fun a => ',' :: ' ' :: (f a).toList

theorem toList_intercalate (f : α → String) (a : α) (as : List α) :
    (", ".intercalate ((a :: as).map f)).toList = (f a).toList ++ moreText f as := by
  induction as generalizing a with
  | nil => simp [moreText]
  | cons b as ih =>
    rw [List.map_cons, List.map_cons, String.intercalate_cons_cons, String.toList_append,
      String.toList_append, ← List.map_cons, ih b]
    simp [moreText]

theorem stops_moreText (as : List α) (r : List Char) : Stops (moreText f as ++ ')' :: r) := by
  cases as with
  | nil => exact stops_cons (by simp) r
  | cons a as => exact stops_cons (c := ',') (by simp) _

theorem moreText_inj {as : List α} (has : ∀ a ∈ as, P a ∧ Cancels f P a) : ∀ {bs : List α},
    (∀ b ∈ bs, P b) → ∀ {r s : List Char},
      moreText f as ++ ')' :: r = moreText f bs ++ ')' :: s → as = bs ∧ r = s := by
  induction as with
  | nil =>
    intro bs hbs r s h
    cases bs with
    | nil => exact ⟨rfl, (List.cons.inj h).2⟩
    | cons b bs => cases (List.cons.inj h).1
  | cons a as ih =>
    intro bs hbs r s h
    cases bs with
    | nil => cases (List.cons.inj h).1
    | cons b bs =>
      obtain ⟨⟨ha, hcancels⟩, has⟩ := List.forall_mem_cons.1 has
      obtain ⟨hb, hbs'⟩ := List.forall_mem_cons.1 hbs
      have hfirst : (f a).toList ++ (moreText f as ++ ')' :: r) =
          (f b).toList ++ (moreText f bs ++ ')' :: s) := by
        simpa [moreText] using h
      obtain ⟨rfl, hrest⟩ := hcancels b ha hb _ _ (stops_moreText as r) (stops_moreText bs s) hfirst
      obtain ⟨rfl, rfl⟩ := ih has hbs' hrest
      exact ⟨rfl, rfl⟩

/-- A list in brackets can be read off a text if its members can. -/
theorem intercalate_inj (hhead : ∀ a, P a → ∃ c cs, (f a).toList = c :: cs ∧ c ≠ ')')
    {as bs : List α} (has : ∀ a ∈ as, P a ∧ Cancels f P a) (hbs : ∀ b ∈ bs, P b)
    {r s : List Char} (h : (", ".intercalate (as.map f)).toList ++ ')' :: r =
      (", ".intercalate (bs.map f)).toList ++ ')' :: s) : as = bs ∧ r = s := by
  rcases as with _ | ⟨a, as⟩ <;> rcases bs with _ | ⟨b, bs⟩
  · exact ⟨rfl, (List.cons.inj h).2⟩
  · obtain ⟨c, cs, hcs, hc⟩ := hhead b (hbs b List.mem_cons_self)
    rw [toList_intercalate, hcs] at h
    exact absurd (List.cons.inj h).1.symm hc
  · obtain ⟨c, cs, hcs, hc⟩ := hhead a (has a List.mem_cons_self).1
    rw [toList_intercalate, hcs] at h
    exact absurd (List.cons.inj h).1 hc
  · obtain ⟨⟨ha, hcancels⟩, has⟩ := List.forall_mem_cons.1 has
    obtain ⟨hb, hbs'⟩ := List.forall_mem_cons.1 hbs
    rw [toList_intercalate, toList_intercalate, List.append_assoc, List.append_assoc] at h
    obtain ⟨rfl, hrest⟩ := hcancels b ha hb _ _ (stops_moreText as r) (stops_moreText bs s) h
    obtain ⟨rfl, rfl⟩ := moreText_inj has hbs' hrest
    exact ⟨rfl, rfl⟩

end List

namespace Expr

/-! ## Texts of expressions -/

theorem scripts_eq_map (es : List Expr) : scripts es = es.map script := by
  induction es with
  | nil => rfl
  | cons e es ih => rw [scripts, ih, List.map_cons]

theorem argLeaves_eq_flatMap (es : List Expr) : argLeaves es = es.flatMap leaves := by
  induction es with
  | nil => rfl
  | cons e es ih => rw [argLeaves, ih, List.flatMap_cons]

/-- The text of an operand. -/
def operandChars (e : Expr) : List Char := (operandScript e e.script).toList

theorem operandChars_of_isAssign {e : Expr} (h : e.isAssign = true) :
    operandChars e = '(' :: (e.script.toList ++ [')']) := by
  simp [operandChars, operandScript, h]

theorem operandChars_of_not_isAssign {e : Expr} (h : e.isAssign = false) :
    operandChars e = e.script.toList := by
  simp [operandChars, operandScript, h]

theorem toList_script_string (raw : String) :
    (string raw).script.toList = '"' :: (quoteBody raw.toList ++ ['"']) := by
  rw [script, toList_quoted]

theorem toList_script_assign (x : String) (v : Expr) :
    (assign x v).script.toList = x.toList ++ ' ' :: '=' :: ' ' :: v.script.toList := by
  simp [script]

theorem toList_script_binary (o : BinOp) (a b : Expr) : (binary o a b).script.toList =
    '(' :: (operandChars a ++ ' ' :: (o.spelling.toList ++ ' ' :: (operandChars b ++ [')']))) := by
  simp [script, operandChars]

theorem toList_script_call (f : String) (args : List Expr) : (call f args).script.toList =
    (calleeScript f).toList ++ '(' :: ((", ".intercalate (args.map script)).toList ++ [')']) := by
  simp [script, scripts_eq_map]

/-- The numbers, strings and names of the expression have spellings. -/
def Spelled (e : Expr) : Prop := ∀ k ∈ e.leaves, ∃ text, Spells k text

namespace Spelled

variable {x f raw : String} {o : BinOp} {v a b e : Expr} {args : List Expr}

theorem name (h : e.Spelled) (hx : .ident x ∈ e.leaves) : IsName x := by
  obtain ⟨text, htext⟩ := h _ hx
  exact .of_spells htext

theorem literal {n : Int} (h : (Expr.literal n).Spelled) : ∃ m : Nat, n = m := by
  obtain ⟨text, htext⟩ := h _ List.mem_cons_self
  cases htext with
  | number => exact ⟨_, rfl⟩

theorem string (h : (Expr.string raw).Spelled) : '"' ∉ raw.toList := by
  obtain ⟨text, htext⟩ := h _ List.mem_cons_self
  cases htext with
  | string hraw => simpa using hraw

theorem value (h : (assign x v).Spelled) : v.Spelled :=
  fun k hk => h k (List.mem_cons_of_mem _ hk)

theorem left (h : (binary o a b).Spelled) : a.Spelled :=
  fun k hk => h k (List.mem_append_left _ hk)

theorem right (h : (binary o a b).Spelled) : b.Spelled :=
  fun k hk => h k (List.mem_append_right _ hk)

theorem arg (h : (call f args).Spelled) : ∀ e ∈ args, e.Spelled := by
  intro e he k hk
  refine h k (List.mem_cons_of_mem _ ?_)
  rw [argLeaves_eq_flatMap]
  exact List.mem_flatMap.2 ⟨e, he, hk⟩

end Spelled

/-! ## The form of an expression -/

inductive Form
  | literal | string | variable | assign | binary | call
  deriving DecidableEq

def form : Expr → Form
  | .literal _ => .literal
  | .string _ => .string
  | .variable _ => .variable
  | .assign .. => .assign
  | .binary .. => .binary
  | .call .. => .call

theorem isAssign_iff {e : Expr} : e.isAssign = true ↔ e.form = .assign := by
  cases e <;> simp [isAssign, form]

/-- The form of the expression at the start of a text. -/
def formOf (cs : List Char) : Form :=
  if cs.head? = some '"' then .string
  else if cs.head? = some '(' then .binary
  else if (cs.dropWhile isWordChar).head? = some '(' then .call
  else if [' ', '=', ' '].isPrefixOf (cs.dropWhile isWordChar) then .assign
  else if cs.head?.any Char.isDigit then .literal
  else .variable

theorem formOf_word {w r : List Char} (hw : IsWord w) (hr : ∀ c ∈ r.head?, isWordChar c = false) :
    formOf (w ++ r) = if r.head? = some '(' then .call
      else if [' ', '=', ' '].isPrefixOf r then .assign
      else if w.head?.any Char.isDigit then .literal else .variable := by
  obtain ⟨c, cs, rfl⟩ := List.exists_cons_of_ne_nil hw.ne_nil
  have hc := hw.chars c List.mem_cons_self
  have hquote : c ≠ '"' := by
    rintro rfl
    exact absurd hc (by decide)
  have hopen : c ≠ '(' := by
    rintro rfl
    exact absurd hc (by decide)
  rw [formOf, (takeWhile_of_head hw.chars hr).2, if_neg (by simpa using hquote),
    if_neg (by simpa using hopen)]
  rfl

theorem formOf_literal (n : Nat) {r : List Char} (hr : Stops r) :
    formOf ((literal n).script.toList ++ r) = .literal := by
  have hword := isWord_toString n
  have hhead : (toString (n : Int)).toList.head?.any Char.isDigit = true := by
    obtain ⟨c, cs, hcs⟩ := List.exists_cons_of_ne_nil hword.ne_nil
    have hdigits := isDigit_of_mem_toString n
    rw [hcs] at hdigits ⊢
    exact hdigits c List.mem_cons_self
  rw [script, formOf_word hword hr.word, if_neg hr.call, hr.assign, hhead]
  rfl

theorem formOf_name {x : String} (hx : IsName x) {r : List Char}
    (hr : ∀ c ∈ r.head?, isWordChar c = false) : formOf (x.toList ++ r) =
      if r.head? = some '(' then .call
      else if [' ', '=', ' '].isPrefixOf r then .assign else .variable := by
  have hdigit : x.toList.head?.any Char.isDigit = false := by
    obtain ⟨c, cs, hcs, hc⟩ := hx.start
    rw [hcs, Bool.eq_false_iff]
    intro hdigit
    rw [isNameStart_of_isDigit hdigit] at hc
    cases hc
  rw [formOf_word hx.isWord hr, hdigit]
  rfl

/-- The first characters of the text say which form the expression has. -/
theorem formOf_script : ∀ {e : Expr}, e.Spelled → ∀ {r : List Char}, Stops r →
    formOf (e.script.toList ++ r) = e.form
  | .literal n, he, r, hr => by
    obtain ⟨m, rfl⟩ := he.literal
    exact formOf_literal m hr
  | .string raw, _, r, _ => by
    rw [toList_script_string]
    rfl
  | .variable x, he, r, hr => by
    have hx : IsName x := he.name List.mem_cons_self
    rw [script, formOf_name hx hr.word, if_neg hr.call, hr.assign]
    rfl
  | .assign x v, he, r, hr => by
    have hx : IsName x := he.name List.mem_cons_self
    rw [toList_script_assign, List.append_assoc, formOf_name hx (by simp; decide)]
    rfl
  | .binary o a b, _, r, _ => by
    rw [toList_script_binary]
    rfl
  | .call f args, he, r, hr => by
    have hf : IsName f := he.name List.mem_cons_self
    rw [toList_script_call, List.append_assoc, formOf_word hf.isWord_calleeScript (by simp; decide)]
    rfl

theorem form_eq {a b : Expr} (ha : a.Spelled) (hb : b.Spelled) {r s : List Char} (hr : Stops r)
    (hs : Stops s) (h : a.script.toList ++ r = b.script.toList ++ s) : b.form = a.form := by
  rw [← formOf_script ha hr, h, formOf_script hb hs]

/-- Can an expression start with the character? -/
def startsScript (c : Char) : Bool := isWordChar c || c == '"' || c == '('

theorem exists_append_eq_cons {w : List Char} (hw : IsWord w) (r : List Char) :
    ∃ c cs, w ++ r = c :: cs ∧ startsScript c = true := by
  obtain ⟨c, cs, rfl⟩ := List.exists_cons_of_ne_nil hw.ne_nil
  exact ⟨c, cs ++ r, rfl, by simp [startsScript, hw.chars c List.mem_cons_self]⟩

theorem exists_script_eq_cons : ∀ {e : Expr}, e.Spelled →
    ∃ c cs, e.script.toList = c :: cs ∧ startsScript c = true
  | .literal n, he => by
    obtain ⟨m, rfl⟩ := he.literal
    rw [script, ← List.append_nil (toString _).toList]
    exact exists_append_eq_cons (isWord_toString m) []
  | .string raw, _ => ⟨'"', _, toList_script_string raw, by decide⟩
  | .variable x, he => by
    have hx : IsName x := he.name List.mem_cons_self
    rw [script, ← List.append_nil x.toList]
    exact exists_append_eq_cons hx.isWord []
  | .assign x v, he => by
    have hx : IsName x := he.name List.mem_cons_self
    rw [toList_script_assign]
    exact exists_append_eq_cons hx.isWord _
  | .binary o a b, _ => ⟨'(', _, toList_script_binary o a b, by decide⟩
  | .call f args, he => by
    have hf : IsName f := he.name List.mem_cons_self
    rw [toList_script_call]
    exact exists_append_eq_cons hf.isWord_calleeScript _

/-! ## Operands -/

/-- An operand is never an assignment without brackets. -/
theorem formOf_operandChars_ne {e : Expr} (he : e.Spelled) {r : List Char} (hr : Stops r) :
    formOf (operandChars e ++ r) ≠ .assign := by
  by_cases h : e.isAssign = true
  · rw [operandChars_of_isAssign h]
    rintro ⟨⟩
  · rw [operandChars_of_not_isAssign (Bool.eq_false_iff.2 h), formOf_script he hr]
    exact mt isAssign_iff.2 h

/-- An assignment in brackets is not the text of another operand. -/
theorem operandChars_ne_of_isAssign {a b : Expr} (ha : a.Spelled) (hb : b.Spelled)
    (hassign : a.isAssign = true) (hother : b.isAssign = false) {r s : List Char} (hs : Stops s) :
    operandChars a ++ r ≠ operandChars b ++ s := by
  intro h
  rw [operandChars_of_isAssign hassign, operandChars_of_not_isAssign hother] at h
  have hform := formOf_script hb hs
  rw [← h] at hform
  -- the other operand starts with a bracket, so it would have to be binary
  obtain ⟨o, c, d, rfl⟩ : ∃ o c d, b = binary o c d := by
    cases b <;> first | exact ⟨_, _, _, rfl⟩ | cases hform
  simp only [toList_script_binary, List.cons_append, List.append_assoc, List.nil_append,
    List.cons.injEq, true_and] at h
  have hc := formOf_operandChars_ne hb.left (stops_op o (operandChars d ++ ')' :: s))
  rw [← h, formOf_script ha (stops_cons (by simp) r)] at hc
  exact hc (isAssign_iff.1 hassign)

theorem operandChars_inj {a b : Expr} (hcancels : Cancels script Spelled a) (ha : a.Spelled)
    (hb : b.Spelled) {r s : List Char} (hr : Stops r) (hs : Stops s)
    (h : operandChars a ++ r = operandChars b ++ s) : a = b ∧ r = s := by
  rcases hassign : a.isAssign with _ | _ <;> rcases hassign' : b.isAssign with _ | _
  · rw [operandChars_of_not_isAssign hassign, operandChars_of_not_isAssign hassign'] at h
    exact hcancels b ha hb r s hr hs h
  · exact absurd h.symm (operandChars_ne_of_isAssign hb ha hassign' hassign hr)
  · exact absurd h (operandChars_ne_of_isAssign ha hb hassign hassign' hs)
  · rw [operandChars_of_isAssign hassign, operandChars_of_isAssign hassign'] at h
    simp only [List.cons_append, List.append_assoc, List.nil_append, List.cons.injEq,
      true_and] at h
    obtain ⟨hab, hrest⟩ := hcancels b ha hb _ _ (stops_cons (by simp) r) (stops_cons (by simp) s) h
    exact ⟨hab, (List.cons.inj hrest).2⟩

/-! ## Expressions of one form -/

theorem cancels_literal (n : Int) : Cancels script Spelled (literal n) := by
  intro b ha hb r s hr hs h
  have hform := form_eq ha hb hr hs h
  obtain ⟨m, rfl⟩ : ∃ m, b = literal m := by
    cases b <;> first | exact ⟨_, rfl⟩ | cases hform
  obtain ⟨n, rfl⟩ := ha.literal
  obtain ⟨m, rfl⟩ := hb.literal
  obtain ⟨hnm, hrest⟩ := (isWord_toString n).append_inj (isWord_toString m) hr.word hs.word h
  exact ⟨by rw [toString_inj hnm], hrest⟩

theorem cancels_string (raw : String) : Cancels script Spelled (string raw) := by
  intro b ha hb r s hr hs h
  have hform := form_eq ha hb hr hs h
  obtain ⟨raw', rfl⟩ : ∃ raw', b = string raw' := by
    cases b <;> first | exact ⟨_, rfl⟩ | cases hform
  simp only [toList_script_string, List.cons_append, List.append_assoc, List.nil_append,
    List.cons.injEq, true_and] at h
  have hquote {raw : List Char} (hraw : '"' ∉ raw) : ∀ c ∈ quoteBody raw, (c != '"') = true := by
    intro c hc
    rw [bne_iff_ne]
    rintro rfl
    exact quote_notMem_quoteBody hraw hc
  obtain ⟨hbody, hrest⟩ :=
    append_inj_of_head (hquote ha.string) (hquote hb.string) (by simp) (by simp) h
  exact ⟨by rw [String.toList_inj.1 (quoteBody_inj hbody)], (List.cons.inj hrest).2⟩

theorem cancels_variable (x : String) : Cancels script Spelled (.variable x) := by
  intro b ha hb r s hr hs h
  have hform := form_eq ha hb hr hs h
  obtain ⟨y, rfl⟩ : ∃ y, b = .variable y := by
    cases b <;> first | exact ⟨_, rfl⟩ | cases hform
  have hx : IsName x := ha.name List.mem_cons_self
  have hy : IsName y := hb.name List.mem_cons_self
  obtain ⟨rfl, hrest⟩ := hx.append_inj hy hr.word hs.word h
  exact ⟨rfl, hrest⟩

theorem cancels_assign (x : String) {v : Expr} (hv : Cancels script Spelled v) :
    Cancels script Spelled (assign x v) := by
  intro b ha hb r s hr hs h
  have hform := form_eq ha hb hr hs h
  obtain ⟨y, w, rfl⟩ : ∃ y w, b = assign y w := by
    cases b <;> first | exact ⟨_, _, rfl⟩ | cases hform
  have hx : IsName x := ha.name List.mem_cons_self
  have hy : IsName y := hb.name List.mem_cons_self
  simp only [toList_script_assign, List.cons_append, List.append_assoc] at h
  obtain ⟨rfl, hvalue⟩ := hx.append_inj hy (by simp; decide) (by simp; decide) h
  simp only [List.cons.injEq, true_and] at hvalue
  obtain ⟨rfl, hrest⟩ := hv w ha.value hb.value r s hr hs hvalue
  exact ⟨rfl, hrest⟩

theorem cancels_binary (o : BinOp) {a₁ a₂ : Expr} (h₁ : Cancels script Spelled a₁)
    (h₂ : Cancels script Spelled a₂) : Cancels script Spelled (binary o a₁ a₂) := by
  intro b ha hb r s hr hs h
  have hform := form_eq ha hb hr hs h
  obtain ⟨p, b₁, b₂, rfl⟩ : ∃ p b₁ b₂, b = binary p b₁ b₂ := by
    cases b <;> first | exact ⟨_, _, _, rfl⟩ | cases hform
  simp only [toList_script_binary, List.cons_append, List.append_assoc, List.nil_append,
    List.cons.injEq, true_and] at h
  obtain ⟨rfl, hop⟩ := operandChars_inj h₁ ha.left hb.left (stops_op o _) (stops_op p _) h
  obtain ⟨rfl, hright⟩ := spelling_append_inj (List.cons.inj hop).2
  obtain ⟨rfl, hrest⟩ := operandChars_inj h₂ ha.right hb.right (stops_cons (by simp) r)
    (stops_cons (by simp) s) hright
  exact ⟨rfl, (List.cons.inj hrest).2⟩

theorem cancels_call (f : String) {args : List Expr}
    (hargs : ∀ e ∈ args, Cancels script Spelled e) : Cancels script Spelled (call f args) := by
  intro b ha hb r s hr hs h
  have hform := form_eq ha hb hr hs h
  obtain ⟨g, args', rfl⟩ : ∃ g args', b = call g args' := by
    cases b <;> first | exact ⟨_, _, rfl⟩ | cases hform
  have hf : IsName f := ha.name List.mem_cons_self
  have hg : IsName g := hb.name List.mem_cons_self
  simp only [toList_script_call, List.cons_append, List.append_assoc, List.nil_append] at h
  obtain ⟨hcallee, hopen⟩ := hf.isWord_calleeScript.append_inj hg.isWord_calleeScript
    (by simp; decide) (by simp; decide) h
  obtain rfl := hf.calleeScript_inj hg (String.toList_inj.1 hcallee)
  have hhead (e : Expr) (he : e.Spelled) : ∃ c cs, e.script.toList = c :: cs ∧ c ≠ ')' := by
    obtain ⟨c, cs, hcs, hc⟩ := exists_script_eq_cons he
    refine ⟨c, cs, hcs, ?_⟩
    rintro rfl
    exact absurd hc (by decide)
  obtain ⟨rfl, hrest⟩ := intercalate_inj hhead (fun e he => ⟨ha.arg e he, hargs e he⟩) hb.arg
    (List.cons.inj hopen).2
  exact ⟨rfl, hrest⟩

/-- The text of an expression determines it and where it ends. -/
theorem cancels (e : Expr) : Cancels script Spelled e := by
  induction e using Expr.induction with
  | literal n => exact cancels_literal n
  | string raw => exact cancels_string raw
  | name x => exact cancels_variable x
  | assign x v ih => exact cancels_assign x ih
  | binary o a b iha ihb => exact cancels_binary o iha ihb
  | call f args ih => exact cancels_call f ih

end Expr

end MiniC
