import MiniC.Proofs.FirstLine

/-!
# Statements with the same lines

The lines of a statement determine it, and also where it ends (`Statement.determined`). What may
follow is limited by `Follows`: a line that is less deep, or one that starts a statement, since a
closing brace or an `else` could be part of the statement above.

The first line says which form the statement has, and its names and expressions can be read off it.
A body is deeper than its header, so its end shows in the depth of what follows, and whether it is
a block is written behind the header. `Statement.Determined` says this for each of the places where
a statement can stand: on its own, under a header, and behind an `else`.
-/

namespace MiniC

open Lexeme Grammar

/-! ## What follows a statement -/

/-- The next line is less deep. -/
def Below (d : Nat) (ls : List Line) : Prop := ∀ l ∈ ls.head?, l.depth < d

/-- The next line is not part of a statement of the depth that ends in front of it. -/
def Follows (d : Nat) (ls : List Line) : Prop :=
  ∀ l ∈ ls.head?, l.depth < d ∨ l.depth = d ∧ lineForm l.text.toList ≠ .more

theorem Below.follows {d : Nat} {ls : List Line} (h : Below d ls) : Follows d ls :=
  fun l hl => .inl (h l hl)

theorem Follows.below {d : Nat} {ls : List Line} (h : Follows d ls) : Below (d + 1) ls := by
  intro l hl
  rcases h l hl with hlt | ⟨heq, -⟩ <;> omega

theorem below_cons (d : Nat) (text : String) (ls : List Line) :
    Below (d + 1) (⟨d, text⟩ :: ls) := by
  rintro l ⟨⟩
  exact Nat.lt_succ_self d

theorem Follows.below_closing {d : Nat} {ls : List Line} (h : Follows d ls) (s : Stmt) :
    Below (d + 1) ((Stmt.closing d s).lines ++ ls) := by
  unfold Stmt.closing
  split
  · exact below_cons d _ _
  · exact h.below

section List

variable {α : Type} {L : α → List Line} {T : α → Stmt} {P : α → Prop} {d : Nat}

/-- Statements one after the other, each of which starts at the depth `d`, can be told apart if each
of them can. -/
theorem flatMap_inj
    (hhead : ∀ a, P a → ∃ text more, L a = ⟨d, text⟩ :: more ∧ lineForm text.toList ≠ .more)
    {as : List α} (has : ∀ a ∈ as, P a ∧ ∀ b R S, P b → Follows d R → Follows d S →
      L a ++ R = L b ++ S → T a = T b ∧ R = S) :
    ∀ {bs : List α}, (∀ b ∈ bs, P b) → ∀ {R S : List Line}, Below d R → Below d S →
      as.flatMap L ++ R = bs.flatMap L ++ S → as.map T = bs.map T ∧ R = S := by
  have hfollows {as : List α} (has : ∀ a ∈ as, P a) {R : List Line} (hR : Below d R) :
      Follows d (as.flatMap L ++ R) := by
    cases as with
    | nil => exact hR.follows
    | cons a as =>
      obtain ⟨text, more, hlines, hform⟩ := hhead a (has a List.mem_cons_self)
      rw [List.flatMap_cons, hlines]
      rintro l ⟨⟩
      exact .inr ⟨rfl, hform⟩
  have hne {a : α} (ha : P a) {ls R : List Line} (hR : Below d R) : R ≠ L a ++ ls := by
    obtain ⟨text, more, hlines, -⟩ := hhead a ha
    rintro rfl
    rw [hlines] at hR
    exact absurd (hR _ rfl) (Nat.lt_irrefl d)
  induction as with
  | nil =>
    intro bs hbs R S hR hS h
    cases bs with
    | nil => exact ⟨rfl, h⟩
    | cons b bs =>
      rw [List.flatMap_cons, List.append_assoc] at h
      exact absurd h (hne (hbs b List.mem_cons_self) hR)
  | cons a as ih =>
    intro bs hbs R S hR hS h
    obtain ⟨⟨ha, hcancel⟩, has⟩ := List.forall_mem_cons.1 has
    cases bs with
    | nil =>
      rw [List.flatMap_cons, List.append_assoc] at h
      exact absurd h.symm (hne ha hS)
    | cons b bs =>
      obtain ⟨hb, hbs⟩ := List.forall_mem_cons.1 hbs
      simp only [List.flatMap_cons, List.append_assoc] at h
      obtain ⟨hab, hrest⟩ := hcancel b _ _ hb (hfollows (fun a ha => (has a ha).1) hR)
        (hfollows hbs hS) h
      obtain ⟨hmap, hRS⟩ := ih has hbs hR hS hrest
      exact ⟨by rw [List.map_cons, List.map_cons, hab, hmap], hRS⟩

end List

namespace Grammar

theorem bodyTrees_eq_map (ss : List Statement) : bodyTrees ss = ss.map Statement.tree := by
  induction ss with
  | nil => rfl
  | cons s ss ih => rw [bodyTrees, ih, List.map_cons]

theorem lines_emitAll (d : Nat) (ss : List Statement) :
    (Stmt.emitAll d (bodyTrees ss)).lines = ss.flatMap fun s => (s.tree.emit .own d).lines := by
  induction ss with
  | nil => rfl
  | cons s ss ih =>
    rw [bodyTrees, Stmt.emitAll, Emission.lines_append (s.error_emit _ _), ih, List.flatMap_cons]

namespace Statement

/-- What `first` and `more` write for `s` tells it from any other statement, if what follows meets
the condition. -/
def Determined (first : Statement → String) (more : Nat → Statement → List Line)
    (Ends : Nat → List Line → Prop) (s : Statement) : Prop :=
  ∀ t d R S, s.Spelled → t.Spelled → Ends d R → Ends d S → first s = first t →
    more d s ++ R = more d t ++ S → s.tree = t.tree ∧ R = S

/-- The statement is determined by its lines. -/
def Own : Statement → Prop := Determined firstText moreLines Follows

/-- A body is determined by its lines under a header. -/
def Inner : Statement → Prop := Determined (·.tree.suffix) inner fun d => Below (d + 1)

/-- The statement is determined by its lines behind an `else`. -/
def Else : Statement → Prop := Determined elseText elseMore Follows

theorem form_ne_more (s : Statement) : s.form ≠ .more := by
  cases s <;> rintro ⟨⟩

theorem exists_lines_own {s : Statement} (hs : s.Spelled) (d : Nat) : ∃ text more,
    (s.tree.emit .own d).lines = ⟨d, text⟩ :: more ∧ lineForm text.toList ≠ .more :=
  ⟨_, _, s.lines_own d, by rw [lineForm_firstText hs]; exact s.form_ne_more⟩

theorem Own.cancel {s t : Statement} (h : s.Own) {d : Nat} {R S : List Line} (hs : s.Spelled)
    (ht : t.Spelled) (hR : Follows d R) (hS : Follows d S)
    (heq : (s.tree.emit .own d).lines ++ R = (t.tree.emit .own d).lines ++ S) :
    s.tree = t.tree ∧ R = S := by
  rw [lines_own, lines_own, List.cons_append, List.cons_append, List.cons.injEq,
    Line.mk.injEq] at heq
  exact h t d R S hs ht hR hS heq.1.2 heq.2

theorem inner_of_own {s : Statement} (hblock : s.tree.isBlock = false) (h : s.Own) : s.Inner := by
  intro t d R S hs ht hR hS hsuffix heq
  have hblock' : t.tree.isBlock = false := (Stmt.suffix_inj hsuffix).symm.trans hblock
  rw [inner_of_not_block hblock, inner_of_not_block hblock'] at heq
  exact h.cancel hs ht hR.follows hS.follows heq

theorem inner_block {ss : List Statement} (h : ∀ s ∈ ss, s.Own) : (block ss).Inner := by
  intro t d R S hs ht hR hS hsuffix heq
  obtain ⟨ts, rfl⟩ := exists_of_isBlock (Stmt.suffix_inj hsuffix).symm
  rw [inner, inner, lines_emitAll, lines_emitAll] at heq
  obtain ⟨hmap, hRS⟩ := flatMap_inj (fun s hs => exists_lines_own hs (d + 1))
    (fun s hmem => ⟨spelled_body hs s hmem, fun t R S ht hR hS heq =>
      (h s hmem).cancel (spelled_body hs s hmem) ht hR hS heq⟩) (spelled_body ht) hR hS heq
  exact ⟨by rw [Statement.tree, Statement.tree, bodyTrees_eq_map, bodyTrees_eq_map, hmap], hRS⟩

/-- A body with the brace that closes it. -/
theorem Inner.closing {s t : Statement} (h : s.Inner) {d : Nat} {R S : List Line} (hs : s.Spelled)
    (ht : t.Spelled) (hR : Follows d R) (hS : Follows d S) (hsuffix : s.tree.suffix = t.tree.suffix)
    (heq : s.inner d ++ (Stmt.closing d s.tree).lines ++ R =
      t.inner d ++ (Stmt.closing d t.tree).lines ++ S) : s.tree = t.tree ∧ R = S := by
  rw [List.append_assoc, List.append_assoc] at heq
  obtain ⟨htree, hrest⟩ := h t d _ _ hs ht (hR.below_closing _) (hS.below_closing _) hsuffix heq
  rw [htree] at hrest
  exact ⟨htree, List.append_cancel_left hrest⟩

theorem suffix_ne_of_cond {s : Statement} (h : s.form = .cond) (t : Stmt) :
    " " ++ s.firstText ≠ t.suffix := by
  cases s with
  | ifThen c s | ifElse c s e =>
    unfold Stmt.suffix
    split <;> simp [← String.toList_inj, firstText]
  | _ => cases h

theorem else_of_own {s : Statement} (hown : s.Own) (hinner : s.Inner) : s.Else := by
  intro t d R S hs ht hR hS hfirst heq
  unfold elseText at hfirst
  unfold elseMore at heq
  by_cases hcond : s.form = .cond <;> by_cases hcond' : t.form = .cond
  · rw [if_pos hcond, if_pos hcond'] at hfirst heq
    exact hown t d R S hs ht hR hS ((String.append_right_inj _).1 hfirst) heq
  · rw [if_pos hcond, if_neg hcond'] at hfirst
    exact absurd hfirst (suffix_ne_of_cond hcond _)
  · rw [if_neg hcond, if_pos hcond'] at hfirst
    exact absurd hfirst.symm (suffix_ne_of_cond hcond' _)
  · rw [if_neg hcond, if_neg hcond'] at hfirst heq
    exact hinner.closing hs ht hR hS hfirst heq

/-! ## Statements of one form -/

theorem form_eq {s t : Statement} (hs : s.Spelled) (ht : t.Spelled)
    (h : s.firstText = t.firstText) : t.form = s.form := by
  rw [← lineForm_firstText hs, h, lineForm_firstText ht]

theorem own_decl (x : String) (e : Chain) : (decl x e).Own := by
  intro t d R S hs ht _ _ hfirst hmore
  have hform := form_eq hs ht hfirst
  obtain ⟨y, e', rfl⟩ : ∃ y e', t = decl y e' := by
    cases t <;> first | exact ⟨_, _, rfl⟩ | cases hform
  obtain ⟨hx, he⟩ := spelled_decl.1 hs
  obtain ⟨hy, he'⟩ := spelled_decl.1 ht
  obtain ⟨rfl, hee', -⟩ := decl_inj hx hy he he' (congrArg (· ++ "") hfirst)
  exact ⟨by rw [Statement.tree, Statement.tree, hee'], hmore⟩

theorem own_eval (e : Chain) : (eval e).Own := by
  intro t d R S hs ht _ _ hfirst hmore
  have hform := form_eq hs ht hfirst
  obtain ⟨e', rfl⟩ : ∃ e', t = eval e' := by
    cases t <;> first | exact ⟨_, rfl⟩ | cases hform
  obtain ⟨hee', -⟩ := line_inj (spelled_eval.1 hs) (spelled_eval.1 ht) (congrArg (· ++ "") hfirst)
  exact ⟨by rw [Statement.tree, Statement.tree, hee'], hmore⟩

theorem own_ret (e : Chain) : (ret e).Own := by
  intro t d R S hs ht _ _ hfirst hmore
  have hform := form_eq hs ht hfirst
  obtain ⟨e', rfl⟩ : ∃ e', t = ret e' := by
    cases t <;> first | exact ⟨_, rfl⟩ | cases hform
  have htext : e.expr.script ++ ";" = e'.expr.script ++ ";" := by
    simpa only [firstText, String.append_assoc, String.append_right_inj] using hfirst
  obtain ⟨hee', -⟩ := line_inj (spelled_ret.1 hs) (spelled_ret.1 ht) (congrArg (· ++ "") htext)
  exact ⟨by rw [Statement.tree, Statement.tree, hee'], hmore⟩

theorem own_block {ss : List Statement} (h : (block ss).Inner) : (block ss).Own := by
  intro t d R S hs ht hR hS hfirst hmore
  have hform := form_eq hs ht hfirst
  obtain ⟨ts, rfl⟩ : ∃ ts, t = block ts := by
    cases t <;> first | exact ⟨_, rfl⟩ | cases hform
  exact h.closing hs ht hR hS rfl hmore

theorem own_whileLoop (c : Chain) {s : Statement} (h : s.Inner) : (whileLoop c s).Own := by
  intro t d R S hs ht hR hS hfirst hmore
  have hform := form_eq hs ht hfirst
  obtain ⟨c', t, rfl⟩ : ∃ c' t', t = whileLoop c' t' := by
    cases t <;> first | exact ⟨_, _, rfl⟩ | cases hform
  obtain ⟨hsc, hs⟩ := spelled_whileLoop.1 hs
  obtain ⟨htc, ht⟩ := spelled_whileLoop.1 ht
  have htext : c.expr.script ++ ")" ++ s.tree.suffix = c'.expr.script ++ ")" ++ t.tree.suffix := by
    simpa only [firstText, String.append_assoc, String.append_right_inj] using hfirst
  obtain ⟨hc, hsuffix⟩ := header_inj hsc htc htext
  obtain ⟨htree, hRS⟩ := h.closing hs ht hR hS hsuffix hmore
  exact ⟨by rw [Statement.tree, Statement.tree, hc, htree], hRS⟩

theorem own_forLoop (init : ForInit) (c u : Chain) {s : Statement} (h : s.Inner) :
    (forLoop init c u s).Own := by
  intro t d R S hs ht hR hS hfirst hmore
  have hform := form_eq hs ht hfirst
  obtain ⟨init', c', u', t, rfl⟩ : ∃ init' c' u' t', t = forLoop init' c' u' t' := by
    cases t <;> first | exact ⟨_, _, _, _, rfl⟩ | cases hform
  obtain ⟨hsinit, hsc, hsu, hs⟩ := spelled_forLoop.1 hs
  obtain ⟨htinit, htc, htu, ht⟩ := spelled_forLoop.1 ht
  have hsep : "; " = ";" ++ " " := rfl
  have htext : init.text ++ ";" ++ (" " ++ (c.expr.script ++ ";" ++
        (" " ++ (u.expr.script ++ ")" ++ s.tree.suffix)))) =
      init'.text ++ ";" ++ (" " ++ (c'.expr.script ++ ";" ++
        (" " ++ (u'.expr.script ++ ")" ++ t.tree.suffix)))) := by
    simpa only [firstText, hsep, String.append_assoc, String.append_right_inj] using hfirst
  obtain ⟨hinit, hrest⟩ := ForInit.text_inj hsinit htinit htext
  obtain ⟨hc, hrest⟩ := line_inj hsc htc ((String.append_right_inj _).1 hrest)
  obtain ⟨hu, hsuffix⟩ := header_inj hsu htu ((String.append_right_inj _).1 hrest)
  obtain ⟨htree, hRS⟩ := h.closing hs ht hR hS hsuffix hmore
  exact ⟨by rw [Statement.tree, Statement.tree, hinit, hc, hu, htree], hRS⟩

theorem isWordChar_head_elseText (e : Statement) :
    ∀ c ∈ e.elseText.toList.head?, isWordChar c = false := by
  unfold elseText Stmt.suffix
  split
  · simp
    decide
  · split <;> simp
    decide

/-- A line with `else` goes on with the `if` above it. -/
theorem closing_ne_else {s : Stmt} {e : Statement} {d : Nat} {R S : List Line}
    (hR : Follows d R) : (Stmt.closing d s).lines ++ R ≠
      (e.tree.emit (.elseBody (Stmt.elseWord s)) d).lines ++ S := by
  rw [lines_else]
  unfold Stmt.closing Stmt.elseWord
  split
  · intro h
    have htext := congrArg String.toList (Line.mk.inj (List.cons.inj h).1).2
    rw [String.toList_append] at htext
    cases htext
  · rintro rfl
    rcases hR _ rfl with hlt | ⟨-, hform⟩
    · exact absurd hlt (Nat.lt_irrefl d)
    · have hword : IsWord "else".toList := ⟨by decide, List.all_eq_true.1 (by decide)⟩
      refine hform ?_
      rw [String.toList_append, lineForm_word hword e.isWordChar_head_elseText]
      rfl

/-- What the first line of an `if` and the lines of its body determine. -/
theorem Inner.cond {c c' : Chain} {s t : Statement} (h : s.Inner) {d : Nat} {R S : List Line}
    (hc : c.expr.Spelled) (hs : s.Spelled) (hc' : c'.expr.Spelled) (ht : t.Spelled)
    (hR : Below (d + 1) R) (hS : Below (d + 1) S)
    (hfirst : "if (" ++ c.expr.script ++ ")" ++ s.tree.suffix =
      "if (" ++ c'.expr.script ++ ")" ++ t.tree.suffix)
    (hmore : s.inner d ++ R = t.inner d ++ S) :
    c.expr = c'.expr ∧ s.tree = t.tree ∧ R = S := by
  have htext : c.expr.script ++ ")" ++ s.tree.suffix = c'.expr.script ++ ")" ++ t.tree.suffix := by
    simpa only [String.append_assoc, String.append_right_inj] using hfirst
  obtain ⟨hcond, hsuffix⟩ := header_inj hc hc' htext
  exact ⟨hcond, h t d R S hs ht hR hS hsuffix hmore⟩

theorem below_else (e : Statement) (word : String) (d : Nat) (R : List Line) :
    Below (d + 1) ((e.tree.emit (.elseBody word) d).lines ++ R) := by
  rw [lines_else]
  exact below_cons d _ _

theorem own_ifThen (c : Chain) {s : Statement} (h : s.Inner) : (ifThen c s).Own := by
  intro t d R S hs ht hR hS hfirst hmore
  have hform := form_eq hs ht hfirst
  obtain ⟨hsc, hs⟩ := spelled_ifThen.1 hs
  cases t with
  | ifThen c' t =>
    obtain ⟨htc, ht⟩ := spelled_ifThen.1 ht
    simp only [moreLines, List.append_assoc] at hmore
    obtain ⟨hc, htree, hrest⟩ := h.cond hsc hs htc ht (hR.below_closing _) (hS.below_closing _)
      hfirst hmore
    rw [htree] at hrest
    exact ⟨by rw [Statement.tree, Statement.tree, hc, htree], List.append_cancel_left hrest⟩
  | ifElse c' t e =>
    obtain ⟨htc, ht, -⟩ := spelled_ifElse.1 ht
    simp only [moreLines, List.append_assoc] at hmore
    obtain ⟨-, htree, hrest⟩ := h.cond hsc hs htc ht (hR.below_closing _) (e.below_else _ d S)
      hfirst hmore
    rw [htree] at hrest
    exact absurd hrest (closing_ne_else hR)
  | _ => cases hform

theorem own_ifElse (c : Chain) {s e : Statement} (h : s.Inner) (he : e.Else) :
    (ifElse c s e).Own := by
  intro t d R S hs ht hR hS hfirst hmore
  have hform := form_eq hs ht hfirst
  obtain ⟨hsc, hs, hse⟩ := spelled_ifElse.1 hs
  cases t with
  | ifThen c' t =>
    obtain ⟨htc, ht⟩ := spelled_ifThen.1 ht
    simp only [moreLines, List.append_assoc] at hmore
    obtain ⟨-, htree, hrest⟩ := h.cond hsc hs htc ht (e.below_else _ d R) (hS.below_closing _)
      hfirst hmore
    rw [htree] at hrest
    exact absurd hrest.symm (closing_ne_else hS)
  | ifElse c' t e' =>
    obtain ⟨htc, ht, hte⟩ := spelled_ifElse.1 ht
    simp only [moreLines, List.append_assoc] at hmore
    obtain ⟨hc, htree, hrest⟩ := h.cond hsc hs htc ht (e.below_else _ d R) (e'.below_else _ d S)
      hfirst hmore
    rw [htree, lines_else, lines_else, List.cons_append, List.cons_append, List.cons.injEq,
      Line.mk.injEq, String.append_right_inj] at hrest
    obtain ⟨helse, hRS⟩ := he e' d R S hse hte hR hS hrest.1.2 hrest.2
    exact ⟨by rw [Statement.tree, Statement.tree, hc, htree, helse], hRS⟩
  | _ => cases hform

theorem own_and_inner {s : Statement} (hblock : s.tree.isBlock = false) (h : s.Own) :
    s.Own ∧ s.Inner :=
  ⟨h, inner_of_own hblock h⟩

/-- A statement is determined by its lines, on its own and under a header. -/
theorem determined (s : Statement) : s.Own ∧ s.Inner := by
  induction s using Statement.induction with
  | block ss ih =>
    have hinner := inner_block fun s hs => (ih s hs).1
    exact ⟨own_block hinner, hinner⟩
  | decl x e => exact own_and_inner rfl (own_decl x e)
  | ret e => exact own_and_inner rfl (own_ret e)
  | eval e => exact own_and_inner rfl (own_eval e)
  | ifThen c s ih => exact own_and_inner rfl (own_ifThen c ih.2)
  | ifElse c s e ihs ihe =>
    exact own_and_inner rfl (own_ifElse c ihs.2 (else_of_own ihe.1 ihe.2))
  | whileLoop c s ih => exact own_and_inner rfl (own_whileLoop c ih.2)
  | forLoop init c u s ih => exact own_and_inner rfl (own_forLoop init c u ih.2)

end Statement

end Grammar

end MiniC
