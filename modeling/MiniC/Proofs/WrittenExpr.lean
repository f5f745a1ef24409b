import MiniC.Expr.Script
import MiniC.Proofs.Leaves
import MiniC.Proofs.QuotedText
import MiniC.Proofs.ReadBack

/-!
# Written expressions

The text of an expression has a derivation, `Expr.written`, that follows from the expression alone:
each binary expression is a group of two operands, and an assignment that is an operand is a group
of its own. Its tree is the expression with its strings as they are written (`tree_written`), and
the text is read as its frontier (`lexes_script`) if the leaves of the expression have spellings.

The text also reads back as the frontier (`writes_script`), with `int` restored, if the expression
is `Plain`: its leaves then have no second meaning in a written text.
-/

namespace MiniC

open Lexeme Grammar

/-- The text between the quotes of a written string. -/
def quoteText (raw : String) : String := String.ofList (quoteBody raw.toList)

namespace Expr

mutual

/-- The expression with its strings as they are written. -/
def quoteStrings : Expr → Expr
  | .literal n => .literal n
  | .string raw => .string (quoteText raw)
  | .variable x => .variable x
  | .assign x v => .assign x v.quoteStrings
  | .binary o l r => .binary o l.quoteStrings r.quoteStrings
  | .call f args => .call f (quoteArgs args)

def quoteArgs : List Expr → List Expr
  | [] => []
  | e :: es => e.quoteStrings :: quoteArgs es

end

/-- The operand, in brackets if it is that of an assignment. -/
def bracketed (e : Expr) (o : Operand) : Operand :=
  if e.isAssign then .group (.last o) else o

mutual

/-- How the text of the expression is derived. -/
def written : Expr → Operand
  | .literal n => .number n
  | .string raw => .string (quoteText raw)
  | .variable x => .name x
  | .assign x v => .assign x (.last v.written)
  | .binary o l r => .group (.more (l.bracketed l.written) o (.last (r.bracketed r.written)))
  | .call f args => .call f (writtenArgs args)

def writtenArgs : List Expr → List Chain
  | [] => []
  | e :: es => .last e.written :: writtenArgs es

end

theorem tree_bracketed (g : Grouping) (e : Expr) (o : Operand) :
    (e.bracketed o).tree g = o.tree g := by
  unfold bracketed
  split <;> rfl

theorem isAssign_written (e : Expr) : e.written.isAssign = e.isAssign := by
  cases e <;> rfl

theorem isAssign_bracketed (e : Expr) : (e.bracketed e.written).isAssign = false := by
  unfold bracketed
  split
  · rfl
  · rename_i h
    rw [isAssign_written, Bool.eq_false_iff]
    exact h

theorem resolved_bracketed (e : Expr) {o : Operand} (h : o.Resolved) :
    (e.bracketed o).Resolved := by
  unfold bracketed
  split <;> exact h

mutual

theorem tree_written (g : Grouping) : ∀ e : Expr, e.written.tree g = e.quoteStrings
  | .literal _ | .string _ | .variable _ => rfl
  | .assign x v => by
    have hv := tree_written g v
    simp only [written, Operand.tree, Chain.tree, hv, quoteStrings]
  | .binary o l r => by
    have hl := tree_written g l
    have hr := tree_written g r
    simp only [written, Operand.tree, Chain.tree, Chain.links, tree_bracketed, hl, hr,
      quoteStrings, Grouping.group, Grouping.weakest]
  | .call f args => by
    have hargs := tree_writtenArgs g args
    simp only [written, Operand.tree, hargs, quoteStrings]

theorem tree_writtenArgs (g : Grouping) : ∀ es : List Expr,
    argTrees g (writtenArgs es) = quoteArgs es
  | [] => rfl
  | e :: es => by
    have he := tree_written g e
    have hes := tree_writtenArgs g es
    simp only [writtenArgs, argTrees, Chain.tree, he, hes, quoteArgs]

end

mutual

theorem resolved_written : ∀ e : Expr, e.written.Resolved
  | .literal _ | .string _ | .variable _ => trivial
  | .assign _ v => resolved_written v
  | .binary _ l r =>
    ⟨isAssign_bracketed l, resolved_bracketed l (resolved_written l),
      resolved_bracketed r (resolved_written r)⟩
  | .call _ args => resolved_writtenArgs args

theorem resolved_writtenArgs : ∀ es : List Expr, ArgsResolved (writtenArgs es)
  | [] => trivial
  | e :: es => ⟨resolved_written e, resolved_writtenArgs es⟩

end

end Expr

/-! ## Leaves -/

/-- The kind has a spelling and stands for itself in a written text. -/
def Kind.Plain (k : Kind) : Prop := (∃ text, Spells k text) ∧ k.restore = k

theorem toList_toString (n : Nat) : (toString (n : Int)).toList = Nat.toDigits 10 n :=
  Nat.toList_repr

theorem lexes_number {n : Int} (h : ∃ text, Spells (.number n) text) :
    Lexes Ends (toString n) [.number n] := by
  obtain ⟨digits, hspells⟩ := h
  cases hspells with
  | number hne hdigits hbound =>
    have hspells := spells_toDigits hbound
    rw [← toList_toString] at hspells
    exact lexes_ends_of_spells hspells

theorem lexes_name {x : String} (h : ∃ text, Spells (.ident x) text) : Lexes Ends x [.ident x] := by
  obtain ⟨text, hspells⟩ := h
  apply lexes_ends_of_spells
  cases hspells with
  | ident hc hcs hword =>
    rw [String.toList_ofList]
    exact .ident hc hcs hword

theorem writes_name {x : String} (h : (Kind.ident x).Plain) : Writes x [.ident x] := by
  have hname := (lexes_name h.1).writes
  rwa [List.map_singleton, h.2] at hname

theorem lexes_string {raw : String} (h : ∃ text, Spells (.string raw) text) :
    Lexes Ends (quoted raw) [.string (quoteText raw)] := by
  obtain ⟨text, hspells⟩ := h
  cases hspells with
  | @string cs hraw =>
    have hspells := Spells.string (quote_notMem_quoteBody hraw)
    rw [quoteText, String.toList_ofList]
    apply lexes_ends_of_spells
    rwa [toList_quoted, String.toList_ofList]

/-! ## Signs -/

theorem lexes_mark (m : Mark) (h : m ≠ .assign) :
    Lexes Anything (String.singleton m.spelling) [.mark m] := by
  have hspells : Spells (.mark m) (String.singleton m.spelling).toList := by
    rw [String.toList_singleton]
    exact .mark m
  refine lexes_of_spells hspells fun rest _ => ?_
  cases m <;> trivial

theorem lexes_comma : Lexes Anything ", " [.mark .comma] :=
  (lexes_mark .comma (by decide)).append lexes_blank fun _ _ => trivial

/-- Between blanks a spelling is read whatever follows. -/
theorem lexes_between {text : String} {k : Kind} (h : Spells k text.toList) :
    Lexes Anything (" " ++ text ++ " ") [k] := by
  have hopen : Lexes Ends (" " ++ text) [k] :=
    (@lexes_blank Anything).append (lexes_ends_of_spells h) fun _ _ => trivial
  exact hopen.append lexes_blank fun rest _ => ends_append_of_breaks rfl rest

theorem lexes_assign : Lexes Anything " = " [.mark .assign] := by
  have hsign : Spells (.mark .assign) "=".toList := .mark .assign
  exact lexes_between hsign

theorem lexes_brackets {text : String} {ks : List Kind} (h : Lexes Ends text ks) :
    Lexes Anything ("(" ++ text ++ ")") (.mark .lparen :: (ks ++ [.mark .rparen])) := by
  have hopen : Lexes Ends ("(" ++ text) (.mark .lparen :: ks) :=
    (lexes_mark .lparen (by decide)).append h fun _ _ => trivial
  exact hopen.append (lexes_mark .rparen (by decide)) fun rest _ => ends_append_of_breaks rfl rest

theorem delimits_mark (m : Mark) (h : m ≠ .assign) :
    Delimits (String.singleton m.spelling) [.mark m] :=
  (lexes_mark m h).delimits

theorem delimits_comma : Delimits ", " [.mark .comma] := lexes_comma.delimits

theorem delimits_assign : Delimits " = " [.mark .assign] := lexes_assign.delimits

theorem delimits_brackets {text : String} {ks : List Kind} (h : Writes text ks) :
    Delimits ("(" ++ text ++ ")") (.mark .lparen :: (ks ++ [.mark .rparen])) :=
  ((delimits_mark .lparen (by decide)).append_writes h).append_delimits
    (delimits_mark .rparen (by decide)) rfl

/-! ## The text of an expression -/

namespace Expr

theorem lexes_operandScript (e : Expr) {o : Operand} {text : String}
    (h : Lexes Ends text o.frontier) :
    Lexes Ends (operandScript e text) (e.bracketed o).frontier := by
  unfold operandScript bracketed
  split
  · exact (lexes_brackets h).ends
  · exact h

mutual

theorem lexes_script : ∀ e : Expr, (∀ k ∈ e.leaves, ∃ text, Spells k text) →
    "printf" ∉ e.callees → Lexes Ends e.script e.written.frontier
  | .literal n, hleaves, _ => lexes_number (hleaves _ List.mem_cons_self)
  | .string raw, hleaves, _ => lexes_string (hleaves _ List.mem_cons_self)
  | .variable x, hleaves, _ => lexes_name (hleaves _ List.mem_cons_self)
  | .assign x v, hleaves, hcallees => by
    rw [leaves, List.forall_mem_cons] at hleaves
    have hv := lexes_script v hleaves.2 hcallees
    have hsign := (lexes_name hleaves.1).append lexes_assign
      fun rest _ => ends_append_of_breaks rfl rest
    exact hsign.append hv fun _ _ => trivial
  | .binary o l r, hleaves, hcallees => by
    rw [leaves, List.forall_mem_append] at hleaves
    rw [callees, List.mem_append, not_or] at hcallees
    have hl := lexes_operandScript l (lexes_script l hleaves.1 hcallees.1)
    have hr := lexes_operandScript r (lexes_script r hleaves.2 hcallees.2)
    have hbreak : breaks (" " ++ o.spelling ++ " ") = true := breaks_append _ (breaks_append _ rfl)
    have hsign := hl.append (lexes_between (.op o)) fun rest _ => ends_append_of_breaks hbreak rest
    have hpair := hsign.append hr fun _ _ => trivial
    have htext : (Expr.binary o l r).script = "(" ++ (operandScript l l.script ++
        (" " ++ o.spelling ++ " ") ++ operandScript r r.script) ++ ")" := by
      simp only [script, String.append_assoc]
    rw [htext]
    simpa [written, Operand.frontier, Chain.frontier] using (lexes_brackets hpair).ends
  | .call f args, hleaves, hcallees => by
    rw [leaves, List.forall_mem_cons] at hleaves
    rw [callees, List.mem_cons, not_or] at hcallees
    have hargs := lexes_brackets (lexes_scripts args hleaves.2 hcallees.2)
    have hcallee : calleeScript f = f := by
      unfold calleeScript
      rw [if_neg]
      exact fun heq => hcallees.1 (eq_of_beq heq).symm
    have htext : (Expr.call f args).script =
        f ++ ("(" ++ ", ".intercalate (scripts args) ++ ")") := by
      simp only [script, hcallee, String.append_assoc]
    rw [htext]
    have hbreak : breaks ("(" ++ ", ".intercalate (scripts args) ++ ")") = true :=
      breaks_append _ (breaks_append _ rfl)
    exact ((lexes_name hleaves.1).append hargs
      fun rest _ => ends_append_of_breaks hbreak rest).ends

theorem lexes_scripts : ∀ es : List Expr, (∀ k ∈ argLeaves es, ∃ text, Spells k text) →
    "printf" ∉ argCallees es →
    Lexes Ends (", ".intercalate (scripts es)) (argFrontier (writtenArgs es))
  | [], _, _ => lexes_empty
  | e :: es, hleaves, hcallees => by
    rw [argLeaves, List.forall_mem_append] at hleaves
    rw [argCallees, List.mem_append, not_or] at hcallees
    have he := lexes_script e hleaves.1 hcallees.1
    have hes := lexes_scripts es hleaves.2 hcallees.2
    cases es with
    | nil => simpa [scripts, writtenArgs, argFrontier, moreArgFrontier, Chain.frontier] using he
    | cons d ds =>
      have hsign := he.append lexes_comma fun rest _ => ends_append_of_breaks rfl rest
      have hall := hsign.append hes fun _ _ => trivial
      simpa [scripts, writtenArgs, argFrontier, moreArgFrontier, Chain.frontier] using hall

end

theorem map_restore_bracketed (e : Expr) {o : Operand}
    (h : o.frontier.map Kind.restore = o.frontier) :
    (e.bracketed o).frontier.map Kind.restore = (e.bracketed o).frontier := by
  unfold bracketed
  split
  · simp [Operand.frontier, Chain.frontier, h]
  · exact h

mutual

/-- If the leaves of an expression stand for themselves, then so do the kinds it is written with. -/
theorem map_restore_frontier : ∀ e : Expr, (∀ k ∈ e.leaves, k.restore = k) →
    e.written.frontier.map Kind.restore = e.written.frontier
  | .literal _, _ | .string _, _ => rfl
  | .variable x, h => congrArg (fun k => [k]) (h _ List.mem_cons_self)
  | .assign x v, h => by
    rw [leaves, List.forall_mem_cons] at h
    have hv := map_restore_frontier v h.2
    simp [written, Operand.frontier, Chain.frontier, h.1, hv]
  | .binary o l r, h => by
    rw [leaves, List.forall_mem_append] at h
    have hl := map_restore_bracketed l (map_restore_frontier l h.1)
    have hr := map_restore_bracketed r (map_restore_frontier r h.2)
    simp [written, Operand.frontier, Chain.frontier, hl, hr]
  | .call f args, h => by
    rw [leaves, List.forall_mem_cons] at h
    have hargs := map_restore_argFrontier args h.2
    simp [written, Operand.frontier, h.1, hargs]

theorem map_restore_argFrontier : ∀ es : List Expr, (∀ k ∈ argLeaves es, k.restore = k) →
    (argFrontier (writtenArgs es)).map Kind.restore = argFrontier (writtenArgs es)
  | [], _ => rfl
  | e :: es, h => by
    rw [argLeaves, List.forall_mem_append] at h
    have he := map_restore_frontier e h.1
    have hes := map_restore_argFrontier es h.2
    cases es with
    | nil => simp [writtenArgs, argFrontier, moreArgFrontier, Chain.frontier, he]
    | cons d ds =>
      simp [writtenArgs, argFrontier, moreArgFrontier, Chain.frontier] at hes ⊢
      simp [he, hes]

end

/-- The leaves of the expression are plain, and it does not call `printf`, which is written under
another name. -/
structure Plain (e : Expr) : Prop where
  leaves : ∀ k ∈ e.leaves, k.Plain
  callees : "printf" ∉ e.callees

theorem writes_script (e : Expr) (h : e.Plain) : Writes e.script e.written.frontier := by
  have hwrites := (e.lexes_script (fun k hk => (h.leaves k hk).1) h.callees).writes
  rwa [e.map_restore_frontier fun k hk => (h.leaves k hk).2] at hwrites

end Expr

end MiniC
