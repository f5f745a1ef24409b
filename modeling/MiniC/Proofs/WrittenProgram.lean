import MiniC.Proofs.LayoutTotal
import MiniC.Proofs.Reprint

/-!
# Written programs

The lines of a statement read back as the frontier of their derivation (`Statement.writesLines`).
Where it stands decides which part of the frontier the lines hold: a header in front of a body
comes with it, and the block under a header leaves its closing brace to what follows.
-/

namespace MiniC

open Grammar

/-! ## Words and headers -/

theorem delimits_keyword (word : Keyword) : Delimits (word.spelling ++ " ") [.keyword word] :=
  (writes_of_spells (.keyword word)).append_delimits delimits_blank rfl

theorem delimits_let : Delimits "let " [.keyword .int] := by
  have hspells : Lexeme.Spells (.ident "let") "let".toList :=
    @Lexeme.spells_wordKind 'l' ['e', 't'] (by decide) (List.all_eq_true.1 (by decide))
  have hword : Writes "let" [.keyword .int] := writes_of_spells hspells
  exact hword.append_delimits delimits_blank rfl

theorem delimits_function : Delimits "function " [.keyword .int] := by
  have hspells : Lexeme.Spells (.ident "function") "function".toList :=
    @Lexeme.spells_wordKind 'f' ['u', 'n', 'c', 't', 'i', 'o', 'n'] (by decide)
      (List.all_eq_true.1 (by decide))
  have hword : Writes "function" [.keyword .int] := writes_of_spells hspells
  exact hword.append_delimits delimits_blank rfl

theorem delimits_semicolon : Delimits ";" [.mark .semicolon] :=
  delimits_mark .semicolon (by decide)

theorem delimits_lbrace : Delimits "\x7b" [.mark .lbrace] := delimits_mark .lbrace (by decide)

theorem delimits_rbrace : Delimits "\x7d" [.mark .rbrace] := delimits_mark .rbrace (by decide)

theorem delimits_head (word : Keyword) {text : String} {ks : List Kind} (h : Writes text ks) :
    Delimits (word.spelling ++ " " ++ "(" ++ text ++ ")")
      (.keyword word :: .mark .lparen :: (ks ++ [.mark .rparen])) := by
  have hopen := (delimits_keyword word).append (delimits_mark .lparen (by decide))
  exact (hopen.append_writes h).append_delimits (delimits_mark .rparen (by decide)) rfl

theorem writes_decl {x : String} {e : Expr} (hx : (Kind.ident x).Plain) (he : e.Plain) :
    Writes ("let " ++ x ++ " = " ++ e.script)
      (.keyword .int :: .ident x :: .mark .assign :: e.written.frontier) := by
  have hname := delimits_let.append_writes (writes_name hx)
  exact (hname.append_delimits delimits_assign rfl).append_writes (e.writes_script he)

/-! ## Lines of statements -/

def Part.Plain : Part → Prop
  | .name x => (Kind.ident x).Plain
  | .expr e => e.Plain

namespace Grammar

/-- What the block of a body leaves to what follows it. -/
def Statement.closer : Statement → List Kind
  | .block _ => [.mark .rbrace]
  | _ => []

/-- The frontier without what is left to what follows. -/
def Statement.opened : Statement → List Kind
  | .block body => .mark .lbrace :: bodyFrontier body
  | s => s.frontier

theorem Statement.opened_append_closer (s : Statement) : s.opened ++ s.closer = s.frontier := by
  cases s <;> simp [Statement.opened, Statement.closer, Statement.frontier]

end Grammar

namespace Stmt.Slot

/-- What the first line starts with. -/
def text : Slot → String
  | .own => ""
  | .body header => header
  | .elseBody word => word

/-- What the lines of a statement hold of its frontier. -/
def shown (s : Statement) : Slot → List Kind
  | .body _ => s.opened
  | .own | .elseBody _ => s.frontier

theorem shown_eq (slot : Slot) {s : Statement} (h : s.closer = []) : slot.shown s = s.frontier := by
  have hopened := s.opened_append_closer
  rw [h, List.append_nil] at hopened
  cases slot with
  | own | elseBody word => rfl
  | body header => exact hopened

variable {slot : Slot} {pre : List Kind}

theorem writes_lead (h : Writes slot.text pre) (depth : Nat) :
    WritesLines (slot.lead depth) pre := by
  cases slot with
  | own => exact ⟨h.readsBack⟩
  | body header | elseBody word => exact h.line depth

theorem writes_line (h : Writes slot.text pre) (depth : Nat) {text : String} {ks : List Kind}
    (htext : Writes text ks) : WritesLines (slot.line depth text).lines (pre ++ ks) :=
  (writes_lead h depth).append (htext.line _)

/-- An `if` is on the line of the `else` in front of it; any other header has a line of its own. -/
theorem writes_ifLead (h : Writes slot.text pre) (depth : Nat) :
    ∃ lead word, lead ++ word = pre ∧ WritesLines (slot.ifLead depth) lead ∧
      Delimits slot.ifWord word := by
  cases slot with
  | own => exact ⟨pre, [], List.append_nil pre, ⟨h.readsBack⟩, delimits_empty⟩
  | body header => exact ⟨pre, [], List.append_nil pre, h.line depth, delimits_empty⟩
  | elseBody word =>
    have hword := h.append_delimits delimits_blank rfl
    rw [List.append_nil] at hword
    exact ⟨[], pre, rfl, .nil, hword⟩

theorem writes_brace (h : Writes slot.text pre) : Writes slot.brace (pre ++ [.mark .lbrace]) := by
  cases slot with
  | own => exact h.append delimits_lbrace.writes rfl
  | body header | elseBody word =>
    exact h.append (delimits_blank.append delimits_lbrace).writes rfl

theorem writes_unbrace (slot : Slot) (depth : Nat) (body : List Statement) :
    ∃ ks, WritesLines (slot.unbrace depth) ks ∧
      .mark .lbrace :: (bodyFrontier body ++ ks) = slot.shown (.block body) := by
  cases slot with
  | own | elseBody word => exact ⟨_, delimits_rbrace.writes.line depth, rfl⟩
  | body header => exact ⟨[], .nil, by simp [shown, Statement.opened]⟩

end Stmt.Slot

namespace Grammar

open Stmt

theorem Statement.writes_closing (s : Statement) (depth : Nat) :
    WritesLines (closing depth s.tree).lines s.reprint.closer := by
  cases s with
  | block body => exact delimits_rbrace.writes.line depth
  | _ => exact .nil

/-- A body under its header, with the brace that closes it. -/
theorem Statement.writes_underHeader (s : Statement) {lead : List Line} {pre ks : List Kind}
    {header : String} {depth : Nat} (hlead : WritesLines lead pre)
    (hs : WritesLines (s.tree.emit (.body header) depth).lines (ks ++ s.reprint.opened)) :
    WritesLines
      (.ofLines lead ++ s.tree.emit (.body header) depth ++ closing depth s.tree : Emission).lines
      (pre ++ ks ++ s.reprint.frontier) := by
  have hall := (hlead.append hs).append (s.writes_closing depth)
  have hkinds : pre ++ ks ++ s.reprint.frontier =
      pre ++ (ks ++ s.reprint.opened) ++ s.reprint.closer := by
    rw [← s.reprint.opened_append_closer]
    simp only [List.append_assoc]
  rw [Emission.lines_append₃ _ rfl (s.error_emit _ _), hkinds]
  exact hall

theorem Statement.writes_elseWord (s : Statement) :
    Writes (elseWord s.tree) (s.reprint.closer ++ [.keyword .else_]) := by
  have helse : Writes "else" [.keyword .else_] :=
    writes_of_spells (k := .keyword .else_) (.keyword .else_)
  cases s with
  | block body => exact (delimits_rbrace.append delimits_blank).append_writes helse
  | _ => exact helse

theorem Chain.writes {c : Chain} (h : c.expr.Plain) : Writes c.expr.script c.reprint.frontier :=
  c.expr.writes_script h

theorem ForInit.writes_forStart (init : ForInit)
    (h : ∀ part ∈ optionParts init.tree, part.Plain) : ∃ text ks,
    forStart init.tree = .ok text ∧ Writes text ks ∧
      init.reprint.frontier = ks ++ [.mark .semicolon] := by
  cases init with
  | none => exact ⟨"", [], rfl, delimits_empty.writes, rfl⟩
  | decl x e =>
    simp only [ForInit.tree, optionParts, parts, List.forall_mem_cons] at h
    exact ⟨_, _, rfl, writes_decl h.1 h.2.1, rfl⟩
  | eval e =>
    simp only [ForInit.tree, optionParts, parts, List.forall_mem_cons] at h
    exact ⟨_, _, rfl, Chain.writes h.1, rfl⟩

theorem delimits_forHead {start : String} {ks : List Kind} {c u : Chain} {init : ForInit}
    (hstart : Writes start ks) (hinit : init.frontier = ks ++ [.mark .semicolon])
    (hc : c.expr.Plain) (hu : u.expr.Plain) :
    Delimits ("for (" ++ start ++ "; " ++ c.expr.script ++ "; " ++ u.expr.script ++ ")")
      (forFrontier init c.reprint u.reprint) := by
  have hsemicolon : Delimits "; " [.mark .semicolon] := delimits_semicolon.append delimits_blank
  have hcond := (hstart.append_delimits hsemicolon rfl).append_writes (Chain.writes hc)
  have hall := (hcond.append_delimits hsemicolon rfl).append_writes (Chain.writes hu)
  have hhead : Delimits
      ("for (" ++ (start ++ "; " ++ c.expr.script ++ "; " ++ u.expr.script) ++ ")") _ :=
    delimits_head .for_ hall
  simpa only [forFrontier, hinit, String.append_assoc, List.append_assoc, List.cons_append,
    List.nil_append] using hhead

theorem writes_ifHead {slot : Slot} {pre : List Kind} {c : Chain} (hslot : Writes slot.text pre)
    (depth : Nat) (hc : c.expr.Plain) : ∃ lead header,
    lead ++ header = pre ++ headFrontier .if_ c.reprint ∧
      WritesLines (slot.ifLead depth) lead ∧
      Writes (slot.ifWord ++ "if (" ++ c.expr.script ++ ")") header := by
  obtain ⟨lead, word, rfl, hlead, hword⟩ := Slot.writes_ifLead hslot depth
  have hif : Delimits ("if (" ++ c.expr.script ++ ")") (headFrontier .if_ c.reprint) :=
    delimits_head .if_ (Chain.writes hc)
  refine ⟨lead, word ++ headFrontier .if_ c.reprint, by rw [List.append_assoc], hlead, ?_⟩
  simpa only [String.append_assoc] using (hword.append hif).writes

mutual

/-- The lines of a statement read back as what they show of its frontier. -/
theorem Statement.writesLines : ∀ s : Statement, (∀ part ∈ s.tree.parts, part.Plain) →
    ∀ (slot : Slot) (depth : Nat) (pre : List Kind), Writes slot.text pre →
      WritesLines (s.tree.emit slot depth).lines (pre ++ slot.shown s.reprint)
  | .decl x e, h, slot, depth, pre, hslot => by
    simp only [Statement.tree, parts, List.forall_mem_cons] at h
    have hline := (writes_decl h.1 h.2.1).append_delimits delimits_semicolon rfl
    rw [slot.shown_eq rfl]
    exact Slot.writes_line hslot depth hline.writes
  | .ret e, h, slot, depth, pre, hslot => by
    simp only [Statement.tree, parts, List.forall_mem_cons] at h
    have hvalue := (delimits_keyword .return_).append_writes (Chain.writes h.1)
    have hline := hvalue.append_delimits delimits_semicolon rfl
    rw [slot.shown_eq rfl]
    exact Slot.writes_line hslot depth hline.writes
  | .eval e, h, slot, depth, pre, hslot => by
    simp only [Statement.tree, parts, List.forall_mem_cons] at h
    have hline := (Chain.writes h.1).append_delimits delimits_semicolon rfl
    rw [slot.shown_eq rfl]
    exact Slot.writes_line hslot depth hline.writes
  | .block body, h, slot, depth, pre, hslot => by
    have hbody := writesLines_body body h (depth + 1)
    obtain ⟨ks, hclose, hshown⟩ := slot.writes_unbrace depth (bodyReprint body)
    have hall := (((Slot.writes_brace hslot).line depth).append hbody).append hclose
    have hkinds : pre ++ slot.shown (Statement.block body).reprint =
        pre ++ [.mark .lbrace] ++ bodyFrontier (bodyReprint body) ++ ks := by
      rw [Statement.reprint, ← hshown]
      simp only [List.append_assoc, List.cons_append, List.nil_append]
    rw [Statement.tree, emit, Emission.lines_append₃ _ rfl (error_emitAll body _), hkinds]
    exact hall
  | .whileLoop c s, h, slot, depth, pre, hslot => by
    simp only [Statement.tree, parts, List.forall_mem_cons] at h
    have hhead : Writes ("while (" ++ c.expr.script ++ ")") (headFrontier .while_ c.reprint) :=
      (delimits_head .while_ (Chain.writes h.1)).writes
    have hs := Statement.writesLines s h.2 (.body _) (slot.inner depth) _ hhead
    have hall := s.writes_underHeader (Slot.writes_lead hslot depth) hs
    rw [slot.shown_eq rfl, Statement.tree, emit]
    rwa [List.append_assoc] at hall
  | .forLoop init c u s, h, slot, depth, pre, hslot => by
    simp only [Statement.tree, parts, List.forall_mem_append, List.forall_mem_cons] at h
    obtain ⟨hinit, hc, hu, hs⟩ := h
    obtain ⟨start, ks, hstart, hwrites, hks⟩ := init.writes_forStart hinit
    have hhead := (delimits_forHead hwrites hks hc hu).writes
    have hs := Statement.writesLines s hs (.body _) (slot.inner depth) _ hhead
    have hall := s.writes_underHeader (Slot.writes_lead hslot depth) hs
    rw [slot.shown_eq rfl]
    simp only [Statement.tree, emit, hstart]
    rwa [List.append_assoc] at hall
  | .ifThen c s, h, slot, depth, pre, hslot => by
    simp only [Statement.tree, parts, optionParts, List.append_nil, List.forall_mem_cons] at h
    obtain ⟨lead, header, hpre, hlead, hhead⟩ := writes_ifHead hslot depth h.1
    have hs := Statement.writesLines s h.2 (.body _) (slot.ifInner depth) _ hhead
    have hall := s.writes_underHeader hlead hs
    rw [slot.shown_eq rfl, Statement.tree, emit]
    rwa [hpre, List.append_assoc] at hall
  | .ifElse c s e, h, slot, depth, pre, hslot => by
    simp only [Statement.tree, parts, optionParts, List.forall_mem_append,
      List.forall_mem_cons] at h
    obtain ⟨hc, hs, he⟩ := h
    obtain ⟨lead, header, hpre, hlead, hhead⟩ := writes_ifHead hslot depth hc
    have hs := Statement.writesLines s hs (.body _) (slot.ifInner depth) _ hhead
    -- what the then-branch leaves open is closed on the line of the `else`
    have he := Statement.writesLines e he (.elseBody _) (slot.ifInner depth) _ s.writes_elseWord
    have hall := (hlead.append hs).append he
    have hkinds : pre ++ slot.shown (Statement.ifElse c s e).reprint =
        lead ++ (header ++ s.reprint.opened) ++
          (s.reprint.closer ++ [.keyword .else_] ++ e.reprint.frontier) := by
      rw [slot.shown_eq rfl, Statement.reprint, Statement.frontier, ← List.append_assoc pre, ← hpre,
        ← s.reprint.opened_append_closer]
      simp only [List.append_assoc, List.cons_append, List.nil_append]
    rw [Statement.tree, emit, Emission.lines_append₃ _ rfl (s.error_emit _ _), hkinds]
    exact hall

theorem writesLines_body : ∀ ss : List Statement,
    (∀ part ∈ bodyParts (bodyTrees ss), part.Plain) → ∀ depth : Nat,
      WritesLines (emitAll depth (bodyTrees ss)).lines (bodyFrontier (bodyReprint ss))
  | [], _, _ => .nil
  | s :: ss, h, depth => by
    rw [bodyTrees, bodyParts, List.forall_mem_append] at h
    have hs := Statement.writesLines s h.1 .own depth [] delimits_empty.writes
    have hss := writesLines_body ss h.2 depth
    rw [bodyTrees, emitAll, Emission.lines_append (s.error_emit _ _)]
    exact hs.append hss

end

theorem writes_params : ∀ ps : List Param, (∀ p ∈ ps, (Kind.ident p.name).Plain) →
    Writes (", ".intercalate (ps.map Param.name)) (paramFrontier (ps.map Param.untyped))
  | [], _ => delimits_empty.writes
  | p :: ps, h => by
    rw [List.forall_mem_cons] at h
    have hp := writes_name h.1
    have hps := writes_params ps h.2
    cases ps with
    | nil => simpa [paramFrontier, moreParamFrontier, Param.frontier, Param.untyped] using hp
    | cons q qs =>
      have hall := (hp.append_delimits delimits_comma rfl).append_writes hps
      simpa [paramFrontier, moreParamFrontier, Param.frontier, Param.untyped] using hall

theorem Item.writesLines (i : Item) (h : ∀ part ∈ i.tree.parts, part.Plain) (depth : Nat) :
    WritesLines (i.tree.emitItem depth).lines i.reprint.frontier := by
  cases i with
  | function f params body =>
    simp only [Item.tree, parts, List.forall_mem_cons, List.forall_mem_append, List.forall_mem_map]
      at h
    obtain ⟨hf, hparams, hbody⟩ := h
    have hopen := (delimits_function.append_writes (writes_name hf)).append_delimits
      (delimits_mark .lparen (by decide)) rfl
    have hclose : Delimits ") \x7b" [.mark .rparen, .mark .lbrace] :=
      (delimits_mark .rparen (by decide)).append (delimits_blank.append delimits_lbrace)
    have hhead := (hopen.append_writes (writes_params params hparams)).append_delimits hclose rfl
    have hall := ((hhead.writes.line depth).append (writesLines_body body hbody (depth + 1))).append
      (delimits_rbrace.writes.line depth)
    rw [Item.tree, emitItem, Emission.lines_append₃ _ rfl (error_emitAll body _), Item.reprint,
      Item.frontier, functionFrontier, ← List.append_assoc]
    exact hall
  | statement s noInt =>
    have hs := s.writesLines h .own depth [] delimits_empty.writes
    cases s <;> exact hs

theorem writesLines_items (depth : Nat) : ∀ is : List Item,
    (∀ i ∈ is, ∀ part ∈ i.tree.parts, part.Plain) →
      WritesLines (Program.emitItems depth (is.map Item.tree)).lines
        ((is.map Item.reprint).flatMap Item.frontier)
  | [], _ => .nil
  | i :: is, h => by
    rw [List.forall_mem_cons] at h
    have hi := i.writesLines h.1 depth
    have his := writesLines_items depth is h.2
    rw [List.map_cons, Program.emitItems, Emission.lines_append (i.error_emitItem depth),
      List.map_cons, List.flatMap_cons]
    exact hi.append his

theorem writes_mainCall : Writes "main();" mainCall.frontier := by
  have hspells : Lexeme.Spells (.ident "main") "main".toList :=
    @Lexeme.spells_wordKind 'm' ['a', 'i', 'n'] (by decide) (List.all_eq_true.1 (by decide))
  have hname : Writes "main" [.ident "main"] := writes_of_spells hspells
  have hcall := hname.append_delimits (delimits_brackets delimits_empty.writes) rfl
  exact (hcall.append delimits_semicolon).writes

end Grammar

namespace Derivation

theorem writesLines (d : Derivation) (h : ∀ part ∈ d.program.parts, part.Plain) (depth : Nat) :
    WritesLines (d.program.emit depth).lines d.reprint.frontier := by
  have hitems := writesLines_items depth d.items fun i hi part hpart =>
    h part (List.mem_flatMap.2 ⟨i.tree, List.mem_map_of_mem hi, hpart⟩)
  rw [Program.emit, Emission.lines_append (by exact error_emitItems depth d.items), frontier,
    reprint, List.flatMap_append]
  refine hitems.append ?_
  split
  · exact writes_mainCall.line depth
  · exact .nil

end Derivation

end MiniC
