import MiniC.Proofs.UniqueProgram

/-!
# The names of a text

A name of JavaScript text is a word outside of strings that is no keyword of the layout; what stands
behind `let` or `function` is declared or defined there (`mentions`). The names of a text are those
of the program in their order, and `main` once more where it is called at the end
(`mentions_compile`). So no name is changed on its way, and a text has a name that JavaScript keeps
for itself exactly if its program has it.

What is read of a text that starts with a piece of it is what the piece mentions and then what the
rest does (`mentions_script`, `Reads`), as long as the rest does not go on with the last word of the
piece (`AfterName`). Lines can then be put together, as newlines part all words.
-/

namespace MiniC

open Lexeme Grammar

/-! ## Reading the names of a text -/

/-- How a name stands in a text. -/
inductive Role
  /-- Behind `let`. -/
  | declared
  /-- Behind `function`. -/
  | defined
  | used
  deriving DecidableEq

structure Mention where
  role : Role
  name : String
  deriving DecidableEq

/-- What follows the end of a string. -/
def skipString : List Char → List Char
  | [] => []
  | '"' :: cs => cs
  | '\\' :: _ :: cs => skipString cs
  | _ :: cs => skipString cs

theorem length_skipString_le (cs : List Char) : (skipString cs).length ≤ cs.length := by
  fun_induction skipString cs with
  | case1 => exact le_rfl
  | case2 cs => simp
  | case3 c cs ih => simp only [List.length_cons]; omega
  | case4 c cs h h' ih => simp only [List.length_cons]; omega

/-- The words that stand in front of a new name. -/
def introducers : List (List Char × Role) :=
  [("let".toList, .declared), ("function".toList, .defined)]

/-- What a word does with the name behind it. -/
def introduces (word rest : List Char) : Option Role :=
  match declares rest with
  | true => introducers.lookup word
  | false => none

/-- The words that are never names, and have no name to introduce. -/
def layoutWords : List (List Char) :=
  ["if".toList, "else".toList, "while".toList, "for".toList, "return".toList]

/-- Is the word a name? -/
def isMention (word : List Char) : Bool :=
  word.head?.any isNameStart && word.all isNameChar && !layoutWords.contains word

/-- The name that a word is, if it is one. -/
def wordMentions (word : List Char) : List Mention :=
  match isMention word with
  | true => [⟨.used, String.ofList word⟩]
  | false => []

/-- The names in a text. -/
def mentions : List Char → List Mention
  | [] => []
  | c :: cs =>
    if c = '"' then mentions (skipString cs)
    else if isWordChar c then
      match introduces (c :: cs.takeWhile isWordChar) (cs.dropWhile isWordChar) with
      | some role =>
        ⟨role, String.ofList ((cs.dropWhile isWordChar).tail.takeWhile isWordChar)⟩ ::
          mentions ((cs.dropWhile isWordChar).tail.dropWhile isWordChar)
      | none => wordMentions (c :: cs.takeWhile isWordChar) ++ mentions (cs.dropWhile isWordChar)
    else mentions cs
  termination_by cs => cs.length
  decreasing_by
    · exact Nat.lt_succ_of_le (length_skipString_le cs)
    · have hrest := List.length_dropWhile_le isWordChar cs
      have hnext := List.length_dropWhile_le isWordChar (cs.dropWhile isWordChar).tail
      simp only [List.length_tail, List.length_cons] at hnext ⊢
      omega
    all_goals
      have hrest := List.length_dropWhile_le isWordChar cs
      simp only [List.length_cons]
      omega

theorem mentions_nil : mentions [] = [] := by
  rw [mentions]

theorem mentions_skip {c : Char} (hword : isWordChar c = false) (hquote : c ≠ '"')
    (r : List Char) : mentions (c :: r) = mentions r := by
  rw [mentions, if_neg hquote, if_neg (by simp [hword])]

theorem mentions_word {w r : List Char} (hw : IsWord w) (hr : ∀ c ∈ r.head?, isWordChar c = false) :
    mentions (w ++ r) =
      match introduces w r with
      | some role =>
        ⟨role, String.ofList (r.tail.takeWhile isWordChar)⟩ ::
          mentions (r.tail.dropWhile isWordChar)
      | none => wordMentions w ++ mentions r := by
  obtain ⟨c, cs, rfl⟩ := List.exists_cons_of_ne_nil hw.ne_nil
  have hc := hw.chars c List.mem_cons_self
  have hquote : c ≠ '"' := by
    rintro rfl
    exact absurd hc (by decide)
  obtain ⟨htake, hdrop⟩ := takeWhile_of_head (List.forall_mem_cons.1 hw.chars).2 hr
  rw [List.cons_append, mentions, if_neg hquote, if_pos hc, htake, hdrop]

theorem mentions_append_of_skip {w : List Char}
    (hw : w.all (fun c => !isWordChar c && c != '"') = true) (r : List Char) :
    mentions (w ++ r) = mentions r := by
  induction w with
  | nil => rfl
  | cons c w ih =>
    rw [List.all_cons, Bool.and_eq_true, Bool.and_eq_true, Bool.not_eq_true', bne_iff_ne] at hw
    obtain ⟨⟨hword, hquote⟩, hw⟩ := hw
    rw [List.cons_append, mentions_skip hword hquote, ih hw]

theorem skipString_of_untilQuote {cs body rest : List Char}
    (h : untilQuote cs = some (body, rest)) : skipString cs = rest := by
  refine untilQuote_induction (motive := fun cs _ => skipString cs = rest) rfl ?_ ?_ h
  · intro c cs _ ih
    exact ih
  · intro c cs _ hquote hback ih
    rw [skipString, ih]
    · exact hquote
    · exact fun _ _ hc => absurd hc hback

theorem mentions_quoted (cs r : List Char) :
    mentions ('"' :: (quoteBody cs ++ '"' :: r)) = mentions r := by
  rw [mentions, if_pos rfl, skipString_of_untilQuote (untilQuote_quoteBody cs r)]

/-- The text does not go on with a name that ends in front of it, nor is it one that the name
introduces. -/
structure AfterName (r : List Char) : Prop where
  word : ∀ c ∈ r.head?, isWordChar c = false
  other : declares r = false

theorem afterName_nil : AfterName [] := ⟨by simp, rfl⟩

theorem afterName_cons {c : Char} (hword : isWordChar c = false) (hblank : c ≠ ' ')
    (r : List Char) : AfterName (c :: r) := by
  refine ⟨by simpa using hword, ?_⟩
  unfold declares
  split
  · simp_all
  · rfl

theorem afterName_blank {c : Char} (hc : isNameStart c = false) (r : List Char) :
    AfterName (' ' :: c :: r) :=
  ⟨by simp; decide, hc⟩

theorem mentions_name {x : String} (hx : IsName x) {r : List Char} (hr : AfterName r) :
    mentions (x.toList ++ r) = ⟨.used, x⟩ :: mentions r := by
  have hmention : isMention x.toList = true := by
    obtain ⟨c, cs, hcs, hc⟩ := hx.start
    have hlayout : layoutWords.contains x.toList = false := by
      rw [Bool.eq_false_iff]
      intro hmem
      simp only [layoutWords, List.contains_iff_mem, List.mem_cons, String.toList_inj,
        List.not_mem_nil, or_false] at hmem
      rcases hmem with rfl | rfl | rfl | rfl | rfl
      · exact hx.not_keyword .if_ rfl
      · exact hx.not_keyword .else_ rfl
      · exact hx.not_keyword .while_ rfl
      · exact hx.not_keyword .for_ rfl
      · exact hx.not_keyword .return_ rfl
    rw [isMention, hlayout, List.all_eq_true.2 hx.chars, hcs]
    simp [hc]
  rw [mentions_word hx.isWord hr.word, introduces, hr.other, wordMentions, hmention,
    String.ofList_toList]
  rfl

/-- A word that is no name and introduces none. -/
theorem mentions_word_skip {w : List Char} (hw : IsWord w) (hmention : isMention w = false)
    (hintro : introducers.lookup w = none) {r : List Char}
    (hr : ∀ c ∈ r.head?, isWordChar c = false) : mentions (w ++ r) = mentions r := by
  have hnone : introduces w r = none := by
    unfold introduces
    split
    · exact hintro
    · rfl
  rw [mentions_word hw hr, hnone, wordMentions, hmention]
  rfl

theorem mentions_number (n : Nat) {r : List Char} (hr : ∀ c ∈ r.head?, isWordChar c = false) :
    mentions ((toString (n : Int)).toList ++ r) = mentions r := by
  have hword := isWord_toString n
  obtain ⟨c, cs, hcs⟩ := List.exists_cons_of_ne_nil hword.ne_nil
  have hdigit : c.isDigit = true :=
    isDigit_of_mem_toString n c (by rw [hcs]; exact List.mem_cons_self)
  have hstart := isNameStart_of_isDigit hdigit
  refine mentions_word_skip hword ?_ ?_ hr
  · rw [isMention, hcs]
    simp [hstart]
  · have hletter {l : Char} (hl : l.isDigit = false) : (c == l) = false := by
      rw [beq_eq_false_iff_ne]
      rintro rfl
      cases hdigit.symm.trans hl
    rw [hcs]
    simp [introducers, List.lookup, hletter (l := 'l') (by decide), hletter (l := 'f') (by decide)]

theorem mentions_introduced {word : String} {role : Role} (hword : IsWord word.toList)
    (hrole : ∀ rest, declares rest = true → introduces word.toList rest = some role) {x : String}
    (hx : IsName x) {r : List Char} (hr : ∀ c ∈ r.head?, isWordChar c = false) :
    mentions (word.toList ++ ' ' :: (x.toList ++ r)) = ⟨role, x⟩ :: mentions r := by
  have hdeclares : declares (' ' :: (x.toList ++ r)) = true := by
    obtain ⟨c, cs, hcs, hc⟩ := hx.start
    rw [hcs]
    exact hc
  obtain ⟨htake, hdrop⟩ := takeWhile_of_head hx.isWord.chars hr
  rw [mentions_word hword (by simp; decide), hrole _ hdeclares, List.tail_cons, htake, hdrop,
    String.ofList_toList]

theorem mentions_let {x : String} (hx : IsName x) {r : List Char}
    (hr : ∀ c ∈ r.head?, isWordChar c = false) :
    mentions ("let".toList ++ ' ' :: (x.toList ++ r)) = ⟨.declared, x⟩ :: mentions r :=
  mentions_introduced ⟨by decide, List.all_eq_true.1 (by decide)⟩
    (fun rest hrest => by rw [introduces, hrest]; rfl) hx hr

theorem mentions_function {x : String} (hx : IsName x) {r : List Char}
    (hr : ∀ c ∈ r.head?, isWordChar c = false) :
    mentions ("function".toList ++ ' ' :: (x.toList ++ r)) = ⟨.defined, x⟩ :: mentions r :=
  mentions_introduced ⟨by decide, List.all_eq_true.1 (by decide)⟩
    (fun rest hrest => by rw [introduces, hrest]; rfl) hx hr

/-! ## Pieces of a text -/

/-- The names of a text that starts with `text` are `ms` and those of the rest. -/
def Reads (text : String) (ms : List Mention) : Prop :=
  ∀ r, AfterName r → mentions (text.toList ++ r) = ms ++ mentions r

/-- As `Reads`, whatever the rest is. -/
def ReadsWhole (text : String) (ms : List Mention) : Prop :=
  ∀ r, mentions (text.toList ++ r) = ms ++ mentions r

section Pieces

variable {a b : String} {ms ns : List Mention}

theorem ReadsWhole.reads (h : ReadsWhole a ms) : Reads a ms := fun r _ => h r

theorem ReadsWhole.append (ha : ReadsWhole a ms) (hb : ReadsWhole b ns) :
    ReadsWhole (a ++ b) (ms ++ ns) := by
  intro r
  rw [String.toList_append, List.append_assoc, ha, hb, List.append_assoc]

theorem ReadsWhole.append_reads (ha : ReadsWhole a ms) (hb : Reads b ns) :
    Reads (a ++ b) (ms ++ ns) := by
  intro r hr
  rw [String.toList_append, List.append_assoc, ha, hb r hr, List.append_assoc]

theorem Reads.append_whole (ha : Reads a ms) (hb : ReadsWhole b ns)
    (hafter : ∀ r, AfterName (b.toList ++ r)) : ReadsWhole (a ++ b) (ms ++ ns) := by
  intro r
  rw [String.toList_append, List.append_assoc, ha _ (hafter r), hb, List.append_assoc]

theorem readsWhole_skip (h : a.toList.all (fun c => !isWordChar c && c != '"') = true) :
    ReadsWhole a [] :=
  fun r => mentions_append_of_skip h r

/-- A bracket or a semicolon parts what is in front of it from the rest. -/
theorem Reads.append_skip (h : Reads a ms) {c : Char} {cs : List Char}
    (hb : b.toList = c :: cs) (hblank : c ≠ ' ')
    (hskip : b.toList.all (fun c => !isWordChar c && c != '"') = true) :
    ReadsWhole (a ++ b) ms := by
  have hafter (r : List Char) : AfterName (b.toList ++ r) := by
    rw [hb, List.all_cons, Bool.and_eq_true, Bool.and_eq_true, Bool.not_eq_true'] at hskip
    rw [hb]
    exact afterName_cons hskip.1.1 hblank (cs ++ r)
  have htext := h.append_whole (readsWhole_skip hskip) hafter
  rwa [List.append_nil] at htext

end Pieces

section List

variable {α : Type} {f : α → String} {g : α → List Mention}

/-- What is mentioned in a list in brackets. -/
theorem mentions_intercalate {as : List α} (h : ∀ a ∈ as, Reads (f a) (g a)) (r : List Char) :
    mentions ((", ".intercalate (as.map f)).toList ++ ')' :: r) = as.flatMap g ++ mentions r := by
  have hclose : mentions (')' :: r) = mentions r := mentions_skip (by decide) (by decide) r
  have hmore : ∀ as : List α, (∀ a ∈ as, Reads (f a) (g a)) →
      mentions (moreText f as ++ ')' :: r) = as.flatMap g ++ mentions r ∧
        AfterName (moreText f as ++ ')' :: r) := by
    intro as
    induction as with
    | nil => exact fun _ => ⟨hclose, afterName_cons (by decide) (by decide) r⟩
    | cons a as ih =>
      intro h
      obtain ⟨ha, has⟩ := List.forall_mem_cons.1 h
      obtain ⟨hrest, hafter⟩ := ih has
      refine ⟨?_, afterName_cons (by decide) (by decide) _⟩
      rw [moreText, List.flatMap_cons, ← moreText, List.append_assoc, List.cons_append,
        List.cons_append, mentions_skip (by decide) (by decide),
        mentions_skip (by decide) (by decide), ha _ hafter, hrest, List.flatMap_cons,
        List.append_assoc]
  cases as with
  | nil => exact hclose
  | cons a as =>
    obtain ⟨ha, has⟩ := List.forall_mem_cons.1 h
    obtain ⟨hrest, hafter⟩ := hmore as has
    rw [toList_intercalate, List.append_assoc, ha _ hafter, hrest, List.flatMap_cons,
      List.append_assoc]

end List

/-! ## Names of expressions -/

namespace Expr

/-- The names that are written for a called function; `printf` has another name in JavaScript. -/
def calleeMentions (f : String) : List Mention := if f == "printf" then [] else [⟨.used, f⟩]

mutual

/-- The names that are written for an expression. -/
def mentions : Expr → List Mention
  | .literal _ | .string _ => []
  | .variable x => [⟨.used, x⟩]
  | .assign x v => ⟨.used, x⟩ :: v.mentions
  | .binary _ a b => a.mentions ++ b.mentions
  | .call f args => calleeMentions f ++ argMentions args

def argMentions : List Expr → List Mention
  | [] => []
  | e :: es => e.mentions ++ argMentions es

end

theorem argMentions_eq_flatMap (es : List Expr) : argMentions es = es.flatMap mentions := by
  induction es with
  | nil => rfl
  | cons e es ih => rw [argMentions, ih, List.flatMap_cons]

theorem reads_operand {e : Expr} (h : Reads e.script e.mentions) {r : List Char}
    (hr : AfterName r) : MiniC.mentions (operandChars e ++ r) = e.mentions ++ MiniC.mentions r := by
  cases hassign : e.isAssign with
  | false =>
    rw [operandChars_of_not_isAssign hassign]
    exact h r hr
  | true =>
    rw [operandChars_of_isAssign hassign, List.cons_append, List.append_assoc,
      List.singleton_append, mentions_skip (by decide) (by decide),
      h _ (afterName_cons (by decide) (by decide) r), mentions_skip (by decide) (by decide)]

theorem mentions_callee {f : String} (hf : IsName f) {r : List Char} (hr : AfterName r) :
    MiniC.mentions ((calleeScript f).toList ++ r) = calleeMentions f ++ MiniC.mentions r := by
  unfold calleeScript calleeMentions
  split
  · exact mentions_word_skip ⟨by decide, List.all_eq_true.1 (by decide)⟩ (by decide) (by decide)
      hr.word
  · exact mentions_name hf hr

theorem reads_binary {o : BinOp} {a b : Expr} (ha : Reads a.script a.mentions)
    (hb : Reads b.script b.mentions) : Reads (binary o a b).script (binary o a b).mentions := by
  intro r _
  have hop (r : List Char) : MiniC.mentions (o.spelling.toList ++ r) = MiniC.mentions r := by
    refine mentions_append_of_skip ?_ r
    cases o <;> decide
  have hafter (r : List Char) : AfterName (' ' :: (o.spelling.toList ++ r)) := by
    cases o <;> exact afterName_blank (by decide) _
  have hblank (r : List Char) : MiniC.mentions (' ' :: r) = MiniC.mentions r :=
    mentions_skip (by decide) (by decide) r
  rw [toList_script_binary]
  simp only [List.cons_append, List.append_assoc, List.nil_append]
  rw [mentions_skip (by decide) (by decide), reads_operand ha (hafter _), hblank, hop, hblank,
    reads_operand hb (afterName_cons (by decide) (by decide) r),
    mentions_skip (by decide) (by decide),
    mentions, List.append_assoc]

theorem reads_script {e : Expr} (he : e.Spelled) : Reads e.script e.mentions := by
  induction e using Expr.induction with
  | literal n =>
    obtain ⟨m, rfl⟩ := he.literal
    exact fun r hr => mentions_number m hr.word
  | string raw =>
    intro r _
    rw [toList_script_string, List.cons_append, List.append_assoc]
    exact mentions_quoted raw.toList r
  | name x => exact fun r hr => mentions_name (he.name List.mem_cons_self) hr
  | assign x v ih =>
    intro r hr
    have hx : IsName x := he.name List.mem_cons_self
    have hv := ih he.value r hr
    rw [toList_script_assign]
    simp only [List.cons_append, List.append_assoc]
    rw [mentions_name hx (afterName_blank (by decide) _), mentions_skip (by decide) (by decide),
      mentions_skip (by decide) (by decide), mentions_skip (by decide) (by decide), hv]
    rfl
  | binary o a b iha ihb => exact reads_binary (iha he.left) (ihb he.right)
  | call f args ih =>
    intro r _
    have hf : IsName f := he.name List.mem_cons_self
    have hargs := mentions_intercalate (fun e hmem => ih e hmem (he.arg e hmem)) r
    rw [toList_script_call]
    simp only [List.cons_append, List.append_assoc, List.nil_append]
    rw [mentions_callee hf (afterName_cons (by decide) (by decide) _),
      mentions_skip (by decide) (by decide), hargs, mentions, argMentions_eq_flatMap,
      List.append_assoc]

end Expr

/-! ## Names of statements -/

namespace Stmt

mutual

/-- The names that are written for a statement. -/
def mentions : Stmt → List Mention
  | .decl x e => ⟨.declared, x⟩ :: e.mentions
  | .eval e | .ret e => e.mentions
  | .ifElse c t e => c.mentions ++ (t.mentions ++ optionMentions e)
  | .whileLoop c b => c.mentions ++ b.mentions
  | .forLoop init c u b => optionMentions init ++ c.mentions ++ u.mentions ++ b.mentions
  | .block ss => allMentions ss
  | .function f params body =>
    ⟨.defined, f⟩ :: (params.map fun x => ⟨.used, x⟩) ++ allMentions body

def optionMentions : Option Stmt → List Mention
  | none => []
  | some s => s.mentions

def allMentions : List Stmt → List Mention
  | [] => []
  | s :: ss => s.mentions ++ allMentions ss

end

theorem allMentions_eq_flatMap (ss : List Stmt) : allMentions ss = ss.flatMap mentions := by
  induction ss with
  | nil => rfl
  | cons s ss ih => rw [allMentions, ih, List.flatMap_cons]

end Stmt

theorem mentions_layoutWord {w : List Char} (hw : w ∈ layoutWords) {r : List Char}
    (hr : ∀ c ∈ r.head?, isWordChar c = false) : mentions (w ++ r) = mentions r := by
  simp only [layoutWords, List.mem_cons, List.not_mem_nil, or_false] at hw
  rcases hw with rfl | rfl | rfl | rfl | rfl <;>
    exact mentions_word_skip ⟨by decide, List.all_eq_true.1 (by decide)⟩ (by decide) (by decide) hr

/-- A word of the layout with a separator behind it. -/
theorem readsWhole_layout {text : String} (w sep : String) (htext : text = w ++ sep)
    (hw : w.toList ∈ layoutWords) (hne : sep ≠ "")
    (hsep : sep.toList.all (fun c => !isWordChar c && c != '"') = true) :
    ReadsWhole text [] := by
  subst htext
  intro r
  obtain ⟨c, cs, hcs⟩ := List.exists_cons_of_ne_nil (by simpa using hne : sep.toList ≠ [])
  have hword : ∀ d ∈ (sep.toList ++ r).head?, isWordChar d = false := by
    rw [hcs, List.all_cons, Bool.and_eq_true, Bool.and_eq_true, Bool.not_eq_true'] at hsep
    simpa [hcs] using hsep.1.1
  rw [String.toList_append, List.append_assoc, mentions_layoutWord hw hword,
    mentions_append_of_skip hsep]
  rfl

namespace Grammar

theorem reads_suffix (s : Stmt) : ReadsWhole s.suffix [] := by
  unfold Stmt.suffix
  split <;> exact readsWhole_skip (by decide)

theorem reads_decl {x : String} {e : Expr} (hx : IsName x) (he : e.Spelled) :
    Reads ("let " ++ x ++ " = " ++ e.script) (⟨.declared, x⟩ :: e.mentions) := by
  intro r hr
  have htext : ("let " ++ x ++ " = " ++ e.script).toList ++ r =
      "let".toList ++ ' ' :: (x.toList ++ ' ' :: '=' :: ' ' :: (e.script.toList ++ r)) := by
    simp
  rw [htext, mentions_let hx (by simp; decide), mentions_skip (by decide) (by decide),
    mentions_skip (by decide) (by decide), mentions_skip (by decide) (by decide),
    Expr.reads_script he r hr]
  rfl

theorem readsWhole_header {head text : String} {ms ns : List Mention} (hhead : ReadsWhole head ms)
    (h : Reads text ns) (s : Stmt) : ReadsWhole (head ++ text ++ ")" ++ s.suffix) (ms ++ ns) := by
  have hline := ((hhead.append_reads h).append_skip (b := ")") rfl (by decide) (by decide)).append
    (reads_suffix s)
  rwa [List.append_nil] at hline

theorem ForInit.reads_text {init : ForInit} (h : init.Spelled) :
    Reads init.text (Stmt.optionMentions init.tree) := by
  cases init with
  | none => exact fun r _ => rfl
  | decl x e =>
    obtain ⟨hx, he⟩ := spelled_decl.1 h
    exact reads_decl hx he
  | eval e => exact Expr.reads_script (spelled_eval.1 h)

namespace Statement

/-- The names on the first line. -/
def headMentions : Statement → List Mention
  | .block _ => []
  | .decl x e => ⟨.declared, x⟩ :: e.expr.mentions
  | .ret e | .eval e => e.expr.mentions
  | .ifThen c _ | .ifElse c _ _ | .whileLoop c _ => c.expr.mentions
  | .forLoop init c u _ => Stmt.optionMentions init.tree ++ c.expr.mentions ++ u.expr.mentions

/-- The names on the lines behind the first. -/
def moreMentions : Statement → List Mention
  | .decl .. | .ret _ | .eval _ => []
  | .block ss => (block ss).tree.mentions
  | .ifThen _ s | .whileLoop _ s | .forLoop _ _ _ s => s.tree.mentions
  | .ifElse _ s e => s.tree.mentions ++ e.tree.mentions

theorem mentions_tree (s : Statement) : s.tree.mentions = s.headMentions ++ s.moreMentions := by
  cases s <;> simp [Statement.tree, Stmt.mentions, Stmt.optionMentions, headMentions, moreMentions]

theorem reads_firstText {s : Statement} (hs : s.Spelled) : Reads s.firstText s.headMentions := by
  have hif : ReadsWhole "if (" [] :=
    readsWhole_layout "if" " (" (by decide) (by decide) (by decide) (by decide)
  have hwhile : ReadsWhole "while (" [] :=
    readsWhole_layout "while" " (" (by decide) (by decide) (by decide) (by decide)
  have hfor : ReadsWhole "for (" [] :=
    readsWhole_layout "for" " (" (by decide) (by decide) (by decide) (by decide)
  have hreturn : ReadsWhole "return " [] :=
    readsWhole_layout "return" " " (by decide) (by decide) (by decide) (by decide)
  have hbrace : ReadsWhole "\x7b" [] := readsWhole_skip (by decide)
  have hline {text : String} {ms : List Mention} (h : Reads text ms) : Reads (text ++ ";") ms :=
    (h.append_skip rfl (by decide) (by decide)).reads
  cases s with
  | block ss => exact hbrace.reads
  | decl x e =>
    obtain ⟨hx, he⟩ := spelled_decl.1 hs
    exact hline (reads_decl hx he)
  | ret e => exact hline (hreturn.append_reads (Expr.reads_script (spelled_ret.1 hs)))
  | eval e => exact hline (Expr.reads_script (spelled_eval.1 hs))
  | ifThen c s =>
    exact (readsWhole_header hif (Expr.reads_script (spelled_ifThen.1 hs).1) s.tree).reads
  | ifElse c s e =>
    exact (readsWhole_header hif (Expr.reads_script (spelled_ifElse.1 hs).1) s.tree).reads
  | whileLoop c s =>
    exact (readsWhole_header hwhile (Expr.reads_script (spelled_whileLoop.1 hs).1) s.tree).reads
  | forLoop init c u s =>
    obtain ⟨hinit, hc, hu, -⟩ := spelled_forLoop.1 hs
    have hpart {text : String} {ms : List Mention} (h : Reads text ms) :
        ReadsWhole (text ++ "; ") ms :=
      h.append_skip rfl (by decide) (by decide)
    have hstart := hpart (hfor.append_reads (ForInit.reads_text hinit))
    have hcond := hpart (hstart.append_reads (Expr.reads_script hc))
    exact (readsWhole_header hcond (Expr.reads_script hu) s.tree).reads

end Statement

end Grammar

/-! ## Names of lines -/

/-- The names of a text that starts with these lines are `ms` and those of the rest. -/
def LinesRead (ls : List Line) (ms : List Mention) : Prop :=
  ∀ r, AfterName r → mentions (lineChars ls ++ r) = ms ++ mentions r

theorem afterName_lineChars (ls : List Line) {r : List Char} (hr : AfterName r) :
    AfterName (lineChars ls ++ r) := by
  cases ls with
  | nil => exact hr
  | cons l ls => exact afterName_cons (c := '\n') (by decide) (by decide) _

theorem linesRead_nil : LinesRead [] [] := fun _ _ => rfl

theorem LinesRead.append {ls ls' : List Line} {ms ns : List Mention} (h : LinesRead ls ms)
    (h' : LinesRead ls' ns) : LinesRead (ls ++ ls') (ms ++ ns) := by
  intro r hr
  have hchars : lineChars (ls ++ ls') = lineChars ls ++ lineChars ls' := List.flatMap_append
  rw [hchars, List.append_assoc, h _ (afterName_lineChars ls' hr), h' r hr, List.append_assoc]

theorem Reads.cons {text : String} {ms ns : List Mention} (htext : Reads text ms) (d : Nat)
    {ls : List Line} (h : LinesRead ls ns) : LinesRead (⟨d, text⟩ :: ls) (ms ++ ns) := by
  intro r hr
  have hblanks : (List.replicate (4 * d) ' ').all (fun c => !isWordChar c && c != '"') = true := by
    rw [List.all_replicate]
    split <;> decide
  have hchars : lineChars (⟨d, text⟩ :: ls) ++ r =
      '\n' :: (List.replicate (4 * d) ' ' ++ (text.toList ++ (lineChars ls ++ r))) := by
    simp [lineChars, Line.render]
  rw [hchars, mentions_skip (by decide) (by decide), mentions_append_of_skip hblanks,
    htext _ (afterName_lineChars ls hr), h r hr, List.append_assoc]

theorem linesRead_closing (d : Nat) (s : Stmt) : LinesRead (Stmt.closing d s).lines [] := by
  have hbrace : ReadsWhole "\x7d" [] := readsWhole_skip (by decide)
  unfold Stmt.closing
  split
  · exact hbrace.reads.cons d linesRead_nil
  · exact linesRead_nil

theorem LinesRead.flatMap {α : Type} {L : α → List Line} {M : α → List Mention} :
    ∀ {as : List α}, (∀ a ∈ as, LinesRead (L a) (M a)) → LinesRead (as.flatMap L) (as.flatMap M)
  | [], _ => linesRead_nil
  | a :: as, h => by
    rw [List.forall_mem_cons] at h
    exact h.1.append (LinesRead.flatMap h.2)

theorem LinesRead.mentions_renderAll {ls : List Line} {ms : List Mention} (h : LinesRead ls ms) :
    mentions (Line.renderAll ls).toList = ms := by
  have hread := h [] afterName_nil
  rw [List.append_nil, mentions_nil, List.append_nil] at hread
  cases ls with
  | nil =>
    rw [← hread]
    rfl
  | cons l ls =>
    rw [← hread, toList_renderAll]
    exact (mentions_skip (by decide) (by decide) _).symm

namespace Grammar

namespace Statement

/-- The lines behind the first, and those of a body, mention the names of the statement. -/
def LinesMention (s : Statement) : Prop :=
  ∀ d, LinesRead (s.moreLines d) s.moreMentions ∧ LinesRead (s.inner d) s.tree.mentions

variable {s e : Statement}

theorem LinesMention.own (h : s.LinesMention) (hs : s.Spelled) (d : Nat) :
    LinesRead (s.tree.emit .own d).lines s.tree.mentions := by
  rw [lines_own, mentions_tree]
  exact (reads_firstText hs).cons d (h d).1

theorem LinesMention.closing (h : s.LinesMention) (d : Nat) :
    LinesRead (s.inner d ++ (Stmt.closing d s.tree).lines) s.tree.mentions := by
  have hlines := (h d).2.append (linesRead_closing d s.tree)
  rwa [List.append_nil] at hlines

theorem mentions_elseWord (t : Stmt) {r : List Char}
    (hr : ∀ c ∈ r.head?, isWordChar c = false) :
    mentions ((Stmt.elseWord t).toList ++ r) = mentions r := by
  have helse : mentions ("else".toList ++ r) = mentions r := mentions_layoutWord (by decide) hr
  unfold Stmt.elseWord
  split
  · rw [← helse]
    exact mentions_append_of_skip (w := ['\x7d', ' ']) (by decide) _
  · exact helse

theorem LinesMention.orElse (h : e.LinesMention) (he : e.Spelled) (t : Stmt) (d : Nat) :
    LinesRead (e.tree.emit (.elseBody (Stmt.elseWord t)) d).lines e.tree.mentions := by
  rw [lines_else]
  by_cases hcond : e.form = .cond
  · have hline : Reads (Stmt.elseWord t ++ (" " ++ e.firstText)) e.headMentions := by
      intro r hr
      have htext : (Stmt.elseWord t ++ (" " ++ e.firstText)).toList ++ r =
          (Stmt.elseWord t).toList ++ ' ' :: (e.firstText.toList ++ r) := by
        simp
      rw [htext, mentions_elseWord t (by simp; decide), mentions_skip (by decide) (by decide),
        reads_firstText he r hr]
    rw [elseText, elseMore, if_pos hcond, if_pos hcond, mentions_tree]
    exact hline.cons d (h d).1
  · have hline : Reads (Stmt.elseWord t ++ e.tree.suffix) [] := by
      intro r hr
      rw [String.toList_append, List.append_assoc, mentions_elseWord, reads_suffix]
      unfold Stmt.suffix
      split
      · simp
        decide
      · exact hr.word
    rw [elseText, elseMore, if_neg hcond, if_neg hcond]
    exact hline.cons d (h.closing d)

theorem LinesMention.of_more (hblock : s.tree.isBlock = false) (hs : s.Spelled)
    (h : ∀ d, LinesRead (s.moreLines d) s.moreMentions) : s.LinesMention := by
  intro d
  rw [inner_of_not_block hblock, lines_own, mentions_tree]
  exact ⟨h d, (reads_firstText hs).cons (d + 1) (h (d + 1))⟩

theorem linesMention (s : Statement) (hs : s.Spelled) : s.LinesMention := by
  induction s using Statement.induction with
  | block ss ih =>
    have hss := spelled_body hs
    have hinner (d : Nat) : LinesRead ((block ss).inner d) (block ss).tree.mentions := by
      rw [inner, lines_emitAll, Statement.tree, Stmt.mentions, Stmt.allMentions_eq_flatMap,
        bodyTrees_eq_map, List.flatMap_map]
      exact LinesRead.flatMap fun s hs => (ih s hs (hss s hs)).own (hss s hs) (d + 1)
    refine fun d => ⟨?_, hinner d⟩
    have hmore := (hinner d).append (linesRead_closing d (.block (bodyTrees ss)))
    rwa [List.append_nil] at hmore
  | decl | ret | eval => exact .of_more rfl hs fun _ => linesRead_nil
  | ifThen c s ih => exact .of_more rfl hs (ih (spelled_ifThen.1 hs).2).closing
  | ifElse c s e ihs ihe =>
    obtain ⟨-, hss, hse⟩ := spelled_ifElse.1 hs
    refine .of_more rfl hs fun d => ?_
    exact (ihs hss d).2.append ((ihe hse).orElse hse s.tree d)
  | whileLoop c s ih => exact .of_more rfl hs (ih (spelled_whileLoop.1 hs).2).closing
  | forLoop init c u s ih => exact .of_more rfl hs (ih (spelled_forLoop.1 hs).2.2.2).closing

end Statement

theorem Item.linesRead {i : Item} (hi : i.Spelled) :
    LinesRead (i.tree.emitItem 0).lines i.tree.mentions := by
  cases i with
  | statement s noInt =>
    rw [lines_item]
    have hown := (s.linesMention hi).own hi 0
    rw [Statement.lines_own] at hown
    exact hown
  | function f params body =>
    obtain ⟨hf, hparams, hbody⟩ := spelled_function hi
    have hline : Reads (Item.function f params body).firstText
        (⟨.defined, f⟩ :: (params.map Param.name).map fun x => ⟨.used, x⟩) := by
      intro r _
      have hnames := mentions_intercalate (f := id) (g := fun x => [⟨.used, x⟩])
        (fun x hx r hr => mentions_name (hparams x hx) hr) (' ' :: '\x7b' :: r)
      have htext : (Item.function f params body).firstText.toList ++ r =
          "function".toList ++ ' ' :: (f.toList ++ '(' ::
            ((", ".intercalate (params.map Param.name)).toList ++ ')' :: ' ' :: '\x7b' :: r)) := by
        simp [firstText]
      rw [List.map_id] at hnames
      rw [htext, mentions_function hf (by simp; decide), mentions_skip (by decide) (by decide),
        hnames, mentions_skip (by decide) (by decide), mentions_skip (by decide) (by decide),
        ← List.map_eq_flatMap]
      rfl
    rw [lines_item]
    exact hline.cons 0 ((Statement.block body).linesMention hbody 0).1

end Grammar

/-- The names that are written for a program. -/
def Program.mentions (p : Program) : List Mention :=
  Stmt.allMentions p.body ++ if p.hasMain then [⟨.used, "main"⟩] else []

theorem Derivation.linesRead {d : Derivation} (hd : ∀ i ∈ d.writtenItems, i.Spelled) :
    LinesRead (d.program.emit 0).lines d.program.mentions := by
  have hmentions : d.program.mentions = d.writtenItems.flatMap fun i => i.tree.mentions := by
    rw [← List.flatMap_map, Derivation.map_tree_writtenItems, List.flatMap_append,
      Program.mentions, Stmt.allMentions_eq_flatMap, Program.calls]
    congr 1
    split <;> rfl
  rw [Derivation.lines_emit, hmentions]
  exact LinesRead.flatMap fun i hi => Item.linesRead (hd i hi)

/-- The words that JavaScript keeps for itself. -/
def reservedWords : List String :=
  ["await", "break", "case", "catch", "class", "const", "continue", "debugger", "default",
    "delete", "do", "else", "enum", "export", "extends", "false", "finally", "for", "function",
    "if", "import", "in", "instanceof", "new", "null", "return", "super", "switch", "this",
    "throw", "true", "try", "typeof", "var", "void", "while", "with", "yield"]

/-- JavaScript allows the name where it stands. -/
def Mention.Usable (m : Mention) : Prop :=
  m.name ∉ reservedWords ∧ (m.role = .declared → m.name ≠ "let")

/-- JavaScript allows all names of the text. -/
def NamesUsable (text : String) : Prop := ∀ m ∈ mentions text.toList, m.Usable

/-- The names of a text are those of its program, in the same order. None is changed on the way, so
JavaScript allows all of them exactly if it allows those of the program. -/
theorem mentions_compile {source js : String} (h : compile source = .ok js) :
    ∃ p, parseSource source = .ok p ∧ mentions js.toList = p.mentions ∧
      (NamesUsable js ↔ ∀ m ∈ p.mentions, m.Usable) := by
  obtain ⟨d, hparse, hspelled, rfl⟩ := exists_derivation_of_compile h
  have hmentions := (Derivation.linesRead hspelled).mentions_renderAll
  exact ⟨d.program, hparse, hmentions, by rw [NamesUsable, hmentions]⟩

instance (m : Mention) : Decidable m.Usable :=
  inferInstanceAs (Decidable (m.name ∉ reservedWords ∧ (m.role = .declared → m.name ≠ "let")))

/-- `int main() { int y = 1; printf("new", y); }` -/
def printingSource : String := "int main()\x7bint y=1;printf(\"new\",y);\x7d"

def printingText : String :=
  "function main() \x7b\n    let y = 1;\n    console.log(\"new\", y);\n\x7d\nmain();"

/-- A reserved word in a string is no name. -/
theorem mentions_compile_printing :
    compile printingSource = .ok printingText ∧ NamesUsable printingText ∧
      ∃ p, parseSource printingSource = .ok p ∧ mentions printingText.toList = p.mentions ∧
        ∀ m ∈ p.mentions, m.Usable := by
  have hcompile : compile printingSource = .ok printingText := by cbv
  have hnames : mentions printingText.toList =
      [⟨.defined, "main"⟩, ⟨.declared, "y"⟩, ⟨.used, "y"⟩, ⟨.used, "main"⟩] := by
    cbv
  have husable : NamesUsable printingText := by
    rw [NamesUsable, hnames]
    decide
  obtain ⟨p, hparse, hmentions, hiff⟩ := mentions_compile hcompile
  exact ⟨hcompile, husable, p, hparse, hmentions, hiff.1 husable⟩

/-- A function with the name of an operator of JavaScript. -/
def operatorText : String := "function new(a) \x7b\n    return a;\n\x7d"

theorem exists_names_not_usable :
    ∃ js, compile "int new(int a) \x7b return a; \x7d" = .ok js ∧ ¬ NamesUsable js := by
  have hnames : mentions operatorText.toList =
      [⟨.defined, "new"⟩, ⟨.used, "a"⟩, ⟨.used, "a"⟩] := by
    cbv
  refine ⟨operatorText, by cbv, ?_⟩
  rw [NamesUsable, hnames]
  decide

end MiniC
