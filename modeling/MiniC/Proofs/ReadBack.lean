import MiniC.Proofs.Tokenization
import MiniC.Text.Line

/-!
# Reading a written text back

A written text has `let` and `function` where a source has `int`. `ReadsBack cs ks` says that the
text `cs` has tokens and that these, with `int` restored, are of the kinds `ks`.

Texts are written in parts, and how a part is read depends on what follows it: a name must not go
on, and a sign must not become a longer one. `Lexes next text ks` says that the part `text` is read
as the kinds `ks` in front of all that is `next`, which is what cannot go on with a token (`Ends`)
or `Anything`.

`Writes` and `Delimits` say the same of the kinds with `int` restored. The `append` lemmas put parts
together in the order in which they are written, and `WritesLines` does the same for the lines of a
layout, which the newline in front of each keeps apart.
-/

namespace MiniC

/-- What the kind stands for in a written text. -/
def Kind.restore : Kind → Kind
  | .ident x => if x = "let" ∨ x = "function" then .keyword .int else .ident x
  | k => k

@[simp] theorem Kind.restore_op (o : BinOp) : (Kind.op o).restore = .op o := rfl

@[simp] theorem Kind.restore_mark (m : Mark) : (Kind.mark m).restore = .mark m := rfl

def Token.restore (t : Token) : Token := { t with kind := t.kind.restore }

open Lexeme

namespace Cursor

theorem tokens_dropWhile (cs : List Char) (line : Nat) :
    (Cursor.mk cs line).tokens =
      (Cursor.mk (cs.dropWhile isBlank) (line + (cs.takeWhile isBlank).count '\n')).tokens := by
  cases cs with
  | nil => rfl
  | cons c cs =>
    by_cases hc : isBlank c = true
    · rw [Cursor.tokens, List.dropWhile_cons_of_pos hc, List.takeWhile_cons_of_pos hc]
      simp [scan, hc]
    · rw [List.dropWhile_cons_of_neg hc, List.takeWhile_cons_of_neg hc]
      rfl

/-- A run of blanks is one piece, but it can as well be skipped blank by blank. -/
theorem tokens_blank {c : Char} (cs : List Char) (line : Nat) (hc : isBlank c = true) :
    (Cursor.mk (c :: cs) line).tokens = (Cursor.mk cs (line + [c].count '\n')).tokens := by
  rw [tokens_dropWhile (c :: cs), tokens_dropWhile cs, List.dropWhile_cons_of_pos hc,
    List.takeWhile_cons_of_pos hc, Nat.add_assoc, ← List.count_append, List.singleton_append]

theorem tokens_spelling {k : Kind} {text rest : List Char} (line : Nat) (h : Spells k text)
    (hmax : MaximalBefore rest k) : (Cursor.mk (text ++ rest) line).tokens.1 =
      (Cursor.mk rest (line + text.count '\n')).tokens.1.map (⟨k, line⟩ :: ·) := by
  obtain ⟨c, cs, hcs⟩ := List.exists_cons_of_ne_nil (l := text ++ rest) (by simp [h.ne_nil])
  rw [hcs, Cursor.tokens, scan_of_spells h hmax hcs]

end Cursor

/-- The tokens of the text, with `int` restored, are of the kinds. -/
def ReadsBack (cs : List Char) (ks : List Kind) : Prop :=
  ∀ line, ∃ ts, (Cursor.mk cs line).tokens.1 = .ok ts ∧
    ts.map (fun t => t.restore.kind) = ks ++ [.eof]

theorem ReadsBack.nil : ReadsBack [] [] := by
  intro line
  rw [Cursor.tokens]
  exact ⟨_, rfl, rfl⟩

theorem ReadsBack.blank {c : Char} {cs : List Char} {ks : List Kind} (hc : isBlank c = true)
    (h : ReadsBack cs ks) : ReadsBack (c :: cs) ks := by
  intro line
  rw [Cursor.tokens_blank cs line hc]
  exact h _

/-! ## Parts of a text -/

/-- No token goes on with the character. -/
def endsToken (c : Char) : Bool := isBlank c || ['(', ')', '\x7b', '\x7d', ',', ';'].contains c

/-- What stands in front of the text ends there. -/
def Ends (rest : List Char) : Prop := ∀ c ∈ rest.head?, endsToken c = true

theorem isNameChar_of_endsToken {c : Char} (h : endsToken c = true) : isNameChar c = false := by
  rw [Bool.eq_false_iff]
  intro hname
  rw [endsToken, isBlank_of_isNameChar hname, Bool.false_or] at h
  simp only [List.contains_cons, List.contains_nil, Bool.or_false, Bool.or_eq_true,
    beq_iff_eq] at h
  rcases h with rfl | rfl | rfl | rfl | rfl | rfl <;> exact absurd hname (by decide)

theorem Ends.maximal {rest : List Char} (h : Ends rest) (k : Kind) : MaximalBefore rest k := by
  have hname : ∀ c ∈ rest.head?, isNameChar c = false :=
    fun c hc => isNameChar_of_endsToken (h c hc)
  have hsign (c : Char) (hc : endsToken c = false) : rest.head? ≠ some c := by
    intro hhead
    rw [h c hhead] at hc
    cases hc
  unfold MaximalBefore
  split
  · intro c hc
    rw [Bool.eq_false_iff]
    intro hdigit
    exact Bool.false_ne_true ((hname c hc).symm.trans (isNameChar_of_isDigit hdigit))
  · exact hname
  · exact hname
  · exact hsign '=' (by decide)
  · exact hsign '=' (by decide)
  · exact hsign '=' (by decide)
  · exact ⟨hsign '/' (by decide), hsign '*' (by decide)⟩
  · trivial

def Anything (_ : List Char) : Prop := True

/-- In front of what is `next`, the text is read as tokens of the kinds. -/
def Lexes (next : List Char → Prop) (text : String) (ks : List Kind) : Prop :=
  ∀ rest line, next rest → ∃ ts line', ts.map Token.kind = ks ∧
    (Cursor.mk (text.toList ++ rest) line).tokens.1 =
      (Cursor.mk rest line').tokens.1.map (ts ++ ·)

/-- The text reads back as the kinds if what follows ends it. -/
structure Writes (text : String) (ks : List Kind) : Prop where
  readsBack : ∀ rest rks, Ends rest → ReadsBack rest rks →
    ReadsBack (text.toList ++ rest) (ks ++ rks)

/-- The text reads back as the kinds whatever follows. -/
structure Delimits (text : String) (ks : List Kind) : Prop where
  readsBack : ∀ rest rks, ReadsBack rest rks → ReadsBack (text.toList ++ rest) (ks ++ rks)

/-- The text ends what stands in front of it. -/
def breaks (text : String) : Bool := text.toList.head?.any endsToken

theorem ends_append_of_breaks {text : String} (h : breaks text = true) (rest : List Char) :
    Ends (text.toList ++ rest) := by
  unfold breaks at h
  cases htext : text.toList with
  | nil => simp [htext] at h
  | cons d cs =>
    rw [htext] at h
    rintro c ⟨⟩
    exact h

theorem breaks_append {a : String} (b : String) (h : breaks a = true) : breaks (a ++ b) = true := by
  unfold breaks at h ⊢
  rw [String.toList_append]
  cases htext : a.toList with
  | nil => simp [htext] at h
  | cons d cs => simpa [htext] using h

section Lexes

variable {next after : List Char → Prop} {text a b : String} {k : Kind} {ks ls : List Kind}

theorem lexes_of_spells (h : Spells k text.toList)
    (hmax : ∀ rest, next rest → MaximalBefore rest k) : Lexes next text [k] := by
  intro rest line hrest
  exact ⟨[⟨k, line⟩], _, rfl, Cursor.tokens_spelling line h (hmax rest hrest)⟩

theorem lexes_blank : Lexes next " " [] := by
  intro rest line _
  refine ⟨[], line, rfl, ?_⟩
  have hblank : (Cursor.mk (" ".toList ++ rest) line).tokens = (Cursor.mk rest line).tokens :=
    Cursor.tokens_blank rest line (by decide)
  rw [hblank]
  cases (Cursor.mk rest line).tokens.1 <;> rfl

theorem lexes_empty : Lexes next "" [] := by
  intro rest line _
  refine ⟨[], line, rfl, ?_⟩
  rw [String.toList_empty, List.nil_append]
  cases (Cursor.mk rest line).tokens.1 <;> rfl

theorem Lexes.append (ha : Lexes next a ks) (hb : Lexes after b ls)
    (hnext : ∀ rest, after rest → next (b.toList ++ rest)) : Lexes after (a ++ b) (ks ++ ls) := by
  intro rest line hrest
  obtain ⟨ts, line₁, hts, hread⟩ := ha (b.toList ++ rest) line (hnext rest hrest)
  obtain ⟨us, line₂, hus, hread'⟩ := hb rest line₁ hrest
  refine ⟨ts ++ us, line₂, by rw [List.map_append, hts, hus], ?_⟩
  rw [String.toList_append, List.append_assoc, hread, hread']
  cases (Cursor.mk rest line₂).tokens.1 <;> simp [Except.map]

theorem Lexes.ends (h : Lexes Anything text ks) : Lexes Ends text ks :=
  fun rest line _ => h rest line trivial

theorem Lexes.readsBack (h : Lexes next text ks) {rest : List Char} (hnext : next rest)
    {rks : List Kind} (hrest : ReadsBack rest rks) :
    ReadsBack (text.toList ++ rest) (ks.map Kind.restore ++ rks) := by
  intro line
  obtain ⟨ts, line', hts, hread⟩ := h rest line hnext
  obtain ⟨us, hus, hrks⟩ := hrest line'
  refine ⟨ts ++ us, by rw [hread, hus]; rfl, ?_⟩
  have hkinds : ts.map (fun t => t.restore.kind) = (ts.map Token.kind).map Kind.restore := by
    rw [List.map_map]
    rfl
  rw [List.map_append, hkinds, hts, hrks, List.append_assoc]

theorem Lexes.writes (h : Lexes Ends text ks) : Writes text (ks.map Kind.restore) :=
  ⟨fun _ _ hends hrest => h.readsBack hends hrest⟩

theorem Lexes.delimits (h : Lexes Anything text ks) : Delimits text (ks.map Kind.restore) :=
  ⟨fun _ _ hrest => h.readsBack trivial hrest⟩

theorem lexes_ends_of_spells (h : Spells k text.toList) : Lexes Ends text [k] :=
  lexes_of_spells h fun _ hends => hends.maximal k

theorem writes_of_spells (h : Spells k text.toList) : Writes text [k.restore] :=
  (lexes_ends_of_spells h).writes

theorem delimits_blank : Delimits " " [] := lexes_blank.delimits

theorem delimits_empty : Delimits "" [] := lexes_empty.delimits

end Lexes

section Append

variable {a b : String} {ks ls : List Kind}

theorem Delimits.writes (h : Delimits a ks) : Writes a ks :=
  ⟨fun rest rks _ hrest => h.readsBack rest rks hrest⟩

theorem Writes.append (ha : Writes a ks) (hb : Writes b ls) (hbreak : breaks b = true) :
    Writes (a ++ b) (ks ++ ls) := by
  refine ⟨fun rest rks hends hrest => ?_⟩
  rw [String.toList_append, List.append_assoc, List.append_assoc]
  exact ha.readsBack _ _ (ends_append_of_breaks hbreak rest) (hb.readsBack rest rks hends hrest)

theorem Writes.append_delimits (ha : Writes a ks) (hb : Delimits b ls)
    (hbreak : breaks b = true) : Delimits (a ++ b) (ks ++ ls) := by
  refine ⟨fun rest rks hrest => ?_⟩
  rw [String.toList_append, List.append_assoc, List.append_assoc]
  exact ha.readsBack _ _ (ends_append_of_breaks hbreak rest) (hb.readsBack rest rks hrest)

theorem Delimits.append_writes (ha : Delimits a ks) (hb : Writes b ls) :
    Writes (a ++ b) (ks ++ ls) := by
  refine ⟨fun rest rks hends hrest => ?_⟩
  rw [String.toList_append, List.append_assoc, List.append_assoc]
  exact ha.readsBack _ _ (hb.readsBack rest rks hends hrest)

theorem Delimits.append (ha : Delimits a ks) (hb : Delimits b ls) :
    Delimits (a ++ b) (ks ++ ls) := by
  refine ⟨fun rest rks hrest => ?_⟩
  rw [String.toList_append, List.append_assoc, List.append_assoc]
  exact ha.readsBack _ _ (hb.readsBack rest rks hrest)

end Append

/-! ## Lines -/

/-- The lines as one text, with a newline in front of each. -/
def lineChars (ls : List Line) : List Char := ls.flatMap fun l => '\n' :: l.render.toList

theorem ends_lineChars_append (ls : List Line) {rest : List Char} (h : Ends rest) :
    Ends (lineChars ls ++ rest) := by
  cases ls with
  | nil => exact h
  | cons l ls =>
    rintro c ⟨⟩
    decide

/-- The lines read back as the kinds if what follows ends the last of them. -/
structure WritesLines (ls : List Line) (ks : List Kind) : Prop where
  readsBack : ∀ rest rks, Ends rest → ReadsBack rest rks →
    ReadsBack (lineChars ls ++ rest) (ks ++ rks)

theorem WritesLines.nil : WritesLines [] [] := ⟨fun _ _ _ hrest => hrest⟩

theorem WritesLines.append {as bs : List Line} {ks ls : List Kind} (ha : WritesLines as ks)
    (hb : WritesLines bs ls) : WritesLines (as ++ bs) (ks ++ ls) := by
  refine ⟨fun rest rks hends hrest => ?_⟩
  rw [lineChars, List.flatMap_append, List.append_assoc, List.append_assoc]
  exact ha.readsBack _ _ (ends_lineChars_append bs hends) (hb.readsBack rest rks hends hrest)

theorem ReadsBack.blanks {cs : List Char} {ks : List Kind} (h : ReadsBack cs ks) :
    ∀ n, ReadsBack (List.replicate n ' ' ++ cs) ks
  | 0 => h
  | n + 1 => .blank (by decide) (ReadsBack.blanks h n)

theorem Writes.line {text : String} {ks : List Kind} (h : Writes text ks) (depth : Nat) :
    WritesLines [⟨depth, text⟩] ks := by
  refine ⟨fun rest rks hends hrest => ?_⟩
  have hline := (h.readsBack rest rks hends hrest).blanks (4 * depth)
  simpa [lineChars, Line.render] using hline.blank (c := '\n') (by decide)

theorem toList_renderAll (l : Line) (ls : List Line) :
    (Line.renderAll (l :: ls)).toList = l.render.toList ++ lineChars ls := by
  induction ls generalizing l with
  | nil => simp [Line.renderAll, lineChars]
  | cons m ls ih =>
    have hcons : Line.renderAll (l :: m :: ls) = l.render ++ "\n" ++ Line.renderAll (m :: ls) :=
      String.intercalate_cons_cons
    rw [hcons, String.toList_append, String.toList_append, ih m, List.append_assoc]
    rfl

/-- Lines that read back have tokens when they are joined. -/
theorem WritesLines.tokenize_renderAll {ls : List Line} {ks : List Kind} (h : WritesLines ls ks) :
    ∃ ts, tokenize (Line.renderAll ls) = .ok ts ∧
      ts.map (fun t => t.restore.kind) = ks ++ [.eof] := by
  have hread := h.readsBack [] [] (by simp [Ends]) .nil
  rw [List.append_nil, List.append_nil] at hread
  cases ls with
  | nil => exact hread 1
  | cons l ls =>
    -- the newline in front of the first line is the step from line 0 to line 1
    have hstart := hread 0
    have hchars : lineChars (l :: ls) = '\n' :: (Line.renderAll (l :: ls)).toList := by
      rw [toList_renderAll]
      rfl
    rw [hchars, Cursor.tokens_blank _ _ (by decide)] at hstart
    exact hstart

end MiniC
