import MiniC.Proofs.ReadBack

/-!
# Spellings with separators between them

Reading tokens undoes writing them. A gap in front of anything is skipped, whatever its comments
hold (`Cursor.skips_gap`), and a spelling that cannot be longer is read as its kind, so pieces that
stand in their places are found again (`Cursor.tokens_of_cut`): a source is cut in one way only.

A separator is a gap that starts with a blank, and no spelling goes on behind a blank. So kinds can
be written one after the other, with separators of any sort between them.
-/

namespace MiniC

namespace Lexeme

/-! ## Skipping gaps -/

theorem cutLine_of_notMem {cs : List Char} (h : '\n' ∉ cs) : cutLine cs = (cs, []) := by
  induction cs with
  | nil => rfl
  | cons c cs ih =>
    simp only [List.mem_cons, not_or] at h
    simp [cutLine, Ne.symm h.1, ih h.2]

theorem cutLine_append_newline {body : List Char} (h : '\n' ∉ body) (rest : List Char) :
    cutLine (body ++ '\n' :: rest) = (body ++ ['\n'], rest) := by
  induction body with
  | nil => simp [cutLine]
  | cons c body ih =>
    simp only [List.mem_cons, not_or] at h
    simp [cutLine, Ne.symm h.1, ih h.2]

theorem cutComment?_append_close {body : List Char} (h : ¬ ['*', '/'] <:+: body)
    (rest : List Char) :
    cutComment? (body ++ '*' :: '/' :: rest) = some (body ++ ['*', '/'], rest) := by
  induction body with
  | nil => rfl
  | cons c body ih =>
    rw [List.infix_cons_iff, not_or] at h
    have hopen : ∀ cs, c = '*' → body ++ '*' :: '/' :: rest = '/' :: cs → False := by
      rintro cs rfl heq
      apply h.1
      cases body with
      | nil => simp at heq
      | cons d body =>
        obtain ⟨rfl, -⟩ := List.cons.inj heq
        simp
    rw [List.cons_append, cutComment?, ih h.2]
    · rfl
    · exact hopen

theorem scan_comment (cs : List Char) :
    scan '/' ('/' :: cs) = ⟨.gap, '/' :: '/' :: (cutLine cs).1, (cutLine cs).2⟩ := rfl

theorem scan_directive (cs : List Char) :
    scan '#' cs = ⟨.gap, '#' :: (cutLine cs).1, (cutLine cs).2⟩ := rfl

theorem scan_block {body : List Char} (h : ¬ ['*', '/'] <:+: body) (rest : List Char) :
    scan '/' ('*' :: (body ++ '*' :: '/' :: rest)) =
      ⟨.gap, '/' :: '*' :: (body ++ ['*', '/']), rest⟩ := by
  have hscan : scan '/' ('*' :: (body ++ '*' :: '/' :: rest)) =
      scanComment (body ++ '*' :: '/' :: rest) := rfl
  rw [hscan, scanComment, cutComment?_append_close h]

end Lexeme

open Lexeme

namespace Cursor

/-- The cursor skips `gap` in front of `rest`. -/
def Skips (gap rest : List Char) : Prop := ∀ line : Nat,
  (Cursor.mk (gap ++ rest) line).tokens = (Cursor.mk rest (line + gap.count '\n')).tokens

theorem Skips.nil (rest : List Char) : Skips [] rest := fun _ => rfl

theorem Skips.append {a b rest : List Char} (ha : Skips a (b ++ rest)) (hb : Skips b rest) :
    Skips (a ++ b) rest := by
  intro line
  rw [List.append_assoc, ha, hb, List.count_append, Nat.add_assoc]

theorem skips_of_scan {c : Char} {cs text rest : List Char}
    (h : scan c cs = ⟨.gap, text, rest⟩) : Skips text rest := by
  intro line
  have happend := text_append_rest c cs
  rw [h] at happend
  rw [happend, Cursor.tokens, h]

theorem skips_blank {c : Char} (hc : isBlank c = true) (rest : List Char) : Skips [c] rest :=
  fun line => tokens_blank rest line hc

theorem skips_gap {gap rest : List Char} (h : Gap gap rest) : Skips gap rest := by
  induction h with
  | nil => exact .nil _
  | blank hc h ih => exact (skips_blank hc _).append ih
  | @comment body gap rest hbody h ih =>
    have hscan := scan_comment (body ++ '\n' :: (gap ++ rest))
    rw [cutLine_append_newline hbody] at hscan
    simpa using (skips_of_scan hscan).append ih
  | @lastComment body hbody =>
    have hscan := scan_comment body
    rw [cutLine_of_notMem hbody] at hscan
    exact skips_of_scan hscan
  | @block body gap rest hbody h ih =>
    simpa using (skips_of_scan (scan_block hbody (gap ++ rest))).append ih
  | @directive body gap rest hbody h ih =>
    have hscan := scan_directive (body ++ '\n' :: (gap ++ rest))
    rw [cutLine_append_newline hbody] at hscan
    simpa using (skips_of_scan hscan).append ih
  | @lastDirective body hbody =>
    have hscan := scan_directive body
    rw [cutLine_of_notMem hbody] at hscan
    exact skips_of_scan hscan

/-- Pieces that stand in their places are read as their tokens. -/
theorem tokens_of_cut : ∀ {ps : List Piece} {gap : List Char} {line : Nat},
    Gap gap (ps.flatMap Piece.source) → Cut (line + gap.count '\n') ps →
      (Cursor.mk (gap ++ ps.flatMap Piece.source) line).tokens.1 =
        .ok (ps.map Piece.token ++
          [⟨.eof, line + (gap ++ ps.flatMap Piece.source).count '\n'⟩])
  | [], gap, line, hgap, _ => by
    rw [skips_gap hgap, List.flatMap_nil, Cursor.tokens, List.append_nil]
    rfl
  | p :: ps, gap, line, hgap, hcut => by
    obtain ⟨⟨hspells, hmax, hafter, hline⟩, hrest⟩ := hcut
    rw [Piece.source, List.count_append, ← Nat.add_assoc] at hrest
    have hread := tokens_of_cut hafter hrest
    have hsource : (p :: ps).flatMap Piece.source =
        p.text ++ (p.gap ++ ps.flatMap Piece.source) := by
      rw [List.flatMap_cons, Piece.source, List.append_assoc]
    have htoken : Token.mk p.token.kind (line + gap.count '\n') = p.token := by rw [← hline]
    rw [skips_gap hgap, hsource, tokens_spelling _ hspells hmax, hread, htoken]
    simp [Except.map, Nat.add_assoc]

end Cursor

/-! ## Separators -/

/-- Blanks, closed comments, and comments and directives with the newline that ends their line. -/
inductive Trivia : List Char → Prop
  | nil : Trivia []
  | blank {c : Char} {rest : List Char} (hc : isBlank c = true) (h : Trivia rest) :
      Trivia (c :: rest)
  | comment {body rest : List Char} (hbody : '\n' ∉ body) (h : Trivia rest) :
      Trivia ('/' :: '/' :: (body ++ '\n' :: rest))
  | directive {body rest : List Char} (hbody : '\n' ∉ body) (h : Trivia rest) :
      Trivia ('#' :: (body ++ '\n' :: rest))
  | block {body rest : List Char} (hbody : ¬ ['*', '/'] <:+: body) (h : Trivia rest) :
      Trivia ('/' :: '*' :: (body ++ '*' :: '/' :: rest))

/-- Trivia between two blanks. -/
inductive Separator : List Char → Prop
  | between {c d : Char} {inner : List Char} (hc : isBlank c = true) (h : Trivia inner)
      (hd : isBlank d = true) : Separator (c :: (inner ++ [d]))

/-- What a gap may be made of behind trivia, it may be made of with the trivia in front. -/
theorem Trivia.gap_append {trivia gap rest : List Char} (h : Trivia trivia) (hgap : Gap gap rest) :
    Gap (trivia ++ gap) rest := by
  induction h with
  | nil => exact hgap
  | blank hc h ih => exact .blank hc ih
  | comment hbody h ih => simpa using Gap.comment hbody ih
  | directive hbody h ih => simpa using Gap.directive hbody ih
  | block hbody h ih => simpa using Gap.block hbody ih

/-- In front of more text a comment or directive has its newline. -/
theorem Lexeme.Gap.trivia {gap rest : List Char} (h : Gap gap rest) (hrest : rest ≠ []) :
    Trivia gap := by
  induction h with
  | nil => exact .nil
  | blank hc h ih => exact .blank hc (ih hrest)
  | comment hbody h ih => exact .comment hbody (ih hrest)
  | block hbody h ih => exact .block hbody (ih hrest)
  | directive hbody h ih => exact .directive hbody (ih hrest)
  | lastComment | lastDirective => exact absurd rfl hrest

/-- A newline ends the comment or directive that is still open behind a gap. -/
theorem Lexeme.Gap.trivia_append_newline {gap rest : List Char} (h : Gap gap rest) :
    Trivia (gap ++ ['\n']) := by
  have hnl : isBlank '\n' = true := by decide
  induction h with
  | nil => exact .blank hnl .nil
  | blank hc h ih => exact .blank hc ih
  | comment hbody h ih => simpa using Trivia.comment hbody ih
  | block hbody h ih => simpa using Trivia.block hbody ih
  | directive hbody h ih => simpa using Trivia.directive hbody ih
  | lastComment hbody => exact .comment hbody .nil
  | lastDirective hbody => exact .directive hbody .nil

theorem Trivia.gap {trivia : List Char} (h : Trivia trivia) (rest : List Char) :
    Gap trivia rest := by
  have hgap : Gap (trivia ++ []) rest := h.gap_append .nil
  rwa [List.append_nil] at hgap

theorem Cursor.skips_trivia {trivia : List Char} (h : Trivia trivia) (rest : List Char) :
    Skips trivia rest :=
  skips_gap (h.gap rest)

theorem Separator.gap {sep : List Char} (h : Separator sep) (rest : List Char) : Gap sep rest := by
  cases h with
  | between hc h hd => exact .blank hc (h.gap_append (.blank hd .nil))

theorem Separator.ends_append {sep : List Char} (h : Separator sep) (rest : List Char) :
    Ends (sep ++ rest) := by
  cases h with
  | between hc h hd =>
    rintro c ⟨⟩
    simp [endsToken, hc]

/-! ## Spaced kinds -/

/-- The kinds that can be written: all but the end of the source, with a number, a name or a string
that the language has. -/
def Kind.Writable : Kind → Prop
  | .number n => 0 ≤ n ∧ n ≤ 2 ^ 63 - 1
  | .string raw => '"' ∉ raw.toList
  | .ident x => (∃ c cs, x.toList = c :: cs ∧ isNameStart c = true ∧
      ∀ d ∈ cs, isNameChar d = true) ∧ ∀ word : Keyword, word.spelling ≠ x
  | .keyword _ | .op _ | .mark _ => True
  | .eof => False

theorem Kind.writable_iff_exists_spells (k : Kind) : k.Writable ↔ ∃ text, Spells k text := by
  constructor
  · intro h
    cases k with
    | number n =>
      obtain ⟨m, rfl⟩ := Int.eq_ofNat_of_zero_le h.1
      have hbound : m < numberBound := by
        have := h.2
        unfold numberBound
        omega
      exact ⟨_, spells_toDigits hbound⟩
    | string raw =>
      have hspells := Spells.string h
      rw [String.ofList_toList] at hspells
      exact ⟨_, hspells⟩
    | ident x =>
      obtain ⟨⟨c, cs, hx, hc, hcs⟩, hword⟩ := h
      rw [← String.ofList_toList (s := x), hx] at hword ⊢
      exact ⟨_, .ident hc hcs hword⟩
    | keyword word => exact ⟨_, .keyword word⟩
    | op o => exact ⟨_, .op o⟩
    | mark m => exact ⟨_, .mark m⟩
    | eof => exact h.elim
  · rintro ⟨text, h⟩
    cases h with
    | number hne hdigits hbound =>
      unfold numberBound at hbound
      exact ⟨by omega, by omega⟩
    | string hraw => simpa [Kind.Writable] using hraw
    | ident hc hcs hword => exact ⟨⟨_, _, String.toList_ofList, hc, hcs⟩, hword⟩
    | keyword | op | mark => trivial

/-- A kind as it is written, with the separator behind it. -/
structure Written where
  kind : Kind
  text : List Char
  sep : List Char

namespace Written

def source (w : Written) : List Char := w.text ++ w.sep

/-- The pieces of written kinds, the first of them on the line. -/
def pieces : Nat → List Written → List Piece
  | _, [] => []
  | line, w :: ws =>
    ⟨⟨w.kind, line⟩, w.text, w.sep⟩ :: pieces (line + w.source.count '\n') ws

theorem flatMap_source_pieces : ∀ (line : Nat) (ws : List Written),
    (pieces line ws).flatMap Piece.source = ws.flatMap source
  | _, [] => rfl
  | line, w :: ws => by
    rw [pieces, List.flatMap_cons, List.flatMap_cons, flatMap_source_pieces _ ws]
    rfl

theorem cut_pieces : ∀ {ws : List Written} (line : Nat),
    (∀ w ∈ ws, Spells w.kind w.text ∧ Separator w.sep) → Cut line (pieces line ws)
  | [], _, _ => trivial
  | w :: ws, line, h => by
    rw [List.forall_mem_cons] at h
    obtain ⟨⟨hspells, hsep⟩, hws⟩ := h
    refine ⟨⟨hspells, ?_, hsep.gap _, rfl⟩, cut_pieces _ hws⟩
    exact (hsep.ends_append _).maximal w.kind

theorem map_kind_pieces : ∀ (line : Nat) (ws : List Written),
    ((pieces line ws).map Piece.token).map Token.kind = ws.map kind
  | _, [] => rfl
  | _, w :: ws => congrArg (w.kind :: ·) (map_kind_pieces _ ws)

/-- A token is on the line that the newlines before its spelling give. -/
theorem getElem?_pieces (w : Written) (after : List Written) : ∀ (before : List Written)
    (line : Nat), ((pieces line (before ++ w :: after)).map Piece.token)[before.length]? =
      some ⟨w.kind, line + (before.flatMap source).count '\n'⟩
  | [], _ => rfl
  | v :: before, line => by
    have hrest := getElem?_pieces w after before (line + v.source.count '\n')
    rwa [Nat.add_assoc, ← List.count_append, ← List.flatMap_cons] at hrest

end Written

/-- The kinds that can be written are those with a spelling, and spellings of any kinds, with
separators before, between and behind them, are read as these kinds, each on the line its spelling
starts on. -/
theorem tokenize_spaced :
    (∀ k : Kind, k.Writable ↔ ∃ text, Spells k text) ∧
      ∀ (lead : List Char) (ws : List Written), Separator lead →
        (∀ w ∈ ws, Spells w.kind w.text ∧ Separator w.sep) →
          ∃ ts, tokenize (String.ofList (lead ++ ws.flatMap Written.source)) =
              .ok (ts ++ [⟨.eof, 1 + (lead ++ ws.flatMap Written.source).count '\n'⟩]) ∧
            ts.map Token.kind = ws.map Written.kind ∧
            ∀ before w after, ws = before ++ w :: after → ts[before.length]? =
              some ⟨w.kind, 1 + (lead ++ before.flatMap Written.source).count '\n'⟩ := by
  refine ⟨Kind.writable_iff_exists_spells, fun lead ws hlead hws => ?_⟩
  have hcut := Written.cut_pieces (1 + lead.count '\n') hws
  have hread := Cursor.tokens_of_cut (hlead.gap _) hcut
  rw [Written.flatMap_source_pieces] at hread
  refine ⟨_, ?_, Written.map_kind_pieces (1 + lead.count '\n') ws, ?_⟩
  · rw [tokenize, Cursor.start, String.toList_ofList]
    exact hread
  · rintro before w after rfl
    rw [Written.getElem?_pieces, List.count_append, Nat.add_assoc]

/-- `/` in front of a comment, `07`, and a string with a `#` on its second line. -/
def spacedQuotient : List Written :=
  [⟨.op .div, "/".toList, " /*\"*/\n".toList⟩, ⟨.number 7, "07".toList, " //#\n ".toList⟩,
    ⟨.string "*/\n#", "\"*/\n#\"".toList, "  ".toList⟩]

theorem tokenize_spaced_quotient :
    Separator "\n#d\n ".toList ∧
      (∀ w ∈ spacedQuotient, Spells w.kind w.text ∧ Separator w.sep) ∧
      ∃ ts, tokenize "\n#d\n / /*\"*/\n07 //#\n \"*/\n#\"  " = .ok (ts ++ [⟨.eof, 6⟩]) ∧
        ts.map Token.kind = [.op .div, .number 7, .string "*/\n#"] ∧
        ts[2]? = some ⟨.string "*/\n#", 5⟩ := by
  have hlead : Separator "\n#d\n ".toList :=
    @Separator.between '\n' ' ' ['#', 'd', '\n'] (by decide)
      (@Trivia.directive ['d'] [] (by decide) .nil) (by decide)
  have hcomment : Separator " /*\"*/\n".toList :=
    @Separator.between ' ' '\n' ['/', '*', '"', '*', '/'] (by decide)
      (@Trivia.block ['"'] [] (by decide) .nil) (by decide)
  have hline : Separator " //#\n ".toList :=
    @Separator.between ' ' ' ' ['/', '/', '#', '\n'] (by decide)
      (@Trivia.comment ['#'] [] (by decide) .nil) (by decide)
  have hblanks : Separator "  ".toList := @Separator.between ' ' ' ' [] (by decide) .nil (by decide)
  have hws : ∀ w ∈ spacedQuotient, Spells w.kind w.text ∧ Separator w.sep := by
    simp only [spacedQuotient, List.forall_mem_cons]
    exact ⟨⟨.op .div, hcomment⟩, ⟨@Spells.number ['0', '7'] (by decide)
      (List.all_eq_true.1 (by decide)) (by decide), hline⟩,
      ⟨@Spells.string ['*', '/', '\n', '#'] (by decide), hblanks⟩, by simp⟩
  obtain ⟨ts, hts, hkinds, hlines⟩ := tokenize_spaced.2 _ _ hlead hws
  exact ⟨hlead, hws, ts, hts, hkinds, hlines (spacedQuotient.take 2) _ [] rfl⟩

end MiniC
