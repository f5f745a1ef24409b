import MiniC.Proofs.Spelling
import MiniC.Token.Cursor

/-!
# A tokenized source is cut without loss

Tokens and gaps take turns in a source that has tokens. A `Piece` is a token with its spelling and
the gap behind it, and `Cut` says that pieces stand in their places: every spelling is one of its
kind, as long as it can be, and starts on the token's line.

`Cursor.exists_cut` follows the cursor over the source: a gap is put in front of the first gap of
what follows, and a token starts a new piece. From the start of a source that is the whole of it.
-/

namespace MiniC

open Lexeme

/-- A token as it stands in a source: its spelling and the gap behind it. -/
structure Piece where
  token : Token
  text : List Char
  gap : List Char

namespace Piece

/-- The piece as it is written. -/
def source (p : Piece) : List Char := p.text ++ p.gap

/-- The piece is a token on the line, if `rest` follows it. -/
structure Fits (p : Piece) (line : Nat) (rest : List Char) : Prop where
  spells : Spells p.token.kind p.text
  maximal : MaximalBefore (p.gap ++ rest) p.token.kind
  gap : Gap p.gap rest
  line_eq : p.token.line = line

end Piece

/-- The pieces stand in their places, the first of them on the line. -/
def Cut : Nat → List Piece → Prop
  | _, [] => True
  | line, p :: ps =>
    p.Fits line (ps.flatMap Piece.source) ∧ Cut (line + p.source.count '\n') ps

theorem Cut.fits {p : Piece} {after : List Piece} : ∀ {before : List Piece} {line : Nat},
    Cut line (before ++ p :: after) →
      p.Fits (line + (before.flatMap Piece.source).count '\n') (after.flatMap Piece.source)
  | [], _, h => h.1
  | q :: before, line, h => by
    have hfits : p.Fits _ _ := Cut.fits h.2
    rwa [Nat.add_assoc, ← List.count_append, ← List.flatMap_cons] at hfits

theorem exists_of_map_eq_ok {ε α β : Type} {f : α → β} {x : Except ε α} {b : β}
    (h : x.map f = .ok b) : ∃ a, x = .ok a ∧ f a = b := by
  cases x with
  | error => cases h
  | ok a => exact ⟨a, rfl, Except.ok.inj h⟩

theorem eq_error_of_map_eq_error {ε α β : Type} {f : α → β} {x : Except ε α} {e : ε}
    (h : x.map f = .error e) : x = .error e := by
  cases x with
  | error => exact congrArg Except.error (Except.error.inj h)
  | ok => cases h

theorem Cursor.exists_cut (cursor : Cursor) : ∀ ts, cursor.tokens.1 = .ok ts →
    ∃ gap ps, cursor.rest = gap ++ ps.flatMap Piece.source ∧
      ts = ps.map Piece.token ++ [⟨.eof, cursor.line + cursor.rest.count '\n'⟩] ∧
      Gap gap (ps.flatMap Piece.source) ∧ Cut (cursor.line + gap.count '\n') ps := by
  fun_induction Cursor.tokens cursor with
  | case1 line =>
    rintro ts ⟨⟩
    exact ⟨[], [], rfl, rfl, .nil, trivial⟩
  | case2 c cs line lexeme next hread ih =>
    intro ts h
    obtain ⟨gap, ps, hrest, rfl, hgap, hcut⟩ := ih ts h
    have happend : lexeme.text ++ next.rest = c :: cs := text_append_rest c cs
    refine ⟨lexeme.text ++ gap, ps, ?_, ?_, gap_of_scan hread hrest hgap, ?_⟩
    · rw [List.append_assoc, ← hrest, happend]
    · rw [← happend, List.count_append, ← Nat.add_assoc]
    · rw [List.count_append, ← Nat.add_assoc]
      exact hcut
  | case3 c cs line lexeme next kind hread read ih =>
    intro ts h
    obtain ⟨ts, hts, rfl⟩ := exists_of_map_eq_ok h
    obtain ⟨gap, ps, hrest, rfl, hgap, hcut⟩ := ih ts hts
    have happend : lexeme.text ++ next.rest = c :: cs := text_append_rest c cs
    obtain ⟨hspells, hmax⟩ := spells_of_scan hread
    refine ⟨[], ⟨⟨kind, line⟩, lexeme.text, gap⟩ :: ps, ?_, ?_, .nil, ?_, ?_⟩
    · rw [← happend, hrest, List.flatMap_cons, Piece.source, List.append_assoc, List.nil_append]
    · rw [← happend, List.count_append, ← Nat.add_assoc]
      rfl
    · exact ⟨hspells, hrest ▸ hmax, hgap, rfl⟩
    · rw [Piece.source, List.count_append, ← Nat.add_assoc]
      exact hcut
  | case4 => rintro ts ⟨⟩

/-- Every token but the last, the end of the source, has a spelling. -/
theorem exists_spells_of_tokenize {source : String} {ts : List Token}
    (h : tokenize source = .ok ts) :
    ∃ us line, ts = us ++ [⟨.eof, line⟩] ∧ ∀ u ∈ us, ∃ text, Spells u.kind text := by
  obtain ⟨gap, ps, -, hts, -, hcut⟩ := Cursor.exists_cut _ _ h
  refine ⟨_, _, hts, ?_⟩
  intro u hu
  obtain ⟨p, hp, rfl⟩ := List.mem_map.1 hu
  obtain ⟨before, after, rfl⟩ := List.append_of_mem hp
  exact ⟨p.text, hcut.fits.spells⟩

/-- No character of a source with tokens is lost. -/
theorem tokenize_splits_source {source : String} {ts : List Token} (h : tokenize source = .ok ts) :
    ∃ gap ps, source.toList = gap ++ ps.flatMap Piece.source ∧
      ts = ps.map Piece.token ++ [⟨.eof, 1 + source.toList.count '\n'⟩] ∧
      (∀ p ∈ ps, p.token.kind ≠ .eof) ∧
      Gap gap (ps.flatMap Piece.source) ∧
      ∀ before p after, ps = before ++ p :: after →
        p.Fits (1 + (gap ++ before.flatMap Piece.source).count '\n')
          (after.flatMap Piece.source) := by
  obtain ⟨gap, ps, hsource, hts, hgap, hcut⟩ := Cursor.exists_cut _ _ h
  have hfits : ∀ before p after, ps = before ++ p :: after →
      p.Fits (1 + (gap ++ before.flatMap Piece.source).count '\n')
        (after.flatMap Piece.source) := by
    rintro before p after rfl
    rw [List.count_append, ← Nat.add_assoc]
    exact hcut.fits
  refine ⟨gap, ps, hsource, hts, ?_, hgap, hfits⟩
  intro p hp heof
  obtain ⟨before, after, heq⟩ := List.append_of_mem hp
  have hspells := (hfits before p after heq).spells
  rw [heof] at hspells
  cases hspells

/-- A directive, comments of both sorts and a string over two lines. -/
def gapped : String := "#d\nif <= /* =\n*/ 07\"\n//\"x1// \""

theorem tokenize_splits_source_gapped :
    ∃ gap ps, gapped.toList = gap ++ ps.flatMap Piece.source ∧
      ps.map Piece.token = [⟨.keyword .if_, 2⟩, ⟨.op .le, 2⟩, ⟨.number 7, 3⟩,
        ⟨.string "\n//", 3⟩, ⟨.ident "x1", 4⟩] ∧
      Gap gap (ps.flatMap Piece.source) ∧
      ∀ before p after, ps = before ++ p :: after →
        p.Fits (1 + (gap ++ before.flatMap Piece.source).count '\n')
          (after.flatMap Piece.source) := by
  have h : tokenize gapped = .ok [⟨.keyword .if_, 2⟩, ⟨.op .le, 2⟩, ⟨.number 7, 3⟩,
      ⟨.string "\n//", 3⟩, ⟨.ident "x1", 4⟩, ⟨.eof, 4⟩] := by
    cbv
  obtain ⟨gap, ps, hsource, hts, -, hgap, hfits⟩ := tokenize_splits_source h
  exact ⟨gap, ps, hsource, (List.append_inj_left' hts rfl).symm, hgap, hfits⟩

end MiniC
