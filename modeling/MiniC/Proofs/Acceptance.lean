import MiniC.Proofs.Recognition
import MiniC.Proofs.StatementReading

/-!
# The accepted streams are those the grammar derives

What is read is derived (`Program.exists_derivation`), what is derived has a resolved derivation
(`Derivation.exists_resolved`), and a stream with a resolved derivation is read as the program of
that derivation (`Derivation.parse`). So a stream is accepted exactly if it is derived, and the
program is that of every resolved derivation of it.
-/

namespace MiniC

namespace Program

/-- A program is read where a resolved derivation has it. -/
theorem parse_eq_ok_iff_exists_resolved {ts : List Token} {p : Program} :
    parse ts = .ok p ↔ ∃ d : Derivation,
      d.frontier = (Stream.ofTokens ts).tokens.map Token.kind ∧ d.Resolved ∧ d.program = p := by
  constructor
  · intro h
    obtain ⟨d, hd⟩ := exists_derivation h
    obtain ⟨d', hres, hfr⟩ := d.exists_resolved
    have hparse := Derivation.parse hres (hd.symm.trans hfr.symm)
    rw [h] at hparse
    cases hparse
    exact ⟨d', hfr.trans hd, hres, rfl⟩
  · rintro ⟨d, hfr, hres, rfl⟩
    exact Derivation.parse hres hfr.symm

theorem exists_parse_eq_ok_iff {ts : List Token} :
    (∃ p, parse ts = .ok p) ↔
      ∃ d : Derivation, d.frontier = (Stream.ofTokens ts).tokens.map Token.kind := by
  constructor
  · rintro ⟨p, h⟩
    exact exists_derivation h
  · rintro ⟨d, hd⟩
    obtain ⟨d', hres, hfr⟩ := d.exists_resolved
    exact ⟨d'.program, Derivation.parse hres (hd.symm.trans hfr.symm)⟩

/-- Nothing is left behind a program that has been read. -/
theorem rest_of_readFrom {endLine : Nat} : ∀ {ts : List Token} {r : Stmt.Reader} {p : Program},
    (readFrom r endLine ts).result = .ok p → (readFrom r endLine ts).rest.tokens = []
  | [], r, p, _ => by
    rw [readFrom]
    split <;> rfl
  | t :: ts, r, p, h => by
    rw [readFrom] at h ⊢
    split at h
    · exact rest_of_readFrom h
    · cases h

/-- The reader accepts exactly the streams that the grammar derives, uses all their tokens, and
gives the program of the resolved derivations. -/
theorem accepts_grammar (ts : List Token) (line : Nat) (h : ∀ t ∈ ts, t.kind ≠ .eof) :
    ((∃ p, parse (ts ++ [⟨.eof, line⟩]) = .ok p) ↔
        ∃ d : Derivation, d.frontier = ts.map Token.kind) ∧
      (∀ p, parse (ts ++ [⟨.eof, line⟩]) = .ok p →
        (read (.ofTokens (ts ++ [⟨.eof, line⟩]))).rest.tokens = []) ∧
      ∀ p, parse (ts ++ [⟨.eof, line⟩]) = .ok p ↔
        ∃ d : Derivation, d.frontier = ts.map Token.kind ∧ d.Resolved ∧ d.program = p := by
  have hts := tokens_ofTokens_append_eof h line
  refine ⟨?_, fun p hp => rest_of_readFrom hp, fun p => ?_⟩
  · rw [exists_parse_eq_ok_iff, hts]
  · rw [parse_eq_ok_iff_exists_resolved, hts]

/-- `if (a) if (b) x = 1 - 2 - 3; else y = z = 4;` -/
def nestedIf : List Token :=
  [.keyword .if_, .mark .lparen, .ident "a", .mark .rparen, .keyword .if_, .mark .lparen,
    .ident "b", .mark .rparen, .ident "x", .mark .assign, .number 1, .op .sub, .number 2, .op .sub,
    .number 3, .mark .semicolon, .keyword .else_, .ident "y", .mark .assign, .ident "z",
    .mark .assign, .number 4, .mark .semicolon].map (Token.mk · 1)

/-- The `else` is the inner `if`'s, and the subtractions are inside the value of `x`. -/
theorem accepts_grammar_nestedIf :
    (∀ t ∈ nestedIf, t.kind ≠ .eof) ∧
      ∃ d : Derivation, d.frontier = nestedIf.map Token.kind ∧ d.Resolved ∧
        d.program = ⟨[.ifElse (.variable "a")
          (.ifElse (.variable "b")
            (.eval (.assign "x" (.binary .sub (.literal 1)
              (.binary .sub (.literal 2) (.literal 3)))))
            (some (.eval (.assign "y" (.assign "z" (.literal 4)))))) none]⟩ := by
  have hno : ∀ t ∈ nestedIf, t.kind ≠ .eof := by decide
  exact ⟨hno, ((accepts_grammar nestedIf 1 hno).2.2 _).1 rfl⟩

end Program

end MiniC
