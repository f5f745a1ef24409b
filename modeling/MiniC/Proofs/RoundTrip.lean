import MiniC.Proofs.WrittenProgram

/-!
# A written program reads back as itself

The text of a program that was read from a source has tokens, and with `int` restored these are
read as the program again. The leaves of the program were tokens of the source, so they can be
spelled (`Program.exists_spells_of_mem_leaves`), and the lines of the layout read back as the
frontier of a resolved derivation, which the reader follows (`Derivation.parse`).

Only strings change: the text between their quotes is the escaped one. A program with a function
`main` has a call of it at the end.
-/

namespace MiniC

open Lexeme

theorem Kind.restore_ne_eof {k : Kind} (h : k ≠ .eof) : k.restore ≠ .eof := by
  cases k with
  | ident x =>
    simp only [Kind.restore]
    split <;> rintro ⟨⟩
  | eof => exact absurd rfl h
  | _ => exact h

theorem Kind.restore_eq_self {k : Kind} (hlet : k ≠ .ident "let")
    (hfunction : k ≠ .ident "function") : k.restore = k := by
  cases k with
  | ident x =>
    have hx : ¬ (x = "let" ∨ x = "function") := by
      rintro (rfl | rfl)
      · exact hlet rfl
      · exact hfunction rfl
    simp only [Kind.restore, if_neg hx]
  | _ => rfl

namespace Program

/-- The tokens of a source, without its end, make up the stream that is read. -/
theorem exists_tokens_of_tokenize {source : String} {ts : List Token}
    (h : tokenize source = .ok ts) : ∃ us line, ts = us ++ [⟨.eof, line⟩] ∧
      (Stream.ofTokens ts).tokens = us ∧ ∀ u ∈ us, ∃ text, Spells u.kind text := by
  obtain ⟨us, line, rfl, hspells⟩ := exists_spells_of_tokenize h
  refine ⟨us, line, rfl, ?_, hspells⟩
  apply tokens_ofTokens_append_eof
  intro u hu
  obtain ⟨text, htext⟩ := hspells u hu
  exact htext.ne_eof

theorem exists_spells_of_mem_leaves {source : String} {ts : List Token} {d : Derivation}
    (hlex : tokenize source = .ok ts)
    (hd : d.frontier = (Stream.ofTokens ts).tokens.map Token.kind) {k : Kind}
    (hk : k ∈ d.program.leaves) : ∃ text, Spells k text := by
  obtain ⟨us, line, -, hus, hspells⟩ := exists_tokens_of_tokenize hlex
  have hmem := d.leaves_subset hk
  rw [hd, hus] at hmem
  obtain ⟨u, hu, rfl⟩ := List.mem_map.1 hmem
  exact hspells u hu

theorem plain_of_mem_parts {p : Program} (hleaves : ∀ k ∈ p.leaves, k.Plain)
    (hprintf : "printf" ∉ p.callees) : ∀ part ∈ p.parts, part.Plain := by
  intro part hpart
  have hmem : part.leaves ⊆ p.leaves := fun k hk => List.mem_flatMap.2 ⟨part, hpart, hk⟩
  cases part with
  | name x => exact hleaves _ (hmem List.mem_cons_self)
  | expr e =>
    refine ⟨fun k hk => hleaves k (hmem hk), fun hf => hprintf ?_⟩
    exact List.mem_flatMap.2 ⟨.expr e, hpart, hf⟩

end Program

/-- Restored tokens of the kinds of a derivation are the stream it derives. -/
theorem tokens_ofTokens_restore {text : String} {us : List Token} {ks : List Kind}
    (hlex : tokenize text = .ok us)
    (hks : us.map (fun u => u.restore.kind) = ks ++ [.eof]) :
    (Stream.ofTokens (us.map Token.restore)).tokens.map Token.kind = ks := by
  obtain ⟨vs, line, rfl, -, hspells⟩ := Program.exists_tokens_of_tokenize hlex
  have heof : ∀ v ∈ vs.map Token.restore, v.kind ≠ .eof := by
    intro v hv
    obtain ⟨u, hu, rfl⟩ := List.mem_map.1 hv
    obtain ⟨spelling, hspelling⟩ := hspells u hu
    exact Kind.restore_ne_eof hspelling.ne_eof
  have htokens := Program.tokens_ofTokens_append_eof heof line
  have hrestore : (vs ++ [Token.mk .eof line]).map Token.restore =
      vs.map Token.restore ++ [Token.mk .eof line] := List.map_append
  rw [List.map_append] at hks
  rw [hrestore, htokens, List.map_map]
  exact List.append_inj_left' hks rfl

namespace Program

/-- The text of a program is read as the program, with its strings escaped and `main` called. -/
theorem parse_generate {source : String} {ts : List Token} {p : Program}
    (hlex : tokenize source = .ok ts) (hparse : parse ts = .ok p)
    (hprintf : "printf" ∉ p.callees) (hlet : .ident "let" ∉ p.leaves)
    (hfunction : .ident "function" ∉ p.leaves) :
    ∃ text us, p.generate = .ok text ∧ tokenize text = .ok us ∧
      parse (us.map Token.restore) = .ok ⟨p.body.map Stmt.quoteStrings ++
        if p.hasMain then [.eval (.call "main" [])] else []⟩ := by
  obtain ⟨d, hfrontier, hresolved, rfl⟩ := parse_eq_ok_iff_exists_resolved.1 hparse
  have hleaves : ∀ k ∈ d.program.leaves, k.Plain := by
    intro k hk
    refine ⟨exists_spells_of_mem_leaves hlex hfrontier hk, ?_⟩
    apply Kind.restore_eq_self
    · rintro rfl
      exact hlet hk
    · rintro rfl
      exact hfunction hk
  have hlines := d.writesLines (plain_of_mem_parts hleaves hprintf) 0
  obtain ⟨us, hus, hks⟩ := hlines.tokenize_renderAll
  refine ⟨_, us, generate_eq_ok (d.error_emit 0), hus, ?_⟩
  rw [← d.program_reprint]
  exact Derivation.parse (Derivation.resolved_reprint hresolved) (tokens_ofTokens_restore hus hks)

/-- Strings are escaped, an assignment that is an operand keeps its brackets, and `main` is called.
-/
theorem parse_generate_main : ∃ text us,
    Program.generate ⟨[.function "main" ["a"] [.eval (.call "f" [.string "\t/*",
      .assign "x" (.binary .mul (.assign "y" (.literal 1)) (.variable "a"))])]]⟩ = .ok text ∧
    tokenize text = .ok us ∧
    parse (us.map Token.restore) = .ok ⟨[.function "main" ["a"] [.eval (.call "f"
      [.string "\\t/*", .assign "x" (.binary .mul (.assign "y" (.literal 1)) (.variable "a"))])],
      .eval (.call "main" [])]⟩ := by
  have hlex : tokenize "int main(int a)\x7bf(\"\t/*\",x=(y=01)*a);\x7d" = .ok
      ([.keyword .int, .ident "main", .mark .lparen, .keyword .int, .ident "a", .mark .rparen,
        .mark .lbrace, .ident "f", .mark .lparen, .string "\t/*", .mark .comma, .ident "x",
        .mark .assign, .mark .lparen, .ident "y", .mark .assign, .number 1, .mark .rparen, .op .mul,
        .ident "a", .mark .rparen, .mark .semicolon, .mark .rbrace, .eof].map (⟨·, 1⟩)) := by
    cbv
  exact parse_generate hlex (by cbv) (by decide) (by decide) (by decide)

end Program

end MiniC
