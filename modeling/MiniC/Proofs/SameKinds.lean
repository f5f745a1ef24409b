import MiniC.Proofs.EarliestError

/-!
# Streams of the same kinds are read alike

A reader looks at the kind of a token only, and nothing behind the first end token is read. So two
streams whose kinds agree that far go through the same states, one token after the other
(`Program.readFrom_same_kinds`). They end with the same program, or are refused at the same place
for the same reason; the lines of the two errors are those of the tokens there.
-/

namespace MiniC

/-- Two tokens of one kind lead to the same state, or are refused for the same reason. -/
theorem Stmt.Reader.step_same_kind {t t' : Token} (h : t.kind = t'.kind) (r : Stmt.Reader) :
    (∃ r', r.step t = .ok r' ∧ r.step t' = .ok r') ∨
      ∃ e, r.step t = .error e ∧ r.step t' = .error (e.relabel t') := by
  have hrelabel := step_relabel h r
  rcases hs : r.step t with e | r' <;> rw [hs] at hrelabel
  · exact .inr ⟨e, rfl, hrelabel⟩
  · exact .inl ⟨r', rfl, hrelabel⟩

/-- The kinds of a stream are those of the closed tokens up to the first end token. -/
theorem Stream.map_kind_tokens {ts : List Token} {ks : List Kind} (hks : .eof ∉ ks)
    (h : ks ++ [.eof] <+: (closed ts).map Token.kind) :
    (ofTokens ts).tokens.map Token.kind = ks := by
  obtain ⟨after, hclosed⟩ := exists_closed_eq ts
  obtain ⟨more, hmore⟩ := h
  have htake (ls rest : List Kind) (hls : .eof ∉ ls) :
      (ls ++ .eof :: rest).takeWhile (fun k => decide (k ≠ .eof)) = ls := by
    rw [List.takeWhile_append_of_pos]
    · simp
    · intro k hk
      rw [decide_eq_true_iff]
      rintro rfl
      exact hls hk
  -- both are what stands in front of the first end token
  rw [hclosed, List.map_append, List.append_assoc] at hmore
  calc (ofTokens ts).tokens.map Token.kind
      = ((ofTokens ts).tokens.map Token.kind ++ .eof :: after.map Token.kind).takeWhile
          (fun k => decide (k ≠ .eof)) := (htake _ _ (Program.eof_notMem_tokens ts)).symm
    _ = (ks ++ .eof :: more).takeWhile (fun k => decide (k ≠ .eof)) :=
        congrArg (List.takeWhile _) hmore.symm
    _ = ks := htake ks more hks

/-- A place up to the end of the stream is the same place in the closed tokens. -/
theorem Stream.getElem?_closed {ts : List Token} {k : Nat} {t : Token}
    (h : ((ofTokens ts).tokens ++ [(ofTokens ts).eof])[k]? = some t) :
    (closed ts)[k]? = some t := by
  obtain ⟨after, hclosed⟩ := exists_closed_eq ts
  obtain ⟨hlt, -⟩ := List.getElem?_eq_some_iff.1 h
  rw [hclosed, List.append_cons, List.getElem?_append_left hlt, h]

namespace Program

open Stmt (Reader)

theorem readFrom_same_kinds {endLine endLine' : Nat} {ts us : List Token} {r : Reader}
    (hkinds : ts.map Token.kind = us.map Token.kind) :
    (∃ p, (readFrom r endLine ts).result = .ok p ∧ (readFrom r endLine' us).result = .ok p) ∨
      ∃ (e : ParseError) (u : Token) (k : Nat), (readFrom r endLine ts).result = .error e ∧
        (readFrom r endLine' us).result = .error (e.relabel u) ∧ u.kind = e.found.kind ∧
        (ts ++ [⟨.eof, endLine⟩])[k]? = some e.found ∧
        (us ++ [⟨.eof, endLine'⟩])[k]? = some u := by
  induction ts generalizing us r with
  | nil =>
    rw [List.map_eq_nil_iff.1 hkinds.symm]
    have hkind : (Token.mk .eof endLine).kind = (Token.mk .eof endLine').kind := rfl
    rcases r.step_same_kind hkind with ⟨r', h, h'⟩ | ⟨e, h, h'⟩
    · exact .inl ⟨⟨r'.items⟩, by simp [readFrom, h, h', Outcome.result]⟩
    · refine .inr ⟨e, ⟨.eof, endLine'⟩, 0, ?_⟩
      simp [readFrom, h, h', Outcome.result, Reader.found_of_step h]
  | cons t ts ih =>
    obtain ⟨u, us, rfl, hkind, hrest⟩ := List.map_eq_cons_iff.1 hkinds.symm
    rcases r.step_same_kind hkind.symm with ⟨r', h, h'⟩ | ⟨e, h, h'⟩
    · simp only [readFrom, h, h', List.cons_append]
      rcases ih hrest.symm with hok | ⟨e, v, k, hfail⟩
      · exact .inl hok
      · refine .inr ⟨e, v, k + 1, ?_⟩
        rw [List.getElem?_cons_succ, List.getElem?_cons_succ]
        exact hfail
    · refine .inr ⟨e, u, 0, ?_⟩
      simp [readFrom, h, h', Outcome.result, Reader.found_of_step h, hkind]

/-- Streams whose kinds agree up to the first end token give the same program, or are refused at
the same place and for the same reason. -/
theorem parse_same_kinds {ts us : List Token} {ks : List Kind} (hks : .eof ∉ ks)
    (hts : ks ++ [.eof] <+: (Stream.closed ts).map Token.kind)
    (hus : ks ++ [.eof] <+: (Stream.closed us).map Token.kind) :
    (∃ p, parse ts = .ok p ∧ parse us = .ok p) ∨
      ∃ e e' k, parse ts = .error e ∧ parse us = .error e' ∧
        e' = e.relabel e'.found ∧ e'.found.kind = e.found.kind ∧ k ≤ ks.length ∧
        (Stream.closed ts)[k]? = some e.found ∧ (Stream.closed us)[k]? = some e'.found := by
  have hkinds := Stream.map_kind_tokens hks hts
  have hkinds' := Stream.map_kind_tokens hks hus
  rcases readFrom_same_kinds (hkinds.trans hkinds'.symm) with hok | ⟨e, u, k, he, he', hu, hk, hk'⟩
  · exact .inl hok
  · have hle : k ≤ ks.length := by
      obtain ⟨hlt, -⟩ := List.getElem?_eq_some_iff.1 hk
      rw [List.length_append, List.length_singleton, ← List.length_map Token.kind, hkinds] at hlt
      omega
    refine .inr ⟨e, e.relabel u, k, he, he', ?_⟩
    rw [e.found_relabel]
    exact ⟨rfl, hu, hle, Stream.getElem?_closed hk, Stream.getElem?_closed hk'⟩

/-- `x y` on one line without an end token, and on two lines with more behind its end. -/
theorem parse_same_kinds_unfinished :
    let ts : List Token := [⟨.ident "x", 1⟩, ⟨.ident "y", 1⟩]
    let us : List Token := [⟨.ident "x", 3⟩, ⟨.ident "y", 4⟩, ⟨.eof, 4⟩, ⟨.mark .semicolon, 2⟩]
    [.ident "x", .ident "y", .eof] <+: (Stream.closed ts).map Token.kind ∧
      [.ident "x", .ident "y", .eof] <+: (Stream.closed us).map Token.kind ∧
      ∃ e e' k, parse ts = .error e ∧ parse us = .error e' ∧
        e' = e.relabel e'.found ∧ e'.found.kind = e.found.kind ∧ k ≤ 2 ∧
        (Stream.closed ts)[k]? = some e.found ∧ (Stream.closed us)[k]? = some e'.found := by
  intro ts us
  have hts : [Kind.ident "x", .ident "y"] ++ [.eof] <+: (Stream.closed ts).map Token.kind := by
    decide
  have hus : [Kind.ident "x", .ident "y"] ++ [.eof] <+: (Stream.closed us).map Token.kind := by
    decide
  refine ⟨hts, hus, ?_⟩
  rcases parse_same_kinds (by decide) hts hus with ⟨p, hp, -⟩ | hfail
  · cases hp
  · exact hfail

end Program

end MiniC
