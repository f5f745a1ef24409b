import MiniC.Proofs.EarliestError
import MiniC.Proofs.JoinedSource
import MiniC.Proofs.LexicalFault
import MiniC.Proofs.ProgramDescent

/-!
# Reading on behind an error

A cursor in a source and a parser can be asked again after an error: what has been read stays read,
and the next reading starts behind it. It is then no different from the first reading of what is
left (`Cursor.after_start`, `Tokens.At.ofTokens_drop`); of what stood before, only its newlines
show, in the lines of the tokens.

No reading of a source or of tokens that has something left takes nothing (`Cursor.exists_front`,
`Program.exists_front`), and there is no error where nothing is left. So there are at most as many
errors as characters (`countP_add_size_le`) or tokens (`Parser.Resumed`), and a reading without
error is the last one that finds anything.
-/

namespace MiniC

open Lexeme

/-- Calls that go on from what the last one left: if one that fails leaves less, and none leaves
more, those that fail are not more than what there was at first. -/
theorem countP_add_size_le {σ ε α : Type} (call : σ → Except ε α × σ) (size : σ → ℕ)
    (hle : ∀ s, size (call s).2 ≤ size s)
    (hlt : ∀ s e, (call s).1 = .error e → size (call s).2 < size s) (s : σ) (n : ℕ) :
    (List.range n).countP (fun i => !(call ((fun s => (call s).2)^[i] s)).1.isOk) +
      size ((fun s => (call s).2)^[n] s) ≤ size s := by
  induction n with
  | zero => simp
  | succ n ih =>
    rw [List.range_succ, List.countP_append, List.countP_singleton, Function.iterate_succ_apply']
    have hnext := hle ((fun s => (call s).2)^[n] s)
    split_ifs with hfails
    · rcases hcall : (call ((fun s => (call s).2)^[n] s)).1 with e | a
      · have := hlt _ e hcall
        omega
      · rw [hcall] at hfails
        cases hfails
    · omega

/-! ## Sources -/

namespace Cursor

theorem tokens_of_rest_eq_nil {cursor : Cursor} (h : cursor.rest = []) :
    cursor.tokens = (.ok [⟨.eof, cursor.line⟩], cursor) := by
  rcases cursor with ⟨rest, line⟩
  obtain rfl : rest = [] := h
  rw [Cursor.tokens]

/-- A lexeme and what is read behind it are one front of the source, and not an empty one. -/
theorem exists_front_cons {c : Char} {cs front : List Char} {line : ℕ} {next : Cursor}
    (hrest : (scan c cs).rest = front ++ next.rest)
    (hline : next.line = line + (scan c cs).text.count '\n' + front.count '\n') :
    ∃ front, c :: cs = front ++ next.rest ∧ next.line = line + front.count '\n' ∧
      (front = [] → c :: cs = []) := by
  refine ⟨(scan c cs).text ++ front, ?_, ?_, fun h => ?_⟩
  · rw [List.append_assoc, ← hrest, text_append_rest]
  · rw [hline, List.count_append, Nat.add_assoc]
  · exact absurd (List.append_eq_nil_iff.1 h).1 (text_ne_nil c cs)

/-- A reading takes the front of what is left, all of it counted, and takes something if it can. -/
theorem exists_front (cursor : Cursor) : ∃ front, cursor.rest = front ++ cursor.tokens.2.rest ∧
    cursor.tokens.2.line = cursor.line + front.count '\n' ∧ (front = [] → cursor.rest = []) := by
  fun_induction Cursor.tokens cursor with
  | case1 line => exact ⟨[], rfl, rfl, fun _ => rfl⟩
  | case2 c cs line lexeme next hread ih =>
    obtain ⟨front, hrest, hline, -⟩ := ih
    exact exists_front_cons hrest hline
  | case3 c cs line lexeme next kind hread read ih =>
    obtain ⟨front, hrest, hline, -⟩ := ih
    exact exists_front_cons hrest hline
  | case4 c cs line lexeme next fault hread =>
    exact exists_front_cons (List.nil_append _).symm rfl

theorem length_rest_le (cursor : Cursor) :
    cursor.tokens.2.rest.length ≤ cursor.rest.length := by
  obtain ⟨front, hrest, -⟩ := cursor.exists_front
  rw [hrest, List.length_append]
  omega

theorem length_rest_lt_of_error {cursor : Cursor} {e : LexError} (h : cursor.tokens.1 = .error e) :
    cursor.tokens.2.rest.length < cursor.rest.length := by
  obtain ⟨front, hrest, -, hfront⟩ := cursor.exists_front
  have hne : front ≠ [] := by
    intro hnil
    rw [tokens_of_rest_eq_nil (hfront hnil)] at h
    cases h
  have hpos := List.length_pos_iff.2 hne
  rw [hrest, List.length_append]
  omega

/-- A reading without error goes to the end. -/
theorem rest_eq_nil_of_ok (cursor : Cursor) : ∀ ts, cursor.tokens.1 = .ok ts →
    cursor.tokens.2.rest = [] := by
  fun_induction Cursor.tokens cursor with
  | case1 => exact fun _ _ => rfl
  | case2 c cs line lexeme next hread ih => exact ih
  | case3 c cs line lexeme next kind hread read ih =>
    intro ts h
    obtain ⟨ts, hts, -⟩ := exists_of_map_eq_ok h
    exact ih ts hts
  | case4 => rintro ts ⟨⟩

/-- A string or a comment that is not closed takes all of the source with it. -/
theorem scan_rest_of_unterminated {c : Char} {cs : List Char} {f : Fault}
    (h : (scan c cs).reading = .fault f) (hf : f = .unterminatedString ∨ f = .unterminatedComment) :
    (scan c cs).rest = [] := by
  have hfault := faulty_of_scan h
  rcases hf with rfl | rfl
  · cases hfault with
    | string hquote =>
      have hscan : scan '"' cs = scanString cs := by
        simp [scan, show isBlank '"' = false by decide, show isNameStart '"' = false by decide]
      rw [hscan, scanString, cutString?_eq_none_iff.2 hquote]
  · cases hfault with
    | @comment cs hclose =>
      have hscan : scan '/' ('*' :: cs) = scanComment cs := rfl
      rw [hscan, scanComment, cutComment?_eq_none_iff.2 hclose]

theorem rest_eq_nil_of_unterminated (cursor : Cursor) : ∀ e, cursor.tokens.1 = .error e →
    e.fault = .unterminatedString ∨ e.fault = .unterminatedComment →
      cursor.tokens.2.rest = [] := by
  fun_induction Cursor.tokens cursor with
  | case1 => rintro e ⟨⟩
  | case2 c cs line lexeme next hread ih => exact ih
  | case3 c cs line lexeme next kind hread read ih =>
    intro e h
    exact ih e (eq_error_of_map_eq_error h)
  | case4 c cs line lexeme next fault hread =>
    rintro e ⟨⟩ hf
    exact scan_rest_of_unterminated hread hf

/-- The cursor behind `n` readings, whatever they gave. -/
def after (cursor : Cursor) (n : ℕ) : Cursor := (fun c => c.tokens.2)^[n] cursor

theorem after_succ (cursor : Cursor) (n : ℕ) :
    cursor.after (n + 1) = (cursor.after n).tokens.2 :=
  Function.iterate_succ_apply' _ n cursor

theorem exists_front_after (cursor : Cursor) (n : ℕ) : ∃ front,
    cursor.rest = front ++ (cursor.after n).rest ∧
      (cursor.after n).line = cursor.line + front.count '\n' := by
  induction n with
  | zero => exact ⟨[], rfl, rfl⟩
  | succ n ih =>
    obtain ⟨front, hrest, hline⟩ := ih
    obtain ⟨more, hrest', hline', -⟩ := (cursor.after n).exists_front
    refine ⟨front ++ more, ?_, ?_⟩
    · rw [after_succ, List.append_assoc, ← hrest', hrest]
    · rw [after_succ, hline', hline, List.count_append, Nat.add_assoc]

theorem after_of_rest_eq_nil {cursor : Cursor} {n k : ℕ} (h : (cursor.after n).rest = [])
    (hk : n ≤ k) : cursor.after k = cursor.after n := by
  obtain ⟨m, rfl⟩ := Nat.exists_eq_add_of_le' hk
  have hfixed : (fun c : Cursor => c.tokens.2) (cursor.after n) = cursor.after n :=
    congrArg Prod.snd (tokens_of_rest_eq_nil h)
  rw [after, Function.iterate_add_apply]
  exact Function.iterate_fixed hfixed m

/-- How many characters of a source are read in `n` readings. -/
def position (source : String) (n : ℕ) : ℕ :=
  source.toList.length - ((start source).after n).rest.length

/-- Behind `n` readings, a cursor stands at its position, on the line of that position. -/
theorem after_start (source : String) (n : ℕ) :
    position source n ≤ source.toList.length ∧
      (start source).after n = ⟨source.toList.drop (position source n),
        1 + (source.toList.take (position source n)).count '\n'⟩ := by
  obtain ⟨front, hrest, hline⟩ := (start source).exists_front_after n
  change source.toList = _ at hrest
  have hpos : position source n = front.length := by
    rw [position, hrest, List.length_append, Nat.add_sub_cancel_right]
  refine ⟨Nat.sub_le _ _, ?_⟩
  rw [hpos, hrest, List.drop_left, List.take_left]
  rcases hafter : (start source).after n with ⟨rest, line⟩
  rw [hafter] at hline
  exact congrArg (Cursor.mk rest) hline

/-- Reading a source again and again is reading what is left of it afresh, further down. A reading
that fails takes something, one that does not takes all, and so does a string or a comment that is
not closed; so there are no more errors than characters. -/
theorem tokens_resume (source : String) :
    let cs := source.toList
    let result n := ((start source).after n).tokens.1
    position source 0 = 0 ∧
    ∀ n, position source n ≤ cs.length ∧
      (start source).after n =
        ⟨cs.drop (position source n), 1 + (cs.take (position source n)).count '\n'⟩ ∧
      result n =
        ((tokenize (String.ofList (cs.drop (position source n)))).map
            (List.map (Token.down (((start source).after n).line - 1)))).mapError
          (LexError.down (((start source).after n).line - 1)) ∧
      (∀ e, result n = .error e → position source n < position source (n + 1) ∧
        (e.fault = .unterminatedString ∨ e.fault = .unterminatedComment →
          result (n + 1) = .ok [⟨.eof, 1 + cs.count '\n'⟩])) ∧
      (∀ ts, result n = .ok ts → position source (n + 1) = cs.length ∧
        ∀ k, n < k → result k = .ok [⟨.eof, 1 + cs.count '\n'⟩]) ∧
      (List.range n).countP (fun i => !(result i).isOk) ≤ cs.length := by
  intro cs result
  have hzero : position source 0 = 0 := Nat.sub_self _
  -- a reading that takes all leaves the cursor at the end, on the last line
  have hend : ∀ n, ((start source).after n).tokens.2.rest = [] →
      position source (n + 1) = cs.length ∧
        ∀ k, n < k → result k = .ok [⟨.eof, 1 + cs.count '\n'⟩] := by
    intro n hnil
    rw [← after_succ] at hnil
    have hpos : position source (n + 1) = cs.length := by
      rw [position, hnil, List.length_nil, Nat.sub_zero]
    refine ⟨hpos, fun k hk => ?_⟩
    have hline := congrArg Cursor.line (after_start source (n + 1)).2
    rw [hpos, List.take_length] at hline
    simp only [result]
    rw [after_of_rest_eq_nil hnil hk, tokens_of_rest_eq_nil hnil, hline]
  refine ⟨hzero, fun n => ?_⟩
  obtain ⟨hle, hafter⟩ := after_start source n
  refine ⟨hle, hafter, ?_, fun e he => ⟨?_, fun hf => ?_⟩, fun ts hts => ?_, ?_⟩
  · simp only [result]
    rw [hafter, Nat.add_sub_cancel_left, ← tokens_below, String.toList_ofList]
  · have hlt := length_rest_lt_of_error he
    have hlen := congrArg (List.length ∘ Cursor.rest) hafter
    simp only [Function.comp_apply, List.length_drop] at hlen
    rw [position, position, after_succ]
    omega
  · exact (hend n (rest_eq_nil_of_unterminated _ e he hf)).2 (n + 1) (Nat.lt_succ_self n)
  · exact hend n (rest_eq_nil_of_ok _ ts hts)
  · have hcount := countP_add_size_le Cursor.tokens (List.length ∘ Cursor.rest) length_rest_le
      (fun _ _ => length_rest_lt_of_error) (start source) n
    exact (Nat.le_add_right _ _).trans hcount

/-- A lone sign, a number that is too large, and a string that is not closed. -/
def threeFaults : String := "a !\n9223372036854775808 \"b\n"

theorem tokens_resume_threeFaults :
    (((start threeFaults).after 0).tokens.1 = .error ⟨.unknownChar '!', 1⟩ ∧
      ((start threeFaults).after 1).tokens.1 =
        .error ⟨.invalidNumber "9223372036854775808", 2⟩ ∧
      ((start threeFaults).after 2).tokens.1 = .error ⟨.unterminatedString, 2⟩) ∧
    position threeFaults 0 < position threeFaults 1 ∧
      position threeFaults 1 < position threeFaults 2 ∧
      position threeFaults 4 = threeFaults.toList.length ∧
      ∀ k, 2 < k → ((start threeFaults).after k).tokens.1 = .ok [⟨.eof, 3⟩] := by
  have h₀ : ((start threeFaults).after 0).tokens.1 = .error ⟨.unknownChar '!', 1⟩ := by cbv
  have h₁ : ((start threeFaults).after 1).tokens.1 =
      .error ⟨.invalidNumber "9223372036854775808", 2⟩ := by
    cbv
  have h₂ : ((start threeFaults).after 2).tokens.1 = .error ⟨.unterminatedString, 2⟩ := by cbv
  have hlines : 1 + threeFaults.toList.count '\n' = 3 := by decide
  have h := (tokens_resume threeFaults).2
  rw [hlines] at h
  have h₃ := ((h 2).2.2.2.1 _ h₂).2 (.inl rfl)
  obtain ⟨hpos, hlast⟩ := (h 3).2.2.2.2.1 _ h₃
  refine ⟨⟨h₀, h₁, h₂⟩, ((h 0).2.2.2.1 _ h₀).1, ((h 1).2.2.2.1 _ h₁).1, hpos, fun k hk => ?_⟩
  rcases Nat.eq_or_lt_of_le hk with rfl | hk
  · exact h₃
  · exact hlast k hk

end Cursor

/-! ## Parsers -/

namespace Program

/-- A reading takes the front of the tokens, and some of them if there are any. -/
theorem exists_front (endLine : ℕ) (ts : List Token) (r : Stmt.Reader) : ∃ front,
    ts = front ++ (readFrom r endLine ts).rest.tokens ∧ (front = [] → ts = []) := by
  induction ts generalizing r with
  | nil =>
    refine ⟨[], ?_⟩
    rw [readFrom]
    split <;> simp
  | cons t ts ih =>
    rw [readFrom]
    split
    · rename_i r' _
      obtain ⟨front, hts, -⟩ := ih r'
      exact ⟨t :: front, congrArg (t :: ·) hts, by simp⟩
    · exact ⟨[t], rfl, by simp⟩

theorem length_rest_lt_of_error {s : Stream} {e : ParseError} (h : (read s).result = .error e) :
    (read s).rest.tokens.length < s.tokens.length := by
  obtain ⟨front, hts, hfront⟩ := exists_front s.endLine s.tokens .start
  have hne : front ≠ [] := by
    intro hnil
    rw [read, hfront hnil] at h
    cases h
  have hpos := List.length_pos_iff.2 hne
  have hlen := congrArg List.length hts
  rw [List.length_append] at hlen
  unfold read
  omega

end Program

/-- The tokens from the cursor on are those of the stream. -/
theorem Tokens.At.ofTokens_drop {ts : Tokens} {i : ℕ} {s : Stream} (h : ts.At i s) :
    Stream.ofTokens (ts.drop i) = s := by
  obtain ⟨after, hafter⟩ := h.exists_after
  rw [hafter]
  exact Stream.ofTokens_append_eof h.ne_eof s.endLine after

namespace Parser

/-- A parser in front of its first token is at the start of the stream of its tokens. -/
theorem at_ofTokens (ts : List Token) : (ofTokens ts).tokens.At 0 (Stream.ofTokens ts) where
  exists_after := Stream.exists_closed_eq ts
  ne_eof _ ht hkind := Program.eof_notMem_tokens ts (hkind ▸ List.mem_map_of_mem ht)

/-- A new parser gives the program of its tokens. -/
theorem exists_parse_ofTokens (ts : List Token) :
    ∃ p, (ofTokens ts).parse = some (Program.parse ts, p) := by
  obtain ⟨n, -, hparse, -⟩ := exists_parse_eq (at_ofTokens ts)
  exact ⟨_, hparse⟩

/-- What is known behind some calls: the cursor is in front of the stream `s`, there were no more
failures than tokens read, and nothing is left behind a success. -/
structure Resumed (ts : List Token) (results : List (Except ParseError Program)) (position : ℕ)
    (s : Stream) : Prop where
  at_stream : (ofTokens ts).tokens.At position s
  length : position + s.tokens.length = (Stream.ofTokens ts).tokens.length
  failures : results.countP (fun r => !r.isOk) ≤ position
  finished : ∀ q, .ok q ∈ results → s.tokens = []

variable {ts : List Token} {results : List (Except ParseError Program)} {position : ℕ} {s : Stream}

/-- One more call. If it fails, it has read something, and otherwise it has read all. -/
theorem Resumed.call (h : Resumed ts results position s) : ∃ n ≤ s.tokens.length,
    (Parser.mk (ofTokens ts).tokens position).parse =
        some ((Program.read s).result, ⟨(ofTokens ts).tokens, position + n⟩) ∧
      (∀ e, (Program.read s).result = .error e → 0 < n) ∧
      (∀ q, (Program.read s).result = .ok q → n = s.tokens.length) ∧
      Resumed ts (results ++ [(Program.read s).result]) (position + n) (s.skip n) := by
  obtain ⟨n, hn, hparse, hrest⟩ := exists_parse_eq h.at_stream
  have hlen := s.length_skip n
  have hfails : ∀ e, (Program.read s).result = .error e → 0 < n := by
    intro e he
    have hlt := Program.length_rest_lt_of_error he
    rw [hrest] at hlt
    omega
  have hok : ∀ q, (Program.read s).result = .ok q → n = s.tokens.length := by
    intro q hq
    have hnil : (Program.read s).rest.tokens = [] := Program.rest_of_readFrom hq
    rw [hrest] at hnil
    rw [hnil, List.length_nil] at hlen
    omega
  refine ⟨n, hn, hparse, hfails, hok, h.at_stream.skip hn, ?_, ?_, fun q hq => ?_⟩
  · have := h.length
    omega
  · have := h.failures
    rw [List.countP_append, List.countP_singleton]
    rcases hresult : (Program.read s).result with e | q
    · have := hfails e hresult
      split <;> omega
    · exact this.trans (Nat.le_add_right _ n)
  · rcases List.mem_append.1 hq with hq | hq
    · exact congrArg (List.drop n) (h.finished q hq) |>.trans List.drop_nil
    · have := hok q (List.mem_singleton.1 hq).symm
      exact List.length_eq_zero_iff.1 (by omega)

theorem exists_resumed (ts : List Token) (n : ℕ) : ∃ results position s,
    (ofTokens ts).programs n = some (results, ⟨(ofTokens ts).tokens, position⟩) ∧
      results.length = n ∧ Resumed ts results position s := by
  induction n with
  | zero => exact ⟨[], 0, _, rfl, rfl, at_ofTokens ts, Nat.zero_add _, le_rfl, nofun⟩
  | succ n ih =>
    obtain ⟨results, position, s, hprograms, hlength, hresumed⟩ := ih
    obtain ⟨k, -, hparse, -, -, hnext⟩ := hresumed.call
    refine ⟨_, _, _, ?_, ?_, hnext⟩
    · rw [programs, hprograms]
      simp [hparse]
    · rw [List.length_append, hlength, List.length_singleton]

/-- The first end token stands right behind the stream. -/
theorem findIdx_tokens (ts : List Token) :
    (ofTokens ts).tokens.findIdx (·.kind = .eof) = (Stream.ofTokens ts).tokens.length ∧
      (Stream.ofTokens ts).tokens.length < (ofTokens ts).tokens.length := by
  obtain ⟨after, hclosed⟩ := Stream.exists_closed_eq ts
  change (Stream.closed ts).findIdx _ = _ ∧ _ < (Stream.closed ts).length
  have hnone : (Stream.ofTokens ts).tokens.findIdx (·.kind = .eof) =
      (Stream.ofTokens ts).tokens.length := by
    rw [List.findIdx_eq_length]
    exact fun t ht => decide_eq_false ((at_ofTokens ts).ne_eof t ht)
  constructor
  · rw [hclosed, List.findIdx_append, hnone, if_neg (Nat.lt_irrefl _), List.findIdx_cons]
    simp [Stream.eof]
  · rw [hclosed, List.length_append, List.length_cons]
    omega

/-- However many programs a parser has been asked for, each call ends, with a token wherever it
looks for one. It gives what a new parser gives for the tokens from the cursor on. The cursor never
moves back and never passes the first end token. A call that fails moves it, and one that does not
moves it to that end token, so there are no more failures than tokens in front of it, and only
empty programs behind a success. -/
theorem programs_resume (ts : List Token) (n : ℕ) :
    let tokens := (ofTokens ts).tokens
    let m := tokens.findIdx (·.kind = .eof)
    m < tokens.length ∧ ∃ results position,
      (ofTokens ts).programs n = some (results, ⟨tokens, position⟩) ∧ results.length = n ∧
      position ≤ m ∧ results.countP (fun r => !r.isOk) ≤ m ∧
      ∃ result next, (Parser.mk tokens position).parse = some (result, ⟨tokens, next⟩) ∧
        position ≤ next ∧ next ≤ m ∧
        (∃ q, (ofTokens (tokens.drop position)).parse = some (result, q)) ∧
        result = Program.parse (tokens.drop position) ∧
        (∀ e, result = .error e → position < next) ∧
        (∀ program, result = .ok program → next = m) ∧
        ((∃ program, .ok program ∈ results) → result = .ok ⟨[]⟩) := by
  intro tokens m
  obtain ⟨hm, hlt⟩ := findIdx_tokens ts
  change m = _ at hm
  obtain ⟨results, position, s, hprograms, hlength, hresumed⟩ := exists_resumed ts n
  obtain ⟨k, hk, hparse, hfails, hok, -⟩ := hresumed.call
  have hpos : position + s.tokens.length = m := hresumed.length.trans hm.symm
  have hfew : results.countP (fun r => !r.isOk) ≤ position := hresumed.failures
  have hfresh : (Program.read s).result = Program.parse (tokens.drop position) := by
    rw [Program.parse, ← hresumed.at_stream.ofTokens_drop]
  refine ⟨hm.trans_lt hlt, results, position, hprograms, hlength, by omega, by omega,
    (Program.read s).result, position + k, hparse, by omega, by omega, ?_, hfresh,
    fun e he => ?_, fun program hprogram => ?_, fun hsuccess => ?_⟩
  · rw [hfresh]
    exact exists_parse_ofTokens _
  · have := hfails e he
    omega
  · have := hok program hprogram
    omega
  · obtain ⟨program, hprogram⟩ := hsuccess
    rw [Program.read, hresumed.finished program hprogram]
    rfl

/-- `) x; int` on line 1 and an end token on line 2, with more behind it. -/
def twoFaults : List Token :=
  [⟨.mark .rparen, 1⟩, ⟨.ident "x", 1⟩, ⟨.mark .semicolon, 1⟩, ⟨.keyword .int, 1⟩, ⟨.eof, 2⟩,
    ⟨.mark .semicolon, 2⟩]

/-- The bracket is read by the first call, which fails, and all the rest by the second. -/
theorem programs_resume_twoFaults :
    let tokens := (ofTokens twoFaults).tokens
    (ofTokens twoFaults).programs 2 =
      some ([.error (.noOperand ⟨.mark .rparen, 1⟩), .error (.expected .ident ⟨.eof, 2⟩)],
        ⟨tokens, 4⟩) ∧
      (Parser.mk tokens 4).parse = some (.ok ⟨[]⟩, ⟨tokens, 4⟩) := by
  intro tokens
  have hat := at_ofTokens twoFaults
  have hfirst : (ofTokens twoFaults).parse =
      some (.error (.noOperand ⟨.mark .rparen, 1⟩), ⟨tokens, 1⟩) := parse_eq hat
  have hat₁ : tokens.At 1 ⟨twoFaults.tail.take 3, 2⟩ := hat.skip (n := 1) (by decide)
  have hsecond : (Parser.mk tokens 1).parse =
      some (.error (.expected .ident ⟨.eof, 2⟩), ⟨tokens, 4⟩) := parse_eq hat₁
  have hprograms : (ofTokens twoFaults).programs 2 =
      some ([.error (.noOperand ⟨.mark .rparen, 1⟩), .error (.expected .ident ⟨.eof, 2⟩)],
        ⟨tokens, 4⟩) := by
    simp [programs, hfirst, hsecond]
  obtain ⟨-, results, position, hresults, -, -, -, result, next, hparse, -, -, -, hresult, -, hok,
    -⟩ := programs_resume twoFaults 2
  cases hprograms.symm.trans hresults
  obtain rfl : result = .ok ⟨[]⟩ := hresult
  rw [hok ⟨[]⟩ rfl] at hparse
  exact ⟨hprograms, hparse⟩

end Parser

end MiniC
