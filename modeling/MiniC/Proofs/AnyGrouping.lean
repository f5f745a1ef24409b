import MiniC.Proofs.OperatorGrouping
import MiniC.Proofs.Spacing
import MiniC.Proofs.WrittenExpr

/-!
# Expressions under any grouping

The text of an expression has brackets around every binary expression, so a chain in it has at most
two operands, and there is only one way to group those. Whatever the levels of the operators, and to
whichever side they lean, the text is read as the expression it was written for.
-/

namespace MiniC

open Lexeme Grammar

/-- A part of a text with nothing behind it has an end token behind its own. -/
theorem Lexes.tokenize {text : String} {ks : List Kind} (h : Lexes Ends text ks) :
    ∃ ts line, ts.map Token.kind = ks ∧ tokenize text = .ok (ts ++ [⟨.eof, line⟩]) := by
  obtain ⟨ts, line, hts, hread⟩ := h [] 1 (by simp [Ends])
  have hend : (Cursor.mk [] line).tokens.1 = .ok [⟨.eof, line⟩] := by rw [Cursor.tokens]
  rw [List.append_nil, hend] at hread
  exact ⟨ts, line, hts, hread⟩

/-- Each leaf of the expression is a number, a name or a string of the language. Its text is then
read up to its end, with any levels and leaning to any side, as the same expression, except that
its strings are as they stand between their quotes. -/
theorem Expr.read_script (e : Expr) (hleaves : ∀ k ∈ e.leaves, k.Writable)
    (hcallees : "printf" ∉ e.callees) (g : Grouping) (hg : ∀ o, 1 ≤ g.level o) :
    ∃ ts line, tokenize e.script = .ok (ts ++ [⟨.eof, line⟩]) ∧
      Expr.Reader.start.read g (ts ++ [⟨.eof, line⟩]) =
        some (.ok (e.quoteStrings, [⟨.eof, line⟩])) := by
  have hspells : ∀ k ∈ e.leaves, ∃ text, Spells k text :=
    fun k hk => k.writable_iff_exists_spells.1 (hleaves k hk)
  obtain ⟨ts, line, hts, htokens⟩ := (e.lexes_script hspells hcallees).tokenize
  have hresolved : (Chain.last e.written).Resolved := e.resolved_written
  have heof : Expr.Reader.Ends Kind.eof := ⟨⟨by simp, by simp⟩, by simp⟩
  have hread := Chain.read_tree hg hresolved hts (t := ⟨.eof, line⟩) heof []
  rw [Chain.tree, e.tree_written] at hread
  exact ⟨ts, line, htokens, hread⟩

/-- Assignments as an operand, a value and an argument, with names that are words of the output. -/
def nestedExpr : Expr :=
  .binary .sub (.assign "let" (.assign "x" (.binary .mul (.literal 9223372036854775807)
      (.variable "x"))))
    (.binary .sub (.binary .or (.variable "x") (.binary .add (.variable "x") (.literal 0)))
      (.call "function" [.assign "s" (.string "\\\n"), .call "_0" []]))

/-- The strong operators are the weak ones, and they lean to the left. -/
def invertedGrouping : Grouping := ⟨fun o => 7 - o.precedence, .left⟩

theorem read_script_nested :
    nestedExpr.script = "((let = x = (9223372036854775807 * x)) - ((x || (x + 0)) - " ++
        "function(s = \"\\\\\\n\", _0())))" ∧
      (∀ k ∈ nestedExpr.leaves, k.Writable) ∧ (∀ o, 1 ≤ invertedGrouping.level o) ∧
      ∃ ts line, tokenize nestedExpr.script = .ok (ts ++ [⟨.eof, line⟩]) ∧
        Expr.Reader.start.read invertedGrouping (ts ++ [⟨.eof, line⟩]) =
          some (.ok (nestedExpr.quoteStrings, [⟨.eof, line⟩])) := by
  have hname (c : Char) (cs : List Char) (hc : isNameStart c = true)
      (hcs : cs.all isNameChar = true) : (wordKind (String.ofList (c :: cs))).Writable :=
    (Kind.writable_iff_exists_spells _).2 ⟨_, spells_wordKind hc (List.all_eq_true.1 hcs)⟩
  have hx : (Kind.ident "x").Writable := hname 'x' [] (by decide) (by decide)
  have hleaves : ∀ k ∈ nestedExpr.leaves, k.Writable := by
    have hlet : (Kind.ident "let").Writable := hname 'l' ['e', 't'] (by decide) (by decide)
    have hfunction : (Kind.ident "function").Writable :=
      hname 'f' ['u', 'n', 'c', 't', 'i', 'o', 'n'] (by decide) (by decide)
    have hs : (Kind.ident "s").Writable := hname 's' [] (by decide) (by decide)
    have hcallee : (Kind.ident "_0").Writable := hname '_' ['0'] (by decide) (by decide)
    have hzero : (Kind.number 0).Writable := ⟨by decide, by decide⟩
    have hlast : (Kind.number 9223372036854775807).Writable := ⟨by decide, by decide⟩
    have hstring : (Kind.string "\\\n").Writable := by simp [Kind.Writable]
    simp [nestedExpr, Expr.leaves, Expr.argLeaves, hlet, hx, hfunction, hs, hcallee, hzero, hlast,
      hstring]
  have hlevels : ∀ o, 1 ≤ invertedGrouping.level o := by
    intro o
    cases o <;> decide
  refine ⟨by cbv, hleaves, hlevels, ?_⟩
  exact nestedExpr.read_script hleaves (by decide) invertedGrouping hlevels

end MiniC
