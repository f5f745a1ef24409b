import MiniC.Proofs.EmittedLines
import MiniC.Proofs.WordSpans

/-!
# Strings in the spans of a line

On a line that is written, the strings are coloured as strings, each of them from its first quote to
its last, and nothing is coloured as a comment.

Of the spans of a text only the strings and comments matter here (`proseOf`), and these do not
depend on the word that is being read, so they can be found piece by piece: plain text has none
(`proseOf_append`), and a quoted string is one (`proseOf_quoted`), since the colours and
`untilQuote` stop at the same quote. A line is such pieces (`Quotes`).
-/

namespace MiniC

open Lexeme

namespace Highlight

/-- The texts of the spans in a colour. -/
def coloured (color : Color) (spans : List Span) : List String :=
  (spans.filter (·.style.fg = some color)).map Span.text

/-- The strings and comments among the spans. -/
def prose (spans : List Span) : List Span := spans.filter (IsProse ·)

theorem prose_append (ss ts : List Span) : prose (ss ++ ts) = prose ss ++ prose ts :=
  List.filter_append ss ts

theorem coloured_prose {color : Color} (h : color = Palette.string ∨ color = Palette.comment)
    (spans : List Span) : coloured color (prose spans) = coloured color spans := by
  rw [coloured, prose, List.filter_filter, coloured]
  congr 2
  funext s
  rcases h with rfl | rfl <;> simp +contextual [IsProse]

theorem coloured_eq_map {color : Color} {spans : List Span}
    (h : ∀ s ∈ spans, s.style.fg = some color) : coloured color spans = spans.map Span.text := by
  rw [coloured, List.filter_eq_self.2 (by simpa using h)]

theorem coloured_eq_nil {color : Color} {spans : List Span}
    (h : ∀ s ∈ spans, s.style.fg ≠ some color) : coloured color spans = [] := by
  rw [coloured, List.filter_eq_nil_iff.2 (by simpa using h), List.map_nil]

theorem prose_wordSpan (lang : Language) (word : List Char) (next : Option Char) :
    prose (wordSpan lang word next) = [] := by
  have hstyle : ¬ IsProse ⟨String.ofList word, wordStyle lang (String.ofList word) next⟩ := by
    dsimp only [IsProse]
    unfold wordStyle
    split_ifs <;> decide
  unfold wordSpan
  split
  · rfl
  · simp [prose, hstyle]

theorem prose_code (lang : Language) (word cs : List Char) :
    prose (spansFrom lang (.code word) cs) = prose (spansFrom lang (.code []) cs) := by
  induction cs generalizing word with
  | nil => rw [spansFrom, spansFrom, prose_wordSpan, prose_wordSpan]
  | cons c cs ih =>
    by_cases hname : isNameChar c = true
    · rw [spansFrom, spansFrom, if_pos hname, if_pos hname, ih, ih ([] ++ [c])]
    · rw [spansFrom, spansFrom, if_neg hname, if_neg hname, prose_append, prose_append,
        prose_wordSpan, prose_wordSpan]

/-- The strings and comments of a text. -/
def proseOf (lang : Language) (cs : List Char) : List Span := prose (spansFrom lang (.code []) cs)

theorem proseOf_nil (lang : Language) : proseOf lang [] = [] := prose_wordSpan lang [] none

/-- A character that starts neither a string nor a comment is passed over. -/
theorem proseOf_cons (lang : Language) {c : Char} {cs : List Char} (hquote : c ≠ '"')
    (hhash : c ≠ '#') (hslash : ¬ (c = '/' ∧ cs.head? = some '/')) :
    proseOf lang (c :: cs) = proseOf lang cs := by
  have hstyle : ¬ IsProse ⟨String.singleton c, charStyle c⟩ := by
    dsimp only [IsProse]
    unfold charStyle
    rw [if_neg hhash]
    split_ifs <;> decide
  by_cases hname : isNameChar c = true
  · rw [proseOf, spansFrom, if_pos hname]
    exact prose_code lang _ cs
  · rw [proseOf, spansFrom, if_neg hname, prose_append, prose_wordSpan, if_neg hslash,
      if_neg hquote]
    simp [prose, proseOf, hstyle]

theorem proseOf_append (lang : Language) {xs : List Char} (hquote : '"' ∉ xs) (hhash : '#' ∉ xs)
    (hslash : '/' ∉ xs) (cs : List Char) : proseOf lang (xs ++ cs) = proseOf lang cs := by
  induction xs with
  | nil => rfl
  | cons c xs ih =>
    rw [List.mem_cons, not_or] at hquote hhash hslash
    rw [List.cons_append, proseOf_cons lang (Ne.symm hquote.1) (Ne.symm hhash.1)
      fun h => hslash.1 h.1.symm, ih hquote.2 hhash.2 hslash.2]

def stringSpan (text : List Char) : Span := ⟨String.ofList text, .ofFg Palette.string⟩

theorem proseOf_string (lang : Language) (cs : List Char) :
    proseOf lang ('"' :: cs) = prose (spansFrom lang (.string ['"'] false) cs) := by
  rw [proseOf, spansFrom, if_neg (by decide), prose_append, prose_wordSpan, if_neg (by simp),
    if_pos rfl]
  rfl

/-- A string ends at its first quote that is not escaped. -/
theorem spansFrom_of_untilQuote (lang : Language) {cs body rest : List Char}
    (h : untilQuote cs = some (body, rest)) (text : List Char) :
    spansFrom lang (.string text false) cs =
      stringSpan (text ++ body ++ ['"']) :: spansFrom lang (.code []) rest := by
  refine untilQuote_induction (motive := fun cs body => ∀ text,
    spansFrom lang (.string text false) cs =
      stringSpan (text ++ body ++ ['"']) :: spansFrom lang (.code []) rest) ?_ ?_ ?_ h text
  · intro text
    rw [spansFrom, if_pos ⟨rfl, rfl⟩, List.append_nil]
    rfl
  · intro c cs body ih text
    have hrest := ih (text ++ ['\\'] ++ [c])
    rw [spansFrom, if_neg (by simp), spansFrom, if_neg (by simp)]
    simpa using hrest
  · intro c cs body hquote hback ih text
    have hrest := ih (text ++ [c])
    rw [spansFrom, if_neg fun h => hquote h.1, beq_eq_false_iff_ne.2 hback]
    simpa using hrest

/-- The span of a quoted string. -/
def quotedSpan (raw : String) : Span := ⟨quoted raw, .ofFg Palette.string⟩

theorem proseOf_quoted (lang : Language) (raw : String) (cs : List Char) :
    proseOf lang ((quoted raw).toList ++ cs) = quotedSpan raw :: proseOf lang cs := by
  have hbody := spansFrom_of_untilQuote lang (untilQuote_quoteBody raw.toList cs) ['"']
  have htext : stringSpan (['"'] ++ quoteBody raw.toList ++ ['"']) = quotedSpan raw := by
    rw [stringSpan, quotedSpan, quoted]
    rfl
  rw [toList_quoted, List.cons_append, List.append_assoc, proseOf_string, List.singleton_append,
    hbody, htext]
  rfl

end Highlight

open Highlight

/-! ## Strings of a text that is written -/

theorem Quotes.proseOf_append {text : String} {raws : List String} (h : Quotes text raws)
    (lang : Language) (cs : List Char) :
    proseOf lang (text.toList ++ cs) = raws.map quotedSpan ++ proseOf lang cs := by
  induction h generalizing cs with
  | @plain text h =>
    have hplain {c : Char} (hc : isPlain c = false) : c ∉ text.toList := by
      intro hmem
      cases (List.all_eq_true.1 h c hmem).symm.trans hc
    exact Highlight.proseOf_append lang (hplain (by decide)) (hplain (by decide))
      (hplain (by decide)) cs
  | slash =>
    have hslash : proseOf lang ('/' :: ' ' :: cs) = proseOf lang (' ' :: cs) :=
      proseOf_cons lang (by decide) (by decide) (by simp)
    exact hslash.trans (proseOf_cons lang (by decide) (by decide) (by simp))
  | quoted raw => exact proseOf_quoted lang raw cs
  | append ha hb iha ihb =>
    rw [String.toList_append, List.append_assoc, iha, ihb, List.map_append, List.append_assoc]

theorem Quotes.prose_render {l : Line} {raws : List String} (h : Quotes l.text raws)
    (lang : Language) : prose (highlight lang l.render) = raws.map quotedSpan := by
  have hblanks (c : Char) (hc : c ≠ ' ') : c ∉ List.replicate (4 * l.depth) ' ' :=
    fun hmem => hc (List.eq_of_mem_replicate hmem)
  have hprose : prose (highlight lang l.render) =
      proseOf lang (List.replicate (4 * l.depth) ' ' ++ (l.text.toList ++ [])) := by
    rw [highlight, Line.render, String.toList_append, String.toList_ofList, List.append_nil]
    rfl
  rw [hprose, Highlight.proseOf_append lang (hblanks _ (by decide)) (hblanks _ (by decide))
    (hblanks _ (by decide)), h.proseOf_append, proseOf_nil, List.append_nil]

/-- On a line of the row's statement, the spans with the colour of strings are the strings of the
expressions there, and none has the colour of comments. -/
def Row.Colours (r : Row) (line : String) : Prop :=
  ∃ es, r.stmt.HasLine es (unindented line) ∧
    coloured Palette.string (highlight .javascript line) =
      (es.flatMap Expr.strings).map quoted ∧
    coloured Palette.comment (highlight .javascript line) = []

theorem colours_render {rs : List Row} {ls : List Line} (h : List.Forall₂ Row.Holds rs ls)
    (htidy : AllTidy ls) : List.Forall₂ Row.Colours rs (ls.map Line.render) := by
  induction h with
  | nil => exact .nil
  | @cons r l rs ls hholds h ih =>
    rw [allTidy_cons] at htidy
    obtain ⟨es, hline, hquotes⟩ := hholds
    have hprose := hquotes.prose_render .javascript
    have hstyle : ∀ s ∈ (es.flatMap Expr.strings).map quotedSpan,
        s.style = .ofFg Palette.string := by
      intro s hs
      obtain ⟨raw, -, rfl⟩ := List.mem_map.1 hs
      rfl
    refine .cons ⟨es, ?_, ?_, ?_⟩ (ih htidy.2)
    · rw [unindented_render htidy.1]
      exact hline
    · rw [← coloured_prose (.inl rfl), hprose, coloured_eq_map fun s hs => by rw [hstyle s hs]; rfl,
        List.map_map]
      rfl
    · rw [← coloured_prose (.inr rfl), hprose, coloured_eq_nil fun s hs => by
        rw [hstyle s hs]
        decide]

/-- In the colours of a text that is written, the strings are those of the program line by line, and
there is no comment. -/
theorem colours_compile {source js : String} (h : compile source = .ok js) :
    ∃ p, parseSource source = .ok p ∧ List.Forall₂ Row.Colours p.rows (lines js) := by
  obtain ⟨d, hparse, hspelled, rfl⟩ := exists_derivation_of_compile h
  have htidy := Derivation.allTidy_emit hspelled
  rw [lines_renderAll htidy (getLast?_of_fits (Derivation.lays_emit hspelled).rows)]
  exact ⟨d.program, hparse, colours_render (Derivation.holds_emit hspelled) htidy⟩

/-- Strings with the signs of comments in them, and with backslashes in front of their quotes. -/
def commentSigns : String :=
  "if (x) f(\"//#\\\", \"x\") / g(\"\\\\\"); else h(\"\\\" - \"#\");"

def commentSignsText : String :=
  "if (x)\n    (f(\"//#\\\\\", \"x\") / g(\"\\\\\\\\\"));\nelse\n    h((\"\\\\\" - \"#\"));"

theorem colours_compile_commentSigns :
    compile commentSigns = .ok commentSignsText ∧
      (∃ p, parseSource commentSigns = .ok p ∧
        List.Forall₂ Row.Colours p.rows (lines commentSignsText)) ∧
      (lines commentSignsText).map (fun l => coloured Palette.string (highlight .javascript l)) =
        [[], ["\"//#\\\\\"", "\"x\"", "\"\\\\\\\\\""], [], ["\"\\\\\"", "\"#\""]] := by
  have h : compile commentSigns = .ok commentSignsText := by cbv
  exact ⟨h, colours_compile h, by cbv⟩

end MiniC
