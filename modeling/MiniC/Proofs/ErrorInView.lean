import MiniC.Proofs.ViewerRun

/-!
# The line of an error is brought into view

A reload that succeeds, and the start of the viewer, leave a mark that the next draw takes as an
order to bring the line of the error into view (`Session.sourceOffset_settle`). Keys, resizes and
failed reloads leave the mark, the source and the diagnostic as they are (`Viewer.run_keeps`).

What a draw shows of the source is read off the cells inside the pane: only one layer of the
picture reaches them (`SourceView.cell_inside`), and it writes a numbered line in each row. The
look of the erroneous line is its own, since no other text has a background
(`Highlight.bg_of_mem_spansFrom`).
-/

namespace MiniC

/-! ## Spans -/

namespace Highlight

/-- The characters of the span that is not finished. -/
def Mode.text : Mode → List Char
  | .code word => word
  | .string text _ => text

theorem text_wordSpan (lang : Language) (word : List Char) (next : Option Char) :
    (wordSpan lang word next).flatMap (·.text.toList) = word := by
  unfold wordSpan
  split_ifs with h
  · simpa using h.symm
  · simp

/-- The spans are the text, cut into pieces. -/
theorem text_spansFrom (lang : Language) (mode : Mode) (cs : List Char) :
    (spansFrom lang mode cs).flatMap (·.text.toList) = mode.text ++ cs := by
  fun_induction spansFrom lang mode cs with
  | case1 word => simp [text_wordSpan, Mode.text]
  | case2 text => simp [Mode.text]
  | case3 word c cs hname ih => simpa [Mode.text] using ih
  | case4 word c cs hname ihString ihCode =>
    rw [List.flatMap_append, text_wordSpan]
    split_ifs
    · simp [Mode.text]
    · simpa [Mode.text] using ihString
    · simpa [Mode.text] using ihCode
  | case5 text escaped c cs hquote ih => simpa [Mode.text] using ih
  | case6 text escaped c cs hquote ih => simpa [Mode.text] using ih

theorem bg_of_mem_wordSpan (lang : Language) (word : List Char) (next : Option Char) :
    ∀ s ∈ wordSpan lang word next, s.style.bg = none := by
  unfold wordSpan
  split_ifs
  · simp
  · intro s hs
    obtain rfl := List.mem_singleton.1 hs
    unfold wordStyle
    split_ifs <;> rfl

theorem bg_of_mem_spansFrom (lang : Language) (mode : Mode) (cs : List Char) :
    ∀ s ∈ spansFrom lang mode cs, s.style.bg = none := by
  fun_induction spansFrom lang mode cs with
  | case1 word => exact bg_of_mem_wordSpan lang word none
  | case2 text => simp [Style.ofFg]
  | case3 word c cs hname ih => exact ih
  | case4 word c cs hname ihString ihCode =>
    refine List.forall_mem_append.2 ⟨bg_of_mem_wordSpan lang word _, ?_⟩
    split_ifs
    · simp [Style.ofFg]
    · exact ihString
    · refine List.forall_mem_cons.2 ⟨?_, ihCode⟩
      unfold charStyle
      split_ifs <;> rfl
  | case5 text escaped c cs hquote ih => exact List.forall_mem_cons.2 ⟨rfl, ih⟩
  | case6 text escaped c cs hquote ih => exact ih

end Highlight

theorem map_char_glyphs (spans : List Span) :
    (spans.flatMap Span.glyphs).map Glyph.char = spans.flatMap (·.text.toList) := by
  rw [List.map_flatMap]
  refine List.flatMap_congr fun s _ => ?_
  simp [Span.glyphs, Function.comp_def]

theorem exists_span_of_mem {spans : List Span} {g : Glyph} (h : g ∈ spans.flatMap Span.glyphs) :
    ∃ s ∈ spans, g.style = s.style := by
  obtain ⟨s, hs, hg⟩ := List.mem_flatMap.1 h
  obtain ⟨c, -, rfl⟩ := List.mem_map.1 hg
  exact ⟨s, hs, rfl⟩

theorem style_of_getElem? {text : String} {style : Style} {spans : List Span} {x : ℕ} {g : Glyph}
    (h : ((⟨text, style⟩ :: spans).flatMap Span.glyphs)[x]? = some g) :
    x < text.toList.length ∧ g.style = style ∨
      text.toList.length ≤ x ∧ ∃ s ∈ spans, g.style = s.style := by
  have hlen : (Span.glyphs ⟨text, style⟩).length = text.toList.length := by simp [Span.glyphs]
  rw [List.flatMap_cons] at h
  by_cases hx : x < text.toList.length
  · rw [List.getElem?_append_left (hlen ▸ hx)] at h
    obtain ⟨c, -, rfl⟩ := List.mem_map.1 (List.mem_of_getElem? h)
    exact .inl ⟨hx, rfl⟩
  · rw [List.getElem?_append_right (by omega)] at h
    exact .inr ⟨by omega, exists_span_of_mem (List.mem_of_getElem? h)⟩

/-! ## Cells -/

theorem Area.contains_iff {a : Area} {x y : ℕ} : a.contains x y = true ↔
    a.left ≤ x ∧ x < a.left + a.width ∧ a.top ≤ y ∧ y < a.top + a.height := by
  simp [contains, and_assoc]

namespace Picture

theorem cell_append {p q : Picture} {x y : ℕ} (h : ∀ l ∈ q, l.area.contains x y = false) :
    cell (p ++ q) x y = cell p x y := by
  rw [cell, List.foldl_append]
  change q.foldl _ (cell p x y) = _
  induction q with
  | nil => rfl
  | cons l q ih =>
    rw [List.forall_mem_cons] at h
    rw [List.foldl_cons, Layer.paint, h.1]
    exact ih h.2

theorem contains_of_mem_shift {left top x y : ℕ} {p : Picture} (h : x < left ∨ y < top) :
    ∀ l ∈ shift left top p, l.area.contains x y = false := by
  intro l hl
  obtain ⟨l, -, rfl⟩ := List.mem_map.1 hl
  rw [Bool.eq_false_iff, ne_eq, Area.contains_iff]
  simp only [Area.shift]
  omega

end Picture

namespace SourceView

/-- Neither the border nor the title is drawn over the rows inside the pane. -/
theorem cell_inside (view : SourceView) {width height x y : ℕ} (hx : x < width - 2)
    (hy : y < height - 2) {g : Glyph}
    (hg : ((view.shown height).map fun line =>
      (view.lineSpans line.2 line.1).flatMap Span.glyphs)[y]?.bind (·[x]?) = some g) :
    (view.picture width height).cell (x + 1) (y + 1) = Cell.empty.write g := by
  have hborder : borderChar? width height (x + 1) (y + 1) = none := by
    have hlastCol : x + 1 + 1 ≠ width := by omega
    have hlastRow : y + 1 + 1 ≠ height := by omega
    simp [borderChar?, hlastCol, hlastRow]
  have htitle : (Area.mk 1 0 (width - 2) (min 1 height)).contains (x + 1) (y + 1) = false := by
    rw [Bool.eq_false_iff, ne_eq, Area.contains_iff]
    dsimp only
    omega
  have hinside : (Area.inside width height 0).contains (x + 1) (y + 1) = true := by
    rw [Area.contains_iff]
    simp only [Area.inside]
    omega
  have hall : (Area.mk 0 0 width height).contains (x + 1) (y + 1) = true := by
    rw [Area.contains_iff]
    dsimp only
    omega
  simp only [picture, Picture.box, Picture.cell, List.cons_append, List.nil_append, List.foldl_cons,
    List.foldl_nil, Layer.paint, hall, htitle, hinside, if_true, Bool.false_eq_true, if_false,
    Drawing.paint, Nat.sub_zero, hborder]
  simp only [Area.inside, Nat.add_zero, Nat.add_sub_cancel, hg]

theorem getElem?_shown (view : SourceView) {height y : ℕ} {line : String} (hy : y < height - 2)
    (h : (lines view.source)[view.offset + y]? = some line) :
    (view.shown height)[y]? = some (line, view.offset + y + 1) := by
  have hvisible : y < Scroll.visible height := by
    unfold Scroll.visible
    omega
  rw [shown, List.getElem?_take_of_lt hvisible, List.getElem?_drop, List.getElem?_zipIdx, h]
  simp
  omega

/-- What stands in front of the line `k`. -/
def label (k : ℕ) : List Char := (alignRight 4 (toString k) ++ " ").toList

theorem map_char_lineSpans (view : SourceView) (k : ℕ) (line : String) :
    ((view.lineSpans k line).flatMap Span.glyphs).map Glyph.char = label k ++ line.toList := by
  have htext : (highlight .c line).flatMap (·.text.toList) = line.toList :=
    Highlight.text_spansFrom .c (.code []) line.toList
  rw [map_char_glyphs, lineSpans]
  split_ifs
  · rw [List.flatMap_cons, List.flatMap_map, htext]
    rfl
  · rw [List.flatMap_cons, htext]
    rfl

end SourceView

/-- The look of the erroneous line: its number has the colour of errors, its text stands on it. -/
def Cell.StandsOut (inLabel : Bool) (c : Cell) : Prop :=
  if inLabel then c.fg = Palette.error ∧ c.bold = true
  else c.fg = .white ∧ c.bg = Palette.error ∧ c.bold = true

namespace SourceView

/-- The cells of a line stand out if it is the erroneous one, and no cell of another line does. -/
theorem standsOut_iff (view : SourceView) {k x : ℕ} {line : String} {g : Glyph}
    (hg : ((view.lineSpans k line).flatMap Span.glyphs)[x]? = some g) :
    (Cell.empty.write g).StandsOut (x < (label k).length) ↔ view.errorLine = some k := by
  have hplain : ∀ s ∈ highlight .c line, s.style.bg = none :=
    Highlight.bg_of_mem_spansFrom .c (.code []) line.toList
  unfold lineSpans at hg
  unfold label
  generalize alignRight 4 (toString k) ++ " " = text at hg ⊢
  split_ifs at hg with herror
  · rw [iff_true_right herror]
    rcases style_of_getElem? hg with ⟨hx, hstyle⟩ | ⟨hx, s, hs, hstyle⟩
    · simp only [Cell.StandsOut, hx, decide_true, if_true, Cell.write, Cell.restyle, hstyle]
      exact ⟨rfl, rfl⟩
    · obtain ⟨t, -, rfl⟩ := List.mem_map.1 hs
      simp only [Cell.StandsOut, Nat.not_lt.2 hx, decide_false, Bool.false_eq_true, if_false,
        Cell.write, Cell.restyle, hstyle]
      exact ⟨rfl, rfl, rfl⟩
  · rw [iff_false_right herror]
    rcases style_of_getElem? hg with ⟨hx, hstyle⟩ | ⟨hx, s, hs, hstyle⟩
    · simp only [Cell.StandsOut, hx, decide_true, if_true, Cell.write, Cell.restyle, hstyle]
      exact fun h => absurd h.1 (by decide)
    · simp only [Cell.StandsOut, Nat.not_lt.2 hx, decide_false, Bool.false_eq_true, if_false,
        Cell.write, Cell.restyle, hstyle, hplain s hs]
      exact fun h => absurd h.2.1 (by decide)

end SourceView

/-! ## The source pane on the screen -/

namespace Session

/-- The rows inside the source pane. -/
def sourceRows (height : ℕ) : ℕ := paneHeight height - 2

/-- The columns inside the source pane. -/
def sourceColumns (width : ℕ) : ℕ := StatusBar.leftHalf width - 2

/-- The cell in a row and a column inside the source pane. -/
def sourceCell? (width height : ℕ) (s : Session) (y x : ℕ) : Option Cell :=
  (s.screen width height)[y + 1]?.bind (·[x + 1]?)

/-- A row of the source pane shows the line `k`, its number and its text as far as there is room.
Each of these cells stands out if the line is `marked`, and none does if it is not. -/
def ShowsLine (width height : ℕ) (s : Session) (y k : ℕ) (line : String) (marked : Prop) : Prop :=
  ∀ x c, x < sourceColumns width → (SourceView.label k ++ line.toList)[x]? = some c →
    ∃ cell, s.sourceCell? width height y x = some cell ∧ cell.char = c ∧
      (cell.StandsOut (x < (SourceView.label k).length) ↔ marked)

/-- The output pane and the status bar leave the source pane alone. -/
theorem sourceCell?_eq (s : Session) {width height x y : ℕ} (hx : x < sourceColumns width)
    (hy : y < sourceRows height) :
    s.sourceCell? width height y x = some ((s.sourceView.picture (StatusBar.leftHalf width)
      (paneHeight height)).cell (x + 1) (y + 1)) := by
  unfold sourceColumns at hx
  unfold sourceRows at hy
  have hwidth : x + 1 < width := by
    unfold StatusBar.leftHalf at hx
    omega
  have hheight : y + 1 < height := by
    unfold paneHeight at hy
    omega
  have hcell : (s.picture width height).cell (x + 1) (y + 1) =
      (s.sourceView.picture (StatusBar.leftHalf width) (paneHeight height)).cell (x + 1) (y + 1) :=
    (Picture.cell_append (Picture.contains_of_mem_shift (.inr (by omega)))).trans
      (Picture.cell_append (Picture.contains_of_mem_shift (.inl (by omega))))
  rw [← hcell]
  simp [sourceCell?, screen, Screen.ofPicture, hwidth, hheight]

theorem showsLine (s : Session) (width : ℕ) {height y : ℕ} {line : String}
    (hy : y < sourceRows height) (h : (lines s.source)[s.sourceOffset + y]? = some line) :
    s.ShowsLine width height y (s.sourceOffset + y + 1) line
      (s.errorLine = some (s.sourceOffset + y + 1)) := by
  intro x c hx hc
  have hshown : (s.sourceView.shown (paneHeight height))[y]? =
      some (line, s.sourceOffset + y + 1) :=
    s.sourceView.getElem?_shown hy h
  rw [← s.sourceView.map_char_lineSpans, List.getElem?_map] at hc
  obtain ⟨g, hg, rfl⟩ := Option.map_eq_some_iff.1 hc
  refine ⟨_, s.sourceCell?_eq hx hy, ?_⟩
  rw [s.sourceView.cell_inside hx hy (by rw [List.getElem?_map, hshown]; exact hg)]
  exact ⟨rfl, s.sourceView.standsOut_iff hg⟩

/-- A draw that was told to brings the line of the error into view. -/
theorem sourceOffset_settle {s : Session} {height line : ℕ} (hpending : s.pending = true)
    (herror : s.errorLine = some line) (hline : 1 ≤ line) (hle : line ≤ (lines s.source).length)
    (hrows : 1 ≤ sourceRows height) :
    (s.settle height).sourceOffset ≤ line - 1 ∧
      line - 1 < (s.settle height).sourceOffset + sourceRows height := by
  have hoffset : (s.settle height).sourceOffset =
      Scroll.clamp (Scroll.center line (sourceRows height)) (lines s.source).length
        (Scroll.visible (paneHeight height)) := by
    simp [settle, focusError, sourceView, SourceView.clamped, hpending, herror, sourceRows]
  rw [hoffset, Scroll.clamp, Scroll.center, Scroll.visible]
  unfold sourceRows at *
  omega

/-- Of all keys, only a reload that succeeds touches the source, the result or the mark. -/
theorem press_keeps {s : Session} {file : Except FileError String} {key : Key}
    (h : key = .char 'r' ∨ key = .char 'R' → ∀ text, file ≠ .ok text) :
    (s.press file key).source = s.source ∧ (s.press file key).result = s.result ∧
      (s.press file key).pending = s.pending := by
  have hscroll : ∀ f, (s.scroll f).source = s.source ∧ (s.scroll f).result = s.result ∧
      (s.scroll f).pending = s.pending := by
    intro f
    unfold scroll
    split <;> exact ⟨rfl, rfl, rfl⟩
  have hreload : (∀ text, file ≠ .ok text) → (s.reload file).source = s.source ∧
      (s.reload file).result = s.result ∧ (s.reload file).pending = s.pending := by
    intro hfile
    cases file with
    | error e => exact ⟨rfl, rfl, rfl⟩
    | ok text => exact absurd rfl (hfile text)
  unfold press
  split
  all_goals first | exact ⟨rfl, rfl, rfl⟩ | exact hscroll _ | exact hreload (h (by simp))

end Session

namespace Viewer

/-- The event is a reload that succeeds. -/
def Reloads (v : Viewer) (event : Event) : Prop :=
  (event = .press (.char 'r') ∨ event = .press (.char 'R')) ∧ ∃ text, v.file = .ok text

/-- No reload among the events succeeds. -/
def Keeps (v : Viewer) : List Event → Prop
  | [] => True
  | event :: events => ¬ v.Reloads event ∧ (v.step event).Keeps events

/-- The viewer has just been started, or it has just been reloaded in the course of a run. -/
inductive Fresh : Viewer → Prop
  | start (path source : String) (height : ℕ) (file : Except FileError String) :
      Fresh (.start path source height file)
  | reload (path source : String) (height : ℕ) (file : Except FileError String)
      (events : List Event) {event : Event}
      (h : ((start path source height file).run events).Reloads event) :
      Fresh (((start path source height file).run events).step event)

theorem Fresh.exists_recompile {v : Viewer} (h : v.Fresh) : ∃ s : Session,
    v.session = s.recompile := by
  cases h with
  | start path source height file => exact ⟨_, rfl⟩
  | reload path source height file events h =>
    obtain ⟨hevent, text, htext⟩ := h
    let s := ((Viewer.start path source height file).run events).session
    refine ⟨{ s with source := text }, ?_⟩
    rcases hevent with rfl | rfl <;> simp [step, htext, Session.press, Session.reload, s]

theorem step_keeps {v : Viewer} {event : Event} (h : ¬ v.Reloads event) :
    (v.step event).session.source = v.session.source ∧
      (v.step event).session.result = v.session.result ∧
      (event ≠ .draw → (v.step event).session.pending = v.session.pending) := by
  cases event with
  | draw => exact ⟨rfl, rfl, fun hdraw => absurd rfl hdraw⟩
  | resize | change => exact ⟨rfl, rfl, fun _ => rfl⟩
  | press key =>
    have hkey : key = .char 'r' ∨ key = .char 'R' → ∀ text, v.file ≠ .ok text := by
      intro hkey text htext
      exact h ⟨by simpa using hkey, text, htext⟩
    obtain ⟨hsource, hresult, hpending⟩ := Session.press_keeps (s := v.session) hkey
    exact ⟨hsource, hresult, fun _ => hpending⟩

theorem run_keeps {v : Viewer} {events : List Event} (h : v.Keeps events) :
    (v.run events).session.source = v.session.source ∧
      (v.run events).session.result = v.session.result ∧
      (.draw ∉ events → (v.run events).session.pending = v.session.pending) := by
  induction events generalizing v with
  | nil => exact ⟨rfl, rfl, fun _ => rfl⟩
  | cons event events ih =>
    obtain ⟨hsource, hresult, hpending⟩ := step_keeps h.1
    obtain ⟨hsource', hresult', hpending'⟩ := ih h.2
    refine ⟨hsource'.trans hsource, hresult'.trans hresult, fun hdraw => ?_⟩
    rw [List.mem_cons, not_or] at hdraw
    exact (hpending' hdraw.2).trans (hpending (Ne.symm hdraw.1))

/-- After the start and after each reload that succeeds, the first draw brings the line of the error
into view, and it is this line that stands out, and no other, in every draw until the next such
reload. -/
theorem error_in_view {v : Viewer} {d : Diagnostic} {line : ℕ} (hv : v.Fresh)
    (hd : compile v.session.source = .error d) (hline : d.line? = some line) (hone : 1 ≤ line)
    (hle : line ≤ (lines v.session.source).length) :
    (∀ events, v.Keeps events → .draw ∉ events →
      let u := (v.run events).step .draw
      1 ≤ Session.sourceRows u.height → u.session.sourceOffset ≤ line - 1 ∧
        line - 1 < u.session.sourceOffset + Session.sourceRows u.height) ∧
    ∀ events, v.Keeps events →
      let u := (v.run events).step .draw
      ∀ width y k text, y < Session.sourceRows u.height → k = u.session.sourceOffset + y + 1 →
        (lines v.session.source)[k - 1]? = some text →
          u.session.ShowsLine width u.height y k text (k = line) := by
  obtain ⟨s, hs⟩ := hv.exists_recompile
  have hresult : v.session.result = compile v.session.source := by
    rw [hs]
    rfl
  have herror : ∀ events, v.Keeps events → (v.run events).session.errorLine = some line := by
    intro events hkeeps
    rw [Session.errorLine, (run_keeps hkeeps).2.1, hresult, hd]
    exact hline
  have hpending : v.session.pending = true := by
    have hmark : v.session.pending = v.session.errorLine.isSome := by
      rw [hs]
      rfl
    rw [hmark]
    exact congrArg Option.isSome (herror [] trivial)
  constructor
  · intro events hkeeps hdraw u hrows
    obtain ⟨hsource, -, hkept⟩ := run_keeps hkeeps
    exact Session.sourceOffset_settle ((hkept hdraw).trans hpending) (herror events hkeeps) hone
      (hsource ▸ hle) hrows
  · intro events hkeeps u width y k text hy hk htext
    have hshown : (lines u.session.source)[u.session.sourceOffset + y]? = some text := by
      change (lines (v.run events).session.source)[_]? = _
      rw [(run_keeps hkeeps).1, ← htext, hk]
      rfl
    have hshows := u.session.showsLine width hy hshown
    have hmarked : u.session.errorLine = some line := herror events hkeeps
    rw [hmarked, ← hk, Option.some_inj, eq_comm] at hshows
    exact hshows

/-- The error is on the fourth line of five. -/
def misplaced : String := "a;\nb;\n\n)\n\n"

/-- A reload that finds the error, where the pane has one row. -/
def reloaded : Viewer :=
  ((start "a.c" "" 4 (.ok misplaced)).run [.draw]).step (.press (.char 'r'))

-- The first draw comes after a reload that fails, the other one after the pane has grown.
theorem error_in_view_reloaded :
    let u := (reloaded.run [.change (.error .missing), .press (.char 'r')]).step .draw
    let w := (reloaded.run [.draw, .resize 7, .press .up]).step .draw
    Session.sourceRows u.height = 1 ∧ u.session.sourceOffset = 3 ∧ w.session.sourceOffset = 1 ∧
      w.session.ShowsLine 40 w.height 2 4 ")" (4 = 4) ∧
      w.session.ShowsLine 40 w.height 0 2 "b;" (2 = 4) := by
  intro u w
  have hfresh : reloaded.Fresh :=
    .reload "a.c" "" 4 (.ok misplaced) [.draw] ⟨.inl rfl, misplaced, rfl⟩
  have hcompile : compile misplaced = .error (.parse (.noOperand ⟨.mark .rparen, 4⟩)) := by
    cbv
  have hlines : lines reloaded.session.source = ["a;", "b;", "", ")", ""] := by
    change lines misplaced = _
    cbv
  obtain ⟨hview, hrows⟩ := error_in_view hfresh hcompile rfl (by decide) (by rw [hlines]; decide)
  have hfails : reloaded.Keeps [.change (.error .missing), .press (.char 'r')] := by
    simp [Keeps, Reloads, step]
  have hgrows : reloaded.Keeps [.draw, .resize 7, .press .up] := by
    simp [Keeps, Reloads]
  have hfirst : (reloaded.step .draw).session.sourceOffset = 3 := by
    obtain ⟨hle, hlt⟩ := hview [] trivial (by simp) (by decide)
    exact Nat.le_antisymm hle (Nat.le_of_lt_succ hlt)
  have hoffset : w.session.sourceOffset = 1 := by
    change Scroll.clamp ((reloaded.step .draw).session.sourceOffset - 1)
      (lines reloaded.session.source).length 4 = 1
    rw [hfirst, hlines]
    rfl
  refine ⟨rfl, ?_, hoffset, ?_, ?_⟩
  · obtain ⟨hle, hlt⟩ := hview _ hfails (by simp) (by decide)
    exact Nat.le_antisymm hle (Nat.le_of_lt_succ hlt)
  · exact hrows _ hgrows 40 2 4 ")" (by decide) (by rw [hoffset]) (by rw [hlines]; rfl)
  · exact hrows _ hgrows 40 0 2 "b;" (by decide) (by rw [hoffset]) (by rw [hlines]; rfl)

end Viewer

end MiniC
