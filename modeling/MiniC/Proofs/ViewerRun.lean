import Mathlib
import MiniC.Viewer.Session

/-!
# Runs of the viewer

A viewer is a session with what surrounds it, the screen and the file. It is drawn, its keys are
pressed, the screen changes its size and the file its contents, in any order. Through all of this
the result on show is that of the source on show (`Viewer.run_current`): only a reload changes
either, and it changes both or, if the file cannot be read, neither.

Keys move the offsets without looking at the text. A draw brings them back, whatever state it finds
(`Session.settle_inRange`), and a key is pressed between two draws only (`Viewer.run_roundEvents`).
-/

namespace MiniC

/-- A session, the height of the screen it is drawn on, and what reading its file would give. The
width of the screen is left out: it decides what a draw shows, but not the state after it. -/
structure Viewer where
  session : Session
  height : Nat
  file : Except FileError String

namespace Viewer

inductive Event
  | draw
  | press (key : Key)
  | resize (height : Nat)
  /-- The file changes, so that reading it gives something else. -/
  | change (file : Except FileError String)

def step (v : Viewer) : Event → Viewer
  | .draw => { v with session := v.session.settle v.height }
  | .press key => { v with session := v.session.press v.file key }
  | .resize height => { v with height := height }
  | .change file => { v with file := file }

def run (v : Viewer) (events : List Event) : Viewer := events.foldl step v

/-- One round: a draw and, unless the viewer has been left, a key and a draw after it. -/
def roundEvents (quit : Bool) : Option Key → List Event
  | none => [.draw]
  | some key => if quit then [.draw] else [.draw, .press key, .draw]

/-- A new session of a source. -/
def start (path source : String) (height : Nat) (file : Except FileError String) : Viewer :=
  ⟨.start path source, height, file⟩

end Viewer

namespace Session

/-- The result on show is that of the source on show. -/
def Current (s : Session) : Prop := s.result = compile s.source

theorem current_recompile (s : Session) : s.recompile.Current := rfl

theorem current_scroll {s : Session} (f : Nat → Nat) (h : s.Current) : (s.scroll f).Current := by
  unfold scroll
  split <;> exact h

theorem current_reload {s : Session} (file : Except FileError String) (h : s.Current) :
    (s.reload file).Current := by
  cases file with
  | error e => exact h
  | ok source => exact current_recompile _

theorem current_press {s : Session} (file : Except FileError String) (key : Key) (h : s.Current) :
    (s.press file key).Current := by
  unfold press
  split
  all_goals first | exact h | exact current_reload file h | exact current_scroll _ h

theorem current_settle {s : Session} (height : Nat) (h : s.Current) : (s.settle height).Current := h

/-- What a draw on a screen of this height leaves behind: no error waits to be brought into view,
and no offset is beyond the text, as far as the text fills the pane. -/
structure InRange (height : Nat) (s : Session) : Prop where
  pending : s.pending = false
  source : s.sourceOffset ≤ (lines s.source).length - max 1 (paneHeight height - 2)
  output : ∀ js, s.result = .ok js → js ≠ "" →
    s.outputOffset ≤ (lines js).length - max 1 (paneHeight height - 2)

theorem settle_inRange (height : Nat) (s : Session) : (s.settle height).InRange height where
  pending := rfl
  source := Nat.min_le_right _ _
  output := by
    intro js hjs hne
    have hresult : s.result = .ok js := hjs
    have hempty : js.isEmpty = false := by simpa using hne
    have hclamp : (s.settle height).outputOffset =
        Scroll.clamp s.outputOffset (lines js).length (Scroll.visible (paneHeight height)) := by
      simp [settle, focusError, outputView, OutputView.clamped, hresult, hempty]
    rw [hclamp]
    exact Nat.min_le_right _ _

end Session

namespace Viewer

theorem step_current {v : Viewer} (event : Event) (h : v.session.Current) :
    (v.step event).session.Current := by
  cases event with
  | draw => exact Session.current_settle v.height h
  | press key => exact Session.current_press v.file key h
  | resize | change => exact h

theorem run_current : ∀ (events : List Event) {v : Viewer}, v.session.Current →
    (v.run events).session.Current
  | [], _, h => h
  | event :: events, _, h => run_current events (step_current event h)

theorem run_roundEvents (v : Viewer) (key : Option Key) :
    v.run (roundEvents v.session.quit key) =
      { v with session := v.session.round v.height v.file key } := by
  have hquit : (v.session.settle v.height).quit = v.session.quit := rfl
  rcases key with _ | key
  · simp [roundEvents, run, step, Session.round]
  · cases h : v.session.quit <;> simp [roundEvents, run, step, Session.round, hquit, h]

/-- In every state of every run the result on show is that of the source on show, a reload that
fails changes the status only, and a draw leaves the offsets in range. The rounds of the viewer are
such runs. -/
theorem run_consistent (path source : String) (height : Nat) (file : Except FileError String)
    (events : List Event) :
    let v := (start path source height file).run events
    v.session.result = compile v.session.source ∧
      (∀ e, ∃ status,
        (v.run [.change (.error e), .press (.char 'r')]).session =
            { v.session with status := status } ∧
          (v.run [.change (.error e), .press (.char 'R')]).session =
            { v.session with status := status }) ∧
      (v.step .draw).session.InRange v.height ∧
      ∀ key, v.run (roundEvents v.session.quit key) =
        { v with session := v.session.round v.height v.file key } := by
  intro v
  refine ⟨?_, fun e => ⟨_, rfl, rfl⟩, Session.settle_inRange v.height v.session,
    v.run_roundEvents⟩
  exact run_current events (Session.current_recompile _)

end Viewer

end MiniC
