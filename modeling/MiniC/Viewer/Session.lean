import MiniC.FileError
import MiniC.Pipeline
import MiniC.Viewer.OutputView
import MiniC.Viewer.SourceView
import MiniC.Viewer.StatusBar

/-!
# A session of the viewer

A session is the state between two draws. A draw first settles the state for the screen's size:
it brings the line of a new error into view and the offsets into range. What it then shows
depends on the settled state alone.
-/

namespace MiniC

inductive Pane
  | source | output
  deriving DecidableEq, Repr, Inhabited

def Pane.other : Pane → Pane
  | .source => .output
  | .output => .source

/-- The keys that the viewer knows, and all others. -/
inductive Key
  | char (c : Char)
  | esc | tab | backTab | up | down | pageUp | pageDown | home | other
  deriving DecidableEq, Repr

structure Session where
  path : String
  source : String
  result : Except Diagnostic String
  focus : Pane
  sourceOffset : Nat
  outputOffset : Nat
  /-- The rows inside the source pane at the last draw. -/
  sourceHeight : Nat
  /-- Does the next draw bring the line of the error into view? -/
  pending : Bool
  quit : Bool
  status : String

namespace Session

def errorLine (s : Session) : Option Nat :=
  match s.result with
  | .ok _ => none
  | .error d => d.line?

def compiled (s : Session) : Bool :=
  match s.result with
  | .ok _ => true
  | .error _ => false

/-- The status after a compile. -/
def statusOf : Except Diagnostic String → String
  | .ok js => toString (lines js).length ++ " lines of JavaScript"
  | .error d => d.stage.name ++ " error: " ++ d.message

/-- Compiles the source. -/
def recompile (s : Session) : Session :=
  let result := compile s.source
  let s := { s with result := result, outputOffset := 0, status := statusOf result }
  { s with pending := s.errorLine.isSome }

/-- The entries of `recompile`. -/
def recompileJournal (s : Session) : Journal :=
  compileJournal s.source ++
    [⟨.debug, "c2js::ui::app", "recompiled " ++ s.path ++ ": " ++ s.recompile.status⟩]

/-- A session before its first compile. -/
def blank (path source : String) : Session where
  path := path
  source := source
  result := .ok ""
  focus := .source
  sourceOffset := 0
  outputOffset := 0
  sourceHeight := 0
  pending := false
  quit := false
  status := ""

/-- A new session, its source compiled. -/
def start (path source : String) : Session := (blank path source).recompile

/-- Takes what reading the file gave. If that failed, only the status changes. -/
def reload (file : Except FileError String) (s : Session) : Session :=
  match file with
  | .ok source => { s with source := source }.recompile
  | .error e => { s with status := "Cannot reload " ++ s.path ++ ": " ++ e.message }

/-- The entries of `reload`. -/
def reloadJournal (file : Except FileError String) (s : Session) : Journal :=
  match file with
  | .ok source => { s with source := source }.recompileJournal
  | .error _ => []

/-- Changes the offset of the focused pane. -/
def scroll (f : Nat → Nat) (s : Session) : Session :=
  match s.focus with
  | .source => { s with sourceOffset := f s.sourceOffset }
  | .output => { s with outputOffset := f s.outputOffset }

/-- The lines that a page key moves. -/
def pageSize : Nat := 10

/-- Handles a key; `file` is what reading the file would give now. -/
def press (file : Except FileError String) (key : Key) (s : Session) : Session :=
  match key with
  | .char 'q' | .char 'Q' | .esc => { s with quit := true }
  | .tab | .backTab => { s with focus := s.focus.other }
  | .char 'r' | .char 'R' => s.reload file
  | .up => s.scroll (Scroll.up · 1)
  | .down => s.scroll (Scroll.down · 1)
  | .pageUp => s.scroll (Scroll.up · pageSize)
  | .pageDown => s.scroll (Scroll.down · pageSize)
  | .home => s.scroll fun _ => 0
  | .char _ | .other => s

/-- The entries of `press`. -/
def pressJournal (file : Except FileError String) (key : Key) (s : Session) : Journal :=
  match key with
  | .char 'r' | .char 'R' => s.reloadJournal file
  | _ => []

/-! ## Drawing -/

def sourceView (s : Session) : SourceView where
  title := s.path
  source := s.source
  errorLine := s.errorLine
  focused := s.focus = .source
  offset := s.sourceOffset

def outputView (s : Session) : OutputView where
  output := s.result
  focused := s.focus = .output
  offset := s.outputOffset

def statusBar (s : Session) : StatusBar := ⟨s.status, s.compiled⟩

/-- The rows of the panes on a screen of this height: all but the status bar's. -/
def paneHeight (height : Nat) : Nat := height - 1

/-- Brings the line of a new error into view. -/
def focusError (height : Nat) (s : Session) : Session :=
  let rows := paneHeight height - 2
  let offset :=
    match s.pending, s.errorLine with
    | true, some line => Scroll.center line rows
    | _, _ => s.sourceOffset
  { s with sourceHeight := rows, sourceOffset := offset, pending := false }

/-- The state after a draw on a screen of this height. -/
def settle (height : Nat) (s : Session) : Session :=
  let s := s.focusError height
  { s with
    sourceOffset := (s.sourceView.clamped (paneHeight height)).offset
    outputOffset := (s.outputView.clamped (paneHeight height)).offset }

/-- What a draw of a settled session shows: the panes side by side, and the status bar in the last
row. -/
def picture (width height : Nat) (s : Session) : Picture :=
  let left := StatusBar.leftHalf width
  let rows := paneHeight height
  s.sourceView.picture left rows ++
    Picture.shift left 0 (s.outputView.picture (width - left) rows) ++
    Picture.shift 0 rows (s.statusBar.picture width 1)

/-- The screen of a settled session. -/
def screen (width height : Nat) (s : Session) : Screen :=
  .ofPicture width height (s.picture width height)

/-- One round of the viewer: a draw, then a key and a draw after it, unless the viewer has been
left. An event that is no key press changes nothing. -/
def round (height : Nat) (file : Except FileError String) (key : Option Key) (s : Session) :
    Session :=
  let s := s.settle height
  match s.quit, key with
  | false, some key => (s.press file key).settle height
  | _, _ => s

/-- The entries of `round`. -/
def roundJournal (height : Nat) (file : Except FileError String) (key : Option Key)
    (s : Session) : Journal :=
  let s := s.settle height
  match s.quit, key with
  | false, some key => s.pressJournal file key
  | _, _ => []

end Session

end MiniC
