import MiniC.Command.Run
import MiniC.Screen.Ansi
import MiniC.Viewer.Session

/-!
# The command line

The outer layer of the program: it reads arguments, variables and files, and writes what the
library makes of them. In the viewer every line on standard input is the name of a key.
-/

namespace MiniC

namespace Terminal

def usage : String :=
  "Usage: c2js [OPTIONS] <source file>\n\n" ++
  "Options:\n" ++
  "  -v, -vv                  Show more of the journal\n" ++
  "  -q, -qq                  Show less of the journal\n" ++
  "      --log-level <level>  off, error, warn, info, debug or trace\n" ++
  "  -m, --mode <mode>        compile, check, tokens, ast or view\n" ++
  "  -o, --output <file>      Write the text here instead of standard output\n" ++
  "      --max-input <count>  The largest number of characters of a source\n" ++
  "  -h, --help               Print help\n" ++
  "  -V, --version            Print version"

/-- What an error of the system means for a file; its code may come with either sign. -/
def fileError : IO.Error → FileError
  | .noFileOrDirectory .. => .missing
  | .inappropriateType _ code _ => if code = 21 ∨ code = 0 - 21 then .isFolder else .notFolder
  | e => .other (toString e)

def readText (path : String) : IO (Except FileError String) := do
  try
    return decodeText (← IO.FS.readBinFile path)
  catch e => return .error (fileError e)

/-- Writes a file, and says why that failed. -/
def writeText (path text : String) : IO (Option FileError) := do
  try
    IO.FS.writeFile path text
    return none
  catch e => return some (fileError e)

def showJournal (journal : Journal) : IO Unit := do
  for entry in journal do
    IO.eprintln ("[" ++ entry.severity.name ++ " " ++ entry.target ++ "] " ++ entry.message)

def showCauses (causes : List String) : IO Unit := do
  IO.eprintln "Error:"
  for (cause, i) in causes.zipIdx do
    IO.eprintln (alignRight 4 (toString i) ++ ": " ++ cause)

/-- Produces a text; the result is the exit code. -/
def produce (env : Environment) (opts : Options) (form : Form) : IO UInt32 := do
  let file ← readText opts.input
  let (filter, warnings) := env.journalFilter opts
  for warning in warnings do
    IO.eprintln warning
  showJournal ((Work.journal opts form file).through filter)
  match Work.ofInput opts form file with
  | .failed causes =>
    showCauses causes
    return 1
  | .rejected d =>
    IO.eprintln (opts.complaint d)
    return 1
  | .text text =>
    match opts.output with
    | none =>
      IO.println text
      return 0
    | some path =>
      match ← writeText path (text ++ "\n") with
      | none => return 0
      | some e =>
        showCauses (writeCauses path e)
        return 1

/-- The key that a line of input names. -/
def keyOf (line : String) : Key :=
  match line with
  | "esc" => .esc
  | "tab" => .tab
  | "backtab" => .backTab
  | "up" => .up
  | "down" => .down
  | "pageup" => .pageUp
  | "pagedown" => .pageDown
  | "home" => .home
  | name =>
    match name.toList with
    | [c] => .char c
    | _ => .other

/-- A size from the environment. -/
def dimension (name : String) (default : Nat) : IO Nat := do
  return ((← IO.getEnv name).bind Options.readSize?).getD default

/-- Rounds of the viewer, until it is left or the input ends. -/
partial def rounds (input : IO.FS.Stream) (width height : Nat) (s : Session) : IO Unit := do
  let s := s.settle height
  IO.println (Ansi.render (s.screen width height))
  if s.quit then return
  let line ← input.getLine
  if line.isEmpty then return
  let file ← readText s.path
  rounds input width height (s.round height file (some (keyOf line.trimAscii.toString)))

def view (opts : Options) : IO UInt32 := do
  match Work.source opts (← readText opts.input) with
  | .error causes =>
    showCauses causes
    return 1
  | .ok source =>
    rounds (← IO.getStdin) (← dimension "COLUMNS" 80) (← dimension "LINES" 24)
      (Session.start opts.input source)
    return 0

def refuse (error : UsageError) : IO UInt32 := do
  match error with
  | .help => IO.println usage
  | .version => IO.println "c2js"
  | _ => IO.eprintln usage
  return error.exitCode.toUInt32

def run (args : List String) : IO UInt32 := do
  let env : Environment :=
    ⟨← IO.getEnv Environment.levelName, ← IO.getEnv Environment.maxInputName,
      ← IO.getEnv Environment.filterName⟩
  match Options.ofArguments env args with
  | .error e => refuse e
  | .ok opts =>
    match opts.mode with
    | .view => view opts
    | .produce form => produce env opts form

end Terminal

end MiniC

def main (args : List String) : IO UInt32 := MiniC.Terminal.run args
