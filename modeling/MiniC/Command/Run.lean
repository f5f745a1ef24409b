import MiniC.Command.Options
import MiniC.Folder
import MiniC.Pipeline
import MiniC.Program.Outline
import MiniC.Text.Lines

/-!
# Running the program

The work of a run is a function of its options and of what reading the input gives
(`Work.ofInput`). `Run.inFolder` carries it out on a folder of files.
-/

namespace MiniC

namespace Form

/-- The text of a source in this form. -/
def render (form : Form) (source : String) : Except Diagnostic String :=
  match form with
  | .script => compile source
  | .verdict => (check source).map fun _ => "ok"
  | .tokens => do
    let tokens ← (tokenize source).mapError .lex
    return "\n".intercalate (tokens.map Token.render)
  | .outline => do
    let program ← parseSource source
    return program.outline.render

/-- The entries of `render`. -/
def journal (form : Form) (source : String) : Journal :=
  match form with
  | .script | .verdict => compileJournal source
  | .tokens => tokenizeJournal source
  | .outline => parseJournal source

end Form

/-- What a run comes to. -/
inductive Work
  /-- The input cannot be used, for these causes, the outermost first. -/
  | failed (causes : List String)
  /-- The source does not compile. -/
  | rejected (diagnostic : Diagnostic)
  | text (text : String)

namespace Work

/-- The source, if it can be read and is not too long. -/
def source (opts : Options) (file : Except FileError String) : Except (List String) String :=
  match file with
  | .error e => .error ["Failed to read '" ++ opts.input ++ "'", e.message]
  | .ok source =>
    if source.length ≤ opts.maxInput then .ok source
    else .error ["'" ++ opts.input ++ "' is " ++ toString source.length ++
      " characters long; the limit is " ++ toString opts.maxInput ++ " (see --max-input)"]

/-- The text of the input in a form. -/
def ofInput (opts : Options) (form : Form) (file : Except FileError String) : Work :=
  match source opts file with
  | .error causes => .failed causes
  | .ok source =>
    match form.render source with
    | .ok result => .text result
    | .error d => .rejected d

/-- The entries of `ofInput`. -/
def journal (opts : Options) (form : Form) (file : Except FileError String) : Journal :=
  match source opts file with
  | .error _ => []
  | .ok source =>
    let read : Entry :=
      ⟨.info, "c2js", "read " ++ opts.input ++ " (" ++ toString source.utf8ByteSize ++ " bytes)"⟩
    read :: form.journal source ++
    match form.render source with
    | .ok _ => []
    | .error d => [⟨.debug, "c2js", d.stage.name ++ " stage failed"⟩]

end Work

/-- The line that reports a source that does not compile. -/
def Options.complaint (opts : Options) (d : Diagnostic) : String :=
  opts.input ++ ": " ++ d.message

/-- The causes of a failed writing. -/
def writeCauses (path : String) (e : FileError) : List String :=
  ["Failed to write '" ++ path ++ "'", e.message]

/-- What a run leaves behind. -/
structure Run where
  exitCode : Nat
  stdout : String
  /-- Lines on the error channel, entries of the journal apart. -/
  complaints : List String
  /-- The causes of a failure, the outermost first. -/
  causes : List String
  journal : Journal
  folder : Folder

namespace Run

end Run

end MiniC
