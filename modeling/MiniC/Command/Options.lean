import MiniC.Journal.Filter

/-!
# Command-line options

Arguments are read from left to right and the first failing one decides. An argument that can
take part at all is only checked when the next one has been recognised: the value of `-m run
--bogus` is never looked at, since `--bogus` is no option. So the reader keeps the last argument
as `pending` until it is clear that reading goes on.

Environment variables stand in for options that are not given, and are checked after all
arguments. That the options agree with each other is checked last.
-/

namespace MiniC

/-- The texts that the program can produce. -/
inductive Form
  /-- The JavaScript text. -/
  | script
  /-- Whether there is a JavaScript text. -/
  | verdict
  | tokens
  /-- The program in outline form. -/
  | outline
  deriving DecidableEq, Repr, Inhabited

inductive Mode
  | produce (form : Form)
  | view
  deriving DecidableEq, Repr, Inhabited

def Mode.ofName? : String → Option Mode
  | "compile" => some (.produce .script)
  | "check" => some (.produce .verdict)
  | "tokens" => some (.produce .tokens)
  | "ast" => some (.produce .outline)
  | "view" => some .view
  | _ => none

structure Options where
  input : String
  mode : Mode
  output : Option String
  /-- The largest number of characters of a source. -/
  maxInput : Nat
  threshold : Threshold
  deriving DecidableEq, Repr

/-- Why arguments are not accepted. Asking for help or the version ends reading as well. -/
inductive UsageError
  | missingInput
  | unknownArgument
  /-- A value is missing, empty, or not one of the possible ones. -/
  | invalidValue
  /-- A value does not read as a number or a level, or is out of range. -/
  | unreadableValue
  | conflict
  /-- A flag has been given a value. -/
  | surplusValue
  | help
  | version
  deriving DecidableEq, Repr

/-- Help and the version are no failure. -/
def UsageError.exitCode : UsageError → Nat
  | .help | .version => 0
  | _ => 2

/-- The variables that the program looks at. -/
structure Environment where
  level : Option String
  maxInput : Option String
  /-- A written filter, which goes on top of the level of the options. -/
  filter : Option String

namespace Environment

def levelName : String := "C2JS_LOG"

def maxInputName : String := "C2JS_MAX_INPUT"

def filterName : String := "RUST_LOG"

def ofLookup (get : String → Option String) : Environment :=
  ⟨get levelName, get maxInputName, get filterName⟩

end Environment

namespace Options

def defaultMaxInput : Nat := 10000

/-- A natural number below 2^64 in decimal digits, perhaps behind a plus sign. -/
def readSize? (text : String) : Option Nat :=
  let digits :=
    match text.toList with
    | '+' :: rest => rest
    | cs => cs
  let value := Nat.ofDigitChars 10 digits 0
  if !digits.isEmpty && digits.all Char.isDigit && value < 0x10000000000000000 then some value
  else none

/-- The options that take a value. -/
inductive Setting
  | level | mode | output | maxInput
  deriving DecidableEq, Repr

/-- What has been accepted. -/
structure Draft where
  loud : Nat
  quiet : Nat
  level : Option Threshold
  mode : Option Mode
  output : Option String
  maxInput : Option Nat
  input : Option String
  deriving DecidableEq, Repr

def Draft.empty : Draft := ⟨0, 0, none, none, none, none, none⟩

def readPath (value : String) : Except UsageError String :=
  if value.isEmpty then .error .invalidValue else .ok value

def readMode (value : String) : Except UsageError Mode :=
  match Mode.ofName? value with
  | some mode => .ok mode
  | none => .error .invalidValue

def readLevel (value : String) : Except UsageError Threshold :=
  match Threshold.ofName? value with
  | some threshold => .ok threshold
  | none => .error .unreadableValue

def readSize (value : String) : Except UsageError Nat :=
  match readSize? value with
  | some n => .ok n
  | none => .error .unreadableValue

/-- Is the option already set? -/
def Draft.has (d : Draft) : Setting → Bool
  | .level => d.level.isSome
  | .mode => d.mode.isSome
  | .output => d.output.isSome
  | .maxInput => d.maxInput.isSome

/-- Accepts an option with its value. -/
def Draft.set (d : Draft) (setting : Setting) (value : String) : Except UsageError Draft :=
  if d.has setting then .error .conflict
  else
    match setting with
    | .level => do return { d with level := some (← readLevel value) }
    | .mode => do return { d with mode := some (← readMode value) }
    | .output => do return { d with output := some (← readPath value) }
    | .maxInput => do return { d with maxInput := some (← readSize value) }

/-- An argument that has been recognised but not accepted. -/
inductive Pending
  | setting (setting : Setting) (value : Option String)
  | input (path : String)
  deriving DecidableEq, Repr

structure Reader where
  draft : Draft
  pending : Option Pending
  /-- Has an input path been given, accepted or not? -/
  hasInput : Bool
  /-- After `--` every argument is a path. -/
  pathsOnly : Bool
  deriving DecidableEq, Repr

namespace Reader

def start : Reader := ⟨.empty, none, false, false⟩

/-- Accepts the pending argument. -/
def settle (r : Reader) : Except UsageError Reader :=
  match r.pending with
  | none => .ok r
  | some (.setting _ none) => .error .invalidValue
  | some (.setting setting (some value)) => do
    return { r with draft := ← r.draft.set setting value, pending := none }
  | some (.input path) => do
    return { r with draft := { r.draft with input := some (← readPath path) }, pending := none }

/-- An option that takes a value, which may be attached to it. -/
def readSetting (r : Reader) (setting : Setting) : Option String → Except UsageError Reader
  | none => do return { ← r.settle with pending := some (.setting setting none) }
  | some value => do
    let r ← r.settle
    return { r with draft := ← r.draft.set setting value }

/-- A flag that is counted, at most twice. -/
def readFlag (r : Reader) (count : Draft → Nat) (bump : Draft → Draft) :
    Except UsageError Reader := do
  let r ← r.settle
  if count r.draft < 2 then return { r with draft := bump r.draft } else throw .unreadableValue

/-- A request that ends reading. -/
def stop (r : Reader) (error : UsageError) : Except UsageError Reader := do
  let _ ← r.settle
  throw error

/-- The value attached to a letter, with or without an equals sign. -/
def attached? : List Char → Option String
  | [] => none
  | '=' :: cs => some (String.ofList cs)
  | cs => some (String.ofList cs)

/-- The letters behind a single dash. -/
def readShort (r : Reader) : List Char → Except UsageError Reader
  | [] => .ok r
  | 'v' :: cs => do
    let r ← r.readFlag Draft.loud fun d => { d with loud := d.loud + 1 }
    r.readShort cs
  | 'q' :: cs => do
    let r ← r.readFlag Draft.quiet fun d => { d with quiet := d.quiet + 1 }
    r.readShort cs
  | 'h' :: _ => r.stop .help
  | 'V' :: _ => r.stop .version
  | 'm' :: cs => r.readSetting .mode (attached? cs)
  | 'o' :: cs => r.readSetting .output (attached? cs)
  | _ => .error .unknownArgument

/-- The name behind a double dash, and the value behind its equals sign. -/
def readLong (r : Reader) (name : String) (value : Option String) : Except UsageError Reader :=
  match name, value with
  | "log-level", value => r.readSetting .level value
  | "mode", value => r.readSetting .mode value
  | "output", value => r.readSetting .output value
  | "max-input", value => r.readSetting .maxInput value
  | "help", none => r.stop .help
  | "version", none => r.stop .version
  | "help", some _ => .error .surplusValue
  | "version", some _ => .error .surplusValue
  | _, _ => .error .unknownArgument

/-- An argument that is no option. There is only one input. -/
def readPlain (r : Reader) (arg : String) : Except UsageError Reader :=
  if r.hasInput then .error .unknownArgument
  else do return { ← r.settle with pending := some (.input arg), hasInput := true }

/-- Reads one argument. -/
def step (r : Reader) (arg : String) : Except UsageError Reader :=
  if r.pathsOnly then r.readPlain arg
  else
    match arg.toList with
    | ['-', '-'] => .ok { r with pathsOnly := true }
    | '-' :: '-' :: cs =>
      let name := String.ofList (cs.takeWhile (· ≠ '='))
      match cs.dropWhile (· ≠ '=') with
      | [] => r.readLong name none
      | _ :: value => r.readLong name (some (String.ofList value))
    | '-' :: c :: cs => r.readShort (c :: cs)
    | _ =>
      match r.pending with
      | some (.setting setting none) =>
        .ok { r with pending := some (.setting setting (some arg)) }
      | _ => r.readPlain arg

end Reader

/-- The level that the counts of `-v` and `-q` stand for. -/
def thresholdOf (loud quiet : Nat) : Threshold :=
  match loud, quiet with
  | 0, 0 => some .warn
  | 0, 1 => some .error
  | 0, _ => none
  | 1, _ => some .info
  | _, _ => some .debug

/-- A value from the environment for an option that is not given. -/
def orVariable {α : Type} (read : String → Except UsageError α) (given : Option α)
    (fallback : Option String) : Except UsageError (Option α) :=
  match given, fallback with
  | some a, _ => .ok (some a)
  | none, some value => some <$> read value
  | none, none => .ok none

/-- The options of accepted arguments. -/
def ofDraft (env : Environment) (d : Draft) : Except UsageError Options := do
  let level ← orVariable readLevel d.level env.level
  let maxInput ← orVariable readSize d.maxInput env.maxInput
  if d.loud ≠ 0 ∧ d.quiet ≠ 0 then throw .conflict
  match d.input with
  | none => throw .missingInput
  | some input =>
    return {
      input := input
      mode := d.mode.getD (.produce .script)
      output := d.output
      maxInput := maxInput.getD defaultMaxInput
      threshold := level.getD (thresholdOf d.loud d.quiet) }

/-- Reads the arguments of a command line. -/
def ofArguments (env : Environment) (args : List String) : Except UsageError Options := do
  let r ← args.foldlM Reader.step .start
  ofDraft env (← r.settle).draft

end Options

/-- What is shown of the journal; the second part of the result holds the warnings. -/
def Environment.journalFilter (env : Environment) (opts : Options) : Filter × List String :=
  match env.filter with
  | some text => (Filter.ofThreshold opts.threshold).apply text
  | none => (Filter.ofThreshold opts.threshold, [])

end MiniC
