import MiniC.Diagnostic
import MiniC.Journal

/-!
# From source to JavaScript

The stages one after the other; the first that fails decides. Each stage leaves entries in the
journal, which follow from what it produced.
-/

namespace MiniC

/-- The program of a source. -/
def parseSource (source : String) : Except Diagnostic Program := do
  let tokens ← (tokenize source).mapError .lex
  (Program.parse tokens).mapError .parse

/-- The JavaScript text of a source. -/
def compile (source : String) : Except Diagnostic String := do
  let program ← parseSource source
  program.generate.mapError .layout

/-- Whether a source compiles. -/
def check (source : String) : Except Diagnostic Unit :=
  (compile source).map fun _ => ()

namespace Journal

/-- After a successful reading of tokens, the last of which is on the last line. -/
def ofTokens (tokens : List Token) : Journal :=
  let line := (tokens.getLast?.map Token.line).getD 1
  [⟨.trace, "c2js::parser::lexer",
    "lexed " ++ toString tokens.length ++ " tokens over " ++ toString line ++ " lines"⟩]

/-- The entry of a function that was read. -/
def ofItem? : Stmt → Option Entry
  | .function f params _ =>
    some ⟨.trace, "c2js::parser::parse",
      "function " ++ f ++ "(" ++ ", ".intercalate params ++ ")"⟩
  | _ => none

/-- One entry for each function that was read, also in front of an error. -/
def ofOutcome (o : Program.Outcome) : Journal :=
  o.items.filterMap ofItem? ++
  match o.error with
  | some _ => []
  | none =>
    [⟨.debug, "c2js::parser::parse", "parsed " ++ toString o.items.length ++ " top-level items"⟩]

def ofEmission (e : Emission) : Journal :=
  match e.error with
  | some _ => []
  | none =>
    [⟨.debug, "c2js::codegen", "emitted " ++ toString e.lines.length ++ " lines of JavaScript"⟩]

end Journal

/-- The entries of reading tokens. -/
def tokenizeJournal (source : String) : Journal :=
  match tokenize source with
  | .error _ => []
  | .ok tokens => .ofTokens tokens

/-- The entries of reading a program. -/
def parseJournal (source : String) : Journal :=
  match tokenize source with
  | .error _ => []
  | .ok tokens => .ofTokens tokens ++ .ofOutcome (Program.read (.ofTokens tokens))

/-- The entries of a whole run of the stages. -/
def compileJournal (source : String) : Journal :=
  match tokenize source with
  | .error _ => []
  | .ok tokens =>
    let outcome := Program.read (.ofTokens tokens)
    let tokenized : Entry :=
      ⟨.debug, "c2js::compile", "tokenized " ++ toString tokens.length ++ " tokens"⟩
    Journal.ofTokens tokens ++ tokenized :: Journal.ofOutcome outcome ++
    match outcome.result with
    | .error _ => []
    | .ok program =>
      Journal.ofEmission (program.emit 0) ++
      match program.generate with
      | .error _ => []
      | .ok js =>
        [⟨.debug, "c2js::compile", "compiled " ++ toString source.utf8ByteSize ++
          " bytes of source into " ++ toString js.utf8ByteSize ++ " bytes"⟩]

end MiniC
