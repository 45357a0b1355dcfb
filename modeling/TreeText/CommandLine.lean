import TreeText.CommandLine.Files
import TreeText.CommandLine.Options
import TreeText.Reading
import TreeText.Encoding
import TreeText.Validation
import TreeText.Schema.Builtin
import TreeText.Schema.File
import TreeText.Text.Control
import TreeText.Tree.Interchange

/-!
# The command line tool

`CommandLine.run` is the whole tool as a function of its arguments and its `Surroundings`: the
files, the standard input, the grammar that finds the concrete syntax of a program, and the names
of characters. What the arguments ask for is told by a parser, which is a parameter and may end the
run by itself. Otherwise the schema file is read first, then the input; then the tree is checked if
that is asked for, and at last it is written. The first of these that fails ends the run with its
message.

A check only refuses or passes a tree, so what is written does not depend on it.

Notes on the form: `run` and `main` are one function here, whose result is all that the process
leaves behind. The worker thread with its large stack has no counterpart, and neither have the
messages that are written only when more logging is asked for.
-/

namespace TreeText

/-- What the tool finds around it. -/
structure Surroundings where
  readFile : String → Except FileFault ByteArray
  standardInput : ByteArray
  /-- The concrete syntax tree of a program's text. -/
  concreteSyntax : String → Option Cst
  /-- The characters that names in a program's literals stand for. -/
  characterNames : CharacterName.Lookup

/-- What the tool leaves behind. -/
structure Outcome where
  exitCode : Nat
  output : String
  /-- The lines for the standard error stream. -/
  messages : List String
deriving DecidableEq

/-- Why a run fails. -/
inductive Failure where
  | schemaUnreadable (path : String) (fault : FileFault)
  | schemaInvalid (path : String)
  | schemaRepeats (path : String) (fault : RepeatedField)
  | fileUnreadable (path : String) (fault : FileFault)
  | standardInputUnreadable (fault : FileFault)
  | noGrammar
  | program (diagnostic : Diagnostic)
  | treeInvalid
  | misfit (defect : Defect)
deriving DecidableEq

/-- The wording of a failure. What is wrong inside a schema file or a JSON text is not told. -/
def Failure.message : Failure → String
  | .schemaUnreadable path fault => path ++ ": failed to read schema file: " ++ fault.message
  | .schemaInvalid path => path ++ ": invalid schema file:"
  | .schemaRepeats path fault => path ++ ": " ++ fault.message
  | .fileUnreadable path fault => path ++ ": " ++ fault.message
  | .standardInputUnreadable fault => fault.message
  | .noGrammar => "failed to load Python grammar: parser returned no tree"
  | .program diagnostic => diagnostic.message
  | .treeInvalid => "invalid tree JSON:"
  | .misfit defect => defect.message

namespace CommandLine

/-- The name under which the tool speaks. -/
def programName : String := "cinder"

/-- The text of a file's bytes. -/
def textOf (bytes : ByteArray) : Except FileFault String :=
  match String.fromUTF8? bytes with
  | some text => .ok text
  | none => .error .notText

variable (surroundings : Surroundings)

/-- The text of a file. -/
def readText (path : String) : Except FileFault String := do
  textOf (← surroundings.readFile path)

/-- The built-in schema, extended by a schema file. -/
def loadSchema : Option String → Except Failure Schema
  | none => .ok .builtin
  | some path =>
    match readText surroundings path with
    | .error fault => .error (.schemaUnreadable path fault)
    | .ok text =>
      match Schema.ofToml text with
      | .error .badFormat => .error (.schemaInvalid path)
      | .error (.repeatedField fault) => .error (.schemaRepeats path fault)
      | .ok extension => .ok (Schema.builtin.extend extension)

/-- The text of the input (`read_input`). -/
def readInput (file : String) : Except Failure String :=
  if file = "-" then
    (textOf surroundings.standardInput).mapError .standardInputUnreadable
  else (readText surroundings file).mapError (.fileUnreadable file)

/-- How diagnostics call the input (`display_name`). -/
def displayName (file : String) : String :=
  if file = "-" then "<stdin>" else file

/-- The tree that the input stands for. -/
def readTree (options : Options) (text : String) : Except Failure Tree :=
  match options.input with
  | .program =>
    match surroundings.concreteSyntax text with
    | none => .error .noGrammar
    | some root =>
      (readModule surroundings.characterNames (displayName options.file) text root).mapError
        .program
  | .treeJson => (Tree.read text).mapError fun _ => .treeInvalid

/-- The kinds that may show as placeholders in a tree of this origin. -/
def expectedKinds : InputFormat → List String
  | .program => Reading.placeholderKinds
  | .treeJson => []

/-- Checks a tree, if that is asked for. -/
def check (options : Options) (schema : Schema) (tree : Tree) : Except Failure Unit :=
  if options.strict then
    (schema.validate (expectedKinds options.input) tree).mapError .misfit
  else .ok ()

/-- The warning about a kind that shows as a placeholder: a sentence fit for a terminal, and the
kind as it is. -/
def warning (kind : String) : String :=
  "WARN " ++ programName ++ ": " ++ shown ("no schema entry, rendered as #<" ++ kind ++ ">") ++
    " kind=" ++ kind

/-- The warnings about a tree's kinds without an entry, other than the expected ones. -/
def warnings (options : Options) (schema : Schema) (tree : Tree) : List String :=
  ((schema.unknownKinds tree).filter fun kind =>
    !(expectedKinds options.input).contains kind).map warning

/-- What is written for a tree. -/
def emit (options : Options) (schema : Schema) (tree : Tree) : Outcome :=
  match options.emission with
  | .tree => ⟨0, tree.prettyText ++ "\n", []⟩
  | .line => ⟨0, schema.textOf tree ++ "\n", warnings options schema tree⟩

/-- A run that makes sense, up to what is written (`run`). -/
def perform (options : Options) : Except Failure Outcome := do
  let schema ← loadSchema surroundings options.schemaPath
  let text ← readInput surroundings options.file
  let tree ← readTree surroundings options text
  check options schema tree
  return emit options schema tree

/-- What a run leaves behind that the parser of its arguments has ended. Help is written like a
result, and a refusal like an error with an exit code of its own. -/
def endedBy : Ending → Outcome
  | .help text => ⟨0, text, []⟩
  | .refusal text => ⟨2, "", [text]⟩

/-- The outcome of a run with these arguments (`main`), given how arguments are parsed. -/
def run (parser : ArgumentParser) (arguments : List String) : Outcome :=
  match parser arguments with
  | .error ending => endedBy ending
  | .ok options =>
    match perform surroundings options with
    | .ok outcome => outcome
    | .error failure => ⟨1, "", [programName ++ ": " ++ failure.message]⟩

end CommandLine

end TreeText
