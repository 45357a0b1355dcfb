import TreeText.CommandLine.Options

/-!
# A parser of arguments

The parser that the program is run with. It takes one file, `-` for standard input, and options
before or after it. An option with a value takes it after an equals sign or from the next argument,
which then does not look like an option. Nothing is given twice. After `--` everything is a file.

The tool leaves its arguments to a library (`Cli::parse`). This parser stands in for it and does
what the library says of flags, options and values. The refusal of a missing file is worded as
there; other refusals and the help only say the same in their own words. What is known of the tool
is known for any parser, so it does not rest on this one.
-/

namespace TreeText

/-- The format of a name. -/
def InputFormat.ofName? : String → Option InputFormat
  | "python" => some .program
  | "tree-json" => some .treeJson
  | _ => none

/-- The emission of a name. -/
def Emission.ofName? : String → Option Emission
  | "sexp" => some .line
  | "tree" => some .tree
  | _ => none

namespace Arguments

/-! ## Words -/

/-- The end of every refusal. -/
def hint : String := "For more information, try '--help'."

/-- A refusal with its reason and the usage that it shows. -/
def refused (reason usage : String) : Ending :=
  .refusal ("error: " ++ reason ++ "\n\nUsage: cinder " ++ usage ++ "\n\n" ++ hint)

/-- The usage that a refusal shows if it is about one argument. -/
def usage : String := "[OPTIONS] <FILE>"

/-- An argument that cannot stand where it does. -/
def unexpected (argument : String) : Ending :=
  refused ("unexpected argument '" ++ argument ++ "' found") usage

/-- An option that has been given before. -/
def repeated (option : String) : Ending :=
  refused ("the argument '" ++ option ++ "' cannot be used multiple times") usage

/-- A value that an option does not have. -/
def badValue (option value : String) : Ending :=
  .refusal ("error: invalid value '" ++ value ++ "' for '" ++ option ++ "'\n\n" ++ hint)

/-- An option without the value that it needs. -/
def noValue (option : String) : Ending :=
  .refusal ("error: a value is required for '" ++ option ++ "' but none was supplied\n\n" ++ hint)

/-- The help text. -/
def help : String :=
  "Print a Python syntax tree as one canonical S-expression\n\n" ++
  "Usage: cinder [OPTIONS] <FILE>\n\n" ++
  "Arguments:\n" ++
  "  <FILE>  Input file (or - for stdin)\n\n" ++
  "Options:\n" ++
  "      --input <INPUT>    How to read the input [possible values: python, tree-json]\n" ++
  "      --emit <EMIT>      What to print [possible values: sexp, tree]\n" ++
  "      --schema <SCHEMA>  TOML file with extra schema entries\n" ++
  "      --strict           Fail on node kinds or fields the schema cannot account for\n" ++
  "  -h, --help             Print help\n"

/-! ## Arguments one after the other -/

/-- What the arguments so far have given. -/
structure Given where
  file : Option String
  input : Option InputFormat
  emission : Option Emission
  schemaPath : Option String
  strict : Bool
  /-- The options in the order in which they were given, as the usage of a refusal shows them. -/
  used : List String

namespace Given

/-- What no arguments give. -/
def nothing : Given := ⟨none, none, none, none, false, []⟩

/-- Gives the file, of which there is only one. -/
def addFile (given : Given) (file : String) : Except Ending Given :=
  if given.file.isNone then .ok { given with file := some file } else .error (unexpected file)

/-- Asks for the check, once. -/
def addStrict (given : Given) : Except Ending Given :=
  if given.strict then .error (repeated "--strict")
  else .ok { given with strict := true, used := given.used ++ ["--strict"] }

/-- Gives an option its value. -/
def addValue (given : Given) (option value : String) : Except Ending Given :=
  match option with
  | "--input" =>
    match given.input, InputFormat.ofName? value with
    | none, some input =>
      .ok { given with input := some input, used := given.used ++ ["--input <INPUT>"] }
    | none, none => .error (badValue "--input <INPUT>" value)
    | some _, _ => .error (repeated "--input <INPUT>")
  | "--emit" =>
    match given.emission, Emission.ofName? value with
    | none, some emission =>
      .ok { given with emission := some emission, used := given.used ++ ["--emit <EMIT>"] }
    | none, none => .error (badValue "--emit <EMIT>" value)
    | some _, _ => .error (repeated "--emit <EMIT>")
  | "--schema" =>
    match given.schemaPath with
    | none =>
      .ok { given with schemaPath := some value, used := given.used ++ ["--schema <SCHEMA>"] }
    | some _ => .error (repeated "--schema <SCHEMA>")
  | _ => .error (unexpected option)

/-- The options asked for, once there is a file. -/
def options (given : Given) : Except Ending Options :=
  match given.file with
  | some file =>
    .ok ⟨file, given.input.getD .program, given.emission.getD .line, given.schemaPath, given.strict⟩
  | none =>
    .error (refused "the following required arguments were not provided:\n  <FILE>"
      (" ".intercalate (given.used ++ ["<FILE>"])))

end Given

/-- An argument that does not stand for a file: it starts with a dash and is more than that. -/
def looksLikeOption (argument : String) : Bool :=
  argument.toList.head? == some '-' && argument != "-"

/-- The options that have a value. -/
def takesValue (option : String) : Bool :=
  option == "--input" || option == "--emit" || option == "--schema"

/-- Splits an argument at its first equals sign. -/
def splitEquals? (argument : String) : Option (String × String) :=
  let option := argument.toList.takeWhile (· != '=')
  match argument.toList.dropWhile (· != '=') with
  | _ :: value => some (String.ofList option, String.ofList value)
  | [] => none

/-- Takes the arguments into account one after the other. -/
def collect (given : Given) : List String → Except Ending Given
  | [] => .ok given
  | argument :: rest =>
    if argument = "--" then rest.foldlM Given.addFile given
    else if !looksLikeOption argument then do collect (← given.addFile argument) rest
    else if argument = "--help" ∨ argument = "-h" then .error (.help help)
    else if argument = "--strict" then do collect (← given.addStrict) rest
    else if takesValue argument then
      match rest with
      | [] => .error (noValue argument)
      | value :: rest =>
        if looksLikeOption value then .error (noValue argument)
        else do collect (← given.addValue argument value) rest
    else
      match splitEquals? argument with
      | some (option, value) => do collect (← given.addValue option value) rest
      | none => .error (unexpected argument)

/-- What a command line asks for, or how it ends the run. -/
def parse : ArgumentParser := fun arguments => do
  (← collect .nothing arguments).options

end Arguments

end TreeText
