/-!
# Command line options

What a command line asks for, and what a parser of its arguments may make of them. Which parser it
is is left open: a run of the tool is given one, and it may end the run by itself, with a help text
or with a refusal.
-/

namespace TreeText

/-- How the input is to be read (`InputFormat`). -/
inductive InputFormat where
  /-- As a program text. -/
  | program
  /-- As the JSON text of a tree. -/
  | treeJson
deriving DecidableEq

/-- What is to be written (`Emit`). -/
inductive Emission where
  /-- The one line of text. -/
  | line
  /-- The JSON text of the tree. -/
  | tree
deriving DecidableEq

/-- What a command line asks for (`Cli`). -/
structure Options where
  file : String
  input : InputFormat
  emission : Emission
  schemaPath : Option String
  strict : Bool
deriving DecidableEq

/-- How a parser of arguments ends a run by itself. -/
inductive Ending where
  /-- With a help text that was asked for. -/
  | help (text : String)
  /-- With what it says of arguments that make no sense. -/
  | refusal (text : String)
deriving DecidableEq

/-- A parser of arguments (`Cli::parse`). -/
abbrev ArgumentParser := List String → Except Ending Options

end TreeText
