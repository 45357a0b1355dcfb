import TreeText.CommandLine
import TreeText.CommandLine.Arguments
import TreeText.Cst.Listing
import TreeText.Text.CharacterName

/-!
# The program

Gathers what the command line tool asks for from the system, runs it, and writes what it leaves
behind. A grammar's parser is not part of it: the concrete syntax tree of a program `FILE` is read
from its listing in `FILE.cst`, or in `stdin.cst` for a program on standard input. What the tool
leaves to other libraries is chosen here: the parser of its arguments (`Arguments.parse`) and the
table of character names (`CharacterName.find?`).
-/

namespace TreeText.Program

/-- The number of a system error, which may come with a minus sign. -/
def errorNumber (code : UInt32) : UInt32 :=
  if code < 0x80000000 then code else 0 - code

/-- The fault of a file that the system does not hand over. -/
def fileFault (error : IO.Error) : FileFault :=
  match error with
  | .noFileOrDirectory .. => .notFound
  | .inappropriateType _ code _ => if errorNumber code = 20 then .notFolder else .isFolder
  | .permissionDenied _ code _ => .other s!"Permission denied (os error {errorNumber code})"
  | .invalidArgument _ code _ =>
    if errorNumber code = 36 then .nameTooLong else .other (toString error)
  | error => .other (toString error)

/-- The bytes of a file, or why there are none. -/
def load (path : String) : BaseIO (Except FileFault ByteArray) := do
  return (← (IO.FS.readBinFile path).toBaseIO).mapError fileFault

/-- Where the listing of a program's concrete syntax tree is. -/
def listingPath (file : String) : String :=
  (if file = "-" then "stdin" else file) ++ ".cst"

/-- The tree of a listing's bytes. -/
def listedTree? (bytes : Except FileFault ByteArray) : Option Cst :=
  match bytes with
  | .ok bytes => (String.fromUTF8? bytes).bind Cst.read?
  | .error _ => none

/-- What a run with these options finds around it. -/
def gather (options : Options) : IO Surroundings := do
  let paths := options.file :: options.schemaPath.toList
  let files ← paths.mapM fun path => return (path, ← load path)
  let listing ← load (listingPath options.file)
  let input ← if options.file = "-" then (← IO.getStdin).readBinToEnd else pure ByteArray.empty
  return {
    readFile := fun path => (files.lookup path).getD (.error .notFound)
    standardInput := input
    concreteSyntax := fun _ => listedTree? listing
    characterNames := CharacterName.find? }

/-- What a run finds around it that the parser of its arguments has ended. -/
def nowhere : Surroundings :=
  ⟨fun _ => .error .notFound, .empty, fun _ => none, CharacterName.noNames⟩

end TreeText.Program

/-- Runs the tool with the arguments of the command line. -/
def main (arguments : List String) : IO UInt32 := do
  let surroundings ← match TreeText.Arguments.parse arguments with
    | .ok options => TreeText.Program.gather options
    | .error _ => pure TreeText.Program.nowhere
  let outcome := TreeText.CommandLine.run surroundings TreeText.Arguments.parse arguments
  IO.print outcome.output
  for line in outcome.messages do
    IO.eprintln line
  return outcome.exitCode.toUInt32
