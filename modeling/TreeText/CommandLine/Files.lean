/-!
# Files

How reading a file fails, and a `Disk`: files in memory on which the tool can be run. A path is
followed name by name from the root or from the folder that the tool runs in. A name has to be
looked for in a folder, so a slash after a file fails even if nothing follows it.
-/

namespace TreeText

/-- Why a file cannot be read as text. -/
inductive FileFault where
  | notFound
  | notFolder
  | isFolder
  | nameTooLong
  | notText
  /-- Any other reason, in the words of the system. -/
  | other (text : String)
deriving DecidableEq

/-- The wording of a file fault, as the system has it. -/
def FileFault.message : FileFault → String
  | .notFound => "No such file or directory (os error 2)"
  | .notFolder => "Not a directory (os error 20)"
  | .isFolder => "Is a directory (os error 21)"
  | .nameTooLong => "File name too long (os error 36)"
  | .notText => "stream did not contain valid UTF-8"
  | .other text => text

/-- Files and folders, each by the names that lead to it from the root. -/
structure Disk where
  files : List (List String × ByteArray)
  /-- Folders that may have no files in them. -/
  folders : List (List String)
  /-- The folder from which paths start that do not start with a slash. -/
  current : List String

namespace Disk

/-- How many bytes a name may have. -/
def nameLimit : Nat := 255

/-- How many bytes a path may have. -/
def pathLimit : Nat := 4095

variable (disk : Disk)

/-- Whether there is a folder: the root, one that is listed, or one with something in it. -/
def hasFolder (place : List String) : Bool :=
  (disk.current :: disk.folders).any place.isPrefixOf ||
    disk.files.any fun file => place.isPrefixOf file.1 && place != file.1

/-- The file at a place. -/
def file? (place : List String) : Option ByteArray := disk.files.lookup place

/-- The place that names lead to. -/
def follow (place : List String) : List String → Except FileFault (List String)
  | [] => .ok place
  | name :: rest =>
    if !disk.hasFolder place then .error .notFolder
    else if name = "" ∨ name = "." then follow place rest
    else if name = ".." then follow place.dropLast rest
    else if nameLimit < name.utf8ByteSize then .error .nameTooLong
    else if (disk.file? (place ++ [name])).isSome || disk.hasFolder (place ++ [name]) then
      follow (place ++ [name]) rest
    else .error .notFound

/-- The bytes of the file that a path leads to. -/
def read (path : String) : Except FileFault ByteArray :=
  if path = "" then .error .notFound
  else if pathLimit < path.utf8ByteSize then .error .nameTooLong
  else
    match disk.follow (if path.startsWith "/" then [] else disk.current) (path.splitOn "/") with
    | .error fault => .error fault
    | .ok place =>
      match disk.file? place with
      | some bytes => .ok bytes
      | none => .error .isFolder

end Disk

end TreeText
