import TreeText.Schema
import TreeText.Toml.Reader

/-!
# Schema files

A schema file is a TOML document. Its table `kinds` gives for each kind an array of field names;
everything else in it is passed over. Without `kinds` it is the empty schema.
-/

namespace TreeText.Schema

/-- Why a text is no schema file (`SchemaError`). -/
inductive FileError where
  /-- The text is no TOML document, or `kinds` is no table of arrays of strings. -/
  | badFormat
  | repeatedField (fault : RepeatedField)
deriving DecidableEq

/-- The texts of values that all are texts. -/
def texts? : List Toml → Option (List String)
  | [] => some []
  | .str text :: rest => (texts? rest).map (text :: ·)
  | _ => none

/-- The entries of a table in which every value is an array of texts. -/
def fieldLists? : List (String × Toml) → Option (NameTable (List String))
  | [] => some []
  | (kind, .array items) :: rest =>
    match texts? items with
    | none => none
    | some fields => (fieldLists? rest).map ((kind, fields) :: ·)
  | _ => none

/-- The entries that a document lists under `kinds` (`SchemaFile`). -/
def listedKinds? (document : NameTable Toml) : Option (NameTable (List String)) :=
  match document.lookup "kinds" with
  | none => some []
  | some (.table _ entries) => fieldLists? entries
  | some _ => none

/-- The schema of a schema file's text (`from_toml_str`). -/
def ofToml (text : String) : Except FileError Schema :=
  match (Toml.read? text).bind listedKinds? with
  | none => .error .badFormat
  | some entries =>
    match ofEntries entries with
    | .error fault => .error (.repeatedField fault)
    | .ok schema => .ok schema

end TreeText.Schema
