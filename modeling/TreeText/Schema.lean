import TreeText.NameTable

/-!
# Schemas: which fields a kind of node has, in which order

A schema is a name table from kinds of nodes to their ordered field names. `insert` refuses a
list that names a field twice; `extend` puts another schema's entries over those that are there,
whole entries at a time.

Notes on the form: the methods that change a schema in place return the new one here. The entries
are kept in order, where a hash table has none, so `kinds` has nothing left to sort.
-/

namespace TreeText

/-- The ordered field names of each known kind. -/
structure Schema where
  entries : NameTable (List String)
deriving DecidableEq

/-- An entry that lists a field twice (`SchemaError::DuplicateField`). -/
structure RepeatedField where
  kind : String
  field : String
deriving DecidableEq

/-- The wording of a refusal. -/
def RepeatedField.message (fault : RepeatedField) : String :=
  "field '" ++ fault.field ++ "' listed twice for kind " ++ fault.kind

/-- The first name of a list that stands further to the left already. -/
def firstRepeat? : List String → Option String :=
  go []
where
  go (seen : List String) : List String → Option String
    | [] => none
    | name :: rest => if name ∈ seen then some name else go (name :: seen) rest

namespace Schema

/-- The schema to which every kind is unknown (`Schema::empty`). -/
def empty : Schema := ⟨[]⟩

/-- The field names of a known kind (`fields`). -/
def fields? (schema : Schema) (kind : String) : Option (List String) :=
  schema.entries.lookup kind

/-- Whether a kind has an entry (`contains`). -/
def contains (schema : Schema) (kind : String) : Bool :=
  (schema.fields? kind).isSome

/-- How many kinds have an entry (`len`). -/
def size (schema : Schema) : Nat :=
  schema.entries.length

/-- Whether no kind has an entry (`is_empty`). -/
def isEmpty (schema : Schema) : Bool :=
  schema.entries.isEmpty

/-- The known kinds in increasing order (`kinds`). -/
def kinds (schema : Schema) : List String :=
  schema.entries.map (·.1)

/-- Adds the entry of a kind, in place of an earlier one (`insert`). -/
def insert (schema : Schema) (kind : String) (fields : List String) :
    Except RepeatedField Schema :=
  match firstRepeat? fields with
  | some field => .error ⟨kind, field⟩
  | none => .ok ⟨NameTable.insert kind fields schema.entries⟩

/-- Adds entries one after the other, up to the first that repeats a field (`from_toml_str`). -/
def insertAll (schema : Schema) : List (String × List String) → Except RepeatedField Schema
  | [] => .ok schema
  | (kind, fields) :: rest => do (← schema.insert kind fields).insertAll rest

/-- The schema made of these entries; where several repeat a field, the smallest kind tells
(`from_toml_str`). -/
def ofEntries (entries : NameTable (List String)) : Except RepeatedField Schema :=
  empty.insertAll entries

/-- The entries of `newer` over those of `schema` (`extend`). -/
def extend (schema newer : Schema) : Schema :=
  ⟨NameTable.extend schema.entries newer.entries⟩

end Schema

end TreeText
