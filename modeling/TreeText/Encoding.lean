import TreeText.Tree
import TreeText.SExpr
import TreeText.Schema

/-!
# From trees to S-expressions

A node of a known kind becomes a list: its kind, then each listed field's marker and value, with
the absence token for a field that the node lacks. A node of an unknown kind becomes a
placeholder, whatever its fields hold, and its surroundings are written as ever. So encoding is
total, and `unknownKinds` tells which placeholders it writes.

Notes on the form: `encode_node` and `collect_unknown` look a listed field up and go down into it.
Here both recursions go down every field of a node of a known kind and then pick the listed ones
from the table of results, which keeps them structural. The set that `collect_unknown` adds to is a
list here, which `unknownKinds` puts in order.
-/

namespace TreeText.Schema

variable (schema : Schema)

/-- The marker and the value of each listed field, in the order of the list. -/
def markedFields (names : List String) (values : NameTable SExpr) : List SExpr :=
  names.flatMap fun name => [.keyword name, (values.lookup name).getD .nil]

mutual

/-- The S-expression of a tree (`encode`, `encode_node`). -/
def encode : Tree → SExpr
  | .absent => .nil
  | .str text => .str text
  | .seq items => .list (encodeItems items)
  | .node kind fields =>
    match schema.fields? kind with
    | none => .placeholder kind
    | some names => .list (.symbol kind :: markedFields names (encodeFields fields))

/-- The S-expression of each item. -/
def encodeItems : List Tree → List SExpr
  | [] => []
  | item :: rest => encode item :: encodeItems rest

/-- The S-expression of each field's value. -/
def encodeFields : List (String × Tree) → NameTable SExpr
  | [] => []
  | (name, value) :: rest => (name, encode value) :: encodeFields rest

end

theorem encodeItems_eq_map (items : List Tree) :
    schema.encodeItems items = items.map schema.encode := by
  induction items with
  | nil => rfl
  | cons item rest ih => rw [encodeItems, ih, List.map_cons]

theorem lookup_encodeFields (fields : List (String × Tree)) (name : String) :
    (schema.encodeFields fields).lookup name = (fields.lookup name).map schema.encode :=
  NameTable.lookup_of_eachPair (fun _ => schema.encode) rfl (fun _ _ _ => rfl) fields name

/-- A tree as one line of text (`to_sexp_string`). -/
def textOf (tree : Tree) : String :=
  (schema.encode tree).render

/-! ## Placeholders -/

/-- What is found in the listed fields, in the order of the list. -/
def foundInListed (names : List String) (found : NameTable (List String)) : List String :=
  names.flatMap fun name => (found.lookup name).getD []

mutual

/-- The kinds without an entry that encoding comes across, in the order of the text
(`collect_unknown`). -/
def unknownIn : Tree → List String
  | .absent => []
  | .str _ => []
  | .seq items => unknownInItems items
  | .node kind fields =>
    match schema.fields? kind with
    | none => [kind]
    | some names => foundInListed names (unknownInFields fields)

/-- `unknownIn` of all items together. -/
def unknownInItems : List Tree → List String
  | [] => []
  | item :: rest => unknownIn item ++ unknownInItems rest

/-- `unknownIn` of each field's value. -/
def unknownInFields : List (String × Tree) → NameTable (List String)
  | [] => []
  | (name, value) :: rest => (name, unknownIn value) :: unknownInFields rest

end

theorem unknownInItems_eq_flatMap (items : List Tree) :
    schema.unknownInItems items = items.flatMap schema.unknownIn := by
  induction items with
  | nil => rfl
  | cons item rest ih => rw [unknownInItems, ih, List.flatMap_cons]

theorem lookup_unknownInFields (fields : List (String × Tree)) (name : String) :
    (schema.unknownInFields fields).lookup name = (fields.lookup name).map schema.unknownIn :=
  NameTable.lookup_of_eachPair (fun _ => schema.unknownIn) rfl (fun _ _ _ => rfl) fields name

/-- The kinds that a tree's text shows as placeholders, in increasing order, each once
(`unknown_kinds`). -/
def unknownKinds (tree : Tree) : List String :=
  (NameTable.ofList ((schema.unknownIn tree).map fun kind => (kind, ()))).map (·.1)

end TreeText.Schema
