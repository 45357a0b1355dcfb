import TreeText.Tree
import TreeText.Json.Reader
import TreeText.Json.Printer

/-!
# Trees as JSON

An absence is `null`, text a string, a sequence an array, and a node an object with its `kind` and,
unless it has none, its `fields`. Reading also takes a node written as an array of its kind and its
fields, where the array is no sequence of trees; it passes over other members of an object, and
where a field is given twice the later value counts.

A text is read as one JSON value first; then the value has to be a tree, and then nothing but
blanks may be left of the text.

Notes on the form: the source derives both ways from the types `Tree`, which is untagged, and
`Node`. What is derived for them is spelled out here: the variants are tried in order on the value,
and a node is a map, or a sequence, of its two members, the second of which may be left out of a
map.
-/

namespace TreeText.Tree

/-! ## Writing -/

mutual

/-- A tree as a JSON value. -/
def toJson : Tree → Json
  | .absent => .null
  | .str text => .str text
  | .seq items => .arr (itemsToJson items)
  | .node kind [] => .obj [("kind", .str kind)]
  | .node kind ((name, value) :: fields) =>
    .obj [("kind", .str kind),
      ("fields", .obj ((name, toJson value) :: fieldsToJson fields))]

/-- `toJson` of each item. -/
def itemsToJson : List Tree → List Json
  | [] => []
  | item :: rest => toJson item :: itemsToJson rest

/-- `toJson` of each field's value. -/
def fieldsToJson : List (String × Tree) → List (String × Json)
  | [] => []
  | (name, value) :: rest => (name, toJson value) :: fieldsToJson rest

end

/-- The JSON text of a tree on one line. -/
def compactText (tree : Tree) : String := tree.toJson.compact

/-- The JSON text of a tree on indented lines. -/
def prettyText (tree : Tree) : String := tree.toJson.pretty

/-! ## Reading -/

/-- The kind that an object gives, if it gives exactly one. -/
def kindOf? (members : List (String × Json)) : Option String :=
  match members.filter fun member => member.1 == "kind" with
  | [(_, .str kind)] => some kind
  | _ => none

mutual

/-- The tree that a JSON value stands for. -/
def ofJson? : Json → Option Tree
  | .null => some .absent
  | .str text => some (.str text)
  | .arr items =>
    match ofItems? items with
    | some trees => some (.seq trees)
    | none => ofPair? items
  | .obj members =>
    match kindOf? members with
    | none => none
    | some kind =>
      match fieldTables members with
      | [] => some (.node kind [])
      | [some fields] => some (.node kind fields)
      | _ => none
  | _ => none

/-- The trees that all of these values stand for. -/
def ofItems? : List Json → Option (List Tree)
  | [] => some []
  | item :: rest =>
    match ofJson? item with
    | none => none
    | some tree => (ofItems? rest).map (tree :: ·)

/-- The node that a kind and its fields, side by side, stand for. -/
def ofPair? : List Json → Option Tree
  | [.str kind, .obj fields] => (ofFields? fields).map fun pairs => .record kind pairs
  | _ => none

/-- The fields that these members stand for, repetitions included. -/
def ofFields? : List (String × Json) → Option (List (String × Tree))
  | [] => some []
  | (name, value) :: rest =>
    match ofJson? value with
    | none => none
    | some tree => (ofFields? rest).map ((name, tree) :: ·)

/-- What each member named `fields` stands for. -/
def fieldTables : List (String × Json) → List (Option (NameTable Tree))
  | [] => []
  | (name, value) :: rest =>
    if name = "fields" then fieldTable? value :: fieldTables rest else fieldTables rest

/-- The fields that an object of trees stands for. -/
def fieldTable? : Json → Option (NameTable Tree)
  | .obj members => (ofFields? members).map NameTable.ofList
  | _ => none

end

/-- Why a text is not the JSON text of a tree. -/
inductive ReadError where
  /-- The text is not one JSON value. -/
  | text (fault : Json.ReadError)
  /-- The JSON value stands for no tree. -/
  | noTree
deriving DecidableEq

/-- The tree of a JSON text. -/
def read (text : String) : Except ReadError Tree :=
  match Json.read text with
  | .error fault => .error (.text fault)
  | .ok (value, rest) =>
    match ofJson? value with
    | none => .error .noTree
    | some tree => if (Json.skipBlanks rest).isEmpty then .ok tree else .error (.text .malformed)

end TreeText.Tree
