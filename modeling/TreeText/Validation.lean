import TreeText.Tree
import TreeText.Schema

/-!
# Strict validation

Encoding tolerates unknown kinds and missing fields; `Schema.validate` refuses both, except for
kinds that it is told to accept as placeholders. It looks at the nodes that encoding looks at, in
the same order, and reports the first defect together with the path that leads to it.

The path to the tree that is looked at stands on a buffer, which `validate_at` is handed to change:
a sequence puts the number of each item behind the path and cuts it off again when the item has
been accepted, and a node writes a path of its own for each of its fields.

Notes on the form: the buffer is the state of a monad under the defects. `push_str` is `++`, and
`truncate` counts characters here, not bytes; it only ever cuts off what was put behind the path.
The checks of all fields of a node are laid out before the listed ones among them are run
(`validateFields`), so that the recursion is on the tree; a check that is not run does nothing.
-/

namespace TreeText

/-- Why a tree does not fit a schema, with the path to the node (`ValidationError`). -/
inductive Defect where
  | unknownKind (kind path : String)
  | missingField (kind field path : String)
deriving DecidableEq

/-- The wording of a defect. -/
def Defect.message : Defect → String
  | .unknownKind kind path => "unknown node kind " ++ kind ++ " at " ++ path
  | .missingField kind field path =>
    kind ++ " node at " ++ path ++ " has no '" ++ field ++ "' field"

/-- A check that fails with a defect and keeps the path to what it looks at on a buffer. -/
abbrev Check := ExceptT Defect (StateM String) Unit

namespace Check

/-- What a check comes to with this path on the buffer, and the path that it leaves there. -/
def runFrom (path : String) (check : Check) : Except Defect Unit × String :=
  check.run.run path

/-- Makes a check with a path of its own on the buffer. -/
def withPath (path : String) (check : Check) : Check :=
  ExceptT.mk (pure (check.runFrom path).1)

/-- The first characters of a path. -/
def truncate (path : String) (length : Nat) : String :=
  String.ofList (path.toList.take length)

end Check

namespace Schema

variable (schema : Schema) (allowed : List String)

/-- Checks the listed fields of the node at `here` in order, given the checks of those it has. -/
def validateListed (kind here : String) (checks : NameTable Check) : List String → Check
  | [] => pure ()
  | name :: rest =>
    match checks.lookup name with
    | none => throw (.missingField kind name here)
    | some check => do
      check
      validateListed kind here checks rest

mutual

/-- Checks the tree at the path on the buffer (`validate_at`). The root has no path, so a node
there goes by its kind. -/
def validateAt : Tree → Check
  | .absent => pure ()
  | .str _ => pure ()
  | .seq items => validateItems 0 items
  | .node kind fields => do
    let path ← get
    let here := if path.isEmpty then kind else path
    match schema.fields? kind with
    | none => if kind ∈ allowed then pure () else throw (.unknownKind kind here)
    | some names => validateListed kind here (validateFields here fields) names

/-- Checks the items from number `index` on of the sequence at the path on the buffer. -/
def validateItems (index : Nat) : List Tree → Check
  | [] => pure ()
  | item :: rest => do
    let length := (← get).length
    modify (· ++ ("[" ++ toString index ++ "]"))
    validateAt item
    modify (Check.truncate · length)
    validateItems (index + 1) rest

/-- The check of each field of the node at `here`. -/
def validateFields (here : String) : List (String × Tree) → NameTable Check
  | [] => []
  | (name, value) :: rest =>
    (name, .withPath (here ++ "." ++ name) (validateAt value)) :: validateFields here rest

end

/-- The first defect of a tree, unless each kind it shows has an entry or is allowed and each
listed field is there (`Validator::validate`, for a validator that allows these placeholders). -/
def validate (tree : Tree) : Except Defect Unit :=
  ((schema.validateAt allowed tree).runFrom "").1

end Schema

end TreeText
