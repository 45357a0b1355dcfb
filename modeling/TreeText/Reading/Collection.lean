import TreeText.Reading.Visitor

/-!
# Subscripts, dictionaries and comprehensions

What stands in brackets after a value is one index, one slice, a tuple of indices, or, if a slice
is among several items, a list of them. The bounds of a slice are placed by the colons before them.
The clauses of a comprehension are grouped by loops: a filter belongs to the loop before it.

Notes on the form: the bounds of a slice are an array of three and a counter in `lower_slice_item`,
and named fields here. `lower_generators` appends a filter to the last loop of its list; here the
list of loops has the last one in front, and is turned around at the end.
-/

namespace TreeText

/-! ## Slices -/

/-- The bounds of a slice, and how many of its colons have been passed (`lower_slice_item`). -/
structure Bounds where
  lower : Tree
  upper : Tree
  step : Tree
  colons : Nat

namespace Bounds

/-- No bounds, before the first colon. -/
def start : Bounds := ⟨.absent, .absent, .absent, 0⟩

/-- Passes a colon. -/
def pass (bounds : Bounds) : Bounds := { bounds with colons := bounds.colons + 1 }

/-- Puts a bound where the colons say (`lower_slice_item`). -/
def place (bounds : Bounds) (value : Tree) : Bounds :=
  match bounds.colons with
  | 0 => { bounds with lower := value }
  | 1 => { bounds with upper := value }
  | 2 => { bounds with step := value }
  | _ => bounds

/-- The node of a slice (`lower_slice_item`). -/
def toTree (bounds : Bounds) : Tree :=
  .record "Slice"
    [("lower", bounds.lower), ("upper", bounds.upper), ("step", bounds.step)]

end Bounds

/-! ## Comprehensions -/

/-- A loop of a comprehension with its filters (`lower_generators`). -/
structure Loop where
  target : Tree
  iterable : Tree
  filters : List Tree
  isAsync : Bool

/-- The node of a loop, with its filters and whether it is asynchronous (`lower_generators`). -/
def Loop.toTree (loop : Loop) : Tree :=
  .record "comprehension" [
    ("target", loop.target),
    ("iter", loop.iterable),
    ("ifs", .seq loop.filters),
    ("is_async", .int (if loop.isAsync then 1 else 0))]

namespace Visitor

variable {m : Type → Type} [Monad m] [MonadExceptOf Fault m] (v : Visitor m)

/-- Takes the next child of a slice into account (`lower_slice_item`). -/
def addBound (bounds : Bounds) (c : Cst) : m Bounds :=
  if !c.isNamed then
    pure (if c.kind = ":" then bounds.pass else bounds)
  else if c.kind ≠ "comment" ∧ bounds.colons < 3 then do
    return bounds.place (← v.load c)
  else pure bounds

/-- One item in the brackets of a subscript (`lower_slice_item`). -/
def subscriptItem (c : Cst) : m Tree :=
  if c.kind = "slice" then do
    return (← c.children.foldlM v.addBound Bounds.start).toTree
  else do
    return .index (← v.load c)

/-- What stands in the brackets of a subscript (`lower_subscript`). -/
def subscriptItems (hasComma : Bool) (items : List Cst) : m Tree :=
  match hasComma, items with
  | false, [single] => v.subscriptItem single
  | _, many =>
    if many.any fun item => item.kind == "slice" then do
      return .record "ExtSlice" [("dims", .seq (← many.mapM v.subscriptItem))]
    else do
      return .index (← v.tuple .load many)

/-- A value with something in brackets after it (`lower_subscript`). The brackets are read first. -/
def subscript (access : Access) (c : Cst) : m Tree := do
  let slice ← v.subscriptItems (c.hasToken ",") (c.childrenUnder "subscript")
  let value ← v.load (← c.require "value")
  return .record "Subscript"
    [("value", value), ("slice", slice), ("ctx", access.marker)]

/-! ## Dictionaries -/

/-- A key and its value; the key is absent where another dictionary is spread (`lower_dict`). -/
def dictItem (c : Cst) : m (Tree × Tree) :=
  match c.kind with
  | "pair" => do
    let key ← v.load (← c.require "key")
    let value ← v.load (← c.require "value")
    return (key, value)
  | "dictionary_splat" => do
    let value ← v.load (← c.firstPart)
    return (.absent, value)
  | _ => throw (c.fault (.unexpectedDictItem c.kind))

/-- A dictionary, as a list of keys and a list of values (`lower_dict`). -/
def dictionary (c : Cst) : m Tree := do
  let items ← c.significant.mapM v.dictItem
  return .record "Dict"
    [("keys", .seq (items.map (·.1))), ("values", .seq (items.map (·.2)))]

/-! ## Comprehensions -/

/-- Adds a clause to the loops so far, the last of which comes first (`lower_generators`). -/
def addClause (loops : List Loop) (c : Cst) : m (List Loop) :=
  match c.kind with
  | "for_in_clause" => do
    let target ← v.store (← c.require "left")
    let iterable ← v.joined c (c.childrenUnder "right")
    return ⟨target, iterable, [], c.hasToken "async"⟩ :: loops
  | "if_clause" => do
    let test ← v.load (← c.firstPart)
    match loops with
    | loop :: before => return { loop with filters := loop.filters ++ [test] } :: before
    | [] => throw (c.fault .filterBeforeLoop)
  | _ => pure loops

/-- The loops of a comprehension, whose body is no clause (`lower_generators`). -/
def loops (c : Cst) : m Tree := do
  let loops ← (c.significantBeside "body").foldlM v.addClause []
  return .seq (loops.reverse.map Loop.toTree)

/-- A comprehension with one value for each element (`lower_expr_kind`). -/
def comprehension (kind : String) (c : Cst) : m Tree := do
  let body ← c.require "body"
  let element ← v.load body
  let loops ← v.loops c
  return .record kind [("elt", element), ("generators", loops)]

/-- A comprehension with a key and a value for each element (`lower_expr_kind`). -/
def dictComprehension (c : Cst) : m Tree := do
  let body ← c.require "body"
  let key ← v.load (← body.require "key")
  let value ← v.load (← body.require "value")
  let loops ← v.loops c
  return .record "DictComp" [("key", key), ("value", value), ("generators", loops)]

end Visitor

end TreeText
