import TreeText.Diagnostic
import TreeText.Tree

/-!
# What every reading rule works with

Reading turns the concrete syntax of a construct into an abstract syntax tree. The rules of the
single constructs do not call one another where they come to a part of the construct: they hand the
part over to a `Visitor`, together with the `Role` that it plays. So each rule can be looked at
alone, for any visitor, and how deep constructs may nest is decided where the visitor is made.

The visitor may do more than fail: a rule only puts readings one after the other, so it works in any
monad that knows faults. The text is read in one that also counts levels of nesting.

Notes on the form: the rules are the methods of `LowerContext`. Its source and the recursive calls
of `lower_stmt`, `lower_expr` and `lower_type` are the two fields of a `Visitor`; its counter of
levels is in the monad, and its file name is put to the fault when reading has ended. An option or a
vector that turns into a tree by `into` is put into one by hand (`Tree.ofText?`, `Tree.seq`).
-/

namespace TreeText

/-- What happens to the value of an expression (`Ctx`). -/
inductive Access where
  | load
  | store
  | del
deriving DecidableEq

/-- The node that shows the access in a tree (`Ctx::leaf`). -/
def Access.marker : Access → Tree
  | .load => .leaf "Load"
  | .store => .leaf "Store"
  | .del => .leaf "Del"

/-- What the letters before a literal's opening quote ask for (`Prefix`). -/
structure Marks where
  raw : Bool
  bytes : Bool
  formatted : Bool
  unicode : Bool
deriving DecidableEq

namespace Reading

/-- The result of reading a construct. -/
abbrev Result := Except Fault

theorem exists_of_bind_eq_ok {α β : Type} {x : Result α} {f : α → Result β} {b : β}
    (h : x >>= f = .ok b) : ∃ a, x = .ok a ∧ f a = .ok b := by
  cases x with
  | error fault => cases h
  | ok a => exact ⟨a, rfl, h⟩

theorem length_eq_of_mapM_eq_ok {α β : Type} {f : α → Result β} {xs : List α} {ys : List β}
    (h : xs.mapM f = .ok ys) : ys.length = xs.length := by
  induction xs generalizing ys with
  | nil => cases h; rfl
  | cons x xs ih =>
    rw [List.mapM_cons] at h
    obtain ⟨y, -, h⟩ := exists_of_bind_eq_ok h
    obtain ⟨rest, hrest, h⟩ := exists_of_bind_eq_ok h
    cases h
    rw [List.length_cons, List.length_cons, ih hrest]

/-- The part that a concrete node plays in the construct around it. -/
inductive Role where
  | statement
  | expression (access : Access)
  /-- An expression in the place of a type. -/
  | typeHint
  /-- The format after the colon of a replacement field, in a literal with these marks. -/
  | formatSpec (marks : Marks)
deriving DecidableEq

end Reading

/-- A monad to read in: a fault ends the reading. -/
class LawfulReading (m : Type → Type) [Monad m] [MonadExceptOf Fault m] : Prop
    extends LawfulMonad m where
  throw_bind {α β : Type} (fault : Fault) (f : α → m β) : (throw fault : m α) >>= f = throw fault

instance : LawfulReading Reading.Result where
  throw_bind _ _ := rfl

/-- The source text, and how the parts of a construct are read. -/
structure Visitor (m : Type → Type) where
  source : Source
  visit : Reading.Role → Cst → m Tree

/-! ## Parts that have to be there -/

namespace Cst

variable {m : Type → Type} [Monad m] [MonadExceptOf Fault m]

/-- The first child under a field (`field`). -/
def require (c : Cst) (name : String) : m Cst :=
  match c.child? name with
  | some child => pure child
  | none => throw (c.fault (.missingField c.kind name))

theorem require_of_none {c : Cst} {name : String} (h : c.child? name = none) :
    c.require name = (throw (c.fault (.missingField c.kind name)) : m Cst) := by
  rw [require, h]

theorem require_of_some {c child : Cst} {name : String} (h : c.child? name = some child) :
    c.require name = (pure child : m Cst) := by
  rw [require, h]

/-- The first significant child (`first_named`). -/
def firstPart (c : Cst) : m Cst :=
  match c.significant with
  | part :: _ => pure part
  | [] => throw (c.fault (.empty c.kind))

end Cst

/-! ## Nodes that several rules build -/

namespace Tree

/-- A scalar by the name of its type and its spelling (`scalar`). -/
def scalar (type spelling : String) : Tree :=
  .record type [("value", .str spelling)]

/-- A whole number (`int`). -/
def int (value : Int) : Tree :=
  scalar "int" (toString value)

/-- A constant (`constant`). -/
def constant (value : Tree) : Tree :=
  .record "Constant" [("value", value), ("kind", .absent)]

/-- A name and what happens to its value. -/
def name (id : String) (access : Access) : Tree :=
  .record "Name" [("id", .str id), ("ctx", access.marker)]

/-- A tuple of trees. -/
def tuple (elements : List Tree) (access : Access) : Tree :=
  .record "Tuple" [("elts", .seq elements), ("ctx", access.marker)]

/-- A subscript that is not a slice. -/
def index (value : Tree) : Tree :=
  .record "Index" [("value", value)]

end Tree

/-! ## Reading by roles -/

namespace Visitor

variable {m : Type → Type} [Monad m] [MonadExceptOf Fault m] (v : Visitor m)

/-- The source text of a node. -/
def text (c : Cst) : String := c.text v.source

/-- A statement. -/
def statement (c : Cst) : m Tree := v.visit .statement c

/-- An expression with this access. -/
def expression (access : Access) (c : Cst) : m Tree := v.visit (.expression access) c

/-- An expression whose value is used. -/
def load (c : Cst) : m Tree := v.expression .load c

/-- An expression that gets a value. -/
def store (c : Cst) : m Tree := v.expression .store c

/-- An expression in the place of a type. -/
def typeHint (c : Cst) : m Tree := v.visit .typeHint c

/-- An expression that may be left out (`optional_expr`). -/
def load? : Option Cst → m Tree
  | some c => v.load c
  | none => pure .absent

/-- A type that may be left out (`optional_type`). -/
def typeHint? : Option Cst → m Tree
  | some c => v.typeHint c
  | none => pure .absent

/-- Expressions one after the other (`elements`). -/
def elements (access : Access) (nodes : List Cst) : m (List Tree) :=
  nodes.mapM (v.expression access)

/-- A tuple of these expressions (`LowerContext::tuple`). -/
def tuple (access : Access) (nodes : List Cst) : m Tree := do
  return .tuple (← v.elements access nodes) access

/-- One expression as itself, several as a tuple (`lower_exprs`). -/
def joined (parent : Cst) : List Cst → m Tree
  | [] => throw (parent.fault (.empty parent.kind))
  | [single] => v.load single
  | many => v.tuple .load many

/-- The statements of a block (`lower_block`). -/
def block (c : Cst) : m (List Tree) :=
  c.significant.mapM v.statement

/-- The statements of the body of an `else` clause that may be left out (`lower_else`). -/
def elseBody : Option Cst → m (List Tree)
  | some clause => do v.block (← clause.require "body")
  | none => pure []

end Visitor

end TreeText
