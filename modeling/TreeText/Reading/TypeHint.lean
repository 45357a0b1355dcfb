import TreeText.Reading.Visitor

/-!
# Types

The grammar gives types in annotations constructs of their own. A tree shows them like the
expressions with the same text: parameters in brackets are a subscript, a bar is an operator, a
dotted name an attribute.

Notes on the form: each branch of `lower_type` is a rule of its own. Its last branch reads an
expression in the same place, which is a parameter here, since it counts a level of nesting and
types do not.
-/

namespace TreeText

/-- The constructs of types. -/
inductive TypeForm where
  /-- Something that stands in the place of a type. -/
  | wrapped
  | generic
  | union
  | member
  | splat
  /-- Any other construct, an expression. -/
  | ordinary
deriving DecidableEq

/-- The construct that a kind of node stands for (`lower_type`). -/
def TypeForm.ofKind : String → TypeForm
  | "type" => .wrapped
  | "generic_type" => .generic
  | "union_type" => .union
  | "member_type" => .member
  | "splat_type" => .splat
  | _ => .ordinary

namespace Visitor

variable {m : Type → Type} [Monad m] [MonadExceptOf Fault m] (v : Visitor m)

/-- What stands in the brackets after a generic type. -/
def typeArguments : List Cst → m Tree
  | [single] => v.typeHint single
  | many => do return .tuple (← many.mapM v.typeHint) .load

/-- A type with parameters (`lower_type`). The parameters are read before the type. -/
def genericType (c : Cst) : m Tree :=
  match c.significant with
  | [] => throw (c.fault .emptyGenericType)
  | base :: parameters => do
    let value ← v.typeArguments (parameters.flatMap Cst.significant)
    let base ← v.typeHint base
    return .record "Subscript"
      [("value", base), ("slice", .index value), ("ctx", Access.load.marker)]

/-- Two types with a bar between them (`lower_type`). -/
def unionType (c : Cst) : m Tree :=
  match c.significant with
  | [left, right] => do
    let left ← v.typeHint left
    let right ← v.typeHint right
    return .record "BinOp" [("left", left), ("op", .leaf "BitOr"), ("right", right)]
  | _ => throw (c.fault .malformedUnionType)

/-- A type that is a member of something (`lower_type`). -/
def memberType (c : Cst) : m Tree :=
  match c.significant with
  | [value, name] => do
    let value ← v.typeHint value
    return .record "Attribute"
      [("value", value), ("attr", .str (v.text name)), ("ctx", Access.load.marker)]
  | _ => throw (c.fault .malformedMemberType)

/-- A starred type (`lower_type`). -/
def splatType (c : Cst) : m Tree := do
  let value ← v.typeHint (← c.firstPart)
  return .record "Starred" [("value", value), ("ctx", Access.load.marker)]

/-- Reads a type, given how an expression in its place is read (`lower_type`). -/
def typeForm (ordinary : Cst → m Tree) (c : Cst) : m Tree :=
  match TypeForm.ofKind c.kind with
  | .wrapped => do v.typeHint (← c.firstPart)
  | .generic => v.genericType c
  | .union => v.unionType c
  | .member => v.memberType c
  | .splat => v.splatType c
  | .ordinary => ordinary c

end Visitor

end TreeText
