import TreeText.Reading.TypeHint
import TreeText.Reading.Literal
import TreeText.Reading.Call
import TreeText.Reading.Operator
import TreeText.Reading.Collection

/-!
# Expressions

An expression is read by its construct. The access goes on into parentheses, lists, tuples and
starred expressions, and shows in names, attributes and subscripts; everything else only uses the
values of its parts. A construct without a rule becomes a leaf of its kind.

Notes on the form: `lower_expr_kind` has one branch for every kind of node; here the kind is turned
into an `ExpressionForm` first, and the branches that are more than a line long are rules of their
own.
-/

namespace TreeText

/-- The constructs of expressions. -/
inductive ExpressionForm where
  | name
  | number
  /-- A word that is a value. -/
  | constant (value : Tree)
  | literal
  | literals
  | parentheses
  /-- The name after an `as`. -/
  | target
  | typeHint
  | binaryOperation
  | booleanOperation
  | negation
  | unaryOperation
  | comparison
  | call
  | attributeOf
  | subscript
  | list
  | tuple
  | set
  | dictionary
  | starred
  | comprehension (kind : String)
  | dictComprehension
  | conditional
  | lambda
  | await
  | yield
  | namedValue
  /-- Any other construct. -/
  | leaf (kind : String)

/-- The construct that a kind of node stands for (`lower_expr_kind`). -/
def ExpressionForm.ofKind : String → ExpressionForm
  | "identifier" => .name
  | "keyword_identifier" => .name
  | "integer" => .number
  | "float" => .number
  | "true" => .constant (.scalar "bool" "True")
  | "false" => .constant (.scalar "bool" "False")
  | "none" => .constant .absent
  | "ellipsis" => .constant (.scalar "ellipsis" "...")
  | "string" => .literal
  | "concatenated_string" => .literals
  | "parenthesized_expression" => .parentheses
  | "as_pattern_target" => .target
  | "type" => .typeHint
  | "binary_operator" => .binaryOperation
  | "boolean_operator" => .booleanOperation
  | "not_operator" => .negation
  | "unary_operator" => .unaryOperation
  | "comparison_operator" => .comparison
  | "call" => .call
  | "attribute" => .attributeOf
  | "subscript" => .subscript
  | "list" => .list
  | "list_pattern" => .list
  | "tuple" => .tuple
  | "tuple_pattern" => .tuple
  | "expression_list" => .tuple
  | "pattern_list" => .tuple
  | "set" => .set
  | "dictionary" => .dictionary
  | "list_splat" => .starred
  | "list_splat_pattern" => .starred
  | "list_comprehension" => .comprehension "ListComp"
  | "set_comprehension" => .comprehension "SetComp"
  | "generator_expression" => .comprehension "GeneratorExp"
  | "dictionary_comprehension" => .dictComprehension
  | "conditional_expression" => .conditional
  | "lambda" => .lambda
  | "await" => .await
  | "yield" => .yield
  | "named_expression" => .namedValue
  | kind => .leaf kind

/-- Logical operators and comparisons come from one kind of node each. -/
theorem ExpressionForm.kind_of_ofKind {kind : String} {form : ExpressionForm}
    (h : ofKind kind = form) :
    (form = .booleanOperation → kind = "boolean_operator") ∧
      (form = .comparison → kind = "comparison_operator") := by
  unfold ofKind at h
  split at h <;> subst h <;> constructor <;> first | exact fun _ => rfl | nofun

namespace Visitor

variable {m : Type → Type} [Monad m] [MonadExceptOf Fault m] (v : Visitor m)

/-- A name. -/
def nameExpression (access : Access) (c : Cst) : Tree :=
  .name (v.text c) access

/-- The name of the scalar type of a number (`lower_number`). -/
def numberType (c : Cst) : String :=
  match (v.text c).toList.getLast? with
  | some 'j' => "complex"
  | some 'J' => "complex"
  | _ => if c.kind = "float" then "float" else "int"

/-- A number, with its spelling (`lower_number`). -/
def number (c : Cst) : Tree :=
  .constant (.scalar (v.numberType c) (v.text c))

/-- What gets a value after an `as`. -/
def asTarget (access : Access) (c : Cst) : m Tree :=
  match c.significant with
  | inner :: _ => v.expression access inner
  | [] => pure (v.nameExpression access c)

/-- The arguments of a call, which may be a single generator without parentheses of its own. -/
def callArguments (c : Cst) : m (List Tree × List Tree) :=
  if c.kind = "generator_expression" then do
    return ([← v.load c], [])
  else v.arguments c

/-- A call. The arguments are read before what is called. -/
def call (c : Cst) : m Tree := do
  let list ← c.require "arguments"
  let (positional, keywords) ← v.callArguments list
  let callee ← v.load (← c.require "function")
  return .record "Call"
    [("func", callee), ("args", .seq positional), ("keywords", .seq keywords)]

/-- An attribute of a value. -/
def attributeOf (access : Access) (c : Cst) : m Tree := do
  let value ← v.load (← c.require "object")
  let name ← c.require "attribute"
  return .record "Attribute"
    [("value", value), ("attr", .str (v.text name)), ("ctx", access.marker)]

/-- A list, or a list of targets. -/
def list (access : Access) (c : Cst) : m Tree := do
  let elements ← v.elements access c.significant
  return .record "List" [("elts", .seq elements), ("ctx", access.marker)]

/-- A set. -/
def set (c : Cst) : m Tree := do
  return .record "Set" [("elts", .seq (← v.elements .load c.significant))]

/-- A starred expression, which hands its access on. -/
def starred (access : Access) (c : Cst) : m Tree := do
  let value ← v.expression access (← c.firstPart)
  return .record "Starred" [("value", value), ("ctx", access.marker)]

/-- A conditional expression, whose test stands between its two values. -/
def conditional (c : Cst) : m Tree :=
  match c.significant with
  | [body, test, orelse] => do
    let test ← v.load test
    let body ← v.load body
    let orelse ← v.load orelse
    return .record "IfExp" [("test", test), ("body", body), ("orelse", orelse)]
  | _ => throw (c.fault .malformedConditional)

/-- A function without a name. -/
def lambda (c : Cst) : m Tree := do
  let parameters ← v.parameters (c.child? "parameters")
  let body ← v.load (← c.require "body")
  return .record "Lambda" [("args", parameters), ("body", body)]

/-- A value that is waited for. -/
def await (c : Cst) : m Tree := do
  return .record "Await" [("value", ← v.load (← c.firstPart))]

/-- A value that is handed out, or those of another generator. -/
def yield (c : Cst) : m Tree :=
  if c.hasToken "from" then do
    return .record "YieldFrom" [("value", ← v.joined c c.significant)]
  else if c.significant.isEmpty then
    pure (.record "Yield" [("value", .absent)])
  else do
    return .record "Yield" [("value", ← v.joined c c.significant)]

/-- A value that also gets a name. -/
def namedValue (c : Cst) : m Tree := do
  let target ← v.store (← c.require "name")
  let value ← v.load (← c.require "value")
  return .record "NamedExpr" [("target", target), ("value", value)]

/-- Reads an expression by its construct (`lower_expr_kind`). -/
def expressionForm (access : Access) (c : Cst) : m Tree :=
  match ExpressionForm.ofKind c.kind with
  | .name => pure (v.nameExpression access c)
  | .number => pure (v.number c)
  | .constant value => pure (.constant value)
  | .literal => v.literals [c]
  | .literals => v.literals c.significant
  | .parentheses => do v.expression access (← c.firstPart)
  | .target => v.asTarget access c
  | .typeHint => do v.typeHint (← c.firstPart)
  | .binaryOperation => v.binaryOperation c
  | .booleanOperation => v.booleanOperation c
  | .negation => v.negation c
  | .unaryOperation => v.unaryOperation c
  | .comparison => v.comparison c
  | .call => v.call c
  | .attributeOf => v.attributeOf access c
  | .subscript => v.subscript access c
  | .list => v.list access c
  | .tuple => v.tuple access c.significant
  | .set => v.set c
  | .dictionary => v.dictionary c
  | .starred => v.starred access c
  | .comprehension kind => v.comprehension kind c
  | .dictComprehension => v.dictComprehension c
  | .conditional => v.conditional c
  | .lambda => v.lambda c
  | .await => v.await c
  | .yield => v.yield c
  | .namedValue => v.namedValue c
  | .leaf kind => pure (.leaf kind)

end Visitor

end TreeText
