import TreeText.Reading.Call
import TreeText.Reading.Import
import TreeText.Reading.Operator

/-!
# Statements

A statement is read by its construct. Where two parts of a statement are faulty, the one that is
read first tells; the order in which a rule reads its parts is therefore part of the rule. A
construct without a rule becomes a leaf of its kind.

Notes on the form: `lower_stmt_kind` has one branch for every kind of node; here the kind is turned
into a `StatementForm` first, so that a proof about a rule splits on constructs and not on texts.
Its short branches (`return`, `assert`, `while` and others) are rules of their own. The loops that
fill variables from the parts of a `try` statement or a handler are folds over a record of these
variables.
-/

namespace TreeText

/-- The constructs of statements. -/
inductive StatementForm where
  | expression
  /-- A word that is a statement, or any other construct. -/
  | leaf (kind : String)
  | returning
  | deletion
  | raising
  /-- A declaration of names. -/
  | names (kind : String)
  | assertion
  | importModules
  | importFrom
  | importFuture
  | conditional
  | forLoop
  | whileLoop
  | tryBlock
  | withBlock
  | functionDefinition
  | classDefinition
  | decorated
  | matching
  | typeAlias
  /-- A statement that is a call only with parentheses. -/
  | bareCall (callee : String)

/-- The construct that a kind of node stands for (`lower_stmt_kind`). -/
def StatementForm.ofKind : String → StatementForm
  | "expression_statement" => .expression
  | "pass_statement" => .leaf "Pass"
  | "break_statement" => .leaf "Break"
  | "continue_statement" => .leaf "Continue"
  | "return_statement" => .returning
  | "delete_statement" => .deletion
  | "raise_statement" => .raising
  | "global_statement" => .names "Global"
  | "nonlocal_statement" => .names "Nonlocal"
  | "assert_statement" => .assertion
  | "import_statement" => .importModules
  | "import_from_statement" => .importFrom
  | "future_import_statement" => .importFuture
  | "if_statement" => .conditional
  | "for_statement" => .forLoop
  | "while_statement" => .whileLoop
  | "try_statement" => .tryBlock
  | "with_statement" => .withBlock
  | "function_definition" => .functionDefinition
  | "class_definition" => .classDefinition
  | "decorated_definition" => .decorated
  | "match_statement" => .matching
  | "type_alias_statement" => .typeAlias
  | "print_statement" => .bareCall "print"
  | "exec_statement" => .bareCall "exec"
  | kind => .leaf kind

/-- What the clauses of a `try` statement yield. -/
structure TryClauses where
  handlers : List Tree
  orelse : List Tree
  finalBody : List Tree
  /-- Whether a handler takes exception groups. -/
  hasGroups : Bool

/-- The body of a handler and the expressions before it. -/
structure HandlerParts where
  body : List Tree
  expressions : List Cst

namespace Visitor

open Reading (operatorLeaf)

variable {m : Type → Type} [Monad m] [MonadExceptOf Fault m] (v : Visitor m)

/-! ## Simple statements -/

/-- Expressions that stand alone (`lower_expression_statement`). -/
def expressionStatement (c : Cst) : m Tree := do
  return .record "Expr" [("value", ← v.joined c c.significant)]

/-- An assignment with a type (`lower_assignment`). -/
def typedAssignment (c left type : Cst) : m Tree := do
  let target ← v.store left
  let hint ← v.typeHint type
  let value ← v.load? (c.child? "right")
  let simple := if left.kind = "identifier" then 1 else 0
  return .record "AnnAssign"
    [("target", target), ("annotation", hint), ("value", value), ("simple", .int simple)]

/-- The further targets and the value on the right of an assignment, which may be an assignment
(`lower_assignment`). -/
def assignedValue (c : Cst) : m (List Tree × Tree) :=
  if c.kind = "assignment" then
    match _hl : c.child? "left" with
    | none => throw (c.fault (.missingField c.kind "left"))
    | some left => do
      let target ← v.store left
      match _hr : c.child? "right" with
      | none => throw (c.fault (.missingField c.kind "right"))
      | some right => do
        let (targets, value) ← assignedValue right
        return (target :: targets, value)
  else do
    return ([], ← v.load c)
termination_by c.height
decreasing_by exact Cst.height_lt_of_child? _hr

variable {v} in
theorem assignedValue_of_assignment [LawfulReading m] {c : Cst} (h : c.kind = "assignment") :
    v.assignedValue c = (do
      let target ← v.store (← c.require "left")
      let (targets, value) ← v.assignedValue (← c.require "right")
      return (target :: targets, value)) := by
  rw [assignedValue, if_pos h]
  split
  · next hleft => rw [Cst.require_of_none hleft, LawfulReading.throw_bind]
  · next left hleft =>
    rw [Cst.require_of_some hleft, pure_bind]
    congr 1
    funext target
    split
    · next hright => rw [Cst.require_of_none hright, LawfulReading.throw_bind]
    · next hright => rw [Cst.require_of_some hright, pure_bind]

variable {v} in
theorem assignedValue_of_value {c : Cst} (h : c.kind ≠ "assignment") :
    v.assignedValue c = (do return ([], ← v.load c)) := by
  rw [assignedValue, if_neg h]

/-- An assignment without a type, of one or more targets (`lower_assignment`). -/
def plainAssignment (c left : Cst) : m Tree := do
  let target ← v.store left
  match c.child? "right" with
  | none => throw (c.fault .assignmentWithoutValue)
  | some right => do
    let (targets, value) ← v.assignedValue right
    return .record "Assign" [("targets", .seq (target :: targets)), ("value", value)]

/-- An assignment (`lower_assignment`). -/
def assignment (c : Cst) : m Tree := do
  let left ← c.require "left"
  match c.child? "type" with
  | some type => v.typedAssignment c left type
  | none => v.plainAssignment c left

/-- An assignment with an operator (`lower_aug_assignment`). The operator is looked up first. -/
def augmentedAssignment (c : Cst) : m Tree := do
  let operator ← c.require "operator"
  let text := v.text operator
  let op ← operatorLeaf (fun text => binaryOperator? (withoutEquals text)) operator text
    (.unknownOperator text)
  let target ← v.store (← c.require "left")
  let value ← v.load (← c.require "right")
  return .record "AugAssign" [("target", target), ("op", op), ("value", value)]

/-- A statement that is an expression or an assignment (`lower_expression_statement`). -/
def expressionOrAssignment (c : Cst) : m Tree :=
  match c.significant with
  | [single] =>
    match single.kind with
    | "assignment" => v.assignment single
    | "augmented_assignment" => v.augmentedAssignment single
    | _ => v.expressionStatement c
  | _ => v.expressionStatement c

/-- A `return` statement, perhaps with a value. -/
def returning (c : Cst) : m Tree := do
  return .record "Return" [("value", ← v.load? c.significant.head?)]

/-- The nodes that a `del` statement lists. -/
def deletedNodes (target : Cst) : List Cst :=
  if target.kind = "expression_list" then target.significant else [target]

/-- A `del` statement (`lower_delete`). -/
def deletion (c : Cst) : m Tree := do
  let targets ← v.elements .del (deletedNodes (← c.firstPart))
  return .record "Delete" [("targets", .seq targets)]

/-- A `raise` statement (`lower_raise`). The exception is what is no cause. -/
def raising (c : Cst) : m Tree := do
  let exception ← v.load? (c.significantBeside "cause").head?
  let cause ← v.load? (c.child? "cause")
  return .record "Raise" [("exc", exception), ("cause", cause)]

/-- A declaration of names. -/
def nameList (kind : String) (c : Cst) : Tree :=
  .record kind [("names", .seq (c.significant.map fun name => .str (v.text name)))]

/-- An `assert` statement, perhaps with a message. -/
def assertion (c : Cst) : m Tree := do
  let test ← v.load (← c.firstPart)
  let message ← v.load? c.significant[1]?
  return .record "Assert" [("test", test), ("msg", message)]

/-- A `type` statement. -/
def typeAlias (c : Cst) : m Tree := do
  let name ← v.typeHint? (c.child? "left")
  let value ← v.typeHint? (c.child? "right")
  return .record "TypeAlias" [("name", name), ("value", value)]

/-! ## Compound statements -/

/-- The statements to which the alternatives of a condition come down: a further condition is the
only statement of the branch before it (`lower_else_chain`). -/
def alternatives : List Cst → m (List Tree)
  | [] => pure []
  | clause :: rest =>
    if clause.kind = "elif_clause" then do
      let test ← v.load (← clause.require "condition")
      let body ← v.block (← clause.require "consequence")
      let orelse ← alternatives rest
      return [.record "If" [("test", test), ("body", .seq body), ("orelse", .seq orelse)]]
    else do v.block (← clause.require "body")

/-- An `if` statement with its alternatives (`lower_if`). -/
def conditionalStatement (c : Cst) : m Tree := do
  let test ← v.load (← c.require "condition")
  let body ← v.block (← c.require "consequence")
  let orelse ← v.alternatives (c.childrenUnder "alternative")
  return .record "If" [("test", test), ("body", .seq body), ("orelse", .seq orelse)]

/-- The kind of a statement that may be asynchronous. -/
def kindOf (plain async : String) (c : Cst) : String :=
  if c.hasToken "async" then async else plain

/-- A `for` statement (`lower_for`). -/
def forLoop (c : Cst) : m Tree := do
  let target ← v.store (← c.require "left")
  let iterable ← v.load (← c.require "right")
  let body ← v.block (← c.require "body")
  let orelse ← v.elseBody (c.child? "alternative")
  return .record (kindOf "For" "AsyncFor" c)
    [("target", target), ("iter", iterable), ("body", .seq body), ("orelse", .seq orelse)]

/-- A `while` statement. The statements after its `else` are read first. -/
def whileLoop (c : Cst) : m Tree := do
  let orelse ← v.elseBody (c.child? "alternative")
  let test ← v.load (← c.require "condition")
  let body ← v.block (← c.require "body")
  return .record "While" [("test", test), ("body", .seq body), ("orelse", .seq orelse)]

/-- Takes the next part of a handler into account; a block is read at once (`lower_handler`). -/
def addHandlerPart (parts : HandlerParts) (c : Cst) : m HandlerParts :=
  if c.kind = "block" then do
    return { parts with body := ← v.block c }
  else pure { parts with expressions := parts.expressions ++ [c] }

/-- What a handler catches, and the name it gives to it (`lower_handler`). -/
def caught : List Cst → m (Tree × Tree)
  | [] => pure (.absent, .absent)
  | [single] =>
    if single.kind = "as_pattern" then do
      let exception ← v.load (← single.firstPart)
      return (exception, .ofText? ((single.child? "alias").map v.text))
    else do
      return (← v.load single, .absent)
  | exception :: name :: _ => do
    return (← v.load exception, .str (v.text name))

/-- A handler of a `try` statement (`lower_handler`). -/
def handler (c : Cst) : m Tree := do
  let parts ← c.significant.foldlM v.addHandlerPart ⟨[], []⟩
  let (exception, name) ← v.caught parts.expressions
  return .record "ExceptHandler"
    [("type", exception), ("name", name), ("body", .seq parts.body)]

/-- The statements of a `finally` clause, if it has a block. -/
def finalBody (c : Cst) : m (Option (List Tree)) :=
  match c.significant.find? fun child => child.kind == "block" with
  | some block => do return some (← v.block block)
  | none => pure none

/-- Takes the next part of a `try` statement into account (`lower_try`). -/
def addTryClause (clauses : TryClauses) (c : Cst) : m TryClauses :=
  match c.kind with
  | "except_clause" => do
    return { clauses with handlers := clauses.handlers ++ [← v.handler c] }
  | "except_group_clause" => do
    return { clauses with handlers := clauses.handlers ++ [← v.handler c], hasGroups := true }
  | "else_clause" => do
    return { clauses with orelse := ← v.block (← c.require "body") }
  | "finally_clause" => do
    return { clauses with finalBody := (← v.finalBody c).getD clauses.finalBody }
  | _ => pure clauses

/-- A `try` statement (`lower_try`). Its clauses are read before its body. -/
def tryBlock (c : Cst) : m Tree := do
  let clauses ← c.significant.foldlM v.addTryClause ⟨[], [], [], false⟩
  let body ← v.block (← c.require "body")
  return .record (if clauses.hasGroups then "TryStar" else "Try") [
    ("body", .seq body),
    ("handlers", .seq clauses.handlers),
    ("orelse", .seq clauses.orelse),
    ("finalbody", .seq clauses.finalBody)]

/-- The expression of a `with` item and what its value is bound to, if anything
(`lower_with_item`). -/
def withParts (c : Cst) : m (Cst × Option Cst) := do
  let value ← c.require "value"
  match c.child? "alias" with
  | some target => return (value, some target)
  | none =>
    if value.kind = "as_pattern" then
      return (← value.firstPart, value.child? "alias")
    else return (value, none)

/-- The target of a `with` item that may be left out. -/
def store? : Option Cst → m Tree
  | some target => v.store target
  | none => pure .absent

/-- An item of a `with` statement (`lower_with_item`). Its target is read before its value. -/
def withItem (c : Cst) : m Tree := do
  let (value, target) ← withParts c
  let target ← v.store? target
  let value ← v.load value
  return .record "withitem" [("context_expr", value), ("optional_vars", target)]

/-- The items in all clauses of a `with` statement. -/
def withItems (c : Cst) : List Cst :=
  (c.significant.filter fun child => child.kind == "with_clause").flatMap fun clause =>
    clause.significant.filter fun child => child.kind == "with_item"

/-- A `with` statement (`lower_with`). -/
def withBlock (c : Cst) : m Tree := do
  let items ← (withItems c).mapM v.withItem
  let body ← v.block (← c.require "body")
  return .record (kindOf "With" "AsyncWith" c) [("items", .seq items), ("body", .seq body)]

/-! ## Definitions -/

/-- A function, given its decorators (`lower_function`). The type of its result is read first. -/
def functionDefinition (decorators : List Tree) (c : Cst) : m Tree := do
  let returns ← v.typeHint? (c.child? "return_type")
  let name ← c.require "name"
  let parameters ← v.parameters (c.child? "parameters")
  let body ← v.block (← c.require "body")
  return .record (kindOf "FunctionDef" "AsyncFunctionDef" c) [
    ("name", .str (v.text name)),
    ("args", parameters),
    ("body", .seq body),
    ("decorator_list", .seq decorators),
    ("returns", returns)]

/-- The bases and the keywords of a class. -/
def superclasses : Option Cst → m (List Tree × List Tree)
  | some list => v.arguments list
  | none => pure ([], [])

/-- A class, given its decorators (`lower_class`). -/
def classDefinition (decorators : List Tree) (c : Cst) : m Tree := do
  let (bases, keywords) ← v.superclasses (c.child? "superclasses")
  let name ← c.require "name"
  let body ← v.block (← c.require "body")
  return .record "ClassDef" [
    ("name", .str (v.text name)),
    ("bases", .seq bases),
    ("keywords", .seq keywords),
    ("body", .seq body),
    ("decorator_list", .seq decorators)]

/-- The expression of a decorator. -/
def decorator (c : Cst) : m Tree := do
  v.load (← c.firstPart)

/-- A definition with its decorators (`lower_decorated`). -/
def decorated (c : Cst) : m Tree := do
  let decorators ← (c.significant.filter fun child => child.kind == "decorator").mapM v.decorator
  let definition ← c.require "definition"
  if definition.kind = "class_definition" then v.classDefinition decorators definition
  else v.functionDefinition decorators definition

/-- A `match` statement, of which only the subject is read. -/
def matching (c : Cst) : m Tree := do
  return .record "Match" [("subject", ← v.load? (c.child? "subject"))]

/-- Reads a statement by its construct (`lower_stmt_kind`). -/
def statementForm (c : Cst) : m Tree :=
  match StatementForm.ofKind c.kind with
  | .expression => v.expressionOrAssignment c
  | .leaf kind => pure (.leaf kind)
  | .returning => v.returning c
  | .deletion => v.deletion c
  | .raising => v.raising c
  | .names kind => pure (v.nameList kind c)
  | .assertion => v.assertion c
  | .importModules => pure (v.importStatement c)
  | .importFrom => v.importFrom c
  | .importFuture => pure (v.futureImport c)
  | .conditional => v.conditionalStatement c
  | .forLoop => v.forLoop c
  | .whileLoop => v.whileLoop c
  | .tryBlock => v.tryBlock c
  | .withBlock => v.withBlock c
  | .functionDefinition => v.functionDefinition [] c
  | .classDefinition => v.classDefinition [] c
  | .decorated => v.decorated c
  | .matching => v.matching c
  | .typeAlias => v.typeAlias c
  | .bareCall callee => throw (c.fault (.missingParentheses callee))

end Visitor

end TreeText
