import TreeText.Cst.Cursor
import TreeText.Reading.Expression
import TreeText.Reading.Statement
import TreeText.Text.Blank

/-!
# Reading a concrete syntax tree

`readModule` is the way from the concrete syntax tree of a source text to its abstract syntax tree.
It refuses a tree with an error in it, at the first one. Otherwise it reads every statement with
the visitor that ties the rules of the single constructs together: `Counted.step` reads a node in a
role, given how its parts are read, and `Counted.visit` gives it itself.

Every part that a rule hands on lies below the node that the rule reads, so as many rounds as the
tree is high are enough. Statements and expressions count one level of nesting each, and at most
`nestingLimit` levels may lie in one another; types and formats count none of their own. The levels
are counted on one counter, which every reading goes on with where the one before it left it.

Notes on the form: the methods call one another without a bound, where the visitor here counts
rounds; the height of the tree is enough of them, so the bound is never met. The cell that `nested`
counts on is the state of a monad under the faults, which therefore outlives a fault as the cell
does.
-/

namespace TreeText

namespace Reading

/-- Statements and expressions may lie this deep in one another (`MAX_NESTING_DEPTH`). -/
def nestingLimit : Nat := 1000

/-- Kinds that the rules build and the built-in schema leaves out on purpose: the scalars and the
operator `Add` (`PLACEHOLDER_KINDS`). -/
def placeholderKinds : List String :=
  ["int", "float", "complex", "bool", "bytes", "ellipsis", "Add"]

/-- Readings that count how many statements and expressions they are in (`LowerContext::depth`). The
count outlives a fault. -/
abbrev Counted := ExceptT Fault (StateM Nat)

instance : LawfulReading Counted where
  throw_bind _ _ := rfl

namespace Counted

/-- What a reading comes to from a depth on, and the depth that it leaves behind. -/
def runFrom {α : Type} (depth : Nat) (reading : Counted α) : Result α × Nat :=
  reading.run.run depth

/-- Reads a node one level further down, unless that is too deep (`nested`). -/
def nested (c : Cst) (reading : Counted Tree) : Counted Tree :=
  ExceptT.mk do
    let depth ← get
    if depth < nestingLimit then
      set (depth + 1)
      -- A fault is held back until the level has been left.
      let result ← reading.run
      set depth
      return result
    else return .error (c.fault (.tooDeep nestingLimit))

variable (source : Source)

/-- Reads a node in a role, given how its parts are read (`lower_stmt`, `lower_expr`,
`lower_type`). -/
def step (inner : Role → Cst → Counted Tree) : Role → Cst → Counted Tree
  | .statement, c => nested c (Visitor.statementForm ⟨source, inner⟩ c)
  | .expression access, c => nested c (Visitor.expressionForm ⟨source, inner⟩ access c)
  | .typeHint, c =>
    Visitor.typeForm ⟨source, inner⟩
      (fun c => nested c (Visitor.expressionForm ⟨source, inner⟩ .load c)) c
  | .formatSpec marks, c => Visitor.formatSpec ⟨source, inner⟩ marks c

/-- Reads a node in a role, in at most so many rounds. -/
def visit : (rounds : Nat) → Role → Cst → Counted Tree
  | 0, _, c => throw (c.fault (.tooDeep nestingLimit))
  | rounds + 1, role, c => step source (visit rounds) role c

/-- Reads a node in a role. -/
def read (role : Role) (c : Cst) : Counted Tree :=
  visit source c.height role c

/-- Reads all statements of a text (`lower_module`). -/
def program (root : Cst) : Counted Tree := do
  let body ← Visitor.block ⟨source, visit source root.height⟩ root
  return .record "Module" [("body", .seq body), ("type_ignores", .seq [])]

end Counted

variable (source : Source)

/-! ## Texts -/

/-- How many characters of a faulty text a diagnostic shows. -/
def snippetLength : Nat := 24

/-- What a diagnostic shows of a faulty text (`syntax_error`). -/
def snippet (text : String) : String :=
  String.ofList (trimmed ((firstLine text.toList).take snippetLength))

/-- The fault of a tree with an error in it (`syntax_error`). -/
def syntaxFault (root : Cst) : Fault :=
  match root.firstError? with
  | none => root.fault (.invalid none)
  | some c =>
    if c.info.isMissing then c.fault (.expected c.kind)
    else
      let near := snippet (c.text source)
      c.fault (.invalid (if near.isEmpty then none else some near))

/-- The abstract syntax tree of a whole text (`lower_module`). -/
def program (root : Cst) : Result Tree :=
  if root.info.hasError then .error (syntaxFault source root)
  else ((Counted.program source root).runFrom 0).1

end Reading

/-- The abstract syntax tree of a source text, given its concrete one and the names of characters
(`parse`, after the grammar). -/
def readModule (names : CharacterName.Lookup) (fileName text : String) (root : Cst) :
    Except Diagnostic Tree :=
  (Reading.program (.ofText names text) root).mapError (·.inFile fileName)

end TreeText
