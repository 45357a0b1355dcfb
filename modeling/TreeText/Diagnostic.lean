import TreeText.Cst
import TreeText.Text.Escape

/-!
# Diagnostics

Reading a concrete syntax tree fails with a `Fault`: a position in the source and a `Cause`. The
wording of the causes is here and nowhere else. A `Diagnostic` adds the name of the file, and
shows lines and columns counted from one.

Notes on the form: `error_at` is handed the wording itself, and the file name is a field of the
context that it is called on. Here a rule hands over a `Cause`, and the name is added at the end.
-/

namespace TreeText

/-- Why a concrete syntax tree has no abstract one. -/
inductive Cause where
  /-- The source text is no program; there may be text to point at. -/
  | invalid (near : Option String)
  /-- The grammar had to make up a token. -/
  | expected (token : String)
  | tooDeep (limit : Nat)
  | missingField (kind field : String)
  | empty (kind : String)
  | missingParentheses (callee : String)
  | assignmentWithoutValue
  | unknownOperator (text : String)
  | emptyComparison
  | unknownComparison (text : String)
  | unexpectedParameter (kind : String)
  | unexpectedDictItem (kind : String)
  | malformedConditional
  | filterBeforeLoop
  | emptyGenericType
  | malformedUnionType
  | malformedMemberType
  | escape (fault : EscapeFault)
deriving DecidableEq

/-- The wording of a cause. -/
def Cause.message : Cause → String
  | .invalid none => "invalid syntax"
  | .invalid (some text) => "invalid syntax near '" ++ text ++ "'"
  | .expected token => "expected '" ++ token ++ "'"
  | .tooDeep limit =>
    "too many nested statements or expressions (limit " ++ toString limit ++ ")"
  | .missingField kind field => kind ++ " missing " ++ field
  | .empty kind => "empty " ++ kind
  | .missingParentheses callee => "missing parentheses in call to '" ++ callee ++ "'"
  | .assignmentWithoutValue => "assignment missing value"
  | .unknownOperator text => "unknown operator '" ++ text ++ "'"
  | .emptyComparison => "empty comparison"
  | .unknownComparison text => "unknown comparison '" ++ text ++ "'"
  | .unexpectedParameter kind => "unexpected parameter " ++ kind
  | .unexpectedDictItem kind => "unexpected " ++ kind ++ " in dict"
  | .malformedConditional => "malformed conditional expression"
  | .filterBeforeLoop => "'if' before 'for' in comprehension"
  | .emptyGenericType => "empty generic type"
  | .malformedUnionType => "malformed union type"
  | .malformedMemberType => "malformed member type"
  | .escape fault => fault.message

/-- A cause and where it lies, counted from zero. -/
structure Fault where
  row : Nat
  column : Nat
  cause : Cause
deriving DecidableEq

/-- A fault at the start of a node (`error_at`). -/
def Cst.fault (c : Cst) (cause : Cause) : Fault :=
  ⟨c.info.row, c.info.column, cause⟩

/-- A fault in a named file, counted from one (`ParseError::Syntax`). -/
structure Diagnostic where
  fileName : String
  line : Nat
  column : Nat
  cause : Cause
deriving DecidableEq

/-- A fault as seen in a named file. -/
def Fault.inFile (fault : Fault) (fileName : String) : Diagnostic :=
  ⟨fileName, fault.row + 1, fault.column + 1, fault.cause⟩

/-- The wording of a diagnostic: where, and why. -/
def Diagnostic.message (diagnostic : Diagnostic) : String :=
  diagnostic.fileName ++ ":" ++ toString diagnostic.line ++ ":" ++ toString diagnostic.column ++
    ": syntax error: " ++ diagnostic.cause.message

end TreeText
