import TreeText.Schema

/-!
# The built-in schema

The kinds of Python's abstract grammar with their fields in the order in which they are written,
in order of the kinds. Positions, type comments, the `kind` of a constant and the
positional-only parameters have no place in it, so they leave no trace in the text. Nor have the
scalar kinds and the operator `Add`, which are always written as placeholders.
-/

namespace TreeText.Schema

/-- The entries of Python's abstract grammar (`PYTHON`). -/
def builtinEntries : NameTable (List String) := [
  ("And", []),
  ("AnnAssign", ["target", "annotation", "value", "simple"]),
  ("Assert", ["test", "msg"]),
  ("Assign", ["targets", "value"]),
  ("AsyncFor", ["target", "iter", "body", "orelse"]),
  ("AsyncFunctionDef", ["name", "args", "body", "decorator_list", "returns"]),
  ("AsyncWith", ["items", "body"]),
  ("Attribute", ["value", "attr", "ctx"]),
  ("AugAssign", ["target", "op", "value"]),
  ("AugLoad", []),
  ("AugStore", []),
  ("Await", ["value"]),
  ("BinOp", ["left", "op", "right"]),
  ("BitAnd", []),
  ("BitOr", []),
  ("BitXor", []),
  ("BoolOp", ["op", "values"]),
  ("Break", []),
  ("Bytes", ["s"]),
  ("Call", ["func", "args", "keywords"]),
  ("ClassDef", ["name", "bases", "keywords", "body", "decorator_list"]),
  ("Compare", ["left", "ops", "comparators"]),
  ("Constant", ["value"]),
  ("Continue", []),
  ("Del", []),
  ("Delete", ["targets"]),
  ("Dict", ["keys", "values"]),
  ("DictComp", ["key", "value", "generators"]),
  ("Div", []),
  ("Ellipsis", []),
  ("Eq", []),
  ("ExceptHandler", ["type", "name", "body"]),
  ("Expr", ["value"]),
  ("Expression", ["body"]),
  ("ExtSlice", ["dims"]),
  ("FloorDiv", []),
  ("For", ["target", "iter", "body", "orelse"]),
  ("FormattedValue", ["value", "conversion", "format_spec"]),
  ("FunctionDef", ["name", "args", "body", "decorator_list", "returns"]),
  ("GeneratorExp", ["elt", "generators"]),
  ("Global", ["names"]),
  ("Gt", []),
  ("GtE", []),
  ("If", ["test", "body", "orelse"]),
  ("IfExp", ["test", "body", "orelse"]),
  ("Import", ["names"]),
  ("ImportFrom", ["module", "names", "level"]),
  ("In", []),
  ("Index", ["value"]),
  ("Interactive", ["body"]),
  ("Invert", []),
  ("Is", []),
  ("IsNot", []),
  ("JoinedStr", ["values"]),
  ("LShift", []),
  ("Lambda", ["args", "body"]),
  ("List", ["elts", "ctx"]),
  ("ListComp", ["elt", "generators"]),
  ("Load", []),
  ("Lt", []),
  ("LtE", []),
  ("MatMult", []),
  ("Mod", []),
  ("Module", ["body"]),
  ("Mult", []),
  ("Name", ["id", "ctx"]),
  ("NameConstant", ["value"]),
  ("Nonlocal", ["names"]),
  ("Not", []),
  ("NotEq", []),
  ("NotIn", []),
  ("Num", ["n"]),
  ("Or", []),
  ("Param", []),
  ("Pass", []),
  ("Pow", []),
  ("RShift", []),
  ("Raise", ["exc", "cause"]),
  ("Return", ["value"]),
  ("Set", ["elts"]),
  ("SetComp", ["elt", "generators"]),
  ("Slice", ["lower", "upper", "step"]),
  ("Starred", ["value", "ctx"]),
  ("Store", []),
  ("Str", ["s"]),
  ("Sub", []),
  ("Subscript", ["value", "slice", "ctx"]),
  ("Suite", ["body"]),
  ("Try", ["body", "handlers", "orelse", "finalbody"]),
  ("Tuple", ["elts", "ctx"]),
  ("UAdd", []),
  ("USub", []),
  ("UnaryOp", ["op", "operand"]),
  ("While", ["test", "body", "orelse"]),
  ("With", ["items", "body"]),
  ("Yield", ["value"]),
  ("YieldFrom", ["value"]),
  ("alias", ["name", "asname"]),
  ("arg", ["arg", "annotation"]),
  ("arguments", ["args", "vararg", "kwonlyargs", "kw_defaults", "kwarg", "defaults"]),
  ("comprehension", ["target", "iter", "ifs", "is_async"]),
  ("keyword", ["arg", "value"]),
  ("withitem", ["context_expr", "optional_vars"])]

/-- The built-in schema (`Schema::python`). -/
def builtin : Schema := ⟨builtinEntries⟩

end TreeText.Schema
