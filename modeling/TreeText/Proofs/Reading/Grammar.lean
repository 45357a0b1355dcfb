import TreeText.Reading.Visitor

/-!
# The abstract grammar of the trees that reading gives

A tree has no types of its own: a node is a kind with fields, and a field holds any tree. The
abstract grammar says what should stand where. A `Category` is a class of nodes that may replace
one another, a `Form` is what one field may hold, and `Grammar.entries` lists the fields of each
kind with their forms. An expression is of a category for each access, so that the table also says
where a value is used, where it is assigned and where it is deleted.

`Derives` is the judgement that a tree is put together by the grammar from trees that are given,
in at most so many layers of nodes. A layer is counted for every node except the left operand of an
operator. The rules of reading are described by this judgement once, with the parts they hand on
as the given trees; what a tree that was read can look like is got from it by induction.
-/

namespace TreeText

/-- The classes of nodes. -/
inductive Category where
  | module
  | statement
  /-- An expression whose value has this access. -/
  | expression (access : Access)
  | slice
  /-- One of several slices in the same brackets. -/
  | dimension
  | handler
  | withItem
  | loop
  | keyword
  | importAlias
  | parameters
  | parameter
  | marker (access : Access)
  | logicalOperator
  | binaryOperator
  | unaryOperator
  | comparisonOperator
  /-- A whole number that counts or tells something. -/
  | number
  /-- A value of the language that is no text. -/
  | scalar
  | typeIgnore
deriving DecidableEq

/-- What a field may hold. -/
inductive Form where
  | text
  | node (category : Category)
  | optional (form : Form)
  | list (form : Form)
  /-- Text in the place of another form. -/
  | textOr (form : Form)
deriving DecidableEq

namespace Category

/-- The kinds of nodes in a category. -/
def kinds : Category → List String
  | .module => ["Module"]
  | .statement => ["FunctionDef", "AsyncFunctionDef", "ClassDef", "Return", "Delete", "Assign",
      "AugAssign", "AnnAssign", "For", "AsyncFor", "While", "If", "With", "AsyncWith", "Raise",
      "Try", "TryStar", "Assert", "Import", "ImportFrom", "Global", "Nonlocal", "Expr", "Pass",
      "Break", "Continue", "Match", "TypeAlias"]
  | .expression _ => ["BoolOp", "NamedExpr", "BinOp", "UnaryOp", "Lambda", "IfExp", "Dict", "Set",
      "ListComp", "SetComp", "DictComp", "GeneratorExp", "Await", "Yield", "YieldFrom", "Compare",
      "Call", "FormattedValue", "JoinedStr", "Constant", "Attribute", "Subscript", "Starred",
      "Name", "List", "Tuple"]
  | .slice => ["Index", "Slice", "ExtSlice"]
  | .dimension => ["Index", "Slice"]
  | .handler => ["ExceptHandler"]
  | .withItem => ["withitem"]
  | .loop => ["comprehension"]
  | .keyword => ["keyword"]
  | .importAlias => ["alias"]
  | .parameters => ["arguments"]
  | .parameter => ["arg"]
  | .marker .load => ["Load"]
  | .marker .store => ["Store"]
  | .marker .del => ["Del"]
  | .logicalOperator => ["And", "Or"]
  | .binaryOperator => ["Add", "Sub", "Mult", "MatMult", "Div", "Mod", "Pow", "LShift", "RShift",
      "BitOr", "BitXor", "BitAnd", "FloorDiv"]
  | .unaryOperator => ["Invert", "Not", "UAdd", "USub"]
  | .comparisonOperator => ["Eq", "NotEq", "Lt", "LtE", "Gt", "GtE", "Is", "IsNot", "In", "NotIn"]
  | .number => ["int"]
  | .scalar => ["int", "float", "complex", "bool", "bytes", "ellipsis"]
  | .typeIgnore => ["TypeIgnore"]

/-- The access that a node of a category has: of everything but expressions the value is used. -/
def access : Category → Access
  | .expression access => access
  | _ => .load

end Category

namespace Form

/-- An expression whose value is used. -/
def load : Form := .node (.expression .load)

/-- An expression that gets a value. -/
def store : Form := .node (.expression .store)

/-- Statements one after the other. -/
def block : Form := .list (.node .statement)

/-- The access that the expressions in a field have. -/
def access : Form → Access
  | .text => .load
  | .node category => category.access
  | .optional form => form.access
  | .list form => form.access
  | .textOr form => form.access

end Form

namespace Grammar

open Form (load store block)

/-- The fields of a function. -/
def functionFields : List (String × Form) := [
  ("name", .text),
  ("args", .node .parameters),
  ("body", block),
  ("decorator_list", .list load),
  ("returns", .optional load)]

/-- The fields of a `for` statement. -/
def forFields : List (String × Form) :=
  [("target", store), ("iter", load), ("body", block), ("orelse", block)]

/-- The fields of a `with` statement. -/
def withFields : List (String × Form) :=
  [("items", .list (.node .withItem)), ("body", block)]

/-- The fields of a `try` statement. -/
def tryFields : List (String × Form) := [
  ("body", block),
  ("handlers", .list (.node .handler)),
  ("orelse", block),
  ("finalbody", block)]

/-- The fields of a comprehension with one value for each element. -/
def comprehensionFields : List (String × Form) :=
  [("elt", load), ("generators", .list (.node .loop))]

/-- The fields of a scalar. -/
def scalarFields : List (String × Form) := [("value", .text)]

/-- The fields of each kind of node, for a node that has this access. -/
def entries (access : Access) : List (String × List (String × Form)) := [
  -- statements
  ("Module", [("body", block), ("type_ignores", .list (.node .typeIgnore))]),
  ("FunctionDef", functionFields),
  ("AsyncFunctionDef", functionFields),
  ("ClassDef", [
    ("name", .text),
    ("bases", .list load),
    ("keywords", .list (.node .keyword)),
    ("body", block),
    ("decorator_list", .list load)]),
  ("Return", [("value", .optional load)]),
  ("Delete", [("targets", .list (.node (.expression .del)))]),
  ("Assign", [("targets", .list store), ("value", load)]),
  ("AugAssign", [("target", store), ("op", .node .binaryOperator), ("value", load)]),
  ("AnnAssign", [
    ("target", store),
    ("annotation", load),
    ("value", .optional load),
    ("simple", .node .number)]),
  ("For", forFields),
  ("AsyncFor", forFields),
  ("While", [("test", load), ("body", block), ("orelse", block)]),
  ("If", [("test", load), ("body", block), ("orelse", block)]),
  ("With", withFields),
  ("AsyncWith", withFields),
  ("Raise", [("exc", .optional load), ("cause", .optional load)]),
  ("Try", tryFields),
  ("TryStar", tryFields),
  ("Assert", [("test", load), ("msg", .optional load)]),
  ("Import", [("names", .list (.node .importAlias))]),
  ("ImportFrom", [
    ("module", .optional .text),
    ("names", .list (.node .importAlias)),
    ("level", .node .number)]),
  ("Global", [("names", .list .text)]),
  ("Nonlocal", [("names", .list .text)]),
  ("Expr", [("value", load)]),
  ("Pass", []),
  ("Break", []),
  ("Continue", []),
  ("Match", [("subject", .optional load)]),
  ("TypeAlias", [("name", .optional load), ("value", .optional load)]),
  -- expressions
  ("BoolOp", [("op", .node .logicalOperator), ("values", .list load)]),
  ("NamedExpr", [("target", store), ("value", load)]),
  ("BinOp", [("left", load), ("op", .node .binaryOperator), ("right", load)]),
  ("UnaryOp", [("op", .node .unaryOperator), ("operand", load)]),
  ("Lambda", [("args", .node .parameters), ("body", load)]),
  ("IfExp", [("test", load), ("body", load), ("orelse", load)]),
  ("Dict", [("keys", .list (.optional load)), ("values", .list load)]),
  ("Set", [("elts", .list load)]),
  ("ListComp", comprehensionFields),
  ("SetComp", comprehensionFields),
  ("GeneratorExp", comprehensionFields),
  ("DictComp", [("key", load), ("value", load), ("generators", .list (.node .loop))]),
  ("Await", [("value", load)]),
  ("Yield", [("value", .optional load)]),
  ("YieldFrom", [("value", load)]),
  ("Compare", [
    ("left", load),
    ("ops", .list (.node .comparisonOperator)),
    ("comparators", .list load)]),
  ("Call", [("func", load), ("args", .list load), ("keywords", .list (.node .keyword))]),
  ("FormattedValue", [
    ("value", load),
    ("conversion", .node .number),
    ("format_spec", .optional load)]),
  ("JoinedStr", [("values", .list load)]),
  ("Constant", [
    ("value", .optional (.textOr (.node .scalar))),
    ("kind", .optional .text)]),
  ("Attribute", [("value", load), ("attr", .text), ("ctx", .node (.marker access))]),
  ("Subscript", [("value", load), ("slice", .node .slice), ("ctx", .node (.marker access))]),
  ("Starred", [("value", .node (.expression access)), ("ctx", .node (.marker access))]),
  ("Name", [("id", .text), ("ctx", .node (.marker access))]),
  ("List", [("elts", .list (.node (.expression access))), ("ctx", .node (.marker access))]),
  ("Tuple", [("elts", .list (.node (.expression access))), ("ctx", .node (.marker access))]),
  -- parts of statements and expressions
  ("Index", [("value", load)]),
  ("Slice", [("lower", .optional load), ("upper", .optional load), ("step", .optional load)]),
  ("ExtSlice", [("dims", .list (.node .dimension))]),
  ("ExceptHandler", [("type", .optional load), ("name", .optional .text), ("body", block)]),
  ("withitem", [("context_expr", load), ("optional_vars", .optional store)]),
  ("comprehension", [
    ("target", store),
    ("iter", load),
    ("ifs", .list load),
    ("is_async", .node .number)]),
  ("keyword", [("arg", .optional .text), ("value", load)]),
  ("alias", [("name", .text), ("asname", .optional .text)]),
  ("arguments", [
    ("posonlyargs", .list (.node .parameter)),
    ("args", .list (.node .parameter)),
    ("vararg", .optional (.node .parameter)),
    ("kwonlyargs", .list (.node .parameter)),
    ("kw_defaults", .list (.optional load)),
    ("kwarg", .optional (.node .parameter)),
    ("defaults", .list load)]),
  ("arg", [("arg", .text), ("annotation", .optional load)]),
  -- markers, operators and scalars
  ("Load", []), ("Store", []), ("Del", []),
  ("And", []), ("Or", []),
  ("Add", []), ("Sub", []), ("Mult", []), ("MatMult", []), ("Div", []), ("Mod", []), ("Pow", []),
  ("LShift", []), ("RShift", []), ("BitOr", []), ("BitXor", []), ("BitAnd", []),
  ("FloorDiv", []),
  ("Invert", []), ("Not", []), ("UAdd", []), ("USub", []),
  ("Eq", []), ("NotEq", []), ("Lt", []), ("LtE", []), ("Gt", []), ("GtE", []),
  ("Is", []), ("IsNot", []), ("In", []), ("NotIn", []),
  ("int", scalarFields), ("float", scalarFields), ("complex", scalarFields),
  ("bool", scalarFields), ("bytes", scalarFields), ("ellipsis", scalarFields)]

/-- The fields of a kind of node. -/
def fields? (access : Access) (kind : String) : Option (List (String × Form)) :=
  (entries access).lookup kind

/-- Fields that go together item by item. -/
def parallel : String → List (String × String)
  | "Dict" => [("keys", "values")]
  | "arguments" => [("kwonlyargs", "kw_defaults")]
  | _ => []

/-- How many layers the way from a node into a field leaves uncounted: chains of operators grow to
the left for free. -/
def freeLayers (kind name : String) : Nat :=
  if kind = "BinOp" ∧ name = "left" then 1 else 0

end Grammar

/-- A tree of a form, put together from given trees in at most so many layers of nodes. -/
inductive Derives (given : Form → Tree → Prop) : Nat → Form → Tree → Prop
  | given {n : Nat} {form : Form} {tree : Tree} (h : given form tree) :
    Derives given n form tree
  | text {n : Nat} (text : String) : Derives given n .text (.str text)
  | absent {n : Nat} {form : Form} : Derives given n (.optional form) .absent
  | present {n : Nat} {form : Form} {tree : Tree} (h : Derives given n form tree) :
    Derives given n (.optional form) tree
  | instead {n : Nat} {form : Form} (text : String) : Derives given n (.textOr form) (.str text)
  | other {n : Nat} {form : Form} {tree : Tree} (h : Derives given n form tree) :
    Derives given n (.textOr form) tree
  | list {n : Nat} {form : Form} {items : List Tree}
    (h : ∀ item ∈ items, Derives given n form item) : Derives given n (.list form) (.seq items)
  | node {n : Nat} {category : Category} {kind : String} {forms : List (String × Form)}
    {fields : List (String × Tree)} (hkind : kind ∈ category.kinds)
    (hforms : Grammar.fields? category.access kind = some forms)
    (hnames : forms.map (·.1) = fields.map (·.1))
    (hfields : ∀ pair ∈ forms.zip fields,
      Derives given (n + Grammar.freeLayers kind pair.1.1) pair.1.2 pair.2.2)
    (hparallel : ∀ pair ∈ Grammar.parallel kind, ∃ xs ys : List Tree,
      (pair.1, .seq xs) ∈ fields ∧ (pair.2, .seq ys) ∈ fields ∧ xs.length = ys.length) :
    Derives given (n + 1) (.node category) (.record kind fields)

/-- Fields with the names and the forms that are listed, each below a node of this kind. -/
inductive DerivesFields (given : Form → Tree → Prop) (n : Nat) (kind : String) :
    List (String × Form) → List (String × Tree) → Prop
  | nil : DerivesFields given n kind [] []
  | cons {name : String} {form : Form} {value : Tree} {forms : List (String × Form)}
    {fields : List (String × Tree)}
    (h : Derives given (n + Grammar.freeLayers kind name) form value)
    (rest : DerivesFields given n kind forms fields) :
    DerivesFields given n kind ((name, form) :: forms) ((name, value) :: fields)

namespace DerivesFields

variable {given : Form → Tree → Prop} {n : Nat} {kind : String} {forms : List (String × Form)}
  {fields : List (String × Tree)}

theorem names (h : DerivesFields given n kind forms fields) :
    forms.map (·.1) = fields.map (·.1) := by
  induction h with
  | nil => rfl
  | cons _ _ ih => rw [List.map_cons, List.map_cons, ih]

theorem zip (h : DerivesFields given n kind forms fields) :
    ∀ pair ∈ forms.zip fields,
      Derives given (n + Grammar.freeLayers kind pair.1.1) pair.1.2 pair.2.2 := by
  induction h with
  | nil =>
    intro pair hpair
    cases hpair
  | cons h _ ih =>
    rw [List.zip_cons_cons, List.forall_mem_cons]
    exact ⟨h, ih⟩

end DerivesFields

/-- In two lists with the same names, what is under a name in the one has a partner in the other. -/
theorem exists_zip_of_mem {α β : Type} {xs : List (String × α)} {ys : List (String × β)}
    (h : xs.map (·.1) = ys.map (·.1)) :
    (∀ x ∈ xs, ∃ y, (x, (x.1, y)) ∈ xs.zip ys) ∧ ∀ y ∈ ys, ∃ x, ((y.1, x), y) ∈ xs.zip ys := by
  induction xs generalizing ys with
  | nil =>
    cases ys with
    | nil => exact ⟨List.forall_mem_nil _, List.forall_mem_nil _⟩
    | cons y ys => cases h
  | cons x xs ih =>
    cases ys with
    | nil => cases h
    | cons y ys =>
      obtain ⟨hname, hnames⟩ := List.cons.inj h
      obtain ⟨hxs, hys⟩ := ih hnames
      rw [List.zip_cons_cons, List.forall_mem_cons, List.forall_mem_cons]
      refine ⟨⟨⟨y.2, ?_⟩, fun x hx => ?_⟩, ⟨x.2, ?_⟩, fun y hy => ?_⟩
      · rw [show (x.1, y.2) = y from Prod.ext hname rfl]
        exact List.mem_cons_self
      · exact (hxs x hx).imp fun _ => List.mem_cons_of_mem _
      · rw [show (y.1, x.2) = x from Prod.ext hname.symm rfl]
        exact List.mem_cons_self
      · exact (hys y hy).imp fun _ => List.mem_cons_of_mem _

namespace Derives

variable {given : Form → Tree → Prop} {n m : Nat}

/-- A node of a kind whose fields do not have to go together. -/
theorem record {category : Category} {kind : String} {forms : List (String × Form)}
    {fields : List (String × Tree)} (hkind : category.kinds.contains kind = true)
    (hforms : Grammar.fields? category.access kind = some forms)
    (hparallel : Grammar.parallel kind = []) (h : DerivesFields given n kind forms fields) :
    Derives given (n + 1) (.node category) (.record kind fields) := by
  refine .node (List.contains_iff_mem.mp hkind) hforms h.names h.zip ?_
  rw [hparallel]
  intro pair hpair
  cases hpair

theorem leaf {category : Category} {kind : String} (hkind : category.kinds.contains kind = true)
    (hforms : Grammar.fields? category.access kind = some [])
    (hparallel : Grammar.parallel kind = []) :
    Derives given (n + 1) (.node category) (.leaf kind) :=
  @record _ _ _ _ _ [] hkind hforms hparallel .nil

theorem mono {form : Form} {tree : Tree} (h : Derives given n form tree) (hle : n ≤ m) :
    Derives given m form tree := by
  induction h generalizing m with
  | given h => exact .given h
  | text text => exact .text text
  | absent => exact .absent
  | present _ ih => exact .present (ih hle)
  | instead text => exact .instead text
  | other _ ih => exact .other (ih hle)
  | list _ ih => exact .list fun item hitem => ih item hitem hle
  | @node n category kind forms fields hkind hforms hnames _ hparallel ih =>
    obtain ⟨m, rfl⟩ : ∃ k, m = k + 1 := ⟨m - 1, by omega⟩
    exact .node hkind hforms hnames (fun pair hpair => ih pair hpair (by omega)) hparallel

theorem marker (access : Access) :
    Derives given (n + 1) (.node (.marker access)) access.marker := by
  cases access <;> exact .leaf rfl rfl rfl

/-- Given trees one after the other. -/
theorem givens {form : Form} {items : List Tree} (h : ∀ item ∈ items, given form item) :
    Derives given n (.list form) (.seq items) :=
  .list fun item hitem => .given (h item hitem)

/-- A given tree that may be left out. -/
theorem given? {form : Form} {tree : Tree} (h : tree = .absent ∨ given form tree) :
    Derives given n (.optional form) tree := by
  rcases h with rfl | h
  · exact .absent
  · exact .present (.given h)

theorem optionalText (text : Option String) :
    Derives given n (.optional .text) (.ofText? text) := by
  cases text with
  | none => exact .absent
  | some text => exact .present (.text text)

theorem int (value : Int) : Derives given (n + 1) (.node .number) (.int value) :=
  .record rfl rfl rfl (.cons (.text _) .nil)

theorem constant {value : Tree} {access : Access}
    (h : Derives given n (.optional (.textOr (.node .scalar))) value) :
    Derives given (n + 1) (.node (.expression access)) (.constant value) :=
  .record rfl rfl rfl (.cons h (.cons .absent .nil))

theorem name (id : String) (access : Access) :
    Derives given (n + 2) (.node (.expression access)) (.name id access) :=
  .record rfl rfl rfl (.cons (.text id) (.cons (.marker access) .nil))

theorem tuple {elements : List Tree} {access : Access}
    (h : ∀ element ∈ elements, Derives given (n + 1) (.node (.expression access)) element) :
    Derives given (n + 2) (.node (.expression access)) (.tuple elements access) :=
  .record rfl rfl rfl (.cons (.list h) (.cons (.marker access) .nil))

theorem index {value : Tree} {category : Category}
    (hkind : category.kinds.contains "Index" = true) (h : Derives given n .load value) :
    Derives given (n + 1) (.node category) (.index value) :=
  .record hkind rfl rfl (.cons h .nil)

end Derives

end TreeText
