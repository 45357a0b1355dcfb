import TreeText.Source

/-!
# Concrete syntax trees

A concrete syntax tree has a node for every token of a source text, comments included. A node says
what it is, under which field it hangs from its parent, where its text stands, and whether it is a
piece that the grammar could not place (an error) or had to make up (missing).

Comments and line continuations may stand anywhere, so a construct looks at its children through
`significant`, which leaves them out, or through the fields.

Notes on the form: the tree comes from a parser that a grammar is compiled to. Here it is given as a
whole, with what its nodes answer when they are asked: their kind, field, flags, bytes and position.
A node is known by its place among its siblings, where the source compares identities
(`significantBeside`).
-/

namespace TreeText

namespace Cst

/-- What a node of a concrete syntax tree says of itself. -/
structure Info where
  /-- The grammar's name of the construct, or the text of a fixed token. -/
  kind : String
  /-- The field under which the node hangs from its parent. -/
  field : Option String
  isNamed : Bool
  isError : Bool
  isMissing : Bool
  /-- Whether an error or a missing piece lies in the node. -/
  hasError : Bool
  /-- The byte offset of the text's start. -/
  start : Nat
  /-- The byte offset of the text's end. -/
  stop : Nat
  /-- The line of the start, counted from zero. -/
  row : Nat
  /-- The byte in its line of the start, counted from zero. -/
  column : Nat
deriving DecidableEq, Inhabited

end Cst

/-- A concrete syntax tree. -/
inductive Cst where
  | node (info : Cst.Info) (children : List Cst)
deriving Inhabited

namespace Cst

/-- What a node says of itself. -/
def info : Cst → Info
  | .node info _ => info

/-- All children, fixed tokens included. -/
def children : Cst → List Cst
  | .node _ children => children

/-- The grammar's name of a node's construct, or the text of a fixed token. -/
def kind (c : Cst) : String := c.info.kind

/-- The field under which a node hangs from its parent. -/
def field (c : Cst) : Option String := c.info.field

/-- Whether a node is more than a fixed token. -/
def isNamed (c : Cst) : Bool := c.info.isNamed

/-- A comment or a line continuation (`LowerContext::named`). -/
def isTrivia (c : Cst) : Bool :=
  c.kind == "comment" || c.kind == "line_continuation"

/-- Named nodes that are no trivia. -/
def significantOf (nodes : List Cst) : List Cst :=
  nodes.filter fun c => c.isNamed && !c.isTrivia

/-- The children that a construct is made of (`named`). -/
def significant (c : Cst) : List Cst := significantOf c.children

/-- The first child under a field. -/
def child? (c : Cst) (name : String) : Option Cst :=
  c.children.find? fun child => child.field == some name

/-- All children under a field, fixed tokens included (`fields`). -/
def childrenUnder (c : Cst) (name : String) : List Cst :=
  c.children.filter fun child => child.field == some name

/-- The significant children without the first child under a field. -/
def significantBeside (c : Cst) (name : String) : List Cst :=
  significantOf (c.children.eraseP fun child => child.field == some name)

/-- Whether a fixed token is among the children (`has_token`). -/
def hasToken (c : Cst) (token : String) : Bool :=
  c.children.any fun child => !child.isNamed && child.kind == token

/-- The source text of a node (`LowerContext::text`). -/
def text (source : Source) (c : Cst) : String :=
  source.slice c.info.start c.info.stop

/-! ## Height -/

mutual

/-- How many nodes the longest way down from a node has. -/
def height : Cst → Nat
  | .node _ children => heightOfAll children + 1

/-- The greatest height of these nodes. -/
def heightOfAll : List Cst → Nat
  | [] => 0
  | c :: rest => max (height c) (heightOfAll rest)

end

theorem height_le_heightOfAll {c : Cst} {nodes : List Cst} (h : c ∈ nodes) :
    c.height ≤ heightOfAll nodes := by
  induction nodes with
  | nil => cases h
  | cons d rest ih =>
    rw [heightOfAll]
    rcases List.mem_cons.mp h with rfl | h
    · exact Nat.le_max_left _ _
    · exact Nat.le_trans (ih h) (Nat.le_max_right _ _)

theorem height_lt_of_mem {c d : Cst} (h : d ∈ c.children) : d.height < c.height := by
  obtain ⟨info, children⟩ := c
  rw [height]
  exact Nat.lt_succ_of_le (height_le_heightOfAll h)

theorem mem_children_of_child? {c d : Cst} {name : String} (h : c.child? name = some d) :
    d ∈ c.children :=
  List.mem_of_find?_eq_some h

theorem height_lt_of_child? {c d : Cst} {name : String} (h : c.child? name = some d) :
    d.height < c.height :=
  height_lt_of_mem (mem_children_of_child? h)

/-- A weight of nodes by their height, such that two nodes weigh less than one that is higher than
both. -/
def weight (c : Cst) : Nat := Nat.pow 3 c.height

/-- What these nodes weigh together. -/
def weightOfAll : List Cst → Nat
  | [] => 0
  | c :: rest => weight c + weightOfAll rest

theorem weight_pos (c : Cst) : 0 < c.weight := Nat.pow_pos (by omega)

theorem weight_add_weight_lt {a b c : Cst} (ha : a.height < c.height) (hb : b.height < c.height) :
    a.weight + b.weight < c.weight := by
  have hlower : ∀ d : Cst, d.height < c.height → d.weight ≤ 3 ^ (c.height - 1) := fun d hd =>
    Nat.pow_le_pow_right (by omega) (by omega)
  have hwhole : c.weight = 3 ^ (c.height - 1) * 3 := by
    rw [← Nat.pow_succ, weight, Nat.pow_eq]
    congr 1
    omega
  have hpos : 0 < 3 ^ (c.height - 1) := Nat.pow_pos (by omega)
  have hleft := hlower a ha
  have hright := hlower b hb
  omega

/-! ## Nodes -/

/-- Whether a node is an error itself, or missing. -/
def isFaulty (c : Cst) : Bool := c.info.isError || c.info.isMissing

mutual

/-- A node and all nodes in it, parents before children. -/
def nodes : Cst → List Cst
  | .node info children => .node info children :: nodesOfAll children

/-- All nodes in these, parents before children. -/
def nodesOfAll : List Cst → List Cst
  | [] => []
  | c :: rest => nodes c ++ nodesOfAll rest

end

theorem nodes_eq (c : Cst) : c.nodes = c :: nodesOfAll c.children := by
  cases c
  rw [nodes]
  rfl

theorem nodesOfAll_append (before after : List Cst) :
    nodesOfAll (before ++ after) = nodesOfAll before ++ nodesOfAll after := by
  induction before with
  | nil => rfl
  | cons c rest ih => rw [List.cons_append, nodesOfAll, nodesOfAll, ih, List.append_assoc]

/-! ## Rows -/

/-- A node in a list of all nodes, parents before children: what it says and how many children
come after it. -/
structure Row where
  info : Info
  childCount : Nat
deriving DecidableEq

/-- Joins a row with its children, which are the first of the trees after it. -/
def joinRow (row : Row) : Option (List Cst) → Option (List Cst)
  | none => none
  | some trees =>
    let children := trees.take row.childCount
    if children.length = row.childCount then
      some (.node row.info children :: trees.drop row.childCount)
    else none

/-- The tree that a list of rows describes. -/
def ofRows? (rows : List Row) : Option Cst :=
  match rows.foldr joinRow (some []) with
  | some [tree] => some tree
  | _ => none

end Cst

end TreeText
