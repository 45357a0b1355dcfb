import TreeText.NameTable

/-!
# Syntax trees

A tree is a piece of text, a deliberate absence, an ordered sequence, or a node: a kind with
named fields. The fields are a name table, so the order in which a node was given its fields
leaves no trace; `Tree.WellFormed` says so of every node of a tree.

Notes on the form: a node is a constructor of the tree here, and no structure of its own; so `set`
(`Node::with`) and `field?` (`Node::field`) are about trees, and have nothing to do where there is
no node. The map of fields is a list in order of the names.
-/

namespace TreeText

/-- A syntax tree. -/
inductive Tree where
  /-- An optional value that is not there. -/
  | absent
  /-- Raw text: an identifier, the contents of a literal. -/
  | str (text : String)
  /-- Values in order. -/
  | seq (items : List Tree)
  /-- A kind with named fields, in order of the names. -/
  | node (kind : String) (fields : List (String × Tree))
deriving Inhabited

namespace Tree

/-- Induction over trees, with the items of a sequence and the field values of a node at hand. -/
@[elab_as_elim]
theorem induction {motive : Tree → Prop} (absent : motive .absent)
    (str : ∀ text, motive (.str text))
    (seq : ∀ items : List Tree, (∀ item ∈ items, motive item) → motive (.seq items))
    (node : ∀ (kind : String) (fields : List (String × Tree)),
      (∀ pair ∈ fields, motive pair.2) → motive (.node kind fields)) (tree : Tree) :
    motive tree := by
  refine @Tree.rec motive (fun items => ∀ item ∈ items, motive item)
    (fun fields => ∀ pair ∈ fields, motive pair.2) (fun pair => motive pair.2)
    absent str seq node ?_ ?_ ?_ ?_ ?_ tree
  · intro item h
    cases h
  · intro first rest hfirst hrest item h
    rcases List.mem_cons.mp h with rfl | h
    · exact hfirst
    · exact hrest item h
  · intro pair h
    cases h
  · intro first rest hfirst hrest pair h
    rcases List.mem_cons.mp h with rfl | h
    · exact hfirst
    · exact hrest pair h
  · intro name value h
    exact h

/-- A node without fields, such as `Load` or `Pass` (`leaf`). -/
def leaf (kind : String) : Tree :=
  .node kind []

/-- Gives a node a field, in place of an earlier value of it; other trees have no fields
(`with`). -/
def set (tree : Tree) (name : String) (value : Tree) : Tree :=
  match tree with
  | .node kind fields => .node kind (NameTable.insert name value fields)
  | other => other

/-- The node that gets these fields one after the other. -/
def record (kind : String) (fields : List (String × Tree)) : Tree :=
  .node kind (NameTable.ofList fields)

/-- Text, or an absence if there is none. -/
def ofText? : Option String → Tree
  | some text => .str text
  | none => .absent

/-- Whether a tree is an absence (`is_absent`). -/
def isAbsent : Tree → Bool
  | .absent => true
  | _ => false

/-- The text of a piece of text (`as_str`). -/
def text? : Tree → Option String
  | .str text => some text
  | _ => none

/-- The items of a sequence (`as_seq`). -/
def items? : Tree → Option (List Tree)
  | .seq items => some items
  | _ => none

/-- The kind of a node (`kind`). -/
def kind? : Tree → Option String
  | .node kind _ => some kind
  | _ => none

/-- The value of a field of a node (`field`). -/
def field? (tree : Tree) (name : String) : Option Tree :=
  match tree with
  | .node _ fields => fields.lookup name
  | _ => none

/-- The item of a sequence at a place counted from zero. -/
def item? (tree : Tree) (index : Nat) : Option Tree :=
  tree.items?.bind (·[index]?)

theorem field?_record (kind : String) (fields : List (String × Tree)) (name : String) :
    (record kind fields).field? name = fields.reverse.lookup name :=
  NameTable.lookup_ofList fields name

/-- Nodes with the same names, each of which is given one value, have the same values. -/
theorem record_inj {kind : String} {fields fields' : List (String × Tree)} (names : List String)
    (hnames : fields.map (·.1) = names) (hnames' : fields'.map (·.1) = names)
    (hnodup : names.Nodup) : record kind fields = record kind fields' ↔ fields = fields' := by
  subst hnames
  rw [record, record, node.injEq, NameTable.ofList_inj hnames'.symm hnodup]
  exact and_iff_right rfl

/-- The value of a field is smaller than the tree. -/
theorem sizeOf_lt_of_field? {name : String} {value tree : Tree}
    (h : tree.field? name = some value) : sizeOf value < sizeOf tree := by
  cases tree with
  | node kind fields =>
    have hmem := List.sizeOf_lt_of_mem (NameTable.mem_of_lookup h)
    rw [Prod.mk.sizeOf_spec] at hmem
    rw [node.sizeOf_spec]
    omega
  | _ => cases h

/-! ## Equality -/

mutual

/-- Whether two trees are the same. -/
def same : Tree → Tree → Bool
  | .absent, .absent => true
  | .str a, .str b => a == b
  | .seq as, .seq bs => sameItems as bs
  | .node k fs, .node l gs => k == l && sameFields fs gs
  | _, _ => false

/-- `same`, item by item. -/
def sameItems : List Tree → List Tree → Bool
  | [], [] => true
  | a :: as, b :: bs => same a b && sameItems as bs
  | _, _ => false

/-- `same`, field by field. -/
def sameFields : List (String × Tree) → List (String × Tree) → Bool
  | [], [] => true
  | (n, a) :: as, (m, b) :: bs => n == m && same a b && sameFields as bs
  | _, _ => false

end

mutual

theorem same_iff : ∀ a b : Tree, same a b = true ↔ a = b
  | .absent, b => by cases b <;> simp [same]
  | .str a, b => by cases b <;> simp [same]
  | .seq as, b => by cases b <;> simp [same, sameItems_iff as]
  | .node k fs, b => by cases b <;> simp [same, sameFields_iff fs]

theorem sameItems_iff : ∀ as bs : List Tree, sameItems as bs = true ↔ as = bs
  | [], bs => by cases bs <;> simp [sameItems]
  | a :: as, bs => by cases bs <;> simp [sameItems, same_iff a, sameItems_iff as]

theorem sameFields_iff : ∀ as bs : List (String × Tree), sameFields as bs = true ↔ as = bs
  | [], bs => by cases bs <;> simp [sameFields]
  | (n, a) :: as, bs => by
    cases bs <;> simp [sameFields, same_iff a, sameFields_iff as, Prod.ext_iff]

end

/-- Equality of trees is decided by `same`. -/
instance : DecidableEq Tree := fun a b => decidable_of_iff _ (same_iff a b)

/-! ## Well-formed trees -/

mutual

/-- Every node of the tree has its fields in order of their names, each name once. -/
def WellFormed : Tree → Prop
  | .absent => True
  | .str _ => True
  | .seq items => WellFormedItems items
  | .node _ fields => NameTable.Sorted fields ∧ WellFormedFields fields

/-- `WellFormed` of each item. -/
def WellFormedItems : List Tree → Prop
  | [] => True
  | item :: rest => WellFormed item ∧ WellFormedItems rest

/-- `WellFormed` of each field's value. -/
def WellFormedFields : List (String × Tree) → Prop
  | [] => True
  | (_, value) :: rest => WellFormed value ∧ WellFormedFields rest

end

end Tree

end TreeText
