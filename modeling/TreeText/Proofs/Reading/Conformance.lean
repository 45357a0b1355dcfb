import TreeText.Proofs.Reading.Grammar

/-!
# Nodes in their places

What can be said of a single node of a tree depends on where it stands: the fields above it say
whether its value is used, assigned or deleted. `Tree.StandsIn` follows the ways into a tree and
keeps the access on the way, and `Tree.Everywhere` says something of every node at its access.

A node conforms to the abstract grammar if its fields are the ones of its kind and each holds what
it may hold (`Conforms`). If every node that conforms has a property, so has every node of a tree
that derives from trees in which every node has it: `Derives.everywhere`. The access that a way into
a tree leads to is, for a derived tree, the access that the abstract grammar asks for.
-/

namespace TreeText

/-! ## Places -/

namespace Access

/-- The fields with expressions that get a value. -/
def storeFields : List (String × String) := [
  ("Assign", "targets"),
  ("AugAssign", "target"),
  ("AnnAssign", "target"),
  ("For", "target"),
  ("AsyncFor", "target"),
  ("comprehension", "target"),
  ("withitem", "optional_vars"),
  ("NamedExpr", "target")]

/-- The fields with expressions that are deleted. -/
def delFields : List (String × String) := [("Delete", "targets")]

/-- The fields with expressions that have the access of their node. -/
def sharedFields : List (String × String) :=
  [("List", "elts"), ("Tuple", "elts"), ("Starred", "value")]

/-- The access of what stands in a field of a node that has this access. -/
def below (access : Access) (kind name : String) : Access :=
  if (kind, name) ∈ sharedFields then access
  else if (kind, name) ∈ storeFields then .store
  else if (kind, name) ∈ delFields then .del
  else .load

/-- A field shares the access of its node, or has one of its own. -/
theorem below_shared_or_same (access other : Access) (kind name : String) :
    (access.below kind name = access ∧ other.below kind name = other) ∨
      access.below kind name = other.below kind name := by
  unfold below
  split
  · exact .inl ⟨rfl, rfl⟩
  · exact .inr rfl

end Access

namespace Tree

/-- If a tree stands at the first access, the way to this part of it leads to the second. -/
inductive StandsIn : Access → Tree → Access → Tree → Prop
  | self {access : Access} {tree : Tree} : StandsIn access tree access tree
  | item {access access' : Access} {items : List Tree} {item part : Tree} (hitem : item ∈ items)
    (h : StandsIn access item access' part) : StandsIn access (.seq items) access' part
  | field {access access' : Access} {kind name : String} {fields : List (String × Tree)}
    {value part : Tree} (hfield : (name, value) ∈ fields)
    (h : StandsIn (access.below kind name) value access' part) :
    StandsIn access (.node kind fields) access' part

/-- From another access a way leads to the same, unless all its fields share the access. -/
theorem StandsIn.from_other {access access' : Access} {tree part : Tree}
    (h : StandsIn access tree access' part) (other : Access) :
    StandsIn other tree access' part ∨ StandsIn other tree other part := by
  induction h generalizing other with
  | self => exact .inr .self
  | item hitem _ ih => exact (ih other).imp (.item hitem) (.item hitem)
  | @field access access' kind name _ _ _ hfield h ih =>
    rcases access.below_shared_or_same other kind name with ⟨-, hother⟩ | hsame
    · exact (ih other).imp (fun h => .field hfield (hother.symm ▸ h))
        fun h => .field hfield (hother.symm ▸ h)
    · exact .inl (.field hfield (hsame ▸ h))

/-- Something is true of every node of a tree that stands at an access, by the access of the node's
own place, its kind and its fields. -/
def Everywhere (N : Access → String → List (String × Tree) → Prop) (access : Access)
    (tree : Tree) : Prop :=
  ∀ access' kind fields, StandsIn access tree access' (.node kind fields) → N access' kind fields

namespace Everywhere

variable {N : Access → String → List (String × Tree) → Prop} {access : Access}

theorem absent : Everywhere N access .absent := by
  intro access' kind fields h
  cases h

theorem str (text : String) : Everywhere N access (.str text) := by
  intro access' kind fields h
  cases h

theorem seq {items : List Tree} (h : ∀ item ∈ items, Everywhere N access item) :
    Everywhere N access (.seq items) := by
  intro access' kind fields hstands
  cases hstands with
  | item hitem hstands => exact h _ hitem _ _ _ hstands

theorem node {kind : String} {fields : List (String × Tree)} (hnode : N access kind fields)
    (h : ∀ pair ∈ fields, Everywhere N (access.below kind pair.1) pair.2) :
    Everywhere N access (.node kind fields) := by
  intro access' kind' fields' hstands
  cases hstands with
  | self => exact hnode
  | field hfield hstands => exact h _ hfield _ _ _ hstands

theorem item {items : List Tree} {item : Tree} (h : Everywhere N access (.seq items))
    (hitem : item ∈ items) : Everywhere N access item :=
  fun _ _ _ hstands => h _ _ _ (.item hitem hstands)

theorem self {kind : String} {fields : List (String × Tree)}
    (h : Everywhere N access (.node kind fields)) : N access kind fields :=
  h _ _ _ .self

theorem value {kind name : String} {fields : List (String × Tree)} {value : Tree}
    (h : Everywhere N access (.node kind fields)) (hfield : (name, value) ∈ fields) :
    Everywhere N (access.below kind name) value :=
  fun _ _ _ hstands => h _ _ _ (.field hfield hstands)

theorem leaf {kind : String} (h : N access kind []) : Everywhere N access (.leaf kind) :=
  node h (List.forall_mem_nil _)

end Everywhere

end Tree

/-! ## Conforming nodes -/

namespace Grammar

theorem mem_entries {access : Access} {kind : String} {forms : List (String × Form)}
    (h : fields? access kind = some forms) : (kind, forms) ∈ entries access :=
  NameTable.mem_of_lookup h

/-- The access that the table asks for in a field is the one to which the way there leads. -/
theorem access_of_entry (access : Access) : ∀ entry ∈ entries access, ∀ field ∈ entry.2,
    field.2.access = access.below entry.1 field.1 := by
  cases access <;> decide +kernel

/-- The names of the fields of each kind. -/
def fieldNames : NameTable (List String) :=
  (entries .load).map fun entry => (entry.1, entry.2.map (·.1))

/-- Whatever the access of a node, its fields have the same names. -/
theorem mem_fieldNames {access : Access} {kind : String} {forms : List (String × Form)}
    (h : fields? access kind = some forms) : (kind, forms.map (·.1)) ∈ fieldNames := by
  have hnames : fieldNames = (entries access).map fun entry => (entry.1, entry.2.map (·.1)) := by
    cases access <;> rfl
  rw [hnames]
  exact List.mem_map_of_mem (mem_entries h)

theorem nodup_of_mem_fieldNames : ∀ entry ∈ fieldNames, entry.2.Nodup := by decide +kernel

end Grammar

/-- A node has the fields that are listed for its kind, each with a value that it may hold. -/
structure Conforms (holds : Form → Tree → Prop) (access : Access) (kind : String)
    (fields : List (String × Tree)) : Prop where
  values : ∃ forms, Grammar.fields? access kind = some forms ∧
    (∀ name, name ∈ fields.map (·.1) → name ∈ forms.map (·.1)) ∧
    ∀ field ∈ forms, ∃ value, fields.lookup field.1 = some value ∧ holds field.2 value
  parallel : ∀ pair ∈ Grammar.parallel kind, ∃ xs ys : List Tree,
    fields.lookup pair.1 = some (.seq xs) ∧ fields.lookup pair.2 = some (.seq ys) ∧
      xs.length = ys.length

theorem Conforms.mono {holds holds' : Form → Tree → Prop} {access : Access} {kind : String}
    {fields : List (String × Tree)} (h : Conforms holds access kind fields)
    (hholds : ∀ form tree, holds form tree → holds' form tree) :
    Conforms holds' access kind fields := by
  obtain ⟨forms, hforms, hnames, hvalues⟩ := h.values
  refine ⟨⟨forms, hforms, hnames, fun field hfield => ?_⟩, h.parallel⟩
  obtain ⟨value, hlookup, hvalue⟩ := hvalues field hfield
  exact ⟨value, hlookup, hholds _ _ hvalue⟩

namespace Derives

variable {given : Form → Tree → Prop}

/-- Every node that a grammar rule puts together conforms. -/
theorem conforms {n : Nat} {access : Access} {kind : String} {forms : List (String × Form)}
    {fields : List (String × Tree)} (hforms : Grammar.fields? access kind = some forms)
    (hnames : forms.map (·.1) = fields.map (·.1))
    (hfields : ∀ pair ∈ forms.zip fields,
      Derives given (n + Grammar.freeLayers kind pair.1.1) pair.1.2 pair.2.2)
    (hparallel : ∀ pair ∈ Grammar.parallel kind, ∃ xs ys : List Tree,
      (pair.1, .seq xs) ∈ fields ∧ (pair.2, .seq ys) ∈ fields ∧ xs.length = ys.length) :
    Conforms (fun form tree => ∃ m, Derives given m form tree) access kind
      (NameTable.ofList fields) := by
  have hnodup : (fields.map (·.1)).Nodup :=
    hnames ▸ Grammar.nodup_of_mem_fieldNames _ (Grammar.mem_fieldNames hforms)
  refine ⟨⟨forms, hforms, fun name hname => ?_, fun field hfield => ?_⟩, fun pair hpair => ?_⟩
  · obtain ⟨pair, hpair, rfl⟩ := List.mem_map.mp hname
    rw [hnames]
    exact List.mem_map_of_mem (NameTable.mem_of_mem_ofList hpair)
  · obtain ⟨value, hvalue⟩ := (exists_zip_of_mem hnames).1 field hfield
    exact ⟨value, NameTable.lookup_ofList_of_mem hnodup (List.of_mem_zip hvalue).2, _,
      hfields _ hvalue⟩
  · obtain ⟨xs, ys, hxs, hys, hlength⟩ := hparallel pair hpair
    exact ⟨xs, ys, NameTable.lookup_ofList_of_mem hnodup hxs,
      NameTable.lookup_ofList_of_mem hnodup hys, hlength⟩

/-- What holds of every node of the given trees, and of every node that conforms, holds of every
node of a tree that derives. -/
theorem everywhere {N : Access → String → List (String × Tree) → Prop}
    (hgiven : ∀ form tree, given form tree → tree.Everywhere N form.access)
    (hnode : ∀ access kind fields,
      Conforms (fun form tree => ∃ m, Derives given m form tree) access kind fields →
      N access kind fields)
    {n : Nat} {form : Form} {tree : Tree} (h : Derives given n form tree) :
    tree.Everywhere N form.access := by
  induction h with
  | given h => exact hgiven _ _ h
  | text text => exact .str text
  | absent => exact .absent
  | present _ ih => exact ih
  | instead text => exact .str text
  | other _ ih => exact ih
  | list _ ih => exact .seq ih
  | @node n category kind forms fields hkind hforms hnames hfields hparallel ih =>
    refine .node (hnode _ _ _ (conforms hforms hnames hfields hparallel)) fun field hfield => ?_
    obtain ⟨form, hpair⟩ := (exists_zip_of_mem hnames).2 field (NameTable.mem_of_mem_ofList hfield)
    have haccess := Grammar.access_of_entry category.access _ (Grammar.mem_entries hforms) _
      (List.of_mem_zip hpair).1
    exact haccess ▸ ih _ hpair

end Derives

end TreeText
