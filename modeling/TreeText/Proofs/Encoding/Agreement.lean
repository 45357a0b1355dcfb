import TreeText.Proofs.Encoding.Path

/-!
# Placeholders, warnings and strict validation

Three recursions go over a tree: `encode` writes placeholders, `unknownKinds` says which, and
`validate` refuses unknown kinds and missing fields. They see the same nodes:
`occursIn_encode_iff` compares the first two, and `validate_eq_ok_iff` says that the third accepts
a tree exactly when every kind that the second finds is allowed and every visited node is complete
(`Accepts`).

All three comparisons are inductions over the tree that look at a node of a known kind field by
field, in the order of the schema's list.
-/

namespace TreeText

/-! ## Parts of S-expressions -/

/-- An expression is another one or lies in one of its lists. -/
inductive SExpr.OccursIn (part : SExpr) : SExpr → Prop where
  | self : OccursIn part part
  | item {item : SExpr} {items : List SExpr} (mem : item ∈ items) (inner : OccursIn part item) :
      OccursIn part (.list items)

namespace SExpr

theorem occursIn_list_iff {part : SExpr} {items : List SExpr} (hne : part ≠ .list items) :
    part.OccursIn (.list items) ↔ ∃ item ∈ items, part.OccursIn item := by
  constructor
  · intro h
    cases h with
    | self => exact absurd rfl hne
    | item mem inner => exact ⟨_, mem, inner⟩
  · rintro ⟨item, mem, inner⟩
    exact .item mem inner

/-- In an expression that is no list only the expression itself occurs. -/
theorem eq_of_occursIn {part expr : SExpr} (hexpr : expr.items? = none)
    (h : part.OccursIn expr) : part = expr := by
  cases h with
  | self => rfl
  | item mem inner => cases hexpr

theorem not_occursIn {part expr : SExpr} (hexpr : expr.items? = none) (hne : part ≠ expr) :
    ¬ part.OccursIn expr :=
  fun h => hne (eq_of_occursIn hexpr h)

end SExpr

namespace Schema

variable (schema : Schema)

/-! ## Placeholders and warnings -/

theorem unknownIn_node_of_fields? {kind : String} {names : List String}
    (hkind : schema.fields? kind = some names) (fields : List (String × Tree)) :
    schema.unknownIn (.node kind fields) =
      names.flatMap fun name => schema.unknownIn (Tree.listed fields name) := by
  have hvalue : ∀ name, ((fields.lookup name).map schema.unknownIn).getD [] =
      schema.unknownIn (Tree.listed fields name) := by
    intro name
    unfold Tree.listed
    cases fields.lookup name <;> rfl
  simp only [unknownIn, hkind, foundInListed, lookup_unknownInFields, hvalue]

theorem mem_unknownKinds_iff {tree : Tree} {kind : String} :
    kind ∈ schema.unknownKinds tree ↔ kind ∈ schema.unknownIn tree := by
  rw [unknownKinds, NameTable.mem_keys_iff, NameTable.lookup_ofList, ← NameTable.mem_keys_iff]
  simp

/-- The placeholders in the S-expression of a tree are the kinds that the search finds. -/
theorem occursIn_encode_iff (kind : String) (tree : Tree) :
    (SExpr.placeholder kind).OccursIn (schema.encode tree) ↔ kind ∈ schema.unknownIn tree := by
  induction tree using Tree.induction with
  | absent =>
    rw [encode, unknownIn]
    exact iff_of_false (SExpr.not_occursIn rfl (by simp)) List.not_mem_nil
  | str text =>
    rw [encode, unknownIn]
    exact iff_of_false (SExpr.not_occursIn rfl (by simp)) List.not_mem_nil
  | seq items ih =>
    rw [encode, unknownIn, encodeItems_eq_map, unknownInItems_eq_flatMap,
      SExpr.occursIn_list_iff (by simp), List.mem_flatMap]
    constructor
    · rintro ⟨_, hmem, hoccurs⟩
      obtain ⟨item, hitem, rfl⟩ := List.mem_map.mp hmem
      exact ⟨item, hitem, (ih item hitem).mp hoccurs⟩
    · rintro ⟨item, hitem, hfound⟩
      exact ⟨_, List.mem_map_of_mem hitem, (ih item hitem).mpr hfound⟩
  | node known fields ih =>
    cases hkind : schema.fields? known with
    | none =>
      rw [schema.encode_node_of_unknown hkind, unknownIn, hkind]
      dsimp only
      rw [List.mem_singleton]
      constructor
      · intro h
        exact SExpr.placeholder.inj (SExpr.eq_of_occursIn rfl h)
      · rintro rfl
        exact .self
    | some names =>
      have hlisted := Tree.listed_induct (motive := fun tree =>
        (SExpr.placeholder kind).OccursIn (schema.encode tree) ↔ kind ∈ schema.unknownIn tree)
        (iff_of_false (SExpr.not_occursIn rfl (by simp [encode])) List.not_mem_nil) ih
      rw [schema.encode_node_of_fields? hkind, schema.unknownIn_node_of_fields? hkind,
        SExpr.occursIn_list_iff (by simp), List.mem_flatMap]
      constructor
      · rintro ⟨item, hitem, hoccurs⟩
        -- Neither the kind in front nor a marker is a placeholder.
        rcases List.mem_cons.mp hitem with rfl | hitem
        · cases SExpr.eq_of_occursIn rfl hoccurs
        · obtain ⟨name, hname, hpair⟩ := List.mem_flatMap.mp hitem
          rcases List.mem_cons.mp hpair with rfl | hpair
          · cases SExpr.eq_of_occursIn rfl hoccurs
          · obtain rfl := List.mem_singleton.mp hpair
            exact ⟨name, hname, (hlisted name).mp hoccurs⟩
      · rintro ⟨name, hname, hfound⟩
        refine ⟨_, List.mem_cons_of_mem _ (List.mem_flatMap.mpr ⟨name, hname, ?_⟩),
          (hlisted name).mpr hfound⟩
        exact List.mem_cons_of_mem _ List.mem_cons_self

/-! ## Strict validation -/

/-- Every node of a known kind that encoding comes to has each field that its entry lists. -/
def Complete (tree : Tree) : Prop :=
  ∀ kind fields names, schema.Visits tree (.node kind fields) →
    schema.fields? kind = some names → ∀ name ∈ names, (fields.lookup name).isSome

theorem complete_seq_iff {items : List Tree} :
    schema.Complete (.seq items) ↔ ∀ item ∈ items, schema.Complete item := by
  constructor
  · intro h item hitem kind fields names hvisits
    exact h kind fields names (schema.visits_seq_iff.mpr (.inr ⟨item, hitem, hvisits⟩))
  · intro h kind fields names hvisits
    rcases schema.visits_seq_iff.mp hvisits with heq | ⟨item, hitem, hvisits⟩
    · cases heq
    · exact h item hitem kind fields names hvisits

theorem complete_node_iff {kind : String} {names : List String}
    (hkind : schema.fields? kind = some names) {fields : List (String × Tree)} :
    schema.Complete (.node kind fields) ↔
      ∀ name ∈ names, (fields.lookup name).isSome ∧ schema.Complete (Tree.listed fields name) := by
  constructor
  · intro h name hname
    refine ⟨h kind fields names (schema.visits_self _) hkind name hname, ?_⟩
    intro kind' fields' names' hvisits
    exact h kind' fields' names' ((schema.visits_node_iff hkind).mpr (.inr ⟨name, hname, hvisits⟩))
  · intro h kind' fields' names' hvisits hkind' name' hname'
    -- The visited node is the node itself, or lies under one of its fields.
    rcases (schema.visits_node_iff hkind).mp hvisits with heq | ⟨name, hname, hvisits⟩
    · obtain ⟨rfl, rfl⟩ := Tree.node.inj heq
      rw [hkind] at hkind'
      obtain rfl := Option.some.inj hkind'
      exact (h name' hname').1
    · exact (h name hname).2 kind' fields' names' hvisits hkind' name' hname'

/-- There is nothing to complete where encoding stops. -/
theorem complete_of_visits_self {tree : Tree}
    (hstop : ∀ part, schema.Visits tree part → part = tree)
    (hkind : ∀ kind fields, tree = .node kind fields → schema.fields? kind = none) :
    schema.Complete tree := by
  intro kind fields names hvisits hnames
  rw [hkind kind fields (hstop _ hvisits).symm] at hnames
  cases hnames

theorem visits_eq_of_leaf {tree part : Tree} (hitems : tree.items? = none)
    (hkind : tree.kind? = none) (h : schema.Visits tree part) : part = tree := by
  obtain ⟨way, hway⟩ := h
  cases tree with
  | seq items => cases hitems
  | node kind fields => cases hkind
  | absent | str =>
    cases way with
    | nil =>
      rw [follow?] at hway
      exact (Option.some.inj hway).symm
    | cons step way => cases step <;> cases hway

variable (allowed : List String)

theorem checkItems_eq_ok_iff {here : String} {items : List Tree} {index : Nat} :
    schema.checkItems allowed here index items = .ok () ↔
      ∀ i item, items[i]? = some item →
        schema.checkAt allowed (here ++ ("[" ++ toString (index + i) ++ "]")) item = .ok () := by
  induction items generalizing index with
  | nil => simp [checkItems]
  | cons first rest ih =>
    rw [checkItems]
    cases hfirst : schema.checkAt allowed (here ++ ("[" ++ toString index ++ "]")) first with
    | error defect =>
      constructor
      · intro h
        cases h
      · -- The first item is rejected at its own path, so it is no item that all accept.
        intro h
        have := h 0 first rfl
        rw [Nat.add_zero, hfirst] at this
        exact this
    | ok _ =>
      dsimp only
      rw [ih]
      constructor
      · intro h i item hitem
        cases i with
        | zero =>
          obtain rfl := Option.some.inj hitem
          exact hfirst
        | succ i =>
          rw [show index + (i + 1) = index + 1 + i by omega]
          exact h i item hitem
      · intro h i item hitem
        have := h (i + 1) item hitem
        rwa [show index + (i + 1) = index + 1 + i by omega] at this

theorem checkListed_eq_ok_iff {kind : String} {here : String}
    {found : NameTable (Except Defect Unit)} {names : List String} :
    checkListed kind here found names = .ok () ↔
      ∀ name ∈ names, found.lookup name = some (.ok ()) := by
  induction names with
  | nil => simp [checkListed]
  | cons name rest ih =>
    rw [checkListed, List.forall_mem_cons]
    cases hfound : found.lookup name with
    | none => simp
    | some outcome =>
      cases outcome with
      | error defect => simp
      | ok _ => simp [ih]

/-- What strict validation asks for: unknown kinds are allowed and no listed field is missing. -/
def Accepts (tree : Tree) : Prop :=
  (∀ kind ∈ schema.unknownIn tree, kind ∈ allowed) ∧ schema.Complete tree

theorem accepts_of_leaf {tree : Tree} (hitems : tree.items? = none) (hkind : tree.kind? = none) :
    schema.Accepts allowed tree := by
  cases tree with
  | seq items => cases hitems
  | node kind fields => cases hkind
  | absent | str =>
    refine ⟨fun kind h => absurd h List.not_mem_nil, ?_⟩
    exact schema.complete_of_visits_self (fun _ => schema.visits_eq_of_leaf rfl rfl) (by simp)

theorem accepts_seq_iff {items : List Tree} :
    schema.Accepts allowed (.seq items) ↔ ∀ item ∈ items, schema.Accepts allowed item := by
  rw [Accepts, unknownIn, unknownInItems_eq_flatMap, complete_seq_iff]
  constructor
  · rintro ⟨hallowed, hcomplete⟩ item hitem
    refine ⟨fun kind hfound => ?_, hcomplete item hitem⟩
    exact hallowed kind (List.mem_flatMap.mpr ⟨item, hitem, hfound⟩)
  · intro h
    refine ⟨fun kind hkind => ?_, fun item hitem => (h item hitem).2⟩
    obtain ⟨item, hitem, hfound⟩ := List.mem_flatMap.mp hkind
    exact (h item hitem).1 kind hfound

theorem accepts_node_iff {kind : String} {names : List String}
    (hkind : schema.fields? kind = some names) {fields : List (String × Tree)} :
    schema.Accepts allowed (.node kind fields) ↔
      ∀ name ∈ names, (fields.lookup name).isSome ∧
        schema.Accepts allowed (Tree.listed fields name) := by
  rw [Accepts, schema.unknownIn_node_of_fields? hkind, schema.complete_node_iff hkind]
  constructor
  · rintro ⟨hallowed, hcomplete⟩ name hname
    refine ⟨(hcomplete name hname).1, fun unknown hfound => ?_, (hcomplete name hname).2⟩
    exact hallowed unknown (List.mem_flatMap.mpr ⟨name, hname, hfound⟩)
  · intro h
    refine ⟨fun unknown hunknown => ?_, fun name hname => ⟨(h name hname).1, (h name hname).2.2⟩⟩
    obtain ⟨name, hname, hfound⟩ := List.mem_flatMap.mp hunknown
    exact (h name hname).2.1 unknown hfound

theorem accepts_node_of_unknown {kind : String} (hkind : schema.fields? kind = none)
    {fields : List (String × Tree)} :
    schema.Accepts allowed (.node kind fields) ↔ kind ∈ allowed := by
  have hcomplete : schema.Complete (.node kind fields) := by
    refine schema.complete_of_visits_self (fun _ => (schema.visits_node_of_unknown hkind).mp) ?_
    intro kind' fields' heq
    obtain ⟨rfl, -⟩ := Tree.node.inj heq
    exact hkind
  rw [Accepts, unknownIn, hkind]
  simp [hcomplete]

/-- Validation accepts a tree at every path or at none. -/
theorem checkAt_eq_ok_iff (tree : Tree) (here : String) :
    schema.checkAt allowed here tree = .ok () ↔ schema.Accepts allowed tree := by
  induction tree using Tree.induction generalizing here with
  | absent => exact ⟨fun _ => schema.accepts_of_leaf allowed rfl rfl, fun _ => rfl⟩
  | str text => exact ⟨fun _ => schema.accepts_of_leaf allowed rfl rfl, fun _ => rfl⟩
  | seq items ih =>
    rw [checkAt, checkItems_eq_ok_iff, accepts_seq_iff]
    constructor
    · intro h item hitem
      obtain ⟨i, hi⟩ := List.mem_iff_getElem?.mp hitem
      exact (ih item hitem _).mp (h i item hi)
    · intro h i item hi
      have hitem := List.mem_of_getElem? hi
      exact (ih item hitem _).mpr (h item hitem)
  | node kind fields ih =>
    cases hkind : schema.fields? kind with
    | none =>
      rw [checkAt, hkind, schema.accepts_node_of_unknown allowed hkind]
      simp
    | some names =>
      rw [checkAt, hkind]
      dsimp only
      rw [checkListed_eq_ok_iff, schema.accepts_node_iff allowed hkind]
      refine forall₂_congr fun name _ => ?_
      -- A field that is there is checked at its own path, and one that is not is never accepted.
      rw [lookup_checkFields, Tree.listed]
      cases hlookup : fields.lookup name with
      | none => simp
      | some value =>
        rw [Option.map_some, Option.some_inj, Option.getD_some,
          ih _ (NameTable.mem_of_lookup hlookup)]
        simp

theorem validate_eq_ok_iff (tree : Tree) :
    schema.validate allowed tree = .ok () ↔ schema.Accepts allowed tree := by
  rw [validate_eq_checkAt]
  exact schema.checkAt_eq_ok_iff allowed tree _

/-- **Encoding, warnings and strict validation see the same nodes.** The unknown kinds of a tree
are the placeholders that its S-expression shows, and validation accepts the tree when and only
when all of them are allowed and each node of a known kind that encoding comes to has every field
that its entry lists. -/
theorem encode_unknownKinds_validate_agree (tree : Tree) :
    (∀ kind, kind ∈ schema.unknownKinds tree ↔
      (SExpr.placeholder kind).OccursIn (schema.encode tree)) ∧
    (schema.validate allowed tree = .ok () ↔
      (∀ kind ∈ schema.unknownKinds tree, kind ∈ allowed) ∧ schema.Complete tree) := by
  refine ⟨fun kind => ?_, ?_⟩
  · rw [mem_unknownKinds_iff, occursIn_encode_iff]
  · simp only [mem_unknownKinds_iff]
    exact schema.validate_eq_ok_iff allowed tree

end Schema

end TreeText
