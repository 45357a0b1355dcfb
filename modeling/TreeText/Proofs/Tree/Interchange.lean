import Mathlib
import TreeText.Tree.Interchange
import TreeText.Proofs.Json.Reader

/-!
# Trees survive the interchange format

The JSON text of a tree, compact or pretty, is read back as the tree, as long as the text nests no
deeper than the reader goes; otherwise it is refused (`read_texts`). How deep it nests is told by
the tree: `Tree.jsonDepth`.

The reader takes more texts than the writers write: members that mean nothing, fields given twice,
a node as a pair. Whatever it takes, the tree that it gives is well formed and nests no deeper than
the value that it was read from (`Fits`). So the text of that tree is taken as well, and stands for
the same tree (`read_texts_of_read`).
-/

namespace TreeText.Tree

/-! ## Depth -/

mutual

/-- How many arrays and objects lie in one another in the JSON text of a tree. A node is an object,
and if it has fields there is another one in it. -/
def jsonDepth : Tree → Nat
  | .absent => 0
  | .str _ => 0
  | .seq items => itemsJsonDepth items + 1
  | .node _ [] => 1
  | .node _ ((_, value) :: fields) => max (jsonDepth value) (fieldsJsonDepth fields) + 2

/-- The greatest depth of these items. -/
def itemsJsonDepth : List Tree → Nat
  | [] => 0
  | item :: rest => max (jsonDepth item) (itemsJsonDepth rest)

/-- The greatest depth of these fields' values. -/
def fieldsJsonDepth : List (String × Tree) → Nat
  | [] => 0
  | (_, value) :: rest => max (jsonDepth value) (fieldsJsonDepth rest)

end

theorem itemsJsonDepth_le_iff {items : List Tree} {bound : Nat} :
    itemsJsonDepth items ≤ bound ↔ ∀ item ∈ items, item.jsonDepth ≤ bound := by
  induction items with
  | nil => simp [itemsJsonDepth]
  | cons item rest ih => rw [itemsJsonDepth, Nat.max_le, ih, List.forall_mem_cons]

theorem fieldsJsonDepth_le_iff {fields : List (String × Tree)} {bound : Nat} :
    fieldsJsonDepth fields ≤ bound ↔ ∀ pair ∈ fields, pair.2.jsonDepth ≤ bound := by
  induction fields with
  | nil => simp [fieldsJsonDepth]
  | cons pair rest ih => rw [fieldsJsonDepth, Nat.max_le, ih, List.forall_mem_cons]

theorem wellFormedItems_iff {items : List Tree} :
    WellFormedItems items ↔ ∀ item ∈ items, item.WellFormed := by
  induction items with
  | nil => simp [WellFormedItems]
  | cons item rest ih => rw [WellFormedItems, ih, List.forall_mem_cons]

theorem wellFormedFields_iff {fields : List (String × Tree)} :
    WellFormedFields fields ↔ ∀ pair ∈ fields, pair.2.WellFormed := by
  induction fields with
  | nil => simp [WellFormedFields]
  | cons pair rest ih => rw [WellFormedFields, ih, List.forall_mem_cons]

/-! ## The value of a tree -/

mutual

theorem depth_toJson : ∀ tree : Tree, tree.toJson.depth = tree.jsonDepth
  | .absent => rfl
  | .str _ => rfl
  | .seq items => by rw [toJson, Json.depth, itemsDepth_toJson items, jsonDepth]
  | .node _ [] => rfl
  | .node _ ((_, value) :: fields) => by
    simp only [toJson, Json.depth, Json.membersDepth, depth_toJson value,
      membersDepth_toJson fields, jsonDepth]
    omega

theorem itemsDepth_toJson : ∀ items : List Tree,
    Json.itemsDepth (itemsToJson items) = itemsJsonDepth items
  | [] => rfl
  | item :: rest => by
    rw [itemsToJson, Json.itemsDepth, depth_toJson item, itemsDepth_toJson rest, itemsJsonDepth]

theorem membersDepth_toJson : ∀ fields : List (String × Tree),
    Json.membersDepth (fieldsToJson fields) = fieldsJsonDepth fields
  | [] => rfl
  | (_, value) :: rest => by
    rw [fieldsToJson, Json.membersDepth, depth_toJson value, membersDepth_toJson rest,
      fieldsJsonDepth]

end

theorem itemsToJson_eq_map (items : List Tree) : itemsToJson items = items.map toJson := by
  induction items with
  | nil => rfl
  | cons item rest ih => rw [itemsToJson, ih, List.map_cons]

theorem fieldsToJson_eq_map (fields : List (String × Tree)) :
    fieldsToJson fields = fields.map fun pair => (pair.1, pair.2.toJson) := by
  induction fields with
  | nil => rfl
  | cons pair rest ih => rw [fieldsToJson, ih, List.map_cons]

/-- The value of a node with fields. -/
theorem toJson_node_of_ne_nil (kind : String) {fields : List (String × Tree)} (h : fields ≠ []) :
    (node kind fields).toJson =
      .obj [("kind", .str kind), ("fields", .obj (fieldsToJson fields))] := by
  cases fields with
  | nil => exact absurd rfl h
  | cons pair rest => rw [toJson, fieldsToJson]

theorem numberless_toJson (tree : Tree) : tree.toJson.Numberless := by
  induction tree using Tree.induction with
  | absent => exact .null
  | str text => exact .str text
  | seq items ih =>
    rw [toJson, itemsToJson_eq_map]
    exact .arr (List.forall_mem_map.mpr ih)
  | node kind fields ih =>
    by_cases h : fields = []
    · subst h
      exact .obj (List.forall_mem_cons.mpr ⟨.str kind, List.forall_mem_nil _⟩)
    · have hfields : (Json.obj (fieldsToJson fields)).Numberless := by
        rw [fieldsToJson_eq_map]
        exact .obj (List.forall_mem_map.mpr ih)
      rw [toJson_node_of_ne_nil kind h]
      exact .obj (List.forall_mem_cons.mpr
        ⟨.str kind, List.forall_mem_cons.mpr ⟨hfields, List.forall_mem_nil _⟩⟩)

theorem ofItems?_map_toJson {items : List Tree}
    (h : ∀ item ∈ items, ofJson? item.toJson = some item) :
    ofItems? (items.map toJson) = some items := by
  induction items with
  | nil => rfl
  | cons item rest ih =>
    rw [List.forall_mem_cons] at h
    rw [List.map_cons, ofItems?, h.1, ih h.2]
    rfl

theorem ofFields?_map_toJson {fields : List (String × Tree)}
    (h : ∀ pair ∈ fields, ofJson? pair.2.toJson = some pair.2) :
    ofFields? (fields.map fun pair => (pair.1, pair.2.toJson)) = some fields := by
  induction fields with
  | nil => rfl
  | cons pair rest ih =>
    rw [List.forall_mem_cons] at h
    rw [List.map_cons, ofFields?, h.1, ih h.2]
    rfl

/-- The value of a well-formed tree stands for the tree. -/
theorem ofJson?_toJson {tree : Tree} (h : tree.WellFormed) : ofJson? tree.toJson = some tree := by
  induction tree using Tree.induction with
  | absent => rfl
  | str text => rfl
  | seq items ih =>
    rw [WellFormed, wellFormedItems_iff] at h
    rw [toJson, itemsToJson_eq_map, ofJson?,
      ofItems?_map_toJson fun item hmem => ih item hmem (h item hmem)]
  | node kind fields ih =>
    rw [WellFormed, wellFormedFields_iff] at h
    by_cases hnil : fields = []
    · subst hnil
      rfl
    · have hfields : fieldTable? (.obj (fieldsToJson fields)) = some fields := by
        rw [fieldTable?, fieldsToJson_eq_map,
          ofFields?_map_toJson fun pair hmem => ih pair hmem (h.2 pair hmem), Option.map_some,
          NameTable.ofList_of_sorted h.1]
      have hkind : kindOf? [("kind", .str kind), ("fields", .obj (fieldsToJson fields))] =
          some kind := rfl
      have htables : fieldTables [("kind", .str kind), ("fields", .obj (fieldsToJson fields))] =
          [some fields] := by
        rw [fieldTables, if_neg (by decide), fieldTables, if_pos rfl, hfields, fieldTables]
      rw [toJson_node_of_ne_nil kind hnil, ofJson?, hkind, htables]

/-! ## The text of a tree -/

/-- The text of a well-formed tree, in any layout and with blanks behind it, is read back as the
tree, unless it nests too deep. -/
theorem read_put (layout : Json.Layout) {tree : Tree} (h : tree.WellFormed) {blanks : List Char}
    (hblanks : ∀ c ∈ blanks, Json.isBlank c = true) :
    read (String.ofList (layout.put 0 tree.toJson blanks)) =
      if tree.jsonDepth ≤ Json.nestingLimit then .ok tree else .error (.text .malformed) := by
  have hvalue := Json.readsBack_value layout (numberless_toJson tree) Json.nestingLimit []
    (List.forall_mem_nil _) 0 blanks
  have hrest : Json.skipBlanks blanks = [] := by
    rw [← List.append_nil blanks, Json.skipBlanks_append hblanks]
    rfl
  rw [List.nil_append, depth_toJson] at hvalue
  rw [read, Json.read, String.toList_ofList, hvalue]
  by_cases hdepth : tree.jsonDepth ≤ Json.nestingLimit
  · rw [if_pos hdepth, if_pos hdepth]
    simp only [ofJson?_toJson h, hrest]
    rfl
  · rw [if_neg hdepth, if_neg hdepth]

theorem read_compactText {tree : Tree} (h : tree.WellFormed) :
    read tree.compactText =
      if tree.jsonDepth ≤ Json.nestingLimit then .ok tree else .error (.text .malformed) := by
  rw [compactText, Json.compact, ← Json.Layout.put_compact tree.toJson 0,
    read_put _ h (List.forall_mem_nil _)]

theorem read_prettyText {tree : Tree} (h : tree.WellFormed) :
    read tree.prettyText =
      if tree.jsonDepth ≤ Json.nestingLimit then .ok tree else .error (.text .malformed) := by
  rw [prettyText, Json.pretty, ← Json.Layout.put_pretty tree.toJson 0,
    read_put _ h (List.forall_mem_nil _)]

/-- The end of the last line does not keep a text from being read. -/
theorem read_prettyText_newline {tree : Tree} (h : tree.WellFormed) :
    read (tree.prettyText ++ "\n") =
      if tree.jsonDepth ≤ Json.nestingLimit then .ok tree else .error (.text .malformed) := by
  have htext : tree.prettyText ++ "\n" =
      String.ofList (Json.Layout.pretty.put 0 tree.toJson ['\n']) := by
    rw [prettyText, Json.pretty, ← Json.Layout.put_pretty tree.toJson 0,
      show "\n" = String.ofList ['\n'] from rfl, ← String.ofList_append,
      ← Json.Layout.put_append, List.nil_append]
  rw [htext, read_put _ h (List.forall_mem_singleton.mpr rfl)]

/-- This many sequences in one another. -/
def tower : Nat → Tree
  | 0 => .absent
  | height + 1 => .seq [tower height]

theorem wellFormed_tower (height : Nat) : (tower height).WellFormed := by
  induction height with
  | zero => trivial
  | succ height ih => exact ⟨ih, trivial⟩

theorem jsonDepth_tower (height : Nat) : (tower height).jsonDepth = height := by
  induction height with
  | zero => rfl
  | succ height ih => rw [tower, jsonDepth, itemsJsonDepth, itemsJsonDepth, ih, Nat.max_zero]

/-- Both texts of a tree are read back as the tree if they nest no deeper than 127, and are refused
otherwise. -/
theorem read_texts {tree : Tree} (h : tree.WellFormed) :
    (tree.jsonDepth ≤ 127 →
      read tree.compactText = .ok tree ∧ read tree.prettyText = .ok tree) ∧
    (127 < tree.jsonDepth →
      read tree.compactText = .error (.text .malformed) ∧
        read tree.prettyText = .error (.text .malformed)) := by
  have hlimit : Json.nestingLimit = 127 := rfl
  rw [read_compactText h, read_prettyText h, hlimit]
  constructor
  · intro hdepth
    rw [if_pos hdepth]
    exact ⟨rfl, rfl⟩
  · intro hdepth
    rw [if_neg (Nat.not_le.mpr hdepth)]
    exact ⟨rfl, rfl⟩

/-- `read_texts` on both sides of the limit. -/
theorem read_texts_tower :
    (read (tower 127).compactText = .ok (tower 127) ∧
      read (tower 127).prettyText = .ok (tower 127)) ∧
    (read (tower 128).compactText = .error (.text .malformed) ∧
      read (tower 128).prettyText = .error (.text .malformed)) := by
  have hlow : (tower 127).jsonDepth ≤ 127 := Nat.le_of_eq (jsonDepth_tower 127)
  have hhigh : 127 < (tower 128).jsonDepth := by rw [jsonDepth_tower]; decide
  exact ⟨(read_texts (wellFormed_tower 127)).1 hlow, (read_texts (wellFormed_tower 128)).2 hhigh⟩

/-! ## What a value may stand for -/

/-- A table is in order, its values are well formed, and they nest no deeper than `bound`. -/
structure FitsIn (bound : Nat) (table : NameTable Tree) : Prop where
  sorted : table.Sorted
  wellFormed : ∀ pair ∈ table, pair.2.WellFormed
  depth_le : ∀ pair ∈ table, pair.2.jsonDepth ≤ bound

theorem FitsIn.node {bound : Nat} {table : NameTable Tree} (h : FitsIn bound table)
    (kind : String) : (node kind table).WellFormed ∧ (node kind table).jsonDepth ≤ bound + 2 := by
  refine ⟨⟨h.sorted, wellFormedFields_iff.mpr h.wellFormed⟩, ?_⟩
  cases table with
  | nil =>
    rw [jsonDepth]
    omega
  | cons pair rest => exact Nat.add_le_add_right (fieldsJsonDepth_le_iff.mpr h.depth_le) 2

/-- What a value stands for, as a tree or as a table of fields, is well formed and nests no deeper
than the value. -/
structure Fits (value : Json) : Prop where
  tree {tree : Tree} (h : ofJson? value = some tree) :
    tree.WellFormed ∧ tree.jsonDepth ≤ value.depth
  table {table : NameTable Tree} (h : fieldTable? value = some table) :
    ∃ bound, FitsIn bound table ∧ bound + 1 = value.depth

theorem fits_items {items : List Json} (h : ∀ item ∈ items, Fits item) {trees : List Tree}
    (htrees : ofItems? items = some trees) :
    (∀ tree ∈ trees, tree.WellFormed) ∧ ∀ tree ∈ trees, tree.jsonDepth ≤ Json.itemsDepth items := by
  induction items generalizing trees with
  | nil =>
    cases htrees
    exact ⟨List.forall_mem_nil _, List.forall_mem_nil _⟩
  | cons item rest ih =>
    rw [List.forall_mem_cons] at h
    rw [ofItems?] at htrees
    split at htrees
    · cases htrees
    · next first hfirst =>
      obtain ⟨others, hothers, rfl⟩ := Option.map_eq_some_iff.mp htrees
      have hitem := h.1.tree hfirst
      have hrest := ih h.2 hothers
      rw [Json.itemsDepth]
      refine ⟨List.forall_mem_cons.mpr ⟨hitem.1, hrest.1⟩, List.forall_mem_cons.mpr ⟨?_, ?_⟩⟩
      · exact Nat.le_trans hitem.2 (Nat.le_max_left _ _)
      · exact fun tree hmem => Nat.le_trans (hrest.2 tree hmem) (Nat.le_max_right _ _)

theorem fits_fields {members : List (String × Json)} (h : ∀ member ∈ members, Fits member.2)
    {pairs : List (String × Tree)} (hpairs : ofFields? members = some pairs) :
    FitsIn (Json.membersDepth members) (NameTable.ofList pairs) := by
  have hall : ∀ pair ∈ pairs,
      pair.2.WellFormed ∧ pair.2.jsonDepth ≤ Json.membersDepth members := by
    induction members generalizing pairs with
    | nil =>
      cases hpairs
      exact List.forall_mem_nil _
    | cons member rest ih =>
      rw [List.forall_mem_cons] at h
      rw [ofFields?] at hpairs
      split at hpairs
      · cases hpairs
      · next first hfirst =>
        obtain ⟨others, hothers, rfl⟩ := Option.map_eq_some_iff.mp hpairs
        have hmember := h.1.tree hfirst
        rw [Json.membersDepth]
        refine List.forall_mem_cons.mpr ⟨⟨hmember.1, ?_⟩, fun pair hmem => ?_⟩
        · exact Nat.le_trans hmember.2 (Nat.le_max_left _ _)
        · have hrest := ih h.2 hothers pair hmem
          exact ⟨hrest.1, Nat.le_trans hrest.2 (Nat.le_max_right _ _)⟩
  -- Of repeated fields one is kept, so nothing is in the table that was not among the pairs.
  exact {
    sorted := NameTable.ofList_sorted pairs
    wellFormed := fun pair hmem => (hall pair (NameTable.mem_of_mem_ofList hmem)).1
    depth_le := fun pair hmem => (hall pair (NameTable.mem_of_mem_ofList hmem)).2 }

theorem mem_of_mem_fieldTables {members : List (String × Json)} {table : Option (NameTable Tree)}
    (h : table ∈ fieldTables members) : ∃ member ∈ members, fieldTable? member.2 = table := by
  induction members with
  | nil => cases h
  | cons member rest ih =>
    have hrest (h : table ∈ fieldTables rest) :
        ∃ other ∈ member :: rest, fieldTable? other.2 = table := by
      obtain ⟨other, hmem, heq⟩ := ih h
      exact ⟨other, List.mem_cons_of_mem _ hmem, heq⟩
    rw [fieldTables] at h
    split at h
    · rcases List.mem_cons.mp h with heq | h
      · exact ⟨member, List.mem_cons_self, heq.symm⟩
      · exact hrest h
    · exact hrest h

/-- An object whose members fit stands for a node that fits. -/
theorem fits_object {members : List (String × Json)} (h : ∀ member ∈ members, Fits member.2)
    {tree : Tree} (htree : ofJson? (.obj members) = some tree) :
    tree.WellFormed ∧ tree.jsonDepth ≤ (Json.obj members).depth := by
  rw [ofJson?] at htree
  split at htree
  · cases htree
  · next kind hkind =>
    split at htree
    · cases htree
      rw [jsonDepth, Json.depth]
      exact ⟨⟨List.Pairwise.nil, trivial⟩, by omega⟩
    · next table htables =>
      cases htree
      obtain ⟨member, hmem, htable⟩ := mem_of_mem_fieldTables (htables ▸ List.mem_singleton_self _)
      obtain ⟨bound, hfits, hbound⟩ := (h member hmem).table htable
      have hnode := hfits.node kind
      have hmember := Json.membersDepth_le_iff.mp (Nat.le_refl _) member hmem
      rw [Json.depth]
      exact ⟨hnode.1, by omega⟩
    · cases htree

/-- A pair of a kind and its fields stands for a node that fits. -/
theorem fits_pair {items : List Json} (h : ∀ item ∈ items, Fits item) {tree : Tree}
    (htree : ofPair? items = some tree) :
    tree.WellFormed ∧ tree.jsonDepth ≤ Json.itemsDepth items + 1 := by
  unfold ofPair? at htree
  split at htree
  · next kind members =>
    obtain ⟨pairs, hpairs, rfl⟩ := Option.map_eq_some_iff.mp htree
    have htable : fieldTable? (.obj members) = some (NameTable.ofList pairs) := by
      rw [fieldTable?, hpairs, Option.map_some]
    obtain ⟨bound, hfits, hbound⟩ := (h (.obj members) (by simp)).table htable
    have hnode : (record kind pairs).WellFormed ∧ (record kind pairs).jsonDepth ≤ bound + 2 :=
      hfits.node kind
    have hmember := Json.itemsDepth_le_iff.mp (Nat.le_refl _) (.obj members)
      (show Json.obj members ∈ [Json.str kind, .obj members] by simp)
    exact ⟨hnode.1, by omega⟩
  · cases htree

theorem fits (value : Json) : Fits value := by
  induction value using Json.induction with
  | null =>
    refine ⟨fun h => ?_, nofun⟩
    cases h
    exact ⟨trivial, Nat.le_refl _⟩
  | bool b => exact ⟨nofun, nofun⟩
  | number spelling => exact ⟨nofun, nofun⟩
  | str text =>
    refine ⟨fun h => ?_, nofun⟩
    cases h
    exact ⟨trivial, Nat.le_refl _⟩
  | arr items ih =>
    refine ⟨fun htree => ?_, nofun⟩
    rw [ofJson?] at htree
    split at htree
    · next trees htrees =>
      cases htree
      have hitems := fits_items ih htrees
      rw [jsonDepth, Json.depth]
      exact ⟨wellFormedItems_iff.mpr hitems.1,
        Nat.succ_le_succ (itemsJsonDepth_le_iff.mpr hitems.2)⟩
    · exact fits_pair ih htree
  | obj members ih =>
    refine ⟨fits_object ih, fun htable => ?_⟩
    obtain ⟨pairs, hpairs, rfl⟩ := Option.map_eq_some_iff.mp htable
    exact ⟨_, fits_fields ih hpairs, rfl⟩

/-! ## Texts that are taken -/

theorem fits_read {text : String} {tree : Tree} (h : read text = .ok tree) :
    tree.WellFormed ∧ tree.jsonDepth ≤ Json.nestingLimit := by
  rw [read] at h
  split at h
  · cases h
  · next value rest hvalue =>
    split at h
    · cases h
    · next found hfound =>
      split at h
      · cases h
        have hfits := (fits value).tree hfound
        exact ⟨hfits.1, Nat.le_trans hfits.2 (Json.depth_le_of_value hvalue)⟩
      · cases h

/-- Whatever text a tree was read from, both texts of the tree are read back as the tree. -/
theorem read_texts_of_read {text : String} {tree : Tree} (h : read text = .ok tree) :
    read tree.compactText = .ok tree ∧ read tree.prettyText = .ok tree := by
  obtain ⟨hformed, hdepth⟩ := fits_read h
  rw [read_compactText hformed, read_prettyText hformed, if_pos hdepth]
  exact ⟨rfl, rfl⟩

/-- `read_texts_of_read` for a node that is written as a pair, with a field given twice. -/
theorem read_texts_of_pair :
    read " [ \"a\" , \x7b\"b\": null, \"\\u0062\": []\x7d] " = .ok (.node "a" [("b", .seq [])]) ∧
      read (node "a" [("b", .seq [])]).compactText = .ok (.node "a" [("b", .seq [])]) ∧
      read (node "a" [("b", .seq [])]).prettyText = .ok (.node "a" [("b", .seq [])]) := by
  have hread : read " [ \"a\" , \x7b\"b\": null, \"\\u0062\": []\x7d] " =
      .ok (.node "a" [("b", .seq [])]) := by cbv
  exact ⟨hread, read_texts_of_read hread⟩

end TreeText.Tree
