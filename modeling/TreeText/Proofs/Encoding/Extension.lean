import TreeText.Proofs.Encoding.Agreement
import TreeText.Schema.Builtin

/-!
# Schemas that know more kinds

Extending a schema by kinds that are new to it opens the placeholders of these kinds and changes
nothing else. `collapse` goes the way back: it puts a placeholder in the place of every list that is
tagged with a kind of the extension. Since no encoded item is a bare symbol, a list is tagged only
where a node was encoded, so collapsing the S-expression under the extended schema gives the one
under the schema before (`encode_eq_collapse_encode_extend`).

Encoding under the extended schema also goes into nodes that it passed by before. Wherever it went
before it still goes, and a part in which no placeholder is opened keeps its text.
-/

namespace TreeText

namespace Schema

mutual

/-- An expression with a placeholder in the place of every list that is tagged with a kind of the
schema. What is in such a list is lost with it. -/
def collapse (schema : Schema) : SExpr → SExpr
  | .list items =>
    match (SExpr.list items).head? with
    | some kind =>
      if schema.contains kind then .placeholder kind else .list (collapseItems schema items)
    | none => .list (collapseItems schema items)
  | other => other

/-- `collapse` of each item. -/
def collapseItems (schema : Schema) : List SExpr → List SExpr
  | [] => []
  | item :: rest => collapse schema item :: collapseItems schema rest

end

section

variable (schema : Schema)

theorem collapseItems_eq_map (items : List SExpr) :
    schema.collapseItems items = items.map schema.collapse := by
  induction items with
  | nil => rfl
  | cons item rest ih => rw [collapseItems, ih, List.map_cons]

theorem collapse_untagged {items : List SExpr} (h : (SExpr.list items).head? = none) :
    schema.collapse (.list items) = .list (items.map schema.collapse) := by
  rw [collapse, h, collapseItems_eq_map]

theorem collapse_tagged {kind : String} (h : schema.contains kind = false) (items : List SExpr) :
    schema.collapse (.list (.symbol kind :: items)) =
      .list (.symbol kind :: items.map schema.collapse) := by
  rw [collapse, SExpr.head?]
  dsimp only
  rw [h, if_neg Bool.false_ne_true, collapseItems_eq_map, List.map_cons]
  rfl

theorem collapse_tagged_of_contains {kind : String} (h : schema.contains kind = true)
    (items : List SExpr) : schema.collapse (.list (.symbol kind :: items)) = .placeholder kind := by
  rw [collapse, SExpr.head?]
  dsimp only
  rw [h, if_pos rfl]

/-- No encoded item is a bare symbol, so an encoded sequence has no tag. -/
theorem head?_encodeItems (items : List Tree) :
    (SExpr.list (items.map schema.encode)).head? = none := by
  cases items with
  | nil => rfl
  | cons item rest =>
    rw [List.map_cons]
    cases h : schema.encode item with
    | symbol name => exact absurd h (schema.encode_ne_symbol item name)
    | _ => rfl

end

/-! ## Extensions -/

section

variable (schema : Schema) {extension : Schema}

/-- It does not matter which of several entries for a kind counts. -/
theorem isSome_lookup_reverse (kind : String) :
    (schema.entries.reverse.lookup kind).isSome = schema.contains kind := by
  rw [contains, fields?, Bool.eq_iff_iff, ← NameTable.mem_keys_iff, ← NameTable.mem_keys_iff,
    List.map_reverse, List.mem_reverse]

theorem fields?_extend_of_not_contains {kind : String} (h : extension.contains kind = false) :
    (schema.extend extension).fields? kind = schema.fields? kind := by
  have hnone : extension.entries.reverse.lookup kind = none := by
    rw [← Option.isNone_iff_eq_none, ← Option.isSome_eq_false_iff, isSome_lookup_reverse, h]
  rw [fields?, extend, NameTable.lookup_extend, hnone, Option.none_or, fields?]

theorem contains_extend_of_contains {kind : String} (h : extension.contains kind = true) :
    (schema.extend extension).contains kind = true := by
  rw [contains, fields?, extend, NameTable.lookup_extend, Option.isSome_or, isSome_lookup_reverse,
    h, Bool.true_or]

/-- Under the extended schema a node of a new kind is tagged with it. -/
theorem exists_encode_extend_node {kind : String} (h : extension.contains kind = true)
    (fields : List (String × Tree)) : ∃ items,
      (schema.extend extension).encode (.node kind fields) = .list (.symbol kind :: items) := by
  obtain ⟨names, hnames⟩ :=
    Option.isSome_iff_exists.mp (contains_extend_of_contains schema h)
  exact ⟨_, encode_node_of_fields? _ hnames fields⟩

end

section

variable {schema extension : Schema}
  (hdisjoint : ∀ kind, extension.contains kind = true → schema.contains kind = false)

include hdisjoint

/-- A new kind was unknown before. -/
theorem fields?_eq_none_of_contains {kind : String} (h : extension.contains kind = true) :
    schema.fields? kind = none := by
  have hunknown := hdisjoint kind h
  rwa [contains, Option.isSome_eq_false_iff, Option.isNone_iff_eq_none] at hunknown

/-- A kind that was known before is not new. -/
theorem not_contains_of_fields? {kind : String} {names : List String}
    (h : schema.fields? kind = some names) : extension.contains kind = false := by
  rw [← Bool.not_eq_true]
  intro hnew
  rw [fields?_eq_none_of_contains hdisjoint hnew] at h
  cases h

theorem collapse_encode_extend (tree : Tree) :
    extension.collapse ((schema.extend extension).encode tree) = schema.encode tree := by
  induction tree using Tree.induction with
  | absent => rfl
  | str text => rfl
  | seq items ih =>
    rw [encode, encode, encodeItems_eq_map, encodeItems_eq_map,
      collapse_untagged _ (head?_encodeItems _ items), List.map_map]
    exact congrArg SExpr.list (List.map_congr_left ih)
  | node kind fields ih =>
    -- A node of a new kind is opened, and collapsed without a look at what was found in it. Only a
    -- node that was known before has parts for the induction.
    cases hnew : extension.contains kind with
    | true =>
      obtain ⟨items, hencode⟩ := exists_encode_extend_node schema hnew fields
      rw [hencode, collapse_tagged_of_contains _ hnew,
        schema.encode_node_of_unknown (fields?_eq_none_of_contains hdisjoint hnew)]
    | false =>
      have hsame := fields?_extend_of_not_contains schema hnew
      cases hkind : schema.fields? kind with
      | none =>
        rw [schema.encode_node_of_unknown hkind, encode_node_of_unknown _ (hsame.trans hkind)]
        rfl
      | some names =>
        have hlisted : ∀ name, extension.collapse
            ((schema.extend extension).encode (Tree.listed fields name)) =
            schema.encode (Tree.listed fields name) :=
          Tree.listed_induct (motive := fun tree =>
            extension.collapse ((schema.extend extension).encode tree) = schema.encode tree) rfl ih
        rw [encode_node_of_fields? _ (hsame.trans hkind), schema.encode_node_of_fields? hkind,
          collapse_tagged _ hnew, List.map_flatMap]
        simp only [List.map_cons, List.map_nil, hlisted, collapse]

/-- Wherever encoding went before it still goes, and finds the same part of the tree. -/
theorem follow?_extend {way : List Step} {tree part : Tree}
    (h : schema.follow? way tree = some part) :
    (schema.extend extension).follow? way tree = some part := by
  induction way generalizing tree with
  | nil => exact h
  | cons step way ih =>
    cases tree with
    | absent => cases step <;> cases h
    | str text => cases step <;> cases h
    | seq items =>
      cases step with
      | field name => cases h
      | item index =>
        obtain ⟨item, hitem, hrest⟩ := Option.bind_eq_some_iff.mp h
        exact Option.bind_eq_some_iff.mpr ⟨item, hitem, ih hrest⟩
    | node kind fields =>
      cases step with
      | item index => cases h
      | field name =>
        cases hkind : schema.fields? kind with
        | none =>
          rw [follow?, hkind] at h
          cases h
        | some names =>
          have hsame := fields?_extend_of_not_contains schema
            (not_contains_of_fields? hdisjoint hkind)
          rw [follow?, hkind] at h
          rw [follow?, hsame, hkind]
          dsimp only at h ⊢
          split at h
          next hname => rw [if_pos hname, ih h]
          next => cases h

/-- Where no placeholder is opened, the S-expression stays as it is. -/
theorem encode_extend_of_unopened {tree : Tree}
    (h : ∀ kind ∈ schema.unknownIn tree, extension.contains kind = false) :
    (schema.extend extension).encode tree = schema.encode tree := by
  induction tree using Tree.induction with
  | absent => rfl
  | str text => rfl
  | seq items ih =>
    rw [unknownIn, unknownInItems_eq_flatMap, List.forall_mem_flatMap] at h
    rw [encode, encode, encodeItems_eq_map, encodeItems_eq_map]
    exact congrArg SExpr.list (List.map_congr_left fun item hitem => ih item hitem (h item hitem))
  | node kind fields ih =>
    cases hkind : schema.fields? kind with
    | none =>
      have hunopened : extension.contains kind = false := by
        refine h kind ?_
        rw [unknownIn, hkind]
        exact List.mem_singleton_self kind
      have hsame := fields?_extend_of_not_contains schema hunopened
      rw [schema.encode_node_of_unknown hkind, encode_node_of_unknown _ (hsame.trans hkind)]
    | some names =>
      have hsame := fields?_extend_of_not_contains schema
        (not_contains_of_fields? hdisjoint hkind)
      have hlisted := Tree.listed_induct (motive := fun tree =>
        (∀ kind ∈ schema.unknownIn tree, extension.contains kind = false) →
        (schema.extend extension).encode tree = schema.encode tree) (fun _ => rfl) ih
      rw [schema.unknownIn_node_of_fields? hkind, List.forall_mem_flatMap] at h
      rw [encode_node_of_fields? _ (hsame.trans hkind), schema.encode_node_of_fields? hkind,
        List.flatMap_def, List.flatMap_def]
      congr 3
      apply List.map_congr_left
      intro name hname
      rw [hlisted name (h name hname)]

end

/-- **New kinds only open placeholders.** Let no kind of the extension be known before. Then the
S-expression under the schema is the one under the extended schema with every list that is tagged
with a kind of the extension collapsed. Whatever part of the tree encoding came to before it still
comes to, and unless a placeholder is opened in that part its text is the same. -/
theorem encode_eq_collapse_encode_extend (schema extension : Schema)
    (hdisjoint : ∀ kind, extension.contains kind = true → schema.contains kind = false)
    (tree : Tree) :
    schema.encode tree = extension.collapse ((schema.extend extension).encode tree) ∧
    ∀ way part, schema.follow? way tree = some part →
      (schema.extend extension).follow? way tree = some part ∧
      ((∀ kind ∈ schema.unknownKinds part, extension.contains kind = false) →
        (schema.extend extension).textOf part = schema.textOf part) := by
  refine ⟨(collapse_encode_extend hdisjoint tree).symm, fun way part hpart => ?_⟩
  refine ⟨follow?_extend hdisjoint hpart, fun hunopened => ?_⟩
  have hsame : (schema.extend extension).encode part = schema.encode part :=
    encode_extend_of_unopened hdisjoint fun kind hkind =>
      hunopened kind (schema.mem_unknownKinds_iff.mpr hkind)
  rw [textOf, textOf, hsame]

/-- A schema that knows one kind of statement more than the built-in one. -/
def matching : Schema := ⟨[("Match", ["subject"])]⟩

/-- A statement of that kind, which compares a name, and one beside it. -/
def matchedTree : Tree :=
  .seq [.record "Match" [("subject", .str "a")], .leaf "Pass"]

/-- The placeholder of the one statement is opened; the other keeps its text. -/
theorem collapse_matchedTree :
    (∀ kind, matching.contains kind = true → builtin.contains kind = false) ∧
    builtin.encode matchedTree = .list [.placeholder "Match", .list [.symbol "Pass"]] ∧
    matching.collapse (.list [.list [.symbol "Match", .keyword "subject", .str "a"],
      .list [.symbol "Pass"]]) = builtin.encode matchedTree ∧
    (builtin.extend matching).textOf (.leaf "Pass") = builtin.textOf (.leaf "Pass") := by
  have hdisjoint : ∀ kind, matching.contains kind = true → builtin.contains kind = false := by
    intro kind hkind
    rw [contains, fields?, ← NameTable.mem_keys_iff] at hkind
    have hmatch : kind = "Match" := List.mem_singleton.mp hkind
    rw [hmatch]
    rfl
  obtain ⟨hcollapse, hparts⟩ :=
    encode_eq_collapse_encode_extend builtin matching hdisjoint matchedTree
  refine ⟨hdisjoint, rfl, hcollapse.symm, ?_⟩
  exact (hparts [.item 1] (.leaf "Pass") rfl).2 (List.forall_mem_nil _)

end Schema

end TreeText
