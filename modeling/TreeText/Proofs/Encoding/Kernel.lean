import TreeText.Proofs.Encoding.Visit

/-!
# What encoding forgets

Two trees have the same S-expression exactly when they have the same *normal form* under the
schema, in which a node of a known kind carries the listed fields and nothing else, and a node of an
unknown kind carries no field.

The proof needs no induction on two trees at once. `decoded` reads an S-expression as a tree:
`decoded_encode` says that it gives the normal form of the tree that was encoded, so equal
S-expressions come from equal normal forms; `encode_normalised` says that normalising changes no
S-expression. The point in the first half is that a list shows whether it was a sequence or a node,
because no encoded item is a bare symbol.
-/

namespace TreeText

namespace Schema

variable (schema : Schema)

mutual

/-- The part of a tree that its S-expression shows. -/
def normalised : Tree → Tree
  | .absent => .absent
  | .str text => .str text
  | .seq items => .seq (normalisedItems items)
  | .node kind fields =>
    match schema.fields? kind with
    | none => .leaf kind
    | some names => .record kind (names.map fun name =>
        (name, ((normalisedFields fields).lookup name).getD .absent))

/-- `normalised` of each item. -/
def normalisedItems : List Tree → List Tree
  | [] => []
  | item :: rest => normalised item :: normalisedItems rest

/-- `normalised` of each field's value. -/
def normalisedFields : List (String × Tree) → List (String × Tree)
  | [] => []
  | (name, value) :: rest => (name, normalised value) :: normalisedFields rest

end

theorem normalised_seq (items : List Tree) :
    schema.normalised (.seq items) = .seq (items.map schema.normalised) := by
  have hmap : schema.normalisedItems items = items.map schema.normalised := by
    induction items with
    | nil => rfl
    | cons item rest ih => rw [normalisedItems, ih, List.map_cons]
  rw [normalised, hmap]

theorem normalised_node_of_fields? {kind : String} {names : List String}
    (hkind : schema.fields? kind = some names) (fields : List (String × Tree)) :
    schema.normalised (.node kind fields) = .record kind
      (names.map fun name => (name, schema.normalised (Tree.listed fields name))) := by
  have hvalue : ∀ name, ((schema.normalisedFields fields).lookup name).getD .absent =
      schema.normalised (Tree.listed fields name) := by
    intro name
    rw [NameTable.lookup_of_eachPair (fun _ => schema.normalised) rfl (fun _ _ _ => rfl),
      Tree.listed]
    cases fields.lookup name <;> rfl
  simp only [normalised, hkind, hvalue]

theorem normalised_node_of_unknown {kind : String} (hkind : schema.fields? kind = none)
    (fields : List (String × Tree)) : schema.normalised (.node kind fields) = .leaf kind := by
  rw [normalised, hkind]

/-- A node made of one value for each listed name has these values. -/
theorem listed_ofList_map {names : List String} {name : String} (hname : name ∈ names)
    (f : String → Tree) :
    Tree.listed (NameTable.ofList (names.map fun name => (name, f name))) name = f name := by
  -- A later pair of the same name would win, but all pairs of this name have the same value.
  have hlookup : ∀ {all : List String}, name ∈ all →
      List.lookup name (all.map fun name => (name, f name)) = some (f name) := by
    intro all hmem
    induction all with
    | nil => cases hmem
    | cons first rest ih =>
      rw [List.map_cons, List.lookup_cons]
      by_cases h : name = first
      · rw [h, beq_self_eq_true]
      · rw [beq_eq_false_iff_ne.mpr h]
        exact ih ((List.mem_cons.mp hmem).resolve_left h)
  rw [Tree.listed, NameTable.lookup_ofList, ← List.map_reverse,
    hlookup (List.mem_reverse.mpr hname), Option.getD_some]

/-! ## Normalising changes no S-expression -/

theorem encode_normalised (tree : Tree) :
    schema.encode (schema.normalised tree) = schema.encode tree := by
  induction tree using Tree.induction with
  | absent => rfl
  | str text => rfl
  | seq items ih =>
    rw [normalised_seq, encode, encode, encodeItems_eq_map, encodeItems_eq_map, List.map_map]
    exact congrArg SExpr.list (List.map_congr_left ih)
  | node kind fields ih =>
    cases hkind : schema.fields? kind with
    | none =>
      rw [schema.normalised_node_of_unknown hkind, schema.encode_node_of_unknown hkind, Tree.leaf,
        schema.encode_node_of_unknown hkind]
    | some names =>
      have hlisted : ∀ name, schema.encode (schema.normalised (Tree.listed fields name)) =
          schema.encode (Tree.listed fields name) :=
        Tree.listed_induct (motive := fun tree =>
          schema.encode (schema.normalised tree) = schema.encode tree) rfl ih
      rw [schema.normalised_node_of_fields? hkind, Tree.record, schema.encode_node_of_fields? hkind,
        schema.encode_node_of_fields? hkind, List.flatMap_def, List.flatMap_def]
      congr 3
      apply List.map_congr_left
      intro name hname
      rw [listed_ofList_map hname fun name => schema.normalised (Tree.listed fields name),
        hlisted name]

/-! ## S-expressions read as trees -/

mutual

/-- The tree that an S-expression stands for: a list that begins with a symbol is a node. -/
def decoded : SExpr → Tree
  | .nil => .absent
  | .symbol name => .leaf name
  | .keyword name => .leaf name
  | .str text => .str text
  | .placeholder kind => .leaf kind
  | .list (.symbol kind :: rest) => .record kind (decodedFields rest)
  | .list items => .seq (decodedItems items)

/-- `decoded` of each item. -/
def decodedItems : List SExpr → List Tree
  | [] => []
  | item :: rest => decoded item :: decodedItems rest

/-- `decoded` of each value after a marker. -/
def decodedFields : List SExpr → List (String × Tree)
  | .keyword name :: value :: rest => (name, decoded value) :: decodedFields rest
  | _ => []

end

theorem decodedItems_eq_map (items : List SExpr) : decodedItems items = items.map decoded := by
  induction items with
  | nil => rfl
  | cons item rest ih => rw [decodedItems, ih, List.map_cons]

theorem decodedFields_flatMap (names : List String) (f : String → SExpr) :
    decodedFields (names.flatMap fun name => [.keyword name, f name]) =
      names.map fun name => (name, decoded (f name)) := by
  induction names with
  | nil => rfl
  | cons name rest ih =>
    rw [List.flatMap_cons, List.cons_append, List.cons_append, List.nil_append, decodedFields, ih,
      List.map_cons]

/-- A list without a symbol in front is a sequence. -/
theorem decoded_list {items : List SExpr} (h : ∀ name, items.head? ≠ some (.symbol name)) :
    decoded (.list items) = .seq (items.map decoded) := by
  rw [decoded, decodedItems_eq_map]
  rintro kind rest rfl
  exact h kind rfl

/-- An S-expression stands for the normal form of the tree that it comes from. -/
theorem decoded_encode (tree : Tree) : decoded (schema.encode tree) = schema.normalised tree := by
  induction tree using Tree.induction with
  | absent => rfl
  | str text => rfl
  | seq items ih =>
    -- No item is a bare symbol, so the list is not taken for a node.
    have hhead : ∀ name, (items.map schema.encode).head? ≠ some (.symbol name) := by
      intro name h
      rw [List.head?_map, Option.map_eq_some_iff] at h
      obtain ⟨item, -, hitem⟩ := h
      exact schema.encode_ne_symbol item name hitem
    rw [encode, encodeItems_eq_map, decoded_list hhead, normalised_seq, List.map_map]
    exact congrArg Tree.seq (List.map_congr_left ih)
  | node kind fields ih =>
    cases hkind : schema.fields? kind with
    | none =>
      rw [schema.normalised_node_of_unknown hkind, schema.encode_node_of_unknown hkind, decoded]
    | some names =>
      have hlisted : ∀ name, decoded (schema.encode (Tree.listed fields name)) =
          schema.normalised (Tree.listed fields name) :=
        Tree.listed_induct (motive := fun tree =>
          decoded (schema.encode tree) = schema.normalised tree) rfl ih
      rw [schema.normalised_node_of_fields? hkind, schema.encode_node_of_fields? hkind, decoded,
        decodedFields_flatMap]
      simp only [hlisted]

/-! ## The shape of a tree -/

/-- What a tree is, seen through a schema, without what is in it. -/
inductive Shape where
  | absent
  | str (text : String)
  | empty
  | sequence
  /-- A node of a known kind. -/
  | tagged (kind : String)
  /-- A node of an unknown kind. -/
  | placeholder (kind : String)
deriving DecidableEq

/-- The shape of a tree. -/
def shape : Tree → Shape
  | .absent => .absent
  | .str text => .str text
  | .seq [] => .empty
  | .seq _ => .sequence
  | .node kind _ => if schema.contains kind then .tagged kind else .placeholder kind

theorem shape_normalised (tree : Tree) :
    schema.shape (schema.normalised tree) = schema.shape tree := by
  cases tree with
  | absent => rfl
  | str text => rfl
  | seq items =>
    rw [normalised_seq]
    cases items <;> rfl
  | node kind fields =>
    cases hkind : schema.fields? kind with
    | none =>
      rw [schema.normalised_node_of_unknown hkind]
      rfl
    | some names =>
      rw [schema.normalised_node_of_fields? hkind]
      rfl

/-- The ways into the normal form are the ways that encoding goes. -/
theorem follow?_normalised (way : List Step) (tree : Tree) :
    schema.follow? way (schema.normalised tree) =
      (schema.follow? way tree).map schema.normalised := by
  induction way generalizing tree with
  | nil => rw [follow?, follow?, Option.map_some]
  | cons step way ih =>
    cases tree with
    | absent => cases step <;> rfl
    | str text => cases step <;> rfl
    | seq items =>
      rw [normalised_seq]
      cases step with
      | field name => rfl
      | item index =>
        rw [follow?, follow?, List.getElem?_map]
        cases items[index]? with
        | none => rfl
        | some item => exact ih item
    | node kind fields =>
      cases hkind : schema.fields? kind with
      | none =>
        rw [schema.normalised_node_of_unknown hkind, Tree.leaf]
        cases step with
        | field name => rw [follow?, follow?, hkind]; rfl
        | item index => rfl
      | some names =>
        rw [schema.normalised_node_of_fields? hkind, Tree.record]
        cases step with
        | item index => rfl
        | field name =>
          rw [follow?, follow?, hkind]
          dsimp only
          by_cases hname : name ∈ names
          · rw [if_pos hname, if_pos hname,
              listed_ofList_map hname fun name => schema.normalised (Tree.listed fields name)]
            exact ih _
          · rw [if_neg hname, if_neg hname, Option.map_none]

/-- **Encoding loses exactly what the schema tells it to lose.** Two trees have the same
S-expression when and only when they have the same normal form; and then, wherever encoding goes,
it finds the same shapes in both, so an absence, an empty sequence, a sequence, a tagged node and a
placeholder are never taken for one another. -/
theorem encode_eq_iff_normalised_eq (tree₁ tree₂ : Tree) :
    (schema.encode tree₁ = schema.encode tree₂ ↔
      schema.normalised tree₁ = schema.normalised tree₂) ∧
    (schema.encode tree₁ = schema.encode tree₂ → ∀ way,
      (schema.follow? way tree₁).map schema.shape =
        (schema.follow? way tree₂).map schema.shape) := by
  have hnormal : schema.encode tree₁ = schema.encode tree₂ →
      schema.normalised tree₁ = schema.normalised tree₂ := by
    intro h
    rw [← decoded_encode, ← decoded_encode, h]
  have hshape : ∀ (tree : Tree) (way : List Step), (schema.follow? way tree).map schema.shape =
      (schema.follow? way (schema.normalised tree)).map schema.shape := by
    intro tree way
    rw [follow?_normalised, Option.map_map]
    cases schema.follow? way tree with
    | none => rfl
    | some part => exact congrArg some (schema.shape_normalised part).symm
  refine ⟨⟨hnormal, ?_⟩, ?_⟩
  · intro h
    rw [← encode_normalised, h, encode_normalised]
  · intro h way
    rw [hshape, hshape tree₂, hnormal h]

end Schema

end TreeText
