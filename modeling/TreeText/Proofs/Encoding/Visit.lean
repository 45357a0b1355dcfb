import TreeText.Encoding
import TreeText.Validation

/-!
# What encoding sees of a tree

Encoding goes from a sequence to each of its items, and from a node of a known kind to the value of
each listed field, a field that the node lacks counting as an absence. It goes no further into a
node of an unknown kind. `Schema.follow?` walks one such way and `Schema.Visits` says that some way
leads to a part of the tree; both are defined without the encoder.

`encode_node_of_fields?` and `visits_node_iff` are the two views of a node of a known kind that the
proofs about encoding work with: field by field, in the order of the list.
-/

namespace TreeText

/-- The value that encoding finds under a listed field: an absence where the node has none. -/
def Tree.listed (fields : List (String × Tree)) (name : String) : Tree :=
  (fields.lookup name).getD .absent

/-- What holds of an absence and of every field value holds of what stands under a listed field. -/
theorem Tree.listed_induct {motive : Tree → Prop} (habsent : motive .absent)
    {fields : List (String × Tree)} (hfields : ∀ pair ∈ fields, motive pair.2) (name : String) :
    motive (Tree.listed fields name) := by
  unfold listed
  cases h : fields.lookup name with
  | none => exact habsent
  | some value => exact hfields _ (NameTable.mem_of_lookup h)

namespace Schema

variable (schema : Schema)

/-! ## Nodes as the encoder sees them -/

theorem encode_node_of_fields? {kind : String} {names : List String}
    (hkind : schema.fields? kind = some names) (fields : List (String × Tree)) :
    schema.encode (.node kind fields) = .list (.symbol kind ::
      names.flatMap fun name => [.keyword name, schema.encode (Tree.listed fields name)]) := by
  have hvalue : ∀ name, ((fields.lookup name).map schema.encode).getD .nil =
      schema.encode (Tree.listed fields name) := by
    intro name
    unfold Tree.listed
    cases fields.lookup name <;> rfl
  simp only [encode, hkind, markedFields, lookup_encodeFields, hvalue]

theorem encode_node_of_unknown {kind : String} (hkind : schema.fields? kind = none)
    (fields : List (String × Tree)) : schema.encode (.node kind fields) = .placeholder kind := by
  rw [encode, hkind]

/-- No tree becomes a bare symbol, so an encoded sequence never looks like a tagged list. -/
theorem encode_ne_symbol (tree : Tree) (name : String) : schema.encode tree ≠ .symbol name := by
  cases tree with
  | node kind fields =>
    cases hkind : schema.fields? kind with
    | none => simp [schema.encode_node_of_unknown hkind]
    | some names => simp [schema.encode_node_of_fields? hkind]
  | _ => simp [encode]

end Schema

/-! ## Ways into a tree -/

/-- One step from a tree into it. -/
inductive Step where
  | field (name : String)
  | item (index : Nat)
deriving DecidableEq

namespace Schema

variable (schema : Schema)

/-- Where a way leads that goes from sequences to items and from nodes of known kinds to listed
fields. -/
def follow? : List Step → Tree → Option Tree
  | [], tree => some tree
  | .item index :: way, .seq items => items[index]?.bind (follow? way)
  | .field name :: way, .node kind fields =>
    match schema.fields? kind with
    | some names => if name ∈ names then follow? way (Tree.listed fields name) else none
    | none => none
  | _, _ => none

/-- Encoding comes from a tree to this part of it. -/
def Visits (tree part : Tree) : Prop := ∃ way, schema.follow? way tree = some part

theorem visits_self (tree : Tree) : schema.Visits tree tree := ⟨[], by rw [follow?]⟩

theorem visits_seq_iff {items : List Tree} {part : Tree} :
    schema.Visits (.seq items) part ↔
      part = .seq items ∨ ∃ item ∈ items, schema.Visits item part := by
  constructor
  · rintro ⟨way, hway⟩
    match way, hway with
    | [], hway =>
      rw [follow?] at hway
      exact .inl (Option.some.inj hway).symm
    | .item index :: way, hway =>
      obtain ⟨item, hitem, hrest⟩ := Option.bind_eq_some_iff.mp hway
      exact .inr ⟨item, List.mem_of_getElem? hitem, way, hrest⟩
  · rintro (rfl | ⟨item, hitem, way, hway⟩)
    · exact schema.visits_self _
    · obtain ⟨index, hindex⟩ := List.mem_iff_getElem?.mp hitem
      exact ⟨.item index :: way, Option.bind_eq_some_iff.mpr ⟨item, hindex, hway⟩⟩

theorem visits_node_iff {kind : String} {names : List String}
    (hkind : schema.fields? kind = some names) {fields : List (String × Tree)} {part : Tree} :
    schema.Visits (.node kind fields) part ↔
      part = .node kind fields ∨ ∃ name ∈ names, schema.Visits (Tree.listed fields name) part := by
  constructor
  · rintro ⟨way, hway⟩
    match way, hway with
    | [], hway =>
      rw [follow?] at hway
      exact .inl (Option.some.inj hway).symm
    | .field name :: way, hway =>
      rw [follow?, hkind] at hway
      dsimp only at hway
      split at hway
      next hname => exact .inr ⟨name, hname, way, hway⟩
      next => cases hway
  · rintro (rfl | ⟨name, hname, way, hway⟩)
    · exact schema.visits_self _
    · refine ⟨.field name :: way, ?_⟩
      rw [follow?, hkind]
      dsimp only
      rw [if_pos hname, hway]

theorem visits_node_of_unknown {kind : String} (hkind : schema.fields? kind = none)
    {fields : List (String × Tree)} {part : Tree} :
    schema.Visits (.node kind fields) part ↔ part = .node kind fields := by
  constructor
  · rintro ⟨way, hway⟩
    match way, hway with
    | [], hway =>
      rw [follow?] at hway
      exact (Option.some.inj hway).symm
    | .field name :: way, hway =>
      rw [follow?, hkind] at hway
      cases hway
  · rintro rfl
    exact schema.visits_self _

end Schema

end TreeText
