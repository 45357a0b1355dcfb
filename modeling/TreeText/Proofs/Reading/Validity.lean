import TreeText.Proofs.Encoding.FirstDefect
import TreeText.Proofs.Reading.Sorts
import TreeText.Schema.Builtin

/-!
# Trees that are read and the built-in schema

The rules of reading and the built-in schema list the fields of the same kinds, each in its own way.
They agree: no tree that is read lacks a field that the schema asks for, as long as no construct
without a rule has the name of a kind of the schema. So strict validation can only object to kinds,
and these are the ones that the schema leaves out, on purpose or because they are newer than it, and
the ones of constructs without a rule.

Validation comes to a missing field only where a node lacks it (`validate_ne_missingField`), and a
tree is accepted if every node in it has the listed fields (`accepts_of_everywhere`). Both are about
any schema. What every node of a tree that was read has is known from its sorts, and the abstract
grammar is compared with the schema entry by entry.
-/

namespace TreeText

namespace Schema

variable (schema : Schema) (allowed : List String)

/-! ## Missing fields -/

/-- Where no node lacks a field, validation does not say so: what it reports lies in the tree. -/
theorem validate_ne_missingField {tree : Tree} (h : schema.Complete tree)
    (kind name path : String) :
    schema.validate allowed tree ≠ .error (.missingField kind name path) := by
  intro hdefect
  rw [validate_eq_checkAt] at hdefect
  obtain ⟨way, hfound, -⟩ := (checkAt_reports tree _).of_error hdefect
  cases hfound with
  | missingField hway hkind hname hmissing =>
    have hpresent := h _ _ _ ⟨_, hway⟩ hkind _ hname
    rw [hmissing] at hpresent
    cases hpresent

/-! ## Acceptance -/

/-- A node has the fields that the schema lists for its kind, or its kind is unknown and allowed. -/
def Admits (kind : String) (fields : List (String × Tree)) : Prop :=
  match schema.fields? kind with
  | some names => ∀ name ∈ names, (fields.lookup name).isSome
  | none => kind ∈ allowed

theorem accepts_of_everywhere {tree : Tree} {access : Access}
    (h : tree.Everywhere (fun _ => schema.Admits allowed) access) :
    schema.Accepts allowed tree := by
  induction tree using Tree.induction generalizing access with
  | absent => exact schema.accepts_of_leaf allowed rfl rfl
  | str text => exact schema.accepts_of_leaf allowed rfl rfl
  | seq items ih =>
    exact (schema.accepts_seq_iff allowed).mpr fun item hitem => ih item hitem (h.item hitem)
  | node kind fields ih =>
    have hself := h.self
    unfold Admits at hself
    cases hkind : schema.fields? kind with
    | none =>
      rw [hkind] at hself
      exact (schema.accepts_node_of_unknown allowed hkind).mpr hself
    | some names =>
      rw [hkind] at hself
      refine (schema.accepts_node_iff allowed hkind).mpr fun name hname => ?_
      obtain ⟨value, hlookup⟩ := Option.isSome_iff_exists.mp (hself name hname)
      have hvalue := NameTable.mem_of_lookup hlookup
      rw [Tree.listed, hlookup]
      exact ⟨rfl, ih _ hvalue (h.value hvalue)⟩

end Schema

/-! ## The built-in schema -/

/-- Kinds that the rules build and the built-in schema does not know yet. -/
def newerKinds : List String := ["Match", "TryStar", "NamedExpr", "TypeAlias"]

/-- What the built-in schema lists is among the fields of the abstract grammar. -/
theorem Grammar.builtin_subset : ∀ entry ∈ fieldNames,
    (Schema.builtin.fields? entry.1).getD [] ⊆ entry.2 ∧
      (Schema.builtin.fields? entry.1 = none →
        entry.1 ∈ Reading.placeholderKinds ++ newerKinds) := by
  decide +kernel

theorem WellSorted.admits {root : Cst} {kind : String} {fields : List (String × Tree)}
    (hkinds : ∀ kind ∈ root.kinds, Schema.builtin.contains kind = false)
    (h : WellSorted root kind fields) :
    Schema.builtin.Admits (Reading.placeholderKinds ++ newerKinds ++ root.kinds) kind fields := by
  unfold Schema.Admits
  cases h with
  | conforms access h =>
    obtain ⟨forms, hforms, -, hvalues⟩ := h.values
    obtain ⟨hsubset, hunknown⟩ := Grammar.builtin_subset _ (Grammar.mem_fieldNames hforms)
    cases hfields : Schema.builtin.fields? kind with
    | none => exact List.mem_append_left _ (hunknown hfields)
    | some names =>
      rw [hfields] at hsubset
      intro name hname
      obtain ⟨field, hfield, rfl⟩ := List.mem_map.mp (hsubset hname)
      obtain ⟨value, hlookup, -⟩ := hvalues field hfield
      rw [hlookup]
      rfl
  | unruled _ _ hkind _ =>
    have hunknown := hkinds kind hkind
    rw [Schema.contains, Option.isSome_eq_false_iff, Option.isNone_iff_eq_none] at hunknown
    rw [hunknown]
    exact List.mem_append_right _ hkind

/-- **Reading and the built-in schema agree.** Where no construct has the name of a kind of the
schema, validation never finds a field missing in a tree that was read; the unknown kinds of the
tree are left out on purpose, or newer than the schema, or kinds of constructs; and with the former
allowed, the tree is valid exactly when it has no other unknown kind. -/
theorem readModule_validate {names : CharacterName.Lookup} {fileName text : String} {root : Cst}
    {tree : Tree}
    (hkinds : ∀ kind ∈ root.kinds, Schema.builtin.contains kind = false)
    (h : readModule names fileName text root = .ok tree) :
    (∀ allowed kind name path,
      Schema.builtin.validate allowed tree ≠ .error (.missingField kind name path)) ∧
    (∀ kind ∈ Schema.builtin.unknownKinds tree,
      kind ∈ Reading.placeholderKinds ∨ kind ∈ newerKinds ∨ kind ∈ root.kinds) ∧
    (Schema.builtin.validate Reading.placeholderKinds tree = .ok () ↔
      ∀ kind ∈ Schema.builtin.unknownKinds tree, kind ∈ Reading.placeholderKinds) := by
  have hadmits : tree.Everywhere (fun _ => Schema.builtin.Admits
      (Reading.placeholderKinds ++ newerKinds ++ root.kinds)) .load :=
    fun _ _ _ hstands => ((Sorted.readModule h).2 _ _ _ hstands).admits hkinds
  obtain ⟨hunknown, hcomplete⟩ := Schema.builtin.accepts_of_everywhere _ hadmits
  refine ⟨fun allowed kind name path => ?_, fun kind hkind => ?_, ?_⟩
  · exact Schema.builtin.validate_ne_missingField allowed hcomplete kind name path
  · have hkind := hunknown kind (Schema.builtin.mem_unknownKinds_iff.mp hkind)
    rwa [List.mem_append, List.mem_append, or_assoc] at hkind
  · rw [Schema.builtin.validate_eq_ok_iff, Schema.Accepts]
    simp only [Schema.mem_unknownKinds_iff]
    exact and_iff_left hcomplete

theorem validate_mergedDictionary :
    (∀ kind ∈ Cst.mergedDictionary.kinds, Schema.builtin.contains kind = false) ∧
    (∀ allowed kind name path,
      Schema.builtin.validate allowed .mergedDictionary ≠ .error (.missingField kind name path)) ∧
    (∀ kind ∈ Schema.builtin.unknownKinds .mergedDictionary, kind ∈ Reading.placeholderKinds ∨
      kind ∈ newerKinds ∨ kind ∈ Cst.mergedDictionary.kinds) ∧
    (Schema.builtin.validate Reading.placeholderKinds .mergedDictionary = .ok () ↔
      ∀ kind ∈ Schema.builtin.unknownKinds .mergedDictionary, kind ∈ Reading.placeholderKinds) :=
  have hkinds : ∀ kind ∈ Cst.mergedDictionary.kinds, Schema.builtin.contains kind = false := by
    decide +kernel
  ⟨hkinds, readModule_validate hkinds readModule_mergedDictionary⟩

end TreeText
