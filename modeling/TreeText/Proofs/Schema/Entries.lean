import TreeText.Proofs.Toml.Order
import TreeText.Schema.Builtin
import TreeText.Schema.File
import Mathlib.Data.List.Nodup

/-!
# Entries of schemas

Entries that are put into a schema one after the other all find their place, or one of them lists a
field twice. If they are in order, as those of a file are, the one that tells is that of the
smallest kind that does so, and it names the first field that it lists for the second time
(`Refused`, `ofEntries_cases`). So a text is no schema file, or its entries are refused, or they are
the schema (`ofToml_cases`). The built-in entries are in order, and none repeats a field.
-/

namespace TreeText

/-! ## Names that are listed twice -/

/-- A name is the first of a list that stands further to the left already. -/
def FirstRepeat (names : List String) (name : String) : Prop :=
  ∃ before after, names = before ++ name :: after ∧ before.Nodup ∧ name ∈ before

theorem FirstRepeat.not_nodup {names : List String} {name : String} (h : FirstRepeat names name) :
    ¬ names.Nodup := by
  obtain ⟨before, after, rfl, -, hmem⟩ := h
  intro hnodup
  exact (List.nodup_append.mp hnodup).2.2 name hmem name List.mem_cons_self rfl

/-- The search goes on as long as what it has passed has no repeats. -/
theorem firstRepeat?_go_spec {seen : List String} (hseen : seen.Nodup) (names : List String) :
    match firstRepeat?.go seen names with
    | none => (seen.reverse ++ names).Nodup
    | some name => FirstRepeat (seen.reverse ++ names) name := by
  induction names generalizing seen with
  | nil =>
    rw [firstRepeat?.go, List.append_nil]
    exact List.nodup_reverse.mpr hseen
  | cons name rest ih =>
    rw [firstRepeat?.go]
    by_cases hmem : name ∈ seen
    · rw [if_pos hmem]
      exact ⟨seen.reverse, rest, rfl, List.nodup_reverse.mpr hseen, List.mem_reverse.mpr hmem⟩
    · have hlonger : (name :: seen).reverse ++ rest = seen.reverse ++ name :: rest := by
        rw [List.reverse_cons, List.append_assoc, List.singleton_append]
      rw [if_neg hmem, ← hlonger]
      exact ih (List.nodup_cons.mpr ⟨hmem, hseen⟩)

theorem nodup_of_firstRepeat?_eq_none {names : List String} (h : firstRepeat? names = none) :
    names.Nodup := by
  have hspec := firstRepeat?_go_spec .nil names
  rw [firstRepeat?] at h
  rwa [h] at hspec

theorem firstRepeat_of_firstRepeat?_eq_some {names : List String} {name : String}
    (h : firstRepeat? names = some name) : FirstRepeat names name := by
  have hspec := firstRepeat?_go_spec .nil names
  rw [firstRepeat?] at h
  rwa [h] at hspec

namespace Schema

/-! ## Entries one after the other -/

/-- Entries are refused for the smallest kind among those that list a field twice, and for the first
field that it lists for the second time. -/
def Refused (entries : NameTable (List String)) (fault : RepeatedField) : Prop :=
  ∃ fields, (fault.kind, fields) ∈ entries ∧ FirstRepeat fields fault.field ∧
    ∀ entry ∈ entries, ¬ entry.2.Nodup → fault.kind ≤ entry.1

theorem insertAll_cons {schema : Schema} {kind : String} {fields : List String}
    (h : firstRepeat? fields = none) (rest : NameTable (List String)) :
    schema.insertAll ((kind, fields) :: rest) =
      insertAll ⟨NameTable.insert kind fields schema.entries⟩ rest := by
  rw [insertAll, insert, h]
  rfl

theorem insertAll_spec (schema : Schema) (entries : NameTable (List String)) :
    match schema.insertAll entries with
    | .ok result => (∀ entry ∈ entries, entry.2.Nodup) ∧
      result = ⟨NameTable.extend schema.entries entries⟩
    | .error fault => ∃ before fields after, entries = before ++ (fault.kind, fields) :: after ∧
      (∀ entry ∈ before, entry.2.Nodup) ∧ FirstRepeat fields fault.field := by
  induction entries generalizing schema with
  | nil => exact ⟨List.forall_mem_nil _, rfl⟩
  | cons entry rest ih =>
    obtain ⟨kind, fields⟩ := entry
    cases hrepeat : firstRepeat? fields with
    | some field =>
      rw [insertAll, insert, hrepeat]
      exact ⟨[], fields, rest, rfl, List.forall_mem_nil _,
        firstRepeat_of_firstRepeat?_eq_some hrepeat⟩
    | none =>
      have hfields := nodup_of_firstRepeat?_eq_none hrepeat
      have hrest := ih ⟨NameTable.insert kind fields schema.entries⟩
      rw [insertAll_cons hrepeat]
      split at hrest
      · exact ⟨List.forall_mem_cons.mpr ⟨hfields, hrest.1⟩, hrest.2⟩
      · obtain ⟨before, other, after, rfl, hbefore, hother⟩ := hrest
        exact ⟨(kind, fields) :: before, other, after, rfl,
          List.forall_mem_cons.mpr ⟨hfields, hbefore⟩, hother⟩

/-- Entries in order are a schema, or are refused. -/
theorem ofEntries_cases {entries : NameTable (List String)} (h : NameTable.Sorted entries) :
    ((∀ entry ∈ entries, entry.2.Nodup) ∧ ofEntries entries = .ok ⟨entries⟩) ∨
    ∃ fault, Refused entries fault ∧ ofEntries entries = .error fault := by
  have hspec := insertAll_spec empty entries
  rw [ofEntries]
  split at hspec
  · next result hok =>
    obtain ⟨hnodup, rfl⟩ := hspec
    have htable : NameTable.extend [] entries = entries := NameTable.ofList_of_sorted h
    refine .inl ⟨hnodup, ?_⟩
    rw [hok, empty, htable]
  · next fault herror =>
    obtain ⟨before, fields, after, rfl, hbefore, hfields⟩ := hspec
    refine .inr ⟨fault, ⟨fields, by simp, hfields, fun entry hentry hrepeats => ?_⟩, herror⟩
    -- The entries to the left have no repeats, and those to the right are greater.
    rcases List.mem_append.mp hentry with hleft | hright
    · exact absurd (hbefore entry hleft) hrepeats
    · rcases List.mem_cons.mp hright with rfl | hafter
      · exact String.le_refl _
      · have hlater := (List.pairwise_append.mp h).2.1
        have hlt := (List.pairwise_cons.mp hlater).1 entry hafter
        exact String.not_lt.mp fun hgt => String.lt_irrefl _ (String.lt_trans hlt hgt)

/-! ## Files -/

/-- A document that has these entries under `kinds`: for each kind an array of its fields. A
document without `kinds` has none. -/
def ListsKinds (document : NameTable Toml) (entries : NameTable (List String)) : Prop :=
  match document.lookup "kinds" with
  | none => entries = []
  | some value => ∃ form, value = .table form
      (entries.map fun entry => (entry.1, .array (entry.2.map .str)))

theorem texts?_eq_some_iff {items : List Toml} {texts : List String} :
    texts? items = some texts ↔ items = texts.map .str := by
  induction items generalizing texts with
  | nil => cases texts <;> simp [texts?]
  | cons item rest ih =>
    cases item with
    | str text =>
      rw [texts?, Option.map_eq_some_iff]
      cases texts with
      | nil => simp
      | cons first others => simp [ih, and_comm]
    | _ => cases texts <;> simp [texts?]

theorem fieldLists?_eq_some_iff {table : List (String × Toml)}
    {entries : NameTable (List String)} :
    fieldLists? table = some entries ↔
      table = entries.map fun entry => (entry.1, .array (entry.2.map .str)) := by
  induction table generalizing entries with
  | nil => cases entries <;> simp [fieldLists?]
  | cons pair rest ih =>
    obtain ⟨kind, value⟩ := pair
    cases value with
    | array items =>
      rw [fieldLists?]
      cases htexts : texts? items with
      | none =>
        have hnone (texts : List String) : items ≠ texts.map .str := fun hitems => by
          cases htexts.symm.trans (texts?_eq_some_iff.mpr hitems)
        cases entries <;> simp [hnone]
      | some texts =>
        have hitems (others : List String) : items = others.map .str ↔ texts = others := by
          rw [← texts?_eq_some_iff, htexts, Option.some.injEq]
        dsimp only
        rw [Option.map_eq_some_iff]
        cases entries with
        | nil => simp
        | cons entry others => simp [ih, hitems, Prod.ext_iff, and_comm, and_assoc]
    | _ => cases entries <;> simp [fieldLists?]

theorem listedKinds?_eq_some_iff {document : NameTable Toml} {entries : NameTable (List String)} :
    listedKinds? document = some entries ↔ ListsKinds document entries := by
  rw [listedKinds?, ListsKinds]
  cases document.lookup "kinds" with
  | none => exact ⟨fun h => (Option.some.inj h).symm, fun h => congrArg some h.symm⟩
  | some value =>
    cases value with
    | table form table => simp [fieldLists?_eq_some_iff]
    | _ => simp

/-- A text that is a document with these entries. -/
def FileLists (text : String) (entries : NameTable (List String)) : Prop :=
  ∃ document, Toml.read? text = some document ∧ ListsKinds document entries

theorem fileLists_iff {text : String} {entries : NameTable (List String)} :
    FileLists text entries ↔ (Toml.read? text).bind listedKinds? = some entries := by
  simp only [FileLists, Option.bind_eq_some_iff, listedKinds?_eq_some_iff]

theorem FileLists.unique {text : String} {entries entries' : NameTable (List String)}
    (h : FileLists text entries) (h' : FileLists text entries') : entries = entries' :=
  Option.some.inj ((fileLists_iff.mp h).symm.trans (fileLists_iff.mp h'))

theorem FileLists.sorted {text : String} {entries : NameTable (List String)}
    (h : FileLists text entries) : NameTable.Sorted entries := by
  obtain ⟨document, hdocument, hlists⟩ := h
  have horder := Toml.read?_inOrder hdocument
  rw [ListsKinds] at hlists
  split at hlists
  · rw [hlists]
    exact .nil
  · next value hkinds =>
    obtain ⟨form, rfl⟩ := hlists
    have hinner := (Toml.InOrder.of_ordered (horder.lookup hkinds)).sorted
    rw [NameTable.Sorted, List.pairwise_map] at hinner
    exact hinner

theorem ofToml_cases (text : String) :
    ((∀ entries, ¬ FileLists text entries) ∧ ofToml text = .error .badFormat) ∨
    ∃ entries, FileLists text entries ∧
      ((∀ entry ∈ entries, entry.2.Nodup) ∧ ofToml text = .ok ⟨entries⟩ ∨
      ∃ fault, Refused entries fault ∧ ofToml text = .error (.repeatedField fault)) := by
  rw [ofToml]
  cases hentries : (Toml.read? text).bind listedKinds? with
  | none =>
    refine .inl ⟨fun entries h => ?_, rfl⟩
    cases hentries.symm.trans (fileLists_iff.mp h)
  | some entries =>
    have hlists := fileLists_iff.mpr hentries
    refine .inr ⟨entries, hlists, ?_⟩
    rcases ofEntries_cases hlists.sorted with ⟨hnodup, hok⟩ | ⟨fault, hfault, herror⟩
    · exact .inl ⟨hnodup, by simp only [hok]⟩
    · exact .inr ⟨fault, hfault, by simp only [herror]⟩

/-! ## The built-in entries -/

theorem builtinEntries_sorted : NameTable.Sorted builtinEntries := by
  -- The order is transitive, so neighbours are enough to look at.
  have htrans : IsTrans (String × List String) fun a b => a.1 < b.1 :=
    ⟨fun _ _ _ => String.lt_trans⟩
  have hchain : builtinEntries.IsChain fun a b => a.1 < b.1 := by decide +kernel
  exact List.isChain_iff_pairwise.mp hchain

theorem nodup_of_mem_builtinEntries : ∀ entry ∈ builtinEntries, entry.2.Nodup := by
  decide +kernel

end Schema

end TreeText
