import TreeText.Toml.Reader

/-!
# Tables of TOML documents are in order

All operations that build a document put entries into tables by name, so the names of every table
are in increasing order, however deep it lies and however many lines of the text it was built from
(`read?_inOrder`). `Change.Keeps` says it of a change of one table. The path to the table that is
changed leads through tables that are put back in their places, so a change that is made at the end
of a path keeps the order of all of them if it keeps that of the last (`within_keeps`).
-/

namespace TreeText.Toml

/-- The names of all tables in a value are in order. -/
inductive Ordered : Toml → Prop
  | str (text : String) : Ordered (.str text)
  | scalar : Ordered .scalar
  | array {items : List Toml} (h : ∀ item ∈ items, Ordered item) : Ordered (.array items)
  | table {form : TableForm} {entries : List (String × Toml)} (hsorted : NameTable.Sorted entries)
    (h : ∀ pair ∈ entries, Ordered pair.2) : Ordered (.table form entries)
  | tables {elements : List Toml} (h : ∀ element ∈ elements, Ordered element) :
    Ordered (.tables elements)

/-- The names of a table are in order, and those of all tables in it. -/
structure InOrder (entries : NameTable Toml) : Prop where
  sorted : NameTable.Sorted entries
  values : ∀ pair ∈ entries, Ordered pair.2

namespace InOrder

variable {entries inner : NameTable Toml} {form : TableForm} {key : String} {value : Toml}

theorem nil : InOrder [] := ⟨.nil, List.forall_mem_nil _⟩

theorem ordered (h : InOrder entries) : Ordered (.table form entries) := .table h.sorted h.values

theorem of_ordered (h : Ordered (.table form entries)) : InOrder entries := by
  cases h with
  | table hsorted hvalues => exact ⟨hsorted, hvalues⟩

theorem lookup (h : InOrder entries) (hvalue : entries.lookup key = some value) : Ordered value :=
  h.values _ (NameTable.mem_of_lookup hvalue)

theorem insert (h : InOrder entries) (hvalue : Ordered value) :
    InOrder (NameTable.insert key value entries) where
  sorted := NameTable.insert_sorted h.sorted
  values pair hpair := by
    rcases NameTable.mem_of_mem_insert hpair with rfl | hpair
    · exact hvalue
    · exact h.values pair hpair

theorem insertTable (h : InOrder entries) (hinner : InOrder inner) :
    InOrder (NameTable.insert key (.table form inner) entries) :=
  h.insert hinner.ordered

end InOrder

theorem Ordered.elements {elements : List Toml} (h : Ordered (.tables elements)) :
    ∀ element ∈ elements, Ordered element := by
  cases h with
  | tables h => exact h

/-- One more element, in place of the last one or behind it. -/
theorem Ordered.concat {elements before : List Toml} {element : Toml}
    (h : Ordered (.tables elements)) (hbefore : before ⊆ elements) (helement : Ordered element) :
    Ordered (.tables (before ++ [element])) := by
  refine .tables fun other hother => ?_
  rcases List.mem_append.mp hother with hother | hother
  · exact h.elements other (hbefore hother)
  · exact List.mem_singleton.mp hother ▸ helement

/-! ## Changes -/

/-- A change leaves tables in order that were in order. -/
def Change.Keeps (change : Change) : Prop :=
  ∀ {form : TableForm} {entries entries' : NameTable Toml}, InOrder entries →
    change form entries = some entries' → InOrder entries'

variable {change : Change} {path : List String} {key : String} {value : Toml}

theorem within_keeps {made : TableForm} {mayEnter : TableForm → Bool} (h : change.Keeps) :
    Change.Keeps (within made mayEnter change path) := by
  intro form entries entries' hentries hchange
  induction path generalizing form entries entries' with
  | nil => exact h hentries hchange
  | cons key path ih =>
    rw [within] at hchange
    split at hchange
    · obtain ⟨inner, hinner, rfl⟩ := Option.map_eq_some_iff.mp hchange
      exact hentries.insertTable (ih .nil hinner)
    · next form inner hlookup =>
      split at hchange
      · obtain ⟨inner', hinner, rfl⟩ := Option.map_eq_some_iff.mp hchange
        exact hentries.insertTable (ih (.of_ordered (hentries.lookup hlookup)) hinner)
      · cases hchange
    · next elements hlookup =>
      have helements := hentries.lookup hlookup
      split at hchange
      · next form inner hlast =>
        have hinside := helements.elements _ (List.mem_of_getLast? hlast)
        obtain ⟨inner', hinner, rfl⟩ := Option.map_eq_some_iff.mp hchange
        have hinner' := ih (.of_ordered hinside) hinner
        exact hentries.insert (helements.concat (List.dropLast_subset _) hinner'.ordered)
      · cases hchange
    · cases hchange

theorem underHeader_keeps (h : change.Keeps) : Change.Keeps (underHeader path change) :=
  within_keeps h

theorem assign_keeps (hvalue : Ordered value) : Change.Keeps (assign path key value) := by
  refine within_keeps fun hentries hchange => ?_
  split at hchange
  · cases hchange
    exact hentries.insert hvalue
  · cases hchange

theorem openTable_keeps : Change.Keeps (openTable path key) := by
  rw [openTable]
  apply underHeader_keeps
  intro form entries entries' hentries hchange
  dsimp only at hchange
  split at hchange
  · cases hchange
    exact hentries.insertTable .nil
  · next inner hlookup =>
    cases hchange
    exact hentries.insertTable (.of_ordered (hentries.lookup hlookup))
  · cases hchange

theorem openElement_keeps : Change.Keeps (openElement path key) := by
  have hfresh : Ordered (.table .header []) := InOrder.nil.ordered
  rw [openElement]
  apply underHeader_keeps
  intro form entries entries' hentries hchange
  dsimp only at hchange
  split at hchange
  · cases hchange
    exact hentries.insert (.tables (List.forall_mem_singleton.mpr hfresh))
  · next elements hlookup =>
    cases hchange
    exact hentries.insert ((hentries.lookup hlookup).concat (List.Subset.refl _) hfresh)
  · cases hchange

/-! ## Values -/

/-- What a reader of values gives is in order. -/
def Orderly (readValue : List Char → Step Toml) : Prop :=
  ∀ {text rest : List Char} {value : Toml}, readValue text = some (value, rest) → Ordered value

variable {text rest : List Char}

theorem itemsWith?_ordered {readItem : List Char → Step Toml} (hread : Orderly readItem)
    {bound : Nat} {done : List Toml} (hdone : ∀ item ∈ done, Ordered item)
    (h : itemsWith? readItem bound done text = some (value, rest)) : Ordered value := by
  have harray {items : List Toml} (hitems : ∀ item ∈ items, Ordered item) :
      Ordered (.array items.reverse) :=
    .array fun item hitem => hitems item (List.mem_reverse.mp hitem)
  induction bound generalizing done text with
  | zero => cases h
  | succ bound ih =>
    rw [itemsWith?] at h
    split at h
    · cases h
    · cases h
      exact harray hdone
    · split at h
      · cases h
      · next item text hitem =>
        have hmore : ∀ other ∈ item :: done, Ordered other :=
          List.forall_mem_cons.mpr ⟨hread hitem, hdone⟩
        split at h
        · exact ih hmore h
        · cases h
          exact harray hmore
        · cases h

theorem keyValue?_keeps {readValue : List Char → Step Toml} (hread : Orderly readValue)
    (h : keyValue? readValue text = some (change, rest)) : change.Keeps := by
  rw [keyValue?] at h
  split at h
  · obtain ⟨⟨value, text⟩, hvalue, heq⟩ := Option.map_eq_some_iff.mp h
    cases heq
    exact assign_keeps (hread hvalue)
  · cases h

theorem entriesWith?_ordered {readValue : List Char → Step Toml} (hread : Orderly readValue)
    {bound : Nat} {entries : NameTable Toml} (hentries : InOrder entries)
    (h : entriesWith? readValue bound entries text = some (value, rest)) : Ordered value := by
  induction bound generalizing entries text with
  | zero => cases h
  | succ bound ih =>
    rw [entriesWith?] at h
    split at h
    · cases h
    · next change text hchange =>
      split at h
      · cases h
      · next entries' hafter =>
        have hentries' := keyValue?_keeps hread hchange hentries hafter
        split at h
        · exact ih hentries' h
        · cases h
          exact hentries'.ordered
        · cases h

theorem scalar?_ordered (h : scalar? text = some (value, rest)) : Ordered value := by
  rw [scalar?] at h
  dsimp only at h
  split at h
  · cases h
    exact .scalar
  · cases h

theorem string_ordered {found : Step String}
    (h : found.map (fun (string, text) => (Toml.str string, text)) = some (value, rest)) :
    Ordered value := by
  obtain ⟨⟨string, text⟩, -, heq⟩ := Option.map_eq_some_iff.mp h
  cases heq
  exact .str string

theorem value?_ordered (depth : Nat) : Orderly (value? depth) := by
  induction depth with
  | zero =>
    intro text rest value h
    rw [value?.eq_def] at h
    dsimp only at h
    split at h
    · exact string_ordered h
    · exact string_ordered h
    · cases h
    · cases h
    · exact scalar?_ordered h
  | succ depth ih =>
    intro text rest value h
    rw [value?.eq_def] at h
    dsimp only at h
    split at h
    · exact string_ordered h
    · exact string_ordered h
    · exact itemsWith?_ordered ih (List.forall_mem_nil _) h
    · split at h
      · cases h
        exact InOrder.nil.ordered
      · exact entriesWith?_ordered ih .nil h
    · exact scalar?_ordered h

/-! ## Documents -/

theorem line?_inOrder {draft draft' : Draft} (hdraft : InOrder draft.entries)
    (h : line? draft text = some (draft', rest)) : InOrder draft'.entries := by
  have hopen {change : Change} {path : List String} {text : List Char} (hkeeps : change.Keeps)
      (hopened : (draft.open? change path).map (fun draft => (draft, text)) =
        some (draft', rest)) : InOrder draft'.entries := by
    obtain ⟨opened, hopened, heq⟩ := Option.map_eq_some_iff.mp hopened
    obtain ⟨entries, hentries, rfl⟩ := Option.map_eq_some_iff.mp hopened
    cases heq
    exact hkeeps hdraft hentries
  rw [line?] at h
  split at h
  · split at h
    · cases h
    · exact hopen openElement_keeps h
  · split at h
    · cases h
    · exact hopen openTable_keeps h
  · split at h
    · cases h
      exact hdraft
    · split at h
      · cases h
      · next change text hchange =>
        split at h
        · next text entries _ hentries =>
          cases h
          have hkeeps : change.Keeps := keyValue?_keeps (value?_ordered nestingLimit) hchange
          exact underHeader_keeps hkeeps hdraft hentries
        · cases h

theorem lines?_inOrder {bound : Nat} {draft draft' : Draft} (hdraft : InOrder draft.entries)
    (h : lines? bound draft text = some draft') : InOrder draft'.entries := by
  induction bound generalizing draft text with
  | zero => cases h
  | succ bound ih =>
    cases text with
    | nil =>
      cases h
      exact hdraft
    | cons c text =>
      rw [lines?] at h
      · split at h
        · cases h
        · next hline => exact ih (line?_inOrder hdraft hline) h
      · exact List.cons_ne_nil c text

/-- The names of all tables that a document defines are in order. -/
theorem read?_inOrder {text : String} {document : NameTable Toml} (h : read? text = some document) :
    InOrder document := by
  obtain ⟨draft, hlines, rfl⟩ := Option.map_eq_some_iff.mp h
  exact lines?_inOrder .nil hlines

end TreeText.Toml
