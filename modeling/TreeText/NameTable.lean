/-!
# Tables keyed by name

A table is a list of pairs, kept in increasing order of the names by `insert`, so that a name
has one entry and two tables with the same entries are the same list. The fields of a node and
the entries of a schema are such tables; looking a name up is `List.lookup`.
-/

namespace TreeText

/-- Values under names. -/
abbrev NameTable (α : Type) := List (String × α)

namespace NameTable

variable {α : Type}

/-- Puts `value` under `name`, in place of an earlier value. -/
def insert (name : String) (value : α) : NameTable α → NameTable α
  | [] => [(name, value)]
  | (n, v) :: rest =>
    if name < n then (name, value) :: (n, v) :: rest
    else if name = n then (name, value) :: rest
    else (n, v) :: insert name value rest

/-- The table that a list of assignments leaves, the last one for a name winning. -/
def ofList (pairs : List (String × α)) : NameTable α :=
  pairs.foldl (fun table pair => insert pair.1 pair.2 table) []

/-- The entries of `newer` over those of `older`. -/
def extend (older newer : NameTable α) : NameTable α :=
  newer.foldl (fun table pair => insert pair.1 pair.2 table) older

/-- Names stand in strictly increasing order, so each stands once. -/
def Sorted (table : NameTable α) : Prop :=
  table.Pairwise fun a b => a.1 < b.1

theorem lookup_cons_of_ne {name n : String} (ne : name ≠ n) (value : α) (rest : NameTable α) :
    List.lookup name ((n, value) :: rest) = List.lookup name rest := by
  rw [List.lookup_cons, beq_eq_false_iff_ne.mpr ne]

theorem lookup_insert_self (name : String) (value : α) (table : NameTable α) :
    (insert name value table).lookup name = some value := by
  induction table with
  | nil => simp [insert]
  | cons pair rest ih =>
    obtain ⟨n, v⟩ := pair
    by_cases h : name < n
    · simp [insert, h]
    · by_cases e : name = n
      · simp [insert, e]
      · simp only [insert, h, e, if_false]
        rw [lookup_cons_of_ne e, ih]

theorem lookup_insert_of_ne {name other : String} (ne : other ≠ name) (value : α)
    (table : NameTable α) : (insert name value table).lookup other = table.lookup other := by
  induction table with
  | nil => exact lookup_cons_of_ne ne value []
  | cons pair rest ih =>
    obtain ⟨n, v⟩ := pair
    by_cases h : name < n
    · simp only [insert, h, if_true]
      exact lookup_cons_of_ne ne value _
    · by_cases e : name = n
      · subst e
        simp only [insert, h, if_false, if_true]
        rw [lookup_cons_of_ne ne, lookup_cons_of_ne ne]
      · simp only [insert, h, e, if_false]
        rw [List.lookup_cons, List.lookup_cons, ih]

theorem lookup_insert (name other : String) (value : α) (table : NameTable α) :
    (insert name value table).lookup other =
      if other = name then some value else table.lookup other := by
  by_cases h : other = name
  · rw [if_pos h, h, lookup_insert_self]
  · rw [if_neg h, lookup_insert_of_ne h]

/-- Of several values for a name the last one wins, and each wins over the older table. -/
theorem lookup_extend (older newer : NameTable α) (name : String) :
    (extend older newer).lookup name = (newer.reverse.lookup name).or (older.lookup name) := by
  induction newer generalizing older with
  | nil => rfl
  | cons pair rest ih =>
    have hstep : extend older (pair :: rest) = extend (insert pair.1 pair.2 older) rest := rfl
    rw [hstep, ih, lookup_insert, List.reverse_cons, List.lookup_append, List.lookup_cons,
      List.lookup_nil, Option.or_assoc]
    by_cases h : name = pair.1
    · rw [if_pos h, beq_iff_eq.mpr h, Option.some_or]
    · rw [if_neg h, beq_eq_false_iff_ne.mpr h, Option.none_or]

theorem lookup_ofList (pairs : List (String × α)) (name : String) :
    (ofList pairs).lookup name = pairs.reverse.lookup name := by
  have h := lookup_extend [] pairs name
  rwa [List.lookup_nil, Option.or_none] at h

theorem mem_keys_iff {name : String} {table : NameTable α} :
    name ∈ table.map (·.1) ↔ (table.lookup name).isSome := by
  rw [List.lookup_isSome_iff, List.mem_map]
  constructor
  · rintro ⟨pair, hpair, rfl⟩
    exact ⟨pair, hpair, beq_self_eq_true _⟩
  · rintro ⟨pair, hpair, heq⟩
    exact ⟨pair, hpair, (beq_iff_eq.mp heq).symm⟩

theorem mem_of_lookup {name : String} {value : α} {table : NameTable α}
    (h : table.lookup name = some value) : (name, value) ∈ table := by
  obtain ⟨before, after, rfl, -⟩ := List.lookup_eq_some_iff.mp h
  exact List.mem_append_right _ List.mem_cons_self

theorem mem_of_mem_insert {pair : String × α} {name : String} {value : α} {table : NameTable α}
    (h : pair ∈ insert name value table) : pair = (name, value) ∨ pair ∈ table := by
  induction table with
  | nil => exact .inl (List.mem_singleton.mp h)
  | cons first rest ih =>
    obtain ⟨n, v⟩ := first
    rw [insert] at h
    split at h
    · exact List.mem_cons.mp h
    · split at h
      · exact (List.mem_cons.mp h).imp_right (List.mem_cons_of_mem _)
      · rcases List.mem_cons.mp h with rfl | h
        · exact .inr List.mem_cons_self
        · exact (ih h).imp_right (List.mem_cons_of_mem _)

theorem mem_of_mem_extend {pair : String × α} {older newer : NameTable α}
    (h : pair ∈ extend older newer) : pair ∈ newer ∨ pair ∈ older := by
  induction newer generalizing older with
  | nil => exact .inr h
  | cons first rest ih =>
    rcases ih h with hrest | hstep
    · exact .inl (List.mem_cons_of_mem _ hrest)
    · rcases mem_of_mem_insert hstep with rfl | hrest
      · exact .inl List.mem_cons_self
      · exact .inr hrest

/-- A table has no entries but the assignments. -/
theorem mem_of_mem_ofList {pair : String × α} {pairs : List (String × α)}
    (h : pair ∈ ofList pairs) : pair ∈ pairs :=
  (mem_of_mem_extend h).resolve_right List.not_mem_nil

theorem eq_of_mem_of_nodup {name : String} {value value' : α} {pairs : List (String × α)}
    (hnodup : (pairs.map (·.1)).Nodup) (h : (name, value) ∈ pairs) (h' : (name, value') ∈ pairs) :
    value = value' := by
  induction pairs with
  | nil => cases h
  | cons first rest ih =>
    rw [List.map_cons, List.nodup_cons] at hnodup
    have hfresh : ∀ other, first.1 = name → (name, other) ∉ rest := fun other hname hmem =>
      hnodup.1 (List.mem_map.mpr ⟨_, hmem, hname.symm⟩)
    rcases List.mem_cons.mp h with rfl | hrest
    · rcases List.mem_cons.mp h' with heq | hrest'
      · exact (congrArg Prod.snd heq).symm
      · exact absurd hrest' (hfresh value' rfl)
    · rcases List.mem_cons.mp h' with rfl | hrest'
      · exact absurd hrest (hfresh value rfl)
      · exact ih hnodup.2 hrest hrest'

/-- Where no name is assigned to twice, each assignment can be looked up. -/
theorem lookup_ofList_of_mem {name : String} {value : α} {pairs : List (String × α)}
    (hnodup : (pairs.map (·.1)).Nodup) (h : (name, value) ∈ pairs) :
    (ofList pairs).lookup name = some value := by
  rw [lookup_ofList]
  have hsome : (pairs.reverse.lookup name).isSome :=
    mem_keys_iff.mp (List.mem_map.mpr ⟨_, List.mem_reverse.mpr h, rfl⟩)
  obtain ⟨found, hfound⟩ := Option.isSome_iff_exists.mp hsome
  have hmem := List.mem_reverse.mp (mem_of_lookup hfound)
  rw [hfound, eq_of_mem_of_nodup hnodup hmem h]

/-- Where the same names are assigned to, each once, tables are the same if the assignments are. -/
theorem ofList_inj {pairs pairs' : List (String × α)}
    (hnames : pairs.map (·.1) = pairs'.map (·.1)) (hnodup : (pairs.map (·.1)).Nodup) :
    ofList pairs = ofList pairs' ↔ pairs = pairs' := by
  constructor
  · intro h
    have hlength : pairs.length = pairs'.length := by simpa using congrArg List.length hnames
    refine List.ext_getElem hlength fun i hi hi' => ?_
    have hname : pairs[i].1 = pairs'[i].1 := by
      have hmap := List.getElem_of_eq hnames (by rwa [List.length_map])
      rwa [List.getElem_map, List.getElem_map] at hmap
    have hvalue : (ofList pairs).lookup pairs[i].1 = some pairs[i].2 :=
      lookup_ofList_of_mem hnodup (List.getElem_mem hi)
    have hvalue' : (ofList pairs').lookup pairs'[i].1 = some pairs'[i].2 :=
      lookup_ofList_of_mem (hnames ▸ hnodup) (List.getElem_mem hi')
    rw [h, hname, hvalue', Option.some.injEq] at hvalue
    exact Prod.ext hname hvalue.symm
  · intro h
    rw [h]

/-- A function that goes through a table and makes each value from its name and the value there is
looked up in that table. -/
theorem lookup_of_eachPair {β : Type} (f : String → α → β) {made : NameTable α → NameTable β}
    (hnil : made [] = [])
    (hcons : ∀ name value rest, made ((name, value) :: rest) = (name, f name value) :: made rest)
    (table : NameTable α) (name : String) :
    (made table).lookup name = (table.lookup name).map (f name) := by
  induction table with
  | nil =>
    rw [hnil]
    rfl
  | cons pair rest ih =>
    obtain ⟨other, value⟩ := pair
    rw [hcons, List.lookup_cons, List.lookup_cons, ih]
    by_cases h : name = other
    · rw [beq_iff_eq.mpr h, h]
      rfl
    · rw [beq_eq_false_iff_ne.mpr h]

/-! ## Tables in order -/

theorem insert_sorted {name : String} {value : α} {table : NameTable α} (h : Sorted table) :
    Sorted (insert name value table) := by
  induction table with
  | nil => exact List.pairwise_singleton _ _
  | cons first rest ih =>
    obtain ⟨n, v⟩ := first
    obtain ⟨hfirst, hrest⟩ := List.pairwise_cons.mp h
    rw [insert]
    by_cases hlt : name < n
    · rw [if_pos hlt]
      refine List.pairwise_cons.mpr ⟨List.forall_mem_cons.mpr ⟨hlt, ?_⟩, h⟩
      exact fun pair hpair => String.lt_trans hlt (hfirst pair hpair)
    rw [if_neg hlt]
    by_cases heq : name = n
    · rw [if_pos heq]
      exact List.pairwise_cons.mpr ⟨heq ▸ hfirst, hrest⟩
    · rw [if_neg heq]
      refine List.pairwise_cons.mpr ⟨fun pair hpair => ?_, ih hrest⟩
      rcases mem_of_mem_insert hpair with rfl | hmem
      · -- Of two different names one is less.
        apply String.not_le.mp
        intro hle
        exact heq (String.le_antisymm hle (String.not_lt.mp hlt))
      · exact hfirst pair hmem

theorem extend_sorted {older newer : NameTable α} (h : Sorted older) :
    Sorted (extend older newer) := by
  induction newer generalizing older with
  | nil => exact h
  | cons pair rest ih => exact ih (insert_sorted h)

theorem ofList_sorted (pairs : List (String × α)) : Sorted (ofList pairs) :=
  extend_sorted List.Pairwise.nil

/-- A name greater than all others goes to the end. -/
theorem insert_of_forall_lt {name : String} {value : α} {table : NameTable α}
    (h : ∀ pair ∈ table, pair.1 < name) : insert name value table = table ++ [(name, value)] := by
  induction table with
  | nil => rfl
  | cons first rest ih =>
    obtain ⟨n, v⟩ := first
    obtain ⟨hfirst, hrest⟩ := List.forall_mem_cons.mp h
    have hlt : ¬ name < n := fun hlt => String.lt_irrefl _ (String.lt_trans hfirst hlt)
    have hne : name ≠ n := fun heq => String.lt_irrefl _ (heq ▸ hfirst)
    rw [insert, if_neg hlt, if_neg hne, ih hrest, List.cons_append]

theorem extend_of_sorted_append {older newer : NameTable α} (h : Sorted (older ++ newer)) :
    extend older newer = older ++ newer := by
  induction newer generalizing older with
  | nil => rw [List.append_nil]; rfl
  | cons pair rest ih =>
    have hless : ∀ other ∈ older, other.1 < pair.1 := fun other hmem =>
      (List.pairwise_append.mp h).2.2 other hmem pair List.mem_cons_self
    show extend (insert pair.1 pair.2 older) rest = _
    rw [insert_of_forall_lt hless, ih (by rwa [List.append_assoc]), List.append_assoc]
    rfl

/-- Assignments whose names stand in order are a table already. -/
theorem ofList_of_sorted {pairs : NameTable α} (h : Sorted pairs) : ofList pairs = pairs :=
  extend_of_sorted_append h

theorem Sorted.nodup_names {table : NameTable α} (h : Sorted table) :
    (table.map (·.1)).Nodup := by
  refine List.pairwise_map.mpr (h.imp fun {pair other} hlt heq => ?_)
  rw [heq] at hlt
  exact String.lt_irrefl _ hlt

/-- What a table extended by another has under a name: the newer entry if there is one. -/
theorem lookup_extend_eq_some_iff {older newer : NameTable α} (h : Sorted newer) {name : String}
    {value : α} :
    (extend older newer).lookup name = some value ↔
      (name, value) ∈ newer ∨
        (∀ other, (name, other) ∉ newer) ∧ older.lookup name = some value := by
  rw [lookup_extend, ← lookup_ofList]
  by_cases hnew : ∃ other, (name, other) ∈ newer
  · obtain ⟨other, hother⟩ := hnew
    rw [lookup_ofList_of_mem h.nodup_names hother, Option.some_or, Option.some.injEq]
    constructor
    · rintro rfl
      exact .inl hother
    · rintro (hmem | ⟨hnone, -⟩)
      · exact eq_of_mem_of_nodup h.nodup_names hother hmem
      · exact absurd hother (hnone other)
  · have hnone : (ofList newer).lookup name = none := by
      cases hfound : (ofList newer).lookup name with
      | none => rfl
      | some other => exact absurd ⟨other, mem_of_mem_ofList (mem_of_lookup hfound)⟩ hnew
    rw [hnone, Option.none_or]
    refine ⟨fun hold => .inr ⟨fun other hother => hnew ⟨other, hother⟩, hold⟩, ?_⟩
    rintro (hmem | ⟨-, hold⟩)
    · exact absurd ⟨value, hmem⟩ hnew
    · exact hold

/-! ## Tables by what they hold -/

theorem Sorted.nodup {table : NameTable α} (h : Sorted table) : table.Nodup :=
  (List.pairwise_map.mp h.nodup_names).imp fun hne heq => hne (congrArg Prod.fst heq)

theorem Sorted.lookup_eq_some_iff {table : NameTable α} (h : Sorted table) {name : String}
    {value : α} : table.lookup name = some value ↔ (name, value) ∈ table := by
  refine ⟨mem_of_lookup, fun hmem => ?_⟩
  have hlookup := lookup_ofList_of_mem h.nodup_names hmem
  rwa [ofList_of_sorted h] at hlookup

/-- Tables that have the same values under all names are the same. -/
theorem Sorted.eq_of_lookup_eq {table table' : NameTable α} (h : Sorted table)
    (h' : Sorted table') (hlookup : ∀ name, table.lookup name = table'.lookup name) :
    table = table' := by
  have hmem (pair : String × α) : pair ∈ table ↔ pair ∈ table' := by
    rw [← h.lookup_eq_some_iff, ← h'.lookup_eq_some_iff, hlookup]
  have hperm : table.Perm table' := (List.perm_ext_iff_of_nodup h.nodup h'.nodup).mpr hmem
  refine hperm.eq_of_pairwise (fun pair other _ _ hlt hgt => ?_) h h'
  exact absurd hgt (String.lt_asymm hlt)

/-- The same table comes from all assignments that agree in the last value for every name. -/
theorem ofList_eq_iff {pairs pairs' : List (String × α)} :
    ofList pairs = ofList pairs' ↔
      ∀ name, pairs.reverse.lookup name = pairs'.reverse.lookup name := by
  constructor
  · intro h name
    rw [← lookup_ofList, h, lookup_ofList]
  · intro h
    apply (ofList_sorted pairs).eq_of_lookup_eq (ofList_sorted pairs')
    intro name
    rw [lookup_ofList, lookup_ofList, h]

end NameTable

end TreeText
