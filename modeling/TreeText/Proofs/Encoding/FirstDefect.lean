import Mathlib.Data.List.Basic
import TreeText.Proofs.Encoding.Agreement

/-!
# The first defect, and the way that leads to it

A defect lies at the end of a way that goes through listed fields only: an unknown kind where the
way comes to its node, and a missing field where its value would be (`Schema.FoundAt`). Encoding
comes to the ends of such ways in an order that the schema decides at every node
(`Schema.Precedes`), so the ways of two defects can always be compared
(`FoundAt.eq_or_precedes`), and there is at most one defect that comes first.

Strict validation reports just this one. It goes through the items of a sequence and the listed
fields of a node from left to right and stops at the first part with a defect
(`exists_of_checkItems_eq_error`, `exists_of_checkListed_eq_error`), so the induction over the
tree carries both what it reports and that nothing before it is defective (`Reports`). What it
reports with the defect is the way itself, step by step (`pathAlong`).
-/

namespace TreeText

/-! ## Paths along a way -/

/-- A step as a path shows it. -/
def Step.shown : Step → String
  | .field name => "." ++ name
  | .item index => "[" ++ toString index ++ "]"

/-- A path and then the steps of a way, one after the other. -/
def pathAlong (path : String) (way : List Step) : String :=
  path ++ String.join (way.map Step.shown)

theorem pathAlong_nil (path : String) : pathAlong path [] = path := by
  rw [pathAlong, List.map_nil, String.join_nil, String.append_empty]

theorem pathAlong_item (path : String) (index : Nat) (way : List Step) :
    pathAlong path (.item index :: way) =
      pathAlong (path ++ ("[" ++ toString index ++ "]")) way := by
  rw [pathAlong, List.map_cons, String.join_cons, ← String.append_assoc]
  rfl

theorem pathAlong_field (path name : String) (way : List Step) :
    pathAlong path (.field name :: way) = pathAlong (path ++ "." ++ name) way := by
  rw [pathAlong, List.map_cons, String.join_cons, ← String.append_assoc, Step.shown,
    ← String.append_assoc]
  rfl

/-- The kind of the node that a defect is about. -/
def Defect.kind : Defect → String
  | .unknownKind kind _ => kind
  | .missingField kind _ _ => kind

/-- The path to the node that a defect is about. -/
def Defect.path : Defect → String
  | .unknownKind _ path => path
  | .missingField _ _ path => path

namespace Schema

/-! ## The order of encoding -/

/-- Encoding comes to the end of one way into a tree before it comes to the end of another: to a
node before what is in it, to items in order, and to fields in the order of the schema's list. -/
inductive Precedes (schema : Schema) : Tree → List Step → List Step → Prop
  | above {tree : Tree} {step : Step} {way : List Step} : Precedes schema tree [] (step :: way)
  | item {items : List Tree} {i j : Nat} {way way' : List Step} (hlt : i < j) :
    Precedes schema (.seq items) (.item i :: way) (.item j :: way')
  | field {kind : String} {fields : List (String × Tree)} {names : List String}
    {name name' : String} {way way' : List Step} (hkind : schema.fields? kind = some names)
    (hlt : names.idxOf name < names.idxOf name') :
    Precedes schema (.node kind fields) (.field name :: way) (.field name' :: way')
  | inItem {items : List Tree} {i : Nat} {item : Tree} {way way' : List Step}
    (hitem : items[i]? = some item) (hinner : Precedes schema item way way') :
    Precedes schema (.seq items) (.item i :: way) (.item i :: way')
  | inField {kind : String} {fields : List (String × Tree)} {name : String} {value : Tree}
    {way way' : List Step} (hvalue : fields.lookup name = some value)
    (hinner : Precedes schema value way way') :
    Precedes schema (.node kind fields) (.field name :: way) (.field name :: way')

variable (schema : Schema) (allowed : List String)

/-! ## Defects and their ways -/

/-- A defect that lies at the end of a way into the tree at `here`. A missing field lies where its
value would be, one step behind the node that lacks it. -/
inductive FoundAt (here : String) (tree : Tree) : List Step → Defect → Prop
  | unknownKind {way : List Step} {kind : String} {fields : List (String × Tree)}
    (hway : schema.follow? way tree = some (.node kind fields))
    (hkind : schema.fields? kind = none) (hallowed : kind ∉ allowed) :
    FoundAt here tree way (.unknownKind kind (pathAlong here way))
  | missingField {way : List Step} {kind name : String} {fields : List (String × Tree)}
    {names : List String} (hway : schema.follow? way tree = some (.node kind fields))
    (hkind : schema.fields? kind = some names) (hname : name ∈ names)
    (hmissing : fields.lookup name = none) :
    FoundAt here tree (way ++ [.field name]) (.missingField kind name (pathAlong here way))

/-- The way of a defect before which no other defect comes. -/
def FirstAt (here : String) (tree : Tree) (way : List Step) (defect : Defect) : Prop :=
  schema.FoundAt allowed here tree way defect ∧
    ∀ way' defect', schema.FoundAt allowed here tree way' defect' →
      ¬ schema.Precedes tree way' way

variable {schema allowed} {here : String} {way way' : List Step} {defect defect' : Defect}

theorem follow?_seq_eq_node_iff {items : List Tree} {kind : String}
    {fields : List (String × Tree)} :
    schema.follow? way (.seq items) = some (.node kind fields) ↔
      ∃ i item rest, items[i]? = some item ∧ way = .item i :: rest ∧
        schema.follow? rest item = some (.node kind fields) := by
  constructor
  · intro h
    match way, h with
    | [], h => cases h
    | .item i :: rest, h =>
      obtain ⟨item, hitem, hrest⟩ := Option.bind_eq_some_iff.mp h
      exact ⟨i, item, rest, hitem, rfl, hrest⟩
  · intro ⟨i, item, rest, hitem, hway, hrest⟩
    rw [hway]
    exact Option.bind_eq_some_iff.mpr ⟨item, hitem, hrest⟩

theorem follow?_node_eq_node_iff {known : String} {names : List String}
    (hknown : schema.fields? known = some names) {inner fields : List (String × Tree)}
    {kind : String} :
    schema.follow? way (.node known inner) = some (.node kind fields) ↔
      (way = [] ∧ known = kind ∧ inner = fields) ∨
      ∃ name ∈ names, ∃ value rest, inner.lookup name = some value ∧
        way = .field name :: rest ∧ schema.follow? rest value = some (.node kind fields) := by
  constructor
  · intro h
    match way, h with
    | [], h =>
      rw [follow?, Option.some_inj, Tree.node.injEq] at h
      exact .inl ⟨rfl, h⟩
    | .field name :: rest, h =>
      rw [follow?, hknown] at h
      dsimp only at h
      split at h
      next hname =>
        cases hvalue : inner.lookup name with
        | some value =>
          rw [Tree.listed, hvalue] at h
          exact .inr ⟨name, hname, value, rest, hvalue, rfl, h⟩
        | none =>
          -- Where the field is missing the way could only end at an absence.
          rw [Tree.listed, hvalue] at h
          have habsent : Tree.node kind fields = .absent :=
            schema.visits_eq_of_leaf rfl rfl ⟨rest, h⟩
          cases habsent
      next => cases h
  · intro h
    rcases h with ⟨rfl, rfl, rfl⟩ | ⟨name, hname, value, rest, hvalue, rfl, hrest⟩
    · rfl
    · rw [follow?, hknown]
      dsimp only
      rw [if_pos hname, Tree.listed, hvalue]
      exact hrest

theorem foundAt_seq_iff {items : List Tree} :
    schema.FoundAt allowed here (.seq items) way defect ↔
      ∃ i item rest, items[i]? = some item ∧ way = .item i :: rest ∧
        schema.FoundAt allowed (here ++ ("[" ++ toString i ++ "]")) item rest defect := by
  constructor
  · intro h
    cases h with
    | unknownKind hway hkind hallowed =>
      obtain ⟨i, item, rest, hitem, rfl, hrest⟩ := follow?_seq_eq_node_iff.mp hway
      refine ⟨i, item, rest, hitem, rfl, ?_⟩
      rw [pathAlong_item]
      exact .unknownKind hrest hkind hallowed
    | missingField hway hkind hname hmissing =>
      obtain ⟨i, item, rest, hitem, rfl, hrest⟩ := follow?_seq_eq_node_iff.mp hway
      refine ⟨i, item, _, hitem, List.cons_append, ?_⟩
      rw [pathAlong_item]
      exact .missingField hrest hkind hname hmissing
  · intro ⟨i, item, rest, hitem, hway, h⟩
    subst hway
    cases h with
    | unknownKind hrest hkind hallowed =>
      rw [← pathAlong_item]
      exact .unknownKind (follow?_seq_eq_node_iff.mpr ⟨i, item, _, hitem, rfl, hrest⟩) hkind
        hallowed
    | missingField hrest hkind hname hmissing =>
      rw [← pathAlong_item, ← List.cons_append]
      exact .missingField (follow?_seq_eq_node_iff.mpr ⟨i, item, _, hitem, rfl, hrest⟩) hkind hname
        hmissing

/-- A defect of what a known node has under a listed field, at the end of a way from there: there is
no value, or the defect lies in it. -/
def FoundUnder (schema : Schema) (allowed : List String) (here : String) (kind : String)
    (fields : List (String × Tree)) (name : String) (rest : List Step) (defect : Defect) : Prop :=
  match fields.lookup name with
  | none => rest = [] ∧ defect = .missingField kind name here
  | some value => schema.FoundAt allowed (here ++ "." ++ name) value rest defect

theorem foundUnder_none {kind name : String} {fields : List (String × Tree)} {rest : List Step}
    (hmissing : fields.lookup name = none) :
    schema.FoundUnder allowed here kind fields name rest defect ↔
      rest = [] ∧ defect = .missingField kind name here := by
  rw [FoundUnder, hmissing]

theorem foundUnder_some {kind name : String} {fields : List (String × Tree)} {value : Tree}
    {rest : List Step} (hvalue : fields.lookup name = some value) :
    schema.FoundUnder allowed here kind fields name rest defect ↔
      schema.FoundAt allowed (here ++ "." ++ name) value rest defect := by
  rw [FoundUnder, hvalue]

theorem foundAt_node_iff {kind : String} {names : List String}
    (hkind : schema.fields? kind = some names) {fields : List (String × Tree)} :
    schema.FoundAt allowed here (.node kind fields) way defect ↔
      ∃ name ∈ names, ∃ rest, way = .field name :: rest ∧
        schema.FoundUnder allowed here kind fields name rest defect := by
  constructor
  · intro h
    cases h with
    | unknownKind hway hunknown hallowed =>
      rcases (follow?_node_eq_node_iff hkind).mp hway with
        ⟨rfl, rfl, rfl⟩ | ⟨name, hname, value, rest, hvalue, rfl, hrest⟩
      · cases hkind.symm.trans hunknown
      · refine ⟨name, hname, rest, rfl, (foundUnder_some hvalue).mpr ?_⟩
        rw [pathAlong_field]
        exact .unknownKind hrest hunknown hallowed
    | missingField hway hlisted hmember hmissing =>
      rcases (follow?_node_eq_node_iff hkind).mp hway with
        ⟨rfl, rfl, rfl⟩ | ⟨name, hname, value, rest, hvalue, rfl, hrest⟩
      · obtain rfl := Option.some.inj (hkind.symm.trans hlisted)
        refine ⟨_, hmember, [], rfl, (foundUnder_none hmissing).mpr ⟨rfl, ?_⟩⟩
        rw [pathAlong_nil]
      · refine ⟨name, hname, _, List.cons_append, (foundUnder_some hvalue).mpr ?_⟩
        rw [pathAlong_field]
        exact .missingField hrest hlisted hmember hmissing
  · intro ⟨name, hname, rest, hway, h⟩
    subst hway
    cases hvalue : fields.lookup name with
    | none =>
      obtain ⟨rfl, rfl⟩ := (foundUnder_none hvalue).mp h
      have hhere : schema.follow? [] (.node kind fields) = some (.node kind fields) := rfl
      have hfound : schema.FoundAt allowed here (.node kind fields) ([] ++ [.field name])
          (.missingField kind name (pathAlong here [])) := .missingField hhere hkind hname hvalue
      rwa [pathAlong_nil] at hfound
    | some value =>
      have hfollow {inner : List Step} {kind' : String} {fields' : List (String × Tree)}
          (hinner : schema.follow? inner value = some (.node kind' fields')) :
          schema.follow? (.field name :: inner) (.node kind fields) = some (.node kind' fields') :=
        (follow?_node_eq_node_iff hkind).mpr (.inr ⟨name, hname, value, inner, hvalue, rfl, hinner⟩)
      cases (foundUnder_some hvalue).mp h with
      | unknownKind hrest hunknown hallowed =>
        rw [← pathAlong_field]
        exact .unknownKind (hfollow hrest) hunknown hallowed
      | missingField hrest hlisted hmember hmissing =>
        rw [← pathAlong_field, ← List.cons_append]
        exact .missingField (hfollow hrest) hlisted hmember hmissing

/-- Nothing of an unknown node is looked at but its kind. -/
theorem foundAt_unknown_iff {kind : String} (hkind : schema.fields? kind = none)
    {fields : List (String × Tree)} :
    schema.FoundAt allowed here (.node kind fields) way defect ↔
      kind ∉ allowed ∧ way = [] ∧ defect = .unknownKind kind here := by
  have hstop {rest : List Step} {kind' : String} {fields' : List (String × Tree)}
      (h : schema.follow? rest (.node kind fields) = some (.node kind' fields')) :
      rest = [] ∧ kind' = kind := by
    cases rest with
    | nil =>
      rw [follow?, Option.some_inj, Tree.node.injEq] at h
      exact ⟨rfl, h.1.symm⟩
    | cons step rest =>
      cases step with
      | field name =>
        rw [follow?, hkind] at h
        cases h
      | item _ => cases h
  constructor
  · intro h
    cases h with
    | unknownKind hway _ hallowed =>
      obtain ⟨rfl, rfl⟩ := hstop hway
      rw [pathAlong_nil]
      exact ⟨hallowed, rfl, rfl⟩
    | missingField hway hlisted _ _ =>
      obtain ⟨-, rfl⟩ := hstop hway
      cases hkind.symm.trans hlisted
  · rintro ⟨hallowed, rfl, rfl⟩
    have hhere : schema.follow? [] (.node kind fields) = some (.node kind fields) := rfl
    have hfound : schema.FoundAt allowed here (.node kind fields) []
        (.unknownKind kind (pathAlong here [])) := .unknownKind hhere hkind hallowed
    rwa [pathAlong_nil] at hfound

theorem not_foundAt_of_leaf {tree : Tree} (hitems : tree.items? = none)
    (hkind : tree.kind? = none) : ¬ schema.FoundAt allowed here tree way defect := by
  intro h
  cases h with
  | unknownKind hway _ _ =>
    rw [← schema.visits_eq_of_leaf hitems hkind ⟨_, hway⟩] at hkind
    cases hkind
  | missingField hway _ _ _ =>
    rw [← schema.visits_eq_of_leaf hitems hkind ⟨_, hway⟩] at hkind
    cases hkind

/-! ## One defect after the other -/

/-- Two defects are the same one, or encoding comes to one of them before the other. -/
theorem FoundAt.eq_or_precedes {tree : Tree} (h : schema.FoundAt allowed here tree way defect)
    (h' : schema.FoundAt allowed here tree way' defect') :
    (way = way' ∧ defect = defect') ∨ schema.Precedes tree way way' ∨
      schema.Precedes tree way' way := by
  induction tree using Tree.induction generalizing here way way' with
  | absent => exact absurd h (not_foundAt_of_leaf rfl rfl)
  | str text => exact absurd h (not_foundAt_of_leaf rfl rfl)
  | seq items ih =>
    obtain ⟨i, item, rest, hitem, rfl, hfound⟩ := foundAt_seq_iff.mp h
    obtain ⟨j, item', rest', hitem', rfl, hfound'⟩ := foundAt_seq_iff.mp h'
    rcases Nat.lt_trichotomy i j with hlt | heq | hlt
    · exact .inr (.inl (.item hlt))
    · subst heq
      obtain rfl := Option.some.inj (hitem.symm.trans hitem')
      rcases ih item (List.mem_of_getElem? hitem) hfound hfound' with ⟨rfl, rfl⟩ | hlt | hlt
      · exact .inl ⟨rfl, rfl⟩
      · exact .inr (.inl (.inItem hitem hlt))
      · exact .inr (.inr (.inItem hitem hlt))
    · exact .inr (.inr (.item hlt))
  | node kind fields ih =>
    cases hkind : schema.fields? kind with
    | none =>
      obtain ⟨-, rfl, rfl⟩ := (foundAt_unknown_iff hkind).mp h
      obtain ⟨-, rfl, rfl⟩ := (foundAt_unknown_iff hkind).mp h'
      exact .inl ⟨rfl, rfl⟩
    | some names =>
      obtain ⟨name, hname, rest, rfl, hfound⟩ := (foundAt_node_iff hkind).mp h
      obtain ⟨name', hname', rest', rfl, hfound'⟩ := (foundAt_node_iff hkind).mp h'
      rcases Nat.lt_trichotomy (names.idxOf name) (names.idxOf name') with hlt | heq | hlt
      · exact .inr (.inl (.field hkind hlt))
      · obtain rfl := (List.idxOf_inj hname).mp heq
        cases hvalue : fields.lookup name with
        | none =>
          obtain ⟨rfl, rfl⟩ := (foundUnder_none hvalue).mp hfound
          obtain ⟨rfl, rfl⟩ := (foundUnder_none hvalue).mp hfound'
          exact .inl ⟨rfl, rfl⟩
        | some value =>
          rw [foundUnder_some hvalue] at hfound hfound'
          rcases ih _ (NameTable.mem_of_lookup hvalue) hfound hfound' with ⟨rfl, rfl⟩ | hlt | hlt
          · exact .inl ⟨rfl, rfl⟩
          · exact .inr (.inl (.inField hvalue hlt))
          · exact .inr (.inr (.inField hvalue hlt))
      · exact .inr (.inr (.field hkind hlt))

/-- At most one defect comes first. -/
theorem FirstAt.unique {tree : Tree} (h : schema.FirstAt allowed here tree way defect)
    (h' : schema.FirstAt allowed here tree way' defect') : defect = defect' := by
  rcases h.1.eq_or_precedes h'.1 with ⟨-, hdefect⟩ | hlt | hlt
  · exact hdefect
  · exact absurd hlt (h'.2 _ _ h.1)
  · exact absurd hlt (h.2 _ _ h'.1)

/-! ## What validation reports -/

/-- The first item with a defect ends the check of a sequence. -/
theorem exists_of_checkItems_eq_error {items : List Tree} {index : Nat}
    (h : schema.checkItems allowed here index items = .error defect) :
    ∃ i item, items[i]? = some item ∧
      schema.checkAt allowed (here ++ ("[" ++ toString (index + i) ++ "]")) item = .error defect ∧
      ∀ j item', j < i → items[j]? = some item' →
        schema.checkAt allowed (here ++ ("[" ++ toString (index + j) ++ "]")) item' = .ok () := by
  induction items generalizing index with
  | nil => cases h
  | cons first rest ih =>
    rw [checkItems] at h
    split at h
    next hfirst => exact ⟨0, first, rfl, hfirst.trans h, fun j item' hj => absurd hj (by omega)⟩
    next hfirst =>
      obtain ⟨i, item, hitem, herror, hbefore⟩ := ih h
      refine ⟨i + 1, item, hitem, ?_, ?_⟩
      · rw [show index + (i + 1) = index + 1 + i by omega]
        exact herror
      · intro j item' hj hitem'
        cases j with
        | zero =>
          obtain rfl := Option.some.inj hitem'
          exact hfirst
        | succ j =>
          rw [show index + (j + 1) = index + 1 + j by omega]
          exact hbefore j item' (by omega) hitem'

/-- The first listed field that is missing or has a defect ends the check of a node. -/
theorem exists_of_checkListed_eq_error {kind : String}
    {found : NameTable (Except Defect Unit)} {names : List String}
    (h : checkListed kind here found names = .error defect) :
    ∃ name ∈ names,
      ((found.lookup name = none ∧ defect = .missingField kind name here) ∨
        found.lookup name = some (.error defect)) ∧
      ∀ earlier, names.idxOf earlier < names.idxOf name →
        found.lookup earlier = some (.ok ()) := by
  induction names with
  | nil => cases h
  | cons first rest ih =>
    have hself : ∀ earlier, ¬ (first :: rest).idxOf earlier < (first :: rest).idxOf first := by
      intro earlier hlt
      rw [List.idxOf_cons_self] at hlt
      exact Nat.not_lt_zero _ hlt
    rw [checkListed] at h
    split at h
    next hmissing =>
      exact ⟨first, List.mem_cons_self, .inl ⟨hmissing, (Except.error.inj h).symm⟩,
        fun earlier hlt => absurd hlt (hself earlier)⟩
    next hdefect =>
      rw [h] at hdefect
      exact ⟨first, List.mem_cons_self, .inr hdefect,
        fun earlier hlt => absurd hlt (hself earlier)⟩
    next hfirst =>
      obtain ⟨name, hname, hcause, hbefore⟩ := ih h
      have hne : first ≠ name := by
        intro heq
        subst heq
        rw [hfirst] at hcause
        simp at hcause
      refine ⟨name, List.mem_cons_of_mem _ hname, hcause, ?_⟩
      intro earlier hlt
      by_cases heq : first = earlier
      · exact heq ▸ hfirst
      · rw [List.idxOf_cons_ne _ heq, List.idxOf_cons_ne _ hne] at hlt
        exact hbefore earlier (Nat.lt_of_succ_lt_succ hlt)

/-- What the result of a check has to say of a tree: that there is no defect, or which is first. -/
def Reports (schema : Schema) (allowed : List String) (here : String) (tree : Tree) :
    Except Defect Unit → Prop
  | .ok () => ∀ way defect, ¬ schema.FoundAt allowed here tree way defect
  | .error defect => ∃ way, schema.FirstAt allowed here tree way defect

theorem Reports.of_ok {tree : Tree} {result : Except Defect Unit}
    (h : schema.Reports allowed here tree result) (hok : result = .ok ()) :
    ¬ schema.FoundAt allowed here tree way defect := by
  subst hok
  exact h way defect

theorem Reports.of_error {tree : Tree} {result : Except Defect Unit}
    (h : schema.Reports allowed here tree result) (herror : result = .error defect) :
    ∃ way, schema.FirstAt allowed here tree way defect := by
  subst herror
  exact h

/-- The check of a sequence reports its first defect, if the checks of the items do. -/
theorem reports_seq {items : List Tree}
    (h : ∀ item ∈ items, ∀ here,
      schema.Reports allowed here item (schema.checkAt allowed here item)) :
    schema.Reports allowed here (.seq items) (schema.checkItems allowed here 0 items) := by
  cases hresult : schema.checkItems allowed here 0 items with
  | ok =>
    intro way defect hfound
    obtain ⟨i, item, rest, hitem, -, hfound⟩ := foundAt_seq_iff.mp hfound
    have hok := schema.checkItems_eq_ok_iff allowed |>.mp hresult i item hitem
    rw [Nat.zero_add] at hok
    exact (h item (List.mem_of_getElem? hitem) _).of_ok hok hfound
  | error defect =>
    obtain ⟨i, item, hitem, herror, hbefore⟩ := exists_of_checkItems_eq_error hresult
    rw [Nat.zero_add] at herror
    obtain ⟨rest, hfound, hfirst⟩ := (h item (List.mem_of_getElem? hitem) _).of_error herror
    refine ⟨.item i :: rest, foundAt_seq_iff.mpr ⟨i, item, rest, hitem, rfl, hfound⟩, ?_⟩
    intro way' defect' hwhole hprecedes
    obtain ⟨j, item', rest', hitem', rfl, hfound'⟩ := foundAt_seq_iff.mp hwhole
    cases hprecedes with
    | item hlt =>
      have hok := hbefore j item' hlt hitem'
      rw [Nat.zero_add] at hok
      exact (h item' (List.mem_of_getElem? hitem') _).of_ok hok hfound'
    | inItem hsame hinner =>
      obtain rfl := Option.some.inj (hitem.symm.trans hsame)
      obtain rfl := Option.some.inj (hitem.symm.trans hitem')
      exact hfirst rest' defect' hfound' hinner

/-- The check of a known node reports its first defect, if the checks of its values do. -/
theorem reports_node {kind : String} {names : List String}
    (hkind : schema.fields? kind = some names) {fields : List (String × Tree)}
    (h : ∀ pair ∈ fields, ∀ here,
      schema.Reports allowed here pair.2 (schema.checkAt allowed here pair.2)) :
    schema.Reports allowed here (.node kind fields)
      (checkListed kind here (schema.checkFields allowed here fields) names) := by
  -- A value that is accepted has no defect under its name.
  have haccepted {name : String} {rest : List Step} {defect : Defect}
      (hok : (schema.checkFields allowed here fields).lookup name = some (.ok ())) :
      ¬ schema.FoundUnder allowed here kind fields name rest defect := by
    rw [lookup_checkFields] at hok
    obtain ⟨value, hvalue, hok⟩ := Option.map_eq_some_iff.mp hok
    rw [foundUnder_some hvalue]
    exact (h _ (NameTable.mem_of_lookup hvalue) _).of_ok hok
  cases hresult : checkListed kind here (schema.checkFields allowed here fields) names with
  | ok =>
    intro way defect hfound
    obtain ⟨name, hname, rest, -, hfound⟩ := (foundAt_node_iff hkind).mp hfound
    exact haccepted (checkListed_eq_ok_iff.mp hresult name hname) hfound
  | error defect =>
    obtain ⟨name, hname, hcause, hbefore⟩ := exists_of_checkListed_eq_error hresult
    -- So the defect lies under this name, and nothing under the same name comes before it.
    have hunder : ∃ rest, schema.FoundUnder allowed here kind fields name rest defect ∧
        ∀ value rest' defect', fields.lookup name = some value →
          schema.FoundAt allowed (here ++ "." ++ name) value rest' defect' →
          ¬ schema.Precedes value rest' rest := by
      rw [lookup_checkFields] at hcause
      rcases hcause with ⟨hmissing, rfl⟩ | herror
      · rw [Option.map_eq_none_iff] at hmissing
        refine ⟨[], (foundUnder_none hmissing).mpr ⟨rfl, rfl⟩, ?_⟩
        intro value rest' defect' hvalue
        cases hmissing.symm.trans hvalue
      · obtain ⟨value, hvalue, herror⟩ := Option.map_eq_some_iff.mp herror
        obtain ⟨rest, hfound, hfirst⟩ :=
          (h _ (NameTable.mem_of_lookup hvalue) _).of_error herror
        refine ⟨rest, (foundUnder_some hvalue).mpr hfound, ?_⟩
        intro value' rest' defect' hvalue'
        obtain rfl := Option.some.inj (hvalue.symm.trans hvalue')
        exact hfirst rest' defect'
    obtain ⟨rest, hfound, hfirst⟩ := hunder
    refine ⟨.field name :: rest, (foundAt_node_iff hkind).mpr ⟨name, hname, rest, rfl, hfound⟩, ?_⟩
    intro way' defect' hwhole hprecedes
    obtain ⟨name', -, rest', rfl, hfound'⟩ := (foundAt_node_iff hkind).mp hwhole
    cases hprecedes with
    | field hkind' hlt =>
      obtain rfl := Option.some.inj (hkind.symm.trans hkind')
      exact haccepted (hbefore name' hlt) hfound'
    | inField hvalue hinner =>
      exact hfirst _ rest' defect' hvalue ((foundUnder_some hvalue).mp hfound') hinner

/-- Validation reports the first defect of a tree at every path, or that there is none. -/
theorem checkAt_reports (tree : Tree) (here : String) :
    schema.Reports allowed here tree (schema.checkAt allowed here tree) := by
  induction tree using Tree.induction generalizing here with
  | absent => exact fun way defect => not_foundAt_of_leaf rfl rfl
  | str text => exact fun way defect => not_foundAt_of_leaf rfl rfl
  | seq items ih =>
    rw [checkAt]
    exact reports_seq ih
  | node kind fields ih =>
    cases hkind : schema.fields? kind with
    | none =>
      rw [checkAt, hkind]
      dsimp only
      split
      next hallowed => exact fun way defect h => ((foundAt_unknown_iff hkind).mp h).1 hallowed
      next hallowed =>
        refine ⟨[], (foundAt_unknown_iff hkind).mpr ⟨hallowed, rfl, rfl⟩, ?_⟩
        intro way' defect' _ hprecedes
        cases hprecedes
    | some names =>
      rw [checkAt, hkind]
      exact reports_node hkind ih

/-- A defect is about a node of its kind at the end of a way. -/
theorem FoundAt.exists_node {tree : Tree} (h : schema.FoundAt allowed here tree way defect) :
    ∃ way fields, schema.follow? way tree = some (.node defect.kind fields) ∧
      defect.path = pathAlong here way := by
  cases h with
  | unknownKind hway _ _ => exact ⟨_, _, hway, rfl⟩
  | missingField hway _ _ _ => exact ⟨_, _, hway, rfl⟩

variable (schema allowed)

/-- **Strict validation reports the first problem and the right place.** It fails with a defect
exactly if this defect lies at the end of a way through listed fields, and encoding comes to no
other defect before. The path in the report is the kind of the root, nothing if the root is a
sequence, and then `.field` and `[index]` for each step of a way that leads to a node of the
reported kind. -/
theorem validate_eq_error_iff_firstAt (tree : Tree) (defect : Defect) :
    schema.validate allowed tree = .error defect ↔
      (∃ way, schema.FirstAt allowed (tree.kind?.getD "") tree way defect) ∧
      ∃ way fields, schema.follow? way tree = some (.node defect.kind fields) ∧
        defect.path = tree.kind?.getD "" ++ String.join (way.map fun step =>
          match step with
          | .field name => "." ++ name
          | .item index => "[" ++ toString index ++ "]") := by
  have hreports : schema.Reports allowed (tree.kind?.getD "") tree
      (schema.checkAt allowed (tree.kind?.getD "") tree) := checkAt_reports tree _
  rw [validate_eq_checkAt]
  constructor
  · intro herror
    obtain ⟨way, hfirst⟩ := hreports.of_error herror
    exact ⟨⟨way, hfirst⟩, hfirst.1.exists_node⟩
  · intro ⟨⟨way, hfirst⟩, _⟩
    cases hresult : schema.checkAt allowed (tree.kind?.getD "") tree with
    | ok => exact absurd hfirst.1 (hreports.of_ok hresult)
    | error defect' =>
      obtain ⟨way', hfirst'⟩ := hreports.of_error hresult
      rw [hfirst.unique hfirst']

/-- What lies under an earlier field comes before a later field that is missing. -/
example : ((⟨[("If", ["test", "body"])]⟩ : Schema).validate []
    (.seq [.node "If" [("test", .leaf "Match")]])).mapError Defect.message =
      .error "unknown node kind Match at [0].test" := by
  decide

end Schema

end TreeText
