import TreeText.Proofs.Schema.Entries
import Mathlib.Data.List.Induction

/-!
# Schemas that are edited step by step

A schema can be replaced, by the empty one, the built-in one or that of a file, extended by the
latter two, and given single entries (`Edit`). A file that lists a field twice is found out only
when some of its entries have been taken up already; whether a step is performed or fails, it does
so wholly (`Edit.run_does`).

So after any number of steps what a kind's fields are is told by the steps that have been performed:
by the last one that gives the kind an entry, unless the schema was replaced since
(`Session.LastGave`). The invariant of a run is `Session.Sound`, and `session_of_edits` says all of
it at once, together with how the next step may fail.
-/

namespace TreeText

namespace Schema

/-! ## Edits -/

/-- A step that changes a schema. -/
inductive Edit where
  | clear
  | loadBuiltin
  /-- Replaces the schema by that of a file. -/
  | loadFile (text : String)
  | extendByFile (text : String)
  | extendByBuiltin
  | insert (kind : String) (fields : List String)

namespace Edit

/-- Changes the schema, or fails. What was changed before a fault stays changed. -/
def perform : Edit → ExceptT FileError (StateM Schema) Unit
  | .clear => set Schema.empty
  | .loadBuiltin => set builtin
  | .loadFile text => do
    let loaded ← MonadExcept.ofExcept (ofToml text)
    set loaded
  | .extendByFile text => do
    let newer ← MonadExcept.ofExcept (ofToml text)
    modify (·.extend newer)
  | .extendByBuiltin => modify (·.extend builtin)
  | .insert kind fields => do
    match (← get).insert kind fields with
    | .ok extended => set extended
    | .error fault => throw (.repeatedField fault)

/-- How a step ends for a schema, and the schema after it. -/
def run (edit : Edit) (schema : Schema) : Except FileError Unit × Schema :=
  edit.perform.run.run schema

/-- Whether a step leaves nothing of the schema before it. -/
def replaces : Edit → Bool
  | .clear => true
  | .loadBuiltin => true
  | .loadFile _ => true
  | _ => false

/-- A step gives these entries. If it is to take them from a text that is no schema file, there are
none. -/
def IsGiven : Edit → NameTable (List String) → Prop
  | .clear, entries => entries = []
  | .loadBuiltin, entries => entries = builtinEntries
  | .loadFile text, entries => FileLists text entries
  | .extendByFile text, entries => FileLists text entries
  | .extendByBuiltin, entries => entries = builtinEntries
  | .insert kind fields, entries => entries = [(kind, fields)]

theorem IsGiven.sorted {edit : Edit} {entries : NameTable (List String)}
    (h : edit.IsGiven entries) : NameTable.Sorted entries := by
  cases edit with
  | clear =>
    cases h
    exact .nil
  | loadBuiltin =>
    cases h
    exact builtinEntries_sorted
  | loadFile text => exact FileLists.sorted h
  | extendByFile text => exact FileLists.sorted h
  | extendByBuiltin =>
    cases h
    exact builtinEntries_sorted
  | insert kind fields =>
    cases h
    exact List.pairwise_singleton _ _

theorem IsGiven.unique {edit : Edit} {entries entries' : NameTable (List String)}
    (h : edit.IsGiven entries) (h' : edit.IsGiven entries') : entries = entries' := by
  cases edit with
  | loadFile text => exact FileLists.unique h h'
  | extendByFile text => exact FileLists.unique h h'
  | _ => exact Eq.trans h (Eq.symm h')

/-- What a step can do. It puts all entries that it is given over those that it leaves, or it leaves
the schema as it was: because the entries are refused, or because there are none to be read. -/
def Does (edit : Edit) (schema : Schema) : Except FileError Unit × Schema → Prop
  | (.ok (), after) => ∃ entries, edit.IsGiven entries ∧ (∀ entry ∈ entries, entry.2.Nodup) ∧
    after = ⟨NameTable.extend (if edit.replaces then [] else schema.entries) entries⟩
  | (.error (.repeatedField fault), after) => ∃ entries, edit.IsGiven entries ∧
    Refused entries fault ∧ after = schema
  | (.error .badFormat, after) => (∀ entries, ¬ edit.IsGiven entries) ∧ after = schema

theorem does_of_file {edit : Edit} {text : String} {schema : Schema} {put : Schema → Schema}
    (hgiven : ∀ entries, edit.IsGiven entries ↔ FileLists text entries)
    (hrun : edit.run schema =
      match ofToml text with
      | .ok loaded => (.ok (), put loaded)
      | .error fault => (.error fault, schema))
    (hput : ∀ entries, NameTable.Sorted entries → put ⟨entries⟩ =
      ⟨NameTable.extend (if edit.replaces then [] else schema.entries) entries⟩) :
    edit.Does schema (edit.run schema) := by
  rw [hrun]
  rcases ofToml_cases text with ⟨hnone, htoml⟩ | ⟨entries, hentries, hread⟩
  · rw [htoml]
    exact ⟨fun entries h => hnone entries ((hgiven entries).mp h), rfl⟩
  · have hlisted := (hgiven entries).mpr hentries
    rcases hread with ⟨hnodup, htoml⟩ | ⟨fault, hfault, htoml⟩
    · rw [htoml]
      exact ⟨entries, hlisted, hnodup, hput entries hentries.sorted⟩
    · rw [htoml]
      exact ⟨entries, hlisted, hfault, rfl⟩

theorem run_loadFile (text : String) (schema : Schema) :
    (Edit.loadFile text).run schema =
      match ofToml text with
      | .ok loaded => (.ok (), loaded)
      | .error fault => (.error fault, schema) := by
  rw [run, perform]
  cases ofToml text with
  | ok loaded => rfl
  | error fault => rfl

theorem run_extendByFile (text : String) (schema : Schema) :
    (Edit.extendByFile text).run schema =
      match ofToml text with
      | .ok newer => (.ok (), schema.extend newer)
      | .error fault => (.error fault, schema) := by
  rw [run, perform]
  cases ofToml text with
  | ok newer => rfl
  | error fault => rfl

theorem run_insert (kind : String) (fields : List String) (schema : Schema) :
    (Edit.insert kind fields).run schema =
      match firstRepeat? fields with
      | none => (.ok (), ⟨NameTable.insert kind fields schema.entries⟩)
      | some field => (.error (.repeatedField ⟨kind, field⟩), schema) := by
  have hinsert : (Edit.insert kind fields).run schema =
      (match schema.insert kind fields with
      | .ok extended => (set extended : ExceptT FileError (StateM Schema) Unit)
      | .error fault => throw (FileError.repeatedField fault)) schema := rfl
  rw [hinsert, Schema.insert]
  cases firstRepeat? fields with
  | none => rfl
  | some field => rfl

theorem run_does (edit : Edit) (schema : Schema) : edit.Does schema (edit.run schema) := by
  -- A table is what putting it over nothing gives.
  have hreplaced (entries : NameTable (List String)) (hentries : NameTable.Sorted entries) :
      (⟨entries⟩ : Schema) = ⟨NameTable.extend [] entries⟩ :=
    congrArg Schema.mk (NameTable.ofList_of_sorted hentries).symm
  cases edit with
  | clear => exact ⟨[], rfl, List.forall_mem_nil _, rfl⟩
  | loadBuiltin =>
    exact ⟨builtinEntries, rfl, nodup_of_mem_builtinEntries, hreplaced _ builtinEntries_sorted⟩
  | loadFile text => exact does_of_file (fun _ => .rfl) (run_loadFile text schema) hreplaced
  | extendByFile text =>
    exact does_of_file (fun _ => .rfl) (run_extendByFile text schema) fun _ _ => rfl
  | extendByBuiltin => exact ⟨builtinEntries, rfl, nodup_of_mem_builtinEntries, rfl⟩
  | insert kind fields =>
    rw [run_insert]
    cases hrepeat : firstRepeat? fields with
    | none =>
      have hfields := nodup_of_firstRepeat?_eq_none hrepeat
      exact ⟨[(kind, fields)], rfl, List.forall_mem_singleton.mpr hfields, rfl⟩
    | some field =>
      have hfields := firstRepeat_of_firstRepeat?_eq_some hrepeat
      refine ⟨[(kind, fields)], rfl, ⟨fields, List.mem_singleton_self _, hfields, ?_⟩, rfl⟩
      exact List.forall_mem_singleton.mpr fun _ => String.le_refl _

/-- A kind has this list among the entries that a step gives. -/
def Gives (edit : Edit) (kind : String) (fields : List String) : Prop :=
  ∃ entries, edit.IsGiven entries ∧ (kind, fields) ∈ entries

theorem IsGiven.gives_iff {edit : Edit} {entries : NameTable (List String)}
    (h : edit.IsGiven entries) {kind : String} {fields : List String} :
    edit.Gives kind fields ↔ (kind, fields) ∈ entries := by
  constructor
  · rintro ⟨entries', h', hmem⟩
    exact h.unique h' ▸ hmem
  · exact fun hmem => ⟨entries, h, hmem⟩

end Edit

/-! ## Runs -/

/-- Steps that have been taken one after the other: how each of them ended, the last one first, and
the schema that they have left. -/
structure Session where
  log : List (Edit × Except FileError Unit)
  schema : Schema

namespace Session

/-- Takes one more step. -/
def perform (session : Session) (edit : Edit) : Session :=
  let (outcome, schema) := edit.run session.schema
  ⟨(edit, outcome) :: session.log, schema⟩

/-- The steps, taken one after the other from the empty schema. -/
def of (edits : List Edit) : Session := edits.foldl perform ⟨[], empty⟩

/-- The last step that gave a list for this kind gave this one, and since then the schema has not
been replaced. Only steps that have been performed count. -/
def LastGave (log : List (Edit × Except FileError Unit)) (kind : String) (fields : List String) :
    Prop :=
  ∃ later edit earlier, log = later ++ (edit, .ok ()) :: earlier ∧ edit.Gives kind fields ∧
    ∀ other, (other, .ok ()) ∈ later → other.replaces = false ∧
      ∀ fields, ¬ other.Gives kind fields

variable {log : List (Edit × Except FileError Unit)} {edit : Edit} {kind : String}
  {fields : List String}

/-- A step that failed gave nothing. -/
theorem lastGave_cons_error {fault : FileError} :
    LastGave ((edit, .error fault) :: log) kind fields ↔ LastGave log kind fields := by
  constructor
  · rintro ⟨_ | ⟨first, later⟩, given, earlier, hlog, hgives, hlater⟩
    · cases hlog
    · cases hlog
      exact ⟨later, given, earlier, rfl, hgives, fun other hother =>
        hlater other (List.mem_cons_of_mem _ hother)⟩
  · rintro ⟨later, given, earlier, rfl, hgives, hlater⟩
    refine ⟨_ :: later, given, earlier, rfl, hgives, fun other hother => ?_⟩
    rcases List.mem_cons.mp hother with heq | hother
    · cases heq
    · exact hlater other hother

/-- A step that was performed decides about the kinds that it gave, and if it replaced the schema,
about all. -/
theorem lastGave_cons_ok :
    LastGave ((edit, .ok ()) :: log) kind fields ↔ edit.Gives kind fields ∨
      (∀ fields, ¬ edit.Gives kind fields) ∧ edit.replaces = false ∧ LastGave log kind fields := by
  constructor
  · rintro ⟨_ | ⟨first, later⟩, given, earlier, hlog, hgives, hlater⟩
    · cases hlog
      exact .inl hgives
    · cases hlog
      obtain ⟨hkept, hother⟩ := hlater edit List.mem_cons_self
      exact .inr ⟨hother, hkept, later, given, earlier, rfl, hgives, fun other hmem =>
        hlater other (List.mem_cons_of_mem _ hmem)⟩
  · rintro (hgives | ⟨hother, hkept, later, given, earlier, rfl, hgives, hlater⟩)
    · exact ⟨[], edit, log, rfl, hgives, fun _ hmem => absurd hmem List.not_mem_nil⟩
    · refine ⟨_ :: later, given, earlier, rfl, hgives, fun other hmem => ?_⟩
      rcases List.mem_cons.mp hmem with heq | hmem
      · cases heq
        exact ⟨hkept, hother⟩
      · exact hlater other hmem

/-- What holds of a session after every step. -/
structure Sound (session : Session) : Prop where
  sorted : NameTable.Sorted session.schema.entries
  nodup : ∀ entry ∈ session.schema.entries, entry.2.Nodup
  fields : ∀ kind fields, session.schema.fields? kind = some fields ↔
    LastGave session.log kind fields

theorem sound_start : Sound ⟨[], empty⟩ where
  sorted := .nil
  nodup := List.forall_mem_nil _
  fields kind fields := by
    constructor
    · intro h
      cases h
    · rintro ⟨later, edit, earlier, hlog, -⟩
      cases later <;> cases hlog

theorem Sound.cons_error {session : Session} (h : session.Sound) (fault : FileError) :
    Sound ⟨(edit, .error fault) :: session.log, session.schema⟩ where
  sorted := h.sorted
  nodup := h.nodup
  fields kind fields := (h.fields kind fields).trans lastGave_cons_error.symm

theorem Sound.cons_ok {session : Session} (h : session.Sound)
    {entries : NameTable (List String)} (hgiven : edit.IsGiven entries)
    (hnodup : ∀ entry ∈ entries, entry.2.Nodup) :
    Sound ⟨(edit, .ok ()) :: session.log,
      ⟨NameTable.extend (if edit.replaces then [] else session.schema.entries) entries⟩⟩ where
  sorted := by
    apply NameTable.extend_sorted
    split
    · exact .nil
    · exact h.sorted
  nodup entry hentry := by
    rcases NameTable.mem_of_mem_extend hentry with hnew | hold
    · exact hnodup entry hnew
    · split at hold
      · cases hold
      · exact h.nodup entry hold
  fields kind fields := by
    have hkept : (if edit.replaces then [] else session.schema.entries).lookup kind = some fields ↔
        edit.replaces = false ∧ LastGave session.log kind fields := by
      rw [← h.fields]
      cases edit.replaces with
      | true => simp
      | false => simp [fields?]
    rw [fields?, NameTable.lookup_extend_eq_some_iff hgiven.sorted, hkept,
      lastGave_cons_ok]
    simp only [hgiven.gives_iff]

theorem Sound.perform {session : Session} (h : session.Sound) (edit : Edit) :
    (session.perform edit).Sound := by
  have hdoes := edit.run_does session.schema
  rw [Session.perform]
  generalize edit.run session.schema = result at hdoes
  match result, hdoes with
  | (.error (.repeatedField fault), _), ⟨_, _, _, rfl⟩ => exact h.cons_error _
  | (.error .badFormat, _), ⟨_, rfl⟩ => exact h.cons_error _
  | (.ok (), _), ⟨entries, hgiven, hnodup, rfl⟩ => exact h.cons_ok hgiven hnodup

theorem of_concat (edits : List Edit) (edit : Edit) :
    Session.of (edits ++ [edit]) = (Session.of edits).perform edit := by
  rw [Session.of, Session.of, List.foldl_append]
  rfl

theorem sound_of (edits : List Edit) : (Session.of edits).Sound := by
  induction edits using List.reverseRecOn with
  | nil => exact sound_start
  | append_singleton edits edit ih =>
    rw [of_concat]
    exact ih.perform edit

theorem log_of (edits : List Edit) : (Session.of edits).log.map (·.1) = edits.reverse := by
  induction edits using List.reverseRecOn with
  | nil => rfl
  | append_singleton edits edit ih =>
    rw [of_concat, List.reverse_append, perform, List.map_cons, ih]
    rfl

end Session

theorem Refused.exists_not_nodup {entries : NameTable (List String)} {fault : RepeatedField}
    (h : Refused entries fault) : ∃ entry ∈ entries, ¬ entry.2.Nodup := by
  obtain ⟨fields, hmem, hfields, -⟩ := h
  exact ⟨_, hmem, hfields.not_nodup⟩

/-- How a step fails. -/
theorem Edit.Does.failure {edit : Edit} {schema after : Schema} {outcome : Except FileError Unit}
    (h : edit.Does schema (outcome, after)) :
    (outcome ≠ .ok () → after = schema) ∧
    (outcome = .error .badFormat ↔ ∀ entries, ¬ edit.IsGiven entries) ∧
    ∀ entries, edit.IsGiven entries →
      (outcome ≠ .ok () ↔ ∃ entry ∈ entries, ¬ entry.2.Nodup) ∧
      ∀ error, outcome = .error error → ∃ fault, error = .repeatedField fault ∧
        Refused entries fault := by
  match outcome, h with
  | .ok (), ⟨entries, hgiven, hnodup, _⟩ =>
    refine ⟨fun hfails => absurd rfl hfails, ⟨nofun, fun hnone => absurd hgiven (hnone entries)⟩,
      fun entries' hgiven' => ?_⟩
    rw [← hgiven.unique hgiven']
    refine ⟨⟨fun hfails => absurd rfl hfails, ?_⟩, nofun⟩
    rintro ⟨entry, hentry, hrepeats⟩
    exact absurd (hnodup entry hentry) hrepeats
  | .error (.repeatedField fault), ⟨entries, hgiven, hrefused, hafter⟩ =>
    refine ⟨fun _ => hafter, ⟨nofun, fun hnone => absurd hgiven (hnone entries)⟩,
      fun entries' hgiven' => ?_⟩
    rw [← hgiven.unique hgiven']
    refine ⟨⟨fun _ => hrefused.exists_not_nodup, nofun⟩, ?_⟩
    rintro _ ⟨⟩
    exact ⟨fault, rfl, hrefused⟩
  | .error .badFormat, ⟨hnone, hafter⟩ =>
    exact ⟨fun _ => hafter, ⟨fun _ => hnone, fun _ => rfl⟩,
      fun entries hgiven => absurd hgiven (hnone entries)⟩

theorem kinds_pairwise_lt {schema : Schema} (h : NameTable.Sorted schema.entries) :
    schema.kinds.Pairwise (· < ·) :=
  List.pairwise_map.mpr h

/-- **A schema holds what it was last given, whatever steps were taken.** After any steps from the
empty schema no kind lists a field twice, the kinds stand in order and are those that are known, and
a kind's fields are those that the last step gave that was performed and gave any, if the schema has
not been replaced since. A step that fails leaves the schema as it was. If the entries that it is
given can be read it fails just if one of them lists a field twice, and says so of the smallest such
kind and the first such field; if they cannot be read it says that. -/
theorem session_of_edits (edits : List Edit) :
    (∀ kind fields, (Session.of edits).schema.fields? kind = some fields → fields.Nodup) ∧
    (Session.of edits).schema.kinds.Pairwise (· < ·) ∧
    (∀ kind, kind ∈ (Session.of edits).schema.kinds ↔
      (Session.of edits).schema.contains kind = true) ∧
    (Session.of edits).schema.size = (Session.of edits).schema.kinds.length ∧
    (Session.of edits).log.map (·.1) = edits.reverse ∧
    (∀ kind fields, (Session.of edits).schema.fields? kind = some fields ↔
      Session.LastGave (Session.of edits).log kind fields) ∧
    ∀ edit : Edit, ∃ outcome schema, edit.run (Session.of edits).schema = (outcome, schema) ∧
      Session.of (edits ++ [edit]) = ⟨(edit, outcome) :: (Session.of edits).log, schema⟩ ∧
      (outcome ≠ .ok () → schema = (Session.of edits).schema) ∧
      (outcome = .error .badFormat ↔ ∀ entries, ¬ edit.IsGiven entries) ∧
      ∀ entries, edit.IsGiven entries →
        (outcome ≠ .ok () ↔ ∃ entry ∈ entries, ¬ entry.2.Nodup) ∧
        ∀ error, outcome = .error error → ∃ fault, error = .repeatedField fault ∧
          Refused entries fault := by
  have hsound := Session.sound_of edits
  refine ⟨?_, kinds_pairwise_lt hsound.sorted, ?_, ?_, Session.log_of edits, hsound.fields, ?_⟩
  · exact fun kind fields hfields => hsound.nodup _ (NameTable.mem_of_lookup hfields)
  · exact fun kind => NameTable.mem_keys_iff
  · exact (List.length_map _).symm
  · exact fun edit => ⟨_, _, rfl, Session.of_concat edits edit, (edit.run_does _).failure⟩

-- What is refused leaves the earlier entry of its kind.
example : (Session.of [.insert "B" ["x"], .insert "A" [], .insert "B" ["y", "y"]]).schema =
    ⟨[("A", []), ("B", ["x"])]⟩ := rfl

end Schema

end TreeText
