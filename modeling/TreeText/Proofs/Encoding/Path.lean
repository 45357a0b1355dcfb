import TreeText.Proofs.Encoding.Visit

/-!
# The path of a check

Validation keeps the path to what it looks at on a buffer, which it changes on its way. Here the
path is handed down instead (`Schema.checkAt`), and the two are shown to agree
(`Schema.comesTo_validateAt`). Two facts make it so. A check that passes leaves the buffer as it
found it: what was put behind the path for an item is cut off again (`truncate_append`), and what a
node writes for its fields stands on a buffer of its own. And an empty buffer can only be that of
the root, so looking whether it is empty tells a root apart from the trees below
(`Tree.pathFrom`).
-/

namespace TreeText

/-! ## Checks on a buffer -/

namespace Check

/-- From this path on the buffer a check comes to this result. If it passes, the buffer is again as
it was. -/
def ComesTo (check : Check) (path : String) (result : Except Defect Unit) : Prop :=
  (check.runFrom path).1 = result ∧ (result = .ok () → (check.runFrom path).2 = path)

theorem truncate_append (path more : String) : truncate (path ++ more) path.length = path := by
  rw [truncate, String.toList_append, ← String.length_toList, List.take_left, String.ofList_toList]

theorem runFrom_bind (path : String) (check next : Check) :
    Check.runFrom path (check >>= fun _ => next) =
      match check.runFrom path with
      | (.ok (), left) => next.runFrom left
      | (.error defect, left) => (.error defect, left) := by
  unfold Check.runFrom ExceptT.run StateT.run
  simp only [bind, ExceptT.bind, ExceptT.mk, StateT.bind]
  cases check path with
  | mk result left =>
    cases result with
    | error defect => rfl
    | ok _ => rfl

variable {check next : Check} {path : String} {result : Except Defect Unit}

theorem ComesTo.runFrom_eq (h : check.ComesTo path (.ok ())) :
    check.runFrom path = (.ok (), path) :=
  Prod.ext h.1 (h.2 rfl)

theorem ComesTo.exists_runFrom_eq {defect : Defect} (h : check.ComesTo path (.error defect)) :
    ∃ left, check.runFrom path = (.error defect, left) :=
  ⟨_, Prod.ext h.1 rfl⟩

/-- A check that passes is followed by the next one, from the same path. -/
theorem ComesTo.bind (h : check.ComesTo path (.ok ())) (hnext : next.ComesTo path result) :
    ComesTo (check >>= fun _ => next) path result := by
  rw [ComesTo, runFrom_bind, h.runFrom_eq]
  exact hnext

/-- A check that fails is not followed by another. -/
theorem ComesTo.bind_error {defect : Defect} (h : check.ComesTo path (.error defect)) :
    ComesTo (check >>= fun _ => next) path (.error defect) := by
  obtain ⟨left, hleft⟩ := h.exists_runFrom_eq
  rw [ComesTo, runFrom_bind, hleft]
  exact ⟨rfl, nofun⟩

theorem comesTo_withPath {inner : String} (h : check.ComesTo inner result) :
    (withPath inner check).ComesTo path result :=
  ⟨h.1, fun _ => rfl⟩

end Check

/-! ## The path handed down -/

/-- The path of a tree that is looked at with this path on the buffer. Only a root finds it empty,
and goes by its kind. -/
def Tree.pathFrom (tree : Tree) (path : String) : String :=
  if path.isEmpty then tree.kind?.getD "" else path

/-- A path that something was put behind is not that of a root. -/
theorem Tree.pathFrom_append (tree : Tree) (path more : String) (h : more ≠ "") :
    tree.pathFrom (path ++ more) = path ++ more := by
  have hlonger : (path ++ more).isEmpty = false := by
    rw [String.isEmpty_eq_false_iff, ne_eq, String.append_eq_empty_iff]
    exact fun hempty => h hempty.2
  rw [Tree.pathFrom, hlonger]
  rfl

theorem Tree.pathFrom_seq (items : List Tree) (path : String) :
    (Tree.seq items).pathFrom path = path := by
  rw [Tree.pathFrom]
  split
  · next hempty => exact (String.isEmpty_iff.mp hempty).symm
  · rfl

namespace Schema

variable (schema : Schema) (allowed : List String)

/-- Checks the listed fields of the node at `here` in order, given what is found in each field it
has. -/
def checkListed (kind here : String) (found : NameTable (Except Defect Unit)) :
    List String → Except Defect Unit
  | [] => .ok ()
  | name :: rest =>
    match found.lookup name with
    | none => .error (.missingField kind name here)
    | some (.error defect) => .error defect
    | some (.ok ()) => checkListed kind here found rest

mutual

/-- Checks the tree at `here`. -/
def checkAt (here : String) : Tree → Except Defect Unit
  | .absent => .ok ()
  | .str _ => .ok ()
  | .seq items => checkItems here 0 items
  | .node kind fields =>
    match schema.fields? kind with
    | none => if kind ∈ allowed then .ok () else .error (.unknownKind kind here)
    | some names => checkListed kind here (checkFields here fields) names

/-- Checks the items from number `index` on of the sequence at `here`. -/
def checkItems (here : String) (index : Nat) : List Tree → Except Defect Unit
  | [] => .ok ()
  | item :: rest =>
    match checkAt (here ++ ("[" ++ toString index ++ "]")) item with
    | .error defect => .error defect
    | .ok () => checkItems here (index + 1) rest

/-- Checks the value of each field of the node at `here`. -/
def checkFields (here : String) : List (String × Tree) → NameTable (Except Defect Unit)
  | [] => []
  | (name, value) :: rest =>
    (name, checkAt (here ++ "." ++ name) value) :: checkFields here rest

end

theorem lookup_checkFields (here : String) (fields : List (String × Tree)) (name : String) :
    (schema.checkFields allowed here fields).lookup name =
      (fields.lookup name).map (schema.checkAt allowed (here ++ "." ++ name)) :=
  NameTable.lookup_of_eachPair (fun name => schema.checkAt allowed (here ++ "." ++ name)) rfl
    (fun _ _ _ => rfl) fields name

theorem lookup_validateFields (here : String) (fields : List (String × Tree)) (name : String) :
    (schema.validateFields allowed here fields).lookup name =
      (fields.lookup name).map fun value =>
        .withPath (here ++ "." ++ name) (schema.validateAt allowed value) :=
  NameTable.lookup_of_eachPair (fun name value =>
    Check.withPath (here ++ "." ++ name) (schema.validateAt allowed value)) rfl
    (fun _ _ _ => rfl) fields name

/-! ## The two agree -/

theorem validateItems_cons (index : Nat) (item : Tree) (rest : List Tree) (path : String) :
    (schema.validateItems allowed index (item :: rest)).runFrom path =
      match (schema.validateAt allowed item).runFrom (path ++ ("[" ++ toString index ++ "]")) with
      | (.ok (), longer) => (schema.validateItems allowed (index + 1) rest).runFrom
          (Check.truncate longer path.length)
      | (.error defect, longer) => (.error defect, longer) := by
  rw [validateItems]
  exact Check.runFrom_bind (path ++ ("[" ++ toString index ++ "]")) (schema.validateAt allowed item)
    (do
      modify (Check.truncate · path.length)
      schema.validateItems allowed (index + 1) rest)

/-- The items of a sequence are checked as with the path handed down, if each of them is. -/
theorem comesTo_validateItems {items : List Tree}
    (h : ∀ item ∈ items, ∀ path, (schema.validateAt allowed item).ComesTo path
      (schema.checkAt allowed (item.pathFrom path) item)) (path : String) (index : Nat) :
    (schema.validateItems allowed index items).ComesTo path
      (schema.checkItems allowed path index items) := by
  induction items generalizing index with
  | nil =>
    rw [validateItems, checkItems]
    exact ⟨rfl, fun _ => rfl⟩
  | cons item rest ih =>
    obtain ⟨hitem, hrest⟩ := List.forall_mem_cons.mp h
    have hfirst := hitem (path ++ ("[" ++ toString index ++ "]"))
    rw [Tree.pathFrom_append item path _ (by simp)] at hfirst
    rw [Check.ComesTo, validateItems_cons, checkItems]
    cases hresult : schema.checkAt allowed (path ++ ("[" ++ toString index ++ "]")) item with
    | ok =>
      rw [hresult] at hfirst
      -- What was put behind the path for the item is cut off.
      rw [hfirst.runFrom_eq]
      dsimp only
      rw [Check.truncate_append]
      exact ih hrest (index + 1)
    | error defect =>
      rw [hresult] at hfirst
      obtain ⟨left, hleft⟩ := hfirst.exists_runFrom_eq
      rw [hleft]
      exact ⟨rfl, nofun⟩

/-- The listed fields of a node are checked as with the path handed down, if each value is. -/
theorem comesTo_validateListed {fields : List (String × Tree)}
    (h : ∀ pair ∈ fields, ∀ path, (schema.validateAt allowed pair.2).ComesTo path
      (schema.checkAt allowed (pair.2.pathFrom path) pair.2)) (path kind here : String)
    (names : List String) :
    (validateListed kind here (schema.validateFields allowed here fields) names).ComesTo path
      (checkListed kind here (schema.checkFields allowed here fields) names) := by
  induction names with
  | nil => exact ⟨rfl, fun _ => rfl⟩
  | cons name rest ih =>
    rw [validateListed, checkListed, lookup_validateFields, lookup_checkFields]
    cases hvalue : fields.lookup name with
    | none => exact ⟨rfl, nofun⟩
    | some value =>
      have hinner := h _ (NameTable.mem_of_lookup hvalue) (here ++ "." ++ name)
      rw [String.append_assoc, Tree.pathFrom_append value here _ (by simp), ← String.append_assoc]
        at hinner
      dsimp only [Option.map_some]
      cases hresult : schema.checkAt allowed (here ++ "." ++ name) value with
      | ok =>
        rw [hresult] at hinner
        exact (Check.comesTo_withPath hinner).bind ih
      | error defect =>
        rw [hresult] at hinner
        exact (Check.comesTo_withPath hinner).bind_error

/-- **A check with a buffer comes to what it does with the path handed down**, and if it passes it
leaves the buffer as it found it. -/
theorem comesTo_validateAt (tree : Tree) (path : String) :
    (schema.validateAt allowed tree).ComesTo path
      (schema.checkAt allowed (tree.pathFrom path) tree) := by
  induction tree using Tree.induction generalizing path with
  | absent =>
    rw [validateAt, checkAt]
    exact ⟨rfl, fun _ => rfl⟩
  | str text =>
    rw [validateAt, checkAt]
    exact ⟨rfl, fun _ => rfl⟩
  | seq items ih =>
    rw [validateAt, checkAt, Tree.pathFrom_seq]
    exact schema.comesTo_validateItems allowed ih path 0
  | node kind fields ih =>
    have hhere : (if path.isEmpty then kind else path) =
        (Tree.node kind fields).pathFrom path := rfl
    have hnode : (schema.validateAt allowed (.node kind fields)).runFrom path =
        (match schema.fields? kind with
        | none =>
          if kind ∈ allowed then pure ()
          else throw (.unknownKind kind ((Tree.node kind fields).pathFrom path))
        | some names => validateListed kind ((Tree.node kind fields).pathFrom path)
            (schema.validateFields allowed ((Tree.node kind fields).pathFrom path) fields) names :
          Check).runFrom path := by
      rw [validateAt]
      rfl
    rw [Check.ComesTo, hnode, checkAt]
    cases schema.fields? kind with
    | none =>
      dsimp only
      split
      · exact ⟨rfl, fun _ => rfl⟩
      · exact ⟨rfl, nofun⟩
    | some names => exact schema.comesTo_validateListed allowed ih path kind _ names

/-- The root of a tree is checked at its kind, or at no path if it has none. -/
theorem validate_eq_checkAt (tree : Tree) :
    schema.validate allowed tree = schema.checkAt allowed (tree.kind?.getD "") tree :=
  (schema.comesTo_validateAt allowed tree "").1

end Schema

end TreeText
