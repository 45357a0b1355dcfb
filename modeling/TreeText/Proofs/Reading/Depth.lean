import TreeText.Proofs.Reading.Likeness.Statement

/-!
# Reading at a depth

A text is read with one counter of levels, which every reading changes and hands on to the next.
Here reading is described once more without a state: the depth is handed down, so that all parts of
a construct are read at the depth which it gives them (`Reading.visit`).

Both come to the same (`Counted.runFrom_visit`). With the counter every reading, also one that
fails, ends at the depth that it started from; so what is read next finds the counter as if nothing
had been read before. What is to be shown of reading can therefore be shown of `Reading.visit`.
-/

namespace TreeText

/-! ## Visitors of the same nodes -/

/-- A node is alike to itself, if its children satisfy `P`. -/
theorem Cst.alike_self {P : Cst → Prop} {fault : Fault → Fault → Prop} {c : Cst}
    (hfault : ∀ cause, fault (c.fault cause) (c.fault cause)) (h : ∀ child ∈ c.children, P child) :
    c.Alike (fun a b => a = b ∧ P a) Eq Eq fault c where
  kind := rfl
  field := rfl
  isNamed := rfl
  start_start := rfl
  start_stop := rfl
  stop_start := rfl
  stop_stop := rfl
  fault := hfault
  seen := List.forall₂_same.mpr fun child hchild => ⟨rfl, h child (List.mem_filter.mp hchild).1⟩

namespace Reading

section

variable {m n : Type → Type} [Monad m] [MonadExceptOf Fault m] [LawfulReading m] [Monad n]
  [MonadExceptOf Fault n] [LawfulReading n] {source : Source} {f : Role → Cst → m Tree}
  {g : Role → Cst → n Tree} {readings : Comparison m n}

/-- Two visitors of one text whose readings of the nodes below a height agree. -/
def sameNodes (height : Nat) (hfault : readings.fault = Eq)
    (h : ∀ role c, c.height < height → Agree readings Eq (f role c) (g role c)) :
    Likeness ⟨source, f⟩ ⟨source, g⟩ := by
  refine .ofOneText readings (fun c d => c = d ∧ c.height < height) ?_ ?_
  · rintro c _ ⟨rfl, hc⟩
    exact Cst.alike_self (fun _ => hfault ▸ rfl) fun child hchild =>
      Nat.lt_trans (Cst.height_lt_of_mem hchild) hc
  · rintro c _ role ⟨rfl, hc⟩
    exact h role c hc

/-- Its parts are below a node, so its rule may be applied. -/
theorem sameNodes_alike {c : Cst} {hfault : readings.fault = Eq}
    {h : ∀ role part, part.height < c.height → Agree readings Eq (f role part) (g role part)} :
    (sameNodes c.height hfault h : Likeness ⟨source, f⟩ ⟨source, g⟩).Alike c c :=
  Cst.alike_self (fun _ => hfault ▸ rfl) fun _ => Cst.height_lt_of_mem

end

/-! ## Reading with the depth handed down -/

/-- Reads a node one level further down, unless that is too deep. -/
def nested (depth : Nat) (c : Cst) (read : Nat → Result Tree) : Result Tree :=
  if depth < nestingLimit then read (depth + 1)
  else .error (c.fault (.tooDeep nestingLimit))

variable (source : Source)

/-- Reads a node in a role at a depth, given how its parts are read at any depth. -/
def step (inner : Nat → Role → Cst → Result Tree) (depth : Nat) : Role → Cst → Result Tree
  | .statement, c => nested depth c fun depth => Visitor.statementForm ⟨source, inner depth⟩ c
  | .expression access, c =>
    nested depth c fun depth => Visitor.expressionForm ⟨source, inner depth⟩ access c
  | .typeHint, c =>
    Visitor.typeForm ⟨source, inner depth⟩
      (fun c => nested depth c fun depth => Visitor.expressionForm ⟨source, inner depth⟩ .load c) c
  | .formatSpec marks, c => Visitor.formatSpec ⟨source, inner depth⟩ marks c

/-- Reads a node in a role at a depth, in at most so many rounds. -/
def visit : (rounds : Nat) → (depth : Nat) → Role → Cst → Result Tree
  | 0, _, _, c => .error (c.fault (.tooDeep nestingLimit))
  | rounds + 1, depth, role, c => step source (visit rounds) depth role c

/-- Reads a node in a role at a depth. -/
def read (depth : Nat) (role : Role) (c : Cst) : Result Tree :=
  visit source c.height depth role c

/-- At the same depth both constructs are one level further down, or both are too deep. -/
theorem nested_agree_of_depth_eq {readings : Comparison Result Result} {depth : Nat} {c d : Cst}
    (hfault : readings.fault (c.fault (.tooDeep nestingLimit)) (d.fault (.tooDeep nestingLimit)))
    {x y : Result Tree} (h : Agree readings Eq x y) :
    Agree readings Eq (nested depth c fun _ => x) (nested depth d fun _ => y) := by
  rw [nested, nested]
  by_cases hdepth : depth < nestingLimit
  · rw [if_pos hdepth, if_pos hdepth]
    exact h
  · rw [if_neg hdepth, if_neg hdepth]
    exact .error hfault

/-- A rule of reading goes the same way for nodes that are alike, if going down one level does. -/
theorem step_agree_of_alike {source source' : Source}
    {inner inner' : Nat → Role → Cst → Result Tree} {depth depth' : Nat} {c d : Cst}
    (L : Likeness ⟨source, inner depth⟩ ⟨source', inner' depth'⟩)
    (Lbelow : Likeness ⟨source, inner (depth + 1)⟩ ⟨source', inner' (depth' + 1)⟩)
    (hreadings : Lbelow.readings = L.readings) (halike : L.Alike c d) (hbelow : Lbelow.Alike c d)
    (hnested : ∀ {x y : Result Tree}, L.Agree Eq x y →
      L.Agree Eq (nested depth c fun _ => x) (nested depth' d fun _ => y)) (role : Role) :
    L.Agree Eq (step source inner depth role c) (step source' inner' depth' role d) := by
  have hlevel {x y : Result Tree} (h : Lbelow.Agree Eq x y) :
      L.Agree Eq (nested depth c fun _ => x) (nested depth' d fun _ => y) := by
    rw [Likeness.Agree, hreadings] at h
    exact hnested h
  cases role with
  | statement => exact hlevel (Lbelow.statementForm_agree hbelow)
  | expression access => exact hlevel (Lbelow.expressionForm_agree access hbelow)
  | typeHint =>
    -- A type counts no level, but an expression in its place does.
    rw [step, step]
    exact L.typeForm_agree (hlevel (Lbelow.expressionForm_agree .load hbelow)) halike
  | formatSpec marks => exact L.formatSpec_agree marks halike

/-! ## Counting comes to the same -/

/-- What is read next starts from the depth that was left behind, unless a fault ends the
reading. -/
theorem Counted.runFrom_bind {α β : Type} {depth : Nat} (x : Counted α) (f : α → Counted β) :
    runFrom depth (x >>= f) =
      match x.runFrom depth with
      | (.ok a, next) => (f a).runFrom next
      | (.error e, next) => (.error e, next) := by
  show (ExceptT.bindCont f (x.runFrom depth).1 : StateM Nat (Result β)).run (x.runFrom depth).2 = _
  match x.runFrom depth with
  | (.ok a, next) => rfl
  | (.error e, next) => rfl

/-- A counted reading agrees with a result, if it comes to the result from this depth and leaves
the counter there. -/
def Comparison.counted (depth : Nat) : Comparison Counted Result where
  fault := Eq
  Holds R x y := ∃ result, x.runFrom depth = (result, depth) ∧ Comparison.strict.Holds R result y
  pure h := ⟨_, rfl, h⟩
  throw h := ⟨_, rfl, .inr h⟩
  bind := by
    rintro α β γ δ R S x y f g ⟨result, hx, h⟩ hfg
    rw [Counted.runFrom_bind, hx]
    match result, y, h with
    | .ok a, .ok b, h => exact hfg a b h
    | .error e, .error e', h => exact ⟨.error e, rfl, h⟩

theorem Agree.runFrom_eq {α : Type} {depth : Nat} {x : Counted α} {y : Result α}
    (h : Agree (.counted depth) Eq x y) : x.runFrom depth = (y, depth) := by
  obtain ⟨result, hx, h⟩ := h
  rw [hx, Agree.eq_of_strict h]

/-- The level that a node is read in is left again, with the node read and with a fault. -/
theorem Counted.runFrom_nested (depth : Nat) (c : Cst) (x : Counted Tree) :
    (Counted.nested c x).runFrom depth =
      (Reading.nested depth c fun depth => (x.runFrom depth).1, depth) := by
  show (if depth < nestingLimit then _ else _ : StateM Nat (Result Tree)).run depth = _
  rw [Reading.nested]
  split
  · rfl
  · rfl

theorem Agree.nested {depth : Nat} {c : Cst} {x : Counted Tree} {read : Nat → Result Tree}
    (h : Agree (.counted (depth + 1)) Eq x (read (depth + 1))) :
    Agree (.counted depth) Eq (Counted.nested c x) (nested depth c read) := by
  have hrun : (Counted.nested c x).runFrom depth = (Reading.nested depth c read, depth) := by
    rw [Counted.runFrom_nested, Reading.nested, Reading.nested, h.runFrom_eq]
  exact ⟨_, hrun, Agree.of_eq rfl fun _ => rfl⟩

namespace Counted

/-- All parts of a node are read from one depth, though each is read with what the one before it
left of the counter. -/
theorem step_agree {inner : Role → Cst → Counted Tree} {inner' : Nat → Role → Cst → Result Tree}
    (h : ∀ depth role c, Agree (.counted depth) Eq (inner role c) (inner' depth role c))
    (depth : Nat) (role : Role) (c : Cst) :
    Agree (.counted depth) Eq (Counted.step source inner role c)
      (Reading.step source inner' depth role c) := by
  let L (depth : Nat) : Likeness ⟨source, inner⟩ ⟨source, inner' depth⟩ :=
    sameNodes c.height rfl fun role part _ => h depth role part
  have halike (depth : Nat) : (L depth).Alike c c := sameNodes_alike
  rw [Counted.step.eq_def, Reading.step.eq_def]
  cases role with
  | statement =>
    refine .nested ?_
    exact (L (depth + 1)).statementForm_agree (halike (depth + 1))
  | expression access =>
    refine .nested ?_
    exact (L (depth + 1)).expressionForm_agree access (halike (depth + 1))
  | typeHint =>
    -- A type counts no level, but an expression in its place does.
    refine (L depth).typeForm_agree (.nested ?_) (halike depth)
    exact (L (depth + 1)).expressionForm_agree .load (halike (depth + 1))
  | formatSpec marks => exact (L depth).formatSpec_agree marks (halike depth)

theorem visit_agree (rounds depth : Nat) (role : Role) (c : Cst) :
    Agree (.counted depth) Eq (Counted.visit source rounds role c)
      (Reading.visit source rounds depth role c) := by
  induction rounds generalizing depth role c with
  | zero => exact .error rfl
  | succ rounds ih => exact step_agree source ih depth role c

/-- Reading with the counter comes to what reading comes to with the depth handed down, and leaves
the counter as it found it. -/
theorem runFrom_visit (rounds depth : Nat) (role : Role) (c : Cst) :
    (Counted.visit source rounds role c).runFrom depth =
      (Reading.visit source rounds depth role c, depth) :=
  (visit_agree source rounds depth role c).runFrom_eq

theorem runFrom_read (depth : Nat) (role : Role) (c : Cst) :
    (Counted.read source role c).runFrom depth = (Reading.read source depth role c, depth) :=
  runFrom_visit source c.height depth role c

/-- Reads every part from one depth, as the counter stands at it whatever was read before. -/
def visitorFrom (depth : Nat) : Visitor Result :=
  ⟨source, fun role c => ((Counted.read source role c).runFrom depth).1⟩

/-- A rule that hands the counter on from part to part does what it does if every part is read from
the depth that the rule is applied at. -/
def handedDown (depth : Nat) :
    Likeness ⟨source, Counted.read source⟩ (visitorFrom source depth) := by
  refine .ofOneText (.counted depth) Eq ?_ ?_
  · rintro c _ rfl
    have halike := Cst.alike_self (P := fun _ => True) (c := c) (fun _ => rfl) fun _ _ => trivial
    exact { halike with seen := halike.seen.imp fun _ _ => And.left }
  · rintro c _ role rfl
    refine ⟨_, ?_, Agree.of_eq rfl fun _ => rfl⟩
    rw [runFrom_read]

theorem handedDown_alike (depth : Nat) (c : Cst) : (handedDown source depth).Alike c c :=
  (handedDown source depth).alike rfl

end Counted

/-- Every statement of a text is read at the outermost level. -/
theorem program_eq (root : Cst) :
    program source root =
      if root.info.hasError then .error (syntaxFault source root)
      else do
        let body ← Visitor.block ⟨source, visit source root.height 0⟩ root
        return .record "Module" [("body", .seq body), ("type_ignores", .seq [])] := by
  let L : Likeness ⟨source, Counted.visit source root.height⟩
      ⟨source, visit source root.height 0⟩ :=
    sameNodes root.height rfl fun role c _ =>
      Counted.visit_agree source root.height 0 role c
  have halike : L.Alike root root := sameNodes_alike
  have hmodule := (L.block_agree halike).bindEq fun body =>
    Agree.pure (J := .counted 0) (R := Eq)
      (rfl : Tree.record "Module" [("body", .seq body), ("type_ignores", .seq [])] = _)
  rw [program, Counted.program, hmodule.runFrom_eq]

end Reading

end TreeText
