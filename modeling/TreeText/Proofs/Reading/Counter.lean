import TreeText.Proofs.Reading.Trivia

/-!
# The counter of levels is only a guard

The depth that a reading starts from decides whether the fault of too deep nesting ends it, and
nothing else: what is read at some depth is read just so at any lesser one (`visit_agree`). Since
every reading leaves the counter as it found it, all parts of a construct are read at one depth,
whatever was read before them (`read_eq_step`). `Counted.runFrom_read_of_le` says both of the
readings that share the counter.
-/

namespace TreeText

namespace Reading

/-! ## Starting from a lesser depth -/

/-- Results agree, unless the first reading has gone too deep. -/
abbrev Comparison.unlessTooDeep : Comparison Result Result :=
  .results Eq fun e => e.cause = .tooDeep nestingLimit

theorem Agree.of_excused {fault : Fault → Fault → Prop} {excused : Fault → Prop} {α β : Type}
    {R : α → β → Prop} {e : Fault} (h : excused e) (y : Result β) :
    Agree (.results fault excused) R (.error e) y := by
  cases y with
  | ok b => exact h
  | error e' => exact .inl h

theorem Agree.exists_eq_ok {fault : Fault → Fault → Prop} {excused : Fault → Prop} {α β : Type}
    {R : α → β → Prop} {a : α} {y : Result β} (h : Agree (.results fault excused) R (.ok a) y) :
    ∃ b, y = .ok b ∧ R a b := by
  cases y with
  | ok b => exact ⟨b, rfl, h⟩
  | error e => exact h.elim

theorem Agree.eq_ok {fault : Fault → Fault → Prop} {excused : Fault → Prop} {α : Type} {a : α}
    {y : Result α} (h : Agree (.results fault excused) Eq (.ok a) y) : y = .ok a := by
  obtain ⟨b, hy, hab⟩ := h.exists_eq_ok
  rw [hy, hab]

theorem Agree.eq_error {excused : Fault → Prop} {α β : Type} {R : α → β → Prop} {e : Fault}
    {y : Result β} (h : Agree (.results Eq excused) R (.error e) y) (he : ¬ excused e) :
    y = .error e := by
  cases y with
  | ok b => exact absurd h he
  | error e' =>
    rcases h with h | h
    · exact absurd h he
    · rw [h]

/-- A rule of reading goes the same way from two depths, if going down one level does, and the
readings of its parts do. -/
theorem step_agree {source : Source} {readings : Comparison Result Result}
    (hfault : readings.fault = Eq) {inner inner' : Nat → Role → Cst → Result Tree}
    {depth depth' : Nat} {c : Cst}
    (hnested : ∀ {x y : Result Tree}, Agree readings Eq x y →
      Agree readings Eq (nested depth c fun _ => x) (nested depth' c fun _ => y))
    (h : ∀ role part, part.height < c.height →
      Agree readings Eq (inner depth role part) (inner' depth' role part))
    (hbelow : ∀ role part, part.height < c.height →
      Agree readings Eq (inner (depth + 1) role part) (inner' (depth' + 1) role part))
    (role : Role) :
    Agree readings Eq (step source inner depth role c) (step source inner' depth' role c) :=
  step_agree_of_alike (sameNodes c.height hfault h) (sameNodes c.height hfault hbelow) rfl
    sameNodes_alike sameNodes_alike hnested role

/-- Going down one level from a lesser depth goes too deep only if it does from the greater one. -/
theorem nested_agree {depth depth' : Nat} (hle : depth' ≤ depth) {c : Cst} {x y : Result Tree}
    (h : Agree .unlessTooDeep Eq x y) :
    Agree .unlessTooDeep Eq (nested depth c fun _ => x) (nested depth' c fun _ => y) := by
  rw [nested, nested]
  by_cases hdepth : depth < nestingLimit
  · rw [if_pos hdepth, if_pos (Nat.lt_of_le_of_lt hle hdepth)]
    exact h
  · have htoo : (c.fault (.tooDeep nestingLimit)).cause = .tooDeep nestingLimit := rfl
    rw [if_neg hdepth]
    exact .of_excused htoo _

/-- The first reading may go too deep where the second does not; otherwise they are the same. -/
theorem visit_agree {source : Source} {rounds depth depth' : Nat} (hle : depth' ≤ depth)
    (role : Role) (c : Cst) :
    Agree .unlessTooDeep Eq (visit source rounds depth role c)
      (visit source rounds depth' role c) := by
  induction rounds generalizing depth depth' role c with
  | zero => exact .error rfl
  | succ rounds ih =>
    exact step_agree rfl (nested_agree hle) (fun role part _ => ih hle role part)
      (fun role part _ => ih (Nat.succ_le_succ hle) role part) role

/-! ## The parts of a construct -/

/-- Reading needs no bound on its rounds: it is what the rules make of itself. -/
theorem read_eq_step (source : Source) (depth : Nat) (role : Role) (c : Cst) :
    read source depth role c = step source (read source) depth role c := by
  obtain ⟨rounds, hrounds⟩ : ∃ rounds, c.height = rounds + 1 := by
    cases c
    exact ⟨_, rfl⟩
  have hparts (depth : Nat) (role : Role) (part : Cst) (hpart : part.height < c.height) :
      Agree .strict Eq (visit source rounds depth role part) (read source depth role part) := by
    refine .of_eq (visit_eq_of_bare_eq rfl ?_ (Nat.le_refl _)) fun _ => rfl
    omega
  -- The rounds that are left are enough for the parts, and so is the height of each.
  rw [read, hrounds, visit]
  exact (step_agree rfl (nested_agree_of_depth_eq rfl) (hparts depth) (hparts (depth + 1))
    role).eq_of_strict

namespace Counted

/-- A node is read as its rule says, with all its parts read from one depth. -/
theorem runFrom_read_eq_step (source : Source) (depth : Nat) (role : Role) (c : Cst) :
    (Counted.read source role c).runFrom depth =
      (Reading.step source (fun depth => (visitorFrom source depth).visit) depth role c,
        depth) := by
  simp only [visitorFrom, runFrom_read]
  rw [read_eq_step]

/-- A node is read as its rule says, with the counter handed on from part to part. -/
theorem runFrom_read_step (source : Source) (depth : Nat) (role : Role) (c : Cst) :
    (Counted.read source role c).runFrom depth =
      (Counted.step source (Counted.read source) role c).runFrom depth := by
  have hpart (depth : Nat) (role : Role) (part : Cst) :
      Agree (.counted depth) Eq (Counted.read source role part)
        ((visitorFrom source depth).visit role part) :=
    (handedDown source depth).visit role rfl
  rw [runFrom_read_eq_step, (step_agree source hpart depth role c).runFrom_eq]

/-- An expression is read as its rule says, one level further down. -/
theorem runFrom_read_expression (source : Source) (depth : Nat) (access : Access) (c : Cst) :
    (Counted.read source (.expression access) c).runFrom depth =
      (nested c (Visitor.expressionForm ⟨source, Counted.read source⟩ access c)).runFrom depth :=
  runFrom_read_step source depth (.expression access) c

/-- A statement is read as its rule says, one level further down. -/
theorem runFrom_read_statement (source : Source) (depth : Nat) (c : Cst) :
    (Counted.read source .statement c).runFrom depth =
      (nested c (Visitor.statementForm ⟨source, Counted.read source⟩ c)).runFrom depth :=
  runFrom_read_step source depth .statement c

/-- The counter of levels is only a guard. What is read from some depth, or is found faulty for any
other reason than that it lies too deep, comes to the same from any lesser depth. Every reading
leaves the counter as it found it, so each rule reads all parts of its construct from one depth. -/
theorem runFrom_read_of_le (source : Source) (role : Role) (c : Cst) {depth depth' : Nat}
    (hle : depth' ≤ depth) :
    (∀ tree, ((Counted.read source role c).runFrom depth).1 = .ok tree →
      ((Counted.read source role c).runFrom depth').1 = .ok tree) ∧
    (∀ fault, ((Counted.read source role c).runFrom depth).1 = .error fault →
      fault.cause ≠ .tooDeep nestingLimit →
      ((Counted.read source role c).runFrom depth').1 = .error fault) ∧
    ((Counted.read source role c).runFrom depth).2 = depth ∧
    ((Counted.read source role c).runFrom depth).1 =
      Reading.step source (fun depth role part => ((Counted.read source role part).runFrom depth).1)
        depth role c := by
  simp only [runFrom_read]
  have hagree : Agree .unlessTooDeep Eq (Reading.read source depth role c)
      (Reading.read source depth' role c) := Reading.visit_agree hle role c
  refine ⟨?_, ?_, trivial, read_eq_step source depth role c⟩
  · intro tree htree
    rw [htree] at hagree
    exact hagree.eq_ok
  · intro fault hfault hcause
    rw [hfault] at hagree
    exact hagree.eq_error hcause

/-- The name in a text that puts it in parentheses. -/
def namePart : Cst := .sound "identifier" none true 1 2 0 1 []

/-- The parentheses of this text, with these parts between them. -/
def parentheses (parts : List Cst) : Cst :=
  .sound "parenthesized_expression" none true 0 3 0 0 parts

/-- Reads the parentheses of a text. -/
def readParentheses (parts : List Cst) : Counted Tree :=
  Counted.read (.ofText CharacterName.noNames "(x)") (.expression .load) (parentheses parts)

/-- From 998 levels down there is room for parentheses and a name in them, and so there is from any
lesser depth. One level further down there is not; the counter is left at that level all the same.
Empty parentheses are faulty wherever they are read. -/
theorem runFrom_readParentheses :
    3 ≤ 998 ∧
    ((readParentheses [namePart]).runFrom 998).1 = .ok (.name "x" .load) ∧
    ((readParentheses [namePart]).runFrom 3).1 = .ok (.name "x" .load) ∧
    (readParentheses [namePart]).runFrom 999 =
      (.error (namePart.fault (.tooDeep nestingLimit)), 999) ∧
    ((readParentheses []).runFrom 998).1 =
      .error ((parentheses []).fault (.empty "parenthesized_expression")) ∧
    ((readParentheses []).runFrom 3).1 =
      .error ((parentheses []).fault (.empty "parenthesized_expression")) := by
  have hle : 3 ≤ 998 := by decide
  refine ⟨hle, rfl, ?_, rfl, rfl, ?_⟩
  · exact (runFrom_read_of_le _ _ _ hle).1 _ rfl
  · exact (runFrom_read_of_le _ _ _ hle).2.1 _ rfl nofun

end Counted

end Reading

end TreeText
