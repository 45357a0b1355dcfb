import TreeText.Proofs.Reading.Operator

/-!
# Logical operators are flattened

Reading keeps the operands of a logical operator that are still to be read on a stack. A node on top
of it that the same operator joins is replaced by its own two operands; any other is read. What the
loop comes to on a stack is what its nodes come to one after the other, each by recursion
(`operandValues_eq_mapM`), so it does the same as the recursion that goes down the left operand and
then down the right one (`booleanOperation_eq_recursiveLogical`).

`Cst.Operands` lists the operands of a chain without reading any of them. A chain is read by reading
these, in this order and all from the depth at which the chain stands, however long it is: only the
whole of it counts as a level of nesting (`runFrom_booleanOperation`).
-/

namespace TreeText

/-- The node of a logical operator with these values. -/
def Tree.logical (operator : String) (values : List Tree) : Tree :=
  .record "BoolOp"
    [("op", .leaf (if operator = "and" then "And" else "Or")), ("values", .seq values)]

/-! ## By recursion -/

namespace Visitor

section

variable {m : Type → Type} [Monad m] [MonadExceptOf Fault m] (v : Visitor m)

/-- The values of an operand: of a node that the operator joins, those on its left and then those on
its right; of any other, its own. Both sides of a node are looked up before either is read. -/
def flattened (operator : String) (c : Cst) : m (List Tree) :=
  if v.joinsBy operator c then
    match _hright : c.child? "right" with
    | none => throw (c.fault (.missingField c.kind "right"))
    | some right =>
      match _hleft : c.child? "left" with
      | none => throw (c.fault (.missingField c.kind "left"))
      | some left => do
        let before ← flattened operator left
        let after ← flattened operator right
        return before ++ after
  else do
    return [← v.load c]
termination_by c.height
decreasing_by
  · exact Cst.height_lt_of_child? _hleft
  · exact Cst.height_lt_of_child? _hright

/-- A logical operator of two operands, with all operands that it joins, by recursion. -/
def recursiveLogical (c : Cst) : m Tree := do
  let operator := v.text (← c.require "operator")
  return .logical operator (← v.flattened operator c)

variable {v} {operator : String} {c : Cst}

theorem flattened_of_not_joinsBy (h : v.joinsBy operator c = false) :
    v.flattened operator c = (do return [← v.load c]) := by
  rw [flattened, if_neg (by simp [h])]

variable [LawfulReading m]

theorem flattened_of_joinsBy (h : v.joinsBy operator c = true) :
    v.flattened operator c = (do
      let right ← c.require "right"
      let left ← c.require "left"
      let before ← v.flattened operator left
      let after ← v.flattened operator right
      return before ++ after) := by
  rw [flattened, if_pos h]
  split
  · next hright => rw [Cst.require_of_none hright, LawfulReading.throw_bind]
  · next hright =>
    rw [Cst.require_of_some hright, pure_bind]
    split
    · next hleft => rw [Cst.require_of_none hleft, LawfulReading.throw_bind]
    · next hleft => rw [Cst.require_of_some hleft, pure_bind]

/-- What the loop comes to on a stack is what the nodes on it come to one after the other. -/
theorem operandValues_eq_mapM (nodes : List Cst) :
    v.operandValues operator nodes = (do
      let lists ← nodes.mapM (v.flattened operator)
      return lists.flatten) := by
  induction nodes using operandValues.induct v operator with
  | case1 => simp [operandValues]
  | case2 c pending hjoins hright =>
    rw [operandValues_of_joinsBy hjoins, List.mapM_cons, flattened_of_joinsBy hjoins,
      Cst.require_of_none hright]
    simp only [LawfulReading.throw_bind]
  | case3 c pending hjoins right hright hleft =>
    rw [operandValues_of_joinsBy hjoins, List.mapM_cons, flattened_of_joinsBy hjoins,
      Cst.require_of_some hright, Cst.require_of_none hleft]
    simp only [pure_bind, LawfulReading.throw_bind]
  | case4 c pending hjoins right hright left hleft ih =>
    rw [operandValues_of_joinsBy hjoins, List.mapM_cons, flattened_of_joinsBy hjoins,
      Cst.require_of_some hright, Cst.require_of_some hleft]
    -- The two operands that stand in place of the node are the first on the stack.
    simp only [pure_bind, bind_assoc, ih, List.mapM_cons, List.flatten_cons, List.append_assoc]
  | case5 c pending hjoins ih =>
    have hjoins : v.joinsBy operator c = false := by simpa using hjoins
    rw [operandValues_of_not_joinsBy hjoins, List.mapM_cons, flattened_of_not_joinsBy hjoins]
    simp only [pure_bind, bind_assoc, ih, List.flatten_cons, List.singleton_append]

/-- The loop does what the recursion does, in any monad: it reads the same operands in the same
order, and ends with the same tree or the same fault. -/
theorem booleanOperation_eq_recursiveLogical (v : Visitor m) (c : Cst) :
    v.booleanOperation c = v.recursiveLogical c := by
  simp only [booleanOperation, recursiveLogical, operandValues_eq_mapM, List.mapM_cons,
    List.mapM_nil, bind_assoc, pure_bind, List.flatten_cons, List.flatten_nil, List.append_nil,
    Tree.logical]

end

end Visitor

/-! ## The operands of a chain -/

namespace Cst

variable {source : Source} {operator : String} {c d : Cst} {operands : List Cst}

/-- A node joins two operands by this logical operator. -/
def IsJoin (source : Source) (operator : String) (c : Cst) : Prop :=
  c.kind = "boolean_operator" ∧
    ∃ token, c.child? "operator" = some token ∧ token.text source = operator

/-- The operands that a logical operator joins in a node, in the order of the source: if it joins
the node itself, those on the left and then those on the right; otherwise the node alone. -/
inductive Operands (source : Source) (operator : String) : Cst → List Cst → Prop
  | single {c : Cst} (hjoin : ¬ c.IsJoin source operator) : Operands source operator c [c]
  | joined {c left right : Cst} {before after : List Cst} (hjoin : c.IsJoin source operator)
    (hleft : c.child? "left" = some left) (hright : c.child? "right" = some right)
    (hbefore : Operands source operator left before)
    (hafter : Operands source operator right after) : Operands source operator c (before ++ after)

theorem Operands.length_pos (h : c.Operands source operator operands) : 0 < operands.length := by
  induction h with
  | single => exact Nat.one_pos
  | joined _ _ _ _ _ ihbefore =>
    rw [List.length_append]
    exact Nat.add_pos_left ihbefore _

/-- A node that the operator joins has operands on either side. -/
theorem Operands.two_le_length (h : c.Operands source operator operands)
    (hjoin : c.IsJoin source operator) : 2 ≤ operands.length := by
  cases h with
  | single hnot => exact absurd hjoin hnot
  | joined _ _ _ hbefore hafter =>
    rw [List.length_append]
    exact Nat.add_le_add hbefore.length_pos hafter.length_pos

/-- Operands are maximal: the operator joins none of them further. -/
theorem Operands.not_isJoin (h : c.Operands source operator operands) (hd : d ∈ operands) :
    ¬ d.IsJoin source operator := by
  induction h with
  | single hnot =>
    cases List.mem_singleton.mp hd
    exact hnot
  | joined _ _ _ _ _ ihbefore ihafter =>
    rcases List.mem_append.mp hd with hd | hd
    · exact ihbefore hd
    · exact ihafter hd

end Cst

namespace Visitor

open Reading (Result bind_eq_ok_iff)

section

variable {m : Type → Type} {v : Visitor m} {operator : String} {c : Cst} {operands : List Cst}

theorem joinsBy_iff : v.joinsBy operator c = true ↔ c.IsJoin v.source operator := by
  rw [joinsBy, Bool.and_eq_true, beq_iff_eq, Cst.IsJoin]
  refine and_congr_right fun _ => ?_
  cases c.child? "operator" with
  | none => simp
  | some token => simp [text]

theorem joinsBy_eq_false_iff : v.joinsBy operator c = false ↔ ¬ c.IsJoin v.source operator := by
  rw [← joinsBy_iff, Bool.not_eq_true]

/-- Operands are read one after the other, each in its place. -/
theorem flattened_eq_elements [Monad m] [MonadExceptOf Fault m] [LawfulReading m]
    (h : c.Operands v.source operator operands) :
    v.flattened operator c = v.elements .load operands := by
  induction h with
  | single hnot =>
    rw [flattened_of_not_joinsBy (joinsBy_eq_false_iff.mpr hnot), elements, List.mapM_cons,
      List.mapM_nil]
    simp only [pure_bind, load]
  | joined hjoin hleft hright _ _ ihbefore ihafter =>
    rw [flattened_of_joinsBy (joinsBy_iff.mpr hjoin), Cst.require_of_some hright,
      Cst.require_of_some hleft, elements, List.mapM_append]
    simp only [pure_bind, ihbefore, ihafter, elements]

end

/-- Where no side of a node is missing, there is a list of operands; only there are values read. -/
theorem exists_operands_of_flattened {v : Visitor Result} {operator : String} {c : Cst}
    {values : List Tree} (h : v.flattened operator c = .ok values) :
    ∃ operands, c.Operands v.source operator operands := by
  by_cases hjoin : c.IsJoin v.source operator
  · rw [flattened_of_joinsBy (joinsBy_iff.mpr hjoin)] at h
    simp only [bind_eq_ok_iff, Cst.require_eq_ok_iff] at h
    obtain ⟨right, hright, left, hleft, before, hbefore, after, hafter, -⟩ := h
    obtain ⟨operands, hoperands⟩ := exists_operands_of_flattened hbefore
    obtain ⟨operands', hoperands'⟩ := exists_operands_of_flattened hafter
    exact ⟨_, .joined hjoin hleft hright hoperands hoperands'⟩
  · exact ⟨[c], .single hjoin⟩
termination_by c.height
decreasing_by all_goals exact Cst.height_lt_of_child? ‹_›

theorem expressionForm_of_boolean_operator {m : Type → Type} [Monad m] [MonadExceptOf Fault m]
    (v : Visitor m) {c : Cst} (hkind : c.kind = "boolean_operator") (access : Access) :
    v.expressionForm access c = v.booleanOperation c := by
  rw [expressionForm, hkind]
  rfl

end Visitor

/-! ## Chains at a depth -/

namespace Reading

namespace Counted

variable (source : Source)

/-- **Chains of a logical operator are flattened, and cost one level of nesting.** The loop over the
stack comes to the same tree, or the same fault, as the recursion that goes down the left operand of
every node that the operator joins and then down the right one, all other operands being read from
the depth at which the chain stands. So where no side is missing the values of the chain are those
of its operands in the order of the source, at least two, none of which the operator joins further;
and where one is, the chain is not read. -/
theorem runFrom_booleanOperation {c : Cst} (hkind : c.kind = "boolean_operator") (depth : Nat) :
    (Visitor.booleanOperation ⟨source, Counted.read source⟩ c).runFrom depth =
      ((visitorFrom source depth).recursiveLogical c, depth) ∧
    (∀ token operands, c.child? "operator" = some token →
      c.Operands source (token.text source) operands →
      2 ≤ operands.length ∧ (∀ d ∈ operands, ¬ d.IsJoin source (token.text source)) ∧
      ((Visitor.booleanOperation ⟨source, Counted.read source⟩ c).runFrom depth).1 =
        (operands.mapM fun d => ((Counted.read source (.expression .load) d).runFrom depth).1).map
          (Tree.logical (token.text source))) ∧
    (∀ tree, ((Visitor.booleanOperation ⟨source, Counted.read source⟩ c).runFrom depth).1 =
      .ok tree → ∃ token operands, c.child? "operator" = some token ∧
        c.Operands source (token.text source) operands) ∧
    (∀ access, (Counted.read source (.expression access) c).runFrom depth =
      (nested c (Visitor.booleanOperation ⟨source, Counted.read source⟩ c)).runFrom depth) := by
  have hloop (depth : Nat) :
      (Visitor.booleanOperation ⟨source, Counted.read source⟩ c).runFrom depth =
        ((visitorFrom source depth).recursiveLogical c, depth) := by
    rw [← Visitor.booleanOperation_eq_recursiveLogical]
    exact ((handedDown source depth).booleanOperation_agree
      (handedDown_alike source depth c) hkind).runFrom_eq
  refine ⟨hloop depth, ?_, ?_, ?_⟩
  · intro token operands htoken hoperands
    have hjoin : c.IsJoin source (token.text source) := ⟨hkind, token, htoken, rfl⟩
    refine ⟨hoperands.two_le_length hjoin, fun d => hoperands.not_isJoin, ?_⟩
    have hflat := Visitor.flattened_eq_elements (v := visitorFrom source depth) hoperands
    rw [hloop, Visitor.recursiveLogical, Cst.require_of_some htoken]
    show (do
      let values ← (visitorFrom source depth).flattened (token.text source) c
      return Tree.logical (token.text source) values) = _
    rw [hflat]
    rfl
  · intro tree htree
    rw [hloop] at htree
    obtain ⟨token, htoken, htree⟩ := exists_of_bind_eq_ok htree
    obtain ⟨values, hvalues, -⟩ := exists_of_bind_eq_ok htree
    obtain ⟨operands, hoperands⟩ := Visitor.exists_operands_of_flattened hvalues
    exact ⟨token, operands, Cst.require_eq_ok_iff.mp htoken, hoperands⟩
  · intro access
    rw [runFrom_read_eq_step, runFrom_nested, Reading.step]
    simp only [hloop, Visitor.expressionForm_of_boolean_operator _ hkind,
      ← Visitor.booleanOperation_eq_recursiveLogical]
    rfl

/-- The word of a logical operator. -/
def connective (word : String) (start : Nat) : Cst :=
  .sound word (some "operator") false start (start + word.length) 0 start []

/-- A chain with another one in parentheses. -/
def mixedSource : Source := .ofText CharacterName.noNames "a and (b or c) and d"

/-- The part `a and (b or c)` of the chain. -/
def leftOfMixed : Cst :=
  .sound "boolean_operator" (some "left") true 0 14 0 0 [
    operand "left" 0, connective "and" 2,
    .sound "parenthesized_expression" (some "right") true 6 14 0 6 [
      .sound "boolean_operator" none true 7 13 0 7 [
        operand "left" 7, connective "or" 9, operand "right" 12]]]

/-- The whole chain. -/
def mixed : Cst :=
  .sound "boolean_operator" none true 0 20 0 0 [
    leftOfMixed, connective "and" 15, operand "right" 19]

/-- The chain takes one of the last four levels, and its three values are read in the others; two
of these are taken by the chain in parentheses, which is one of the values. -/
theorem runFrom_read_mixed :
    (Counted.read mixedSource (.expression .load) mixed).runFrom 996 =
      (.ok (.logical "and" [
        .name "a" .load, .logical "or" [.name "b" .load, .name "c" .load], .name "d" .load]),
        996) := by
  have hkind : "identifier" ≠ "boolean_operator" := by decide
  have hname (field : String) (start : Nat) :
      (operand field start).Operands mixedSource "and" [operand field start] :=
    .single fun hjoin => hkind hjoin.1
  have hjoinLeft : leftOfMixed.IsJoin mixedSource "and" := ⟨rfl, connective "and" 2, rfl, rfl⟩
  have hjoin : mixed.IsJoin mixedSource "and" := ⟨rfl, connective "and" 15, rfl, rfl⟩
  have hleft : leftOfMixed.Operands mixedSource "and" [operand "left" 0, _] :=
    .joined hjoinLeft rfl rfl (hname "left" 0) (.single fun hjoin => absurd hjoin.1 (by decide))
  have hoperands : mixed.Operands mixedSource "and" [operand "left" 0, _, operand "right" 19] :=
    .joined hjoin rfl rfl hleft (hname "right" 19)
  obtain ⟨-, -, -, hlevel⟩ := runFrom_booleanOperation mixedSource (c := mixed) rfl 996
  obtain ⟨-, hread, -⟩ := runFrom_booleanOperation mixedSource (c := mixed) rfl 997
  obtain ⟨-, -, hvalues⟩ := hread _ _ rfl hoperands
  rw [hlevel .load, runFrom_nested, Reading.nested, if_pos (by decide), hvalues]
  decide +kernel

end Counted

end Reading

end TreeText
