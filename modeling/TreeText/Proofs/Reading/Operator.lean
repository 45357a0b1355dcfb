import TreeText.Proofs.Reading.Counter

/-!
# Chains of operators

Reading unrolls a chain of operators down its left operands and then builds it up in a loop. It
could as well read the left operand first, as a chain if it is one, and apply the operator to it
(`Visitor.recursiveOperation`). Both do the same, whatever lies in the chain and wherever its first
fault is (`binaryOperation_eq_recursiveOperation`): the loop with one more operator at its end is
the loop and then that operator (`binaryOperation_eq`).

So the operators and operands of a chain come out in the order of the source, nested to the left
(`binaryOperation_eq_ok_iff`). All its operands are read at the depth at which the chain stands,
however long it is: only the whole of it counts as a level of nesting (`runFrom_binaryOperation`).
-/

namespace TreeText

/-! ## Operators one at a time -/

/-- An operator of two operands, with what stands on its left read first, as a chain itself if it is
one. -/
def Visitor.recursiveOperation {m : Type → Type} [Monad m] [MonadExceptOf Fault m] (v : Visitor m)
    (c : Cst) : m Tree :=
  match _h : c.child? "left" with
  | none => throw (c.fault (.missingField c.kind "left"))
  | some left => do
    let tree ← if left.kind = "binary_operator" then v.recursiveOperation left else v.load left
    v.applyOperator tree c
termination_by c.height
decreasing_by exact Cst.height_lt_of_child? _h

section

variable {m : Type → Type} [Monad m] [MonadExceptOf Fault m] [LawfulReading m]

/-- The operators that have been passed last are the last. -/
theorem Cst.leftSpine_append (c : Cst) (passed more : List Cst) :
    c.leftSpine (passed ++ more) = (do
      let (operators, leftmost) ← c.leftSpine passed
      return (operators ++ more, leftmost) : m (List Cst × Cst)) := by
  induction c, passed using Cst.leftSpine.induct with
  | case1 c passed hleft =>
    rw [leftSpine_eq, leftSpine_eq, require_of_none hleft, LawfulReading.throw_bind,
      LawfulReading.throw_bind, LawfulReading.throw_bind]
  | case2 c passed left hleft hkind ih =>
    rw [leftSpine_eq, leftSpine_eq, require_of_some hleft, pure_bind, pure_bind, if_pos hkind,
      if_pos hkind]
    exact ih
  | case3 c passed left hleft hkind =>
    rw [leftSpine_eq, leftSpine_eq, require_of_some hleft, pure_bind, pure_bind, if_neg hkind,
      if_neg hkind, pure_bind]
    rfl

namespace Visitor

variable (v : Visitor m)

/-- What stands on the left of an operator. Another operator there costs no nesting. -/
def leftOperand (c : Cst) : m Tree :=
  if c.kind = "binary_operator" then v.binaryOperation c else v.load c

/-- A chain of operators is its last operator, applied to what stands on its left. -/
theorem binaryOperation_eq (c : Cst) :
    v.binaryOperation c = (do
      let left ← c.require "left"
      let tree ← v.leftOperand left
      v.applyOperator tree c) := by
  rw [binaryOperation, Cst.leftSpine_eq]
  cases hleft : c.child? "left" with
  | none => simp only [Cst.require_of_none hleft, LawfulReading.throw_bind]
  | some left =>
    rw [Cst.require_of_some hleft, pure_bind, pure_bind, leftOperand]
    split
    -- The operator itself is the last of the spine, so the fold over the rest is the left operand.
    · have happend := left.leftSpine_append (m := m) [] [c]
      rw [List.nil_append] at happend
      rw [happend, binaryOperation]
      simp only [bind_assoc, pure_bind, List.foldlM_append, List.foldlM_cons, List.foldlM_nil,
        bind_pure]
    · simp only [pure_bind, List.foldlM_cons, List.foldlM_nil, bind_pure]

/-- The loop does what the recursion does, in any monad: it reads the same parts in the same order,
and ends with the same tree or the same fault. -/
theorem binaryOperation_eq_recursiveOperation (c : Cst) :
    v.binaryOperation c = v.recursiveOperation c := by
  rw [binaryOperation_eq, recursiveOperation]
  split
  · next hleft => rw [Cst.require_of_none hleft, LawfulReading.throw_bind]
  · next left hleft =>
    rw [Cst.require_of_some hleft, pure_bind, leftOperand]
    split
    · rw [binaryOperation_eq_recursiveOperation left]
    · rfl
termination_by c.height
decreasing_by exact Cst.height_lt_of_child? ‹_›

end Visitor

end

/-! ## The result of a chain -/

/-- An operator of two operands. -/
def Tree.binaryOperator (left : Tree) (op : String) (right : Tree) : Tree :=
  .record "BinOp" [("left", left), ("op", .leaf op), ("right", right)]

/-- A first operand, and operators with their right operands one after the other. -/
def Tree.leftNested (first : Tree) (terms : List (String × Tree)) : Tree :=
  terms.foldl (fun left term => .binaryOperator left term.1 term.2) first

theorem Tree.leftNested_concat (first : Tree) (terms : List (String × Tree)) (op : String)
    (right : Tree) :
    leftNested first (terms ++ [(op, right)]) =
      .binaryOperator (leftNested first terms) op right := by
  rw [leftNested, List.foldl_append]
  rfl

namespace Cst

/-- The operator and the right operand of a node. -/
structure Link (c operator right : Cst) : Prop where
  operator : c.child? "operator" = some operator
  right : c.child? "right" = some right

/-- A node is a chain that starts with the first operand, and goes on with operators and their right
operands, in the order of the source. -/
inductive Chain : Cst → Cst → List (Cst × Cst) → Prop
  | single {c left operator right : Cst} (hleft : c.child? "left" = some left)
    (hkind : left.kind ≠ "binary_operator") (hlink : c.Link operator right) :
    Chain c left [(operator, right)]
  | longer {c left first operator right : Cst} {links : List (Cst × Cst)}
    (hleft : c.child? "left" = some left) (hkind : left.kind = "binary_operator")
    (hchain : Chain left first links) (hlink : c.Link operator right) :
    Chain c first (links ++ [(operator, right)])

end Cst

/-! ## Chains that are read -/

namespace Reading

theorem bind_eq_ok_iff {α β : Type} {x : Result α} {f : α → Result β} {b : β} :
    x >>= f = .ok b ↔ ∃ a, x = .ok a ∧ f a = .ok b := by
  refine ⟨exists_of_bind_eq_ok, ?_⟩
  rintro ⟨a, rfl, h⟩
  exact h

/-- Constructs are read one after the other just if each of them is. -/
theorem mapM_eq_ok_iff {α β : Type} {f : α → Result β} {xs : List α} {ys : List β} :
    xs.mapM f = .ok ys ↔ List.Forall₂ (fun x y => f x = .ok y) xs ys := by
  induction xs generalizing ys with
  | nil =>
    rw [List.mapM_nil, List.forall₂_nil_left_iff]
    exact ⟨fun h => by cases h; rfl, fun h => by rw [h]; rfl⟩
  | cons x xs ih =>
    simp only [List.mapM_cons, bind_eq_ok_iff, ih, List.forall₂_cons_left_iff]
    constructor
    · rintro ⟨y, hy, rest, hrest, h⟩
      cases h
      exact ⟨y, rest, hy, hrest, rfl⟩
    · rintro ⟨y, rest, hy, hrest, rfl⟩
      exact ⟨y, hy, rest, hrest, rfl⟩

theorem operatorLeaf_eq_ok_iff {table : String → Option String} {token : Cst} {text : String}
    {unknown : Cause} {tree : Tree} :
    operatorLeaf table token text unknown = (.ok tree : Result Tree) ↔
      ∃ op, table text = some op ∧ tree = .leaf op := by
  rw [operatorLeaf]
  cases table text with
  | none => simp [throw, throwThe, MonadExceptOf.throw]
  | some op => simp [pure, Except.pure, eq_comm]

end Reading

theorem Cst.require_eq_ok_iff {c d : Cst} {name : String} :
    c.require name = (.ok d : Reading.Result Cst) ↔ c.child? name = some d := by
  rw [require]
  cases c.child? name with
  | none => simp [throw, throwThe, MonadExceptOf.throw]
  | some child => simp [pure, Except.pure]

/-- What corresponds to a list with one more at its end has one more at its end. -/
theorem exists_of_forall₂_concat {α β : Type} {R : α → β → Prop} {xs : List α} {x : α}
    {ys : List β} (h : List.Forall₂ R (xs ++ [x]) ys) :
    ∃ before y, ys = before ++ [y] ∧ List.Forall₂ R xs before ∧ R x y := by
  induction xs generalizing ys with
  | nil =>
    obtain _ | ⟨hxy, _ | _⟩ := h
    exact ⟨[], _, rfl, .nil, hxy⟩
  | cons a xs ih =>
    obtain _ | ⟨hab, hrest⟩ := h
    obtain ⟨before, y, rfl, hbefore, hxy⟩ := ih hrest
    exact ⟨_ :: before, y, rfl, .cons hab hbefore, hxy⟩

namespace Visitor

open Reading (Result bind_eq_ok_iff operatorLeaf_eq_ok_iff)

variable {v : Visitor Result}

theorem applyOperator_eq_ok_iff {c : Cst} {left tree : Tree} :
    v.applyOperator left c = .ok tree ↔ ∃ operator right, c.Link operator right ∧ ∃ op value,
      binaryOperator? (v.text operator) = some op ∧ v.load right = .ok value ∧
      tree = .binaryOperator left op value := by
  rw [applyOperator]
  simp only [bind_eq_ok_iff, Cst.require_eq_ok_iff, operatorLeaf_eq_ok_iff]
  constructor
  · rintro ⟨operator, hoperator, _, ⟨op, hop, rfl⟩, right, hright, value, hvalue, h⟩
    cases h
    exact ⟨operator, right, ⟨hoperator, hright⟩, op, value, hop, hvalue, rfl⟩
  · rintro ⟨operator, right, hlink, op, value, hop, hvalue, rfl⟩
    exact ⟨operator, hlink.operator, _, ⟨op, hop, rfl⟩, right, hlink.right, value, hvalue, rfl⟩

theorem expressionForm_of_kind {c : Cst} (hkind : c.kind = "binary_operator") (access : Access) :
    v.expressionForm access c = v.binaryOperation c := by
  rw [expressionForm, hkind]
  rfl

/-- The operator of a link is known, and its right operand is read. -/
def ReadsTerm (v : Visitor Result) (link : Cst × Cst) (term : String × Tree) : Prop :=
  binaryOperator? (v.text link.1) = some term.1 ∧ v.load link.2 = .ok term.2

/-- A chain is read just if its first operand is and all its links are, and then it comes out in the
order of the source, nested to the left. -/
theorem binaryOperation_eq_ok_iff {c : Cst} {tree : Tree} :
    v.binaryOperation c = .ok tree ↔ ∃ first links, c.Chain first links ∧ ∃ operand terms,
      v.load first = .ok operand ∧ List.Forall₂ v.ReadsTerm links terms ∧
      tree = .leftNested operand terms := by
  rw [binaryOperation_eq]
  simp only [bind_eq_ok_iff, Cst.require_eq_ok_iff, applyOperator_eq_ok_iff, leftOperand]
  constructor
  · rintro ⟨left, hleft, leftTree, hread, operator, right, hlink, op, value, hop, hvalue, rfl⟩
    split at hread
    · next hkind =>
      obtain ⟨first, links, hchain, operand, terms, hfirst, hterms, rfl⟩ :=
        binaryOperation_eq_ok_iff.mp hread
      exact ⟨first, _, .longer hleft hkind hchain hlink, operand, _, hfirst,
        List.rel_append hterms (.cons ⟨hop, hvalue⟩ .nil), (Tree.leftNested_concat ..).symm⟩
    · next hkind =>
      exact ⟨left, _, .single hleft hkind hlink, leftTree, [(op, value)], hread,
        .cons ⟨hop, hvalue⟩ .nil, rfl⟩
  · rintro ⟨first, links, hchain, operand, terms, hfirst, hterms, rfl⟩
    cases hchain with
    | single hleft hkind hlink =>
      obtain _ | ⟨⟨hop, hvalue⟩, _ | _⟩ := hterms
      refine ⟨first, hleft, operand, ?_, _, _, hlink, _, _, hop, hvalue, rfl⟩
      rw [if_neg hkind]
      exact hfirst
    | longer hleft hkind hchain hlink =>
      obtain ⟨before, ⟨op, value⟩, rfl, hbefore, hop, hvalue⟩ := exists_of_forall₂_concat hterms
      refine ⟨_, hleft, .leftNested operand before, ?_, _, _, hlink, op, value, hop, hvalue,
        Tree.leftNested_concat ..⟩
      rw [if_pos hkind]
      exact binaryOperation_eq_ok_iff.mpr
        ⟨first, _, hchain, operand, before, hfirst, hbefore, rfl⟩
termination_by c.height
decreasing_by all_goals exact Cst.height_lt_of_child? ‹_›

end Visitor

/-! ## Chains at a depth -/

namespace Reading

namespace Counted

variable (source : Source)

/-- A visitor that counts reads chains as the one does that has the depth handed down. -/
theorem runFrom_binaryOperation_eq (depth : Nat) (c : Cst) :
    (Visitor.binaryOperation ⟨source, Counted.read source⟩ c).runFrom depth =
      (Visitor.binaryOperation ⟨source, Reading.read source depth⟩ c, depth) := by
  let L : Likeness ⟨source, Counted.read source⟩ ⟨source, Reading.read source depth⟩ :=
    sameNodes c.height rfl fun role part _ => visit_agree source part.height depth role part
  exact (L.binaryOperation_agree sameNodes_alike).runFrom_eq

/-- **A chain of operators is read as if by recursion, and costs one level of nesting.** Unrolled
and built up in a loop, it comes to the same tree, or the same fault, as if each operator were
applied to its left operand when that has been read; so the operators and operands come out in the
order of the source, nested to the left. They are all read from the depth that the chain is read
from, and the expression as a whole goes down by one. -/
theorem runFrom_binaryOperation (c : Cst) (depth : Nat) :
    (∀ v : Visitor Counted, (v.binaryOperation c).runFrom depth =
      (v.recursiveOperation c).runFrom depth) ∧
    (∀ tree, ((Visitor.binaryOperation ⟨source, Counted.read source⟩ c).runFrom depth).1 =
      .ok tree ↔ ∃ first links, c.Chain first links ∧ ∃ operand terms,
        ((Counted.read source (.expression .load) first).runFrom depth).1 = .ok operand ∧
        List.Forall₂ (fun link term => binaryOperator? (link.1.text source) = some term.1 ∧
          ((Counted.read source (.expression .load) link.2).runFrom depth).1 = .ok term.2)
          links terms ∧
        tree = .leftNested operand terms) ∧
    (c.kind = "binary_operator" → ∀ access,
      (Counted.read source (.expression access) c).runFrom depth =
        (nested c (Visitor.binaryOperation ⟨source, Counted.read source⟩ c)).runFrom depth) := by
  refine ⟨fun v => by rw [v.binaryOperation_eq_recursiveOperation], fun tree => ?_, ?_⟩
  · simp only [runFrom_binaryOperation_eq, runFrom_read]
    exact Visitor.binaryOperation_eq_ok_iff
  · intro hkind access
    rw [runFrom_read, read_eq_step, runFrom_nested, Reading.step]
    simp only [runFrom_binaryOperation_eq, Visitor.expressionForm_of_kind hkind]

/-- A name among the operands of a chain. -/
def operand (field : String) (start : Nat) : Cst :=
  .sound "identifier" (some field) true start (start + 1) 0 start []

/-- A minus sign. -/
def minus (start : Nat) : Cst :=
  .sound "-" (some "operator") false start (start + 1) 0 start []

/-- The text of `a - b - c`. -/
def differencesSource : Source := .ofText CharacterName.noNames "a - b - c"

/-- The chain `a - b - c`. -/
def differences : Cst :=
  .sound "binary_operator" none true 0 9 0 0 [
    .sound "binary_operator" (some "left") true 0 5 0 0 [
      operand "left" 0, minus 2, operand "right" 4],
    minus 6,
    operand "right" 8]

/-- The chain takes one of the last two levels, and all its names take the other. -/
theorem runFrom_read_differences :
    (Counted.read differencesSource (.expression .load) differences).runFrom 998 =
      (.ok (.leftNested (.name "a" .load) [("Sub", .name "b" .load), ("Sub", .name "c" .load)]),
        998) := by
  have hchain : differences.Chain (operand "left" 0)
      [(minus 2, operand "right" 4), (minus 6, operand "right" 8)] :=
    .longer rfl rfl (.single rfl (by decide) ⟨rfl, rfl⟩) ⟨rfl, rfl⟩
  obtain ⟨-, hread, -⟩ := runFrom_binaryOperation differencesSource differences 999
  have hvalue := (hread _).mpr
    ⟨_, _, hchain, .name "a" .load, [("Sub", .name "b" .load), ("Sub", .name "c" .load)], rfl,
      .cons ⟨rfl, rfl⟩ (.cons ⟨rfl, rfl⟩ .nil), rfl⟩
  obtain ⟨-, -, hlevel⟩ := runFrom_binaryOperation differencesSource differences 998
  rw [hlevel rfl .load, runFrom_nested, Reading.nested, if_pos (by decide), hvalue]

end Counted

end Reading

end TreeText
