import TreeText.Proofs.Reading.Annotation
import TreeText.Proofs.Reading.Operator

/-!
# Comparisons stay aligned

All children of a comparison stand in one row: operands, the tokens of operators, and comments
anywhere, even between the two tokens of one operator. Leaving the comments out, a comparison that
the grammar knows is a first operand and then groups of an operator and an operand
(`Cst.ComparesBy`).

Reading goes through the row once and parts it into operands and operators, with a pending operator
whose tokens are still being read. Over one group it takes one operator, with both its words, and
one operand, and nothing is pending behind it (`comparisonParts_group`). So over any number of
groups the two lists stay beside each other, and the operator of a group comes out in the same place
as its operand (`runFrom_comparison`).
-/

namespace TreeText

/-! ## Comparisons as they are written -/

namespace Cst

/-- A comment. -/
def isComment (c : Cst) : Bool := c.isNamed && c.kind == "comment"

/-- An operand of a comparison is named, and no comment. -/
def IsOperand (c : Cst) : Prop := c.isNamed = true ∧ c.kind ≠ "comment"

end Cst

/-- The operators of a comparison that may be written with two tokens. -/
def twoWordComparisons : List (String × String) := [("not", "in"), ("is", "not")]

/-- An operator of a comparison, written with one token or with two, and the operand behind it. -/
structure ComparisonGroup where
  token : Cst
  second : Option Cst
  operand : Cst
  token_fixed : token.isNamed = false
  second_fixed : ∀ d ∈ second, d.isNamed = false ∧ (token.kind, d.kind) ∈ twoWordComparisons
  isOperand : operand.IsOperand

namespace ComparisonGroup

/-- The nodes of a group in the order of the source. -/
def nodes (group : ComparisonGroup) : List Cst :=
  group.token :: (group.second.toList ++ [group.operand])

/-- The words of the operator, one blank between them. -/
def text (group : ComparisonGroup) : String :=
  match group.second with
  | none => group.token.kind
  | some second => group.token.kind ++ " " ++ second.kind

end ComparisonGroup

/-- Apart from comments, a node consists of a first operand and of these groups. -/
structure Cst.ComparesBy (c first : Cst) (groups : List ComparisonGroup) : Prop where
  isOperand : first.IsOperand
  children : c.children.filter (fun d => !d.isComment) =
    first :: groups.flatMap ComparisonGroup.nodes

/-- The node of a comparison. -/
def Tree.comparison (left : Tree) (ops : List String) (comparators : List Tree) : Tree :=
  .record "Compare"
    [("left", left), ("ops", .seq (ops.map .leaf)), ("comparators", .seq comparators)]

/-! ## Group by group -/

theorem comparisonParts_withoutComments (nodes : List Cst) :
    comparisonParts none (nodes.filter fun d => !d.isComment) = comparisonParts none nodes := by
  refine comparisonParts_filter (fun d hd => ?_) none nodes
  rwa [Cst.isComment, Bool.and_eq_true, beq_iff_eq] at hd

/-- A group is taken as one operator and one operand, and leaves nothing pending. -/
theorem comparisonParts_group (group : ComparisonGroup) (rest : List Cst) :
    comparisonParts none (group.nodes ++ rest) =
      (group.operand :: (comparisonParts none rest).1,
        (group.token, group.text) :: (comparisonParts none rest).2) := by
  obtain ⟨token, second, operand, htoken, hsecond, hnamed, hkind⟩ := group
  cases second with
  | none =>
    show comparisonParts none (token :: operand :: rest) = _
    rw [comparisonParts_token htoken, comparisonParts_operand hnamed hkind]
    rfl
  | some second =>
    show comparisonParts none (token :: second :: operand :: rest) = _
    rw [comparisonParts_token htoken, comparisonParts_token (hsecond second rfl).1,
      comparisonParts_operand hnamed hkind]
    rfl

/-- Operators and operands of groups come out side by side. -/
theorem comparisonParts_groups (groups : List ComparisonGroup) :
    comparisonParts none (groups.flatMap ComparisonGroup.nodes) =
      (groups.map (·.operand), groups.map fun group => (group.token, group.text)) := by
  induction groups with
  | nil => rfl
  | cons group groups ih => rw [List.flatMap_cons, comparisonParts_group, ih]; rfl

theorem Cst.ComparesBy.comparisonParts_eq {c first : Cst} {groups : List ComparisonGroup}
    (h : c.ComparesBy first groups) :
    comparisonParts none c.children =
      (first :: groups.map (·.operand), groups.map fun group => (group.token, group.text)) := by
  rw [← comparisonParts_withoutComments, h.children,
    comparisonParts_operand h.isOperand.1 h.isOperand.2, comparisonParts_groups]
  rfl

/-! ## Comparisons that are read -/

/-- What corresponds to a list through values that are then changed is the list of those values,
changed. -/
theorem forall₂_exists_iff {α β γ : Type} {R : α → β → Prop} {f : β → γ} {xs : List α}
    {zs : List γ} :
    List.Forall₂ (fun x z => ∃ y, R x y ∧ z = f y) xs zs ↔
      ∃ ys, List.Forall₂ R xs ys ∧ zs = ys.map f := by
  constructor
  · intro h
    induction h with
    | nil => exact ⟨[], .nil, rfl⟩
    | cons hz _ ih =>
      obtain ⟨y, hy, rfl⟩ := hz
      obtain ⟨ys, hys, rfl⟩ := ih
      exact ⟨y :: ys, .cons hy hys, rfl⟩
  · rintro ⟨ys, hys, rfl⟩
    rw [List.forall₂_map_right_iff]
    exact hys.imp fun _ y hy => ⟨y, hy, rfl⟩

namespace Visitor

open Reading (Result bind_eq_ok_iff mapM_eq_ok_iff operatorLeaf_eq_ok_iff)

variable {v : Visitor Result}

/-- A comparison is read just if all its operators are known and all its operands are read, and
then each operator has the place of the operand behind it. -/
theorem comparison_eq_ok_iff {c first : Cst} {groups : List ComparisonGroup}
    (h : c.ComparesBy first groups) {tree : Tree} :
    v.comparison c = .ok tree ↔ ∃ left ops comparators,
      v.load first = .ok left ∧
      List.Forall₂ (fun group op => comparisonOperator? group.text = some op) groups ops ∧
      List.Forall₂ (fun group value => v.load group.operand = .ok value) groups comparators ∧
      tree = .comparison left ops comparators := by
  rw [comparison, h.comparisonParts_eq]
  simp only [bind_eq_ok_iff, mapM_eq_ok_iff, operatorLeaf_eq_ok_iff, elements,
    List.forall₂_map_left_iff, forall₂_exists_iff]
  constructor
  · rintro ⟨_, ⟨ops, hops, rfl⟩, left, hleft, comparators, hcomparators, htree⟩
    exact ⟨left, ops, comparators, hleft, hops, hcomparators, (Except.ok.inj htree).symm⟩
  · rintro ⟨left, ops, comparators, hleft, hops, hcomparators, rfl⟩
    exact ⟨_, ⟨ops, hops, rfl⟩, left, hleft, comparators, hcomparators, rfl⟩

theorem expressionForm_of_comparison_operator {m : Type → Type} [Monad m] [MonadExceptOf Fault m]
    (v : Visitor m) {c : Cst} (hkind : c.kind = "comparison_operator") (access : Access) :
    v.expressionForm access c = v.comparison c := by
  rw [expressionForm, hkind]
  rfl

end Visitor

/-! ## Comparisons at a depth -/

namespace Reading

namespace Counted

variable (source : Source)

/-- **Comparison chains stay aligned.** A comparison that consists of a first operand and of groups
of an operator and an operand, with comments anywhere, is read just if all its operators are known
and all its operands are read, each from the depth at which the comparison stands. Then its left
side is the first operand, its operators are those of the groups, those of two words being one
operator, and its comparators are the operands of the groups, both in the order of the source and as
many. The expression as a whole goes down by one level. -/
theorem runFrom_comparison {c first : Cst} {groups : List ComparisonGroup}
    (hkind : c.kind = "comparison_operator") (h : c.ComparesBy first groups) (depth : Nat) :
    (∀ tree, ((Visitor.comparison ⟨source, Counted.read source⟩ c).runFrom depth).1 = .ok tree ↔
      ∃ left ops comparators,
        ((Counted.read source (.expression .load) first).runFrom depth).1 = .ok left ∧
        List.Forall₂ (fun group op => comparisonOperator? group.text = some op) groups ops ∧
        List.Forall₂ (fun group value =>
          ((Counted.read source (.expression .load) group.operand).runFrom depth).1 = .ok value)
          groups comparators ∧
        ops.length = comparators.length ∧
        tree = .comparison left ops comparators) ∧
    (∀ access, (Counted.read source (.expression access) c).runFrom depth =
      (nested c (Visitor.comparison ⟨source, Counted.read source⟩ c)).runFrom depth) := by
  constructor
  · intro tree
    have hrun := ((handedDown source depth).comparison_agree (handedDown_alike source depth c)
      hkind).runFrom_eq
    rw [hrun, Visitor.comparison_eq_ok_iff h]
    constructor
    · rintro ⟨left, ops, comparators, hleft, hops, hcomparators, rfl⟩
      exact ⟨left, ops, comparators, hleft, hops, hcomparators,
        hops.length_eq.symm.trans hcomparators.length_eq, rfl⟩
    · rintro ⟨left, ops, comparators, hleft, hops, hcomparators, -, rfl⟩
      exact ⟨left, ops, comparators, hleft, hops, hcomparators, rfl⟩
  · intro access
    rw [runFrom_read_expression, Visitor.expressionForm_of_comparison_operator _ hkind]

/-- Two comparisons in a row, with a comment between the words of the first operator. -/
def commentedSource : Source := .ofText CharacterName.noNames "a not # x\n in b is c"

/-- The operators of two words and of one, with the operands behind them. -/
def commentedGroups : List ComparisonGroup := [
  { token := .sound "not" (some "operators") false 2 5 0 2 []
    second := some (.sound "in" (some "operators") false 11 13 1 1 [])
    operand := .sound "identifier" none true 14 15 1 4 []
    token_fixed := rfl
    second_fixed := by decide
    isOperand := ⟨rfl, by decide⟩ },
  { token := .sound "is" (some "operators") false 16 18 1 6 []
    second := none
    operand := .sound "identifier" none true 19 20 1 9 []
    token_fixed := rfl
    second_fixed := nofun
    isOperand := ⟨rfl, by decide⟩ }]

/-- The comparison `a not in b is c`. -/
def commentedComparison : Cst :=
  .sound "comparison_operator" none true 0 20 0 0 [
    nameAt 0 1, .sound "not" (some "operators") false 2 5 0 2 [],
    .sound "comment" none true 6 9 0 6 [], .sound "in" (some "operators") false 11 13 1 1 [],
    .sound "identifier" none true 14 15 1 4 [], .sound "is" (some "operators") false 16 18 1 6 [],
    .sound "identifier" none true 19 20 1 9 []]

/-- The operator with the comment in it is one, and belongs to the operand behind it. -/
theorem runFrom_read_commentedComparison :
    commentedComparison.ComparesBy (nameAt 0 1) commentedGroups ∧
    ((Counted.read commentedSource (.expression .load) commentedComparison).runFrom 0).1 =
      .ok (.comparison (.name "a" .load) ["NotIn", "Is"] [.name "b" .load, .name "c" .load]) := by
  have hrow : commentedComparison.ComparesBy (nameAt 0 1) commentedGroups := ⟨⟨rfl, by decide⟩, rfl⟩
  obtain ⟨-, hlevel⟩ := runFrom_comparison commentedSource rfl hrow 0
  obtain ⟨hread, -⟩ := runFrom_comparison commentedSource rfl hrow 1
  have hvalue := (hread _).mpr
    ⟨.name "a" .load, ["NotIn", "Is"], [.name "b" .load, .name "c" .load], rfl,
      .cons rfl (.cons rfl .nil), .cons rfl (.cons rfl .nil), rfl, rfl⟩
  refine ⟨hrow, ?_⟩
  rw [hlevel .load, runFrom_nested, Reading.nested, if_pos (by decide), hvalue]

end Counted

end Reading

end TreeText
