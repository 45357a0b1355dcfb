import TreeText.Proofs.Reading.Operator

/-!
# Annotations are read as expressions

The grammar gives the types of annotations constructs of their own, and reading has rules of their
own for them. There is only one kind of expression, though: a type should be read as the expression
with the same text would be (`Cst.Spells`), which the rules for subscripts, operators, attributes
and stars read.

It is, whatever lies in whatever, with one exception. A comma behind a single item makes a tuple of
it in a subscript, but not in a generic type. `Cst.KeepsCommas` says that no generic type of an
annotation is of this sort, and the trees are the same exactly then (`runFrom_typeHint_of_spells`).

The two ways count levels differently. Types count none, so an annotation is read at no greater
depth than its expression; and a chain of bars, which the rule of operators unrolls from its left
end, is read type by type. `binaryOperation_eq` rolls the chain up again, one operator at a time.
-/

namespace TreeText

/-! ## The field over a node -/

/-- The same node under another field. -/
def Cst.under (field : Option String) : Cst → Cst
  | .node info children => .node { info with field } children

namespace Visitor

section

variable {m : Type → Type} [Monad m] [MonadExceptOf Fault m] (v : Visitor m)

/-- Of the literal that is cut into pieces only the place is looked at, for faults. -/
theorem piecesFrom_under (field : Option String) (literal : Cst) (marks : Marks)
    (stop start : Nat) (fields : List Cst) :
    v.piecesFrom (literal.under field) marks stop start fields =
      v.piecesFrom literal marks stop start fields := by
  cases literal
  induction fields generalizing start with
  | nil => rfl
  | cons c fields ih =>
    rw [piecesFrom, piecesFrom, ih]
    rfl

end

section

variable {m : Type → Type} [Monad m] [MonadExceptOf Fault m] [LawfulReading m] (v : Visitor m)

theorem booleanOperation_under (field : Option String) {c : Cst}
    (hkind : c.kind = "boolean_operator") :
    v.booleanOperation (c.under field) = v.booleanOperation c := by
  obtain ⟨info, children⟩ := c
  have hchild : (Cst.under field (.node info children)).child? "operator" =
      (Cst.node info children).child? "operator" := rfl
  rw [booleanOperation, booleanOperation]
  cases hoperator : (Cst.node info children).child? "operator" with
  | none =>
    rw [Cst.require_of_none hoperator, Cst.require_of_none (hchild.trans hoperator),
      LawfulReading.throw_bind, LawfulReading.throw_bind]
    rfl
  | some operator =>
    rw [Cst.require_of_some hoperator, Cst.require_of_some (hchild.trans hoperator), pure_bind,
      pure_bind]
    -- The operator joins its own operands, so the node itself is not handed on.
    have hjoins : v.joinsBy (v.text operator) (.node info children) = true := by
      rw [joinsBy, hkind, hoperator]
      simp
    have hvalues : v.operandValues (v.text operator) [.under field (.node info children)] =
        v.operandValues (v.text operator) [.node info children] := by
      rw [operandValues_of_joinsBy hjoins, operandValues_of_joinsBy]
      · rfl
      · exact hjoins
    dsimp only
    rw [hvalues]

/-- Reading an expression takes no notice of the field that it stands under. -/
theorem expressionForm_under (field : Option String) (access : Access) (c : Cst) :
    v.expressionForm access (c.under field) = v.expressionForm access c := by
  obtain ⟨info, children⟩ := c
  have hkind : (Cst.under field (.node info children)).kind = info.kind := rfl
  have hkind' : (Cst.node info children).kind = info.kind := rfl
  rw [expressionForm.eq_def, expressionForm.eq_def, hkind, hkind']
  cases hform : ExpressionForm.ofKind info.kind with
  | literal =>
    show v.literals [_] = v.literals [_]
    simp only [literals, List.mapM_cons, pieces, piecesFrom_under]
    rfl
  | binaryOperation =>
    show v.binaryOperation _ = v.binaryOperation _
    rw [binaryOperation_eq, binaryOperation_eq]
    rfl
  | booleanOperation =>
    have hboolean : info.kind = "boolean_operator" := (ExpressionForm.kind_of_ofKind hform).1 rfl
    exact v.booleanOperation_under field hboolean
  | _ => rfl

end

end Visitor

/-! ## The expression of an annotation -/

namespace Cst

/-- The items in the brackets of a generic type. -/
def typeItems (c : Cst) : List Cst := c.significant.tail.flatMap significant

/-- Whether there is a comma in the brackets of a generic type. -/
def hasTypeComma (c : Cst) : Bool := c.significant.tail.any (·.hasToken ",")

/-- The second node is the expression with the text of the first one, an annotation. Brackets are a
subscript with the same items, and with a comma just if there is one between them; a bar is an
operator, a member an attribute, and a star stays a star. Anything else is an expression as it is,
under any field. -/
inductive Spells (source : Source) : Cst → Cst → Prop
  | wrapped {c d part : Cst} (hform : TypeForm.ofKind c.kind = .wrapped)
      (hpart : c.significant.head? = some part) (h : Spells source part d) : Spells source c d
  | generic {c d base value : Cst} (hform : TypeForm.ofKind c.kind = .generic)
      (hbase : c.significant.head? = some base) (hkind : d.kind = "subscript")
      (hvalue : d.child? "value" = some value) (h : Spells source base value)
      (hitems : List.Forall₂ (Spells source) c.typeItems (d.childrenUnder "subscript"))
      (hcomma : d.hasToken "," = c.hasTypeComma) : Spells source c d
  | union {c d left right left' right' bar : Cst} (hform : TypeForm.ofKind c.kind = .union)
      (hparts : c.significant = [left, right]) (hkind : d.kind = "binary_operator")
      (hleft : d.child? "left" = some left') (hbar : d.child? "operator" = some bar)
      (htext : bar.text source = "|") (hright : d.child? "right" = some right')
      (h : Spells source left left') (h' : Spells source right right') : Spells source c d
  | member {c d value name object attr : Cst} (hform : TypeForm.ofKind c.kind = .member)
      (hparts : c.significant = [value, name]) (hkind : d.kind = "attribute")
      (hobject : d.child? "object" = some object) (hattr : d.child? "attribute" = some attr)
      (htext : attr.text source = name.text source) (h : Spells source value object) :
      Spells source c d
  | splat {c d part value : Cst} (hform : TypeForm.ofKind c.kind = .splat)
      (hpart : c.significant.head? = some part) (hkind : d.kind = "list_splat")
      (hvalue : d.significant.head? = some value) (h : Spells source part value) :
      Spells source c d
  | ordinary {c : Cst} (hform : TypeForm.ofKind c.kind = .ordinary) (hkind : c.kind ≠ "slice")
      (field : Option String) : Spells source c (c.under field)

/-- The parts of an annotation that are annotations. -/
def typeParts (c : Cst) : List Cst :=
  match TypeForm.ofKind c.kind with
  | .wrapped => c.significant.take 1
  | .generic => c.significant.take 1 ++ c.typeItems
  | .union => c.significant
  | .member => c.significant.take 1
  | .splat => c.significant.take 1
  | .ordinary => []

/-- A generic type with one parameter and a comma behind it. -/
def HasLoneComma (c : Cst) : Prop :=
  TypeForm.ofKind c.kind = .generic ∧ c.typeItems.length = 1 ∧ c.hasTypeComma = true

/-- There is no such type in an annotation. -/
inductive KeepsCommas : Cst → Prop
  | node {c : Cst} (hown : ¬ c.HasLoneComma) (hparts : ∀ part ∈ c.typeParts, KeepsCommas part) :
      KeepsCommas c

theorem keepsCommas_iff (c : Cst) :
    c.KeepsCommas ↔ ¬ c.HasLoneComma ∧ ∀ part ∈ c.typeParts, part.KeepsCommas :=
  ⟨fun ⟨hown, hparts⟩ => ⟨hown, hparts⟩, fun ⟨hown, hparts⟩ => .node hown hparts⟩

theorem keepsCommas_generic {c base : Cst} (hform : TypeForm.ofKind c.kind = .generic)
    (hbase : c.significant.head? = some base) :
    c.KeepsCommas ↔ base.KeepsCommas ∧ ¬ (c.typeItems.length = 1 ∧ c.hasTypeComma = true) ∧
      ∀ item ∈ c.typeItems, item.KeepsCommas := by
  obtain ⟨parameters, hparts⟩ := List.head?_eq_some_iff.mp hbase
  have htypeParts : c.typeParts = base :: c.typeItems := by
    rw [typeParts, hform, hparts]
    rfl
  rw [keepsCommas_iff, htypeParts, List.forall_mem_cons, HasLoneComma, hform]
  simp only [true_and]
  rw [and_left_comm]

/-- Only generic types lose commas of their own. -/
theorem keepsCommas_of_typeParts {c : Cst} {parts : List Cst}
    (hform : TypeForm.ofKind c.kind ≠ .generic) (hparts : c.typeParts = parts) :
    c.KeepsCommas ↔ ∀ part ∈ parts, part.KeepsCommas := by
  rw [keepsCommas_iff, hparts, HasLoneComma]
  simp only [hform, false_and, not_false_eq_true, true_and]

theorem keepsCommas_of_head {c part : Cst}
    (hform : TypeForm.ofKind c.kind = .wrapped ∨ TypeForm.ofKind c.kind = .member ∨
      TypeForm.ofKind c.kind = .splat) (hpart : c.significant.head? = some part) :
    c.KeepsCommas ↔ part.KeepsCommas := by
  obtain ⟨rest, hparts⟩ := List.head?_eq_some_iff.mp hpart
  have htake : c.significant.take 1 = [part] := by rw [hparts, List.take_succ_cons, List.take_zero]
  rcases hform with hform | hform | hform
  all_goals
    rw [keepsCommas_of_typeParts (by rw [hform]; decide) (by rw [typeParts, hform])]
    simp only [htake, List.mem_singleton, forall_eq]

theorem keepsCommas_ordinary {c : Cst} (hform : TypeForm.ofKind c.kind = .ordinary) :
    c.KeepsCommas := by
  have hparts : c.typeParts = [] := by rw [typeParts, hform]
  exact (keepsCommas_of_typeParts (by rw [hform]; decide) hparts).mpr nofun

theorem Spells.kind_ne_slice {source : Source} {c d : Cst} (h : Spells source c d) :
    d.kind ≠ "slice" := by
  match h with
  | .wrapped _ _ h => exact h.kind_ne_slice
  | .generic _ _ hkind _ _ _ _ => rw [hkind]; decide
  | .union _ _ hkind _ _ _ _ _ _ => rw [hkind]; decide
  | .member _ _ hkind _ _ _ _ => rw [hkind]; decide
  | .splat _ _ hkind _ _ => rw [hkind]; decide
  | .ordinary (c := .node _ _) _ hkind _ => exact hkind

theorem Spells.forall_kind_ne_slice {source : Source} {cs ds : List Cst}
    (h : List.Forall₂ (Spells source) cs ds) : ∀ d ∈ ds, d.kind ≠ "slice" := by
  induction h with
  | nil => exact nofun
  | cons hfirst _ ih => exact List.forall_mem_cons.mpr ⟨hfirst.kind_ne_slice, ih⟩

end Cst

namespace Tree

theorem index_inj {tree tree' : Tree} : index tree = index tree' ↔ tree = tree' := by
  refine Iff.trans (record_inj ["value"] rfl rfl (by decide)) ?_
  simp

theorem tuple_inj {trees trees' : List Tree} :
    tuple trees .load = tuple trees' .load ↔ trees = trees' := by
  refine Iff.trans (record_inj ["elts", "ctx"] rfl rfl (by decide)) ?_
  simp

/-- No tree is an element of itself. -/
theorem ne_tuple_of_mem {tree : Tree} {elements : List Tree} (hmem : tree ∈ elements) :
    tree ≠ tuple elements .load := by
  intro h
  have helements : (tuple elements .load).field? "elts" = some (.seq elements) :=
    field?_record _ _ _
  rw [← h] at helements
  have hlt := sizeOf_lt_of_field? helements
  have hle := List.sizeOf_lt_of_mem hmem
  rw [seq.sizeOf_spec] at hlt
  omega

end Tree

namespace Reading

/-! ## Rules that go the same way -/

/-- What an expression and its annotation are read as: the same tree just if no comma is lost. A
tuple the second one is only where it is the same. -/
structure Says (c : Cst) (tree tree' : Tree) : Prop where
  eq_iff : tree' = tree ↔ c.KeepsCommas
  eq_or_ne_tuple : tree' = tree ∨ ∀ elements, tree' ≠ .tuple elements .load

/-- One visitor reads the second node, an expression, as the other reads the first, an annotation,
unless it goes too deep. -/
abbrev ReadsAlike (v w : Visitor Result) (c d : Cst) : Prop :=
  Agree .unlessTooDeep (Says c) (v.load d) (w.typeHint c)

variable {v w : Visitor Result} {c d : Cst}

theorem says_of_kind {c : Cst} {kind : String} {fields : List (String × Tree)} {tree : Tree}
    (hkind : kind ≠ "Tuple") (h : .record kind fields = tree ↔ c.KeepsCommas) :
    Says c tree (.record kind fields) where
  eq_iff := h
  eq_or_ne_tuple := by
    refine .inr fun elements htuple => hkind ?_
    have hkinds := congrArg Tree.kind? htuple
    exact Option.some.inj hkinds

/-- The items of a tuple are the same just if each loses no comma. -/
theorem elements_agree {cs ds : List Cst} (h : List.Forall₂ (ReadsAlike v w) cs ds) :
    Agree .unlessTooDeep (fun trees trees' => trees' = trees ↔ ∀ c ∈ cs, c.KeepsCommas)
      (v.elements .load ds) (cs.mapM w.typeHint) := by
  rw [Visitor.elements]
  induction h with
  | nil => exact .pure (by simp)
  | @cons c d cs ds hfirst _ ih =>
    rw [List.mapM_cons, List.mapM_cons]
    refine Agree.bind hfirst fun tree tree' hrelated => ?_
    refine ih.bind fun trees trees' hrest => .pure ?_
    rw [List.cons.injEq, hrelated.eq_iff, hrest, List.forall_mem_cons]

theorem subscriptItems_single (hslice : d.kind ≠ "slice") :
    v.subscriptItems false [d] = (do return .index (← v.load d)) := by
  rw [Visitor.subscriptItems, Visitor.subscriptItem, if_neg hslice]

/-- Several items, or a single one before a comma, are a tuple. -/
theorem subscriptItems_tuple {ds : List Cst} {comma : Bool}
    (hslice : ∀ d ∈ ds, d.kind ≠ "slice") (hmany : ds.length = 1 → comma = true) :
    v.subscriptItems comma ds = (do return .index (.tuple (← v.elements .load ds) .load)) := by
  have hany : (ds.any fun d => d.kind == "slice") = false := by
    rw [List.any_eq_false]
    intro d hd
    rw [beq_iff_eq]
    exact hslice d hd
  rw [Visitor.subscriptItems.eq_def]
  split
  · cases hmany rfl
  · rw [hany, if_neg Bool.false_ne_true, Visitor.tuple, bind_assoc]
    simp only [pure_bind]

theorem typeArguments_tuple {cs : List Cst} (hmany : cs.length ≠ 1) :
    w.typeArguments cs = (do return .tuple (← cs.mapM w.typeHint) .load) := by
  rw [Visitor.typeArguments.eq_def]
  split
  · cases hmany rfl
  · rfl

/-- A single item is itself in the brackets, but a comma behind it is lost in a type. -/
theorem singleItem_agree (comma : Bool) (h : ReadsAlike v w c d) (hslice : d.kind ≠ "slice") :
    Agree .unlessTooDeep
      (fun slice value => .index value = slice ↔ ¬ comma = true ∧ c.KeepsCommas)
      (v.subscriptItems comma [d]) (w.typeHint c) := by
  rw [← bind_pure (w.typeHint c)]
  cases comma with
  | false =>
    rw [subscriptItems_single hslice]
    refine Agree.bind h fun tree tree' hrelated => .pure ?_
    rw [Tree.index_inj, hrelated.eq_iff]
    simp
  | true =>
    rw [subscriptItems_tuple (List.forall_mem_singleton.mpr hslice) fun _ => rfl,
      Visitor.elements, List.mapM_cons]
    simp only [List.mapM_nil, pure_bind, bind_assoc]
    refine Agree.bind h fun tree tree' hrelated => .pure ?_
    -- The type is no tuple of its own, nor is the one that the subscript puts around the item.
    have hne : tree' ≠ .tuple [tree] .load := by
      rcases hrelated.eq_or_ne_tuple with rfl | htuple
      · exact Tree.ne_tuple_of_mem (List.mem_singleton_self _)
      · exact htuple _
    rw [Tree.index_inj]
    simp [hne]

/-- What stands in the brackets is the same, unless a comma behind a single item is lost there. -/
theorem subscriptItems_agree {cs ds : List Cst} {comma : Bool}
    (h : List.Forall₂ (ReadsAlike v w) cs ds) (hslice : ∀ d ∈ ds, d.kind ≠ "slice") :
    Agree .unlessTooDeep
      (fun slice value => .index value = slice ↔
        ¬ (cs.length = 1 ∧ comma = true) ∧ ∀ c ∈ cs, c.KeepsCommas)
      (v.subscriptItems comma ds) (w.typeArguments cs) := by
  by_cases hlength : cs.length = 1
  · obtain ⟨c, rfl⟩ := List.length_eq_one_iff.mp hlength
    cases h with
    | cons hitem hrest =>
      cases hrest
      have hsingle := singleItem_agree comma hitem (hslice _ List.mem_cons_self)
      refine Agree.mono hsingle fun slice value hvalue => ?_
      rw [hvalue]
      simp
  · have hlength' : ds.length ≠ 1 := h.length_eq ▸ hlength
    rw [subscriptItems_tuple hslice fun hone => absurd hone hlength',
      typeArguments_tuple hlength]
    refine (elements_agree h).bind fun trees trees' htrees => .pure ?_
    rw [Tree.index_inj, Tree.tuple_inj, htrees]
    simp [hlength]

theorem genericType_agree {base value : Cst} (hform : TypeForm.ofKind c.kind = .generic)
    (hbase : c.significant.head? = some base) (hvalue : d.child? "value" = some value)
    (h : ReadsAlike v w base value)
    (hitems : List.Forall₂ (ReadsAlike v w) c.typeItems (d.childrenUnder "subscript"))
    (hslice : ∀ item ∈ d.childrenUnder "subscript", item.kind ≠ "slice")
    (hcomma : d.hasToken "," = c.hasTypeComma) :
    Agree .unlessTooDeep (Says c) (v.subscript .load d) (w.genericType c) := by
  obtain ⟨parameters, hparts⟩ := List.head?_eq_some_iff.mp hbase
  have htypeItems : parameters.flatMap Cst.significant = c.typeItems := by
    rw [Cst.typeItems, hparts, List.tail_cons]
  rw [Visitor.subscript, Visitor.genericType, hparts, hcomma]
  dsimp only
  rw [htypeItems]
  refine (subscriptItems_agree hitems hslice).bind fun slice items hslices => ?_
  rw [Cst.require_of_some hvalue, pure_bind]
  refine Agree.bind h fun tree tree' hrelated => .pure (says_of_kind (by decide) ?_)
  rw [Cst.keepsCommas_generic hform hbase, ← hrelated.eq_iff, ← hslices]
  refine Iff.trans (Tree.record_inj ["value", "slice", "ctx"] rfl rfl (by decide)) ?_
  simp

theorem applyOperator_bar {right' bar : Cst} (hbar : d.child? "operator" = some bar)
    (htext : v.text bar = "|") (hright : d.child? "right" = some right') (left : Tree) :
    v.applyOperator left d = (do
      let right ← v.load right'
      return .record "BinOp" [("left", left), ("op", .leaf "BitOr"), ("right", right)]) := by
  have hop : operatorLeaf binaryOperator? bar "|" (.unknownOperator "|") =
      (pure (.leaf "BitOr") : Result Tree) := rfl
  rw [Visitor.applyOperator, Cst.require_of_some hbar, pure_bind]
  dsimp only
  rw [htext, hop, Cst.require_of_some hright, pure_bind, pure_bind]

theorem unionType_agree {left right left' right' bar : Cst}
    (hform : TypeForm.ofKind c.kind = .union) (hparts : c.significant = [left, right])
    (hleft : d.child? "left" = some left') (hbar : d.child? "operator" = some bar)
    (htext : v.text bar = "|") (hright : d.child? "right" = some right')
    (h : Agree .unlessTooDeep (Says left) (v.leftOperand left') (w.typeHint left))
    (h' : ReadsAlike v w right right') :
    Agree .unlessTooDeep (Says c) (v.binaryOperation d) (w.unionType c) := by
  have hkeeps : c.KeepsCommas ↔ left.KeepsCommas ∧ right.KeepsCommas := by
    have htypeParts : c.typeParts = [left, right] := by rw [Cst.typeParts, hform, hparts]
    rw [Cst.keepsCommas_of_typeParts (by rw [hform]; decide) htypeParts]
    simp
  rw [Visitor.binaryOperation_eq, Visitor.unionType, hparts, Cst.require_of_some hleft, pure_bind]
  refine h.bind fun tree tree' hrelated => ?_
  rw [applyOperator_bar hbar htext hright]
  refine Agree.bind h' fun operand operand' hoperand => .pure (says_of_kind (by decide) ?_)
  rw [hkeeps, ← hrelated.eq_iff, ← hoperand.eq_iff]
  refine Iff.trans (Tree.record_inj ["left", "op", "right"] rfl rfl (by decide)) ?_
  simp

theorem memberType_agree {value name object attr : Cst}
    (hform : TypeForm.ofKind c.kind = .member) (hparts : c.significant = [value, name])
    (hobject : d.child? "object" = some object) (hattr : d.child? "attribute" = some attr)
    (htext : v.text attr = w.text name) (h : ReadsAlike v w value object) :
    Agree .unlessTooDeep (Says c) (v.attributeOf .load d) (w.memberType c) := by
  have hkeeps : c.KeepsCommas ↔ value.KeepsCommas :=
    Cst.keepsCommas_of_head (.inr (.inl hform)) (by rw [hparts]; rfl)
  rw [Visitor.attributeOf, Visitor.memberType, hparts, Cst.require_of_some hobject, pure_bind]
  refine Agree.bind h fun tree tree' hrelated => ?_
  rw [Cst.require_of_some hattr, pure_bind, htext]
  refine .pure (says_of_kind (by decide) ?_)
  rw [hkeeps, ← hrelated.eq_iff]
  refine Iff.trans (Tree.record_inj ["value", "attr", "ctx"] rfl rfl (by decide)) ?_
  simp

theorem splatType_agree {part value : Cst} (hform : TypeForm.ofKind c.kind = .splat)
    (hpart : c.significant.head? = some part) (hvalue : d.significant.head? = some value)
    (h : ReadsAlike v w part value) :
    Agree .unlessTooDeep (Says c) (v.starred .load d) (w.splatType c) := by
  obtain ⟨rest, hparts⟩ := List.head?_eq_some_iff.mp hpart
  obtain ⟨rest', hvalues⟩ := List.head?_eq_some_iff.mp hvalue
  have hkeeps : c.KeepsCommas ↔ part.KeepsCommas :=
    Cst.keepsCommas_of_head (.inr (.inr hform)) hpart
  rw [Visitor.starred, Visitor.splatType, Cst.firstPart, Cst.firstPart, hparts, hvalues, pure_bind,
    pure_bind]
  refine Agree.bind h fun tree tree' hrelated => .pure (says_of_kind (by decide) ?_)
  rw [hkeeps, ← hrelated.eq_iff]
  refine Iff.trans (Tree.record_inj ["value", "ctx"] rfl rfl (by decide)) ?_
  simp

/-! ## Reading -/

section

variable {source : Source} {depth depth' : Nat}

/-- From no greater depth, and where a level is left, an annotation is read as the rules for its
expression say. -/
def FollowsRules (source : Source) (c d : Cst) : Prop :=
  ∀ {depth depth' : Nat}, depth ≤ depth' → depth' < nestingLimit →
    Agree .unlessTooDeep (Says c)
      (Visitor.expressionForm ⟨source, read source (depth' + 1)⟩ .load d)
      (read source depth .typeHint c)

theorem FollowsRules.read_agree (h : FollowsRules source c d) (hle : depth ≤ depth') :
    Agree .unlessTooDeep (Says c) (read source depth' (.expression .load) d)
      (read source depth .typeHint c) := by
  rw [read_eq_step source depth', step, nested]
  by_cases hlimit : depth' < nestingLimit
  · rw [if_pos hlimit]
    exact h hle hlimit
  · have htoo : (d.fault (.tooDeep nestingLimit)).cause = .tooDeep nestingLimit := rfl
    rw [if_neg hlimit]
    exact .of_excused htoo _

theorem FollowsRules.leftOperand_agree (h : FollowsRules source c d) (hle : depth ≤ depth')
    (hlimit : depth' < nestingLimit) :
    Agree .unlessTooDeep (Says c) (Visitor.leftOperand ⟨source, read source (depth' + 1)⟩ d)
      (read source depth .typeHint c) := by
  rw [Visitor.leftOperand]
  split
  · next hkind =>
    have hoperator := h hle hlimit
    rw [Visitor.expressionForm, hkind] at hoperator
    exact hoperator
  · exact h.read_agree (Nat.le_succ_of_le hle)

/-- An expression in the place of a type is read as the same expression elsewhere. -/
theorem followsRules_ordinary (hform : TypeForm.ofKind c.kind = .ordinary)
    (field : Option String) : FollowsRules source c (c.under field) := by
  intro depth depth' hle hlimit
  let L : Likeness ⟨source, read source (depth' + 1)⟩ ⟨source, read source (depth + 1)⟩ :=
    sameNodes c.height rfl fun role part _ => visit_agree (Nat.succ_le_succ hle) role part
  have hread : read source depth .typeHint c =
      Visitor.expressionForm ⟨source, read source (depth + 1)⟩ .load c := by
    rw [read_eq_step, step, Visitor.typeForm, hform]
    show nested depth c _ = _
    rw [nested, if_pos (Nat.lt_of_le_of_lt hle hlimit)]
  rw [Visitor.expressionForm_under, hread]
  refine (L.expressionForm_agree .load sameNodes_alike).mono fun tree tree' hsame => ?_
  have hkeeps : c.KeepsCommas := Cst.keepsCommas_ordinary hform
  exact ⟨iff_of_true hsame.symm hkeeps, .inl hsame.symm⟩

/-- The rules go the same way, construct by construct. The items of a generic type are handed on
together, so the recursor of `Cst.Spells` says of them that all follow the rules. -/
theorem followsRules_of_spells (h : c.Spells source d) : FollowsRules source c d := by
  refine @Cst.Spells.rec source (fun c d _ => FollowsRules source c d)
    (fun cs ds _ => List.Forall₂ (FollowsRules source) cs ds) ?wrapped ?generic ?union ?member
    ?splat ?ordinary .nil (fun _ _ hfirst hrest => .cons hfirst hrest) c d h
  case wrapped =>
    intro c d part hform hpart _ ih depth depth' hle hlimit
    obtain ⟨rest, hparts⟩ := List.head?_eq_some_iff.mp hpart
    have hread : read source depth .typeHint c = read source depth .typeHint part := by
      rw [read_eq_step, step, Visitor.typeForm, hform, Cst.firstPart, hparts]
      rfl
    rw [hread]
    refine (ih hle hlimit).mono fun tree tree' hrelated => ⟨?_, hrelated.eq_or_ne_tuple⟩
    rw [hrelated.eq_iff, Cst.keepsCommas_of_head (.inl hform) hpart]
  case generic =>
    intro c d base value hform hbase hkind hvalue _ hitems hcomma ih ihitems depth depth' hle hlimit
    have hreadsAlike {c d : Cst} (h : FollowsRules source c d) :
        ReadsAlike ⟨source, read source (depth' + 1)⟩ ⟨source, read source depth⟩ c d :=
      h.read_agree (Nat.le_succ_of_le hle)
    rw [read_eq_step, step, Visitor.typeForm, hform, Visitor.expressionForm, hkind]
    exact genericType_agree hform hbase hvalue (hreadsAlike ih)
      (ihitems.imp fun _ _ => hreadsAlike) (Cst.Spells.forall_kind_ne_slice hitems) hcomma
  case union =>
    intro c d left right left' right' bar hform hparts hkind hleft hbar htext hright _ _ ih ih'
      depth depth' hle hlimit
    rw [read_eq_step, step, Visitor.typeForm, hform, Visitor.expressionForm, hkind]
    -- A bar on the left belongs to the same chain and costs no level; the right operand does.
    exact unionType_agree hform hparts hleft hbar htext hright (ih.leftOperand_agree hle hlimit)
      (ih'.read_agree (Nat.le_succ_of_le hle))
  case member =>
    intro c d value name object attr hform hparts hkind hobject hattr htext _ ih depth depth' hle
      hlimit
    rw [read_eq_step, step, Visitor.typeForm, hform, Visitor.expressionForm, hkind]
    exact memberType_agree hform hparts hobject hattr htext (ih.read_agree (Nat.le_succ_of_le hle))
  case splat =>
    intro c d part value hform hpart hkind hvalue _ ih depth depth' hle hlimit
    rw [read_eq_step, step, Visitor.typeForm, hform, Visitor.expressionForm, hkind]
    exact splatType_agree hform hpart hvalue (ih.read_agree (Nat.le_succ_of_le hle))
  case ordinary =>
    intro c hform _ field
    exact followsRules_ordinary hform field

end

namespace Counted

/-- **Annotations are read as expressions, but for a lost comma.** Let an annotation be of any
nesting, and let its expression not go too deep. Then either both have the same fault, or both are
read, and to the same tree just if the annotation has no generic type with a single parameter and
a comma behind it. -/
theorem runFrom_typeHint_of_spells {source : Source} {c d : Cst} (h : c.Spells source d)
    (depth : Nat) :
    (∀ tree, ((Counted.read source (.expression .load) d).runFrom depth).1 = .ok tree →
      ∃ tree', ((Counted.read source .typeHint c).runFrom depth).1 = .ok tree' ∧
        (tree' = tree ↔ c.KeepsCommas)) ∧
    (∀ fault, ((Counted.read source (.expression .load) d).runFrom depth).1 = .error fault →
      fault.cause ≠ .tooDeep nestingLimit →
      ((Counted.read source .typeHint c).runFrom depth).1 = .error fault) := by
  have hfollows : FollowsRules source c d := followsRules_of_spells h
  have hagree := hfollows.read_agree (Nat.le_refl depth)
  rw [runFrom_read, runFrom_read]
  constructor
  · intro tree htree
    have hread : Reading.read source depth (.expression .load) d = .ok tree := htree
    rw [hread] at hagree
    obtain ⟨tree', htree', hrelated⟩ := hagree.exists_eq_ok
    exact ⟨tree', htree', hrelated.eq_iff⟩
  · intro fault hfault hcause
    have hread : Reading.read source depth (.expression .load) d = .error fault := hfault
    rw [hread] at hagree
    exact hagree.eq_error hcause

/-- A name from here to there. -/
def nameAt (start stop : Nat) : Cst := .sound "identifier" none true start stop 0 start []

/-- A fixed token of one character. -/
def tokenAt (token : String) (start : Nat) : Cst :=
  .sound token none false start (start + 1) 0 start []

/-- A type that is this construct. -/
def typeOf (c : Cst) : Cst := .sound "type" none true c.info.start c.info.stop 0 c.info.start [c]

/-- What stands between the parameter of a list type and its closing bracket. -/
def trailing (comma : Bool) : List Cst := if comma then [tokenAt "," 8] else []

/-- Where the closing bracket of a list type stands. -/
def listEnd (comma : Bool) : Nat := if comma then 9 else 8

/-- The type `list[int]`, or `list[int,]`. -/
def listType (comma : Bool) : Cst :=
  typeOf (.sound "generic_type" none true 0 (listEnd comma + 1) 0 0 [
    nameAt 0 4,
    .sound "type_parameter" none true 4 (listEnd comma + 1) 0 4 (
      [tokenAt "[" 4, typeOf (nameAt 5 8)] ++ trailing comma ++ [tokenAt "]" (listEnd comma)])])

/-- The expression with the same text. -/
def listSubscript (comma : Bool) : Cst :=
  .sound "subscript" none true 0 (listEnd comma + 1) 0 0 (
    [(nameAt 0 4).under (some "value"), tokenAt "[" 4, (nameAt 5 8).under (some "subscript")] ++
      trailing comma ++ [tokenAt "]" (listEnd comma)])

/-- The type `list[int] | int`. -/
def barType : Cst :=
  typeOf (.sound "union_type" none true 0 15 0 0 [
    listType false, tokenAt "|" 10, typeOf (nameAt 12 15)])

/-- The expression with the same text. -/
def barExpression : Cst :=
  .sound "binary_operator" none true 0 15 0 0 [
    (listSubscript false).under (some "left"), (tokenAt "|" 10).under (some "operator"),
    (nameAt 12 15).under (some "right")]

theorem spells_nameAt (source : Source) (start stop : Nat) (field : Option String) :
    (nameAt start stop).Spells source ((nameAt start stop).under field) := by
  have hkind : "identifier" ≠ "slice" := by decide
  exact .ordinary (c := nameAt start stop) rfl hkind field

theorem spells_listType (source : Source) (comma : Bool) (field : Option String) :
    (listType comma).Spells source ((listSubscript comma).under field) := by
  have hbase := spells_nameAt source 0 4 (some "value")
  have hitem := spells_nameAt source 5 8 (some "subscript")
  refine .wrapped rfl rfl ?_
  cases comma with
  | false => exact .generic rfl rfl rfl rfl hbase (.cons (.wrapped rfl rfl hitem) .nil) rfl
  | true => exact .generic rfl rfl rfl rfl hbase (.cons (.wrapped rfl rfl hitem) .nil) rfl

/-- The text of `list[int] | int`. -/
def barSource : Source := .ofText CharacterName.noNames "list[int] | int"

/-- The text of `list[int,]`. -/
def commaSource : Source := .ofText CharacterName.noNames "list[int,]"

/-- A list with this in its brackets. -/
def listTree (item : Tree) : Tree :=
  .record "Subscript"
    [("value", .name "list" .load), ("slice", .index item), ("ctx", Access.load.marker)]

/-- What `list[int] | int` is read as, in either place. -/
def barTree : Tree :=
  .record "BinOp" [
    ("left", listTree (.name "int" .load)), ("op", .leaf "BitOr"), ("right", .name "int" .load)]

/-- A parameter without a comma and a bar are read alike in both places. -/
theorem runFrom_typeHint_barType :
    ((Counted.read barSource (.expression .load) barExpression).runFrom 0).1 = .ok barTree ∧
    ((Counted.read barSource .typeHint barType).runFrom 0).1 = .ok barTree := by
  have hname (start stop : Nat) : (nameAt start stop).KeepsCommas := Cst.keepsCommas_ordinary rfl
  have hlist : (listType false).KeepsCommas := by
    refine (Cst.keepsCommas_of_head (.inl rfl) rfl).mpr ?_
    refine (Cst.keepsCommas_generic rfl rfl).mpr ⟨hname 0 4, by decide, ?_⟩
    exact List.forall_mem_singleton.mpr ((Cst.keepsCommas_of_head (.inl rfl) rfl).mpr (hname 5 8))
  have hkeeps : barType.KeepsCommas := by
    have hunion := Cst.keepsCommas_of_typeParts
      (c := .sound "union_type" none true 0 15 0 0 [
        listType false, tokenAt "|" 10, typeOf (nameAt 12 15)]) (by decide) rfl
    refine (Cst.keepsCommas_of_head (.inl rfl) rfl).mpr (hunion.mpr ?_)
    refine List.forall_mem_cons.mpr ⟨hlist, List.forall_mem_singleton.mpr ?_⟩
    exact (Cst.keepsCommas_of_head (.inl rfl) rfl).mpr (hname 12 15)
  have hspells : barType.Spells barSource barExpression := by
    have hlist := spells_listType barSource false (some "left")
    have hint := spells_nameAt barSource 12 15 (some "right")
    exact .wrapped rfl rfl (.union rfl rfl rfl rfl rfl rfl rfl hlist (.wrapped rfl rfl hint))
  have hread : ((Counted.read barSource (.expression .load) barExpression).runFrom 0).1 =
      .ok barTree := by decide +kernel
  obtain ⟨tree, htree, hsame⟩ := (runFrom_typeHint_of_spells hspells 0).1 _ hread
  rw [hsame.mpr hkeeps] at htree
  exact ⟨hread, htree⟩

/-- Not all annotations are read as their expressions: `list[int,]` loses its comma. -/
theorem not_forall_spells_runFrom_eq :
    ¬ ∀ (source : Source) (c d : Cst) (depth : Nat), c.Spells source d →
      (∀ fault, ((Counted.read source (.expression .load) d).runFrom depth).1 = .error fault →
        fault.cause ≠ .tooDeep nestingLimit) →
      ((Counted.read source .typeHint c).runFrom depth).1 =
        ((Counted.read source (.expression .load) d).runFrom depth).1 := by
  intro h
  have hexpression : ((Counted.read commaSource (.expression .load)
      ((listSubscript true).under none)).runFrom 0).1 =
        .ok (listTree (.tuple [.name "int" .load] .load)) := rfl
  have hannotation : ((Counted.read commaSource .typeHint (listType true)).runFrom 0).1 =
      .ok (listTree (.name "int" .load)) := rfl
  have hsame := h commaSource _ _ 0 (spells_listType _ true none) fun fault hfault => by
    rw [hexpression] at hfault
    cases hfault
  rw [hexpression, hannotation, Except.ok.injEq] at hsame
  revert hsame
  decide

end Counted

end Reading

end TreeText
