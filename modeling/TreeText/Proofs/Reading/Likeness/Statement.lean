import TreeText.Proofs.Reading.Likeness.Expression

/-!
# The rules of statements go the same way

One lemma for each rule of imports, simple statements, compound statements and definitions: at
corresponding nodes, the readings of two visitors that are alike agree.
-/

namespace TreeText

namespace Likeness

open Reading (Agree)
open LawfulReading (throw_bind)

variable {m n : Type → Type} [Monad m] [MonadExceptOf Fault m] [LawfulReading m] [Monad n]
  [MonadExceptOf Fault n] [LawfulReading n] {v : Visitor m} {w : Visitor n} (L : Likeness v w)
  {c d : Cst} {cs ds : List Cst}

/-! ## Imports -/

theorem dottedName (h : L.Alike c d) : v.dottedName c = w.dottedName d := by
  rw [Visitor.dottedName, Visitor.dottedName, h.kind, L.map L.text (L.significant h), L.text h]

theorem importedName (h : L.Alike c d) : v.importedName c = w.importedName d := by
  have hname : (c.child? "name").map v.dottedName = (d.child? "name").map w.dottedName :=
    L.map? L.dottedName (L.child? h "name")
  have halias : (c.child? "alias").map v.text = (d.child? "alias").map w.text :=
    L.map? L.text (L.child? h "alias")
  rw [Visitor.importedName, Visitor.importedName, h.kind, L.dottedName h, hname, halias]

theorem importedNames (h : L.Alike c d) : v.importedNames c = w.importedNames d :=
  L.map L.importedName (L.childrenUnder h "name")

theorem importStatement (h : L.Alike c d) : v.importStatement c = w.importStatement d := by
  rw [Visitor.importStatement, Visitor.importStatement, L.importedNames h]

theorem futureImport (h : L.Alike c d) : v.futureImport c = w.futureImport d := by
  rw [Visitor.futureImport, Visitor.futureImport, L.importedNames h]

theorem relativeLevel (h : List.Forall₂ L.node cs ds) :
    v.relativeLevel cs = w.relativeLevel ds := by
  rw [Visitor.relativeLevel, Visitor.relativeLevel]
  match List.find? _ cs.reverse, List.find? _ ds.reverse,
    L.find? (L.isOfKind "import_prefix") (List.rel_reverse h) with
  | _, _, .none => rfl
  | _, _, .some hdots => exact congrArg (fun dots => dots.toList.count '.') (L.text (L.alike hdots))

theorem relativeModule (h : List.Forall₂ L.node cs ds) :
    v.relativeModule cs = w.relativeModule ds := by
  have hfind := L.find? (p := fun part => part.kind != "import_prefix")
    (fun hab => by rw [hab.kind]) (List.rel_reverse h)
  exact L.map? L.dottedName hfind

theorem importFrom_agree (h : L.Alike c d) : L.Agree Eq (v.importFrom c) (w.importFrom d) := by
  refine (L.require_agree h "module_name").bind fun source source' hsource => ?_
  have hparts := L.significant (L.alike hsource)
  rw [L.kind hsource, L.relativeModule hparts, L.relativeLevel hparts,
    L.dottedName (L.alike hsource), L.any (L.isOfKind "wildcard_import") (L.significant h),
    L.importedNames h]
  exact .pure rfl

/-! ## Simple statements -/

theorem expressionStatement_agree (h : L.Alike c d) :
    L.Agree Eq (v.expressionStatement c) (w.expressionStatement d) :=
  (L.joined_agree h (L.significant h)).bindEq fun _ => .pure rfl

theorem typedAssignment_agree (h : L.Alike c d) {left left' type type' : Cst}
    (hleft : L.node left left') (htype : L.node type type') :
    L.Agree Eq (v.typedAssignment c left type) (w.typedAssignment d left' type') := by
  refine (L.store_agree hleft).bindEq fun target => ?_
  refine (L.typeHint_agree htype).bindEq fun hint => ?_
  refine (L.load?_agree (L.child? h "right")).bindEq fun value => ?_
  rw [L.kind hleft]
  exact .pure rfl

/-- The chain of targets is followed by its own recursion. -/
theorem assignedValue_agree (h : L.node c d) :
    L.Agree Eq (v.assignedValue c) (w.assignedValue d) := by
  induction c using Visitor.assignedValue.induct generalizing d with
  | case1 c hkind hleft =>
    rw [Visitor.assignedValue_of_assignment hkind,
      Visitor.assignedValue_of_assignment (L.kind h ▸ hkind), Cst.require_of_none hleft,
      Cst.require_of_none (L.child?_none (L.alike h) hleft), throw_bind, throw_bind, L.kind h]
    exact L.fault_agree (L.alike h) _
  | case2 c hkind left hleft ih =>
    rw [Visitor.assignedValue_of_assignment hkind,
      Visitor.assignedValue_of_assignment (L.kind h ▸ hkind)]
    refine (L.require_agree (L.alike h) "left").bind fun _ _ hlefts => ?_
    refine (L.store_agree hlefts).bindEq fun target => ?_
    -- The recursion is known of the child itself, not of what `require` returns.
    cases hright : c.child? "right" with
    | none =>
      rw [Cst.require_of_none hright, Cst.require_of_none (L.child?_none (L.alike h) hright),
        throw_bind, throw_bind, L.kind h]
      exact L.fault_agree (L.alike h) _
    | some right =>
      obtain ⟨right', hright', hrights⟩ := L.child?_some (L.alike h) hright
      rw [Cst.require_of_some hright, Cst.require_of_some hright', pure_bind, pure_bind]
      exact (ih right hright hrights).bindEq fun ⟨targets, value⟩ => .pure rfl
  | case3 c hkind =>
    rw [Visitor.assignedValue_of_value hkind, Visitor.assignedValue_of_value (L.kind h ▸ hkind)]
    exact (L.load_agree h).bindEq fun value => .pure rfl

theorem plainAssignment_agree (h : L.Alike c d) {left left' : Cst} (hleft : L.node left left') :
    L.Agree Eq (v.plainAssignment c left) (w.plainAssignment d left') := by
  refine (L.store_agree hleft).bindEq fun target => ?_
  match c.child? "right", d.child? "right", L.child? h "right" with
  | _, _, .none => exact L.fault_agree h _
  | _, _, .some hright =>
    exact (L.assignedValue_agree hright).bindEq fun ⟨targets, value⟩ => .pure rfl

theorem assignment_agree (h : L.Alike c d) : L.Agree Eq (v.assignment c) (w.assignment d) := by
  refine (L.require_agree h "left").bind fun _ _ hleft => ?_
  match c.child? "type", d.child? "type", L.child? h "type" with
  | _, _, .none => exact L.plainAssignment_agree h hleft
  | _, _, .some htype => exact L.typedAssignment_agree h hleft htype

theorem augmentedAssignment_agree (h : L.Alike c d) :
    L.Agree Eq (v.augmentedAssignment c) (w.augmentedAssignment d) := by
  refine (L.require_agree h "operator").bind fun _ _ hoperator => ?_
  rw [L.text (L.alike hoperator)]
  refine (L.operatorLeaf_agree (L.alike hoperator) _ _ _).bindEq fun op => ?_
  refine (L.require_agree h "left").bind fun _ _ hleft => ?_
  refine (L.store_agree hleft).bindEq fun target => ?_
  refine (L.require_agree h "right").bind fun _ _ hright => ?_
  exact (L.load_agree hright).bindEq fun value => .pure rfl

theorem expressionOrAssignment_agree (h : L.Alike c d) :
    L.Agree Eq (v.expressionOrAssignment c) (w.expressionOrAssignment d) := by
  rw [Visitor.expressionOrAssignment, Visitor.expressionOrAssignment]
  match c.significant, d.significant, L.significant h with
  | _, _, .nil => exact L.expressionStatement_agree h
  | _, _, .cons hsingle .nil =>
    dsimp only
    rw [L.kind hsingle]
    split
    · exact L.assignment_agree (L.alike hsingle)
    · exact L.augmentedAssignment_agree (L.alike hsingle)
    · exact L.expressionStatement_agree h
  | _, _, .cons _ (.cons _ _) => exact L.expressionStatement_agree h

theorem returning_agree (h : L.Alike c d) : L.Agree Eq (v.returning c) (w.returning d) :=
  (L.load?_agree (L.head? (L.significant h))).bindEq fun _ => .pure rfl

theorem deletedNodes (h : L.node c d) :
    List.Forall₂ L.node (Visitor.deletedNodes c) (Visitor.deletedNodes d) := by
  rw [Visitor.deletedNodes, Visitor.deletedNodes, L.kind h]
  split
  · exact L.significant (L.alike h)
  · exact .cons h .nil

theorem deletion_agree (h : L.Alike c d) : L.Agree Eq (v.deletion c) (w.deletion d) := by
  refine (L.firstPart_agree h).bind fun _ _ hpart => ?_
  exact (L.elements_agree .del (L.deletedNodes hpart)).bindEq fun targets => .pure rfl

theorem raising_agree (h : L.Alike c d) : L.Agree Eq (v.raising c) (w.raising d) := by
  refine (L.load?_agree (L.head? (L.significantBeside h "cause"))).bindEq fun exception => ?_
  exact (L.load?_agree (L.child? h "cause")).bindEq fun cause => .pure rfl

theorem nameList (kind : String) (h : L.Alike c d) : v.nameList kind c = w.nameList kind d := by
  rw [Visitor.nameList, Visitor.nameList,
    L.map (fun hab => congrArg Tree.str (L.text hab)) (L.significant h)]

theorem assertion_agree (h : L.Alike c d) : L.Agree Eq (v.assertion c) (w.assertion d) := by
  refine (L.firstPart_agree h).bind fun _ _ hpart => ?_
  refine (L.load_agree hpart).bindEq fun test => ?_
  exact (L.load?_agree (L.getElem? (L.significant h) 1)).bindEq fun message => .pure rfl

theorem typeAlias_agree (h : L.Alike c d) : L.Agree Eq (v.typeAlias c) (w.typeAlias d) := by
  refine (L.typeHint?_agree (L.child? h "left")).bindEq fun name => ?_
  exact (L.typeHint?_agree (L.child? h "right")).bindEq fun value => .pure rfl

/-! ## Compound statements -/

theorem alternatives_agree (h : List.Forall₂ L.node cs ds) :
    L.Agree Eq (v.alternatives cs) (w.alternatives ds) := by
  induction h with
  | nil => exact .pure rfl
  | cons hclause _ ih =>
    rw [Visitor.alternatives, Visitor.alternatives, L.kind hclause]
    split
    · refine (L.require_agree (L.alike hclause) "condition").bind fun _ _ hcondition => ?_
      refine (L.load_agree hcondition).bindEq fun test => ?_
      refine (L.require_agree (L.alike hclause) "consequence").bind fun _ _ hconsequence => ?_
      refine (L.block_agree (L.alike hconsequence)).bindEq fun body => ?_
      exact ih.bindEq fun orelse => .pure rfl
    · refine (L.require_agree (L.alike hclause) "body").bind fun _ _ hbody => ?_
      exact L.block_agree (L.alike hbody)

theorem conditionalStatement_agree (h : L.Alike c d) :
    L.Agree Eq (v.conditionalStatement c) (w.conditionalStatement d) := by
  refine (L.require_agree h "condition").bind fun _ _ hcondition => ?_
  refine (L.load_agree hcondition).bindEq fun test => ?_
  refine (L.require_agree h "consequence").bind fun _ _ hconsequence => ?_
  refine (L.block_agree (L.alike hconsequence)).bindEq fun body => ?_
  exact (L.alternatives_agree (L.childrenUnder h "alternative")).bindEq fun orelse => .pure rfl

theorem kindOf (plain async : String) (h : L.Alike c d) :
    Visitor.kindOf plain async c = Visitor.kindOf plain async d := by
  rw [Visitor.kindOf, Visitor.kindOf, L.hasToken h]

theorem forLoop_agree (h : L.Alike c d) : L.Agree Eq (v.forLoop c) (w.forLoop d) := by
  refine (L.require_agree h "left").bind fun _ _ hleft => ?_
  refine (L.store_agree hleft).bindEq fun target => ?_
  refine (L.require_agree h "right").bind fun _ _ hright => ?_
  refine (L.load_agree hright).bindEq fun iterable => ?_
  refine (L.require_agree h "body").bind fun _ _ hbody => ?_
  refine (L.block_agree (L.alike hbody)).bindEq fun body => ?_
  refine (L.elseBody_agree (L.child? h "alternative")).bindEq fun orelse => ?_
  rw [L.kindOf _ _ h]
  exact .pure rfl

theorem whileLoop_agree (h : L.Alike c d) : L.Agree Eq (v.whileLoop c) (w.whileLoop d) := by
  refine (L.elseBody_agree (L.child? h "alternative")).bindEq fun orelse => ?_
  refine (L.require_agree h "condition").bind fun _ _ hcondition => ?_
  refine (L.load_agree hcondition).bindEq fun test => ?_
  refine (L.require_agree h "body").bind fun _ _ hbody => ?_
  exact (L.block_agree (L.alike hbody)).bindEq fun body => .pure rfl

/-- The parts of a handler read so far are alike: the same body, and expressions that
correspond. -/
def sameParts (x y : HandlerParts) : Prop :=
  x.body = y.body ∧ List.Forall₂ L.node x.expressions y.expressions

theorem addHandlerPart_agree {x y : HandlerParts} (hparts : L.sameParts x y) (h : L.node c d) :
    L.Agree L.sameParts (v.addHandlerPart x c) (w.addHandlerPart y d) := by
  rw [Visitor.addHandlerPart, Visitor.addHandlerPart, L.kind h]
  split
  · exact (L.block_agree (L.alike h)).bindEq fun body => .pure ⟨rfl, hparts.2⟩
  · exact .pure ⟨hparts.1, List.rel_append hparts.2 (.cons h .nil)⟩

theorem caught_agree (h : List.Forall₂ L.node cs ds) :
    L.Agree Eq (v.caught cs) (w.caught ds) := by
  cases h with
  | nil => exact .pure rfl
  | cons hfirst hrest =>
    cases hrest with
    | nil =>
      rw [Visitor.caught, Visitor.caught, L.kind hfirst]
      split
      · refine (L.firstPart_agree (L.alike hfirst)).bind fun _ _ hpart => ?_
        refine (L.load_agree hpart).bindEq fun exception => ?_
        rw [L.map? L.text (L.child? (L.alike hfirst) "alias")]
        exact .pure rfl
      · exact (L.load_agree hfirst).bindEq fun exception => .pure rfl
    | cons hname _ =>
      refine (L.load_agree hfirst).bindEq fun exception => ?_
      rw [L.text (L.alike hname)]
      exact .pure rfl

theorem handler_agree (h : L.Alike c d) : L.Agree Eq (v.handler c) (w.handler d) := by
  have hparts : L.Agree L.sameParts (c.significant.foldlM v.addHandlerPart ⟨[], []⟩)
      (d.significant.foldlM w.addHandlerPart ⟨[], []⟩) :=
    .foldlM (L.significant h) (fun _ _ _ _ => L.addHandlerPart_agree) ⟨rfl, .nil⟩
  -- The expressions are kept as nodes and read only after all parts, so they correspond but are
  -- not equal.
  refine hparts.bind fun x y hxy => ?_
  rw [hxy.1]
  exact (L.caught_agree hxy.2).bindEq fun ⟨exception, name⟩ => .pure rfl

theorem finalBody_agree (h : L.Alike c d) : L.Agree Eq (v.finalBody c) (w.finalBody d) := by
  rw [Visitor.finalBody, Visitor.finalBody]
  match List.find? _ c.significant, List.find? _ d.significant,
    L.find? (L.isOfKind "block") (L.significant h) with
  | _, _, .none => exact .pure rfl
  | _, _, .some hblock => exact (L.block_agree (L.alike hblock)).bindEq fun body => .pure rfl

theorem addTryClause_agree (clauses : TryClauses) (h : L.Alike c d) :
    L.Agree Eq (v.addTryClause clauses c) (w.addTryClause clauses d) := by
  rw [Visitor.addTryClause, Visitor.addTryClause, h.kind]
  split
  · exact (L.handler_agree h).bindEq fun handler => .pure rfl
  · exact (L.handler_agree h).bindEq fun handler => .pure rfl
  · refine (L.require_agree h "body").bind fun _ _ hbody => ?_
    exact (L.block_agree (L.alike hbody)).bindEq fun orelse => .pure rfl
  · exact (L.finalBody_agree h).bindEq fun body => .pure rfl
  · exact .pure rfl

theorem tryBlock_agree (h : L.Alike c d) : L.Agree Eq (v.tryBlock c) (w.tryBlock d) := by
  have hclauses : L.Agree Eq (c.significant.foldlM v.addTryClause ⟨[], [], [], false⟩)
      (d.significant.foldlM w.addTryClause ⟨[], [], [], false⟩) :=
    .foldlMEq (L.significant h)
      (fun clauses _ _ hab => L.addTryClause_agree clauses (L.alike hab)) _
  refine hclauses.bindEq fun clauses => ?_
  refine (L.require_agree h "body").bind fun _ _ hbody => ?_
  exact (L.block_agree (L.alike hbody)).bindEq fun body => .pure rfl

theorem withParts_agree (h : L.Alike c d) :
    L.Agree (fun x y => L.node x.1 y.1 ∧ Option.Rel L.node x.2 y.2)
      (Visitor.withParts c) (Visitor.withParts d) := by
  refine (L.require_agree h "value").bind fun value value' hvalue => ?_
  match c.child? "alias", d.child? "alias", L.child? h "alias" with
  | _, _, .some htarget => exact .pure ⟨hvalue, .some htarget⟩
  | _, _, .none =>
    dsimp only
    rw [L.kind hvalue]
    split
    · refine (L.firstPart_agree (L.alike hvalue)).bind fun _ _ hpart => ?_
      exact .pure ⟨hpart, L.child? (L.alike hvalue) "alias"⟩
    · exact .pure ⟨hvalue, .none⟩

theorem store?_agree {x y : Option Cst} (h : Option.Rel L.node x y) :
    L.Agree Eq (v.store? x) (w.store? y) := by
  cases h with
  | none => exact .pure rfl
  | some h => exact L.store_agree h

theorem withItem_agree (h : L.Alike c d) : L.Agree Eq (v.withItem c) (w.withItem d) := by
  refine (L.withParts_agree h).bind fun x y hparts => ?_
  refine (L.store?_agree hparts.2).bindEq fun target => ?_
  exact (L.load_agree hparts.1).bindEq fun value => .pure rfl

theorem withItems (h : L.Alike c d) :
    List.Forall₂ L.node (Visitor.withItems c) (Visitor.withItems d) :=
  L.flatMap (fun hclause => L.filter (L.isOfKind "with_item") (L.significant hclause))
    (L.filter (L.isOfKind "with_clause") (L.significant h))

theorem withBlock_agree (h : L.Alike c d) : L.Agree Eq (v.withBlock c) (w.withBlock d) := by
  have hitems := L.withItems h
  refine (Agree.mapMEq hitems fun _ _ hab => L.withItem_agree (L.alike hab)).bindEq fun items => ?_
  refine (L.require_agree h "body").bind fun _ _ hbody => ?_
  refine (L.block_agree (L.alike hbody)).bindEq fun body => ?_
  rw [L.kindOf _ _ h]
  exact .pure rfl

/-! ## Definitions -/

theorem functionDefinition_agree (decorators : List Tree) (h : L.Alike c d) :
    L.Agree Eq (v.functionDefinition decorators c) (w.functionDefinition decorators d) := by
  refine (L.typeHint?_agree (L.child? h "return_type")).bindEq fun returns => ?_
  refine (L.require_agree h "name").bind fun _ _ hname => ?_
  refine (L.parameters_agree (L.child? h "parameters")).bindEq fun parameters => ?_
  refine (L.require_agree h "body").bind fun _ _ hbody => ?_
  refine (L.block_agree (L.alike hbody)).bindEq fun body => ?_
  rw [L.kindOf _ _ h, L.text (L.alike hname)]
  exact .pure rfl

theorem superclasses_agree {x y : Option Cst} (h : Option.Rel L.node x y) :
    L.Agree Eq (v.superclasses x) (w.superclasses y) := by
  cases h with
  | none => exact .pure rfl
  | some h => exact L.arguments_agree (L.alike h)

theorem classDefinition_agree (decorators : List Tree) (h : L.Alike c d) :
    L.Agree Eq (v.classDefinition decorators c) (w.classDefinition decorators d) := by
  refine (L.superclasses_agree (L.child? h "superclasses")).bindEq fun ⟨bases, keywords⟩ => ?_
  refine (L.require_agree h "name").bind fun _ _ hname => ?_
  refine (L.require_agree h "body").bind fun _ _ hbody => ?_
  refine (L.block_agree (L.alike hbody)).bindEq fun body => ?_
  rw [L.text (L.alike hname)]
  exact .pure rfl

theorem decorator_agree (h : L.Alike c d) : L.Agree Eq (v.decorator c) (w.decorator d) :=
  (L.firstPart_agree h).bind fun _ _ => L.load_agree

theorem decorated_agree (h : L.Alike c d) : L.Agree Eq (v.decorated c) (w.decorated d) := by
  have hdecorators := L.filter (L.isOfKind "decorator") (L.significant h)
  have hread : L.Agree Eq
      ((c.significant.filter fun child => child.kind == "decorator").mapM v.decorator)
      ((d.significant.filter fun child => child.kind == "decorator").mapM w.decorator) :=
    .mapMEq hdecorators fun _ _ hab => L.decorator_agree (L.alike hab)
  refine hread.bindEq fun decorators => ?_
  refine (L.require_agree h "definition").bind fun _ _ hdefinition => ?_
  rw [L.kind hdefinition]
  split
  · exact L.classDefinition_agree decorators (L.alike hdefinition)
  · exact L.functionDefinition_agree decorators (L.alike hdefinition)

theorem matching_agree (h : L.Alike c d) : L.Agree Eq (v.matching c) (w.matching d) :=
  (L.load?_agree (L.child? h "subject")).bindEq fun _ => .pure rfl

theorem statementForm_agree (h : L.Alike c d) :
    L.Agree Eq (v.statementForm c) (w.statementForm d) := by
  rw [Visitor.statementForm, Visitor.statementForm, h.kind]
  cases StatementForm.ofKind d.kind with
  | expression => exact L.expressionOrAssignment_agree h
  | leaf kind => exact .pure rfl
  | returning => exact L.returning_agree h
  | deletion => exact L.deletion_agree h
  | raising => exact L.raising_agree h
  | names kind => exact .pure (L.nameList kind h)
  | assertion => exact L.assertion_agree h
  | importModules => exact .pure (L.importStatement h)
  | importFrom => exact L.importFrom_agree h
  | importFuture => exact .pure (L.futureImport h)
  | conditional => exact L.conditionalStatement_agree h
  | forLoop => exact L.forLoop_agree h
  | whileLoop => exact L.whileLoop_agree h
  | tryBlock => exact L.tryBlock_agree h
  | withBlock => exact L.withBlock_agree h
  | functionDefinition => exact L.functionDefinition_agree [] h
  | classDefinition => exact L.classDefinition_agree [] h
  | decorated => exact L.decorated_agree h
  | matching => exact L.matching_agree h
  | typeAlias => exact L.typeAlias_agree h
  | bareCall callee => exact L.fault_agree h _

end Likeness

end TreeText
