import TreeText.Proofs.Reading.Building.Expression

/-!
# What the rules of statements put together

One lemma for each rule: what it reads derives from what its parts give, in at most four layers.
The one exception is a condition with alternatives. Each `elif` becomes a condition in the branch of
the one before it, which takes a layer of its own, so the layers of a condition grow with the number
of its `elif` clauses.
-/

namespace TreeText

/-- How many of the alternatives of a condition are conditions themselves. -/
def Cst.elifCount (c : Cst) : Nat :=
  (c.childrenUnder "alternative").countP fun clause => clause.kind == "elif_clause"

namespace Supply

open Reading (Yields Result)

variable {v : Visitor Reading.Result} {home : Cst} {given : Form → Tree → Prop}
  (S : Supply v home given) {c d : Cst} {nodes : List Cst} {n : Nat}

/-! ## Imports -/

theorem importAlias_derives (name : String) (asName : Option String) :
    Derives given (n + 1) (.node .importAlias) (.importAlias name asName) :=
  .record rfl rfl rfl (.cons (.text name) (.cons (.optionalText asName) .nil))

theorem importedNames_derive (c : Cst) :
    Derives given (n + 1) (.list (.node .importAlias)) (.seq (v.importedNames c)) := by
  refine .list fun tree htree => ?_
  obtain ⟨name, -, rfl⟩ := List.mem_map.mp htree
  unfold Visitor.importedName
  split
  · exact importAlias_derives _ _
  · exact importAlias_derives _ _

theorem importStatement_derives (c : Cst) :
    Derives given 4 (.node .statement) (v.importStatement c) :=
  .record rfl rfl rfl (.cons (importedNames_derive c) .nil)

theorem futureImport_derives (c : Cst) :
    Derives given 4 (.node .statement) (v.futureImport c) :=
  .record rfl rfl rfl
    (.cons (.present (.text _)) (.cons (importedNames_derive c) (.cons (.int 0) .nil)))

theorem importFrom_derives (c : Cst) :
    Yields (Derives given 4 (.node .statement)) (v.importFrom c) := by
  refine (c.require_yields "module_name").bind fun source _ => ?_
  refine .pure (.record rfl rfl rfl (.cons (.optionalText _) (.cons ?_ (.cons (.int _) .nil))))
  split
  · exact .list (List.forall_mem_singleton.mpr (importAlias_derives "*" none))
  · exact importedNames_derive c

/-! ## Simple statements -/

section

include S

theorem expressionStatement_derives (h : home.Holds c) :
    Yields (Derives given 4 (.node .statement)) (v.expressionStatement c) := by
  refine (S.joined_derives (n := 1) c fun d => h.significant).bind fun value hvalue => ?_
  exact .pure (.record rfl rfl rfl (.cons hvalue .nil))

theorem typedAssignment_derives {left type : Cst} (h : home.Holds c)
    (hleft : c.HasTarget .store left) (htype : home.Encloses type) :
    Yields (Derives given 4 (.node .statement)) (v.typedAssignment c left type) := by
  refine (S.target h hleft).bind fun target htarget => ?_
  refine (S.typeHint htype).bind fun hint hhint => ?_
  refine (S.load?_yields fun d => h.child?).bind fun value hvalue => ?_
  exact .pure (.record rfl rfl rfl (.cons (.given htarget)
    (.cons (.given hhint) (.cons (.given? hvalue) (.cons (.int _) .nil)))))

/-- The right side of an assignment is an assignment itself, or the value. -/
theorem assignedValue_yields (h : home.Encloses c) :
    Yields (fun parts => (∀ target ∈ parts.1, given .store target) ∧ given .load parts.2)
      (v.assignedValue c) := by
  induction c using Visitor.assignedValue.induct with
  | case1 c hkind hleft =>
    rw [Visitor.assignedValue_of_assignment hkind, Cst.require_of_none hleft]
    exact .error _
  | case2 c hkind left hleft ih =>
    rw [Visitor.assignedValue_of_assignment hkind]
    refine S.targetField_bind (by rw [hkind]; decide) h.holds fun target htarget => ?_
    refine (c.require_yields "right").bind fun right hright => ?_
    refine (ih right hright (h.holds.child? hright)).bind fun parts hparts => ?_
    exact .pure ⟨List.forall_mem_cons.mpr ⟨htarget, hparts.1⟩, hparts.2⟩
  | case3 c hkind =>
    rw [Visitor.assignedValue_of_value hkind]
    refine (S.load h).bind fun value hvalue => ?_
    exact .pure ⟨List.forall_mem_nil _, hvalue⟩

theorem plainAssignment_derives {left : Cst} (h : home.Holds c) (hleft : c.HasTarget .store left) :
    Yields (Derives given 4 (.node .statement)) (v.plainAssignment c left) := by
  refine (S.target h hleft).bind fun target htarget => ?_
  cases hright : c.child? "right" with
  | none => exact .error _
  | some right =>
    refine (S.assignedValue_yields (h.child? hright)).bind fun parts hparts => ?_
    refine .pure (.record rfl rfl rfl (.cons (.givens ?_) (.cons (.given hparts.2) .nil)))
    exact List.forall_mem_cons.mpr ⟨htarget, hparts.1⟩

theorem assignment_derives (h : home.Holds c) (hkind : c.kind = "assignment") :
    Yields (Derives given 4 (.node .statement)) (v.assignment c) := by
  refine (c.require_yields "left").bind fun left hleft => ?_
  have htarget : c.HasTarget .store left := .field (by rw [hkind]; decide) hleft
  cases htype : c.child? "type" with
  | none => exact S.plainAssignment_derives h htarget
  | some type => exact S.typedAssignment_derives h htarget (h.child? htype)

theorem augmentedAssignment_derives (h : home.Holds c) (hkind : c.kind = "augmented_assignment") :
    Yields (Derives given 4 (.node .statement)) (v.augmentedAssignment c) := by
  refine (c.require_yields "operator").bind fun operator _ => ?_
  refine (operatorLeaf_yields _ _ _ _).bind fun op hop => ?_
  refine S.targetField_bind (by rw [hkind]; decide) h fun target htarget => ?_
  refine S.loadField_bind h fun value hvalue => ?_
  exact .pure (.record rfl rfl rfl
    (.cons (.given htarget) (.cons (binaryOperator_derives hop) (.cons (.given hvalue) .nil))))

theorem expressionOrAssignment_derives (h : home.Holds c) :
    Yields (Derives given 4 (.node .statement)) (v.expressionOrAssignment c) := by
  unfold Visitor.expressionOrAssignment
  split
  · next single hparts =>
    have hsingle : home.Holds single := by
      refine (h.significant ?_).holds
      rw [hparts]
      exact List.mem_cons_self
    split
    · next hkind => exact S.assignment_derives hsingle hkind
    · next hkind => exact S.augmentedAssignment_derives hsingle hkind
    · exact S.expressionStatement_derives h
  · exact S.expressionStatement_derives h

theorem returning_derives (h : home.Holds c) :
    Yields (Derives given 4 (.node .statement)) (v.returning c) := by
  refine (S.load?_yields fun d => h.first).bind fun value hvalue => ?_
  exact .pure (.record rfl rfl rfl (.cons (.given? hvalue) .nil))

theorem deletion_derives (h : home.Holds c) (hkind : c.kind = "delete_statement") :
    Yields (Derives given 4 (.node .statement)) (v.deletion c) := by
  refine c.firstPart_yields.bind fun target htarget => ?_
  have htargets : ∀ d ∈ Visitor.deletedNodes target,
      Yields (given (.node (.expression .del))) (v.expression .del d) :=
    fun d hd => S.target h (.deleted hkind htarget hd)
  refine (elements_yields htargets).bind fun targets htargets => ?_
  exact .pure (.record rfl rfl rfl (.cons (.givens htargets) .nil))

theorem raising_derives (h : home.Holds c) :
    Yields (Derives given 4 (.node .statement)) (v.raising c) := by
  have hexception : ∀ d, (c.significantBeside "cause").head? = some d → home.Encloses d :=
    fun d hd => h.beside (List.mem_of_head? hd)
  refine (S.load?_yields hexception).bind fun exception hexception => ?_
  refine (S.load?_yields fun d => h.child?).bind fun cause hcause => ?_
  exact .pure (.record rfl rfl rfl (.cons (.given? hexception) (.cons (.given? hcause) .nil)))

omit S in
theorem nameList_derives {kind : String} (hkind : (Category.kinds .statement).contains kind = true)
    (hforms : Grammar.fields? .load kind = some [("names", .list .text)])
    (hparallel : Grammar.parallel kind = []) (c : Cst) :
    Derives given 4 (.node .statement) (v.nameList kind c) := by
  refine .record hkind hforms hparallel (.cons (.list fun tree htree => ?_) .nil)
  obtain ⟨name, -, rfl⟩ := List.mem_map.mp htree
  exact .text _

theorem assertion_derives (h : home.Holds c) :
    Yields (Derives given 4 (.node .statement)) (v.assertion c) := by
  refine S.loadFirst_bind h fun test htest => ?_
  have hmessage : ∀ d, c.significant[1]? = some d → home.Encloses d :=
    fun d hd => h.significant (List.mem_of_getElem? hd)
  refine (S.load?_yields hmessage).bind fun message hmessage => ?_
  exact .pure (.record rfl rfl rfl (.cons (.given htest) (.cons (.given? hmessage) .nil)))

theorem typeAlias_derives (h : home.Holds c) :
    Yields (Derives given 4 (.node .statement)) (v.typeAlias c) := by
  refine (S.typeHint?_yields fun d => h.child?).bind fun name hname => ?_
  refine (S.typeHint?_yields fun d => h.child?).bind fun value hvalue => ?_
  exact .pure (.record rfl rfl rfl (.cons (.given? hname) (.cons (.given? hvalue) .nil)))

/-! ## Compound statements -/

/-- Each `elif` takes one layer, and the statements of an `else` none. -/
theorem alternatives_derive (h : ∀ d ∈ nodes, home.Holds d) :
    Yields (fun trees => ∀ tree ∈ trees,
        Derives given (nodes.countP fun clause => clause.kind == "elif_clause")
          (.node .statement) tree)
      (v.alternatives nodes) := by
  induction nodes with
  | nil =>
    rw [Visitor.alternatives]
    exact .pure (List.forall_mem_nil _)
  | cons clause rest ih =>
    rw [List.forall_mem_cons] at h
    rw [Visitor.alternatives]
    split
    · next hkind =>
      refine S.loadField_bind h.1 fun test htest => ?_
      refine S.blockField_bind h.1 fun body hbody => ?_
      refine (ih h.2).bind fun orelse horelse => ?_
      rw [List.countP_cons_of_pos (by simp [hkind])]
      refine .pure (List.forall_mem_singleton.mpr (.record rfl rfl rfl ?_))
      exact .cons (.given htest) (.cons (.givens hbody) (.cons (.list horelse) .nil))
    · refine (clause.require_yields "body").bind fun body hbody => ?_
      refine (S.block_yields (h.1.child? hbody).holds).mono fun trees htrees tree htree => ?_
      exact .given (htrees tree htree)

theorem conditionalStatement_derives (h : home.Holds c) :
    Yields (Derives given (c.elifCount + 4) (.node .statement)) (v.conditionalStatement c) := by
  refine S.loadField_bind h fun test htest => ?_
  refine S.blockField_bind h fun body hbody => ?_
  refine (S.alternatives_derive fun d hd => (h.under hd).holds).bind fun orelse horelse => ?_
  have horelse : Derives given (c.elifCount + 3) Form.block (.seq orelse) :=
    .list fun tree htree => (horelse tree htree).mono (Nat.le_add_right _ 3)
  exact .pure (.record rfl rfl rfl (.cons (.given htest) (.cons (.givens hbody)
    (.cons horelse .nil))))

end

/-- A statement that may be asynchronous has the same fields in both kinds. -/
theorem asyncRecord_derives (forms : List (String × Form)) {plain async : String}
    {fields : List (String × Tree)} (c : Cst)
    (hkinds : ∀ kind ∈ [plain, async], (Category.kinds .statement).contains kind = true ∧
      Grammar.fields? .load kind = some forms ∧ Grammar.parallel kind = [])
    (h : ∀ kind, DerivesFields given 3 kind forms fields) :
    Derives given 4 (.node .statement) (.record (Visitor.kindOf plain async c) fields) := by
  have hmem : Visitor.kindOf plain async c ∈ [plain, async] := by
    unfold Visitor.kindOf
    split
    · exact List.mem_cons_of_mem _ List.mem_cons_self
    · exact List.mem_cons_self
  obtain ⟨hkind, hforms, hparallel⟩ := hkinds _ hmem
  exact .record hkind hforms hparallel (h _)

section

include S

theorem forLoop_derives (h : home.Holds c) (hkind : c.kind = "for_statement") :
    Yields (Derives given 4 (.node .statement)) (v.forLoop c) := by
  refine S.targetField_bind (by rw [hkind]; decide) h fun target htarget => ?_
  refine S.loadField_bind h fun iterable hiterable => ?_
  refine S.blockField_bind h fun body hbody => ?_
  refine (S.elseBody_yields fun d hd => (h.child? hd).holds).bind fun orelse horelse => ?_
  refine .pure (asyncRecord_derives Grammar.forFields c (by decide) fun kind => ?_)
  exact .cons (.given htarget) (.cons (.given hiterable)
    (.cons (.givens hbody) (.cons (.givens horelse) .nil)))

theorem whileLoop_derives (h : home.Holds c) :
    Yields (Derives given 4 (.node .statement)) (v.whileLoop c) := by
  refine (S.elseBody_yields fun d hd => (h.child? hd).holds).bind fun orelse horelse => ?_
  refine S.loadField_bind h fun test htest => ?_
  refine S.blockField_bind h fun body hbody => ?_
  exact .pure (.record rfl rfl rfl
    (.cons (.given htest) (.cons (.givens hbody) (.cons (.givens horelse) .nil))))

/-! ### Handlers -/

/-- A handler's statements are given, and the expressions before them lie in the construct. -/
def HandlerPartsDerive (home : Cst) (given : Form → Tree → Prop) (parts : HandlerParts) : Prop :=
  (∀ tree ∈ parts.body, given (.node .statement) tree) ∧ ∀ d ∈ parts.expressions, home.Encloses d

theorem addHandlerPart_derives {parts : HandlerParts}
    (hparts : HandlerPartsDerive home given parts) (h : home.Encloses c) :
    Yields (HandlerPartsDerive home given) (v.addHandlerPart parts c) := by
  unfold Visitor.addHandlerPart
  split
  · refine (S.block_yields h.holds).bind fun body hbody => ?_
    exact .pure ⟨hbody, hparts.2⟩
  · refine .pure ⟨hparts.1, ?_⟩
    exact List.forall_mem_append.mpr ⟨hparts.2, List.forall_mem_singleton.mpr h⟩

theorem caught_yields (h : ∀ d ∈ nodes, home.Encloses d) :
    Yields (fun parts => (parts.1 = .absent ∨ given .load parts.1) ∧
      ∃ name : Option String, parts.2 = .ofText? name) (v.caught nodes) := by
  match nodes, h with
  | [], _ => exact .pure ⟨.inl rfl, none, rfl⟩
  | [single], h =>
    have hsingle := h single List.mem_cons_self
    show Yields _ (if _ then _ else _)
    split
    · refine single.firstPart_yields.bind fun exception hexception => ?_
      refine (S.load (hsingle.holds.first hexception)).bind fun exception hexception => ?_
      exact .pure ⟨.inr hexception, _, rfl⟩
    · refine (S.load hsingle).bind fun exception hexception => ?_
      exact .pure ⟨.inr hexception, none, rfl⟩
  | exception :: name :: _, h =>
    refine (S.load (h exception List.mem_cons_self)).bind fun exception hexception => ?_
    exact .pure ⟨.inr hexception, some (v.text name), rfl⟩

theorem handler_derives (h : home.Holds c) :
    Yields (Derives given 3 (.node .handler)) (v.handler c) := by
  have hempty : HandlerPartsDerive home given ⟨[], []⟩ :=
    ⟨List.forall_mem_nil _, List.forall_mem_nil _⟩
  have hloop := Yields.foldlM (fun parts d hd hparts =>
    S.addHandlerPart_derives hparts (h.significant hd)) hempty
  refine hloop.bind fun parts hparts => ?_
  refine (S.caught_yields hparts.2).bind fun caught hcaught => ?_
  obtain ⟨exception, name⟩ := caught
  obtain ⟨hexception, text, rfl⟩ := hcaught
  exact .pure (.record rfl rfl rfl
    (.cons (.given? hexception) (.cons (.optionalText text) (.cons (.givens hparts.1) .nil))))

theorem finalBody_yields (h : home.Holds c) :
    Yields (fun body => ∀ trees, body = some trees → ∀ tree ∈ trees, given (.node .statement) tree)
      (v.finalBody c) := by
  unfold Visitor.finalBody
  split
  · next block hblock =>
    have hencloses : home.Encloses block := h.significant (List.mem_of_find?_eq_some hblock)
    refine (S.block_yields hencloses.holds).bind fun body hbody => .pure ?_
    rintro trees ⟨⟩
    exact hbody
  · refine .pure ?_
    rintro trees ⟨⟩

/-- The clauses of a `try` statement hold what its fields may hold. -/
structure TryClausesDerive (given : Form → Tree → Prop) (clauses : TryClauses) : Prop where
  handlers : ∀ tree ∈ clauses.handlers, Derives given 3 (.node .handler) tree
  orelse : ∀ tree ∈ clauses.orelse, given (.node .statement) tree
  finalBody : ∀ tree ∈ clauses.finalBody, given (.node .statement) tree

theorem addTryClause_derives {clauses : TryClauses} (hclauses : TryClausesDerive given clauses)
    (h : home.Holds c) : Yields (TryClausesDerive given) (v.addTryClause clauses c) := by
  have hadded : ∀ {tree : Tree}, Derives given 3 (.node .handler) tree →
      ∀ other ∈ clauses.handlers ++ [tree], Derives given 3 (.node .handler) other := fun htree =>
    List.forall_mem_append.mpr ⟨hclauses.handlers, List.forall_mem_singleton.mpr htree⟩
  unfold Visitor.addTryClause
  split
  · refine (S.handler_derives h).bind fun handler hhandler => ?_
    exact .pure { hclauses with handlers := hadded hhandler }
  · refine (S.handler_derives h).bind fun handler hhandler => ?_
    exact .pure { hclauses with handlers := hadded hhandler }
  · refine S.blockField_bind h fun body hbody => ?_
    exact .pure { hclauses with orelse := hbody }
  · refine (S.finalBody_yields h).bind fun body hbody => ?_
    refine .pure { hclauses with finalBody := ?_ }
    cases body with
    | none => exact hclauses.finalBody
    | some trees => exact hbody trees rfl
  · exact .pure hclauses

theorem tryBlock_derives (h : home.Holds c) :
    Yields (Derives given 4 (.node .statement)) (v.tryBlock c) := by
  have hempty : TryClausesDerive given ⟨[], [], [], false⟩ :=
    ⟨List.forall_mem_nil _, List.forall_mem_nil _, List.forall_mem_nil _⟩
  have hloop := Yields.foldlM (fun clauses d hd hclauses =>
    S.addTryClause_derives hclauses (h.significant hd).holds) hempty
  refine hloop.bind fun clauses hclauses => ?_
  refine S.blockField_bind h fun body hbody => ?_
  have hfields : ∀ kind, DerivesFields given 3 kind Grammar.tryFields [
      ("body", .seq body),
      ("handlers", .seq clauses.handlers),
      ("orelse", .seq clauses.orelse),
      ("finalbody", .seq clauses.finalBody)] := fun kind =>
    .cons (.givens hbody) (.cons ((Derives.list hclauses.handlers).mono (Nat.le_add_right _ _))
      (.cons (.givens hclauses.orelse) (.cons (.givens hclauses.finalBody) .nil)))
  refine .pure ?_
  split
  · exact .record rfl rfl rfl (hfields _)
  · exact .record rfl rfl rfl (hfields _)

/-! ### Items of a `with` statement -/

omit S in
theorem withParts_yields (h : home.Holds c) (hkind : c.kind = "with_item") :
    Yields (fun parts => home.Encloses parts.1 ∧
      ∀ target, parts.2 = some target → c.HasTarget .store target) (Visitor.withParts c) := by
  refine (c.require_yields "value").bind fun value hvalue => ?_
  have hencloses := h.child? hvalue
  cases halias : c.child? "alias" with
  | some target =>
    refine .pure ⟨hencloses, ?_⟩
    rintro target ⟨⟩
    exact .field (by rw [hkind]; decide) halias
  | none =>
    show Yields _ (if _ then _ else _)
    split
    · next hpattern =>
      refine value.firstPart_yields.bind fun part hpart => ?_
      exact .pure ⟨hencloses.holds.first hpart, fun target => .pattern hkind hvalue hpattern⟩
    · refine .pure ⟨hencloses, ?_⟩
      rintro target ⟨⟩

theorem withItem_derives (h : home.Holds c) (hkind : c.kind = "with_item") :
    Yields (Derives given 3 (.node .withItem)) (v.withItem c) := by
  refine (withParts_yields h hkind).bind fun parts hparts => ?_
  obtain ⟨value, target⟩ := parts
  obtain ⟨hvalue, htarget⟩ := hparts
  have hstore : Yields (fun tree => tree = .absent ∨ given .store tree) (v.store? target) := by
    cases target with
    | none => exact .pure (.inl rfl)
    | some target => exact (S.target h (htarget target rfl)).mono fun _ => .inr
  refine hstore.bind fun target htarget => ?_
  refine (S.load hvalue).bind fun value hvalue => ?_
  exact .pure (.record rfl rfl rfl (.cons (.given hvalue) (.cons (.given? htarget) .nil)))

omit S in
theorem withItems_mem (h : home.Holds c) (hd : d ∈ Visitor.withItems c) :
    home.Holds d ∧ d.kind = "with_item" := by
  obtain ⟨clause, hclause, hd⟩ := List.mem_flatMap.mp hd
  obtain ⟨hd, hkind⟩ := List.mem_filter.mp hd
  have hholds := (h.significant (List.mem_filter.mp hclause).1).holds
  exact ⟨(hholds.significant hd).holds, beq_iff_eq.mp hkind⟩

theorem withBlock_derives (h : home.Holds c) :
    Yields (Derives given 4 (.node .statement)) (v.withBlock c) := by
  have hitems : Yields (fun trees => ∀ tree ∈ trees, Derives given 3 (.node .withItem) tree)
      ((Visitor.withItems c).mapM v.withItem) := .mapM fun d hd =>
    S.withItem_derives (withItems_mem h hd).1 (withItems_mem h hd).2
  refine hitems.bind fun items hitems => ?_
  refine S.blockField_bind h fun body hbody => ?_
  refine .pure (asyncRecord_derives Grammar.withFields c (by decide) fun kind => ?_)
  exact .cons ((Derives.list hitems).mono (Nat.le_add_right _ _)) (.cons (.givens hbody) .nil)

/-! ### Definitions -/

theorem functionDefinition_derives {decorators : List Tree}
    (hdecorators : ∀ tree ∈ decorators, given .load tree) (h : home.Holds c) :
    Yields (Derives given 4 (.node .statement)) (v.functionDefinition decorators c) := by
  refine (S.typeHint?_yields fun d => h.child?).bind fun returns hreturns => ?_
  refine (c.require_yields "name").bind fun name _ => ?_
  refine (S.parameters_derive fun d hd => (h.child? hd).holds).bind
    fun parameters hparameters => ?_
  refine S.blockField_bind h fun body hbody => ?_
  refine .pure (asyncRecord_derives Grammar.functionFields c (by decide) fun kind => ?_)
  exact .cons (.text _) (.cons (hparameters.mono (Nat.le_add_right _ _)) (.cons (.givens hbody)
    (.cons (.givens hdecorators) (.cons (.given? hreturns) .nil))))

theorem superclasses_derive {list : Option Cst} (h : ∀ d, list = some d → home.Holds d) :
    Yields (PartedDerive given) (v.superclasses list) := by
  cases list with
  | none => exact .pure partedDerive_nil
  | some list => exact S.arguments_derive (h list rfl)

theorem classDefinition_derives {decorators : List Tree}
    (hdecorators : ∀ tree ∈ decorators, given .load tree) (h : home.Holds c) :
    Yields (Derives given 4 (.node .statement)) (v.classDefinition decorators c) := by
  refine (S.superclasses_derive fun d hd => (h.child? hd).holds).bind fun lists hlists => ?_
  refine (c.require_yields "name").bind fun name _ => ?_
  refine S.blockField_bind h fun body hbody => ?_
  exact .pure (.record rfl rfl rfl (.cons (.text _) (.cons (.list hlists.1)
    (.cons (.list hlists.2) (.cons (.givens hbody) (.cons (.givens hdecorators) .nil))))))

theorem decorator_yields (h : home.Holds c) : Yields (given .load) (v.decorator c) :=
  c.firstPart_yields.bind fun _ hpart => S.load (h.first hpart)

theorem decorated_derives (h : home.Holds c) :
    Yields (Derives given 4 (.node .statement)) (v.decorated c) := by
  have hdecorators : Yields (fun trees => ∀ tree ∈ trees, given .load tree)
      ((c.significant.filter fun child => child.kind == "decorator").mapM v.decorator) :=
    .mapM fun d hd => S.decorator_yields (h.significant (List.mem_filter.mp hd).1).holds
  refine hdecorators.bind fun decorators hdecorators => ?_
  refine (c.require_yields "definition").bind fun definition hdefinition => ?_
  have hholds := (h.child? hdefinition).holds
  split
  · exact S.classDefinition_derives hdecorators hholds
  · exact S.functionDefinition_derives hdecorators hholds

theorem matching_derives (h : home.Holds c) :
    Yields (Derives given 4 (.node .statement)) (v.matching c) := by
  refine (S.load?_yields fun d => h.child?).bind fun subject hsubject => ?_
  exact .pure (.record rfl rfl rfl (.cons (.given? hsubject) .nil))

end

/-! ## Statements -/

/-- What the construct of a statement says of the kind of its node. -/
theorem kind_of_statementForm (kind : String) :
    (StatementForm.ofKind kind = .deletion → kind = "delete_statement") ∧
      (StatementForm.ofKind kind = .forLoop → kind = "for_statement") := by
  generalize hform : StatementForm.ofKind kind = form
  unfold StatementForm.ofKind at hform
  split at hform <;> subst hform <;> simp

theorem names_derive {kind name : String} (h : StatementForm.ofKind kind = .names name) (c : Cst) :
    Derives given 4 (.node .statement) (v.nameList name c) := by
  unfold StatementForm.ofKind at h
  split at h <;> cases h <;> exact nameList_derives rfl rfl rfl c

/-- A word that is a statement has a kind of its own; any other construct without a rule keeps the
kind of its node. -/
theorem leaf_builds {name : String} (h : StatementForm.ofKind c.kind = .leaf name) :
    Builds given 4 .statement c (.leaf name) := by
  by_cases hname : name = c.kind
  · subst hname
    exact .inl ⟨h, rfl⟩
  · refine .inr ?_
    generalize c.kind = kind at h hname
    unfold StatementForm.ofKind at h
    split at h <;> cases h <;> first | exact .leaf rfl rfl rfl | exact absurd rfl hname

/-- A statement derives from its parts, unless there is no rule for its construct. -/
theorem statementForm_derives (S : Supply v home given) :
    Yields (Builds given (home.elifCount + 4) .statement home) (v.statementForm home) := by
  have hself : home.Holds home := .self
  obtain ⟨hdeletionKind, hforKind⟩ := kind_of_statementForm home.kind
  have hderives : ∀ {x : Result Tree}, Yields (Derives given 4 (.node .statement)) x →
      Yields (Builds given (home.elifCount + 4) .statement home) x := fun h =>
    h.mono fun tree htree => .inr (htree.mono (Nat.le_add_left _ _))
  have hnone : ∀ tree ∈ ([] : List Tree), given .load tree := List.forall_mem_nil _
  unfold Visitor.statementForm
  cases hform : StatementForm.ofKind home.kind with
  | expression => exact hderives (S.expressionOrAssignment_derives hself)
  | leaf kind =>
    exact .pure ((leaf_builds hform).mono (Nat.le_add_left _ _))
  | returning => exact hderives (S.returning_derives hself)
  | deletion => exact hderives (S.deletion_derives hself (hdeletionKind hform))
  | raising => exact hderives (S.raising_derives hself)
  | names kind => exact hderives (.pure (names_derive hform home))
  | assertion => exact hderives (S.assertion_derives hself)
  | importModules => exact hderives (.pure (importStatement_derives home))
  | importFrom => exact hderives (importFrom_derives home)
  | importFuture => exact hderives (.pure (futureImport_derives home))
  | conditional =>
    exact (S.conditionalStatement_derives hself).mono fun _ => .inr
  | forLoop => exact hderives (S.forLoop_derives hself (hforKind hform))
  | whileLoop => exact hderives (S.whileLoop_derives hself)
  | tryBlock => exact hderives (S.tryBlock_derives hself)
  | withBlock => exact hderives (S.withBlock_derives hself)
  | functionDefinition => exact hderives (S.functionDefinition_derives hnone hself)
  | classDefinition => exact hderives (S.classDefinition_derives hnone hself)
  | decorated => exact hderives (S.decorated_derives hself)
  | matching => exact hderives (S.matching_derives hself)
  | typeAlias => exact hderives (S.typeAlias_derives hself)
  | bareCall callee => exact .error _

end Supply

end TreeText
