import TreeText.Proofs.Reading.Building.Literal
import TreeText.Proofs.Reading.Building.Call

/-!
# What the rules of expressions put together

One lemma for each rule of operators, collections and expressions: what it reads derives from what
its parts give, in at most four layers. The chain of left operands takes no more layers than one
operator, as the grammar leaves the way into a left operand uncounted.

`expressionForm_derives` brings the rules together. It is the one place where an access other than
`load` comes in: only what an expression passes its own access on to, and a type that stands in its
place, has to be given for that access.
-/

namespace TreeText

namespace Supply

open Reading (Yields Result)

variable {v : Visitor Reading.Result} {home : Cst} {given : Form → Tree → Prop}
  (S : Supply v home given) {c d : Cst} {nodes : List Cst} {access : Access} {n : Nat}

/-! ## Operators -/

theorem operatorLeaf_yields (table : String → Option String) (token : Cst) (text : String)
    (unknown : Cause) :
    Yields (fun tree => ∃ kind, table text = some kind ∧ tree = .leaf kind)
      (Reading.operatorLeaf table token text unknown) := by
  unfold Reading.operatorLeaf
  cases hkind : table text with
  | none => exact .error _
  | some kind => exact .pure ⟨kind, rfl, rfl⟩

theorem binaryOperator_derives {text : String} {tree : Tree}
    (h : ∃ kind, binaryOperator? text = some kind ∧ tree = .leaf kind) :
    Derives given (n + 1) (.node .binaryOperator) tree := by
  obtain ⟨kind, hkind, rfl⟩ := h
  unfold binaryOperator? at hkind
  split at hkind <;> cases hkind <;> exact .leaf rfl rfl rfl

theorem unaryOperator_derives {text : String} {tree : Tree}
    (h : ∃ kind, unaryOperator? text = some kind ∧ tree = .leaf kind) :
    Derives given (n + 1) (.node .unaryOperator) tree := by
  obtain ⟨kind, hkind, rfl⟩ := h
  unfold unaryOperator? at hkind
  split at hkind <;> cases hkind <;> exact .leaf rfl rfl rfl

theorem comparisonOperator_derives {text : String} {tree : Tree}
    (h : ∃ kind, comparisonOperator? text = some kind ∧ tree = .leaf kind) :
    Derives given (n + 1) (.node .comparisonOperator) tree := by
  obtain ⟨kind, hkind, rfl⟩ := h
  unfold comparisonOperator? at hkind
  split at hkind <;> cases hkind <;> exact .leaf rfl rfl rfl

/-- Every operator of the chain, and the leftmost operand, stand in the construct. -/
theorem leftSpine_yields {outer : List Cst} (h : home.Holds c)
    (houter : ∀ d ∈ outer, home.Holds d) :
    Yields (fun spine : List Cst × Cst => spine.1 ≠ [] ∧
      (∀ d ∈ spine.1, home.Holds d) ∧ home.Encloses spine.2) (c.leftSpine outer) := by
  have hpassed : ∀ d ∈ c :: outer, home.Holds d := List.forall_mem_cons.mpr ⟨h, houter⟩
  induction c, outer using Cst.leftSpine.induct with
  | case1 c outer hleft =>
    rw [Cst.leftSpine_eq, Cst.require_of_none hleft]
    exact .error _
  | case2 c outer left hleft hkind ih =>
    rw [Cst.leftSpine_eq, Cst.require_of_some hleft]
    show Yields _ (if _ then _ else _)
    rw [if_pos hkind]
    have hholds := (h.child? hleft).holds
    exact ih hholds hpassed (List.forall_mem_cons.mpr ⟨hholds, hpassed⟩)
  | case3 c outer left hleft hkind =>
    rw [Cst.leftSpine_eq, Cst.require_of_some hleft]
    show Yields _ (if _ then _ else _)
    rw [if_neg hkind]
    exact .pure ⟨List.cons_ne_nil _ _, hpassed, h.child? hleft⟩

section

include S

/-- The operand on the left may have as many layers as the operator itself. -/
theorem applyOperator_derives {left : Tree} (hleft : Derives given 4 .load left)
    (h : home.Holds c) :
    Yields (fun tree => ∀ access, Derives given 4 (.node (.expression access)) tree)
      (v.applyOperator left c) := by
  refine (c.require_yields "operator").bind fun operator _ => ?_
  refine (operatorLeaf_yields binaryOperator? _ _ _).bind fun op hop => ?_
  refine S.loadField_bind h fun right hright => ?_
  refine .pure fun access => .record rfl rfl rfl ?_
  exact .cons hleft (.cons (binaryOperator_derives hop) (.cons (.given hright) .nil))

theorem binaryOperation_derives (h : home.Holds c) :
    Yields (Derives given 4 (.node (.expression access))) (v.binaryOperation c) := by
  refine (leftSpine_yields h (List.forall_mem_nil _)).bind fun spine hspine => ?_
  obtain ⟨operators, leftmost⟩ := spine
  obtain ⟨hne, hoperators, hleftmost⟩ := hspine
  refine (S.load hleftmost).bind fun value hvalue => ?_
  -- The innermost operator is applied to what was given, the others to what has been built.
  obtain ⟨innermost, outer, rfl⟩ := List.exists_cons_of_ne_nil hne
  rw [List.forall_mem_cons] at hoperators
  rw [List.foldlM_cons]
  refine (S.applyOperator_derives (.given hvalue) hoperators.1).bind fun left hleft => ?_
  have hloop := Yields.foldlM (fun left operator hoperator hleft =>
    S.applyOperator_derives (hleft .load) (hoperators.2 operator hoperator)) hleft
  exact hloop.mono fun tree htree => htree access

theorem unaryOperation_derives (h : home.Holds c) :
    Yields (Derives given 4 (.node (.expression access))) (v.unaryOperation c) := by
  refine (c.require_yields "operator").bind fun operator _ => ?_
  refine (operatorLeaf_yields unaryOperator? _ _ _).bind fun op hop => ?_
  refine S.loadField_bind h fun operand hoperand => ?_
  exact .pure (.record rfl rfl rfl
    (.cons (unaryOperator_derives hop) (.cons (.given hoperand) .nil)))

theorem negation_derives (h : home.Holds c) :
    Yields (Derives given 4 (.node (.expression access))) (v.negation c) := by
  refine S.loadField_bind h fun operand hoperand => ?_
  exact .pure (.record rfl rfl rfl (.cons (.leaf rfl rfl rfl) (.cons (.given hoperand) .nil)))

/-- The operands of a logical operator that are joined by the same operator stand in the construct
too, so all values are given; the construct itself is looked into and never read as a value. -/
theorem operandValues_yields (operator : String) (h : ∀ d ∈ nodes, home.Encloses d) :
    Yields (fun trees => ∀ tree ∈ trees, given .load tree) (v.operandValues operator nodes) := by
  induction nodes using Visitor.operandValues.induct v operator with
  | case1 =>
    rw [Visitor.operandValues]
    exact .pure (List.forall_mem_nil _)
  | case2 c pending hjoins hright =>
    rw [Visitor.operandValues_of_joinsBy hjoins, Cst.require_of_none hright]
    exact .error _
  | case3 c pending hjoins right hright hleft =>
    rw [Visitor.operandValues_of_joinsBy hjoins, Cst.require_of_some hright,
      Cst.require_of_none hleft]
    exact .error _
  | case4 c pending hjoins right hright left hleft ih =>
    rw [Visitor.operandValues_of_joinsBy hjoins, Cst.require_of_some hright,
      Cst.require_of_some hleft]
    rw [List.forall_mem_cons] at h
    have hc := h.1.holds
    refine ih (List.forall_mem_cons.mpr ⟨hc.child? hleft, List.forall_mem_cons.mpr ⟨?_, h.2⟩⟩)
    exact hc.child? hright
  | case5 c pending hjoins ih =>
    rw [Bool.not_eq_true] at hjoins
    rw [Visitor.operandValues_of_not_joinsBy hjoins]
    rw [List.forall_mem_cons] at h
    refine (S.load h.1).bind fun value hvalue => ?_
    refine (ih h.2).bind fun values hvalues => ?_
    exact .pure (List.forall_mem_cons.mpr ⟨hvalue, hvalues⟩)

theorem booleanOperation_derives (h : home.Holds c) (hkind : c.kind = "boolean_operator") :
    Yields (Derives given 4 (.node (.expression access))) (v.booleanOperation c) := by
  refine (c.require_yields "operator").bind fun token htoken => ?_
  have hjoins : v.joinsBy (v.text token) c = true := by
    simp [Visitor.joinsBy, hkind, htoken]
  have hvalues : Yields (fun trees => ∀ tree ∈ trees, given .load tree)
      (v.operandValues (v.text token) [c]) := by
    rw [Visitor.operandValues_of_joinsBy hjoins]
    refine (c.require_yields "right").bind fun right hright => ?_
    refine (c.require_yields "left").bind fun left hleft => ?_
    refine S.operandValues_yields _ (List.forall_mem_cons.mpr ⟨h.child? hleft, ?_⟩)
    exact List.forall_mem_singleton.mpr (h.child? hright)
  refine hvalues.bind fun values hvalues => ?_
  refine .pure (.record rfl rfl rfl (.cons ?_ (.cons (.givens hvalues) .nil)))
  split
  · exact .leaf rfl rfl rfl
  · exact .leaf rfl rfl rfl

end

/-! ## Comparisons -/

theorem mem_of_operand {pending : Option (Cst × String)}
    (h : d ∈ (comparisonParts pending nodes).1) : d ∈ nodes := by
  induction nodes generalizing pending with
  | nil => cases h
  | cons c rest ih =>
    cases hnamed : c.isNamed with
    | false =>
      rw [comparisonParts_token hnamed] at h
      exact List.mem_cons_of_mem _ (ih h)
    | true =>
      by_cases hkind : c.kind = "comment"
      · rw [comparisonParts_comment hnamed hkind] at h
        exact List.mem_cons_of_mem _ (ih h)
      · rw [comparisonParts_operand hnamed hkind] at h
        rcases List.mem_cons.mp h with rfl | h
        · exact List.mem_cons_self
        · exact List.mem_cons_of_mem _ (ih h)

section

include S

theorem comparison_derives (h : home.Holds c) :
    Yields (Derives given 4 (.node (.expression access))) (v.comparison c) := by
  have hoperands : ∀ d ∈ (comparisonParts none c.children).1, home.Encloses d :=
    fun d hd => ⟨c, h, mem_of_operand hd⟩
  unfold Visitor.comparison
  split
  · exact .error _
  · next left comparators operators hparts =>
    rw [hparts, List.forall_mem_cons] at hoperands
    have hops : Yields (fun trees => ∀ tree ∈ trees,
        Derives given 3 (.node .comparisonOperator) tree) (operators.mapM fun operator =>
          Reading.operatorLeaf comparisonOperator? operator.1 operator.2
            (.unknownComparison operator.2)) :=
      .mapM fun operator _ =>
        (operatorLeaf_yields _ _ _ _).mono fun _ => comparisonOperator_derives
    refine hops.bind fun ops hops => ?_
    refine (S.load hoperands.1).bind fun left hleft => ?_
    refine (elements_yields fun d hd => S.load (hoperands.2 d hd)).bind
      fun comparators hcomparators => ?_
    exact .pure (.record rfl rfl rfl
      (.cons (.given hleft) (.cons (.list hops) (.cons (.givens hcomparators) .nil))))

end

/-! ## Subscripts -/

/-- Each bound of a slice is an expression or left out. -/
structure BoundsDerive (given : Form → Tree → Prop) (bounds : Bounds) : Prop where
  lower : bounds.lower = .absent ∨ given .load bounds.lower
  upper : bounds.upper = .absent ∨ given .load bounds.upper
  step : bounds.step = .absent ∨ given .load bounds.step

theorem boundsDerive_start : BoundsDerive given .start := ⟨.inl rfl, .inl rfl, .inl rfl⟩

theorem BoundsDerive.place {bounds : Bounds} {value : Tree} (h : BoundsDerive given bounds)
    (hvalue : given .load value) : BoundsDerive given (bounds.place value) := by
  unfold Bounds.place
  split
  · exact { h with lower := .inr hvalue }
  · exact { h with upper := .inr hvalue }
  · exact { h with step := .inr hvalue }
  · exact h

section

include S

theorem addBound_derives {bounds : Bounds} (hbounds : BoundsDerive given bounds)
    (h : home.Encloses c) : Yields (BoundsDerive given) (v.addBound bounds c) := by
  unfold Visitor.addBound
  split
  · refine .pure ?_
    split
    · exact { hbounds with }
    · exact hbounds
  · split
    · exact (S.load h).bind fun value hvalue => .pure (hbounds.place hvalue)
    · exact .pure hbounds

/-- One item is an index or a slice, whether it stands alone or among several. -/
theorem subscriptItem_derives {category : Category}
    (hindex : category.kinds.contains "Index" = true)
    (hslice : category.kinds.contains "Slice" = true) (h : home.Encloses c) :
    Yields (Derives given 2 (.node category)) (v.subscriptItem c) := by
  unfold Visitor.subscriptItem
  split
  · have hbounds := Yields.foldlM (fun bounds d hd (hbounds : BoundsDerive given bounds) =>
      S.addBound_derives hbounds ⟨c, h.holds, hd⟩) boundsDerive_start
    refine hbounds.bind fun bounds hbounds => ?_
    exact .pure (.record hslice rfl rfl (.cons (.given? hbounds.lower)
      (.cons (.given? hbounds.upper) (.cons (.given? hbounds.step) .nil))))
  · exact (S.load h).bind fun value hvalue => .pure (.index hindex (.given hvalue))

theorem severalItems_derive (h : ∀ d ∈ nodes, home.Encloses d) :
    Yields (Derives given 3 (.node .slice))
      (if nodes.any fun item => item.kind == "slice" then do
        return Tree.record "ExtSlice" [("dims", .seq (← nodes.mapM v.subscriptItem))]
      else do
        return .index (← v.tuple .load nodes)) := by
  split
  · have hdims : Yields (fun trees => ∀ tree ∈ trees, Derives given 2 (.node .dimension) tree)
        (nodes.mapM v.subscriptItem) :=
      .mapM fun d hd => S.subscriptItem_derives rfl rfl (h d hd)
    refine hdims.bind fun dims hdims => ?_
    exact .pure (.record rfl rfl rfl (.cons (.list hdims) .nil))
  · have htuple : Yields (Derives given 2 .load) (v.tuple .load nodes) :=
      tuple_derives fun d hd => S.load (h d hd)
    exact htuple.bind fun value hvalue => .pure (.index rfl hvalue)

theorem subscriptItems_derive (hasComma : Bool) (h : ∀ d ∈ nodes, home.Encloses d) :
    Yields (Derives given 3 (.node .slice)) (v.subscriptItems hasComma nodes) := by
  cases hasComma with
  | true => exact S.severalItems_derive h
  | false =>
    match nodes, h with
    | [], h => exact S.severalItems_derive h
    | [single], h =>
      have hsingle : Yields (Derives given 2 (.node .slice)) (v.subscriptItem single) :=
        S.subscriptItem_derives rfl rfl (h single List.mem_cons_self)
      exact hsingle.mono fun tree htree => htree.mono (Nat.le_succ 2)
    | _ :: _ :: _, h => exact S.severalItems_derive h

theorem subscript_derives (h : home.Holds c) :
    Yields (Derives given 4 (.node (.expression access))) (v.subscript access c) := by
  refine (S.subscriptItems_derive _ fun d => h.under).bind fun slice hslice => ?_
  refine S.loadField_bind h fun value hvalue => ?_
  exact .pure (.record rfl rfl rfl
    (.cons (.given hvalue) (.cons hslice (.cons (.marker access) .nil))))

/-! ## Dictionaries and comprehensions -/

theorem dictItem_yields (h : home.Holds c) :
    Yields (fun item => (item.1 = .absent ∨ given .load item.1) ∧ given .load item.2)
      (v.dictItem c) := by
  unfold Visitor.dictItem
  split
  · refine S.loadField_bind h fun key hkey => ?_
    exact S.loadField_bind h fun value hvalue => .pure ⟨.inr hkey, hvalue⟩
  · exact S.loadFirst_bind h fun value hvalue => .pure ⟨.inl rfl, hvalue⟩
  · exact .error _

theorem dictionary_derives (h : home.Holds c) :
    Yields (Derives given 4 (.node (.expression access))) (v.dictionary c) := by
  refine (Yields.mapM fun d hd => S.dictItem_yields (h.significant hd).holds).bind
    fun items hitems => ?_
  have hfields : DerivesFields given 3 "Dict"
      [("keys", .list (.optional .load)), ("values", .list .load)]
      [("keys", .seq (items.map (·.1))), ("values", .seq (items.map (·.2)))] := by
    refine .cons (.list fun key hkey => ?_) (.cons (.givens fun value hvalue => ?_) .nil)
    · obtain ⟨item, hitem, rfl⟩ := List.mem_map.mp hkey
      exact .given? (hitems item hitem).1
    · obtain ⟨item, hitem, rfl⟩ := List.mem_map.mp hvalue
      exact (hitems item hitem).2
  refine .pure (.node (by simp [Category.kinds]) rfl hfields.names hfields.zip ?_)
  refine List.forall_mem_singleton.mpr ⟨items.map (·.1), items.map (·.2), ?_, ?_, ?_⟩
  · simp
  · simp
  · rw [List.length_map, List.length_map]

/-- What the clauses of a comprehension have come to so far. -/
structure LoopDerives (given : Form → Tree → Prop) (loop : Loop) : Prop where
  target : given .store loop.target
  iterable : Derives given 2 .load loop.iterable
  filters : ∀ tree ∈ loop.filters, given .load tree

omit S in
theorem LoopDerives.toTree {loop : Loop} (h : LoopDerives given loop) :
    Derives given 3 (.node .loop) loop.toTree :=
  .record rfl rfl rfl (.cons (.given h.target)
    (.cons h.iterable (.cons (.givens h.filters) (.cons (.int _) .nil))))

theorem addClause_derives {loops : List Loop} (hloops : ∀ loop ∈ loops, LoopDerives given loop)
    (h : home.Holds c) :
    Yields (fun loops => ∀ loop ∈ loops, LoopDerives given loop) (v.addClause loops c) := by
  unfold Visitor.addClause
  split
  · next hkind =>
    refine S.targetField_bind (by rw [hkind]; decide) h fun target htarget => ?_
    refine (S.joined_derives (n := 0) c fun d => h.under).bind fun iterable hiterable => ?_
    refine .pure (List.forall_mem_cons.mpr ⟨?_, hloops⟩)
    exact ⟨htarget, hiterable, List.forall_mem_nil _⟩
  · refine S.loadFirst_bind h fun test htest => ?_
    split
    · rw [List.forall_mem_cons] at hloops
      refine .pure (List.forall_mem_cons.mpr ⟨{ hloops.1 with filters := ?_ }, hloops.2⟩)
      exact List.forall_mem_append.mpr ⟨hloops.1.filters, List.forall_mem_singleton.mpr htest⟩
    · exact .error _
  · exact .pure hloops

theorem loops_derive (h : home.Holds c) :
    Yields (Derives given 3 (.list (.node .loop))) (v.loops c) := by
  have hclauses : ∀ d ∈ c.significantBeside "body", home.Holds d := fun d hd => (h.beside hd).holds
  have hloops := Yields.foldlM (fun loops d hd hloops =>
    S.addClause_derives hloops (hclauses d hd)) (List.forall_mem_nil _)
  refine hloops.bind fun loops hloops => .pure (.list fun tree htree => ?_)
  obtain ⟨loop, hloop, rfl⟩ := List.mem_map.mp htree
  exact (hloops loop (List.mem_reverse.mp hloop)).toTree

theorem comprehension_derives {kind : String}
    (hkind : (Category.kinds (.expression access)).contains kind = true)
    (hforms : Grammar.fields? access kind = some Grammar.comprehensionFields)
    (hparallel : Grammar.parallel kind = []) (h : home.Holds c) :
    Yields (Derives given 4 (.node (.expression access))) (v.comprehension kind c) := by
  refine S.loadField_bind h fun element helement => ?_
  refine (S.loops_derive h).bind fun loops hloops => ?_
  refine .pure (.record hkind hforms hparallel (.cons (.given helement) (.cons ?_ .nil)))
  exact hloops.mono (Nat.le_add_right _ _)

theorem dictComprehension_derives (h : home.Holds c) :
    Yields (Derives given 4 (.node (.expression access))) (v.dictComprehension c) := by
  refine (c.require_yields "body").bind fun body hbody => ?_
  have hholds := (h.child? hbody).holds
  refine S.loadField_bind hholds fun key hkey => ?_
  refine S.loadField_bind hholds fun value hvalue => ?_
  refine (S.loops_derive h).bind fun loops hloops => ?_
  exact .pure (.record rfl rfl rfl
    (.cons (.given hkey) (.cons (.given hvalue) (.cons hloops .nil))))

/-! ## Expressions -/

omit S in
theorem number_derives (c : Cst) :
    Derives given 4 (.node (.expression access)) (v.number c) := by
  have hscalar : Derives given 3 (.node .scalar) (.scalar (v.numberType c) (v.text c)) := by
    unfold Visitor.numberType
    split
    · exact .record rfl rfl rfl (.cons (.text _) .nil)
    · exact .record rfl rfl rfl (.cons (.text _) .nil)
    · split
      · exact .record rfl rfl rfl (.cons (.text _) .nil)
      · exact .record rfl rfl rfl (.cons (.text _) .nil)
  exact .constant (.present (.other hscalar))

theorem callArguments_derive (h : home.Encloses c) :
    Yields (PartedDerive given) (v.callArguments c) := by
  unfold Visitor.callArguments
  split
  · refine (S.load h).bind fun value hvalue => .pure ⟨?_, partedDerive_nil.2⟩
    exact List.forall_mem_singleton.mpr (.given hvalue)
  · exact S.arguments_derive h.holds

theorem call_derives (h : home.Holds c) :
    Yields (Derives given 4 (.node (.expression access))) (v.call c) := by
  refine (c.require_yields "arguments").bind fun list hlist => ?_
  refine (S.callArguments_derive (h.child? hlist)).bind fun lists hlists => ?_
  refine S.loadField_bind h fun callee hcallee => ?_
  exact .pure (.record rfl rfl rfl
    (.cons (.given hcallee) (.cons (.list hlists.1) (.cons (.list hlists.2) .nil))))

theorem attributeOf_derives (h : home.Holds c) :
    Yields (Derives given 4 (.node (.expression access))) (v.attributeOf access c) := by
  refine S.loadField_bind h fun value hvalue => ?_
  refine (c.require_yields "attribute").bind fun name _ => ?_
  exact .pure (.record rfl rfl rfl
    (.cons (.given hvalue) (.cons (.text _) (.cons (.marker access) .nil))))

theorem set_derives (h : home.Holds c) :
    Yields (Derives given 4 (.node (.expression access))) (v.set c) := by
  refine (elements_yields fun d hd => S.load (h.significant hd)).bind fun elements helements => ?_
  exact .pure (.record rfl rfl rfl (.cons (.givens helements) .nil))

theorem conditional_derives (h : home.Holds c) :
    Yields (Derives given 4 (.node (.expression access))) (v.conditional c) := by
  unfold Visitor.conditional
  split
  · next body test orelse hparts =>
    have hbody : home.Encloses body := h.significant (by simp [hparts])
    have htest : home.Encloses test := h.significant (by simp [hparts])
    have horelse : home.Encloses orelse := h.significant (by simp [hparts])
    refine (S.load htest).bind fun test htest => ?_
    refine (S.load hbody).bind fun body hbody => ?_
    refine (S.load horelse).bind fun orelse horelse => ?_
    exact .pure (.record rfl rfl rfl
      (.cons (.given htest) (.cons (.given hbody) (.cons (.given horelse) .nil))))
  · exact .error _

theorem lambda_derives (h : home.Holds c) :
    Yields (Derives given 4 (.node (.expression access))) (v.lambda c) := by
  refine (S.parameters_derive fun d hd => (h.child? hd).holds).bind
    fun parameters hparameters => ?_
  refine S.loadField_bind h fun body hbody => ?_
  exact .pure (.record rfl rfl rfl (.cons hparameters (.cons (.given hbody) .nil)))

theorem await_derives (h : home.Holds c) :
    Yields (Derives given 4 (.node (.expression access))) (v.await c) := by
  refine S.loadFirst_bind h fun value hvalue => ?_
  exact .pure (.record rfl rfl rfl (.cons (.given hvalue) .nil))

theorem yield_derives (h : home.Holds c) :
    Yields (Derives given 4 (.node (.expression access))) (v.yield c) := by
  have hjoined : Yields (Derives given 3 .load) (v.joined c c.significant) :=
    S.joined_derives c fun d => h.significant
  unfold Visitor.yield
  split
  · exact hjoined.bind fun value hvalue => .pure (.record rfl rfl rfl (.cons hvalue .nil))
  · split
    · exact .pure (.record rfl rfl rfl (.cons .absent .nil))
    · refine hjoined.bind fun value hvalue => ?_
      exact .pure (.record rfl rfl rfl (.cons (.present hvalue) .nil))

theorem namedValue_derives (h : home.Holds c) (hkind : c.kind = "named_expression") :
    Yields (Derives given 4 (.node (.expression access))) (v.namedValue c) := by
  refine S.targetField_bind (by rw [hkind]; decide) h fun target htarget => ?_
  refine S.loadField_bind h fun value hvalue => ?_
  exact .pure (.record rfl rfl rfl (.cons (.given htarget) (.cons (.given hvalue) .nil)))

end

theorem asTarget_derives
    (h : ∀ d ∈ c.significant.take 1,
      Yields (given (.node (.expression access))) (v.expression access d)) :
    Yields (Derives given 4 (.node (.expression access))) (v.asTarget access c) := by
  unfold Visitor.asTarget
  split
  · next inner rest hparts =>
    refine (h inner ?_).mono fun _ => .given
    rw [hparts]
    exact List.mem_cons_self
  · exact .pure (.name _ access)

theorem list_derives
    (h : ∀ d ∈ c.significant, Yields (given (.node (.expression access))) (v.expression access d)) :
    Yields (Derives given 4 (.node (.expression access))) (v.list access c) := by
  refine (elements_yields h).bind fun elements helements => ?_
  exact .pure (.record rfl rfl rfl (.cons (.givens helements) (.cons (.marker access) .nil)))

theorem starred_derives
    (h : ∀ d ∈ c.significant.take 1,
      Yields (given (.node (.expression access))) (v.expression access d)) :
    Yields (Derives given 4 (.node (.expression access))) (v.starred access c) := by
  refine c.firstPart_yields.bind fun part hpart => ?_
  refine (h part (Cst.mem_take_one hpart)).bind fun value hvalue => ?_
  exact .pure (.record rfl rfl rfl (.cons (.given hvalue) (.cons (.marker access) .nil)))

/-- What the construct of an expression says of the kind of its node. -/
theorem kind_of_expressionForm (kind : String) :
    (ExpressionForm.ofKind kind = .typeHint → kind = "type") ∧
      (ExpressionForm.ofKind kind = .namedValue → kind = "named_expression") ∧
      ∀ name, ExpressionForm.ofKind kind = .leaf name → name = kind := by
  generalize hform : ExpressionForm.ofKind kind = form
  unfold ExpressionForm.ofKind at hform
  split at hform <;> subst hform <;> simp

theorem constant_derives {kind : String} {value : Tree}
    (h : ExpressionForm.ofKind kind = .constant value) :
    Derives given 4 (.node (.expression access)) (.constant value) := by
  have hscalar : ∀ type spelling, (Category.kinds .scalar).contains type = true →
      Grammar.fields? .load type = some Grammar.scalarFields → Grammar.parallel type = [] →
      Derives given 4 (.node (.expression access)) (.constant (.scalar type spelling)) := by
    intro type spelling htype hforms hparallel
    exact .constant (.present (.other (.record htype hforms hparallel (.cons (.text _) .nil))))
  unfold ExpressionForm.ofKind at h
  split at h <;> cases h
  · exact hscalar "bool" "True" rfl rfl rfl
  · exact hscalar "bool" "False" rfl rfl rfl
  · exact .constant .absent
  · exact hscalar "ellipsis" "..." rfl rfl rfl

theorem comprehensionKind_fields (access : Access) {kind name : String}
    (h : ExpressionForm.ofKind kind = .comprehension name) :
    (Category.kinds (.expression access)).contains name = true ∧
      Grammar.fields? access name = some Grammar.comprehensionFields ∧
      Grammar.parallel name = [] := by
  unfold ExpressionForm.ofKind at h
  split at h <;> cases h <;> exact ⟨rfl, rfl, rfl⟩

/-- An expression derives from its parts, unless there is no rule for its construct. What has its
own access is given for that access: the parts it passes the access on to, and the type that stands
in its place. -/
theorem expressionForm_derives (S : Supply v home given)
    (hpassed : ∀ d ∈ home.passedOn,
      Yields (given (.node (.expression access))) (v.expression access d))
    (htype : home.kind = "type" → ∀ d, home.Encloses d →
      Yields (given (.node (.expression access))) (v.typeHint d)) :
    Yields (Builds given 4 (.expression access) home) (v.expressionForm access home) := by
  have hself : home.Holds home := .self
  obtain ⟨htypeKind, hnamedKind, hleafKind⟩ := kind_of_expressionForm home.kind
  have hpassedOn : ∀ parts, home.passedOn = parts → ∀ d ∈ parts,
      Yields (given (.node (.expression access))) (v.expression access d) := by
    rintro parts rfl
    exact hpassed
  have hderives : ∀ {x : Result Tree}, Yields (Derives given 4 (.node (.expression access))) x →
      Yields (Builds given 4 (.expression access) home) x := fun h => h.mono fun _ => .inr
  unfold Visitor.expressionForm
  cases hform : ExpressionForm.ofKind home.kind with
  | leaf kind =>
    obtain rfl := hleafKind kind hform
    exact .pure (.inl ⟨hform, rfl⟩)
  | name => exact hderives (.pure (.name _ access))
  | number => exact hderives (.pure (number_derives home))
  | constant value => exact hderives (.pure (constant_derives hform))
  | literal =>
    exact hderives (S.literals_derive (List.forall_mem_singleton.mpr hself))
  | literals =>
    exact hderives (S.literals_derive fun d hd => (hself.significant hd).holds)
  | parentheses =>
    have hparts := hpassedOn (home.significant.take 1) (by rw [Cst.passedOn, hform])
    refine hderives (home.firstPart_yields.bind fun part hpart => ?_)
    exact (hparts part (Cst.mem_take_one hpart)).mono fun _ => .given
  | target =>
    exact hderives (asTarget_derives (hpassedOn _ (by rw [Cst.passedOn, hform])))
  | typeHint =>
    refine hderives (home.firstPart_yields.bind fun part hpart => ?_)
    exact (htype (htypeKind hform) part (hself.first hpart)).mono fun _ => .given
  | binaryOperation => exact hderives (S.binaryOperation_derives hself)
  | booleanOperation =>
    have hkind := (ExpressionForm.kind_of_ofKind hform).1 rfl
    exact hderives (S.booleanOperation_derives hself hkind)
  | negation => exact hderives (S.negation_derives hself)
  | unaryOperation => exact hderives (S.unaryOperation_derives hself)
  | comparison => exact hderives (S.comparison_derives hself)
  | call => exact hderives (S.call_derives hself)
  | attributeOf => exact hderives (S.attributeOf_derives hself)
  | subscript => exact hderives (S.subscript_derives hself)
  | list =>
    exact hderives (list_derives (hpassedOn _ (by rw [Cst.passedOn, hform])))
  | tuple =>
    exact hderives (tuple_derives (hpassedOn _ (by rw [Cst.passedOn, hform])))
  | set => exact hderives (S.set_derives hself)
  | dictionary => exact hderives (S.dictionary_derives hself)
  | starred =>
    exact hderives (starred_derives (hpassedOn _ (by rw [Cst.passedOn, hform])))
  | comprehension kind =>
    obtain ⟨hkind, hforms, hparallel⟩ := comprehensionKind_fields access hform
    exact hderives (S.comprehension_derives hkind hforms hparallel hself)
  | dictComprehension => exact hderives (S.dictComprehension_derives hself)
  | conditional => exact hderives (S.conditional_derives hself)
  | lambda => exact hderives (S.lambda_derives hself)
  | await => exact hderives (S.await_derives hself)
  | yield => exact hderives (S.yield_derives hself)
  | namedValue => exact hderives (S.namedValue_derives hself (hnamedKind hform))

end Supply

end TreeText
