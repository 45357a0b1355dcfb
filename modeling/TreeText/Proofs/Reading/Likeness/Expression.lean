import TreeText.Proofs.Reading.Likeness

/-!
# The rules of expressions go the same way

One lemma for each rule of types, literals, arguments, operators, collections and expressions: at
corresponding nodes, the readings of two visitors that are alike agree. The two rules that go down
a construct by a loop of their own, the chain of left operands and the operands of a logical
operator, are followed by their own recursion.
-/

namespace TreeText

namespace Likeness

open Reading (Agree)
open LawfulReading (throw_bind)

variable {m n : Type → Type} [Monad m] [MonadExceptOf Fault m] [LawfulReading m] [Monad n]
  [MonadExceptOf Fault n] [LawfulReading n] {v : Visitor m} {w : Visitor n} (L : Likeness v w)
  {c d : Cst} {cs ds : List Cst}

/-! ## Types -/

theorem typeArguments_agree (h : List.Forall₂ L.node cs ds) :
    L.Agree Eq (v.typeArguments cs) (w.typeArguments ds) := by
  have tuple_agree : ∀ {cs ds}, List.Forall₂ L.node cs ds →
      L.Agree Eq (do return Tree.tuple (← cs.mapM v.typeHint) .load)
        (do return Tree.tuple (← ds.mapM w.typeHint) .load) := fun h =>
    (Agree.mapMEq h fun _ _ => L.typeHint_agree).bindEq fun _ => .pure rfl
  cases h with
  | nil => exact tuple_agree .nil
  | cons hfirst hrest =>
    cases hrest with
    | nil => exact L.typeHint_agree hfirst
    | cons hsecond hrest => exact tuple_agree (.cons hfirst (.cons hsecond hrest))

theorem genericType_agree (h : L.Alike c d) : L.Agree Eq (v.genericType c) (w.genericType d) := by
  rw [Visitor.genericType, Visitor.genericType]
  match c.significant, d.significant, L.significant h with
  | _, _, .nil => exact L.fault_agree h _
  | _, _, .cons hbase hparameters =>
    have harguments := L.flatMap L.significant hparameters
    refine (L.typeArguments_agree harguments).bindEq fun value => ?_
    exact (L.typeHint_agree hbase).bindEq fun base => .pure rfl

theorem unionType_agree (h : L.Alike c d) : L.Agree Eq (v.unionType c) (w.unionType d) := by
  rw [Visitor.unionType, Visitor.unionType]
  match c.significant, d.significant, L.significant h with
  | _, _, .nil => exact L.fault_agree h _
  | _, _, .cons _ .nil => exact L.fault_agree h _
  | _, _, .cons hleft (.cons hright .nil) =>
    refine (L.typeHint_agree hleft).bindEq fun left => ?_
    exact (L.typeHint_agree hright).bindEq fun right => .pure rfl
  | _, _, .cons _ (.cons _ (.cons _ _)) => exact L.fault_agree h _

theorem memberType_agree (h : L.Alike c d) : L.Agree Eq (v.memberType c) (w.memberType d) := by
  rw [Visitor.memberType, Visitor.memberType]
  match c.significant, d.significant, L.significant h with
  | _, _, .nil => exact L.fault_agree h _
  | _, _, .cons _ .nil => exact L.fault_agree h _
  | _, _, .cons hvalue (.cons hname .nil) =>
    refine (L.typeHint_agree hvalue).bindEq fun value => ?_
    rw [L.text (L.alike hname)]
    exact .pure rfl
  | _, _, .cons _ (.cons _ (.cons _ _)) => exact L.fault_agree h _

theorem splatType_agree (h : L.Alike c d) : L.Agree Eq (v.splatType c) (w.splatType d) := by
  refine (L.firstPart_agree h).bind fun _ _ hpart => ?_
  exact (L.typeHint_agree hpart).bindEq fun value => .pure rfl

theorem typeForm_agree {f : Cst → m Tree} {g : Cst → n Tree} (hfg : L.Agree Eq (f c) (g d))
    (h : L.Alike c d) : L.Agree Eq (v.typeForm f c) (w.typeForm g d) := by
  rw [Visitor.typeForm, Visitor.typeForm, h.kind]
  cases TypeForm.ofKind d.kind with
  | wrapped => exact (L.firstPart_agree h).bind fun _ _ => L.typeHint_agree
  | generic => exact L.genericType_agree h
  | union => exact L.unionType_agree h
  | member => exact L.memberType_agree h
  | splat => exact L.splatType_agree h
  | ordinary => exact hfg

/-! ## Literals -/

theorem opening? (h : L.Alike c d) :
    Option.Rel L.node (c.children.find? fun child => child.kind == "string_start")
      (d.children.find? fun child => child.kind == "string_start") :=
  L.find?_children (L.isOfKind _) (Cst.noticed_kind (by decide) (by decide)) h

theorem closing? (h : L.Alike c d) :
    Option.Rel L.node (c.children.reverse.find? fun child => child.kind == "string_end")
      (d.children.reverse.find? fun child => child.kind == "string_end") :=
  L.findLast?_children (L.isOfKind _) (Cst.noticed_kind (by decide) (by decide)) h

theorem debugSign? (h : L.Alike c d) : Option.Rel L.node c.debugSign? d.debugSign? :=
  L.find?_children (L.isToken "=") (Cst.noticed_token "=") h

theorem marks (h : L.Alike c d) : c.marks v.source = d.marks w.source := by
  rw [Cst.marks, Cst.marks]
  match List.find? _ c.children, List.find? _ d.children, L.opening? h with
  | _, _, .none => rfl
  | _, _, .some hopening => exact congrArg Marks.ofOpening (L.text (L.alike hopening))

theorem bodyStart (h : L.Alike c d) : L.start c.bodyStart d.bodyStart := by
  rw [Cst.bodyStart, Cst.bodyStart]
  match List.find? _ c.children, List.find? _ d.children, L.opening? h with
  | _, _, .none => exact h.start_start
  | _, _, .some hopening => exact (L.alike hopening).start_stop

theorem bodyStop (h : L.Alike c d) : L.stop c.bodyStop d.bodyStop := by
  rw [Cst.bodyStop, Cst.bodyStop]
  match List.find? _ c.children.reverse, List.find? _ d.children.reverse, L.closing? h with
  | _, _, .none => exact h.stop_stop
  | _, _, .some hclosing => exact (L.alike hclosing).stop_start

theorem textPieces_agree (h : L.Alike c d) (marks : Marks) {start stop start' stop' : Nat}
    (hstart : L.start start start') (hstop : L.stop stop stop') :
    L.Agree Eq (v.textPieces c marks start stop) (w.textPieces d marks start' stop') := by
  rw [Visitor.textPieces, Visitor.textPieces, L.slice? hstart hstop, L.names]
  cases w.source.slice? start' stop' with
  | none => exact .pure rfl
  | some raw =>
    dsimp only
    cases marks.decode w.source.names raw.toList with
    | ok text => exact .pure rfl
    | error fault => exact L.fault_agree h _

theorem conversion? (h : L.Alike c d) : v.conversion? c = w.conversion? d := by
  rw [Visitor.conversion?, Visitor.conversion?]
  match c.child? "type_conversion", d.child? "type_conversion", L.child? h "type_conversion" with
  | _, _, .none => rfl
  | _, _, .some hletter => rw [Option.bind_some, Option.bind_some, L.text (L.alike hletter)]

theorem label (h : L.Alike c d) : v.label c = w.label d := by
  rw [Visitor.label, Visitor.label]
  match c.debugSign?, d.debugSign?, L.debugSign? h with
  | _, _, .none => rfl
  | _, _, .some hsign =>
    have hslice := L.slice (L.start_succ h.start_start) (L.alike hsign).stop_stop
    exact congrArg (fun chunk => [Piece.text chunk]) hslice

theorem isSome_eq {x y : Option Cst} (h : Option.Rel L.node x y) : x.isSome = y.isSome := by
  cases h with
  | none => rfl
  | some _ => rfl

theorem conversion (h : L.Alike c d) : v.conversion c = w.conversion d := by
  rw [Visitor.conversion, Visitor.conversion, L.conversion? h, L.isSome_eq (L.debugSign? h),
    ← Option.not_isSome, ← Option.not_isSome, L.isSome_eq (L.child? h "format_specifier")]

theorem format?_agree (marks : Marks) {x y : Option Cst} (h : Option.Rel L.node x y) :
    L.Agree Eq (v.format? marks x) (w.format? marks y) := by
  cases h with
  | none => exact .pure rfl
  | some h => exact L.visit (.formatSpec marks) h

theorem interpolation_agree (marks : Marks) (h : L.Alike c d) :
    L.Agree Eq (v.interpolation marks c) (w.interpolation marks d) := by
  refine (L.require_agree h "expression").bind fun _ _ hexpression => ?_
  refine (L.format?_agree marks (L.child? h "format_specifier")).bindEq fun format => ?_
  refine (L.load_agree hexpression).bindEq fun value => ?_
  rw [L.label h, L.conversion h]
  exact .pure rfl

/-- The texts between the fields are read for the literal, each from the end of the field before
it to the start of the field after it. -/
theorem piecesFrom_agree (h : L.Alike c d) (marks : Marks) {stop stop' : Nat}
    (hstop : L.stop stop stop') (hfields : List.Forall₂ L.node cs ds) {start start' : Nat}
    (hstart : L.start start start') :
    L.Agree Eq (v.piecesFrom c marks stop start cs) (w.piecesFrom d marks stop' start' ds) := by
  induction hfields generalizing start start' with
  | nil => exact L.textPieces_agree h marks hstart hstop
  | cons hfield _ ih =>
    refine (L.textPieces_agree h marks hstart (L.alike hfield).stop_start).bindEq fun before => ?_
    refine (L.interpolation_agree marks (L.alike hfield)).bindEq fun value => ?_
    exact (ih (L.alike hfield).start_stop).bindEq fun after => .pure rfl

theorem isInterpolation {a b : Cst} (h : L.Alike a b) : a.isInterpolation = b.isInterpolation :=
  L.isOfKind "interpolation" h

theorem pieces_agree (h : L.Alike c d) : L.Agree Eq (v.pieces c) (w.pieces d) := by
  have hfields := L.filter_children L.isInterpolation
    (Cst.noticed_kind (by decide) (by decide)) h
  rw [Visitor.pieces, Visitor.pieces, L.marks h]
  exact L.piecesFrom_agree h _ (L.bodyStop h) hfields (L.bodyStart h)

theorem literals_agree (h : List.Forall₂ L.Alike cs ds) :
    L.Agree Eq (v.literals cs) (w.literals ds) := by
  have hmarks : cs.map (Cst.marks v.source) = ds.map (Cst.marks w.source) := by
    induction h with
    | nil => rfl
    | cons hab _ ih => rw [List.map_cons, List.map_cons, L.marks hab, ih]
  refine (Agree.mapMEq h fun _ _ => L.pieces_agree).bindEq fun pieces => ?_
  rw [hmarks]
  exact .pure rfl

theorem formatSpec_agree (marks : Marks) (h : L.Alike c d) :
    L.Agree Eq (v.formatSpec marks c) (w.formatSpec marks d) := by
  have hfields := L.filter L.isInterpolation (L.significant h)
  -- The format starts after its colon, or at its end if it is empty.
  have hstart := L.start_min (L.start_succ h.start_start) h.start_stop
  exact (L.piecesFrom_agree h _ h.stop_stop hfields hstart).bindEq fun pieces =>
    .pure rfl

/-! ## Arguments and parameters -/

theorem keywordArgument_agree (h : L.Alike c d) :
    L.Agree Eq (v.keywordArgument c) (w.keywordArgument d) := by
  refine (L.require_agree h "name").bind fun _ _ hname => ?_
  refine (L.require_agree h "value").bind fun _ _ hvalue => ?_
  refine (L.load_agree hvalue).bindEq fun value => ?_
  rw [L.text (L.alike hname)]
  exact .pure rfl

theorem doubleStarredArgument_agree (h : L.Alike c d) :
    L.Agree Eq (v.doubleStarredArgument c) (w.doubleStarredArgument d) := by
  refine (L.firstPart_agree h).bind fun _ _ hpart => ?_
  exact (L.load_agree hpart).bindEq fun value => .pure rfl

theorem argument_agree (h : L.node c d) : L.Agree Eq (v.argument c) (w.argument d) := by
  rw [Visitor.argument, Visitor.argument, L.kind h]
  split
  · exact (L.keywordArgument_agree (L.alike h)).bindEq fun value => .pure rfl
  · exact (L.doubleStarredArgument_agree (L.alike h)).bindEq fun value => .pure rfl
  · exact (L.load_agree h).bindEq fun value => .pure rfl

theorem arguments_agree (h : L.Alike c d) : L.Agree Eq (v.arguments c) (w.arguments d) :=
  (Agree.mapMEq (L.significant h) fun _ _ => L.argument_agree).bindEq fun _ => .pure rfl

theorem parameterName_agree (h : L.Alike c d) {x y : Option Cst} (htype : Option.Rel L.node x y) :
    L.Agree Eq (v.parameterName c x) (w.parameterName d y) := by
  refine (L.typeHint?_agree htype).bindEq fun hint => ?_
  rw [L.text h]
  exact .pure rfl

/-- The name of a starred parameter is its first part. -/
theorem starredName_agree {α : Type} (h : L.Alike c d) {x y : Option Cst}
    (htype : Option.Rel L.node x y) (f : Tree → α) :
    L.Agree Eq (do return f (← v.parameterName (← c.firstPart) x))
      (do return f (← w.parameterName (← d.firstPart) y)) := by
  refine (L.firstPart_agree h).bind fun _ _ hpart => ?_
  exact (L.parameterName_agree (L.alike hpart) htype).bindEq fun parameter => .pure rfl

theorem typedParameter_agree (signature : Signature) (h : L.Alike c d) :
    L.Agree Eq (v.typedParameter signature c) (w.typedParameter signature d) := by
  refine (L.require_agree h "type").bind fun _ _ htype => ?_
  refine (L.firstPart_agree h).bind fun inner inner' hinner => ?_
  rw [L.kind hinner]
  split
  · exact L.starredName_agree (L.alike hinner) (.some htype) _
  · exact L.starredName_agree (L.alike hinner) (.some htype) _
  · exact (L.parameterName_agree (L.alike hinner) (.some htype)).bindEq fun parameter => .pure rfl

theorem addParameter_agree (signature : Signature) (h : L.Alike c d) :
    L.Agree Eq (v.addParameter signature c) (w.addParameter signature d) := by
  rw [Visitor.addParameter, Visitor.addParameter, h.kind]
  cases ParameterForm.ofKind d.kind with
  | plain => exact (L.parameterName_agree h .none).bindEq fun parameter => .pure rfl
  | typed => exact L.typedParameter_agree signature h
  | defaulted =>
    refine (L.require_agree h "name").bind fun _ _ hname => ?_
    refine (L.parameterName_agree (L.alike hname) (L.child? h "type")).bindEq fun parameter => ?_
    refine (L.require_agree h "value").bind fun _ _ hvalue => ?_
    exact (L.load_agree hvalue).bindEq fun default => .pure rfl
  | starred => exact L.starredName_agree h .none _
  | doubleStarred => exact L.starredName_agree h .none _
  | star => exact .pure rfl
  | slash => exact .pure rfl
  | other => exact L.fault_agree h _

theorem parameters_agree {x y : Option Cst} (h : Option.Rel L.node x y) :
    L.Agree Eq (v.parameters x) (w.parameters y) := by
  have hnodes : List.Forall₂ L.node ((x.map Cst.significant).getD [])
      ((y.map Cst.significant).getD []) := by
    cases h with
    | none => exact .nil
    | some hlist => exact L.significant (L.alike hlist)
  have hsignature : L.Agree Eq
      (((x.map Cst.significant).getD []).foldlM v.addParameter Signature.empty)
      (((y.map Cst.significant).getD []).foldlM w.addParameter Signature.empty) :=
    .foldlMEq hnodes (fun signature _ _ hab => L.addParameter_agree signature (L.alike hab)) _
  exact hsignature.bindEq fun signature => .pure rfl

/-! ## Operators -/

theorem operatorLeaf_agree (h : L.Alike c d) (table : String → Option String) (text : String)
    (unknown : Cause) :
    L.Agree Eq (Reading.operatorLeaf table c text unknown)
      (Reading.operatorLeaf table d text unknown) := by
  rw [Reading.operatorLeaf, Reading.operatorLeaf]
  cases table text with
  | none => exact L.fault_agree h _
  | some kind => exact .pure rfl

/-- The chain of left operands is followed by its own recursion: both readings meet the same
operators, and stop at the same operand. -/
theorem leftSpine_agree (h : L.Alike c d) (houter : List.Forall₂ L.Alike cs ds) :
    L.Agree (fun x y => List.Forall₂ L.Alike x.1 y.1 ∧ L.node x.2 y.2)
      (c.leftSpine cs) (d.leftSpine ds) := by
  induction c, cs using Cst.leftSpine.induct generalizing d ds with
  | case1 c cs hleft =>
    rw [Cst.leftSpine_eq, Cst.leftSpine_eq, Cst.require_of_none hleft,
      Cst.require_of_none (L.child?_none h hleft), throw_bind, throw_bind, h.kind]
    exact L.fault_agree h _
  | case2 c cs left hleft hkind ih =>
    -- One operator further down: it joins those that have been passed.
    obtain ⟨left', hleft', hnode⟩ := L.child?_some h hleft
    rw [Cst.leftSpine_eq, Cst.leftSpine_eq, Cst.require_of_some hleft, Cst.require_of_some hleft',
      pure_bind, pure_bind, if_pos hkind, if_pos (L.kind hnode ▸ hkind)]
    exact ih (L.alike hnode) (.cons h houter)
  | case3 c cs left hleft hkind =>
    obtain ⟨left', hleft', hnode⟩ := L.child?_some h hleft
    rw [Cst.leftSpine_eq, Cst.leftSpine_eq, Cst.require_of_some hleft, Cst.require_of_some hleft',
      pure_bind, pure_bind, if_neg hkind, if_neg (L.kind hnode ▸ hkind)]
    exact .pure ⟨.cons h houter, hnode⟩

theorem applyOperator_agree (left : Tree) (h : L.Alike c d) :
    L.Agree Eq (v.applyOperator left c) (w.applyOperator left d) := by
  refine (L.require_agree h "operator").bind fun _ _ hoperator => ?_
  rw [L.text (L.alike hoperator)]
  refine (L.operatorLeaf_agree (L.alike hoperator) _ _ _).bindEq fun op => ?_
  refine (L.require_agree h "right").bind fun _ _ hright => ?_
  exact (L.load_agree hright).bindEq fun right => .pure rfl

theorem binaryOperation_agree (h : L.Alike c d) :
    L.Agree Eq (v.binaryOperation c) (w.binaryOperation d) := by
  refine (L.leftSpine_agree h .nil).bind fun x y hspine => ?_
  refine (L.load_agree hspine.2).bindEq fun leftmost => ?_
  exact .foldlMEq hspine.1 (fun left _ _ => L.applyOperator_agree left) leftmost

theorem unaryOperation_agree (h : L.Alike c d) :
    L.Agree Eq (v.unaryOperation c) (w.unaryOperation d) := by
  refine (L.require_agree h "operator").bind fun _ _ hoperator => ?_
  rw [L.text (L.alike hoperator)]
  refine (L.operatorLeaf_agree (L.alike hoperator) _ _ _).bindEq fun op => ?_
  refine (L.require_agree h "argument").bind fun _ _ hargument => ?_
  exact (L.load_agree hargument).bindEq fun operand => .pure rfl

theorem negation_agree (h : L.Alike c d) : L.Agree Eq (v.negation c) (w.negation d) := by
  refine (L.require_agree h "argument").bind fun _ _ hargument => ?_
  exact (L.load_agree hargument).bindEq fun operand => .pure rfl

theorem joinsBy (operator : String) (h : L.Alike c d) :
    v.joinsBy operator c = w.joinsBy operator d := by
  rw [Visitor.joinsBy, Visitor.joinsBy, h.kind]
  match c.child? "operator", d.child? "operator", L.child? h "operator" with
  | _, _, .none => rfl
  | _, _, .some htoken => dsimp only; rw [L.text (L.alike htoken)]

theorem operandValues_agree (operator : String) (h : List.Forall₂ L.node cs ds) :
    L.Agree Eq (v.operandValues operator cs) (w.operandValues operator ds) := by
  induction cs using Visitor.operandValues.induct v operator generalizing ds with
  | case1 =>
    cases h
    rw [Visitor.operandValues, Visitor.operandValues]
    exact .pure rfl
  | case2 c pending hjoins hright =>
    obtain _ | ⟨hcd, -⟩ := h
    rw [Visitor.operandValues_of_joinsBy hjoins,
      Visitor.operandValues_of_joinsBy (L.joinsBy operator (L.alike hcd) ▸ hjoins),
      Cst.require_of_none hright, Cst.require_of_none (L.child?_none (L.alike hcd) hright),
      throw_bind, throw_bind, L.kind hcd]
    exact L.fault_agree (L.alike hcd) _
  | case3 c pending hjoins right hright hleft =>
    obtain _ | ⟨hcd, -⟩ := h
    obtain ⟨right', hright', -⟩ := L.child?_some (L.alike hcd) hright
    rw [Visitor.operandValues_of_joinsBy hjoins,
      Visitor.operandValues_of_joinsBy (L.joinsBy operator (L.alike hcd) ▸ hjoins),
      Cst.require_of_some hright, Cst.require_of_some hright', pure_bind, pure_bind,
      Cst.require_of_none hleft, Cst.require_of_none (L.child?_none (L.alike hcd) hleft),
      throw_bind, throw_bind, L.kind hcd]
    exact L.fault_agree (L.alike hcd) _
  | case4 c pending hjoins right hright left hleft ih =>
    obtain _ | ⟨hcd, hpending⟩ := h
    obtain ⟨right', hright', hrights⟩ := L.child?_some (L.alike hcd) hright
    obtain ⟨left', hleft', hlefts⟩ := L.child?_some (L.alike hcd) hleft
    rw [Visitor.operandValues_of_joinsBy hjoins,
      Visitor.operandValues_of_joinsBy (L.joinsBy operator (L.alike hcd) ▸ hjoins),
      Cst.require_of_some hright, Cst.require_of_some hright', pure_bind, pure_bind,
      Cst.require_of_some hleft, Cst.require_of_some hleft', pure_bind, pure_bind]
    exact ih (.cons hlefts (.cons hrights hpending))
  | case5 c pending hjoins ih =>
    obtain _ | ⟨hcd, hpending⟩ := h
    rw [Bool.not_eq_true] at hjoins
    rw [Visitor.operandValues_of_not_joinsBy hjoins,
      Visitor.operandValues_of_not_joinsBy (L.joinsBy operator (L.alike hcd) ▸ hjoins)]
    refine (L.load_agree hcd).bindEq fun value => ?_
    exact (ih hpending).bindEq fun values => .pure rfl

/-- A logical operator joins its own operands, so it is not read as an operand itself. -/
theorem booleanOperation_agree (h : L.Alike c d) (hkind : c.kind = "boolean_operator") :
    L.Agree Eq (v.booleanOperation c) (w.booleanOperation d) := by
  rw [Visitor.booleanOperation, Visitor.booleanOperation]
  cases htoken : c.child? "operator" with
  | none =>
    rw [Cst.require_of_none htoken, Cst.require_of_none (L.child?_none h htoken), throw_bind,
      throw_bind, h.kind]
    exact L.fault_agree h _
  | some token =>
    obtain ⟨token', htoken', htokens⟩ := L.child?_some h htoken
    -- Its operator is the one that is looked for, so the first step looks into it.
    have hjoins : v.joinsBy (v.text token) c = true := by
      simp [Visitor.joinsBy, hkind, htoken]
    have hoperands : L.Agree Eq (v.operandValues (v.text token) [c])
        (w.operandValues (v.text token) [d]) := by
      rw [Visitor.operandValues_of_joinsBy hjoins,
        Visitor.operandValues_of_joinsBy (L.joinsBy _ h ▸ hjoins)]
      refine (L.require_agree h "right").bind fun _ _ hright => ?_
      refine (L.require_agree h "left").bind fun _ _ hleft => ?_
      exact L.operandValues_agree _ (.cons hleft (.cons hright .nil))
    rw [Cst.require_of_some htoken, Cst.require_of_some htoken', pure_bind, pure_bind]
    show L.Agree Eq (v.operandValues (v.text token) [c] >>= _)
      (w.operandValues (w.text token') [d] >>= _)
    rw [← L.text (L.alike htokens)]
    exact hoperands.bindEq fun values => .pure rfl

/-! ## Comparisons -/

/-- Two operators of comparisons with the same text, at tokens that correspond. -/
def sameOperator (x y : Cst × String) : Prop := L.node x.1 y.1 ∧ x.2 = y.2

theorem toList_sameOperator {x y : Option (Cst × String)} (h : Option.Rel L.sameOperator x y) :
    List.Forall₂ L.sameOperator x.toList y.toList := by
  cases h with
  | none => exact .nil
  | some h => exact .cons h .nil

theorem comparisonParts_children (h : c.kind = "comparison_operator") :
    comparisonParts none c.children = comparisonParts none c.seen := by
  rw [Cst.seen, h]
  refine (comparisonParts_filter (fun child hover => ?_) none c.children).symm
  obtain ⟨⟨hnamed, -⟩, hkind⟩ : (child.isNamed = true ∧ child.field = none) ∧
      child.kind = "comment" := by
    simpa [Cst.passesOver] using hover
  exact ⟨hnamed, hkind⟩

theorem comparisonParts_alike {x y : Option (Cst × String)} (h : List.Forall₂ L.node cs ds)
    (hpending : Option.Rel L.sameOperator x y) :
    List.Forall₂ L.node (comparisonParts x cs).1 (comparisonParts y ds).1 ∧
      List.Forall₂ L.sameOperator (comparisonParts x cs).2
        (comparisonParts y ds).2 := by
  induction h generalizing x y with
  | nil => exact ⟨.nil, L.toList_sameOperator hpending⟩
  | @cons a b _ _ hab _ ih =>
    cases hnamed : b.isNamed with
    | true =>
      have hnamed' := (L.isNamed hab).trans hnamed
      by_cases hkind : b.kind = "comment"
      · rw [comparisonParts_comment hnamed' ((L.kind hab).trans hkind),
          comparisonParts_comment hnamed hkind]
        exact ih hpending
      · rw [comparisonParts_operand hnamed' (L.kind hab ▸ hkind),
          comparisonParts_operand hnamed hkind]
        have hrest := ih .none
        exact ⟨.cons hab hrest.1, List.rel_append (L.toList_sameOperator hpending) hrest.2⟩
    | false =>
      rw [comparisonParts_token ((L.isNamed hab).trans hnamed),
        comparisonParts_token hnamed, L.kind hab]
      cases hpending with
      | none => exact ih (.some ⟨hab, rfl⟩)
      | some hsame => exact ih (.some ⟨hsame.1, congrArg (· ++ " " ++ b.kind) hsame.2⟩)

theorem comparison_agree (h : L.Alike c d) (hkind : c.kind = "comparison_operator") :
    L.Agree Eq (v.comparison c) (w.comparison d) := by
  rw [Visitor.comparison, Visitor.comparison, comparisonParts_children hkind,
    comparisonParts_children (h.kind ▸ hkind)]
  obtain ⟨hoperands, hoperators⟩ := L.comparisonParts_alike h.seen .none
  -- The operators are looked up before any operand is read.
  match comparisonParts none c.seen, comparisonParts none d.seen, hoperands,
    hoperators with
  | (_, _), (_, _), .nil, _ => exact L.fault_agree h _
  | (_, _), (_, _), .cons hleft hcomparators, hoperators =>
    refine (Agree.mapMEq hoperators fun x y hsame => ?_).bindEq fun ops => ?_
    · show L.Agree Eq (Reading.operatorLeaf _ x.1 x.2 _) (Reading.operatorLeaf _ y.1 y.2 _)
      rw [hsame.2]
      exact L.operatorLeaf_agree (L.alike hsame.1) _ _ _
    · refine (L.load_agree hleft).bindEq fun left => ?_
      exact (L.elements_agree .load hcomparators).bindEq fun comparators => .pure rfl

/-! ## Subscripts -/

theorem addBound_agree (bounds : Bounds) (h : L.node c d) :
    L.Agree Eq (v.addBound bounds c) (w.addBound bounds d) := by
  rw [Visitor.addBound, Visitor.addBound, L.isNamed h, L.kind h]
  split
  · exact .pure rfl
  · split
    · exact (L.load_agree h).bindEq fun value => .pure rfl
    · exact .pure rfl

/-- The loop over a slice's children skips the comments by itself. -/
theorem foldlM_addBound_filter (bounds : Bounds) (nodes : List Cst) :
    (nodes.filter fun child => !Cst.passesOver "slice" child).foldlM v.addBound bounds =
      nodes.foldlM v.addBound bounds := by
  induction nodes generalizing bounds with
  | nil => rfl
  | cons c rest ih =>
    rw [List.foldlM_cons]
    cases hover : Cst.passesOver "slice" c with
    | true =>
      obtain ⟨⟨hnamed, -⟩, hkind⟩ : (c.isNamed = true ∧ c.field = none) ∧ c.kind = "comment" := by
        simpa [Cst.passesOver] using hover
      have hskip : v.addBound bounds c = pure bounds := by
        simp [Visitor.addBound, hnamed, hkind]
      rw [List.filter_cons_of_neg (by simp [hover]), ih, hskip, pure_bind]
    | false =>
      rw [List.filter_cons_of_pos (by simp [hover]), List.foldlM_cons]
      simp only [ih]

theorem subscriptItem_agree (h : L.node c d) :
    L.Agree Eq (v.subscriptItem c) (w.subscriptItem d) := by
  rw [Visitor.subscriptItem, Visitor.subscriptItem]
  by_cases hkind : c.kind = "slice"
  · have hkind' : d.kind = "slice" := (L.kind h).symm.trans hkind
    have hseen := (L.alike h).seen
    rw [Cst.seen, Cst.seen, hkind, hkind'] at hseen
    rw [if_pos hkind, if_pos hkind', ← foldlM_addBound_filter (v := v),
      ← foldlM_addBound_filter (v := w)]
    exact (Agree.foldlMEq hseen (fun bounds _ _ => L.addBound_agree bounds) _).bindEq fun bounds =>
      .pure rfl
  · rw [if_neg hkind, if_neg (L.kind h ▸ hkind)]
    exact (L.load_agree h).bindEq fun value => .pure rfl

theorem severalItems_agree (h : List.Forall₂ L.node cs ds) :
    L.Agree Eq
      (if cs.any fun item => item.kind == "slice" then do
        return Tree.record "ExtSlice" [("dims", .seq (← cs.mapM v.subscriptItem))]
      else do
        return .index (← v.tuple .load cs))
      (if ds.any fun item => item.kind == "slice" then do
        return Tree.record "ExtSlice" [("dims", .seq (← ds.mapM w.subscriptItem))]
      else do
        return .index (← w.tuple .load ds)) := by
  rw [L.any (L.isOfKind "slice") h]
  split
  · exact (Agree.mapMEq h fun _ _ => L.subscriptItem_agree).bindEq fun items => .pure rfl
  · exact (L.tuple_agree .load h).bindEq fun index => .pure rfl

theorem subscriptItems_agree (hasComma : Bool) (h : List.Forall₂ L.node cs ds) :
    L.Agree Eq (v.subscriptItems hasComma cs) (w.subscriptItems hasComma ds) := by
  cases hasComma with
  | true => exact L.severalItems_agree h
  | false =>
    cases h with
    | nil => exact L.severalItems_agree .nil
    | cons hfirst hrest =>
      cases hrest with
      | nil => exact L.subscriptItem_agree hfirst
      | cons hsecond hrest => exact L.severalItems_agree (.cons hfirst (.cons hsecond hrest))

theorem subscript_agree (access : Access) (h : L.Alike c d) :
    L.Agree Eq (v.subscript access c) (w.subscript access d) := by
  rw [Visitor.subscript, Visitor.subscript, L.hasToken h]
  refine (L.subscriptItems_agree _ (L.childrenUnder h "subscript")).bindEq fun slice => ?_
  refine (L.require_agree h "value").bind fun _ _ hvalue => ?_
  exact (L.load_agree hvalue).bindEq fun value => .pure rfl

/-! ## Dictionaries and comprehensions -/

theorem dictItem_agree (h : L.Alike c d) : L.Agree Eq (v.dictItem c) (w.dictItem d) := by
  rw [Visitor.dictItem, Visitor.dictItem, h.kind]
  split
  · refine (L.require_agree h "key").bind fun _ _ hkey => ?_
    refine (L.load_agree hkey).bindEq fun key => ?_
    refine (L.require_agree h "value").bind fun _ _ hvalue => ?_
    exact (L.load_agree hvalue).bindEq fun value => .pure rfl
  · refine (L.firstPart_agree h).bind fun _ _ hpart => ?_
    exact (L.load_agree hpart).bindEq fun value => .pure rfl
  · exact L.fault_agree h _

theorem dictionary_agree (h : L.Alike c d) : L.Agree Eq (v.dictionary c) (w.dictionary d) := by
  have hitems := L.significant h
  refine (Agree.mapMEq hitems fun _ _ hab => L.dictItem_agree (L.alike hab)).bindEq fun items => ?_
  exact .pure rfl

theorem addClause_agree (loops : List Loop) (h : L.Alike c d) :
    L.Agree Eq (v.addClause loops c) (w.addClause loops d) := by
  rw [Visitor.addClause, Visitor.addClause, h.kind]
  split
  · refine (L.require_agree h "left").bind fun _ _ hleft => ?_
    refine (L.store_agree hleft).bindEq fun target => ?_
    refine (L.joined_agree h (L.childrenUnder h "right")).bindEq fun iterable => ?_
    rw [L.hasToken h]
    exact .pure rfl
  · refine (L.firstPart_agree h).bind fun _ _ hpart => ?_
    refine (L.load_agree hpart).bindEq fun test => ?_
    cases loops with
    | nil => exact L.fault_agree h _
    | cons loop before => exact .pure rfl
  · exact .pure rfl

theorem loops_agree (h : L.Alike c d) : L.Agree Eq (v.loops c) (w.loops d) := by
  have hloops : L.Agree Eq ((c.significantBeside "body").foldlM v.addClause [])
      ((d.significantBeside "body").foldlM w.addClause []) :=
    .foldlMEq (L.significantBeside h "body")
      (fun loops _ _ hab => L.addClause_agree loops (L.alike hab)) []
  exact hloops.bindEq fun loops => .pure rfl

theorem comprehension_agree (kind : String) (h : L.Alike c d) :
    L.Agree Eq (v.comprehension kind c) (w.comprehension kind d) := by
  refine (L.require_agree h "body").bind fun _ _ hbody => ?_
  refine (L.load_agree hbody).bindEq fun element => ?_
  exact (L.loops_agree h).bindEq fun loops => .pure rfl

theorem dictComprehension_agree (h : L.Alike c d) :
    L.Agree Eq (v.dictComprehension c) (w.dictComprehension d) := by
  refine (L.require_agree h "body").bind fun _ _ hbody => ?_
  refine (L.require_agree (L.alike hbody) "key").bind fun _ _ hkey => ?_
  refine (L.load_agree hkey).bindEq fun key => ?_
  refine (L.require_agree (L.alike hbody) "value").bind fun _ _ hvalue => ?_
  refine (L.load_agree hvalue).bindEq fun value => ?_
  exact (L.loops_agree h).bindEq fun loops => .pure rfl

/-! ## The other expressions -/

theorem nameExpression (access : Access) (h : L.Alike c d) :
    v.nameExpression access c = w.nameExpression access d := by
  rw [Visitor.nameExpression, Visitor.nameExpression, L.text h]

theorem number (h : L.Alike c d) : v.number c = w.number d := by
  rw [Visitor.number, Visitor.number, Visitor.numberType, Visitor.numberType, L.text h, h.kind]

theorem asTarget_agree (access : Access) (h : L.Alike c d) :
    L.Agree Eq (v.asTarget access c) (w.asTarget access d) := by
  rw [Visitor.asTarget, Visitor.asTarget, L.nameExpression access h]
  match c.significant, d.significant, L.significant h with
  | _, _, .nil => exact .pure rfl
  | _, _, .cons hinner _ => exact L.expression_agree access hinner

theorem callArguments_agree (h : L.node c d) :
    L.Agree Eq (v.callArguments c) (w.callArguments d) := by
  rw [Visitor.callArguments, Visitor.callArguments, L.kind h]
  split
  · exact (L.load_agree h).bindEq fun generator => .pure rfl
  · exact L.arguments_agree (L.alike h)

theorem call_agree (h : L.Alike c d) : L.Agree Eq (v.call c) (w.call d) := by
  refine (L.require_agree h "arguments").bind fun _ _ hlist => ?_
  refine (L.callArguments_agree hlist).bindEq fun ⟨positional, keywords⟩ => ?_
  refine (L.require_agree h "function").bind fun _ _ hfunction => ?_
  exact (L.load_agree hfunction).bindEq fun callee => .pure rfl

theorem attributeOf_agree (access : Access) (h : L.Alike c d) :
    L.Agree Eq (v.attributeOf access c) (w.attributeOf access d) := by
  refine (L.require_agree h "object").bind fun _ _ hobject => ?_
  refine (L.load_agree hobject).bindEq fun value => ?_
  refine (L.require_agree h "attribute").bind fun _ _ hname => ?_
  rw [L.text (L.alike hname)]
  exact .pure rfl

theorem list_agree (access : Access) (h : L.Alike c d) :
    L.Agree Eq (v.list access c) (w.list access d) :=
  (L.elements_agree access (L.significant h)).bindEq fun _ => .pure rfl

theorem set_agree (h : L.Alike c d) : L.Agree Eq (v.set c) (w.set d) :=
  (L.elements_agree .load (L.significant h)).bindEq fun _ => .pure rfl

theorem starred_agree (access : Access) (h : L.Alike c d) :
    L.Agree Eq (v.starred access c) (w.starred access d) := by
  refine (L.firstPart_agree h).bind fun _ _ hpart => ?_
  exact (L.expression_agree access hpart).bindEq fun value => .pure rfl

theorem conditional_agree (h : L.Alike c d) : L.Agree Eq (v.conditional c) (w.conditional d) := by
  rw [Visitor.conditional, Visitor.conditional]
  match c.significant, d.significant, L.significant h with
  | _, _, .nil => exact L.fault_agree h _
  | _, _, .cons _ .nil => exact L.fault_agree h _
  | _, _, .cons _ (.cons _ .nil) => exact L.fault_agree h _
  | _, _, .cons hbody (.cons htest (.cons horelse .nil)) =>
    refine (L.load_agree htest).bindEq fun test => ?_
    refine (L.load_agree hbody).bindEq fun body => ?_
    exact (L.load_agree horelse).bindEq fun orelse => .pure rfl
  | _, _, .cons _ (.cons _ (.cons _ (.cons _ _))) => exact L.fault_agree h _

theorem lambda_agree (h : L.Alike c d) : L.Agree Eq (v.lambda c) (w.lambda d) := by
  refine (L.parameters_agree (L.child? h "parameters")).bindEq fun parameters => ?_
  refine (L.require_agree h "body").bind fun _ _ hbody => ?_
  exact (L.load_agree hbody).bindEq fun body => .pure rfl

theorem await_agree (h : L.Alike c d) : L.Agree Eq (v.await c) (w.await d) := by
  refine (L.firstPart_agree h).bind fun _ _ hpart => ?_
  exact (L.load_agree hpart).bindEq fun value => .pure rfl

theorem yield_agree (h : L.Alike c d) : L.Agree Eq (v.yield c) (w.yield d) := by
  have hparts := L.significant h
  have hempty : c.significant.isEmpty = d.significant.isEmpty := by
    rw [Bool.eq_iff_iff, List.isEmpty_iff_length_eq_zero, List.isEmpty_iff_length_eq_zero,
      hparts.length_eq]
  rw [Visitor.yield, Visitor.yield, L.hasToken h, hempty]
  split
  · exact (L.joined_agree h hparts).bindEq fun value => .pure rfl
  · split
    · exact .pure rfl
    · exact (L.joined_agree h hparts).bindEq fun value => .pure rfl

theorem namedValue_agree (h : L.Alike c d) : L.Agree Eq (v.namedValue c) (w.namedValue d) := by
  refine (L.require_agree h "name").bind fun _ _ hname => ?_
  refine (L.store_agree hname).bindEq fun target => ?_
  refine (L.require_agree h "value").bind fun _ _ hvalue => ?_
  exact (L.load_agree hvalue).bindEq fun value => .pure rfl

theorem expressionForm_agree (access : Access) (h : L.Alike c d) :
    L.Agree Eq (v.expressionForm access c) (w.expressionForm access d) := by
  rw [Visitor.expressionForm, Visitor.expressionForm, h.kind]
  cases hform : ExpressionForm.ofKind d.kind with
  | name => exact .pure (L.nameExpression access h)
  | number => exact .pure (L.number h)
  | constant value => exact .pure rfl
  | literal => exact L.literals_agree (.cons h .nil)
  | literals => exact L.literals_agree ((L.significant h).imp fun _ _ => L.alike)
  | parentheses => exact (L.firstPart_agree h).bind fun _ _ => L.expression_agree access
  | target => exact L.asTarget_agree access h
  | typeHint => exact (L.firstPart_agree h).bind fun _ _ => L.typeHint_agree
  | binaryOperation => exact L.binaryOperation_agree h
  | booleanOperation =>
    have hkind := (ExpressionForm.kind_of_ofKind hform).1 rfl
    exact L.booleanOperation_agree h (h.kind.trans hkind)
  | negation => exact L.negation_agree h
  | unaryOperation => exact L.unaryOperation_agree h
  | comparison =>
    have hkind := (ExpressionForm.kind_of_ofKind hform).2 rfl
    exact L.comparison_agree h (h.kind.trans hkind)
  | call => exact L.call_agree h
  | attributeOf => exact L.attributeOf_agree access h
  | subscript => exact L.subscript_agree access h
  | list => exact L.list_agree access h
  | tuple => exact L.tuple_agree access (L.significant h)
  | set => exact L.set_agree h
  | dictionary => exact L.dictionary_agree h
  | starred => exact L.starred_agree access h
  | comprehension kind => exact L.comprehension_agree kind h
  | dictComprehension => exact L.dictComprehension_agree h
  | conditional => exact L.conditional_agree h
  | lambda => exact L.lambda_agree h
  | await => exact L.await_agree h
  | yield => exact L.yield_agree h
  | namedValue => exact L.namedValue_agree h
  | leaf kind => exact .pure rfl

end Likeness

end TreeText
