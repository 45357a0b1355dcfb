import TreeText.Proofs.Reading.Building

/-!
# What the rules of arguments and parameters put together

A signature is followed through the loop over the parameters: each of its lists holds what its field
may hold, and the keyword-only parameters keep in step with their defaults.
-/

namespace TreeText

namespace Supply

open Reading (Yields Result)

variable {v : Visitor Reading.Result} {home : Cst} {given : Form → Tree → Prop}
  (S : Supply v home given) {c d : Cst} {nodes : List Cst} {access : Access} {n : Nat}

/-! ## Arguments -/

/-- A positional argument is an expression, any other is a keyword. -/
def ArgumentDerives (given : Form → Tree → Prop) : Argument → Prop
  | .positional value => Derives given 3 .load value
  | .keyword value => Derives given 3 (.node .keyword) value

/-- The positional arguments and the keywords. -/
abbrev PartedDerive (given : Form → Tree → Prop) (lists : List Tree × List Tree) : Prop :=
  (∀ value ∈ lists.1, Derives given 3 .load value) ∧
    ∀ value ∈ lists.2, Derives given 3 (.node .keyword) value

theorem partedDerive_nil : PartedDerive given ([], []) :=
  ⟨List.forall_mem_nil _, List.forall_mem_nil _⟩

theorem parted_derive {arguments : List Argument}
    (h : ∀ argument ∈ arguments, ArgumentDerives given argument) :
    PartedDerive given (Argument.parted arguments) := by
  induction arguments with
  | nil => exact partedDerive_nil
  | cons argument arguments ih =>
    rw [List.forall_mem_cons] at h
    obtain ⟨hpositional, hkeywords⟩ := ih h.2
    cases argument with
    | positional value => exact ⟨List.forall_mem_cons.mpr ⟨h.1, hpositional⟩, hkeywords⟩
    | keyword value => exact ⟨hpositional, List.forall_mem_cons.mpr ⟨h.1, hkeywords⟩⟩

section

include S

theorem keywordArgument_derives (h : home.Holds c) :
    Yields (Derives given 3 (.node .keyword)) (v.keywordArgument c) := by
  refine (c.require_yields "name").bind fun name _ => ?_
  refine S.loadField_bind h fun value hvalue => ?_
  exact .pure (.record rfl rfl rfl (.cons (.present (.text _)) (.cons (.given hvalue) .nil)))

theorem doubleStarredArgument_derives (h : home.Holds c) :
    Yields (Derives given 3 (.node .keyword)) (v.doubleStarredArgument c) := by
  refine S.loadFirst_bind h fun value hvalue => ?_
  exact .pure (.record rfl rfl rfl (.cons .absent (.cons (.given hvalue) .nil)))

theorem argument_derives (h : home.Encloses c) : Yields (ArgumentDerives given) (v.argument c) := by
  unfold Visitor.argument
  split
  · exact (S.keywordArgument_derives h.holds).bind fun value hvalue => .pure hvalue
  · exact (S.doubleStarredArgument_derives h.holds).bind fun value hvalue => .pure hvalue
  · exact (S.load h).bind fun value hvalue => .pure (.given hvalue)

theorem arguments_derive (h : home.Holds c) : Yields (PartedDerive given) (v.arguments c) := by
  refine (Yields.mapM fun d hd => S.argument_derives (h.significant hd)).bind fun list hlist => ?_
  exact .pure (parted_derive hlist)

end

/-! ## Parameters -/

/-- Each list of a signature holds what its field may hold, and each keyword-only parameter has a
place for its default. -/
structure SignatureDerives (given : Form → Tree → Prop) (signature : Signature) : Prop where
  positionalOnly : ∀ tree ∈ signature.positionalOnly, Derives given 2 (.node .parameter) tree
  positional : ∀ tree ∈ signature.positional, Derives given 2 (.node .parameter) tree
  starred : Derives given 2 (.optional (.node .parameter)) signature.starred
  keywordOnly : ∀ tree ∈ signature.keywordOnly, Derives given 2 (.node .parameter) tree
  keywordDefaults : ∀ tree ∈ signature.keywordDefaults, Derives given 2 (.optional .load) tree
  doubleStarred : Derives given 2 (.optional (.node .parameter)) signature.doubleStarred
  defaults : ∀ tree ∈ signature.defaults, Derives given 2 .load tree
  aligned : signature.keywordOnly.length = signature.keywordDefaults.length

theorem signatureDerives_empty : SignatureDerives given .empty where
  positionalOnly := List.forall_mem_nil _
  positional := List.forall_mem_nil _
  starred := .absent
  keywordOnly := List.forall_mem_nil _
  keywordDefaults := List.forall_mem_nil _
  doubleStarred := .absent
  defaults := List.forall_mem_nil _
  aligned := rfl

namespace SignatureDerives

variable {signature : Signature} {parameter : Tree}

theorem push (h : SignatureDerives given signature)
    (hparameter : Derives given 2 (.node .parameter) parameter) {default : Option Tree}
    (hdefault : ∀ tree, default = some tree → given .load tree) :
    SignatureDerives given (signature.push parameter default) := by
  unfold Signature.push
  split
  · refine { h with keywordOnly := ?_, keywordDefaults := ?_, aligned := ?_ }
    · exact List.forall_mem_append.mpr ⟨h.keywordOnly, List.forall_mem_singleton.mpr hparameter⟩
    · refine List.forall_mem_append.mpr ⟨h.keywordDefaults, List.forall_mem_singleton.mpr ?_⟩
      cases default with
      | none => exact .absent
      | some tree => exact .present (.given (hdefault tree rfl))
    · rw [List.length_append, List.length_append, h.aligned]
      rfl
  · refine { h with positional := ?_, defaults := ?_ }
    · exact List.forall_mem_append.mpr ⟨h.positional, List.forall_mem_singleton.mpr hparameter⟩
    · refine List.forall_mem_append.mpr ⟨h.defaults, fun tree htree => ?_⟩
      exact .given (hdefault tree (Option.mem_toList.mp htree))

theorem slash (h : SignatureDerives given signature) : SignatureDerives given signature.slash where
  positionalOnly := List.forall_mem_append.mpr ⟨h.positionalOnly, h.positional⟩
  positional := List.forall_mem_nil _
  starred := h.starred
  keywordOnly := h.keywordOnly
  keywordDefaults := h.keywordDefaults
  doubleStarred := h.doubleStarred
  defaults := h.defaults
  aligned := h.aligned

theorem toTree (h : SignatureDerives given signature) :
    Derives given 3 (.node .parameters) signature.toTree := by
  have hfields : DerivesFields given 2 "arguments" _ [
      ("posonlyargs", .seq signature.positionalOnly),
      ("args", .seq signature.positional),
      ("vararg", signature.starred),
      ("kwonlyargs", .seq signature.keywordOnly),
      ("kw_defaults", .seq signature.keywordDefaults),
      ("kwarg", signature.doubleStarred),
      ("defaults", .seq signature.defaults)] :=
    .cons (.list h.positionalOnly) (.cons (.list h.positional) (.cons h.starred
      (.cons (.list h.keywordOnly) (.cons (.list h.keywordDefaults) (.cons h.doubleStarred
        (.cons (.list h.defaults) .nil))))))
  refine .node (List.mem_singleton.mpr rfl) rfl hfields.names hfields.zip ?_
  refine List.forall_mem_singleton.mpr ⟨signature.keywordOnly, signature.keywordDefaults, ?_, ?_,
    h.aligned⟩
  · simp
  · simp

end SignatureDerives

section

include S

theorem parameterName_derives (name : Cst) {type : Option Cst}
    (h : ∀ d, type = some d → home.Encloses d) :
    Yields (Derives given 2 (.node .parameter)) (v.parameterName name type) := by
  refine (S.typeHint?_yields h).bind fun hint hhint => ?_
  exact .pure (.record rfl rfl rfl (.cons (.text _) (.cons (.given? hhint) .nil)))

theorem typedParameter_derives {signature : Signature}
    (hsignature : SignatureDerives given signature) (h : home.Holds c) :
    Yields (SignatureDerives given) (v.typedParameter signature c) := by
  refine (c.require_yields "type").bind fun type htype => ?_
  refine c.firstPart_yields.bind fun inner _ => ?_
  have htype : ∀ d, some type = some d → home.Encloses d := by
    rintro d ⟨⟩
    exact h.child? htype
  split
  · refine inner.firstPart_yields.bind fun name _ => ?_
    refine (S.parameterName_derives name htype).bind fun parameter hparameter => ?_
    exact .pure { hsignature with starred := .present hparameter }
  · refine inner.firstPart_yields.bind fun name _ => ?_
    refine (S.parameterName_derives name htype).bind fun parameter hparameter => ?_
    exact .pure { hsignature with doubleStarred := .present hparameter }
  · refine (S.parameterName_derives inner htype).bind fun parameter hparameter => ?_
    exact .pure (hsignature.push hparameter (by rintro tree ⟨⟩))

theorem addParameter_derives {signature : Signature} (hsignature : SignatureDerives given signature)
    (h : home.Holds c) : Yields (SignatureDerives given) (v.addParameter signature c) := by
  have hnone : ∀ d : Cst, none = some d → home.Encloses d := by rintro d ⟨⟩
  unfold Visitor.addParameter
  cases ParameterForm.ofKind c.kind with
  | plain =>
    refine (S.parameterName_derives c hnone).bind fun parameter hparameter => ?_
    exact .pure (hsignature.push hparameter (by rintro tree ⟨⟩))
  | typed => exact S.typedParameter_derives hsignature h
  | defaulted =>
    refine (c.require_yields "name").bind fun name _ => ?_
    refine (S.parameterName_derives name fun d => h.child?).bind fun parameter hparameter => ?_
    refine S.loadField_bind h fun default hdefault => ?_
    refine .pure (hsignature.push hparameter ?_)
    rintro tree ⟨⟩
    exact hdefault
  | starred =>
    refine c.firstPart_yields.bind fun name _ => ?_
    refine (S.parameterName_derives name hnone).bind fun parameter hparameter => ?_
    exact .pure { hsignature with starred := .present hparameter }
  | doubleStarred =>
    refine c.firstPart_yields.bind fun name _ => ?_
    refine (S.parameterName_derives name hnone).bind fun parameter hparameter => ?_
    exact .pure { hsignature with doubleStarred := .present hparameter }
  | star => exact .pure { hsignature with }
  | slash => exact .pure hsignature.slash
  | other => exact .error _

theorem parameters_derive {list : Option Cst} (h : ∀ d, list = some d → home.Holds d) :
    Yields (Derives given 3 (.node .parameters)) (v.parameters list) := by
  have hnodes : ∀ d ∈ (list.map Cst.significant).getD [], home.Holds d := by
    cases list with
    | none => exact List.forall_mem_nil _
    | some list => exact fun d hd => ((h list rfl).significant hd).holds
  refine (Yields.foldlM (Q := SignatureDerives given) (fun signature d hd hsignature =>
    S.addParameter_derives hsignature (hnodes d hd)) signatureDerives_empty).bind
    fun signature hsignature => ?_
  exact .pure hsignature.toTree

end

end Supply

end TreeText
