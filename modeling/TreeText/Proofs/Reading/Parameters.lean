import Mathlib.Data.List.DropRight
import Mathlib.Data.List.Induction
import TreeText.Proofs.Reading.Annotation
import TreeText.Proofs.Reading.Operator

/-!
# How parameters are sorted

Reading goes through a parameter list once and keeps a `Signature`: at a `/` it moves what it has
collected, at a star it changes where the next names go. Here a list of parameters is described
without the loop, by what stands before and after its first star and before its last slash, and a
`Signature` is shown to sort the list that has been read (`Signature.Sorts`).

What one more parameter does to a signature that sorts the list so far is the step
(`Signature.Sorts.add`); the run is an induction from the end of the list
(`Signature.sorts_foldl`). From the sorting alone it follows that no name is lost or put in two
places (`Signature.Sorts.perm`), and that defaults stay with their parameters
(`Signature.Sorts.default_belongs`).
-/

namespace TreeText

/-! ## Parameters that have been read -/

/-- The name of a parameter with its type. -/
structure ParameterName where
  text : String
  hint : Tree

/-- The node of a name, with its fields in order. -/
def ParameterName.toTree (name : ParameterName) : Tree :=
  .node "arg" [("annotation", name.hint), ("arg", .str name.text)]

theorem ParameterName.record_eq_toTree (name : ParameterName) :
    Tree.record "arg" [("arg", .str name.text), ("annotation", name.hint)] = name.toTree := by
  simp only [toTree, Tree.record, NameTable.ofList, List.foldl_cons, List.foldl_nil,
    NameTable.insert, String.reduceLT, ↓reduceIte]

/-- A parameter that has been read. -/
inductive Parameter where
  | unstarred (name : ParameterName) (default : Option Tree)
  | starred (name : ParameterName)
  | doubleStarred (name : ParameterName)
  | star
  | slash

namespace Parameter

/-- The name, if there is one. -/
def name? : Parameter → Option ParameterName
  | .unstarred name _ | .starred name | .doubleStarred name => some name
  | .star | .slash => none

/-- A parameter without a star, and its default. -/
def unstarred? : Parameter → Option (ParameterName × Option Tree)
  | .unstarred name default => some (name, default)
  | _ => none

/-- The name after one star. -/
def starred? : Parameter → Option ParameterName
  | .starred name => some name
  | _ => none

/-- The name after two stars. -/
def doubleStarred? : Parameter → Option ParameterName
  | .doubleStarred name => some name
  | _ => none

/-- Whether the parameters after this one are keyword only. -/
def isStar : Parameter → Bool
  | .starred _ | .star => true
  | _ => false

def isSlash : Parameter → Bool
  | .slash => true
  | _ => false

variable (parameters : List Parameter)

/-- The parameters before the first star, without stars themselves. -/
def positionals : List (ParameterName × Option Tree) :=
  (parameters.takeWhile fun parameter => !parameter.isStar).filterMap unstarred?

/-- The parameters after the first star, without stars themselves. -/
def keywords : List (ParameterName × Option Tree) :=
  (parameters.dropWhile fun parameter => !parameter.isStar).filterMap unstarred?

/-- The parameters up to the last slash. -/
def upToSlash : List Parameter :=
  parameters.rdropWhile fun parameter => !parameter.isSlash

/-- At most one name has one star, and at most one has two. -/
def StarsOnce : Prop :=
  (parameters.filterMap starred?).length ≤ 1 ∧ (parameters.filterMap doubleStarred?).length ≤ 1

/-- No positional parameter without a default follows one with a default. -/
def DefaultsLast : Prop :=
  (positionals parameters).Pairwise fun a b => a.2.isSome → b.2.isSome

/-- The node of the last of these names, if there is one. -/
def lastNode (names : List ParameterName) : Tree :=
  (names.getLast?.map ParameterName.toTree).getD .absent

end Parameter

/-! ## Signatures that sort a list -/

namespace Signature

/-- The node of a sorted list, with its fields in order. -/
theorem toTree_eq (signature : Signature) :
    signature.toTree = .node "arguments" [
      ("args", .seq signature.positional),
      ("defaults", .seq signature.defaults),
      ("kw_defaults", .seq signature.keywordDefaults),
      ("kwarg", signature.doubleStarred),
      ("kwonlyargs", .seq signature.keywordOnly),
      ("posonlyargs", .seq signature.positionalOnly),
      ("vararg", signature.starred)] := by
  simp only [toTree, Tree.record, NameTable.ofList, List.foldl_cons, List.foldl_nil,
    NameTable.insert, String.reduceLT, String.reduceEq, ↓reduceIte]

/-- What a parameter adds. -/
def add (signature : Signature) : Parameter → Signature
  | .unstarred name default => signature.push name.toTree default
  | .starred name => { signature with starred := name.toTree, afterStar := true }
  | .doubleStarred name => { signature with doubleStarred := name.toTree }
  | .star => signature.star
  | .slash => signature.slash

open Parameter (positionals keywords upToSlash lastNode)

/-- Every parameter of the list is where it belongs. -/
structure Sorts (signature : Signature) (parameters : List Parameter) : Prop where
  /-- What stands before the first star, in the order of the source. -/
  positional : signature.positionalOnly ++ signature.positional =
    (positionals parameters).map fun parameter => parameter.1.toTree
  /-- Of these, what stands before the last slash. -/
  positionalOnly : signature.positionalOnly =
    (positionals (upToSlash parameters)).map fun parameter => parameter.1.toTree
  /-- What stands after the first star, in the order of the source. -/
  keywordOnly : signature.keywordOnly =
    (keywords parameters).map fun parameter => parameter.1.toTree
  keywordDefaults : signature.keywordDefaults =
    (keywords parameters).map fun parameter => parameter.2.getD .absent
  defaults : signature.defaults = (positionals parameters).filterMap fun parameter => parameter.2
  starred : signature.starred = lastNode (parameters.filterMap Parameter.starred?)
  doubleStarred : signature.doubleStarred =
    lastNode (parameters.filterMap Parameter.doubleStarred?)
  afterStar : signature.afterStar = parameters.any Parameter.isStar

end Signature

/-! ## One more parameter -/

namespace Parameter

variable {parameters : List Parameter} {parameter : Parameter}

theorem positionals_cons :
    positionals (parameter :: parameters) =
      if parameter.isStar then [] else parameter.unstarred?.toList ++ positionals parameters := by
  rw [positionals, positionals, List.takeWhile_cons]
  cases parameter with
  | _ => rfl

theorem keywords_cons :
    keywords (parameter :: parameters) =
      if parameter.isStar then parameters.filterMap unstarred? else keywords parameters := by
  rw [keywords, keywords, List.dropWhile_cons]
  cases parameter with
  | _ => rfl

/-- Before the first star one more parameter goes to the positional ones. -/
theorem positionals_concat :
    positionals (parameters ++ [parameter]) =
      if parameters.any isStar then positionals parameters
      else positionals parameters ++ parameter.unstarred?.toList := by
  induction parameters with
  | nil =>
    rw [List.nil_append, positionals_cons]
    cases parameter with
    | _ => rfl
  | cons first parameters ih =>
    rw [List.cons_append, positionals_cons, positionals_cons, List.any_cons, ih]
    by_cases hstar : first.isStar
    · simp [hstar]
    · by_cases hlater : parameters.any isStar
      · simp [hstar, hlater]
      · simp [hstar, hlater]

/-- After the first star it goes to the keyword-only ones. -/
theorem keywords_concat :
    keywords (parameters ++ [parameter]) =
      if parameters.any isStar then keywords parameters ++ parameter.unstarred?.toList
      else keywords parameters := by
  induction parameters with
  | nil =>
    rw [List.nil_append, keywords_cons]
    cases parameter with
    | _ => rfl
  | cons first parameters ih =>
    rw [List.cons_append, keywords_cons, keywords_cons, List.any_cons, ih]
    by_cases hstar : first.isStar
    · cases hunstarred : parameter.unstarred? with
      | _ => simp [hstar, hunstarred]
    · simp [hstar]

theorem upToSlash_concat :
    upToSlash (parameters ++ [parameter]) =
      if parameter.isSlash then parameters ++ [parameter] else upToSlash parameters := by
  rw [upToSlash, List.rdropWhile_concat, upToSlash]
  cases parameter.isSlash with
  | _ => rfl

/-- A slash is no positional parameter itself. -/
theorem positionals_concat_of_isSlash (hslash : parameter.isSlash) :
    positionals (parameters ++ [parameter]) = positionals parameters := by
  cases parameter with
  | slash => simp [positionals_concat, unstarred?]
  | _ => cases hslash

/-- The last name is the new one, if the new parameter has one of this shape. -/
theorem lastNode_filterMap_concat (name? : Parameter → Option ParameterName) :
    lastNode ((parameters ++ [parameter]).filterMap name?) =
      ((name? parameter).map ParameterName.toTree).getD
        (lastNode (parameters.filterMap name?)) := by
  rw [List.filterMap_append, List.filterMap_cons, List.filterMap_nil]
  cases name? parameter with
  | none => simp
  | some name => simp [lastNode]

end Parameter

namespace Signature

open Parameter (positionals_concat keywords_concat upToSlash_concat lastNode_filterMap_concat)

variable (signature : Signature) (parameter : Parameter)

theorem add_positional :
    (signature.add parameter).positionalOnly ++ (signature.add parameter).positional =
      if signature.afterStar then signature.positionalOnly ++ signature.positional
      else signature.positionalOnly ++ signature.positional ++
        parameter.unstarred?.toList.map fun parameter => parameter.1.toTree := by
  by_cases hstar : signature.afterStar = true
  · cases parameter with
    | _ => simp [add, push, star, slash, hstar]
  · cases parameter with
    | _ => simp [add, push, star, slash, hstar, Parameter.unstarred?]

theorem add_positionalOnly :
    (signature.add parameter).positionalOnly =
      if parameter.isSlash then signature.positionalOnly ++ signature.positional
      else signature.positionalOnly := by
  cases parameter with
  | unstarred name default =>
    show (signature.push name.toTree default).positionalOnly = signature.positionalOnly
    rw [push]
    split
    · rfl
    · rfl
  | _ => rfl

theorem add_keywordOnly :
    (signature.add parameter).keywordOnly =
      if signature.afterStar then
        signature.keywordOnly ++ parameter.unstarred?.toList.map fun parameter => parameter.1.toTree
      else signature.keywordOnly := by
  cases parameter with
  | unstarred name default =>
    rw [add, push]
    split
    · rfl
    · rfl
  | _ => simp [add, star, slash, Parameter.unstarred?]

theorem add_keywordDefaults :
    (signature.add parameter).keywordDefaults =
      if signature.afterStar then
        signature.keywordDefaults ++
          parameter.unstarred?.toList.map fun parameter => parameter.2.getD .absent
      else signature.keywordDefaults := by
  cases parameter with
  | unstarred name default =>
    rw [add, push]
    split
    · rfl
    · rfl
  | _ => simp [add, star, slash, Parameter.unstarred?]

theorem add_defaults :
    (signature.add parameter).defaults =
      if signature.afterStar then signature.defaults
      else signature.defaults ++
        parameter.unstarred?.toList.filterMap fun parameter => parameter.2 := by
  cases parameter with
  | unstarred name default =>
    rw [add, push]
    split
    · rfl
    · cases default with
      | _ => rfl
  | _ => simp [add, star, slash, Parameter.unstarred?]

theorem add_starred :
    (signature.add parameter).starred =
      (parameter.starred?.map ParameterName.toTree).getD signature.starred := by
  cases parameter with
  | unstarred name default =>
    rw [add, push]
    split
    · rfl
    · rfl
  | _ => rfl

theorem add_doubleStarred :
    (signature.add parameter).doubleStarred =
      (parameter.doubleStarred?.map ParameterName.toTree).getD signature.doubleStarred := by
  cases parameter with
  | unstarred name default =>
    rw [add, push]
    split
    · rfl
    · rfl
  | _ => rfl

theorem add_afterStar :
    (signature.add parameter).afterStar = (signature.afterStar || parameter.isStar) := by
  cases parameter with
  | unstarred name default =>
    rw [add, push]
    cases signature.afterStar with
    | _ => rfl
  | _ => simp [add, star, slash, Parameter.isStar]

variable {signature}

/-- What is sorted stays sorted, as the next parameter is added to it. -/
theorem Sorts.add {parameters : List Parameter} (h : signature.Sorts parameters) :
    (signature.add parameter).Sorts (parameters ++ [parameter]) where
  positional := by
    rw [add_positional, positionals_concat, h.positional, h.afterStar]
    split
    · rfl
    · rw [List.map_append]
  positionalOnly := by
    rw [add_positionalOnly, upToSlash_concat]
    split
    -- A slash takes all the positional parameters there are so far.
    · next hslash => rw [Parameter.positionals_concat_of_isSlash hslash, h.positional]
    · exact h.positionalOnly
  keywordOnly := by
    rw [add_keywordOnly, keywords_concat, h.keywordOnly, h.afterStar]
    split
    · rw [List.map_append]
    · rfl
  keywordDefaults := by
    rw [add_keywordDefaults, keywords_concat, h.keywordDefaults, h.afterStar]
    split
    · rw [List.map_append]
    · rfl
  defaults := by
    rw [add_defaults, positionals_concat, h.defaults, h.afterStar]
    split
    · rfl
    · rw [List.filterMap_append]
  starred := by rw [add_starred, h.starred, lastNode_filterMap_concat]
  doubleStarred := by rw [add_doubleStarred, h.doubleStarred, lastNode_filterMap_concat]
  afterStar := by
    rw [add_afterStar, h.afterStar, List.any_append, List.any_cons, List.any_nil, Bool.or_false]

/-- One parameter after the other, the whole list is sorted. -/
theorem sorts_foldl (parameters : List Parameter) :
    (parameters.foldl Signature.add Signature.empty).Sorts parameters := by
  induction parameters using List.reverseRecOn with
  | nil => exact ⟨rfl, rfl, rfl, rfl, rfl, rfl, rfl, rfl⟩
  | append_singleton parameters parameter ih =>
    rw [List.foldl_concat]
    exact ih.add parameter

/-- There is one way to sort a list. -/
theorem Sorts.unique {signature signature' : Signature} {parameters : List Parameter}
    (h : signature.Sorts parameters) (h' : signature'.Sorts parameters) :
    signature = signature' := by
  have honly : signature.positionalOnly = signature'.positionalOnly :=
    h.positionalOnly.trans h'.positionalOnly.symm
  have hboth := h.positional.trans h'.positional.symm
  rw [honly] at hboth
  have hpositional := List.append_cancel_left hboth
  cases signature
  cases signature'
  congr 1
  · exact h.starred.trans h'.starred.symm
  · exact h.keywordOnly.trans h'.keywordOnly.symm
  · exact h.keywordDefaults.trans h'.keywordDefaults.symm
  · exact h.doubleStarred.trans h'.doubleStarred.symm
  · exact h.defaults.trans h'.defaults.symm
  · exact h.afterStar.trans h'.afterStar.symm

end Signature

/-! ## No name is lost -/

/-- A tree that is there. -/
def Tree.toPresent (tree : Tree) : List Tree :=
  if tree.isAbsent then [] else [tree]

namespace Signature

/-- The nodes of all slots. -/
def nodes (signature : Signature) : List Tree :=
  signature.positionalOnly ++ signature.positional ++ signature.starred.toPresent ++
    signature.keywordOnly ++ signature.doubleStarred.toPresent

end Signature

namespace Parameter

/-- Of one name none is lost. -/
theorem toPresent_lastNode {names : List ParameterName} (h : names.length ≤ 1) :
    (lastNode names).toPresent = names.map ParameterName.toTree := by
  match names, h with
  | [], _ => rfl
  | [name], _ => rfl

/-- The parameters without stars are those before and those after the first star. -/
theorem positionals_append_keywords (parameters : List Parameter) :
    positionals parameters ++ keywords parameters = parameters.filterMap unstarred? := by
  rw [positionals, keywords, ← List.filterMap_append, List.takeWhile_append_dropWhile]

/-- A name has no star, one or two. -/
theorem names_perm (parameters : List Parameter) :
    ((parameters.filterMap unstarred?).map Prod.fst ++ parameters.filterMap starred? ++
      parameters.filterMap doubleStarred?).Perm (parameters.filterMap name?) := by
  induction parameters with
  | nil => exact .refl _
  | cons parameter parameters ih =>
    cases parameter with
    | unstarred name default => exact ih.cons name
    | starred name =>
      show (_ ++ name :: parameters.filterMap starred? ++ _).Perm (name :: _)
      rw [List.append_assoc, List.cons_append]
      refine List.perm_middle.trans (.cons name ?_)
      rw [← List.append_assoc]
      exact ih
    | doubleStarred name => exact List.perm_middle.trans (ih.cons name)
    | star => exact ih
    | slash => exact ih

end Parameter

namespace Signature

/-- With at most one name after a star and one after two, every name has its node in one slot. -/
theorem Sorts.perm {signature : Signature} {parameters : List Parameter}
    (h : signature.Sorts parameters) (hstars : Parameter.StarsOnce parameters) :
    signature.nodes.Perm ((parameters.filterMap Parameter.name?).map ParameterName.toTree) := by
  have hnodes := (Parameter.names_perm parameters).map ParameterName.toTree
  rw [List.map_append, List.map_append, List.map_map,
    ← Parameter.positionals_append_keywords, List.map_append] at hnodes
  refine List.Perm.trans ?_ hnodes
  rw [nodes, h.positional, h.keywordOnly, h.starred, h.doubleStarred,
    Parameter.toPresent_lastNode hstars.1, Parameter.toPresent_lastNode hstars.2]
  refine List.Perm.append_right _ ?_
  rw [List.append_assoc, List.append_assoc]
  exact List.Perm.append_left _ List.perm_append_comm

end Signature

/-! ## Defaults stay with their parameters -/

/-- If the items that give a value come last, the values from the end are those of the items from
the end. -/
theorem getElem?_reverse_filterMap {α β : Type} {f : α → Option β} {items : List α}
    (h : items.Pairwise fun a b => (f a).isSome → (f b).isSome) {k : Nat} {value : β}
    (hvalue : (items.filterMap f).reverse[k]? = some value) :
    ∃ item, items.reverse[k]? = some item ∧ f item = some value := by
  induction items using List.reverseRecOn generalizing k with
  | nil => cases hvalue
  | append_singleton items item ih =>
    obtain ⟨hitems, -, hlast⟩ := List.pairwise_append.mp h
    rw [List.filterMap_append, List.reverse_append] at hvalue
    rw [List.reverse_append]
    cases hitem : f item with
    | none =>
      -- As the last item gives no value, none before it does.
      have hnone : items.filterMap f = [] := by
        refine List.filterMap_eq_nil_iff.mpr fun a ha => ?_
        have hnot := hlast a ha item (List.mem_singleton_self item)
        rw [hitem] at hnot
        exact Option.not_isSome_iff_eq_none.mp fun hsome => Bool.false_ne_true (hnot hsome)
      simp [hitem, hnone] at hvalue
    | some last =>
      cases k with
      | zero =>
        refine ⟨item, rfl, ?_⟩
        simpa [hitem] using hvalue
      | succ k =>
        simp only [hitem, List.filterMap_cons, List.filterMap_nil] at hvalue
        exact ih hitems hvalue

namespace Signature

/-- If no positional parameter without a default follows one with a default, the defaults from the
end belong to the positional parameters from the end. -/
theorem Sorts.default_belongs {signature : Signature} {parameters : List Parameter}
    (h : signature.Sorts parameters)
    (hlast : Parameter.DefaultsLast parameters)
    {k : Nat} {default : Tree} (hdefault : signature.defaults.reverse[k]? = some default) :
    ∃ name, (Parameter.positionals parameters).reverse[k]? = some (name, some default) ∧
      (signature.positionalOnly ++ signature.positional).reverse[k]? = some name.toTree := by
  rw [h.defaults] at hdefault
  obtain ⟨⟨name, given⟩, hitem, rfl⟩ := getElem?_reverse_filterMap hlast hdefault
  refine ⟨name, hitem, ?_⟩
  rw [h.positional, ← List.map_reverse, List.getElem?_map, hitem]
  rfl

end Signature

/-! ## Parameters as they are written -/

/-- The kinds of nodes that have a shape. -/
def ParameterForm.kinds : ParameterForm → List String
  | .plain => ["identifier"]
  | .typed => ["typed_parameter"]
  | .defaulted => ["default_parameter", "typed_default_parameter"]
  | .starred => ["list_splat_pattern"]
  | .doubleStarred => ["dictionary_splat_pattern"]
  | .star => ["keyword_separator"]
  | .slash => ["positional_separator"]
  | .other => []

/-- A shape other than the last is that of its kinds only. -/
theorem ParameterForm.kind_mem_kinds {kind : String} {form : ParameterForm}
    (h : ofKind kind = form) (hother : form ≠ .other) : kind ∈ form.kinds := by
  subst h
  revert hother
  unfold ofKind
  split
  case h_9 => exact fun hother => absurd rfl hother
  all_goals exact fun _ => by simp [kinds]

/-- Most shapes are those of one kind. -/
theorem ParameterForm.kind_eq {kind only : String} {form : ParameterForm} (h : ofKind kind = form)
    (honly : form.kinds = [only]) : kind = only := by
  have hmem : kind ∈ form.kinds := by
    refine kind_mem_kinds h ?_
    rintro rfl
    cases honly
  rw [honly] at hmem
  exact List.mem_singleton.mp hmem

/-- A node's first part is its first significant child. -/
theorem Cst.firstPart_eq_ok_iff {c d : Cst} :
    c.firstPart = (.ok d : Reading.Result Cst) ↔ c.significant.head? = some d := by
  rw [firstPart]
  cases c.significant with
  | nil => simp [throw, throwThe, MonadExceptOf.throw]
  | cons part rest => simp [pure, Except.pure]

namespace Visitor

open Reading (Result bind_eq_ok_iff)
open ParameterForm (kind_eq kind_mem_kinds)

/-- A name and its type, if it has one, are read. -/
structure ReadsName (v : Visitor Result) (c : Cst) (type : Option Cst) (name : ParameterName) :
    Prop where
  text : name.text = v.text c
  hint : v.typeHint? type = .ok name.hint

/-- A node is read as a parameter. -/
inductive ReadsParameter (v : Visitor Result) (c : Cst) : Parameter → Prop
  | plain {name : ParameterName} (hkind : c.kind = "identifier") (hname : v.ReadsName c none name) :
    ReadsParameter v c (.unstarred name none)
  | typed {type inner : Cst} {name : ParameterName} (hkind : c.kind = "typed_parameter")
    (htype : c.child? "type" = some type) (hinner : c.significant.head? = some inner)
    (hstar : inner.kind ≠ "list_splat_pattern") (hstars : inner.kind ≠ "dictionary_splat_pattern")
    (hname : v.ReadsName inner (some type) name) :
    ReadsParameter v c (.unstarred name none)
  | defaulted {first value : Cst} {name : ParameterName} {default : Tree}
    (hkind : c.kind = "default_parameter" ∨ c.kind = "typed_default_parameter")
    (hfirst : c.child? "name" = some first) (hname : v.ReadsName first (c.child? "type") name)
    (hvalue : c.child? "value" = some value) (hdefault : v.load value = .ok default) :
    ReadsParameter v c (.unstarred name (some default))
  | starred {first : Cst} {name : ParameterName} (hkind : c.kind = "list_splat_pattern")
    (hfirst : c.significant.head? = some first) (hname : v.ReadsName first none name) :
    ReadsParameter v c (.starred name)
  | typedStarred {type inner first : Cst} {name : ParameterName}
    (hkind : c.kind = "typed_parameter") (htype : c.child? "type" = some type)
    (hinner : c.significant.head? = some inner)
    (hstar : inner.kind = "list_splat_pattern") (hfirst : inner.significant.head? = some first)
    (hname : v.ReadsName first (some type) name) :
    ReadsParameter v c (.starred name)
  | doubleStarred {first : Cst} {name : ParameterName} (hkind : c.kind = "dictionary_splat_pattern")
    (hfirst : c.significant.head? = some first) (hname : v.ReadsName first none name) :
    ReadsParameter v c (.doubleStarred name)
  | typedDoubleStarred {type inner first : Cst} {name : ParameterName}
    (hkind : c.kind = "typed_parameter") (htype : c.child? "type" = some type)
    (hinner : c.significant.head? = some inner) (hstars : inner.kind = "dictionary_splat_pattern")
    (hfirst : inner.significant.head? = some first) (hname : v.ReadsName first (some type) name) :
    ReadsParameter v c (.doubleStarred name)
  | star (hkind : c.kind = "keyword_separator") : ReadsParameter v c .star
  | slash (hkind : c.kind = "positional_separator") : ReadsParameter v c .slash

variable {v : Visitor Result}

theorem parameterName_eq_ok_iff {c : Cst} {type : Option Cst} {node : Tree} :
    v.parameterName c type = .ok node ↔ ∃ name, v.ReadsName c type name ∧ node = name.toTree := by
  rw [parameterName, bind_eq_ok_iff]
  constructor
  · rintro ⟨hint, hhint, h⟩
    cases h
    exact ⟨⟨v.text c, hint⟩, ⟨rfl, hhint⟩, ParameterName.record_eq_toTree ⟨v.text c, hint⟩⟩
  · rintro ⟨⟨text, hint⟩, ⟨rfl, hhint⟩, rfl⟩
    refine ⟨hint, hhint, ?_⟩
    rw [← ParameterName.record_eq_toTree]
    rfl

/-- What is made of a name is there just if the name is read. -/
theorem named_eq_ok_iff {α : Type} {f : Tree → α} {a : α} {c : Cst} {type : Option Cst} :
    (do return f (← v.parameterName c type)) = (.ok a : Result α) ↔
      ∃ name, v.ReadsName c type name ∧ a = f name.toTree := by
  rw [bind_eq_ok_iff]
  simp only [parameterName_eq_ok_iff]
  constructor
  · rintro ⟨_, ⟨name, hname, rfl⟩, h⟩
    cases h
    exact ⟨name, hname, rfl⟩
  · rintro ⟨name, hname, rfl⟩
    exact ⟨_, ⟨name, hname, rfl⟩, rfl⟩

/-- The name of a starred parameter is its first part. -/
theorem starredName_eq_ok_iff {α : Type} {f : Tree → α} {a : α} {c : Cst} {type : Option Cst} :
    (do return f (← v.parameterName (← c.firstPart) type)) = (.ok a : Result α) ↔
      ∃ first, c.significant.head? = some first ∧
        ∃ name, v.ReadsName first type name ∧ a = f name.toTree := by
  rw [bind_eq_ok_iff]
  simp only [Cst.firstPart_eq_ok_iff, named_eq_ok_iff]

theorem typedParameter_eq_ok_iff {signature signature' : Signature} {c : Cst}
    (hkind : c.kind = "typed_parameter") :
    v.typedParameter signature c = .ok signature' ↔
      ∃ parameter, v.ReadsParameter c parameter ∧ signature' = signature.add parameter := by
  rw [typedParameter]
  simp only [bind_eq_ok_iff, Cst.require_eq_ok_iff, Cst.firstPart_eq_ok_iff]
  constructor
  · rintro ⟨type, htype, inner, hinner, h⟩
    by_cases hstar : inner.kind = "list_splat_pattern"
    · rw [hstar] at h
      obtain ⟨first, hfirst, name, hname, rfl⟩ := starredName_eq_ok_iff.mp h
      exact ⟨_, .typedStarred hkind htype hinner hstar hfirst hname, rfl⟩
    by_cases hstars : inner.kind = "dictionary_splat_pattern"
    · rw [hstars] at h
      obtain ⟨first, hfirst, name, hname, rfl⟩ := starredName_eq_ok_iff.mp h
      exact ⟨_, .typedDoubleStarred hkind htype hinner hstars hfirst hname, rfl⟩
    split at h
    · next hform => exact absurd (kind_eq hform rfl) hstar
    · next hform => exact absurd (kind_eq hform rfl) hstars
    · obtain ⟨name, hname, rfl⟩ := named_eq_ok_iff.mp h
      exact ⟨_, .typed hkind htype hinner hstar hstars hname, rfl⟩
  · rintro ⟨parameter, hread, rfl⟩
    cases hread with
    | typed _ htype hinner hstar hstars hname =>
      refine ⟨_, htype, _, hinner, ?_⟩
      split
      · next hform => exact absurd (kind_eq hform rfl) hstar
      · next hform => exact absurd (kind_eq hform rfl) hstars
      · exact named_eq_ok_iff.mpr ⟨_, hname, rfl⟩
    | typedStarred _ htype hinner hstar hfirst hname =>
      refine ⟨_, htype, _, hinner, ?_⟩
      rw [hstar]
      exact starredName_eq_ok_iff.mpr ⟨_, hfirst, _, hname, rfl⟩
    | typedDoubleStarred _ htype hinner hstars hfirst hname =>
      refine ⟨_, htype, _, hinner, ?_⟩
      rw [hstars]
      exact starredName_eq_ok_iff.mpr ⟨_, hfirst, _, hname, rfl⟩
    | _ => simp_all

theorem defaultedParameter_eq_ok_iff {signature signature' : Signature} {c : Cst} :
    (do
      let parameter ← v.parameterName (← c.require "name") (c.child? "type")
      let default ← v.load (← c.require "value")
      return signature.push parameter (some default)) = (.ok signature' : Result Signature) ↔
      ∃ first, c.child? "name" = some first ∧ ∃ name, v.ReadsName first (c.child? "type") name ∧
        ∃ value, c.child? "value" = some value ∧ ∃ default, v.load value = .ok default ∧
          signature' = signature.push name.toTree (some default) := by
  simp only [bind_eq_ok_iff, Cst.require_eq_ok_iff, parameterName_eq_ok_iff]
  constructor
  · rintro ⟨first, hfirst, _, ⟨name, hname, rfl⟩, value, hvalue, default, hdefault, h⟩
    cases h
    exact ⟨first, hfirst, name, hname, value, hvalue, default, hdefault, rfl⟩
  · rintro ⟨first, hfirst, name, hname, value, hvalue, default, hdefault, rfl⟩
    exact ⟨first, hfirst, _, ⟨name, hname, rfl⟩, value, hvalue, default, hdefault, rfl⟩

/-- A node is added to a signature just if it is read as a parameter, and that is what is added. -/
theorem addParameter_eq_ok_iff {signature signature' : Signature} {c : Cst} :
    v.addParameter signature c = .ok signature' ↔
      ∃ parameter, v.ReadsParameter c parameter ∧ signature' = signature.add parameter := by
  by_cases htyped : c.kind = "typed_parameter"
  · rw [addParameter, htyped]
    exact typedParameter_eq_ok_iff htyped
  rw [addParameter]
  constructor
  · intro h
    split at h
    · next hform =>
      obtain ⟨name, hname, rfl⟩ := named_eq_ok_iff.mp h
      exact ⟨_, .plain (kind_eq hform rfl) hname, rfl⟩
    · next hform => exact absurd (kind_eq hform rfl) htyped
    · next hform =>
      obtain ⟨first, hfirst, name, hname, value, hvalue, default, hdefault, rfl⟩ :=
        defaultedParameter_eq_ok_iff.mp h
      have hkind := kind_mem_kinds hform (by decide)
      rw [ParameterForm.kinds, List.mem_pair] at hkind
      exact ⟨_, .defaulted hkind hfirst hname hvalue hdefault, rfl⟩
    · next hform =>
      obtain ⟨first, hfirst, name, hname, rfl⟩ := starredName_eq_ok_iff.mp h
      exact ⟨_, .starred (kind_eq hform rfl) hfirst hname, rfl⟩
    · next hform =>
      obtain ⟨first, hfirst, name, hname, rfl⟩ := starredName_eq_ok_iff.mp h
      exact ⟨_, .doubleStarred (kind_eq hform rfl) hfirst hname, rfl⟩
    · next hform =>
      cases h
      exact ⟨_, .star (kind_eq hform rfl), rfl⟩
    · next hform =>
      cases h
      exact ⟨_, .slash (kind_eq hform rfl), rfl⟩
    · cases h
  · rintro ⟨parameter, hread, rfl⟩
    cases hread with
    | plain hkind hname =>
      rw [hkind]
      exact named_eq_ok_iff.mpr ⟨_, hname, rfl⟩
    | defaulted hkind hfirst hname hvalue hdefault =>
      have hform : ParameterForm.ofKind c.kind = .defaulted := by
        rcases hkind with hkind | hkind
        · rw [hkind]
          rfl
        · rw [hkind]
          rfl
      rw [hform]
      exact defaultedParameter_eq_ok_iff.mpr
        ⟨_, hfirst, _, hname, _, hvalue, _, hdefault, rfl⟩
    | starred hkind hfirst hname =>
      rw [hkind]
      exact starredName_eq_ok_iff.mpr ⟨_, hfirst, _, hname, rfl⟩
    | doubleStarred hkind hfirst hname =>
      rw [hkind]
      exact starredName_eq_ok_iff.mpr ⟨_, hfirst, _, hname, rfl⟩
    | star hkind =>
      rw [hkind]
      rfl
    | slash hkind =>
      rw [hkind]
      rfl
    | typed hkind | typedStarred hkind | typedDoubleStarred hkind => exact absurd hkind htyped

/-- A list is added node by node just if each of them is read as a parameter. -/
theorem foldlM_addParameter_eq_ok_iff {nodes : List Cst} {signature signature' : Signature} :
    nodes.foldlM v.addParameter signature = .ok signature' ↔
      ∃ parameters, List.Forall₂ v.ReadsParameter nodes parameters ∧
        signature' = parameters.foldl Signature.add signature := by
  induction nodes generalizing signature with
  | nil =>
    constructor
    · intro h
      cases h
      exact ⟨[], .nil, rfl⟩
    · rintro ⟨_, _ | _, rfl⟩
      rfl
  | cons node nodes ih =>
    simp only [List.foldlM_cons, bind_eq_ok_iff, addParameter_eq_ok_iff, ih]
    constructor
    · rintro ⟨_, ⟨parameter, hread, rfl⟩, parameters, hreads, rfl⟩
      exact ⟨parameter :: parameters, .cons hread hreads, rfl⟩
    · rintro ⟨_, _ | ⟨hread, hreads⟩, rfl⟩
      exact ⟨_, ⟨_, hread, rfl⟩, _, hreads, rfl⟩

/-- A parameter list is read just if each of its nodes is, and the result is the list sorted. -/
theorem parameters_eq_ok_iff {list : Option Cst} {tree : Tree} :
    v.parameters list = .ok tree ↔
      ∃ (parameters : List Parameter) (signature : Signature),
        List.Forall₂ v.ReadsParameter ((list.map Cst.significant).getD []) parameters ∧
        tree = signature.toTree ∧ signature.Sorts parameters := by
  rw [Visitor.parameters, bind_eq_ok_iff]
  simp only [foldlM_addParameter_eq_ok_iff]
  constructor
  · rintro ⟨_, ⟨parameters, hreads, rfl⟩, h⟩
    cases h
    exact ⟨parameters, _, hreads, rfl, Signature.sorts_foldl parameters⟩
  · rintro ⟨parameters, signature, hreads, rfl, hsorts⟩
    refine ⟨_, ⟨parameters, hreads, rfl⟩, ?_⟩
    rw [hsorts.unique (Signature.sorts_foldl parameters)]
    rfl

end Visitor

/-! ## Parameters at a depth -/

namespace Reading

namespace Counted

variable (source : Source)

/-- A visitor that counts reads parameters as the one does that reads every part from one depth. -/
theorem runFrom_parameters_eq (depth : Nat) (list : Option Cst) :
    (Visitor.parameters ⟨source, Counted.read source⟩ list).runFrom depth =
      (Visitor.parameters (visitorFrom source depth) list, depth) := by
  have hlist : Option.Rel (handedDown source depth).node list list := by
    cases list with
    | none => exact .none
    | some list => exact .some rfl
  exact ((handedDown source depth).parameters_agree hlist).runFrom_eq

/-- **Parameters are sorted without loss, and defaults stay with them.** A parameter list is read
just if all its nodes are read as parameters, and the result is a node `arguments` whose fields are
the slots of a signature. In these all parameters are where they belong: before or after the first
star, and before or after the last slash, in the order of the source. If at most one name has one
star and at most one has two, the nodes of the names are those of the slots. If no positional
parameter without a default follows one with a default, the defaults from the end belong to the
positional parameters from the end. -/
theorem runFrom_parameters (depth : Nat) (list : Option Cst) (tree : Tree) :
    ((Visitor.parameters ⟨source, Counted.read source⟩ list).runFrom depth).1 = .ok tree ↔
      ∃ (parameters : List Parameter) (signature : Signature),
        List.Forall₂ (visitorFrom source depth).ReadsParameter
          ((list.map Cst.significant).getD []) parameters ∧
        tree = .node "arguments" [
          ("args", .seq signature.positional),
          ("defaults", .seq signature.defaults),
          ("kw_defaults", .seq signature.keywordDefaults),
          ("kwarg", signature.doubleStarred),
          ("kwonlyargs", .seq signature.keywordOnly),
          ("posonlyargs", .seq signature.positionalOnly),
          ("vararg", signature.starred)] ∧
        signature.Sorts parameters ∧
        (Parameter.StarsOnce parameters → signature.nodes.Perm
          ((parameters.filterMap Parameter.name?).map ParameterName.toTree)) ∧
        (Parameter.DefaultsLast parameters →
          ∀ (k : Nat) (default : Tree), signature.defaults.reverse[k]? = some default →
            ∃ name : ParameterName,
              (Parameter.positionals parameters).reverse[k]? = some (name, some default) ∧
              (signature.positionalOnly ++ signature.positional).reverse[k]? =
                some name.toTree) := by
  rw [runFrom_parameters_eq, Visitor.parameters_eq_ok_iff]
  constructor
  · rintro ⟨parameters, signature, hreads, rfl, hsorts⟩
    exact ⟨parameters, signature, hreads, signature.toTree_eq, hsorts, hsorts.perm,
      fun hlast k default => hsorts.default_belongs hlast⟩
  · rintro ⟨parameters, signature, hreads, rfl, hsorts, -⟩
    exact ⟨parameters, signature, hreads, signature.toTree_eq.symm, hsorts⟩

/-- The text of a parameter list with a slash, a default and a name after a star. -/
def parameterSource : Source := .ofText CharacterName.noNames "(a, /, b=c, *d, e)"

/-- The parameter list of the text. -/
def parameterList : Cst :=
  .sound "parameters" none true 0 18 0 0 [
    tokenAt "(" 0, nameAt 1 2, tokenAt "," 2,
    .sound "positional_separator" none true 4 5 0 4 [tokenAt "/" 4], tokenAt "," 5,
    .sound "default_parameter" none true 7 10 0 7 [
      (nameAt 7 8).under (some "name"), tokenAt "=" 8, (nameAt 9 10).under (some "value")],
    tokenAt "," 10,
    .sound "list_splat_pattern" none true 12 14 0 12 [tokenAt "*" 12, nameAt 13 14], tokenAt "," 14,
    nameAt 16 17, tokenAt ")" 17]

/-- The parameters of the list. -/
def listedParameters : List Parameter := [
  .unstarred ⟨"a", .absent⟩ none, .slash, .unstarred ⟨"b", .absent⟩ (some (.name "c" .load)),
  .starred ⟨"d", .absent⟩, .unstarred ⟨"e", .absent⟩ none]

/-- One name is positional only, one is not and has a default, one has a star, and one comes after
it. -/
theorem runFrom_parameterList :
    List.Forall₂ (visitorFrom parameterSource 0).ReadsParameter parameterList.significant
      listedParameters ∧
    Parameter.StarsOnce listedParameters ∧ Parameter.DefaultsLast listedParameters ∧
    ((Visitor.parameters ⟨parameterSource, Counted.read parameterSource⟩
        (some parameterList)).runFrom 0).1 =
      .ok (.node "arguments" [
        ("args", .seq [ParameterName.toTree ⟨"b", .absent⟩]),
        ("defaults", .seq [.name "c" .load]),
        ("kw_defaults", .seq [.absent]),
        ("kwarg", .absent),
        ("kwonlyargs", .seq [ParameterName.toTree ⟨"e", .absent⟩]),
        ("posonlyargs", .seq [ParameterName.toTree ⟨"a", .absent⟩]),
        ("vararg", ParameterName.toTree ⟨"d", .absent⟩)]) := by
  have hreads : List.Forall₂ (visitorFrom parameterSource 0).ReadsParameter
      parameterList.significant listedParameters :=
    .cons (.plain rfl ⟨rfl, rfl⟩) (.cons (.slash rfl)
      (.cons (.defaulted (.inl rfl) rfl ⟨rfl, rfl⟩ rfl rfl)
        (.cons (.starred rfl rfl ⟨rfl, rfl⟩) (.cons (.plain rfl ⟨rfl, rfl⟩) .nil))))
  have hstars : Parameter.StarsOnce listedParameters := by
    unfold Parameter.StarsOnce
    decide
  have hlast : Parameter.DefaultsLast listedParameters := by
    unfold Parameter.DefaultsLast
    decide
  have hsorts := Signature.sorts_foldl listedParameters
  have hread := (runFrom_parameters parameterSource 0 (some parameterList) _).mpr
    ⟨listedParameters, _, hreads, rfl, hsorts, hsorts.perm,
      fun hlast k default => hsorts.default_belongs hlast⟩
  exact ⟨hreads, hstars, hlast, hread⟩

end Counted

end Reading

end TreeText
