import TreeText.Proofs.Reading.Building

/-!
# What the rules of types and literals put together

Types and literals are the two constructs whose parts may be constructs of the same sort: a type in
a type, a format in a format. Each takes at most four layers of its own on top of such a part.
-/

namespace TreeText

namespace Supply

open Reading (Yields Result)

variable {v : Visitor Reading.Result} {home : Cst} {given : Form → Tree → Prop}
  (S : Supply v home given) {c d : Cst} {nodes : List Cst} {access : Access} {n : Nat}

/-! ## Types -/

section

include S

theorem typeArguments_derive (h : ∀ d ∈ nodes, home.Encloses d) :
    Yields (Derives given (n + 2) .load) (v.typeArguments nodes) := by
  have tuple_derives : ∀ {nodes : List Cst}, (∀ d ∈ nodes, home.Encloses d) →
      Yields (Derives given (n + 2) .load)
        (do return Tree.tuple (← nodes.mapM v.typeHint) .load) := by
    intro nodes h
    refine (Yields.mapM fun d hd => S.typeHint (h d hd)).bind fun elements helements => ?_
    exact .pure (.tuple fun element helement => .given (helements element helement))
  match nodes, h with
  | [], h => exact tuple_derives h
  | [single], h => exact (S.typeHint (h single List.mem_cons_self)).mono fun _ => .given
  | _ :: _ :: _, h => exact tuple_derives h

theorem genericType_derives (h : home.Holds c) :
    Yields (Derives given 4 .load) (v.genericType c) := by
  unfold Visitor.genericType
  split
  · exact .error _
  · next base parameters hparts =>
    have hbase : home.Encloses base := h.significant (by rw [hparts]; exact List.mem_cons_self)
    have harguments : ∀ d ∈ parameters.flatMap Cst.significant, home.Encloses d := by
      intro d hd
      obtain ⟨parameter, hparameter, hd⟩ := List.mem_flatMap.mp hd
      have hmem : parameter ∈ c.significant := by
        rw [hparts]
        exact List.mem_cons_of_mem _ hparameter
      exact (h.significant hmem).holds.significant hd
    refine (S.typeArguments_derive (n := 0) harguments).bind fun value hvalue => ?_
    refine (S.typeHint hbase).bind fun base hbase => ?_
    exact .pure (.record rfl rfl rfl
      (.cons (.given hbase) (.cons (.index rfl hvalue) (.cons (.marker .load) .nil))))

theorem unionType_derives (h : home.Holds c) :
    Yields (Derives given 4 .load) (v.unionType c) := by
  unfold Visitor.unionType
  split
  · next left right hparts =>
    have hleft : home.Encloses left := h.significant (by simp [hparts])
    have hright : home.Encloses right := h.significant (by simp [hparts])
    refine (S.typeHint hleft).bind fun left hleft => ?_
    refine (S.typeHint hright).bind fun right hright => ?_
    exact .pure (.record rfl rfl rfl
      (.cons (.given hleft) (.cons (.leaf rfl rfl rfl) (.cons (.given hright) .nil))))
  · exact .error _

theorem memberType_derives (h : home.Holds c) :
    Yields (Derives given 4 .load) (v.memberType c) := by
  unfold Visitor.memberType
  split
  · next value name hparts =>
    have hvalue : home.Encloses value := h.significant (by simp [hparts])
    refine (S.typeHint hvalue).bind fun value hvalue => ?_
    exact .pure (.record rfl rfl rfl
      (.cons (.given hvalue) (.cons (.text _) (.cons (.marker .load) .nil))))
  · exact .error _

theorem splatType_derives (h : home.Holds c) :
    Yields (Derives given 4 .load) (v.splatType c) := by
  refine c.firstPart_yields.bind fun part hpart => ?_
  refine (S.typeHint (h.first hpart)).bind fun value hvalue => ?_
  exact .pure (.record rfl rfl rfl (.cons (.given hvalue) (.cons (.marker .load) .nil)))

end

/-! ## Literals -/

theorem textValues_derive (chunk : String) :
    ∀ tree ∈ Piece.textValues chunk, Derives given (n + 1) .load tree := by
  intro tree htree
  unfold Piece.textValues at htree
  split at htree
  · cases htree
  · rw [List.mem_singleton] at htree
    subst htree
    exact .constant (.present (.instead chunk))

/-- What the replacement fields among these pieces are. -/
abbrev PiecesDerive (given : Form → Tree → Prop) (pieces : List Piece) : Prop :=
  ∀ tree, Piece.value tree ∈ pieces → Derives given 3 .load tree

/-- The values of a joined string are its own texts and the values of the replacement fields. -/
theorem values_derive {pieces : List Piece} (h : PiecesDerive given pieces) (chunk : String) :
    ∀ tree ∈ Piece.values chunk pieces, Derives given 3 .load tree := by
  induction pieces generalizing chunk with
  | nil => exact textValues_derive chunk
  | cons piece pieces ih =>
    have hrest := ih fun tree htree => h tree (List.mem_cons_of_mem _ htree)
    cases piece with
    | text more => exact hrest (chunk ++ more)
    | value value =>
      intro tree htree
      rcases List.mem_append.mp htree with htext | htree
      · exact textValues_derive chunk tree htext
      · rcases List.mem_cons.mp htree with rfl | htree
        · exact h tree List.mem_cons_self
        · exact hrest "" tree htree

theorem joinedPieces_derive {pieces : List Piece} (h : PiecesDerive given pieces) :
    Derives given 4 (.node (.expression access)) (Piece.joined pieces) :=
  .record rfl rfl rfl (.cons (.list (values_derive h "")) .nil)

theorem textPieces_yields (literal : Cst) (marks : Marks) (start stop : Nat) :
    Yields (fun pieces => ∀ tree, Piece.value tree ∉ pieces)
      (v.textPieces literal marks start stop) := by
  unfold Visitor.textPieces
  split
  · exact .pure fun tree => List.not_mem_nil
  · split
    · refine .pure fun tree htree => ?_
      cases List.mem_singleton.mp htree
    · exact .error _

section

include S

theorem format?_yields (marks : Marks) (h : home.Holds c) :
    Yields (fun tree => tree = .absent ∨ given .load tree)
      (v.format? marks (c.child? "format_specifier")) := by
  cases hspec : c.child? "format_specifier" with
  | none => exact .pure (.inl rfl)
  | some spec =>
    exact (S.format marks (h.child? hspec) (Cst.field_of_child? hspec)).mono fun _ => .inr

theorem interpolation_derives (marks : Marks) (h : home.Holds c) :
    Yields (PiecesDerive given) (v.interpolation marks c) := by
  refine (c.require_yields "expression").bind fun expression hexpression => ?_
  refine (S.format?_yields marks h).bind fun format hformat => ?_
  refine (S.load (h.child? hexpression)).bind fun value hvalue => ?_
  refine .pure fun tree htree => ?_
  rcases List.mem_append.mp htree with hlabel | htree
  · -- The label of a field is text.
    unfold Visitor.label at hlabel
    split at hlabel
    · cases List.mem_singleton.mp hlabel
    · cases hlabel
  · cases List.mem_singleton.mp htree
    exact .record rfl rfl rfl
      (.cons (.given hvalue) (.cons (.int _) (.cons (.given? hformat) .nil)))

theorem piecesFrom_derive (literal : Cst) (marks : Marks) (stop : Nat) {fields : List Cst}
    (h : ∀ field ∈ fields, home.Holds field) (start : Nat) :
    Yields (PiecesDerive given) (v.piecesFrom literal marks stop start fields) := by
  induction fields generalizing start with
  | nil =>
    refine (textPieces_yields literal marks start stop).mono fun pieces hpieces tree htree => ?_
    exact absurd htree (hpieces tree)
  | cons field fields ih =>
    rw [List.forall_mem_cons] at h
    refine (textPieces_yields literal marks start field.info.start).bind fun before hbefore => ?_
    refine (S.interpolation_derives marks h.1).bind fun value hvalue => ?_
    refine (ih h.2 field.info.stop).bind fun after hafter => ?_
    refine .pure fun tree htree => ?_
    rcases List.mem_append.mp htree with htree | htree
    · rcases List.mem_append.mp htree with htree | htree
      · exact absurd htree (hbefore tree)
      · exact hvalue tree htree
    · exact hafter tree htree

theorem pieces_derive (h : home.Holds c) : Yields (PiecesDerive given) (v.pieces c) :=
  S.piecesFrom_derive _ _ _ (fun _ hfield => .child h (List.mem_filter.mp hfield).1) _

theorem literals_derive (h : ∀ d ∈ nodes, home.Holds d) :
    Yields (Derives given 4 (.node (.expression access))) (v.literals nodes) := by
  refine (Yields.mapM fun d hd => S.pieces_derive (h d hd)).bind fun pieces hpieces => ?_
  refine .pure ?_
  unfold Piece.toTree
  split
  · refine joinedPieces_derive fun tree htree => ?_
    obtain ⟨chunks, hchunks, htree⟩ := List.mem_flatten.mp htree
    exact hpieces chunks hchunks tree htree
  · split
    · have hbytes : Derives given 3 (.node .scalar) (.scalar "bytes" _) :=
        .record rfl rfl rfl (.cons (.text (Piece.allText pieces.flatten)) .nil)
      exact .constant (.present (.other hbytes))
    · refine .record rfl rfl rfl (.cons (.present (.instead _)) (.cons ?_ .nil))
      split
      · exact .present (.text "u")
      · exact .absent

theorem formatSpec_derives (marks : Marks) (h : home.Holds c) :
    Yields (Derives given 4 .load) (v.formatSpec marks c) := by
  have hfields : ∀ field ∈ c.significant.filter Cst.isInterpolation, home.Holds field :=
    fun field hfield => (h.significant (List.mem_filter.mp hfield).1).holds
  refine (S.piecesFrom_derive c _ _ hfields _).bind fun pieces hpieces => ?_
  exact .pure (joinedPieces_derive hpieces)

end

end Supply

end TreeText
