import TreeText.Reading
import TreeText.Proofs.Reading.Grammar

/-!
# What the rules put together

A rule of reading looks at a construct, hands parts of it on to the visitor, and puts a tree
together from what it gets back. Here and in the modules below this one each rule is described by
that alone: if it succeeds, its tree derives by the abstract grammar from what the visitor gave
(`Derives`). Nothing is assumed of the visitor's trees, so whatever is to be shown of all trees
that reading gives can be put in for `given`.

`Reading.Yields` speaks of a reading if it succeeds. A `Supply` says what is given when the visitor
reads the nodes that a construct encloses; targets of assignments are told apart from other
expressions, since only they are read with another access than `load`.
-/

namespace TreeText

/-! ## Readings that succeed -/

namespace Reading

/-- If the reading succeeds, its value satisfies `P`. -/
def Yields {α : Type} (P : α → Prop) : Result α → Prop
  | .ok a => P a
  | .error _ => True

namespace Yields

variable {α β : Type} {P : α → Prop} {Q : β → Prop}

theorem of_eq_ok {x : Result α} {a : α} (h : Yields P x) (hx : x = .ok a) : P a := by
  rw [hx] at h
  exact h

theorem of_forall {x : Result α} (h : ∀ a, x = .ok a → P a) : Yields P x := by
  cases x with
  | error fault => trivial
  | ok a => exact h a rfl

theorem pure {a : α} (h : P a) : Yields P (Pure.pure a) := h

theorem error (fault : Fault) : Yields P (.error fault) := trivial

theorem bind {x : Result α} {f : α → Result β} (h : Yields P x)
    (hf : ∀ a, P a → Yields Q (f a)) : Yields Q (x >>= f) := by
  cases x with
  | error fault => trivial
  | ok a => exact hf a h

theorem mono {P' : α → Prop} {x : Result α} (h : Yields P x) (hP : ∀ a, P a → P' a) :
    Yields P' x := by
  cases x with
  | error fault => trivial
  | ok a => exact hP a h

theorem mapM {xs : List α} {f : α → Result β} (h : ∀ x ∈ xs, Yields Q (f x)) :
    Yields (fun ys => ∀ y ∈ ys, Q y) (xs.mapM f) := by
  induction xs with
  | nil => exact .pure (List.forall_mem_nil _)
  | cons x xs ih =>
    rw [List.forall_mem_cons] at h
    rw [List.mapM_cons]
    refine h.1.bind fun y hy => ?_
    refine (ih h.2).bind fun ys hys => ?_
    exact .pure (List.forall_mem_cons.mpr ⟨hy, hys⟩)

/-- What every step of a loop keeps. -/
theorem foldlM {xs : List α} {f : β → α → Result β} (h : ∀ b, ∀ x ∈ xs, Q b → Yields Q (f b x))
    {b : β} (hb : Q b) : Yields Q (xs.foldlM f b) := by
  induction xs generalizing b with
  | nil => exact .pure hb
  | cons x xs ih =>
    rw [List.foldlM_cons]
    refine (h b x List.mem_cons_self hb).bind fun b' hb' => ?_
    exact ih (fun b x hx => h b x (List.mem_cons_of_mem _ hx)) hb'

end Yields

end Reading

/-! ## Nodes in a node -/

namespace Cst

open Reading (Yields)

/-- A node is another one or lies in it. -/
inductive Holds (home : Cst) : Cst → Prop
  | self : Holds home home
  | child {c d : Cst} (h : Holds home c) (hd : d ∈ c.children) : Holds home d

/-- A node lies in another one. -/
def Encloses (home d : Cst) : Prop := ∃ c, home.Holds c ∧ d ∈ c.children

variable {home c d : Cst} {name : String}

theorem Encloses.holds (h : home.Encloses d) : home.Holds d := by
  obtain ⟨c, hc, hd⟩ := h
  exact .child hc hd

theorem Holds.trans (h : home.Holds c) (hd : c.Holds d) : home.Holds d := by
  induction hd with
  | self => exact h
  | child _ hd ih => exact .child ih hd

mutual

/-- The kinds of a node and of all nodes in it. -/
def kinds : Cst → List String
  | .node info children => info.kind :: kindsOfAll children

/-- The kinds of all nodes in these. -/
def kindsOfAll : List Cst → List String
  | [] => []
  | c :: rest => kinds c ++ kindsOfAll rest

end

theorem kind_mem_kinds (c : Cst) : c.kind ∈ c.kinds := by
  obtain ⟨info, children⟩ := c
  rw [kinds]
  exact List.mem_cons_self

theorem kinds_subset_kindsOfAll {nodes : List Cst} (h : d ∈ nodes) :
    d.kinds ⊆ kindsOfAll nodes := by
  induction nodes with
  | nil => cases h
  | cons c rest ih =>
    rw [kindsOfAll]
    rcases List.mem_cons.mp h with rfl | h
    · exact List.subset_append_left _ _
    · exact List.subset_append_of_subset_right _ (ih h)

theorem Holds.kinds_subset (h : home.Holds d) : d.kinds ⊆ home.kinds := by
  induction h with
  | self => exact List.Subset.refl _
  | @child c d _ hd ih =>
    obtain ⟨info, children⟩ := c
    rw [kinds] at ih
    exact List.Subset.trans (kinds_subset_kindsOfAll hd)
      (List.Subset.trans (List.subset_cons_self _ _) ih)

theorem Holds.kind_mem (h : home.Holds d) : d.kind ∈ home.kinds :=
  h.kinds_subset (kind_mem_kinds d)

theorem field_of_child? (h : c.child? name = some d) : d.field = some name := by
  have hfound := List.find?_some h
  exact beq_iff_eq.mp hfound

theorem mem_children_of_significant (h : d ∈ c.significant) : d ∈ c.children :=
  (List.mem_filter.mp h).1

theorem mem_significant_of_head? (h : c.significant.head? = some d) : d ∈ c.significant :=
  List.mem_of_head? h

theorem Holds.child? (h : home.Holds c) (hd : c.child? name = some d) : home.Encloses d :=
  ⟨c, h, mem_children_of_child? hd⟩

theorem Holds.significant (h : home.Holds c) (hd : d ∈ c.significant) : home.Encloses d :=
  ⟨c, h, mem_children_of_significant hd⟩

theorem Holds.first (h : home.Holds c) (hd : c.significant.head? = some d) : home.Encloses d :=
  h.significant (mem_significant_of_head? hd)

theorem Holds.under (h : home.Holds c) (hd : d ∈ c.childrenUnder name) : home.Encloses d :=
  ⟨c, h, (List.mem_filter.mp hd).1⟩

theorem Holds.beside (h : home.Holds c) (hd : d ∈ c.significantBeside name) : home.Encloses d :=
  ⟨c, h, List.mem_of_mem_eraseP (List.mem_filter.mp hd).1⟩

theorem require_yields (c : Cst) (name : String) :
    Yields (fun d => c.child? name = some d) (c.require name) := by
  unfold require
  cases c.child? name with
  | none => exact .error _
  | some d => exact .pure rfl

theorem firstPart_yields (c : Cst) :
    Yields (fun d => c.significant.head? = some d) c.firstPart := by
  unfold firstPart
  cases c.significant with
  | nil => exact .error _
  | cons d rest => exact .pure rfl

/-! ## Targets -/

/-- The places of targets: a kind of construct, and the field of the part that gets a value. -/
def targetFields : List (String × String) := [
  ("assignment", "left"),
  ("augmented_assignment", "left"),
  ("for_statement", "left"),
  ("for_in_clause", "left"),
  ("named_expression", "name"),
  ("with_item", "alias")]

/-- A construct gives this part a value, or deletes it. -/
inductive HasTarget (c : Cst) : Access → Cst → Prop
  | field {name : String} {d : Cst} (hkind : (c.kind, name) ∈ targetFields)
    (h : c.child? name = some d) : HasTarget c .store d
  /-- The name after an `as` that stands inside the item's value. -/
  | pattern {value d : Cst} (hkind : c.kind = "with_item") (hvalue : c.child? "value" = some value)
    (hpattern : value.kind = "as_pattern") (h : value.child? "alias" = some d) :
    HasTarget c .store d
  | deleted {target d : Cst} (hkind : c.kind = "delete_statement")
    (htarget : c.significant.head? = some target) (h : d ∈ Visitor.deletedNodes target) :
    HasTarget c .del d

/-- The parts of an expression that have its access. -/
def passedOn (c : Cst) : List Cst :=
  match ExpressionForm.ofKind c.kind with
  | .parentheses => c.significant.take 1
  | .target => c.significant.take 1
  | .starred => c.significant.take 1
  | .list => c.significant
  | .tuple => c.significant
  | _ => []

theorem mem_take_one (h : c.significant.head? = some d) : d ∈ c.significant.take 1 := by
  cases hparts : c.significant with
  | nil =>
    rw [hparts] at h
    cases h
  | cons part rest =>
    rw [hparts] at h
    cases h
    exact List.mem_cons_self

end Cst

/-! ## Constructs without a rule -/

/-- There is no rule for constructs of this kind as nodes of this category: a leaf of the same kind
stands for them. -/
def Category.Unruled : Category → String → Prop
  | .statement, kind => StatementForm.ofKind kind = .leaf kind
  | .expression _, kind => ExpressionForm.ofKind kind = .leaf kind
  | _, _ => False

/-- A construct is read as a leaf of its own kind, or by a rule that takes so many layers. -/
def Builds (given : Form → Tree → Prop) (n : Nat) (category : Category) (c : Cst) (tree : Tree) :
    Prop :=
  category.Unruled c.kind ∧ tree = .leaf c.kind ∨ Derives given n (.node category) tree

theorem Builds.mono {given : Form → Tree → Prop} {n m : Nat} {category : Category} {c : Cst}
    {tree : Tree} (h : Builds given n category c tree) (hle : n ≤ m) :
    Builds given m category c tree :=
  h.imp_right fun h => h.mono hle

/-! ## Parts that are given -/

/-- What the visitor's readings give, for the nodes that a construct encloses. -/
structure Supply (v : Visitor Reading.Result) (home : Cst) (given : Form → Tree → Prop) :
    Prop where
  statement {d : Cst} : home.Encloses d →
    Reading.Yields (given (.node .statement)) (v.statement d)
  load {d : Cst} : home.Encloses d → Reading.Yields (given .load) (v.load d)
  target {c d : Cst} {access : Access} : home.Holds c → c.HasTarget access d →
    Reading.Yields (given (.node (.expression access))) (v.expression access d)
  typeHint {d : Cst} : home.Encloses d → Reading.Yields (given .load) (v.typeHint d)
  format {d : Cst} (marks : Marks) : home.Encloses d → d.field = some "format_specifier" →
    Reading.Yields (given .load) (v.visit (.formatSpec marks) d)

namespace Supply

open Reading (Yields)

variable {v : Visitor Reading.Result} {home : Cst} {given : Form → Tree → Prop}
  (S : Supply v home given) {c d : Cst} {nodes : List Cst} {access : Access}

/-- Expressions one after the other, whatever their access. -/
theorem elements_yields
    (h : ∀ d ∈ nodes, Yields (given (.node (.expression access))) (v.expression access d)) :
    Yields (fun trees => ∀ tree ∈ trees, given (.node (.expression access)) tree)
      (v.elements access nodes) :=
  .mapM h

theorem tuple_derives {n : Nat}
    (h : ∀ d ∈ nodes, Yields (given (.node (.expression access))) (v.expression access d)) :
    Yields (Derives given (n + 2) (.node (.expression access))) (v.tuple access nodes) := by
  refine (elements_yields h).bind fun elements helements => ?_
  exact .pure (.tuple fun element helement => .given (helements element helement))

include S

theorem load?_yields {part : Option Cst} (h : ∀ d, part = some d → home.Encloses d) :
    Yields (fun tree => tree = .absent ∨ given .load tree) (v.load? part) := by
  cases part with
  | none => exact .pure (.inl rfl)
  | some d => exact (S.load (h d rfl)).mono fun _ => .inr

theorem typeHint?_yields {part : Option Cst} (h : ∀ d, part = some d → home.Encloses d) :
    Yields (fun tree => tree = .absent ∨ given .load tree) (v.typeHint? part) := by
  cases part with
  | none => exact .pure (.inl rfl)
  | some d => exact (S.typeHint (h d rfl)).mono fun _ => .inr

/-- The part under a field is there and is read; the rest of the rule goes on with its value. -/
theorem loadField_bind {β : Type} {Q : β → Prop} {name : String} {f : Tree → Reading.Result β}
    (h : home.Holds c) (hf : ∀ tree, given .load tree → Yields Q (f tree)) :
    Yields Q (c.require name >>= fun d => v.load d >>= f) := by
  refine (c.require_yields name).bind fun d hd => ?_
  exact (S.load (h.child? hd)).bind hf

/-- The same for the first part. -/
theorem loadFirst_bind {β : Type} {Q : β → Prop} {f : Tree → Reading.Result β}
    (h : home.Holds c) (hf : ∀ tree, given .load tree → Yields Q (f tree)) :
    Yields Q (c.firstPart >>= fun d => v.load d >>= f) := by
  refine c.firstPart_yields.bind fun d hd => ?_
  exact (S.load (h.first hd)).bind hf

/-- The same for a target. -/
theorem targetField_bind {β : Type} {Q : β → Prop} {name : String} {f : Tree → Reading.Result β}
    (hkind : (c.kind, name) ∈ Cst.targetFields) (h : home.Holds c)
    (hf : ∀ tree, given .store tree → Yields Q (f tree)) :
    Yields Q (c.require name >>= fun d => v.store d >>= f) := by
  refine (c.require_yields name).bind fun d hd => ?_
  exact (S.target h (.field hkind hd)).bind hf

/-- One expression is given as it is, and several make a tuple. -/
theorem joined_derives {n : Nat} (parent : Cst) (h : ∀ d ∈ nodes, home.Encloses d) :
    Yields (Derives given (n + 2) .load) (v.joined parent nodes) := by
  match nodes, h with
  | [], _ => exact .error _
  | [single], h => exact (S.load (h single List.mem_cons_self)).mono fun _ => .given
  | _ :: _ :: _, h => exact tuple_derives fun d hd => S.load (h d hd)

theorem block_yields (h : home.Holds c) :
    Yields (fun trees => ∀ tree ∈ trees, given (.node .statement) tree) (v.block c) :=
  .mapM fun _ hd => S.statement (h.significant hd)

/-- The block under a field is there and is read; the rest of the rule goes on with what it has. -/
theorem blockField_bind {β : Type} {Q : β → Prop} {name : String}
    {f : List Tree → Reading.Result β} (h : home.Holds c)
    (hf : ∀ trees, (∀ tree ∈ trees, given (.node .statement) tree) → Yields Q (f trees)) :
    Yields Q (c.require name >>= fun d => v.block d >>= f) := by
  refine (c.require_yields name).bind fun d hd => ?_
  exact (S.block_yields (h.child? hd).holds).bind hf

theorem elseBody_yields {clause : Option Cst} (h : ∀ d, clause = some d → home.Holds d) :
    Yields (fun trees => ∀ tree ∈ trees, given (.node .statement) tree) (v.elseBody clause) := by
  cases clause with
  | none => exact .pure (List.forall_mem_nil _)
  | some c =>
    refine (c.require_yields "body").bind fun body hbody => ?_
    exact S.block_yields ((h c rfl).child? hbody).holds

end Supply

end TreeText
