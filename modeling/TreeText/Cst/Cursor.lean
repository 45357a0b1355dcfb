import TreeText.Cst

/-!
# Walking over a concrete syntax tree

A cursor stands at a node of a tree and knows the way on: the siblings after the node, and the
ancestors with the siblings after each. It moves by one step at a time, to the first child, to the
next sibling or to the parent, and never out of the tree that it was set on.

The first error is looked for by such steps. The search enters a node only if it says that an error
lies in it, and otherwise goes on behind the node. It comes to an end because of what is still
before the cursor (`pending`): a step into a node takes the node away from it, a step behind a node
all nodes in it as well.

Notes on the form: the inner loop of `first_error`, which climbs until there is a next sibling, is
`behind?`. The steps of a cursor change it in place and say whether there was one to take; here each
returns the new cursor, if there is one.
-/

namespace TreeText

/-- A place in a tree. -/
structure Cursor where
  node : Cst
  /-- The siblings after the node. -/
  later : List Cst
  /-- The ancestors of the node, the nearest one first, each with the siblings after it. -/
  above : List (Cst × List Cst)

namespace Cursor

/-- The cursor at the root of a tree. -/
def atRoot (root : Cst) : Cursor := ⟨root, [], []⟩

/-! ## Steps -/

/-- The cursor at the first child (`goto_first_child`). -/
def firstChild? (cursor : Cursor) : Option Cursor :=
  match cursor.node.children with
  | [] => none
  | child :: rest => some ⟨child, rest, (cursor.node, cursor.later) :: cursor.above⟩

/-- The cursor at the next sibling (`goto_next_sibling`). -/
def nextSibling? (cursor : Cursor) : Option Cursor :=
  match cursor.later with
  | [] => none
  | next :: rest => some ⟨next, rest, cursor.above⟩

/-- The cursor at the parent (`goto_parent`). -/
def parent? (cursor : Cursor) : Option Cursor :=
  match cursor.above with
  | [] => none
  | (node, later) :: above => some ⟨node, later, above⟩

theorem length_above_of_parent? {cursor parent : Cursor} (h : cursor.parent? = some parent) :
    parent.above.length < cursor.above.length := by
  obtain ⟨node, later, above⟩ := cursor
  cases above with
  | nil => cases h
  | cons first rest =>
    cases h
    exact Nat.lt_succ_self _

/-- The cursor behind the node and all that lies in it: at its next sibling, or else at that of the
nearest ancestor that has one. -/
def behind? (cursor : Cursor) : Option Cursor :=
  match cursor.nextSibling? with
  | some next => some next
  | none =>
    match _h : cursor.parent? with
    | some parent => parent.behind?
    | none => none
termination_by cursor.above.length
decreasing_by exact length_above_of_parent? _h

/-! ## What is still before the cursor -/

/-- The trees that the cursor has not left behind: its own, and those behind it. -/
def pending (cursor : Cursor) : List Cst :=
  cursor.node :: (cursor.later ++ cursor.above.flatMap (·.2))

/-- A step to the first child puts the children in place of the node. -/
theorem pending_of_firstChild? {cursor child : Cursor} (h : cursor.firstChild? = some child) :
    child.pending = cursor.node.children ++ cursor.pending.tail := by
  obtain ⟨⟨info, children⟩, later, above⟩ := cursor
  cases children with
  | nil => cases h
  | cons first rest =>
    cases h
    rfl

/-- So the node alone is no longer before the cursor. -/
theorem nodes_pending_of_firstChild? {cursor child : Cursor}
    (h : cursor.firstChild? = some child) :
    Cst.nodesOfAll cursor.pending = cursor.node :: Cst.nodesOfAll child.pending := by
  rw [pending_of_firstChild? h, Cst.nodesOfAll_append, ← List.cons_append, ← Cst.nodes_eq]
  rfl

/-- A step behind a node takes its tree away, and there is one as long as others are left. -/
theorem pending_behind? (cursor : Cursor) :
    (cursor.behind?.map pending).getD [] = cursor.pending.tail := by
  induction cursor using behind?.induct with
  | case1 cursor next hnext =>
    obtain ⟨node, later, above⟩ := cursor
    cases later with
    | nil => cases hnext
    | cons first rest =>
      cases hnext
      rw [behind?]
      rfl
  | case2 cursor hnext parent hparent ih =>
    obtain ⟨node, later, above⟩ := cursor
    cases later with
    | cons first rest => cases hnext
    | nil =>
      cases above with
      | nil => cases hparent
      | cons entry above =>
        rw [behind?]
        cases hparent
        exact ih
  | case3 cursor hnext hparent =>
    obtain ⟨node, later, above⟩ := cursor
    cases later with
    | cons first rest => cases hnext
    | nil =>
      cases above with
      | nil => rw [behind?]; rfl
      | cons entry above => cases hparent

theorem pending_of_behind? {cursor next : Cursor} (h : cursor.behind? = some next) :
    cursor.pending = cursor.node :: next.pending := by
  have hpending := cursor.pending_behind?
  rw [h] at hpending
  exact congrArg (cursor.node :: ·) hpending.symm

theorem pending_of_behind?_none {cursor : Cursor} (h : cursor.behind? = none) :
    cursor.pending = [cursor.node] := by
  have hpending := cursor.pending_behind?
  rw [h] at hpending
  exact congrArg (cursor.node :: ·) hpending.symm

/-! ## The search -/

/-- The cursor in the node, if an error lies in it. -/
def into? (cursor : Cursor) : Option Cursor :=
  if cursor.node.info.hasError then cursor.firstChild? else none

theorem firstChild?_of_into? {cursor child : Cursor} (h : cursor.into? = some child) :
    cursor.firstChild? = some child := by
  rw [into?] at h
  split at h
  · exact h
  · cases h

/-- The first faulty node from the cursor on (the loop of `first_error`). -/
def firstError? (cursor : Cursor) : Option Cst :=
  if cursor.node.isFaulty then some cursor.node
  else
    match _hinto : cursor.into? with
    | some child => child.firstError?
    | none =>
      match _hbehind : cursor.behind? with
      | some next => next.firstError?
      | none => none
termination_by (Cst.nodesOfAll cursor.pending).length
decreasing_by
  · rw [nodes_pending_of_firstChild? (firstChild?_of_into? _hinto), List.length_cons]
    exact Nat.lt_succ_self _
  · rw [pending_of_behind? _hbehind, Cst.nodesOfAll, Cst.nodes_eq, List.length_append,
      List.length_cons]
    omega

theorem firstError?_eq (cursor : Cursor) :
    cursor.firstError? =
      if cursor.node.isFaulty then some cursor.node
      else
        match cursor.into? with
        | some child => child.firstError?
        | none => cursor.behind?.bind firstError? := by
  rw [firstError?]
  split
  · rfl
  · split
    · next hinto => rw [hinto]
    · next hinto =>
      rw [hinto]
      split
      · next hbehind => rw [hbehind]; rfl
      · next hbehind => rw [hbehind]; rfl

end Cursor

/-- The first node of a tree that is an error or missing, as a cursor finds it (`first_error`). -/
def Cst.firstError? (root : Cst) : Option Cst := (Cursor.atRoot root).firstError?

end TreeText
