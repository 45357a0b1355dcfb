import TreeText.Proofs.Reading.Trivia
import TreeText.Proofs.Reading.Building

/-!
# The first error of a concrete syntax tree

The search for errors does not look at all nodes: it passes by what lies in a node that does not say
that it has an error. As long as no node keeps one back (`Cst.Warns`) nothing faulty is passed by,
and the search finds the first faulty node of all, parents before children
(`Cursor.firstError?_eq_find?`). What carries the induction is the list of the trees that are still
before the cursor: the search looks at nodes in them alone, and a step that leaves some of these
nodes behind leaves no faulty one.

Nodes that say it coherently, each just if it is faulty itself or a child says it, keep nothing
back, and the root of the tree knows of every error. So a text is refused if its tree has a faulty
node, and the fault lies at the first one (`readModule_of_coherent`).
-/

namespace TreeText

namespace Cst

variable {root c d : Cst}

/-! ## All nodes of a tree -/

theorem mem_nodesOfAll_iff {nodes : List Cst} :
    c ∈ nodesOfAll nodes ↔ ∃ d ∈ nodes, c ∈ d.nodes := by
  induction nodes with
  | nil => simp [nodesOfAll]
  | cons d rest ih => simp [nodesOfAll, ih]

theorem Holds.nodes_subset (h : root.Holds d) : d.nodes ⊆ root.nodes := by
  induction h with
  | self => exact List.Subset.refl _
  | @child c d _ hd ih =>
    have hbelow : d.nodes ⊆ c.nodes := fun e he => by
      rw [c.nodes_eq]
      exact List.mem_cons_of_mem _ (mem_nodesOfAll_iff.mpr ⟨d, hd, he⟩)
    exact List.Subset.trans hbelow ih

theorem holds_of_mem_nodes {root : Cst} (h : c ∈ root.nodes) : root.Holds c := by
  rw [nodes_eq] at h
  rcases List.mem_cons.mp h with rfl | h
  · exact .self
  · obtain ⟨child, hchild, hc⟩ := mem_nodesOfAll_iff.mp h
    exact (Holds.child .self hchild).trans (holds_of_mem_nodes hc)
termination_by root.height
decreasing_by exact height_lt_of_mem hchild

/-- The nodes that a tree lists are those that it holds. -/
theorem mem_nodes_iff : c ∈ root.nodes ↔ root.Holds c := by
  refine ⟨holds_of_mem_nodes, fun h => h.nodes_subset ?_⟩
  rw [nodes_eq]
  exact List.mem_cons_self

/-! ## Nodes that say where errors lie -/

/-- A node in which a faulty one lies says so. -/
def Warns (root : Cst) : Prop :=
  ∀ c d, root.Holds c → c.Encloses d → d.isFaulty = true → c.info.hasError = true

/-- A node says that an error lies in it just if it is faulty itself, or a child says so. -/
def Coherent (root : Cst) : Prop :=
  ∀ c, root.Holds c → (c.info.hasError = true ↔
    c.isFaulty = true ∨ ∃ child ∈ c.children, child.info.hasError = true)

theorem Warns.of_holds (h : root.Warns) (hc : root.Holds c) : c.Warns :=
  fun d e hd => h d e (hc.trans hd)

theorem Coherent.of_holds (h : root.Coherent) (hc : root.Holds c) : c.Coherent :=
  fun d hd => h d (hc.trans hd)

theorem Coherent.hasError_of_holds (h : root.Coherent) (hc : root.Holds c)
    (herror : c.info.hasError = true) : root.info.hasError = true := by
  induction hc with
  | self => exact herror
  | @child c d hc hd ih => exact ih ((h c hc).mpr (.inr ⟨d, hd, herror⟩))

theorem Coherent.hasError_of_isFaulty (h : root.Coherent) (hc : root.Holds c)
    (hfaulty : c.isFaulty = true) : root.info.hasError = true :=
  h.hasError_of_holds hc ((h c hc).mpr (.inl hfaulty))

theorem Coherent.warns (h : root.Coherent) : root.Warns :=
  fun _ _ hc hd hfaulty => (h.of_holds hc).hasError_of_isFaulty hd.holds hfaulty

end Cst

/-! ## The search -/

namespace Cursor

open Cst (nodesOfAll)

variable {cursor : Cursor}

/-- Where the cursor does not go into a sound node, there is no faulty node in it. -/
theorem find?_nodes_of_into?_none (hwarns : cursor.node.Warns)
    (hsound : ¬ cursor.node.isFaulty = true) (hinto : cursor.into? = none) :
    cursor.node.nodes.find? Cst.isFaulty = none := by
  refine List.find?_eq_none.mpr fun c hc hfaulty => ?_
  cases Cst.mem_nodes_iff.mp hc with
  | self => exact hsound hfaulty
  | @child parent _ hparent hchild =>
    -- So the node says that there is one, and the cursor finds a child to go to.
    have herror := hwarns _ c .self ⟨parent, hparent, hchild⟩ hfaulty
    rw [into?, if_pos herror, firstChild?] at hinto
    split at hinto
    · next hchildren =>
      rw [Cst.nodes_eq, hchildren] at hc
      exact hsound (List.mem_singleton.mp hc ▸ hfaulty)
    · cases hinto

theorem warns_pending_of_firstChild? {child : Cursor} (h : ∀ c ∈ cursor.pending, c.Warns)
    (hchild : cursor.firstChild? = some child) : ∀ c ∈ child.pending, c.Warns := by
  rw [pending_of_firstChild? hchild]
  intro c hc
  rcases List.mem_append.mp hc with hc | hc
  · exact (h _ List.mem_cons_self).of_holds (.child .self hc)
  · exact h c (List.mem_of_mem_tail hc)

/-- The search from a cursor on finds the first faulty node that is not yet behind the cursor. -/
theorem firstError?_eq_find? (cursor : Cursor) (h : ∀ c ∈ cursor.pending, c.Warns) :
    cursor.firstError? = (nodesOfAll cursor.pending).find? Cst.isFaulty := by
  induction cursor using firstError?.induct with
  | case1 cursor hfaulty =>
    rw [firstError?_eq, if_pos hfaulty, pending, nodesOfAll, Cst.nodes_eq, List.cons_append,
      List.find?_cons_of_pos hfaulty]
  | case2 cursor hsound child hinto ih =>
    have hchild := firstChild?_of_into? hinto
    rw [firstError?_eq, if_neg hsound, hinto, nodes_pending_of_firstChild? hchild,
      List.find?_cons_of_neg hsound]
    exact ih (warns_pending_of_firstChild? h hchild)
  | case3 cursor hsound hinto next hbehind ih =>
    have hpending := pending_of_behind? hbehind
    rw [hpending] at h
    obtain ⟨hnode, hnext⟩ := List.forall_mem_cons.mp h
    have hnone := find?_nodes_of_into?_none hnode hsound hinto
    rw [firstError?_eq, if_neg hsound, hinto, hbehind, hpending, nodesOfAll, List.find?_append,
      hnone, Option.none_or]
    exact ih hnext
  | case4 cursor hsound hinto hbehind =>
    have hnode : cursor.node.Warns := h _ List.mem_cons_self
    have hnone := find?_nodes_of_into?_none hnode hsound hinto
    rw [firstError?_eq, if_neg hsound, hinto, hbehind, pending_of_behind?_none hbehind, nodesOfAll,
      nodesOfAll, List.append_nil, hnone]
    rfl

theorem mem_of_firstError? {c : Cst} (h : cursor.firstError? = some c) :
    c ∈ nodesOfAll cursor.pending ∧ c.isFaulty = true := by
  induction cursor using firstError?.induct with
  | case1 cursor hfaulty =>
    rw [firstError?_eq, if_pos hfaulty] at h
    cases h
    refine ⟨?_, hfaulty⟩
    rw [pending, nodesOfAll, Cst.nodes_eq]
    exact List.mem_cons_self
  | case2 cursor hsound child hinto ih =>
    rw [firstError?_eq, if_neg hsound, hinto] at h
    rw [nodes_pending_of_firstChild? (firstChild?_of_into? hinto)]
    exact ⟨List.mem_cons_of_mem _ (ih h).1, (ih h).2⟩
  | case3 cursor hsound hinto next hbehind ih =>
    rw [firstError?_eq, if_neg hsound, hinto, hbehind] at h
    rw [pending_of_behind? hbehind, nodesOfAll]
    exact ⟨List.mem_append_right _ (ih h).1, (ih h).2⟩
  | case4 cursor hsound hinto hbehind =>
    rw [firstError?_eq, if_neg hsound, hinto, hbehind] at h
    cases h

end Cursor

namespace Cst

variable {root c : Cst}

theorem nodes_pending_atRoot (root : Cst) :
    nodesOfAll (Cursor.atRoot root).pending = root.nodes := by
  show nodesOfAll [root] = root.nodes
  rw [nodesOfAll, nodesOfAll, List.append_nil]

/-- What the search finds is a faulty node of the tree, whatever the nodes say. -/
theorem holds_of_firstError? (h : root.firstError? = some c) :
    root.Holds c ∧ c.isFaulty = true := by
  obtain ⟨hmem, hfaulty⟩ := Cursor.mem_of_firstError? h
  rw [nodes_pending_atRoot] at hmem
  exact ⟨mem_nodes_iff.mp hmem, hfaulty⟩

theorem Warns.firstError?_eq_find? (h : root.Warns) :
    root.firstError? = root.nodes.find? isFaulty := by
  have hsearch := (Cursor.atRoot root).firstError?_eq_find? (List.forall_mem_singleton.mpr h)
  rw [nodes_pending_atRoot] at hsearch
  exact hsearch

theorem Warns.firstError?_eq_none_iff (h : root.Warns) :
    root.firstError? = none ↔ ∀ c, root.Holds c → c.isFaulty = false := by
  rw [h.firstError?_eq_find?, List.find?_eq_none]
  simp only [mem_nodes_iff, Bool.not_eq_true]

end Cst

/-! ## Texts with errors -/

variable {root c : Cst}

theorem Reading.syntaxFault_of_firstError? (source : Source) (h : root.firstError? = some c) :
    ∃ cause, syntaxFault source root = c.fault cause ∧
      if c.info.isMissing then cause = .expected c.kind else ∃ near, cause = .invalid near := by
  rw [syntaxFault, h]
  cases hmissing : c.info.isMissing with
  | true => exact ⟨_, if_pos hmissing, rfl⟩
  | false => exact ⟨_, if_neg (by simp [hmissing]), _, rfl⟩

theorem readModule_of_hasError (names : CharacterName.Lookup) (fileName text : String)
    (h : root.info.hasError = true) :
    readModule names fileName text root =
      .error ((Reading.syntaxFault (.ofText names text) root).inFile fileName) := by
  rw [readModule, Reading.program, if_pos h]
  rfl

/-- **A text with an error is refused at its first one.** Let the nodes of a tree say coherently
where errors lie. The search finds the first of all nodes, parents before children, that is an error
or missing, and nothing just if there is none. If there is one the text is refused, at the start of
that node; so what is read has none. -/
theorem readModule_of_coherent (h : root.Coherent) (names : CharacterName.Lookup)
    (fileName text : String) :
    root.firstError? = root.nodes.find? Cst.isFaulty ∧
    (root.firstError? = none ↔ ∀ c, root.Holds c → c.isFaulty = false) ∧
    (∀ tree, readModule names fileName text root = .ok tree →
      ∀ c, root.Holds c → c.isFaulty = false) ∧
    ∀ c, root.firstError? = some c → ∃ cause,
      readModule names fileName text root =
        .error ⟨fileName, c.info.row + 1, c.info.column + 1, cause⟩ ∧
      if c.info.isMissing then cause = .expected c.kind else ∃ near, cause = .invalid near := by
  refine ⟨h.warns.firstError?_eq_find?, h.warns.firstError?_eq_none_iff, ?_, ?_⟩
  · intro tree htree c hc
    by_contra hfaulty
    have herror := h.hasError_of_isFaulty hc (by simpa using hfaulty)
    rw [readModule_of_hasError names fileName text herror] at htree
    cases htree
  · intro c hfound
    obtain ⟨cause, hfault, hcause⟩ :=
      Reading.syntaxFault_of_firstError? (.ofText names text) hfound
    obtain ⟨hholds, hfaulty⟩ := Cst.holds_of_firstError? hfound
    refine ⟨cause, ?_, hcause⟩
    rw [readModule_of_hasError names fileName text (h.hasError_of_isFaulty hholds hfaulty), hfault]
    rfl

namespace Cst

/-- A node in which an error lies. -/
def broken (kind : String) (field : Option String) (start stop row column : Nat)
    (children : List Cst) : Cst :=
  .node ⟨kind, field, true, false, false, true, start, stop, row, column⟩ children

/-- What stands behind the dotted name in `f(a.b=c)`. -/
def misplacedValue : Cst :=
  .node ⟨"ERROR", none, true, true, false, true, 5, 7, 0, 5⟩ [
    .sound "=" none false 5 6 0 5 [],
    .sound "identifier" none true 6 7 0 6 []]

/-- `f(a.b=c)`, in which a dotted name stands where a keyword has to be. -/
def dottedKeyword : Cst :=
  broken "module" none 0 9 0 0 [
    broken "expression_statement" none 0 8 0 0 [
      broken "call" none 0 8 0 0 [
        .sound "identifier" (some "function") true 0 1 0 0 [],
        broken "argument_list" (some "arguments") 1 8 0 1 [
          .sound "(" none false 1 2 0 1 [],
          .sound "attribute" none true 2 5 0 2 [
            .sound "identifier" (some "object") true 2 3 0 2 [],
            .sound "." none false 3 4 0 3 [],
            .sound "identifier" (some "attribute") true 4 5 0 4 []],
          misplacedValue,
          .sound ")" none false 7 8 0 7 []]]]]

end Cst

/-- The dotted name is passed by, and the text is refused behind it. -/
theorem readModule_dottedKeyword :
    Cst.dottedKeyword.Coherent ∧
    Cst.dottedKeyword.firstError? = some Cst.misplacedValue ∧
    ∃ near, readModule CharacterName.noNames "test.py" "f(a.b=c)\n" .dottedKeyword =
      .error ⟨"test.py", 1, 6, .invalid near⟩ := by
  have hcoherent : Cst.dottedKeyword.Coherent := by
    have hnodes : ∀ c ∈ Cst.dottedKeyword.nodes, (c.info.hasError = true ↔
        c.isFaulty = true ∨ ∃ child ∈ c.children, child.info.hasError = true) := by decide
    exact fun c hc => hnodes c (Cst.mem_nodes_iff.mpr hc)
  obtain ⟨hfirst, -, -, hrefused⟩ :=
    readModule_of_coherent hcoherent CharacterName.noNames "test.py" "f(a.b=c)\n"
  have hfound : Cst.dottedKeyword.firstError? = some Cst.misplacedValue := hfirst.trans rfl
  obtain ⟨_, herror, near, rfl⟩ := hrefused _ hfound
  exact ⟨hcoherent, hfound, near, herror⟩

end TreeText
