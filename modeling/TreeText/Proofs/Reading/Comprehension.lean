import TreeText.Proofs.Reading.Parameters

/-!
# Comprehensions keep their clauses

The clauses of a comprehension, its loops and its filters, stand in one row beside the body. Reading
goes through the row once and collects loops, each with the filters behind it. A loop that has been
collected is written out again as the clause that began it and then its filters (`Loop.clauses`), so
loops that have been collected are a row of clauses too. One more clause is put at the end of this
row, whether it begins a loop or goes to the last one (`foldlM_addClause_eq_ok_iff`).

No row of loops begins with a filter, and a row that does not can be grouped by loops in just one
way (`Loop.flatMap_clauses_eq_iff`). So a comprehension is read just if each of its filters has a
loop before it, and then its loops are its clauses, grouped (`runFrom_loops`).
-/

namespace TreeText

/-! ## Clauses and loops -/

/-- A clause of a comprehension that has been read. -/
inductive Clause where
  | loop (target iterable : Tree) (isAsync : Bool)
  | filter (test : Tree)

namespace Clause

def isLoop : Clause → Bool
  | .loop .. => true
  | .filter _ => false

/-- No filter comes before the first loop: each has some loop before it. -/
def FiltersFollow (clauses : List Clause) : Prop :=
  ∀ before test after, clauses = before ++ .filter test :: after → before.any isLoop = true

/-- It is enough to look at the first clause. -/
theorem filtersFollow_iff {clauses : List Clause} :
    FiltersFollow clauses ↔ ∀ test, clauses.head? ≠ some (.filter test) := by
  constructor
  · intro h test hhead
    obtain ⟨after, hclauses⟩ := List.head?_eq_some_iff.mp hhead
    exact Bool.false_ne_true (h [] test after hclauses)
  · rintro h before test after rfl
    cases before with
    | nil => exact absurd rfl (h test)
    | cons clause before =>
      cases clause with
      | loop => rfl
      | filter first => exact absurd rfl (h first)

/-- The filters before the first loop, and the loops, each with the filters up to the next one. -/
def grouped : List Clause → List Tree × List Loop
  | [] => ([], [])
  | .loop target iterable isAsync :: clauses =>
    let (filters, loops) := grouped clauses
    ([], ⟨target, iterable, filters, isAsync⟩ :: loops)
  | .filter test :: clauses =>
    let (filters, loops) := grouped clauses
    (test :: filters, loops)

end Clause

namespace Loop

open Clause (grouped)

/-- The node of a loop, with its fields in order. -/
theorem toTree_eq (loop : Loop) :
    loop.toTree = .node "comprehension" [
      ("ifs", .seq loop.filters),
      ("is_async", .node "int" [("value", .str (if loop.isAsync then "1" else "0"))]),
      ("iter", loop.iterable),
      ("target", loop.target)] := by
  have hnumber : toString (if loop.isAsync then 1 else 0 : Int) =
      if loop.isAsync then "1" else "0" := by
    cases loop.isAsync <;> rfl
  rw [toTree, Tree.int, hnumber]
  simp only [Tree.scalar, Tree.record, NameTable.ofList, List.foldl_cons, List.foldl_nil,
    NameTable.insert, String.reduceLT, String.reduceEq, ↓reduceIte]

/-- A loop and then its filters, as the clauses that they were. -/
def clauses (loop : Loop) : List Clause :=
  .loop loop.target loop.iterable loop.isAsync :: loop.filters.map .filter

theorem grouped_append (filters : List Tree) (clauses : List Clause) :
    grouped (filters.map .filter ++ clauses) =
      (filters ++ (grouped clauses).1, (grouped clauses).2) := by
  induction filters with
  | nil => rfl
  | cons test filters ih => rw [List.map_cons, List.cons_append, grouped, ih]; rfl

/-- Loops that are written out are found again. -/
theorem grouped_flatMap (loops : List Loop) : grouped (loops.flatMap clauses) = ([], loops) := by
  induction loops with
  | nil => rfl
  | cons loop loops ih =>
    rw [List.flatMap_cons, clauses, List.cons_append, grouped, grouped_append, ih, List.append_nil]

/-- Groups that are written out are the clauses that have been grouped. -/
theorem flatMap_grouped (row : List Clause) :
    (grouped row).1.map .filter ++ (grouped row).2.flatMap clauses = row := by
  induction row with
  | nil => rfl
  | cons clause row ih =>
    cases clause with
    | loop target iterable isAsync =>
      rw [grouped, List.flatMap_cons, clauses, List.map_nil, List.nil_append, List.cons_append, ih]
    | filter test => rw [grouped, List.map_cons, List.cons_append, ih]

/-- Clauses are grouped by loops in one way at most. -/
theorem flatMap_clauses_eq_iff {loops : List Loop} {row : List Clause} :
    loops.flatMap clauses = row ↔ grouped row = ([], loops) := by
  constructor
  · rintro rfl
    exact grouped_flatMap loops
  · intro h
    have hrow := flatMap_grouped row
    rwa [h, List.map_nil, List.nil_append] at hrow

/-- Clauses can be grouped by loops just if the first one is no filter. -/
theorem exists_flatMap_clauses_iff {row : List Clause} :
    (∃ loops : List Loop, loops.flatMap clauses = row) ↔
      ∀ test, row.head? ≠ some (.filter test) := by
  constructor
  · rintro ⟨loops, rfl⟩ test hhead
    cases loops with
    | nil => cases hhead
    | cons loop loops => cases hhead
  · intro h
    have hrow := flatMap_grouped row
    cases hgrouped : grouped row with
    | mk filters loops =>
      rw [hgrouped] at hrow
      cases filters with
      | nil => exact ⟨loops, hrow⟩
      | cons test filters => exact absurd (congrArg List.head? hrow.symm) (h test)

/-- The clauses of loops of which the last comes first. -/
def passed (loops : List Loop) : List Clause := loops.reverse.flatMap clauses

theorem passed_loop (target iterable : Tree) (isAsync : Bool) (loops : List Loop) :
    passed (⟨target, iterable, [], isAsync⟩ :: loops) =
      passed loops ++ [.loop target iterable isAsync] := by
  rw [passed, passed, List.reverse_cons, List.flatMap_append, List.flatMap_singleton]
  rfl

theorem passed_filter (loop : Loop) (test : Tree) (before : List Loop) :
    passed ({ loop with filters := loop.filters ++ [test] } :: before) =
      passed (loop :: before) ++ [.filter test] := by
  simp only [passed, List.reverse_cons, List.flatMap_append, List.flatMap_singleton, clauses,
    List.map_append, List.map_singleton, List.append_assoc, List.cons_append]

theorem passed_inj {loops loops' : List Loop} : passed loops = passed loops' ↔ loops = loops' := by
  rw [passed, flatMap_clauses_eq_iff, passed, grouped_flatMap, Prod.mk.injEq, List.reverse_inj]
  exact ⟨fun h => h.2.symm, fun h => ⟨rfl, h.symm⟩⟩

theorem passed_ne_filter (loops : List Loop) (test : Tree) (row : List Clause) :
    passed loops ≠ .filter test :: row := fun h =>
  exists_flatMap_clauses_iff.mp ⟨_, h⟩ test rfl

end Loop

/-! ## Clauses of the source -/

namespace Cst

/-- A loop or a filter of a comprehension. -/
def isClause (c : Cst) : Bool :=
  c.isNamed && (c.kind == "for_in_clause" || c.kind == "if_clause")

/-- A comprehension has this body, and beside it these clauses in this order. There may be anything
else among them. -/
def HasClauses (c body : Cst) (nodes : List Cst) : Prop :=
  ∃ before after, c.children = before ++ body :: after ∧ body.field = some "body" ∧
    (∀ d ∈ before, d.field ≠ some "body") ∧ (before ++ after).filter isClause = nodes

theorem significantBeside_of_append {c d : Cst} {name : String} {before after : List Cst}
    (hchildren : c.children = before ++ d :: after) (hd : d.field = some name)
    (hbefore : ∀ e ∈ before, e.field ≠ some name) :
    c.significantBeside name = significantOf (before ++ after) := by
  have hnot (e : Cst) (he : e ∈ before) : ¬ (e.field == some name) = true := by
    simpa using hbefore e he
  rw [significantBeside, hchildren, List.eraseP_append_right _ hnot,
    List.eraseP_cons_of_pos (by simpa using hd)]

end Cst

namespace Visitor

open Reading (Result bind_eq_ok_iff)

variable {v : Visitor Result}

/-- A node is read as a clause. -/
inductive ReadsClause (v : Visitor Result) (c : Cst) : Clause → Prop
  | loop {left : Cst} {target iterable : Tree} (hkind : c.kind = "for_in_clause")
    (hleft : c.child? "left" = some left) (htarget : v.store left = .ok target)
    (hiterable : v.joined c (c.childrenUnder "right") = .ok iterable) :
    ReadsClause v c (.loop target iterable (c.hasToken "async"))
  | filter {part : Cst} {test : Tree} (hkind : c.kind = "if_clause")
    (hpart : c.significant.head? = some part) (htest : v.load part = .ok test) :
    ReadsClause v c (.filter test)

/-- Only clauses are added. -/
theorem foldlM_addClause_filter (nodes : List Cst) (loops : List Loop) :
    (Cst.significantOf nodes).foldlM v.addClause loops =
      (nodes.filter Cst.isClause).foldlM v.addClause loops := by
  rw [Cst.significantOf, List.foldlM_filter, List.foldlM_filter]
  congr 1
  funext loops c
  by_cases hfor : c.kind = "for_in_clause"
  · simp [Cst.isTrivia, Cst.isClause, hfor]
  by_cases hif : c.kind = "if_clause"
  · simp [Cst.isTrivia, Cst.isClause, hif]
  have hadd : v.addClause loops c = pure loops := by
    unfold addClause
    split
    · contradiction
    · contradiction
    · rfl
  simp only [hadd, ite_self]

theorem ReadsClause.addClause_loop {c : Cst} {target iterable : Tree} {isAsync : Bool}
    (h : v.ReadsClause c (.loop target iterable isAsync)) (loops : List Loop) :
    v.addClause loops c = .ok (⟨target, iterable, [], isAsync⟩ :: loops) := by
  cases h with
  | loop hkind hleft htarget hiterable =>
    rw [addClause, hkind]
    simp only [bind_eq_ok_iff, Cst.require_eq_ok_iff]
    exact ⟨_, hleft, _, htarget, _, hiterable, rfl⟩

theorem ReadsClause.addClause_filter {c : Cst} {test : Tree} (h : v.ReadsClause c (.filter test))
    (loops : List Loop) :
    v.addClause loops c =
      match loops with
      | last :: before => .ok ({ last with filters := last.filters ++ [test] } :: before)
      | [] => .error (c.fault .filterBeforeLoop) := by
  cases h with
  | filter hkind hpart htest =>
    rw [addClause, hkind, Cst.firstPart_eq_ok_iff.mpr hpart]
    show v.load _ >>= _ = _
    rw [htest]
    cases loops with
    | nil => rfl
    | cons last before => rfl

/-- Clauses are put behind those of the loops that there are. -/
theorem foldlM_addClause_eq_ok_iff {nodes : List Cst} {clauses : List Clause}
    (h : List.Forall₂ v.ReadsClause nodes clauses) {loops result : List Loop} :
    nodes.foldlM v.addClause loops = .ok result ↔
      Loop.passed result = Loop.passed loops ++ clauses := by
  induction h generalizing loops with
  | nil =>
    rw [List.append_nil, Loop.passed_inj]
    exact ⟨fun h => (Except.ok.inj h).symm, fun h => congrArg Except.ok h.symm⟩
  | @cons c clause nodes clauses hread _ ih =>
    rw [List.foldlM_cons]
    cases clause with
    | loop target iterable isAsync =>
      rw [hread.addClause_loop]
      refine ih.trans ?_
      rw [Loop.passed_loop, List.append_assoc, List.singleton_append]
    | filter test =>
      rw [hread.addClause_filter]
      cases loops with
      | nil =>
        refine ⟨fun h => ?_, fun h => absurd h (Loop.passed_ne_filter _ _ _)⟩
        cases h
      | cons loop before =>
        refine ih.trans ?_
        rw [Loop.passed_filter, List.append_assoc, List.singleton_append]

variable {c body : Cst} {nodes : List Cst} {clauses : List Clause}

theorem loops_eq (hclauses : c.HasClauses body nodes) :
    v.loops c = (do
      let loops ← nodes.foldlM v.addClause []
      return .seq (loops.reverse.map Loop.toTree)) := by
  obtain ⟨before, after, hchildren, hbody, hbefore, rfl⟩ := hclauses
  rw [loops, Cst.significantBeside_of_append hchildren hbody hbefore, foldlM_addClause_filter]

/-- The loops of a comprehension are its clauses, grouped. -/
theorem loops_eq_ok_iff (hclauses : c.HasClauses body nodes)
    (h : List.Forall₂ v.ReadsClause nodes clauses) (tree : Tree) :
    v.loops c = .ok tree ↔ ∃ loops : List Loop, loops.flatMap Loop.clauses = clauses ∧
      tree = .seq (loops.map Loop.toTree) := by
  simp only [loops_eq hclauses, bind_eq_ok_iff, foldlM_addClause_eq_ok_iff h]
  constructor
  · rintro ⟨loops, hloops, htree⟩
    exact ⟨loops.reverse, hloops, (Except.ok.inj htree).symm⟩
  · rintro ⟨loops, hloops, rfl⟩
    refine ⟨loops.reverse, ?_, ?_⟩
    · rwa [Loop.passed, List.reverse_reverse]
    · rw [List.reverse_reverse]
      rfl

/-- A comprehension that begins with a filter fails at it. -/
theorem loops_eq_error (hclauses : c.HasClauses body nodes)
    (h : List.Forall₂ v.ReadsClause nodes clauses) {test : Tree}
    (hfilter : clauses.head? = some (.filter test)) :
    ∃ node ∈ nodes.head?, v.loops c = .error (node.fault .filterBeforeLoop) := by
  obtain ⟨rest, rfl⟩ := List.head?_eq_some_iff.mp hfilter
  cases h with
  | @cons node _ _ _ hread =>
    refine ⟨node, rfl, ?_⟩
    rw [loops_eq hclauses, List.foldlM_cons, hread.addClause_filter]
    rfl

end Visitor

/-- The constructs that have loops. -/
def comprehensionKinds : List String :=
  ["list_comprehension", "set_comprehension", "generator_expression", "dictionary_comprehension"]

namespace Visitor

open Reading (Result bind_eq_ok_iff)

variable {v : Visitor Result} {c : Cst} {tree : Tree}

theorem exists_generators_of_comprehension {kind : String} (h : v.comprehension kind c = .ok tree) :
    ∃ generators, v.loops c = .ok generators ∧ tree.field? "generators" = some generators := by
  simp only [comprehension, bind_eq_ok_iff] at h
  obtain ⟨body, -, element, -, generators, hgenerators, htree⟩ := h
  obtain rfl := Except.ok.inj htree
  exact ⟨generators, hgenerators, by rw [Tree.field?_record]; rfl⟩

theorem exists_generators_of_dictComprehension (h : v.dictComprehension c = .ok tree) :
    ∃ generators, v.loops c = .ok generators ∧ tree.field? "generators" = some generators := by
  simp only [dictComprehension, bind_eq_ok_iff] at h
  obtain ⟨body, -, keyNode, -, key, -, valueNode, -, value, -, generators, hgenerators, htree⟩ := h
  obtain rfl := Except.ok.inj htree
  exact ⟨generators, hgenerators, by rw [Tree.field?_record]; rfl⟩

theorem exists_generators (hkind : c.kind ∈ comprehensionKinds) {access : Access}
    (h : v.expressionForm access c = .ok tree) :
    ∃ generators, v.loops c = .ok generators ∧ tree.field? "generators" = some generators := by
  simp only [comprehensionKinds, List.mem_cons, List.not_mem_nil, or_false] at hkind
  obtain hkind | hkind | hkind | hkind := hkind
  all_goals rw [expressionForm, hkind] at h
  · exact exists_generators_of_comprehension h
  · exact exists_generators_of_comprehension h
  · exact exists_generators_of_comprehension h
  · exact exists_generators_of_dictComprehension h

end Visitor

/-! ## Comprehensions at a depth -/

namespace Reading

namespace Counted

/-- **Comprehensions keep the structure of their clauses.** Let the clauses beside the body of a
comprehension be read one by one from the depth at which it stands, whatever else is among them.
Then its loops are read just if every filter has a loop before it, and otherwise fail at the first
clause. They are the loops that are, each followed by its filters, just the clauses in the order of
the source, and each is a node with its target, iterable and filters. A loop is asynchronous just if
its clause has that token, and then `is_async` is one. Where a whole comprehension is read, these
are its loops, one level further down. -/
theorem runFrom_loops (source : Source) (depth : Nat) (c : Cst) :
    (∀ (body : Cst) (nodes : List Cst) (clauses : List Clause), c.HasClauses body nodes →
      List.Forall₂ (visitorFrom source depth).ReadsClause nodes clauses →
      ((∃ tree, ((Visitor.loops ⟨source, Counted.read source⟩ c).runFrom depth).1 = .ok tree) ↔
        Clause.FiltersFollow clauses) ∧
      (∀ tree, ((Visitor.loops ⟨source, Counted.read source⟩ c).runFrom depth).1 = .ok tree ↔
        ∃ loops : List Loop, loops.flatMap Loop.clauses = clauses ∧
          tree = .seq (loops.map fun loop => .node "comprehension" [
            ("ifs", .seq loop.filters),
            ("is_async", .node "int" [("value", .str (if loop.isAsync then "1" else "0"))]),
            ("iter", loop.iterable),
            ("target", loop.target)])) ∧
      (¬ Clause.FiltersFollow clauses → ∃ node ∈ nodes.head?,
        ((Visitor.loops ⟨source, Counted.read source⟩ c).runFrom depth).1 =
          .error (node.fault .filterBeforeLoop))) ∧
    (c.kind ∈ comprehensionKinds → ∀ access tree,
      ((Counted.read source (.expression access) c).runFrom depth).1 = .ok tree →
      ∃ generators, tree.field? "generators" = some generators ∧
        ((Visitor.loops ⟨source, Counted.read source⟩ c).runFrom (depth + 1)).1 =
          .ok generators) := by
  have hrun (depth : Nat) := ((handedDown source depth).loops_agree
    (handedDown_alike source depth c)).runFrom_eq
  simp only [hrun]
  constructor
  · intro body nodes clauses hclauses h
    have hiff (tree : Tree) := Visitor.loops_eq_ok_iff hclauses h tree
    simp only [funext Loop.toTree_eq] at hiff
    refine ⟨?_, hiff, fun hnot => ?_⟩
    · simp only [hiff, Clause.filtersFollow_iff, ← Loop.exists_flatMap_clauses_iff]
      constructor
      · rintro ⟨_, loops, hloops, -⟩
        exact ⟨loops, hloops⟩
      · rintro ⟨loops, hloops⟩
        exact ⟨_, loops, hloops, rfl⟩
    · rw [Clause.filtersFollow_iff] at hnot
      push Not at hnot
      obtain ⟨test, hfilter⟩ := hnot
      exact Visitor.loops_eq_error hclauses h hfilter
  · intro hkind access tree hread
    rw [runFrom_read_expression, runFrom_nested, Reading.nested] at hread
    split at hread
    · have hform := ((handedDown source (depth + 1)).expressionForm_agree access
        (handedDown_alike source (depth + 1) c)).runFrom_eq
      rw [hform] at hread
      obtain ⟨generators, hgenerators, hfield⟩ := Visitor.exists_generators hkind hread
      exact ⟨generators, hfield, hgenerators⟩
    · cases hread

/-- The comprehension `[x async for x in a if p if q for y in b]`, with a comment behind its first
filter. -/
def filteredSource : Source :=
  .ofText CharacterName.noNames "[x async for x in a if p # c\n if q for y in b]"

/-- The clauses of the comprehension. -/
def filteredClauses : List Cst := [
  .sound "for_in_clause" none true 3 19 0 3 [
    .sound "async" none false 3 8 0 3 [], .sound "for" none false 9 12 0 9 [],
    (nameAt 13 14).under (some "left"), .sound "in" none false 15 17 0 15 [],
    (nameAt 18 19).under (some "right")],
  .sound "if_clause" none true 20 24 0 20 [.sound "if" none false 20 22 0 20 [], nameAt 23 24],
  .sound "if_clause" none true 30 34 1 1 [
    .sound "if" none false 30 32 1 1 [], .sound "identifier" none true 33 34 1 4 []],
  .sound "for_in_clause" none true 35 45 1 6 [
    .sound "for" none false 35 38 1 6 [], .sound "identifier" (some "left") true 39 40 1 10 [],
    .sound "in" none false 41 43 1 12 [], .sound "identifier" (some "right") true 44 45 1 15 []]]

/-- The comprehension with these clauses, and a comment behind the first two of them. -/
def comprehensionOf (clauses : List Cst) : Cst :=
  .sound "list_comprehension" none true 0 46 0 0 (
    [tokenAt "[" 0, (nameAt 1 2).under (some "body")] ++ clauses.take 2 ++
      [.sound "comment" none true 25 28 0 25 []] ++ clauses.drop 2 ++
      [.sound "]" none false 45 46 1 16 []])

/-- What the loops of the comprehension are. -/
def filteredLoops : List Loop := [
  ⟨.name "x" .store, .name "a" .load, [.name "p" .load, .name "q" .load], true⟩,
  ⟨.name "y" .store, .name "b" .load, [], false⟩]

/-- What the loops of the comprehension are read as. -/
def filteredGenerators : Tree := .seq [
  .node "comprehension" [
    ("ifs", .seq [.name "p" .load, .name "q" .load]),
    ("is_async", .node "int" [("value", .str "1")]),
    ("iter", .name "a" .load),
    ("target", .name "x" .store)],
  .node "comprehension" [
    ("ifs", .seq []),
    ("is_async", .node "int" [("value", .str "0")]),
    ("iter", .name "b" .load),
    ("target", .name "y" .store)]]

/-- What the comprehension is read as. -/
def filteredTree : Tree :=
  .node "ListComp" [("elt", .name "x" .load), ("generators", filteredGenerators)]

/-- Two filters go to one loop, with a comment between them, and none to the next. Without the first
loop there is nothing that they can go to. -/
theorem runFrom_filteredClauses :
    (comprehensionOf filteredClauses).HasClauses ((nameAt 1 2).under (some "body"))
      filteredClauses ∧
    List.Forall₂ (visitorFrom filteredSource 1).ReadsClause filteredClauses
      (filteredLoops.flatMap Loop.clauses) ∧
    (comprehensionOf filteredClauses).kind ∈ comprehensionKinds ∧
    ((Counted.read filteredSource (.expression .load) (comprehensionOf filteredClauses)).runFrom
      0).1 = .ok filteredTree ∧
    ((Visitor.loops ⟨filteredSource, Counted.read filteredSource⟩
      (comprehensionOf filteredClauses)).runFrom 1).1 = .ok filteredGenerators ∧
    Clause.FiltersFollow (filteredLoops.flatMap Loop.clauses) ∧
    ¬ Clause.FiltersFollow (filteredLoops.flatMap Loop.clauses).tail ∧
    ∃ node ∈ filteredClauses.tail.head?,
      ((Visitor.loops ⟨filteredSource, Counted.read filteredSource⟩
        (comprehensionOf filteredClauses.tail)).runFrom 1).1 =
          .error (node.fault .filterBeforeLoop) := by
  have hclauses : (comprehensionOf filteredClauses).HasClauses ((nameAt 1 2).under (some "body"))
      filteredClauses :=
    ⟨[tokenAt "[" 0], _, rfl, rfl, by decide, rfl⟩
  have htail : (comprehensionOf filteredClauses.tail).HasClauses
      ((nameAt 1 2).under (some "body")) filteredClauses.tail :=
    ⟨[tokenAt "[" 0], _, rfl, rfl, by decide, rfl⟩
  have hreads : List.Forall₂ (visitorFrom filteredSource 1).ReadsClause filteredClauses
      (filteredLoops.flatMap Loop.clauses) :=
    .cons (.loop rfl rfl rfl rfl) (.cons (.filter rfl rfl rfl) (.cons (.filter rfl rfl rfl)
      (.cons (.loop rfl rfl rfl rfl) .nil)))
  have hread : ((Counted.read filteredSource (.expression .load)
      (comprehensionOf filteredClauses)).runFrom 0).1 = .ok filteredTree := rfl
  have hnot : ¬ Clause.FiltersFollow (filteredLoops.flatMap Loop.clauses).tail := fun h =>
    Bool.false_ne_true (h [] _ _ rfl)
  obtain ⟨-, hwhole⟩ := runFrom_loops filteredSource 0 (comprehensionOf filteredClauses)
  obtain ⟨generators, -, hloops⟩ := hwhole (by decide) .load _ hread
  obtain ⟨hgrouped, -⟩ := runFrom_loops filteredSource 1 (comprehensionOf filteredClauses)
  obtain ⟨hfollow, hloopsIff, -⟩ := hgrouped _ _ _ hclauses hreads
  have hgenerators := (hloopsIff filteredGenerators).mpr ⟨filteredLoops, rfl, rfl⟩
  obtain ⟨hungrouped, -⟩ := runFrom_loops filteredSource 1 (comprehensionOf filteredClauses.tail)
  obtain ⟨-, -, herror⟩ := hungrouped _ _ _ htail (List.forall₂_cons.mp hreads).2
  exact ⟨hclauses, hreads, by decide, hread, hgenerators, hfollow.mp ⟨generators, hloops⟩, hnot,
    herror hnot⟩

end Counted

end Reading

end TreeText
