import TreeText.Proofs.Reading.Annotation
import TreeText.Proofs.Reading.Operator

/-!
# Conditions keep their branches

The alternatives of a condition stand in one row: further conditions, each a branch with a test of
its own, and perhaps a last clause without one. In the tree they lie in one another instead: the
condition with the next branch is the only statement that is left if a test fails
(`Branch.nested`).

The rule nests the branches while it reads them. Both can be taken apart: all branches are read in a
row, then the last clause, and then what has been read is nested
(`Visitor.conditionalStatement_eq`). In the row there is one branch for each clause, in the order of
the source, and nesting does not look into them; so none is lost, and the first part that cannot be
read tells the fault (`runFrom_conditionalStatement`).
-/

namespace TreeText

/-! ## Branches -/

/-- A branch of a condition: its test, and the statements under it. -/
structure Branch where
  test : Tree
  body : List Tree

namespace Branch

/-- The condition with this branch, and the statements that are left if its test fails. -/
def toTree (branch : Branch) (orelse : List Tree) : Tree :=
  .record "If" [("test", branch.test), ("body", .seq branch.body), ("orelse", .seq orelse)]

/-- Branches in one another: if a test fails, the condition with the next branch is all that is
left, and if the last one does, these statements are. -/
def nested (orelse : List Tree) : List Branch → List Tree
  | [] => orelse
  | branch :: rest => [branch.toTree (nested orelse rest)]

end Branch

/-- The alternatives of a condition are these further conditions, and then perhaps one last clause
of another kind. -/
structure Cst.HasAlternatives (c : Cst) (elifs : List Cst) (last : Option Cst) : Prop where
  alternatives : c.childrenUnder "alternative" = elifs ++ last.toList
  elifs : ∀ clause ∈ elifs, clause.kind = "elif_clause"
  last : ∀ clause ∈ last, clause.kind ≠ "elif_clause"

/-! ## Readings that fail -/

namespace Reading

theorem bind_eq_error_iff {α β : Type} {x : Result α} {f : α → Result β} {fault : Fault} :
    x >>= f = .error fault ↔ x = .error fault ∨ ∃ a, x = .ok a ∧ f a = .error fault := by
  cases x with
  | error e =>
    constructor
    · intro h
      cases h
      exact .inl rfl
    · rintro (h | ⟨_, h, -⟩)
      · cases h
        rfl
      · cases h
  | ok a =>
    constructor
    · exact fun h => .inr ⟨a, rfl, h⟩
    · rintro (h | ⟨_, h, hfault⟩)
      · cases h
      · cases h
        exact hfault

/-- Of constructs that are read one after the other the first faulty one tells. -/
theorem mapM_eq_error_iff {α β : Type} {f : α → Result β} {xs : List α} {fault : Fault} :
    xs.mapM f = .error fault ↔ ∃ before x after, xs = before ++ x :: after ∧
      (∀ y ∈ before, ∃ b, f y = .ok b) ∧ f x = .error fault := by
  induction xs with
  | nil =>
    rw [List.mapM_nil]
    constructor
    · nofun
    · rintro ⟨before, x, after, hxs, -⟩
      cases before <;> cases hxs
  | cons x xs ih =>
    rw [List.mapM_cons, bind_eq_error_iff]
    simp only [bind_eq_error_iff, ih]
    constructor
    · rintro (hfault | ⟨b, hb, ⟨before, y, after, rfl, hbefore, hfault⟩ | ⟨_, -, hpure⟩⟩)
      · exact ⟨[], x, xs, rfl, nofun, hfault⟩
      · exact ⟨x :: before, y, after, rfl, List.forall_mem_cons.mpr ⟨⟨b, hb⟩, hbefore⟩, hfault⟩
      · cases hpure
    · rintro ⟨_ | ⟨first, before⟩, y, after, hxs, hbefore, hfault⟩
      · cases hxs
        exact .inl hfault
      · cases hxs
        obtain ⟨⟨b, hb⟩, hbefore⟩ := List.forall_mem_cons.mp hbefore
        exact .inr ⟨b, hb, .inl ⟨before, y, after, rfl, hbefore, hfault⟩⟩

end Reading

/-! ## Branches that are read -/

namespace Visitor

section

variable {m : Type → Type} [Monad m] [MonadExceptOf Fault m] (v : Visitor m)

/-- Reads the test of a branch and then its block. -/
def branch (c : Cst) : m Branch := do
  let test ← v.load (← c.require "condition")
  let body ← v.block (← c.require "consequence")
  return ⟨test, body⟩

variable {v} {elifs : List Cst} {last : Option Cst}

theorem alternatives_last (hlast : ∀ clause ∈ last, clause.kind ≠ "elif_clause") :
    v.alternatives last.toList = v.elseBody last := by
  cases last with
  | none => rfl
  | some clause =>
    show v.alternatives [clause] = _
    rw [alternatives, if_neg (hlast clause rfl)]
    rfl

variable [LawfulMonad m]

/-- The branches of further conditions are read one after the other before they are nested. -/
theorem alternatives_eq (helifs : ∀ clause ∈ elifs, clause.kind = "elif_clause")
    (hlast : ∀ clause ∈ last, clause.kind ≠ "elif_clause") :
    v.alternatives (elifs ++ last.toList) = (do
      let branches ← elifs.mapM v.branch
      let orelse ← v.elseBody last
      return Branch.nested orelse branches) := by
  induction elifs with
  | nil =>
    rw [List.nil_append, alternatives_last hlast, List.mapM_nil, pure_bind]
    exact (bind_pure _).symm
  | cons clause elifs ih =>
    obtain ⟨hclause, helifs⟩ := List.forall_mem_cons.mp helifs
    rw [List.cons_append, alternatives, if_pos hclause, ih helifs, List.mapM_cons, branch]
    simp only [bind_assoc, pure_bind]
    rfl

/-- The branches of a condition are read one after the other before they are nested. -/
theorem conditionalStatement_eq {c : Cst} (h : c.HasAlternatives elifs last) :
    v.conditionalStatement c = (do
      let first ← v.branch c
      let branches ← elifs.mapM v.branch
      let orelse ← v.elseBody last
      return first.toTree (Branch.nested orelse branches)) := by
  rw [conditionalStatement, h.alternatives, alternatives_eq h.elifs h.last, branch]
  simp only [bind_assoc, pure_bind]
  rfl

end

open Reading (Result bind_eq_ok_iff mapM_eq_ok_iff mapM_eq_error_iff)

variable {v : Visitor Result} {c : Cst} {elifs : List Cst} {last : Option Cst}

/-- A condition is read just if all its branches and its last clause are. -/
theorem conditionalStatement_eq_ok_iff (h : c.HasAlternatives elifs last) {tree : Tree} :
    v.conditionalStatement c = .ok tree ↔ ∃ branches orelse,
      List.Forall₂ (fun clause branch => v.branch clause = .ok branch) (c :: elifs) branches ∧
      v.elseBody last = .ok orelse ∧ [tree] = Branch.nested orelse branches := by
  simp only [conditionalStatement_eq h, bind_eq_ok_iff, mapM_eq_ok_iff]
  constructor
  · rintro ⟨first, hfirst, branches, hbranches, orelse, horelse, htree⟩
    obtain rfl := Except.ok.inj htree
    exact ⟨first :: branches, orelse, .cons hfirst hbranches, horelse, rfl⟩
  · rintro ⟨_, orelse, _ | ⟨hfirst, hbranches⟩, horelse, htree⟩
    obtain rfl := List.singleton_inj.mp htree
    exact ⟨_, hfirst, _, hbranches, orelse, horelse, rfl⟩

/-- A condition fails just if one of its branches does or its last clause, and the first of them
tells. -/
theorem conditionalStatement_eq_error_iff (h : c.HasAlternatives elifs last) {fault : Fault} :
    v.conditionalStatement c = .error fault ↔
      (∃ before clause after, c :: elifs = before ++ clause :: after ∧
        (∀ d ∈ before, ∃ branch, v.branch d = .ok branch) ∧ v.branch clause = .error fault) ∨
      (∃ branches,
        List.Forall₂ (fun clause branch => v.branch clause = .ok branch) (c :: elifs) branches) ∧
        v.elseBody last = .error fault := by
  rw [← mapM_eq_error_iff]
  simp only [← mapM_eq_ok_iff]
  -- The statement itself is the first of the branches that are read in a row.
  rw [conditionalStatement_eq h, List.mapM_cons]
  cases v.branch c with
  | error e => simp [bind, Except.bind]
  | ok first =>
    cases elifs.mapM v.branch with
    | error e => simp [bind, Except.bind]
    | ok branches =>
      cases v.elseBody last with
      | error e => simp [bind, Except.bind, pure, Except.pure]
      | ok orelse => simp [bind, Except.bind, pure, Except.pure]

theorem statementForm_of_if_statement {m : Type → Type} [Monad m] [MonadExceptOf Fault m]
    (v : Visitor m) {c : Cst} (hkind : c.kind = "if_statement") :
    v.statementForm c = v.conditionalStatement c := by
  rw [statementForm, hkind]
  rfl

end Visitor

/-! ## Conditions at a depth -/

namespace Reading

namespace Counted

variable (source : Source)

/-- **Conditions keep every branch.** Let the alternatives of a condition be any number of further
conditions and then perhaps a last clause. It is read just if the tests and blocks of all of them
are read and the last clause is, each from the depth at which the condition stands. Then it comes to
one node for every branch, with its test and its block, in the order of the source; each further one
is the only statement that is left if the test before it fails, and if the last test does, the
statements of the last clause are, or none. Otherwise the first of them that cannot be read tells
the fault. The statement as a whole goes down by one level. -/
theorem runFrom_conditionalStatement {c : Cst} {elifs : List Cst} {last : Option Cst}
    (h : c.HasAlternatives elifs last) (depth : Nat) :
    (∀ tree,
      ((Visitor.conditionalStatement ⟨source, Counted.read source⟩ c).runFrom depth).1 = .ok tree ↔
      ∃ branches orelse,
        List.Forall₂ (fun clause branch => (visitorFrom source depth).branch clause = .ok branch)
          (c :: elifs) branches ∧
        (visitorFrom source depth).elseBody last = .ok orelse ∧
        branches.length = elifs.length + 1 ∧
        [tree] = Branch.nested orelse branches) ∧
    (∀ fault,
      ((Visitor.conditionalStatement ⟨source, Counted.read source⟩ c).runFrom depth).1 =
        .error fault ↔
      (∃ before clause after, c :: elifs = before ++ clause :: after ∧
        (∀ d ∈ before, ∃ branch, (visitorFrom source depth).branch d = .ok branch) ∧
        (visitorFrom source depth).branch clause = .error fault) ∨
      (∃ branches,
        List.Forall₂ (fun clause branch => (visitorFrom source depth).branch clause = .ok branch)
          (c :: elifs) branches) ∧
        (visitorFrom source depth).elseBody last = .error fault) ∧
    (c.kind = "if_statement" → (Counted.read source .statement c).runFrom depth =
      (nested c (Visitor.conditionalStatement ⟨source, Counted.read source⟩ c)).runFrom depth) := by
  have hrun := ((handedDown source depth).conditionalStatement_agree
    (handedDown_alike source depth c)).runFrom_eq
  rw [hrun]
  refine ⟨fun tree => ?_, fun fault => Visitor.conditionalStatement_eq_error_iff h, fun hkind => ?_⟩
  · rw [Visitor.conditionalStatement_eq_ok_iff h]
    constructor
    · rintro ⟨branches, orelse, hbranches, horelse, htree⟩
      exact ⟨branches, orelse, hbranches, horelse, hbranches.length_eq.symm, htree⟩
    · rintro ⟨branches, orelse, hbranches, horelse, -, htree⟩
      exact ⟨branches, orelse, hbranches, horelse, htree⟩
  · rw [runFrom_read_statement, Visitor.statementForm_of_if_statement _ hkind]

/-- A condition with two further ones and a last clause, on a line each. -/
def branchesSource : Source :=
  .ofText CharacterName.noNames "if a: b\nelif c: d\nelif e: f\nelse: g\n"

/-- A name of one letter, under a field. -/
def letterAt (field : Option String) (row start column : Nat) : Cst :=
  .sound "identifier" field true start (start + 1) row column []

/-- A block under a field, with a name as its only statement. -/
def blockAt (field : String) (row start column : Nat) : Cst :=
  .sound "block" (some field) true start (start + 1) row column [
    .sound "expression_statement" none true start (start + 1) row column [
      letterAt none row start column]]

/-- A further condition on a line of its own. -/
def elifAt (row start : Nat) : Cst :=
  .sound "elif_clause" (some "alternative") true start (start + 9) row 0 [
    .sound "elif" none false start (start + 4) row 0 [],
    letterAt (some "condition") row (start + 5) 5,
    .sound ":" none false (start + 6) (start + 7) row 6 [],
    blockAt "consequence" row (start + 8) 8]

/-- A further condition that has no test. -/
def elifWithoutTest : Cst :=
  .sound "elif_clause" (some "alternative") true 18 27 2 0 [blockAt "consequence" 2 26 8]

/-- The last clause. -/
def elseAt (row start : Nat) : Cst :=
  .sound "else_clause" (some "alternative") true start (start + 7) row 0 [
    .sound "else" none false start (start + 4) row 0 [],
    .sound ":" none false (start + 4) (start + 5) row 4 [],
    blockAt "body" row (start + 6) 6]

/-- The condition with these further ones. -/
def conditionOf (elifs : List Cst) : Cst :=
  .sound "if_statement" none true 0 35 0 0 (
    [.sound "if" none false 0 2 0 0 [], letterAt (some "condition") 0 3 3,
      .sound ":" none false 4 5 0 4 [], blockAt "consequence" 0 6 6] ++ elifs ++ [elseAt 3 28])

/-- A branch whose test and whose only statement are names. -/
def branchOf (test statement : String) : Branch :=
  ⟨.name test .load, [.record "Expr" [("value", .name statement .load)]]⟩

/-- Three branches and a last clause lie in one another. If the test of the third is missing, the
condition fails at it. -/
theorem runFrom_conditionOf :
    (conditionOf [elifAt 1 8, elifAt 2 18]).HasAlternatives [elifAt 1 8, elifAt 2 18]
      (some (elseAt 3 28)) ∧
    ((Counted.read branchesSource .statement (conditionOf [elifAt 1 8, elifAt 2 18])).runFrom 0).1 =
      .ok ((branchOf "a" "b").toTree [(branchOf "c" "d").toTree [(branchOf "e" "f").toTree
        [.record "Expr" [("value", .name "g" .load)]]]]) ∧
    (conditionOf [elifAt 1 8, elifWithoutTest]).HasAlternatives [elifAt 1 8, elifWithoutTest]
      (some (elseAt 3 28)) ∧
    ((Visitor.conditionalStatement ⟨branchesSource, Counted.read branchesSource⟩
      (conditionOf [elifAt 1 8, elifWithoutTest])).runFrom 1).1 =
        .error (elifWithoutTest.fault (.missingField "elif_clause" "condition")) := by
  have hwhole : (conditionOf [elifAt 1 8, elifAt 2 18]).HasAlternatives [elifAt 1 8, elifAt 2 18]
      (some (elseAt 3 28)) :=
    ⟨rfl, by decide, by decide⟩
  have hlacking : (conditionOf [elifAt 1 8, elifWithoutTest]).HasAlternatives
      [elifAt 1 8, elifWithoutTest] (some (elseAt 3 28)) :=
    ⟨rfl, by decide, by decide⟩
  obtain ⟨-, -, hlevel⟩ := runFrom_conditionalStatement branchesSource hwhole 0
  obtain ⟨hread, -, -⟩ := runFrom_conditionalStatement branchesSource hwhole 1
  obtain ⟨-, herror, -⟩ := runFrom_conditionalStatement branchesSource hlacking 1
  have hvalue := (hread _).mpr
    ⟨[branchOf "a" "b", branchOf "c" "d", branchOf "e" "f"],
      [.record "Expr" [("value", .name "g" .load)]],
      .cons rfl (.cons rfl (.cons rfl .nil)), rfl, rfl, rfl⟩
  refine ⟨hwhole, ?_, hlacking, (herror _).mpr (.inl ?_)⟩
  · rw [hlevel rfl, runFrom_nested, Reading.nested, if_pos (by decide), hvalue]
    rfl
  · refine ⟨[conditionOf [elifAt 1 8, elifWithoutTest], elifAt 1 8], elifWithoutTest, [], rfl, ?_,
      rfl⟩
    exact List.forall_mem_cons.mpr ⟨⟨branchOf "a" "b", rfl⟩,
      List.forall_mem_singleton.mpr ⟨branchOf "c" "d", rfl⟩⟩

end Counted

end Reading

end TreeText
