import TreeText.Proofs.Cst.FirstError
import TreeText.Proofs.Reading.Depth

/-!
# Every fault lies at a node

Faults are found in many ways: a part is missing, an operator is not known, an escape in a literal
names no character, nodes lie too deep in one another. All of them lie at the start of a node of the
tree that is read (`Reading.visit_within`), and so does the fault of a text that is no program. A
diagnostic therefore points to a place in the source that some node of the tree starts at
(`readModule_error_at_node`).

This is the likeness of the visitor with itself, once more: a reading agrees with itself just if its
fault, should it end with one, lies in the tree. The rules hand on only children of the nodes that
they look at, so the nodes that correspond are those of the tree.
-/

namespace TreeText

/-- A fault lies at the start of a node of this tree. -/
def Fault.LiesIn (fault : Fault) (root : Cst) : Prop :=
  ∃ c, root.Holds c ∧ fault.row = c.info.row ∧ fault.column = c.info.column

/-- What is faulty about a node of the tree lies in the tree. -/
theorem Cst.Holds.fault {root c : Cst} (h : root.Holds c) (cause : Cause) :
    (c.fault cause).LiesIn root :=
  ⟨c, h, rfl, rfl⟩

namespace Reading

/-- Results are the same, and their fault lies in this tree. -/
abbrev Comparison.within (root : Cst) : Comparison Result Result :=
  .results (fun e e' => e = e' ∧ e.LiesIn root) fun _ => False

theorem Agree.fault_of_within {α : Type} {R : α → α → Prop} {root : Cst} {x : Result α}
    {fault : Fault} (h : Agree (.within root) R x x) (hx : x = .error fault) :
    fault.LiesIn root := by
  subst hx
  exact (h.resolve_left id).2

/-- A node of the tree agrees with itself, and so do all its children. -/
theorem alike_within {root c : Cst} (h : root.Holds c) :
    c.Alike (fun a b => a = b ∧ root.Holds a) Eq Eq (Comparison.within root).fault c :=
  Cst.alike_self (fun cause => ⟨rfl, h.fault cause⟩) fun _ hchild => .child h hchild

/-- A visitor whose readings of the tree's nodes find faults in the tree alone is like itself. -/
def withinLikeness {source : Source} (root : Cst) {f : Role → Cst → Result Tree}
    (h : ∀ role c, root.Holds c → Agree (.within root) Eq (f role c) (f role c)) :
    Likeness ⟨source, f⟩ ⟨source, f⟩ := by
  refine .ofOneText (.within root) (fun a b => a = b ∧ root.Holds a) ?_ ?_
  · rintro c _ ⟨rfl, hc⟩
    exact alike_within hc
  · rintro c _ role ⟨rfl, hc⟩
    exact h role c hc

theorem visit_within (source : Source) {root c : Cst} (hc : root.Holds c) (rounds depth : Nat)
    (role : Role) :
    Agree (.within root) Eq (visit source rounds depth role c)
      (visit source rounds depth role c) := by
  induction rounds generalizing depth role c with
  | zero => exact .error ⟨rfl, hc.fault _⟩
  | succ rounds ih =>
    let L (depth : Nat) :
        Likeness ⟨source, visit source rounds depth⟩ ⟨source, visit source rounds depth⟩ :=
      withinLikeness root fun role part hpart => ih hpart depth role
    have halike := alike_within hc
    exact step_agree_of_alike (L depth) (L (depth + 1)) rfl halike halike
      (nested_agree_of_depth_eq (halike.fault _)) role

/-- The fault of a text that is no program lies at its first error; a tree that does not say where
its errors are has it at its root. -/
theorem syntaxFault_liesIn (source : Source) (root : Cst) :
    (syntaxFault source root).LiesIn root := by
  cases hfound : root.firstError? with
  | none =>
    rw [syntaxFault, hfound]
    exact Cst.Holds.self.fault _
  | some c =>
    obtain ⟨cause, hfault, -⟩ := syntaxFault_of_firstError? source hfound
    rw [hfault]
    exact (Cst.holds_of_firstError? hfound).1.fault cause

theorem program_fault {source : Source} {root : Cst} {fault : Fault}
    (h : program source root = .error fault) : fault.LiesIn root := by
  rw [program_eq] at h
  split at h
  · cases h
    exact syntaxFault_liesIn source root
  · let L : Likeness ⟨source, visit source root.height 0⟩ ⟨source, visit source root.height 0⟩ :=
      withinLikeness root fun _ _ hc => visit_within source hc root.height 0 _
    have hblock := L.block_agree (alike_within .self)
    exact (hblock.bindEq fun body => Agree.pure (R := Eq) rfl).fault_of_within h

end Reading

/-- **Every diagnostic points into the source.** Whatever keeps a text from being read, the
diagnostic names the file as it was given, and a line and a column, counted from one, at which some
node of the concrete syntax tree starts. -/
theorem readModule_error_at_node {names : CharacterName.Lookup} {fileName text : String}
    {root : Cst} {diagnostic : Diagnostic}
    (h : readModule names fileName text root = .error diagnostic) :
    diagnostic.fileName = fileName ∧ ∃ c, root.Holds c ∧
      diagnostic.line = c.info.row + 1 ∧ diagnostic.column = c.info.column + 1 := by
  rw [readModule] at h
  cases hprogram : Reading.program (.ofText names text) root with
  | ok tree =>
    rw [hprogram] at h
    cases h
  | error fault =>
    rw [hprogram] at h
    cases h
    obtain ⟨c, hc, hrow, hcolumn⟩ := Reading.program_fault hprogram
    exact ⟨rfl, c, hc, congrArg (· + 1) hrow, congrArg (· + 1) hcolumn⟩

/-- A statement of an older language, in a branch: `if x:` and, in the next line, `print y`. -/
def Cst.oldPrint : Cst :=
  .sound "module" none true 0 18 0 0 [
    .sound "if_statement" none true 0 17 0 0 [
      .sound "if" none false 0 2 0 0 [],
      .sound "identifier" (some "condition") true 3 4 0 3 [],
      .sound ":" none false 4 5 0 4 [],
      .sound "block" (some "consequence") true 10 17 1 4 [
        .sound "print_statement" none true 10 17 1 4 [
          .sound "print" none false 10 15 1 4 [],
          .sound "identifier" (some "argument") true 16 17 1 10 []]]]]

/-- The statement is pointed to, which lies inside the branch. -/
theorem readModule_oldPrint :
    readModule CharacterName.noNames "test.py" "if x:\n    print y\n" .oldPrint =
      .error ⟨"test.py", 2, 5, .missingParentheses "print"⟩ ∧
    ∃ c, Cst.oldPrint.Holds c ∧ 2 = c.info.row + 1 ∧ 5 = c.info.column + 1 := by
  have herror : readModule CharacterName.noNames "test.py" "if x:\n    print y\n" .oldPrint =
      .error ⟨"test.py", 2, 5, .missingParentheses "print"⟩ := rfl
  exact ⟨herror, (readModule_error_at_node herror).2⟩

end TreeText
