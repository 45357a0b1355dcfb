import TreeText.Proofs.Reading.Depth
import Mathlib.Logic.Relation

/-!
# Comments and line continuations leave no trace

A concrete syntax tree is `bare` when all nodes that their constructs pass over have been taken
out. What is read depends on the bare tree alone: two trees with the same bare tree are read to
the same tree, or fail with the same fault at the same place (`visit_eq_of_bare_eq`). This is the
likeness of the visitor with itself whose corresponding nodes have the same bare tree.

So a comment may be put in or taken out anywhere, and a line continuation almost anywhere. The
exceptions are comparisons and slices, whose rules go through all children and skip only the
comments: there a line continuation is read as one more operand or bound. That nothing else makes
a difference, and that both of these do, is `readModule_eq_of_edited_iff`.
-/

namespace TreeText

namespace Cst

/-! ## Bare trees -/

mutual

/-- A tree without the nodes that their constructs pass over. -/
def bare : Cst → Cst
  | .node info children => .node info (bareChildren info.kind children)

/-- The children of a construct of this kind, bare, without those that it passes over. -/
def bareChildren (kind : String) : List Cst → List Cst
  | [] => []
  | c :: rest =>
    if passesOver kind c then bareChildren kind rest else bare c :: bareChildren kind rest

end

theorem info_bare (c : Cst) : c.bare.info = c.info := by
  obtain ⟨info, children⟩ := c
  rw [bare]
  rfl

theorem bareChildren_eq (kind : String) (nodes : List Cst) :
    bareChildren kind nodes = (nodes.filter fun child => !passesOver kind child).map bare := by
  induction nodes with
  | nil => rfl
  | cons c rest ih =>
    rw [bareChildren]
    cases hover : passesOver kind c with
    | true => rw [List.filter_cons_of_neg (by simp [hover]), if_pos rfl, ih]
    | false =>
      rw [List.filter_cons_of_pos (by simp [hover]), if_neg Bool.false_ne_true, List.map_cons, ih]

theorem children_bare (c : Cst) : c.bare.children = c.seen.map bare := by
  obtain ⟨info, children⟩ := c
  rw [bare]
  exact bareChildren_eq info.kind children

theorem info_eq_of_bare_eq {c d : Cst} (h : c.bare = d.bare) : c.info = d.info := by
  rw [← info_bare c, h, info_bare]

theorem passesOver_eq_of_info_eq {kind : String} {c d : Cst} (h : c.info = d.info) :
    passesOver kind c = passesOver kind d := by
  simp only [passesOver, isNamed, field, Cst.kind, h]

/-- The same bare tree, and no more than these heights. -/
def SameBare (n m : Nat) (c d : Cst) : Prop :=
  c.bare = d.bare ∧ c.height ≤ n ∧ d.height ≤ m

theorem forall₂_sameBare {n m : Nat} {cs ds : List Cst} (h : cs.map bare = ds.map bare)
    (hn : ∀ c ∈ cs, c.height ≤ n) (hm : ∀ d ∈ ds, d.height ≤ m) :
    List.Forall₂ (SameBare n m) cs ds := by
  induction cs generalizing ds with
  | nil =>
    obtain _ | ⟨d, ds⟩ := ds
    · exact .nil
    · cases h
  | cons c cs ih =>
    obtain _ | ⟨d, ds⟩ := ds
    · cases h
    · rw [List.map_cons, List.map_cons, List.cons.injEq] at h
      rw [List.forall_mem_cons] at hn hm
      exact .cons ⟨h.1, hn.1, hm.1⟩ (ih h.2 hn.2 hm.2)

/-- Nodes with the same bare tree say the same of themselves, and so do those of their children
that are passed over by neither. -/
theorem alike_of_bare_eq {n m : Nat} {c d : Cst} (h : c.bare = d.bare) (hn : c.height ≤ n + 1)
    (hm : d.height ≤ m + 1) : c.Alike (SameBare n m) Eq Eq Eq d := by
  have hinfo := info_eq_of_bare_eq h
  have hseen : c.seen.map bare = d.seen.map bare := by
    rw [← children_bare, h, children_bare]
  have hbelow {c : Cst} {n : Nat} (hn : c.height ≤ n + 1) : ∀ child ∈ c.seen, child.height ≤ n := by
    intro child hmem
    have hlt := height_lt_of_mem (List.mem_filter.mp hmem).1
    omega
  exact {
    kind := congrArg Info.kind hinfo
    field := congrArg Info.field hinfo
    isNamed := congrArg Info.isNamed hinfo
    start_start := congrArg Info.start hinfo
    start_stop := congrArg Info.stop hinfo
    stop_start := congrArg Info.start hinfo
    stop_stop := congrArg Info.stop hinfo
    fault := fun cause => by rw [fault, fault, hinfo]
    seen := forall₂_sameBare hseen (hbelow hn) (hbelow hm) }

end Cst

namespace Reading

/-! ## The bare tree decides -/

/-- A visitor is like itself with other rounds, on nodes that both have rounds enough for. -/
def bareLikeness (source : Source) (depth n m : Nat)
    (visit_eq : ∀ {role c d}, Cst.SameBare n m c d →
      visit source n depth role c = visit source m depth role d) :
    Likeness ⟨source, visit source n depth⟩ ⟨source, visit source m depth⟩ :=
  .ofOneText .strict (Cst.SameBare n m)
    (fun ⟨hbare, hn, hm⟩ => Cst.alike_of_bare_eq hbare (by omega) (by omega))
    (fun _ h => .of_eq (visit_eq h) fun _ => rfl)

theorem visit_eq_of_bare_eq {source : Source} {n m depth : Nat} {role : Role} {c d : Cst}
    (h : c.bare = d.bare) (hn : c.height ≤ n) (hm : d.height ≤ m) :
    visit source n depth role c = visit source m depth role d := by
  induction n generalizing m depth role c d with
  | zero => cases c; rw [Cst.height] at hn; omega
  | succ n ih =>
    obtain _ | m := m
    · cases d; rw [Cst.height] at hm; omega
    · have halike := Cst.alike_of_bare_eq h hn hm
      let L (depth : Nat) := bareLikeness source depth n m fun h => ih h.1 h.2.1 h.2.2
      -- Both have a round left, and what a rule hands on is lower by one than what it reads.
      exact (step_agree_of_alike (L depth) (L (depth + 1)) rfl halike halike
        (nested_agree_of_depth_eq (halike.fault _)) role).eq_of_strict

theorem program_eq_of_bare_eq {source : Source} {root root' : Cst} (h : root.bare = root'.bare)
    (hok : root.info.hasError = false) : program source root = program source root' := by
  have hok' : root'.info.hasError = false := Cst.info_eq_of_bare_eq h ▸ hok
  have halike := Cst.alike_of_bare_eq h (Nat.le_succ root.height) (Nat.le_succ root'.height)
  let L := bareLikeness source 0 root.height root'.height fun h =>
    visit_eq_of_bare_eq h.1 h.2.1 h.2.2
  rw [program_eq, program_eq, hok, hok', (L.block_agree halike).eq_of_strict]
  rfl

end Reading

/-! ## Putting trivia in and taking it out -/

/-- A comment or a line continuation as the grammar puts it in: without children, and under no
field. -/
structure Cst.IsLoose (c : Cst) : Prop where
  isTrivia : c.isTrivia = true
  isNamed : c.isNamed = true
  field : c.field = none
  children : c.children = []

/-- The second tree is the first with one loose node more. Which nodes may be put into which
constructs is `allowed`, of the kind of the construct and the kind of the node. -/
inductive Insertion (allowed : String → String → Prop) : Cst → Cst → Prop
  | here {info : Cst.Info} {before after : List Cst} {c : Cst} (hloose : c.IsLoose)
      (hallowed : allowed info.kind c.kind) :
      Insertion allowed (.node info (before ++ after)) (.node info (before ++ c :: after))
  | within {info : Cst.Info} {before after : List Cst} {c d : Cst} (h : Insertion allowed c d) :
      Insertion allowed (.node info (before ++ c :: after)) (.node info (before ++ d :: after))

/-- Loose nodes have been put in and taken out, any number of them and in any order. -/
def Edited (allowed : String → String → Prop) : Cst → Cst → Prop :=
  Relation.EqvGen (Insertion allowed)

namespace Cst

theorem IsLoose.passesOver {c : Cst} {kind : String} (h : c.IsLoose)
    (hkind : c.kind = "line_continuation" → kind ≠ "comparison_operator" ∧ kind ≠ "slice") :
    passesOver kind c = true := by
  have htrivia := h.isTrivia
  rw [Cst.isTrivia, Bool.or_eq_true, beq_iff_eq, beq_iff_eq] at htrivia
  rcases htrivia with hcomment | hcontinuation
  · simp [Cst.passesOver, h.isNamed, h.field, hcomment]
  · simp [Cst.passesOver, h.isNamed, h.field, hcontinuation, hkind hcontinuation]

theorem bareChildren_append (kind : String) (before after : List Cst) :
    bareChildren kind (before ++ after) = bareChildren kind before ++ bareChildren kind after := by
  simp only [bareChildren_eq, List.filter_append, List.map_append]

theorem bareChildren_of_passesOver {kind : String} {c : Cst} (h : passesOver kind c = true)
    (rest : List Cst) : bareChildren kind (c :: rest) = bareChildren kind rest := by
  rw [bareChildren, if_pos h]

theorem bareChildren_congr {kind : String} {c d : Cst} (h : c.bare = d.bare) (rest : List Cst) :
    bareChildren kind (c :: rest) = bareChildren kind (d :: rest) := by
  rw [bareChildren, bareChildren, passesOver_eq_of_info_eq (info_eq_of_bare_eq h), h]

end Cst

section

variable {allowed : String → String → Prop}
  (hcomparison : ¬ allowed "comparison_operator" "line_continuation")
  (hslice : ¬ allowed "slice" "line_continuation")

include hcomparison hslice

theorem bare_eq_of_insertion {c d : Cst} (h : Insertion allowed c d) : c.bare = d.bare := by
  induction h with
  | @here info before after c hloose hallowed =>
    -- The only nodes that would not be passed over are those that are not allowed.
    have hover : Cst.passesOver info.kind c = true := by
      refine hloose.passesOver fun hkind => ⟨fun hparent => ?_, fun hparent => ?_⟩
      · exact hcomparison (hparent ▸ hkind ▸ hallowed)
      · exact hslice (hparent ▸ hkind ▸ hallowed)
    rw [Cst.bare, Cst.bare, Cst.bareChildren_append, Cst.bareChildren_append,
      Cst.bareChildren_of_passesOver hover]
  | within _ ih =>
    rw [Cst.bare, Cst.bare, Cst.bareChildren_append, Cst.bareChildren_append,
      Cst.bareChildren_congr ih]

theorem bare_eq_of_edited {c d : Cst} (h : Edited allowed c d) : c.bare = d.bare := by
  induction h with
  | rel _ _ h => exact bare_eq_of_insertion hcomparison hslice h
  | refl => rfl
  | symm _ _ _ ih => exact ih.symm
  | trans _ _ _ _ _ ih ih' => exact ih.trans ih'

theorem readModule_eq_of_edited {names : CharacterName.Lookup} {fileName text : String}
    {root root' : Cst}
    (hok : root.info.hasError = false) (h : Edited allowed root root') :
    readModule names fileName text root = readModule names fileName text root' := by
  have hbare := bare_eq_of_edited hcomparison hslice h
  rw [readModule, readModule, Reading.program_eq_of_bare_eq hbare hok]

end

/-! ## Line continuations in comparisons and slices -/

/-- A node of a tree without errors. -/
def Cst.sound (kind : String) (field : Option String) (isNamed : Bool) (start stop row column : Nat)
    (children : List Cst) : Cst :=
  .node ⟨kind, field, isNamed, false, false, false, start, stop, row, column⟩ children

/-- `a < b` with a line continuation after the operator; `between` are the nodes that the grammar
puts there. -/
def continuedComparison (between : List Cst) : Cst :=
  .sound "module" none true 0 8 0 0 [
    .sound "expression_statement" none true 0 7 0 0 [
      .sound "comparison_operator" none true 0 7 0 0 (
        [.sound "identifier" none true 0 1 0 0 [],
          .sound "<" (some "operators") false 2 3 0 2 []] ++
        between ++
        [.sound "identifier" none true 6 7 1 0 []])]]

/-- `x[1:2]` with a line continuation before the colon; `between` are the nodes that the grammar
puts there. -/
def continuedSlice (between : List Cst) : Cst :=
  .sound "module" none true 0 10 0 0 [
    .sound "expression_statement" none true 0 9 0 0 [
      .sound "subscript" none true 0 9 0 0 [
        .sound "identifier" (some "value") true 0 1 0 0 [],
        .sound "[" none false 1 2 0 1 [],
        .sound "slice" (some "subscript") true 2 8 0 2 (
          [.sound "integer" none true 2 3 0 2 []] ++
          between ++
          [.sound ":" none false 6 7 1 0 [], .sound "integer" none true 7 8 1 1 []]),
        .sound "]" none false 8 9 1 2 []]]]

/-- A line continuation. -/
def lineContinuation : Cst := .sound "line_continuation" none true 4 6 0 4 []

theorem isLoose_lineContinuation : lineContinuation.IsLoose := ⟨rfl, rfl, rfl, rfl⟩

theorem insertion_continuedComparison {allowed : String → String → Prop}
    (hallowed : allowed "comparison_operator" "line_continuation") :
    Insertion allowed (continuedComparison []) (continuedComparison [lineContinuation]) := by
  refine @Insertion.within _ _ [] [] _ _ ?_
  refine @Insertion.within _ _ [] [] _ _ ?_
  exact @Insertion.here _ _ [_, _] [_] _ isLoose_lineContinuation hallowed

theorem insertion_continuedSlice {allowed : String → String → Prop}
    (hallowed : allowed "slice" "line_continuation") :
    Insertion allowed (continuedSlice []) (continuedSlice [lineContinuation]) := by
  refine @Insertion.within _ _ [] [] _ _ ?_
  refine @Insertion.within _ _ [] [] _ _ ?_
  refine @Insertion.within _ _ [_, _] [_] _ _ ?_
  exact @Insertion.here _ _ [_] [_, _] _ isLoose_lineContinuation hallowed

open CharacterName (noNames)

theorem readModule_continuedComparison_ne (fileName : String) :
    readModule noNames fileName "a < \\\nb\n" (continuedComparison []) ≠
      readModule noNames fileName "a < \\\nb\n" (continuedComparison [lineContinuation]) := by
  have hplain : readModule noNames fileName "a < \\\nb\n" (continuedComparison []) =
      .ok (.record "Module" [
        ("body", .seq [.record "Expr" [
          ("value", .record "Compare" [
            ("left", .name "a" .load),
            ("ops", .seq [.leaf "Lt"]),
            ("comparators", .seq [.name "b" .load])])]]),
        ("type_ignores", .seq [])]) := rfl
  have hcontinued :
      readModule noNames fileName "a < \\\nb\n" (continuedComparison [lineContinuation]) =
      .ok (.record "Module" [
        ("body", .seq [.record "Expr" [
          ("value", .record "Compare" [
            ("left", .name "a" .load),
            ("ops", .seq [.leaf "Lt"]),
            ("comparators", .seq [.leaf "line_continuation", .name "b" .load])])]]),
        ("type_ignores", .seq [])]) := rfl
  rw [hplain, hcontinued, ne_eq, Except.ok.injEq]
  decide

theorem readModule_continuedSlice_ne (fileName : String) :
    readModule noNames fileName "x[1 \\\n:2]\n" (continuedSlice []) ≠
      readModule noNames fileName "x[1 \\\n:2]\n" (continuedSlice [lineContinuation]) := by
  have hplain : readModule noNames fileName "x[1 \\\n:2]\n" (continuedSlice []) =
      .ok (.record "Module" [
        ("body", .seq [.record "Expr" [
          ("value", .record "Subscript" [
            ("value", .name "x" .load),
            ("slice", .record "Slice" [
              ("lower", .constant (.scalar "int" "1")),
              ("upper", .constant (.scalar "int" "2")),
              ("step", .absent)]),
            ("ctx", .leaf "Load")])]]),
        ("type_ignores", .seq [])]) := rfl
  have hcontinued :
      readModule noNames fileName "x[1 \\\n:2]\n" (continuedSlice [lineContinuation]) =
      .ok (.record "Module" [
        ("body", .seq [.record "Expr" [
          ("value", .record "Subscript" [
            ("value", .name "x" .load),
            ("slice", .record "Slice" [
              ("lower", .leaf "line_continuation"),
              ("upper", .constant (.scalar "int" "2")),
              ("step", .absent)]),
            ("ctx", .leaf "Load")])]]),
        ("type_ignores", .seq [])]) := rfl
  rw [hplain, hcontinued, ne_eq, Except.ok.injEq]
  decide

/-- Which loose nodes may be put in and taken out of any tree without errors, and leave no trace:
all, if no line continuation may be put into a comparison or a slice itself; and otherwise not. -/
theorem readModule_eq_of_edited_iff (allowed : String → String → Prop) :
    (∀ (names : CharacterName.Lookup) (fileName text : String) (root root' : Cst),
      root.info.hasError = false →
      Edited allowed root root' →
      readModule names fileName text root = readModule names fileName text root') ↔
      ¬ allowed "comparison_operator" "line_continuation" ∧
        ¬ allowed "slice" "line_continuation" := by
  constructor
  · intro h
    constructor
    · intro hallowed
      have hedited := Relation.EqvGen.rel _ _ (insertion_continuedComparison hallowed)
      exact readModule_continuedComparison_ne "" (h _ "" _ _ _ rfl hedited)
    · intro hallowed
      have hedited := Relation.EqvGen.rel _ _ (insertion_continuedSlice hallowed)
      exact readModule_continuedSlice_ne "" (h _ "" _ _ _ rfl hedited)
  · rintro ⟨hcomparison, hslice⟩ names fileName text root root' hok hedited
    exact readModule_eq_of_edited hcomparison hslice hok hedited

/-- Not all line continuations leave no trace: in `a < b`, broken after the operator, the line
continuation is read as an operand. -/
theorem not_forall_edited_readModule_eq :
    ¬ ∀ (names : CharacterName.Lookup) (fileName text : String) (root root' : Cst),
      root.info.hasError = false →
      Edited (fun _ _ => True) root root' →
      readModule names fileName text root = readModule names fileName text root' := by
  intro h
  have hedited := Relation.EqvGen.rel _ _
    (@insertion_continuedComparison (fun _ _ => True) trivial)
  exact readModule_continuedComparison_ne "" (h _ "" _ _ _ rfl hedited)

end TreeText
