import TreeText.Proofs.Reading.Induction
import TreeText.Proofs.Reading.Trivia

/-!
# How deep the trees are that reading gives

Statements and expressions count their nesting, and reading refuses what lies deeper than the limit.
How deep a tree can be is measured by its levels, in which chains of operators may grow to the left
for free (`Tree.levels`).

The limit alone does not bound the levels, since three constructs nest without being counted: a
type in a type, a format in a replacement field, and the `elif` clauses of a condition, each of
which is a condition in the branch of the one before it. `Cst.uncounted` says how much of that lies
on a way down in the concrete tree. Every rule puts at most four layers on what it hands on, and one
more for each `elif`; so a level that is counted and one that is not are worth four levels of the
tree each, which gives the bound `readModule_levels_le`. The chains of `elif` clauses show that
there is none without the second part.
-/

namespace TreeText

open Reading (Role nestingLimit)

/-! ## Levels of a tree -/

namespace Tree

mutual

/-- How many nodes the longest way into a tree has, where the step to the left operand of an
operator does not count. -/
def levels : Tree → Nat
  | .absent => 0
  | .str _ => 0
  | .seq items => levelsOfItems items
  | .node kind fields => levelsOfFields kind fields + 1

/-- The levels of the deepest of these trees. -/
def levelsOfItems : List Tree → Nat
  | [] => 0
  | item :: rest => max (levels item) (levelsOfItems rest)

/-- The levels below a node of this kind with these fields. -/
def levelsOfFields (kind : String) : List (String × Tree) → Nat
  | [] => 0
  | (name, value) :: rest =>
    max (levels value - Grammar.freeLayers kind name) (levelsOfFields kind rest)

end

variable {n : Nat}

theorem levels_leaf (kind : String) : (leaf kind).levels = 1 := by
  rw [leaf, levels, levelsOfFields]

theorem levels_seq_le {items : List Tree} :
    (seq items).levels ≤ n ↔ ∀ item ∈ items, item.levels ≤ n := by
  rw [levels]
  induction items with
  | nil => simp [levelsOfItems]
  | cons item rest ih => rw [levelsOfItems, Nat.max_le, ih, List.forall_mem_cons]

theorem levels_node_le {kind : String} {fields : List (String × Tree)} :
    (node kind fields).levels ≤ n + 1 ↔
      ∀ pair ∈ fields, pair.2.levels ≤ n + Grammar.freeLayers kind pair.1 := by
  rw [levels, Nat.add_le_add_iff_right]
  induction fields with
  | nil => simp [levelsOfFields]
  | cons pair rest ih =>
    rw [levelsOfFields, Nat.max_le, ih, List.forall_mem_cons, Nat.sub_le_iff_le_add]

theorem levels_lt_of_mem (name : String) {kind : String} {fields : List (String × Tree)}
    {value : Tree} (hkind : kind ≠ "BinOp") (hnodup : (fields.map (·.1)).Nodup)
    (h : (name, value) ∈ fields) : value.levels < (record kind fields).levels := by
  have hmem := NameTable.mem_of_lookup (NameTable.lookup_ofList_of_mem hnodup h)
  have hlevels : (record kind fields).levels =
      levelsOfFields kind (NameTable.ofList fields) + 1 := by rw [record, levels]
  have hle := levels_node_le.mp (Nat.le_of_eq hlevels) _ hmem
  rw [Grammar.freeLayers, if_neg fun hleft => hkind hleft.1] at hle
  rw [hlevels]
  exact Nat.lt_succ_of_le hle

end Tree

/-- Layers come on top of the levels of the given trees. -/
theorem Derives.levels_le {given : Form → Tree → Prop} {bound : Nat}
    (hgiven : ∀ form tree, given form tree → tree.levels ≤ bound) {n : Nat} {form : Form}
    {tree : Tree} (h : Derives given n form tree) : tree.levels ≤ n + bound := by
  induction h with
  | given h => exact Nat.le_add_left_of_le (hgiven _ _ h)
  | text text | instead text | absent =>
    rw [Tree.levels]
    exact Nat.zero_le _
  | present _ ih | other _ ih => exact ih
  | list _ ih => exact Tree.levels_seq_le.mpr ih
  | @node n category kind forms fields hkind hforms hnames hfields hparallel ih =>
    rw [Nat.add_right_comm]
    refine Tree.levels_node_le.mpr fun field hfield => ?_
    obtain ⟨form, hpair⟩ := (exists_zip_of_mem hnames).2 field (NameTable.mem_of_mem_ofList hfield)
    have hle := ih _ hpair
    dsimp only at hle
    omega

/-! ## Nesting that is not counted -/

namespace Cst

/-- The levels that the construct of a node adds to the nesting without counting them. -/
def ownUncounted (c : Cst) : Nat :=
  c.elifCount + (if (TypeForm.ofKind c.kind).layers = 0 then 0 else 1) +
    (if c.field = some "format_specifier" then 1 else 0)

mutual

/-- How many levels on a way down from a node are not counted. -/
def uncounted : Cst → Nat
  | .node info children => ownUncounted (.node info children) + uncountedOfAll children

/-- The greatest number of uncounted levels below these nodes. -/
def uncountedOfAll : List Cst → Nat
  | [] => 0
  | c :: rest => max (uncounted c) (uncountedOfAll rest)

end

variable {home c d : Cst}

theorem uncounted_le_uncountedOfAll {nodes : List Cst} (h : c ∈ nodes) :
    c.uncounted ≤ uncountedOfAll nodes := by
  induction nodes with
  | nil => cases h
  | cons d rest ih =>
    rw [uncountedOfAll]
    rcases List.mem_cons.mp h with rfl | h
    · exact Nat.le_max_left _ _
    · exact Nat.le_trans (ih h) (Nat.le_max_right _ _)

theorem uncounted_of_mem (h : d ∈ c.children) : c.ownUncounted + d.uncounted ≤ c.uncounted := by
  obtain ⟨info, children⟩ := c
  rw [uncounted]
  exact Nat.add_le_add_left (uncounted_le_uncountedOfAll h) _

theorem Holds.uncounted_le (h : home.Holds c) :
    c = home ∨ home.ownUncounted + c.uncounted ≤ home.uncounted := by
  induction h with
  | self => exact .inl rfl
  | child _ hd ih =>
    have hle := uncounted_of_mem hd
    rcases ih with rfl | ih
    · exact .inr hle
    · exact .inr (by omega)

theorem Encloses.uncounted_le (h : home.Encloses d) :
    home.ownUncounted + d.uncounted ≤ home.uncounted := by
  obtain ⟨c, hc, hd⟩ := h
  have hle := uncounted_of_mem hd
  rcases hc.uncounted_le with rfl | hc
  · exact hle
  · omega

end Cst

/-! ## The bound -/

/-- The layers of a rule are worth one level, counted or not; those of further conditions are worth
one uncounted level each. -/
theorem Reading.Role.layers_le {role : Role} {c : Cst} {depth : Nat} (hsuits : role.Suits c)
    (hdepth : role.inside depth ≤ nestingLimit) :
    role.layers c + 4 * (nestingLimit - role.inside depth) ≤
      4 * (nestingLimit - depth) + 4 * c.ownUncounted := by
  cases role with
  | statement =>
    rw [layers, inside, Cst.ownUncounted]
    rw [inside] at hdepth
    omega
  | expression access =>
    rw [layers, inside]
    rw [inside] at hdepth
    omega
  | typeHint =>
    rw [layers, inside, Cst.ownUncounted]
    have hlayers : (TypeForm.ofKind c.kind).layers ≤ 4 := by
      cases TypeForm.ofKind c.kind <;> decide
    split <;> omega
  | formatSpec marks =>
    have hfield : c.field = some "format_specifier" := hsuits
    rw [layers, inside, Cst.ownUncounted, if_pos hfield]
    omega

/-- What a node at a depth is read as has at most four levels for each level of nesting that is left
to it, and for each that is not counted. -/
theorem levels_le_of_derives {depth : Nat} {role : Role} {c : Cst} {n : Nat} {form : Form}
    {tree : Tree} (h : Derives (Handed (fun depth _ c tree =>
      tree.levels ≤ 4 * (nestingLimit - depth) + 4 * c.uncounted) depth c role) n form tree) :
    tree.levels ≤ n + (4 * (nestingLimit - depth) + 4 * (c.uncounted - c.ownUncounted)) := by
  refine h.levels_le ?_
  rintro form tree ⟨role', d, hands, hle⟩
  have hd := hands.encloses.uncounted_le
  omega

theorem levels_kept (root : Cst) : Kept root fun depth _ c tree =>
    tree.levels ≤ 4 * (nestingLimit - depth) + 4 * c.uncounted where
  leaf := by
    intro depth role c _ hdepth _
    rw [Tree.levels_leaf]
    omega
  rule := by
    intro depth role c tree _ hsuits hdepth h
    have hlevels := levels_le_of_derives h
    have hlayers := Role.layers_le hsuits hdepth
    have hown : c.ownUncounted ≤ c.uncounted := by
      obtain ⟨info, children⟩ := c
      rw [Cst.uncounted]
      exact Nat.le_add_right _ _
    omega
  ordinary := fun h => h

/-- **The nesting limit bounds the levels of a tree**, up to the nesting that is not counted. -/
theorem readModule_levels_le {names : CharacterName.Lookup} {fileName text : String} {root : Cst}
    {tree : Tree}
    (h : readModule names fileName text root = .ok tree) :
    tree.levels ≤ 4 * nestingLimit + 1 + 4 * root.uncounted := by
  have hlevels := levels_le_of_derives ((levels_kept root).readModule h)
  omega

/-! ## Chains of conditions -/

namespace Cst

/-- The test of a condition. -/
def chainTest : Cst := .sound "identifier" (some "condition") true 0 0 0 0 []

/-- The one statement of a branch. -/
def chainStatement : Cst := .sound "pass_statement" none true 0 0 0 0 []

/-- A branch. -/
def chainBranch : Cst := .sound "block" (some "consequence") true 0 0 0 0 [chainStatement]

/-- A further condition. -/
def chainClause : Cst :=
  .sound "elif_clause" (some "alternative") true 0 0 0 0 [chainTest, chainBranch]

/-- A condition with so many further conditions. -/
def chainCondition (n : Nat) : Cst :=
  .sound "if_statement" none true 0 0 0 0
    (chainTest :: chainBranch :: List.replicate n chainClause)

/-- A text with a condition that has so many further conditions. -/
def elifChain (n : Nat) : Cst := .sound "module" none true 0 0 0 0 [chainCondition n]

end Cst

namespace Tree

/-- A condition with another branch. -/
def chainCondition (orelse : List Tree) : Tree :=
  .record "If" [
    ("test", .name "" .load),
    ("body", .seq [.leaf "Pass"]),
    ("orelse", .seq orelse)]

/-- So many conditions in one another, each in the other branch of the one around it. -/
def elifBranch : Nat → List Tree
  | 0 => []
  | n + 1 => [chainCondition (elifBranch n)]

/-- A module with such a branch. -/
def elifChain (n : Nat) : Tree :=
  .record "Module" [("body", .seq (elifBranch (n + 1))), ("type_ignores", .seq [])]

theorem le_levels_elifBranch (n : Nat) : n ≤ (seq (elifBranch n)).levels := by
  induction n with
  | zero => exact Nat.zero_le _
  | succ n ih =>
    have horelse : (seq (elifBranch n)).levels < (chainCondition (elifBranch n)).levels :=
      levels_lt_of_mem "orelse" (by decide) (by simp) (by simp)
    have hcondition := levels_seq_le.mp (Nat.le_refl (seq (elifBranch (n + 1))).levels) _
      List.mem_cons_self
    exact Nat.lt_of_le_of_lt ih (Nat.lt_of_lt_of_le horelse hcondition)

theorem lt_levels_elifChain (n : Nat) : n < (elifChain n).levels := by
  have hbody : (seq (elifBranch (n + 1))).levels < (elifChain n).levels :=
    levels_lt_of_mem "body" (by decide) (by simp) (by simp)
  exact Nat.lt_of_le_of_lt (Nat.le_of_succ_le (le_levels_elifBranch (n + 1))) hbody

end Tree

namespace Visitor

variable {v : Visitor Reading.Result} (htest : v.load .chainTest = .ok (.name "" .load))
  (hstatement : v.statement .chainStatement = .ok (.leaf "Pass"))

include hstatement in
theorem block_chainBranch : v.block .chainBranch = .ok [.leaf "Pass"] := by
  show [Cst.chainStatement].mapM v.statement = _
  rw [List.mapM_cons, hstatement]
  rfl

include htest hstatement

theorem alternatives_chain (n : Nat) :
    v.alternatives (List.replicate n .chainClause) = .ok (Tree.elifBranch n) := by
  induction n with
  | zero => rfl
  | succ n ih =>
    have hkind : Cst.chainClause.kind = "elif_clause" := rfl
    rw [List.replicate_succ, alternatives, if_pos hkind]
    show (do
      let test ← v.load .chainTest
      let body ← v.block .chainBranch
      let orelse ← v.alternatives (List.replicate n .chainClause)
      return [Tree.record "If" [("test", test), ("body", .seq body), ("orelse", .seq orelse)]]) = _
    rw [htest, block_chainBranch hstatement, ih]
    rfl

theorem statementForm_chain (n : Nat) :
    v.statementForm (.chainCondition n) = .ok (.chainCondition (Tree.elifBranch n)) := by
  have hclauses : (Cst.chainCondition n).childrenUnder "alternative" =
      List.replicate n .chainClause := by
    show (List.replicate n Cst.chainClause).filter _ = _
    rw [List.filter_replicate_of_pos rfl]
  show (do
    let test ← v.load .chainTest
    let body ← v.block .chainBranch
    let orelse ← v.alternatives ((Cst.chainCondition n).childrenUnder "alternative")
    return Tree.record "If" [("test", test), ("body", .seq body), ("orelse", .seq orelse)]) = _
  rw [htest, block_chainBranch hstatement, hclauses, alternatives_chain htest hstatement]
  rfl

end Visitor

theorem readModule_elifChain (names : CharacterName.Lookup) (n : Nat) :
    readModule names "" "" (.elifChain n) = .ok (.elifChain n) := by
  obtain ⟨k, hk⟩ : ∃ k, (Cst.elifChain n).height = k + 2 := by
    have hroot : (Cst.chainCondition n).height < (Cst.elifChain n).height :=
      Cst.height_lt_of_mem List.mem_cons_self
    have hcondition : Cst.chainTest.height < (Cst.chainCondition n).height :=
      Cst.height_lt_of_mem List.mem_cons_self
    exact ⟨(Cst.elifChain n).height - 2, by omega⟩
  have hstatement :
      Reading.visit (.ofText names "") (k + 2) 0 .statement (.chainCondition n) = .ok _ :=
    @Visitor.statementForm_chain ⟨.ofText names "", Reading.visit (.ofText names "") (k + 1) 1⟩
      rfl rfl n
  have hblock : Visitor.block ⟨.ofText names "", Reading.visit (.ofText names "") (k + 2) 0⟩
      (.elifChain n) = .ok (Tree.elifBranch (n + 1)) := by
    show [Cst.chainCondition n].mapM (Reading.visit (.ofText names "") (k + 2) 0 .statement) = _
    rw [List.mapM_cons, hstatement]
    rfl
  have hprogram : Reading.program (.ofText names "") (.elifChain n) =
      (do
        let body ← Visitor.block
          ⟨.ofText names "", Reading.visit (.ofText names "") (Cst.elifChain n).height 0⟩
          (.elifChain n)
        return Tree.record "Module" [("body", .seq body), ("type_ignores", .seq [])]) :=
    Reading.program_eq _ _
  rw [readModule, hprogram, hk, hblock]
  rfl

theorem levels_elifChain_le :
    (Tree.elifChain 2).levels ≤ 4 * nestingLimit + 1 + 4 * (Cst.elifChain 2).uncounted :=
  readModule_levels_le (readModule_elifChain CharacterName.noNames 2)

/-- The limit alone does not bound the levels of the trees that reading gives. -/
theorem not_exists_readModule_levels_le :
    ¬ ∃ bound, ∀ (names : CharacterName.Lookup) (fileName text : String) (root : Cst) (tree : Tree),
      readModule names fileName text root = .ok tree → tree.levels ≤ bound := by
  rintro ⟨bound, h⟩
  have hle := h _ _ _ _ _ (readModule_elifChain CharacterName.noNames bound)
  exact Nat.not_lt_of_le hle (Tree.lt_levels_elifChain bound)

end TreeText
