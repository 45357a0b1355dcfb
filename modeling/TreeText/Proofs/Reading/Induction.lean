import TreeText.Proofs.Reading.Building.Statement
import TreeText.Proofs.Reading.Depth

/-!
# Induction over readings

A rule hands some of the nodes below its own on, each in a role (`Hands`), and what it puts together
derives from what it gets back. So a property of readings holds of every tree that is read if it
holds of the leaves that stand for constructs without a rule, and if it carries over from what is
handed on to what derives from it (`Kept`). `Kept.visit` is the induction on the rounds of reading,
and `Kept.program` its form for whole texts.

A property may speak of the depth too: where a statement or an expression is read, its parts are one
level further down, and no part is below the limit. Types and formats stay on the level of the
construct around them, which is why their rules are told apart here.
-/

namespace TreeText

open Reading (Result Role Yields nestingLimit)

/-! ## Roles -/

/-- How many layers the rule of a type puts on the types in it. -/
def TypeForm.layers : TypeForm → Nat
  | .wrapped => 0
  | .generic => 4
  | .union => 4
  | .member => 4
  | .splat => 4
  | .ordinary => 0

namespace Reading.Role

/-- The category of the node that is read in a role. -/
def category : Role → Category
  | .statement => .statement
  | .expression access => .expression access
  | .typeHint => .expression .load
  | .formatSpec _ => .expression .load

/-- The level of the parts of a node that stands on a level in a role. -/
def inside (depth : Nat) : Role → Nat
  | .statement => depth + 1
  | .expression _ => depth + 1
  | .typeHint => depth
  | .formatSpec _ => depth

/-- How many layers a rule puts on what it hands on. -/
def layers : Role → Cst → Nat
  | .statement, c => c.elifCount + 4
  | .expression _, _ => 4
  | .typeHint, c => (TypeForm.ofKind c.kind).layers
  | .formatSpec _, _ => 4

/-- Only a node under a certain field is read as a format. -/
def Suits : Role → Cst → Prop
  | .formatSpec _, c => c.field = some "format_specifier"
  | _, _ => True

end Reading.Role

/-- A node that is read in a role hands another one on in a role, for a place of a form. -/
inductive Hands (c : Cst) (role : Role) : Form → Role → Cst → Prop
  | statement {d : Cst} (h : c.Encloses d) : Hands c role (.node .statement) .statement d
  | load {d : Cst} (h : c.Encloses d) : Hands c role .load (.expression .load) d
  | target {parent d : Cst} {access : Access} (hparent : c.Holds parent)
    (h : parent.HasTarget access d) :
    Hands c role (.node (.expression access)) (.expression access) d
  | typeHint {d : Cst} (h : c.Encloses d) : Hands c role .load .typeHint d
  | format {d : Cst} (marks : Marks) (h : c.Encloses d)
    (hfield : d.field = some "format_specifier") : Hands c role .load (.formatSpec marks) d
  | passed {d : Cst} {access : Access} (hrole : role = .expression access) (h : d ∈ c.passedOn) :
    Hands c role (.node (.expression access)) (.expression access) d
  /-- A type in the place of an expression with any access is read like any other type. -/
  | typed {d : Cst} {access : Access} (hrole : role = .expression access) (hkind : c.kind = "type")
    (h : c.Encloses d) : Hands c role (.node (.expression access)) .typeHint d

theorem Cst.HasTarget.encloses {home parent d : Cst} {access : Access}
    (h : parent.HasTarget access d) (hparent : home.Holds parent) : home.Encloses d := by
  cases h with
  | field _ h => exact hparent.child? h
  | pattern _ hvalue _ h => exact (hparent.child? hvalue).holds.child? h
  | deleted _ htarget h =>
    have hfirst := hparent.first htarget
    unfold Visitor.deletedNodes at h
    split at h
    · exact hfirst.holds.significant h
    · obtain rfl := List.mem_singleton.mp h
      exact hfirst

theorem Cst.encloses_of_passedOn {c d : Cst} (h : d ∈ c.passedOn) : c.Encloses d := by
  have hself : c.Holds c := .self
  have hsignificant : d ∈ c.significant := by
    unfold Cst.passedOn at h
    split at h
    · exact List.mem_of_mem_take h
    · exact List.mem_of_mem_take h
    · exact List.mem_of_mem_take h
    · exact h
    · exact h
    · cases h
  exact hself.significant hsignificant

namespace Hands

variable {c d : Cst} {role role' : Role} {form : Form}

theorem encloses (h : Hands c role form role' d) : c.Encloses d := by
  cases h with
  | statement h | load h | typeHint h | format _ h | typed _ _ h => exact h
  | target hparent h => exact h.encloses hparent
  | passed _ h => exact Cst.encloses_of_passedOn h

theorem suits (h : Hands c role form role' d) : role'.Suits d := by
  cases h with
  | format _ _ hfield => exact hfield
  | _ => trivial

/-- What is handed on is of the category that the place asks for, except that a type may stand in
the place of an expression with any access. -/
theorem form_eq (h : Hands c role form role' d) :
    form = .node role'.category ∨
      ∃ access, role = .expression access ∧ c.kind = "type" ∧
        form = .node (.expression access) ∧ role' = .typeHint := by
  cases h with
  | typed hrole hkind _ => exact .inr ⟨_, hrole, hkind, rfl, rfl⟩
  | _ => exact .inl rfl

end Hands

/-- What a node may be put together from: readings with a property, of nodes that it hands on. -/
def Handed (Q : Nat → Role → Cst → Tree → Prop) (depth : Nat) (c : Cst) (role : Role)
    (form : Form) (tree : Tree) : Prop :=
  ∃ role' d, Hands c role form role' d ∧ Q depth role' d tree

/-- A property of readings, by their level, role, node and tree, that all rules keep. -/
structure Kept (root : Cst) (Q : Nat → Role → Cst → Tree → Prop) : Prop where
  /-- It holds of the leaf that stands for a construct without a rule. -/
  leaf {depth : Nat} {role : Role} {c : Cst} (hc : root.Holds c) (hdepth : depth < nestingLimit)
    (hkind : role.category.Unruled c.kind) : Q depth role c (.leaf c.kind)
  /-- It carries over to what a rule puts together. -/
  rule {depth : Nat} {role : Role} {c : Cst} {tree : Tree} (hc : root.Holds c)
    (hsuits : role.Suits c) (hdepth : role.inside depth ≤ nestingLimit)
    (h : Derives (Handed Q (role.inside depth) c role) (role.layers c) (.node role.category) tree) :
    Q depth role c tree
  /-- A type without a construct of its own is an expression. -/
  ordinary {depth : Nat} {c : Cst} {tree : Tree} (h : Q depth (.expression .load) c tree) :
    Q depth .typeHint c tree

/-! ## The induction -/

namespace Supply

variable {v : Visitor Reading.Result} {home : Cst} {given : Form → Tree → Prop}
  (S : Supply v home given)

include S

/-- A type with a construct of its own derives from its parts. -/
theorem typeForm_derives {ordinary : Cst → Result Tree}
    (hkind : TypeForm.ofKind home.kind ≠ .ordinary) :
    Yields (Derives given (TypeForm.ofKind home.kind).layers .load) (v.typeForm ordinary home) := by
  have hself : home.Holds home := .self
  unfold Visitor.typeForm
  cases hform : TypeForm.ofKind home.kind with
  | wrapped =>
    refine home.firstPart_yields.bind fun part hpart => ?_
    exact (S.typeHint (hself.first hpart)).mono fun _ => .given
  | generic => exact S.genericType_derives hself
  | union => exact S.unionType_derives hself
  | member => exact S.memberType_derives hself
  | splat => exact S.splatType_derives hself
  | ordinary => exact absurd hform hkind

end Supply

theorem Reading.nested_eq_ok {depth : Nat} {c : Cst} {read : Nat → Result Tree} {tree : Tree}
    (h : nested depth c read = .ok tree) :
    depth < nestingLimit ∧ read (depth + 1) = .ok tree := by
  unfold nested at h
  split at h
  · next hdepth => exact ⟨hdepth, h⟩
  · cases h

namespace Kept

variable {root : Cst} {Q : Nat → Role → Cst → Tree → Prop} {source : Source}

/-- The readings of one round supply the rules of the next with what they hand on. -/
theorem supply {inner : Nat → Role → Cst → Result Tree} {depth : Nat} {role : Role} {c : Cst}
    (hinner : ∀ {role' : Role} {d : Cst} {tree : Tree}, root.Holds d → role'.Suits d →
      inner depth role' d = .ok tree → Q depth role' d tree) (hc : root.Holds c) :
    Supply ⟨source, inner depth⟩ c (Handed Q depth c role) := by
  have hgiven : ∀ {form : Form} {role' : Role} {d : Cst}, Hands c role form role' d →
      Yields (Handed Q depth c role form) (inner depth role' d) := fun {_ role' d} hands =>
    .of_forall fun tree htree =>
      ⟨role', d, hands, hinner (hc.trans hands.encloses.holds) hands.suits htree⟩
  exact {
    statement := fun h => hgiven (.statement h)
    load := fun h => hgiven (.load h)
    target := fun hparent h => hgiven (.target hparent h)
    typeHint := fun h => hgiven (.typeHint h)
    format := fun marks h hfield => hgiven (.format marks h hfield) }

theorem of_builds (h : Kept root Q) {depth : Nat} {role : Role} {c : Cst} {tree : Tree}
    (hc : root.Holds c) (hsuits : role.Suits c) (hdepth : depth < nestingLimit)
    (hinside : role.inside depth ≤ nestingLimit)
    (hbuilds : Builds (Handed Q (role.inside depth) c role) (role.layers c) role.category c tree) :
    Q depth role c tree := by
  rcases hbuilds with ⟨hkind, rfl⟩ | hderives
  · exact h.leaf hc hdepth hkind
  · exact h.rule hc hsuits hinside hderives

/-- One round of reading. -/
theorem step (h : Kept root Q) {inner : Nat → Role → Cst → Result Tree}
    (hinner : ∀ {depth : Nat} {role : Role} {c : Cst} {tree : Tree}, root.Holds c → role.Suits c →
      depth ≤ nestingLimit → inner depth role c = .ok tree → Q depth role c tree)
    {depth : Nat} {role : Role} {c : Cst} {tree : Tree} (hc : root.Holds c) (hsuits : role.Suits c)
    (hdepth : depth ≤ nestingLimit) (hread : Reading.step source inner depth role c = .ok tree) :
    Q depth role c tree := by
  have hsupply : ∀ {depth : Nat} {role : Role}, depth ≤ nestingLimit →
      Supply ⟨source, inner depth⟩ c (Handed Q depth c role) := fun hdepth =>
    supply (fun hd hsuits => hinner hd hsuits hdepth) hc
  have hexpression : ∀ {access : Access} {tree : Tree},
      Reading.step source inner depth (.expression access) c = .ok tree →
      Q depth (.expression access) c tree := by
    intro access tree hread
    rw [Reading.step] at hread
    obtain ⟨hlt, hread⟩ := Reading.nested_eq_ok hread
    refine h.of_builds hc trivial hlt hlt ?_
    refine (Supply.expressionForm_derives (hsupply hlt) ?_ ?_).of_eq_ok hread
    · intro d hd
      have hands : Hands c (.expression access) _ (.expression access) d := .passed rfl hd
      exact .of_forall fun tree htree => ⟨_, d, hands,
        hinner (hc.trans hands.encloses.holds) trivial hlt htree⟩
    · intro hkind d hd
      have hands : Hands c (.expression access) _ .typeHint d := .typed rfl hkind hd
      exact .of_forall fun tree htree => ⟨_, d, hands,
        hinner (hc.trans hd.holds) trivial hlt htree⟩
  cases role with
  | statement =>
    rw [Reading.step] at hread
    obtain ⟨hlt, hread⟩ := Reading.nested_eq_ok hread
    have hinside : Supply ⟨source, inner (depth + 1)⟩ c (Handed Q (depth + 1) c .statement) :=
      hsupply hlt
    exact h.of_builds hc trivial hlt hlt (hinside.statementForm_derives.of_eq_ok hread)
  | expression access => exact hexpression hread
  | typeHint =>
    rw [Reading.step] at hread
    by_cases hkind : TypeForm.ofKind c.kind = .ordinary
    · refine h.ordinary (hexpression ?_)
      rw [Visitor.typeForm, hkind] at hread
      rw [Reading.step]
      exact hread
    · exact h.rule hc trivial hdepth (((hsupply hdepth).typeForm_derives hkind).of_eq_ok hread)
  | formatSpec marks =>
    rw [Reading.step] at hread
    exact h.rule hc hsuits hdepth
      (((hsupply hdepth).formatSpec_derives marks .self).of_eq_ok hread)

/-- What all rules keep holds of every node that is read. -/
theorem visit (h : Kept root Q) {rounds depth : Nat} {role : Role} {c : Cst} {tree : Tree}
    (hc : root.Holds c) (hsuits : role.Suits c) (hdepth : depth ≤ nestingLimit)
    (hread : Reading.visit source rounds depth role c = .ok tree) : Q depth role c tree := by
  induction rounds generalizing depth role c tree with
  | zero => cases hread
  | succ rounds ih => exact h.step ih hc hsuits hdepth hread

/-- A whole text is a module of statements of which it holds. -/
theorem program (h : Kept root Q) {tree : Tree} (hread : Reading.program source root = .ok tree) :
    Derives (Handed Q 0 root .statement) 1 (.node .module) tree := by
  rw [Reading.program_eq] at hread
  split at hread
  · cases hread
  · have hsupply : Supply ⟨source, Reading.visit source root.height 0⟩ root
        (Handed Q 0 root .statement) :=
      supply (fun hd hsuits => h.visit hd hsuits (Nat.zero_le _)) .self
    have hmodule := (hsupply.block_yields .self).bind fun body hbody =>
      Yields.pure (P := Derives (Handed Q 0 root .statement) 1 (.node .module))
        (a := .record "Module" [("body", .seq body), ("type_ignores", .seq [])])
        (.record rfl rfl rfl (.cons (.givens hbody)
          (.cons (.givens (List.forall_mem_nil _)) .nil)))
    exact hmodule.of_eq_ok hread

theorem readModule (h : Kept root Q) {names : CharacterName.Lookup} {fileName text : String}
    {tree : Tree}
    (hread : TreeText.readModule names fileName text root = .ok tree) :
    Derives (Handed Q 0 root .statement) 1 (.node .module) tree := by
  unfold TreeText.readModule at hread
  cases hprogram : Reading.program (.ofText names text) root with
  | error fault =>
    rw [hprogram] at hread
    cases hread
  | ok module =>
    rw [hprogram] at hread
    cases hread
    exact h.program hprogram

end Kept

end TreeText
