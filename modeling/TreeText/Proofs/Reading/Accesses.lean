import TreeText.Proofs.Reading.Conformance
import TreeText.Proofs.Reading.Induction
import TreeText.Proofs.Reading.Trivia

/-!
# The accesses that a tree shows

Names, attributes, subscripts, lists, tuples and starred expressions show their access in a field of
their own. It is put there by the rules, from the access that they are handed; what access is right
can be told from the tree alone, by the way that leads to the node (`Tree.StandsIn`).

A rule puts the right access on the nodes that it builds, since its tree derives by the grammar of
that access (`Conforms.shows`). One thing can go wrong on the way down: a type in the place of a
target is read like any other type, so whatever it shows is `load`. Hence a node never shows another
access than `load` or the one of its place (`showsAtMost_kept`), and it shows the one of its place
if no type stands in the place of a target (`shows_kept`).
-/

namespace TreeText

open Reading (Role)

variable {root : Cst}

/-! ## Targets of a concrete tree -/

/-- A node of a tree is assigned or deleted: it is a target, or an expression that is one has the
same access as this part of it. -/
inductive Cst.TargetIn (root : Cst) (access : Access) : Cst → Prop
  | target {c d : Cst} (hc : root.Holds c) (h : c.HasTarget access d) : TargetIn root access d
  | passed {c d : Cst} (hc : TargetIn root access c) (h : d ∈ c.passedOn) : TargetIn root access d

theorem Cst.TargetIn.holds {access : Access} {c : Cst} (h : root.TargetIn access c) :
    root.Holds c := by
  induction h with
  | target hc h => exact (h.encloses hc).holds
  | passed _ h ih => exact ih.trans (encloses_of_passedOn h).holds

/-- A node that is read as an expression with another access than `load` is a target. -/
def Reading.Role.AimsAt (root : Cst) (role : Role) (c : Cst) : Prop :=
  ∀ access, role = .expression access → access ≠ .load → root.TargetIn access c

theorem Hands.aimsAt {c d : Cst} {role role' : Role} {form : Form} (h : Hands c role form role' d)
    (hc : root.Holds c) (hrole : role.AimsAt root c) : role'.AimsAt root d := by
  rintro access rfl hne
  cases h with
  | load _ => exact absurd rfl hne
  | target hparent h => exact .target (hc.trans hparent) h
  | passed hexpression h => exact .passed (hrole access hexpression hne) h

/-! ## What a node shows -/

/-- The kinds of nodes that show their access. -/
def markedKinds : List String := ["Name", "Attribute", "Subscript", "List", "Tuple", "Starred"]

/-- If a node shows an access, it is `load` or this one. -/
def ShowsAtMost (access : Access) (_kind : String) (fields : List (String × Tree)) : Prop :=
  ∀ marker, fields.lookup "ctx" = some marker →
    marker = Access.load.marker ∨ marker = access.marker

/-- A node of a kind that shows its access shows this one, unless it stands for a construct without
a rule. -/
def Shows (root : Cst) (access : Access) (kind : String) (fields : List (String × Tree)) : Prop :=
  kind ∈ markedKinds →
    fields.lookup "ctx" = some access.marker ∨ fields = [] ∧ kind ∈ root.kinds

theorem Grammar.marker_of_entry (access : Access) : ∀ entry ∈ entries access,
    (∀ field ∈ entry.2, field.1 = "ctx" → field.2 = .node (.marker access)) ∧
      (entry.1 ∈ markedKinds → ("ctx", .node (.marker access)) ∈ entry.2) := by
  cases access <;> decide +kernel

/-- Only the marker of an access derives as one. -/
theorem Derives.eq_marker {given : Form → Tree → Prop} {n : Nat} {access : Access} {tree : Tree}
    (hgiven : ¬ given (.node (.marker access)) tree)
    (h : Derives given n (.node (.marker access)) tree) : tree = access.marker := by
  cases h with
  | given h => exact absurd h hgiven
  | @node n category kind forms fields hkind hforms hnames hfields hparallel =>
    have hforms : forms = [] ∧ access.marker = .leaf kind := by
      cases access <;> cases List.mem_singleton.mp hkind <;> cases hforms <;> exact ⟨rfl, rfl⟩
    obtain ⟨rfl, hmarker⟩ := hforms
    rw [hmarker, List.map_eq_nil_iff.mp hnames.symm]
    rfl

/-- A node that conforms at an access shows this access and no other. -/
theorem Conforms.shows {given : Form → Tree → Prop} {access : Access} {kind : String}
    {fields : List (String × Tree)} (hgiven : ∀ tree, ¬ given (.node (.marker access)) tree)
    (h : Conforms (fun form tree => ∃ n, Derives given n form tree) access kind fields) :
    (∀ marker, fields.lookup "ctx" = some marker → marker = access.marker) ∧
      (kind ∈ markedKinds → fields.lookup "ctx" = some access.marker) := by
  obtain ⟨forms, hforms, hnames, hvalues⟩ := h.values
  obtain ⟨hmarker, hmarked⟩ := Grammar.marker_of_entry access _ (Grammar.mem_entries hforms)
  have hctx : ("ctx", .node (.marker access)) ∈ forms →
      fields.lookup "ctx" = some access.marker := by
    intro hfield
    obtain ⟨value, hlookup, n, hvalue⟩ := hvalues _ hfield
    rw [hlookup, hvalue.eq_marker (hgiven value)]
  refine ⟨fun marker hlookup => ?_, fun hkind => hctx (hmarked hkind)⟩
  have hname := hnames "ctx" (List.mem_map_of_mem (NameTable.mem_of_lookup hlookup))
  obtain ⟨⟨name, form⟩, hfield, rfl⟩ := List.mem_map.mp hname
  obtain rfl := hmarker _ hfield rfl
  rw [hctx hfield] at hlookup
  exact (Option.some.inj hlookup).symm

theorem not_handed_marker {Q : Nat → Role → Cst → Tree → Prop} {depth : Nat} {c : Cst} {role : Role}
    {access : Access} {tree : Tree} : ¬ Handed Q depth c role (.node (.marker access)) tree := by
  rintro ⟨role', d, hands, -⟩
  rcases hands.form_eq with h | ⟨access, -, -, h, -⟩
  · cases role' <;> cases h
  · cases h

/-! ## What all rules keep -/

theorem ShowsAtMost.everywhere_of_load {tree : Tree} (h : tree.Everywhere ShowsAtMost .load)
    (access : Access) : tree.Everywhere ShowsAtMost access := by
  intro access' kind fields hstands marker hlookup
  rcases hstands.from_other .load with hstands | hstands
  · exact h _ _ _ hstands marker hlookup
  · exact .inl ((h _ _ _ hstands marker hlookup).elim id id)

theorem showsAtMost_of_derives {depth : Nat} {c : Cst} {role : Role} {n : Nat} {form : Form}
    {tree : Tree} (h : Derives (Handed (fun _ role _ tree =>
      tree.Everywhere ShowsAtMost role.category.access) depth c role) n form tree) :
    tree.Everywhere ShowsAtMost form.access := by
  refine h.everywhere ?_ fun access kind fields hconforms marker hlookup => ?_
  · rintro form tree ⟨role', d, hands, htree⟩
    rcases hands.form_eq with rfl | ⟨access, -, -, rfl, rfl⟩
    · exact htree
    · exact ShowsAtMost.everywhere_of_load htree access
  · exact .inr ((hconforms.shows fun _ => not_handed_marker).1 marker hlookup)

theorem showsAtMost_kept (root : Cst) :
    Kept root fun _ role _ tree => tree.Everywhere ShowsAtMost role.category.access where
  leaf := fun _ _ _ => .leaf nofun
  rule := fun _ _ _ h => showsAtMost_of_derives h
  ordinary := fun h => h

theorem shows_of_derives (hplain : ∀ access d, root.TargetIn access d → d.kind ≠ "type")
    {depth : Nat} {c : Cst} {role : Role} (hc : root.Holds c) (hrole : role.AimsAt root c) {n : Nat}
    {form : Form} {tree : Tree} (h : Derives (Handed (fun _ role c tree => role.AimsAt root c →
      tree.Everywhere (Shows root) role.category.access) depth c role) n form tree) :
    tree.Everywhere (Shows root) form.access := by
  refine h.everywhere ?_ fun access kind fields hconforms hkind => ?_
  · rintro form tree ⟨role', d, hands, htree⟩
    have htree := htree (hands.aimsAt hc hrole)
    rcases hands.form_eq with rfl | ⟨access, hexpression, htype, rfl, rfl⟩
    · exact htree
    · -- A type is only read where an expression is used.
      by_cases haccess : access = .load
      · subst haccess
        exact htree
      · exact absurd htype (hplain access c (hrole access hexpression haccess))
  · exact .inl ((hconforms.shows fun _ => not_handed_marker).2 hkind)

theorem shows_kept (hplain : ∀ access d, root.TargetIn access d → d.kind ≠ "type") :
    Kept root fun _ role c tree => role.AimsAt root c →
      tree.Everywhere (Shows root) role.category.access where
  leaf := fun hc _ _ _ => .leaf fun _ => .inr ⟨rfl, hc.kind_mem⟩
  rule := fun hc _ _ h hrole => shows_of_derives hplain hc hrole h
  ordinary := by
    intro depth c tree h _
    refine h ?_
    rintro access ⟨⟩ hne
    exact absurd rfl hne

/-- **The accesses that a tree shows are right.** A node shows `load` or the access of its place:
the one of a target, if the way there leads from a target through nothing but lists, tuples and
starred expressions. If no type stands in the place of a target, every node of a kind that shows an
access shows the one of its place. -/
theorem readModule_shows {names : CharacterName.Lookup} {fileName text : String} {root : Cst}
    {tree : Tree}
    (h : readModule names fileName text root = .ok tree) :
    (∀ access kind fields marker, Tree.StandsIn .load tree access (.node kind fields) →
      fields.lookup "ctx" = some marker →
      marker = Access.load.marker ∨ marker = access.marker) ∧
    ((∀ access d, root.TargetIn access d → d.kind ≠ "type") →
      ∀ access kind fields, Tree.StandsIn .load tree access (.node kind fields) →
        kind ∈ ["Name", "Attribute", "Subscript", "List", "Tuple", "Starred"] →
        fields.lookup "ctx" = some access.marker ∨ fields = [] ∧ kind ∈ root.kinds) := by
  constructor
  · intro access kind fields marker hstands
    exact showsAtMost_of_derives ((showsAtMost_kept root).readModule h) _ _ _ hstands marker
  · intro hplain
    have haims : Role.statement.AimsAt root root := nofun
    exact shows_of_derives hplain .self haims ((shows_kept hplain).readModule h)

/-- The concrete syntax tree of `for a, b.c in d: pass`. -/
def Cst.pairLoop : Cst :=
  .sound "module" none true 0 22 0 0 [
    .sound "for_statement" none true 0 21 0 0 [
      .sound "for" none false 0 3 0 0 [],
      .sound "pattern_list" (some "left") true 4 10 0 4 [
        .sound "identifier" none true 4 5 0 4 [],
        .sound "," none false 5 6 0 5 [],
        .sound "attribute" none true 7 10 0 7 [
          .sound "identifier" (some "object") true 7 8 0 7 [],
          .sound "." none false 8 9 0 8 [],
          .sound "identifier" (some "attribute") true 9 10 0 9 []]],
      .sound "in" none false 11 13 0 11 [],
      .sound "identifier" (some "right") true 14 15 0 14 [],
      .sound ":" none false 15 16 0 15 [],
      .sound "block" (some "body") true 17 21 0 17 [
        .sound "pass_statement" none true 17 21 0 17 [.sound "pass" none false 17 21 0 17 []]]]]

/-- The tree of `for a, b.c in d: pass`: the tuple and its items are stored, but `b` is loaded. -/
def Tree.pairLoop : Tree :=
  .record "Module" [
    ("body", .seq [.record "For" [
      ("target", .tuple [
        .name "a" .store,
        .record "Attribute" [
          ("value", .name "b" .load),
          ("attr", .str "c"),
          ("ctx", .leaf "Store")]] .store),
      ("iter", .name "d" .load),
      ("body", .seq [.leaf "Pass"]),
      ("orelse", .seq [])]]),
    ("type_ignores", .seq [])]

theorem shows_pairLoop :
    (∀ access kind fields marker, Tree.StandsIn .load .pairLoop access (.node kind fields) →
      fields.lookup "ctx" = some marker →
      marker = Access.load.marker ∨ marker = access.marker) ∧
    ∀ access kind fields, Tree.StandsIn .load .pairLoop access (.node kind fields) →
      kind ∈ ["Name", "Attribute", "Subscript", "List", "Tuple", "Starred"] →
      fields.lookup "ctx" = some access.marker ∨ fields = [] ∧ kind ∈ Cst.pairLoop.kinds := by
  have hread : readModule CharacterName.noNames "" "for a, b.c in d: pass\n" .pairLoop =
      .ok .pairLoop := rfl
  have hplain : ∀ access d, Cst.pairLoop.TargetIn access d → d.kind ≠ "type" := by
    intro access d hd hkind
    exact absurd (hkind ▸ hd.holds.kind_mem) (by decide)
  exact ⟨(readModule_shows hread).1, (readModule_shows hread).2 hplain⟩

end TreeText
