import TreeText.Proofs.Reading.Conformance
import TreeText.Proofs.Reading.Induction
import TreeText.Proofs.Reading.Trivia

/-!
# Every tree that is read is well sorted

`Fits` looks at one value: whether a node is of the category that is asked for, an absence is
allowed, a list holds only what its items may be. A node is well sorted if its fields are the ones
of its kind and each fits; so a statement stands only among statements, an expression where an
expression is asked for, and the keys of a dictionary go with its values one by one.

The one thing that is no node of the abstract grammar is the leaf for a construct without a rule. It
has the kind of its concrete node and stands in the place of a statement or an expression.

What a rule puts together derives from what it hands on, and fits with it. The induction over
readings then gives the same of every node of a tree that was read: `readModule_wellSorted`.
-/

namespace TreeText

open Reading (Role)

variable {root : Cst}

/-- A value is what a field of this form may hold, as far as its own kind tells. -/
inductive Fits (root : Cst) : Form → Tree → Prop
  | text (text : String) : Fits root .text (.str text)
  | absent {form : Form} : Fits root (.optional form) .absent
  | present {form : Form} {tree : Tree} (h : Fits root form tree) : Fits root (.optional form) tree
  | instead {form : Form} (text : String) : Fits root (.textOr form) (.str text)
  | other {form : Form} {tree : Tree} (h : Fits root form tree) : Fits root (.textOr form) tree
  | list {form : Form} {items : List Tree} (h : ∀ item ∈ items, Fits root form item) :
    Fits root (.list form) (.seq items)
  | node {category : Category} {kind : String} {fields : List (String × Tree)}
    (h : kind ∈ category.kinds) : Fits root (.node category) (.node kind fields)
  /-- The leaf that stands for a construct without a rule. -/
  | unruled {category : Category} {kind : String} (h : category.Unruled kind)
    (hkind : kind ∈ root.kinds) : Fits root (.node category) (.leaf kind)

/-- A node has the fields that the abstract grammar lists for its kind, each holds what fits, and
fields that go together are as long as each other; or it stands for a construct without a rule. -/
inductive WellSorted (root : Cst) (kind : String) (fields : List (String × Tree)) : Prop
  | conforms (access : Access) (h : Conforms (Fits root) access kind fields)
  | unruled (category : Category) (h : category.Unruled kind) (hkind : kind ∈ root.kinds)
    (hfields : fields = [])

namespace Fits

/-- An expression fits whatever its access. -/
theorem expression {access access' : Access} {tree : Tree}
    (h : Fits root (.node (.expression access)) tree) :
    Fits root (.node (.expression access')) tree := by
  cases h with
  | node h => exact .node h
  | unruled h hkind => exact .unruled h hkind

/-- What derives from trees that fit fits. -/
theorem of_derives {given : Form → Tree → Prop}
    (hgiven : ∀ form tree, given form tree → Fits root form tree) {n : Nat} {form : Form}
    {tree : Tree} (h : Derives given n form tree) : Fits root form tree := by
  induction h with
  | given h => exact hgiven _ _ h
  | text text => exact .text text
  | absent => exact .absent
  | present _ ih => exact .present ih
  | instead text => exact .instead text
  | other _ ih => exact .other ih
  | list _ ih => exact .list ih
  | node hkind => exact .node hkind

end Fits

/-- A node is of its category, and it and all nodes in it are well sorted. -/
def Sorted (root : Cst) (category : Category) (tree : Tree) : Prop :=
  Fits root (.node category) tree ∧ tree.Everywhere (fun _ => WellSorted root) category.access

namespace Sorted

theorem expression {access access' : Access} {tree : Tree}
    (h : Sorted root (.expression access) tree) : Sorted root (.expression access') tree := by
  refine ⟨h.1.expression, fun access'' kind fields hstands => ?_⟩
  rcases hstands.from_other access with hstands | hstands
  · exact h.2 _ _ _ hstands
  · exact h.2 _ _ _ hstands

/-- What derives from sorted trees is sorted. -/
theorem of_derives {given : Form → Tree → Prop} (hgiven : ∀ form tree, given form tree →
      ∃ category, form = .node category ∧ Sorted root category tree)
    {n : Nat} {category : Category} {tree : Tree} (h : Derives given n (.node category) tree) :
    Sorted root category tree := by
  have hfits : ∀ form tree, given form tree → Fits root form tree := by
    intro form tree h
    obtain ⟨category, rfl, hsorted⟩ := hgiven form tree h
    exact hsorted.1
  refine ⟨Fits.of_derives hfits h, Derives.everywhere ?_ ?_ h⟩
  · intro form tree h
    obtain ⟨category, rfl, hsorted⟩ := hgiven form tree h
    exact hsorted.2
  · intro access kind fields hconforms
    exact .conforms access (hconforms.mono fun form tree ⟨_, h⟩ => Fits.of_derives hfits h)

theorem of_handed {depth : Nat} {c : Cst} {role : Role} {form : Form} {tree : Tree}
    (h : Handed (fun _ role _ => Sorted root role.category) depth c role form tree) :
    ∃ category, form = .node category ∧ Sorted root category tree := by
  obtain ⟨role', d, hands, hsorted⟩ := h
  rcases hands.form_eq with rfl | ⟨access, -, -, rfl, rfl⟩
  · exact ⟨_, rfl, hsorted⟩
  · exact ⟨_, rfl, hsorted.expression⟩

/-- All rules keep the sorts. -/
theorem kept (root : Cst) : Kept root fun _ role _ => Sorted root role.category where
  leaf := fun hc _ hkind =>
    ⟨.unruled hkind hc.kind_mem, .leaf (.unruled _ hkind hc.kind_mem rfl)⟩
  rule := fun _ _ _ h => of_derives (fun _ _ => of_handed) h
  ordinary := fun h => h

theorem readModule {names : CharacterName.Lookup} {fileName text : String} {tree : Tree}
    (h : TreeText.readModule names fileName text root = .ok tree) : Sorted root .module tree :=
  of_derives (fun _ _ => of_handed) ((kept root).readModule h)

end Sorted

/-- A tree that was read is a module, and every node in it is well sorted. -/
theorem readModule_wellSorted {names : CharacterName.Lookup} {fileName text : String} {root : Cst}
    {tree : Tree}
    (h : readModule names fileName text root = .ok tree) :
    tree.kind? = some "Module" ∧ ∀ access kind fields,
      Tree.StandsIn .load tree access (.node kind fields) → WellSorted root kind fields := by
  obtain ⟨hmodule, hnodes⟩ := Sorted.readModule h
  refine ⟨?_, hnodes⟩
  cases hmodule with
  | node hkind => rw [Tree.kind?, List.mem_singleton.mp hkind]
  | unruled hkind => exact hkind.elim

/-- The concrete syntax tree of `{**a, b: c}`. -/
def Cst.mergedDictionary : Cst :=
  .sound "module" none true 0 12 0 0 [
    .sound "expression_statement" none true 0 11 0 0 [
      .sound "dictionary" none true 0 11 0 0 [
        .sound "\x7b" none false 0 1 0 0 [],
        .sound "dictionary_splat" none true 1 4 0 1 [
          .sound "**" none false 1 3 0 1 [],
          .sound "identifier" none true 3 4 0 3 []],
        .sound "," none false 4 5 0 4 [],
        .sound "pair" none true 6 10 0 6 [
          .sound "identifier" (some "key") true 6 7 0 6 [],
          .sound ":" none false 7 8 0 7 [],
          .sound "identifier" (some "value") true 9 10 0 9 []],
        .sound "\x7d" none false 10 11 0 10 []]]]

/-- The tree of `{**a, b: c}`: what is merged in has no key. -/
def Tree.mergedDictionary : Tree :=
  .record "Module" [
    ("body", .seq [.record "Expr" [
      ("value", .record "Dict" [
        ("keys", .seq [.absent, .name "b" .load]),
        ("values", .seq [.name "a" .load, .name "c" .load])])]]),
    ("type_ignores", .seq [])]

theorem readModule_mergedDictionary :
    readModule CharacterName.noNames "" "\x7b**a, b: c\x7d\n" .mergedDictionary =
      .ok .mergedDictionary := rfl

theorem wellSorted_mergedDictionary :
    Tree.mergedDictionary.kind? = some "Module" ∧ ∀ access kind fields,
      Tree.StandsIn .load .mergedDictionary access (.node kind fields) →
      WellSorted .mergedDictionary kind fields :=
  readModule_wellSorted readModule_mergedDictionary

end TreeText
