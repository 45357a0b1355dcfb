import TreeText.Reading
import Mathlib.Data.List.Forall2

/-!
# Readings that go the same way

Many facts about reading compare two runs: of trees that differ in their comments, at two depths,
with a counter and without one. All of them need the same argument, that every rule looks at a
construct only in ways in which the two runs agree. This argument is made once, here and in the two
modules beside this one, for any two visitors, which may even read in different monads.

A `Likeness` of two visitors says which parts correspond and how far the two readings may differ.
Nodes are `Alike` if they say the same of themselves, and the children that their constructs take
notice of correspond one by one. Rules are applied to nodes that are alike, and hand on parts that
correspond; the nodes themselves need not correspond, so a likeness can be one of lower nodes only.

`Agree` compares readings: values by a relation, the rest as a `Comparison` says. From these this
module derives that all views of a construct's children, and all steps that hand a part to the
visitor, go the same way; a rule then goes the same way because its steps do (`Agree.bind`).
-/

namespace TreeText

/-! ## The children that a construct takes notice of -/

namespace Cst

/-- Whether a construct of this kind takes no notice of a child: of a comment, and, unless the
construct goes through all its children, of a line continuation. -/
def passesOver (kind : String) (child : Cst) : Bool :=
  child.isNamed && child.field.isNone &&
    (child.kind == "comment" ||
      child.kind == "line_continuation" && kind != "comparison_operator" && kind != "slice")

/-- The children that a construct takes notice of. -/
def seen (c : Cst) : List Cst := c.children.filter fun child => !passesOver c.kind child

/-- Nodes that satisfy `p` are passed over by no construct. -/
def Noticed (p : Cst → Bool) : Prop :=
  ∀ {kind : String} {child : Cst}, p child = true → passesOver kind child = false

theorem noticed_field (name : String) : Noticed fun child => child.field == some name := by
  intro kind child h
  rw [beq_iff_eq] at h
  simp [passesOver, h]

theorem noticed_token (token : String) :
    Noticed fun child => !child.isNamed && child.kind == token := by
  intro kind child h
  rw [Bool.and_eq_true, Bool.not_eq_true'] at h
  simp [passesOver, h.1]

theorem noticed_kind {name : String} (hcomment : name ≠ "comment")
    (hcontinuation : name ≠ "line_continuation") : Noticed fun child => child.kind == name := by
  intro kind child h
  rw [beq_iff_eq] at h
  simp [passesOver, h, hcomment, hcontinuation]

theorem noticed_significant : Noticed fun child => child.isNamed && !child.isTrivia := by
  intro kind child h
  rw [Bool.and_eq_true, Bool.not_eq_true', isTrivia, Bool.or_eq_false_iff] at h
  simp [passesOver, h.2.1, h.2.2]

theorem filter_seen {p : Cst → Bool} (hp : Noticed p) (c : Cst) :
    c.seen.filter p = c.children.filter p := by
  rw [seen, List.filter_filter]
  congr 1
  funext child
  cases h : p child with
  | false => rfl
  | true => rw [hp h]; rfl

theorem significantOf_seen (c : Cst) : significantOf c.seen = c.significant :=
  filter_seen noticed_significant c

/-- Taking out a child that the construct takes notice of leaves the rest as it is seen. -/
theorem eraseP_seen {p : Cst → Bool} (hp : Noticed p) (c : Cst) :
    c.seen.eraseP p = (c.children.eraseP p).filter fun child => !passesOver c.kind child := by
  rw [seen]
  induction c.children with
  | nil => rfl
  | cons child rest ih =>
    cases h : p child with
    | true =>
      rw [List.filter_cons_of_pos (by rw [hp h]; rfl), List.eraseP_cons_of_pos h,
        List.eraseP_cons_of_pos h]
    | false =>
      rw [List.eraseP_cons_of_neg (by simp [h])]
      cases hover : passesOver c.kind child with
      | true =>
        rw [List.filter_cons_of_neg (by simp [hover]), List.filter_cons_of_neg (by simp [hover]),
          ih]
      | false =>
        rw [List.filter_cons_of_pos (by simp [hover]), List.filter_cons_of_pos (by simp [hover]),
          List.eraseP_cons_of_neg (by simp [h]), ih]

theorem significantOf_eraseP_seen {p : Cst → Bool} (hp : Noticed p) (c : Cst) :
    significantOf (c.seen.eraseP p) = significantOf (c.children.eraseP p) := by
  rw [eraseP_seen hp, significantOf, List.filter_filter, significantOf]
  congr 1
  funext child
  cases h : child.isNamed && !child.isTrivia with
  | false => rfl
  | true => rw [noticed_significant h]; rfl

end Cst

/-! ## Readings that agree -/

namespace Reading

/-- How readings in two monads are compared: the values that they come to by any relation, the
faults that end them by `fault`. Readings that agree may be gone on with in the same way. -/
structure Comparison (m n : Type → Type) [Monad m] [MonadExceptOf Fault m] [LawfulReading m]
    [Monad n] [MonadExceptOf Fault n] [LawfulReading n] where
  fault : Fault → Fault → Prop
  Holds {α β : Type} : (α → β → Prop) → m α → n β → Prop
  pure {α β : Type} {R : α → β → Prop} {a : α} {b : β} :
    R a b → Holds R (Pure.pure a) (Pure.pure b)
  throw {α β : Type} {R : α → β → Prop} {e e' : Fault} :
    fault e e' → Holds R (MonadExcept.throw e) (MonadExcept.throw e')
  bind {α β γ δ : Type} {R : α → β → Prop} {S : γ → δ → Prop} {x : m α} {y : n β} {f : α → m γ}
    {g : β → n δ} : Holds R x y → (∀ a b, R a b → Holds S (f a) (g b)) → Holds S (x >>= f) (y >>= g)

variable {m n : Type → Type} [Monad m] [MonadExceptOf Fault m] [LawfulReading m] [Monad n]
  [MonadExceptOf Fault n] [LawfulReading n]

/-- Two readings agree by a comparison, if `R` relates their values. -/
def Agree (J : Comparison m n) {α β : Type} (R : α → β → Prop) (x : m α) (y : n β) : Prop :=
  J.Holds R x y

namespace Agree

variable {J : Comparison m n} {α β γ δ : Type} {R : α → β → Prop} {S : γ → δ → Prop}

theorem pure {a : α} {b : β} (h : R a b) : Agree J R (Pure.pure a) (Pure.pure b) :=
  J.pure h

theorem error {e e' : Fault} (h : J.fault e e') :
    Agree J R (throw e : m α) (throw e' : n β) :=
  J.throw h

/-- What is read next may use related values. -/
theorem bind {x : m α} {y : n β} {f : α → m γ} {g : β → n δ} (h : Agree J R x y)
    (hfg : ∀ a b, R a b → Agree J S (f a) (g b)) : Agree J S (x >>= f) (y >>= g) :=
  J.bind h hfg

/-- `bind` where both readings got the same value. -/
theorem bindEq {x : m α} {y : n α} {f : α → m γ} {g : α → n δ} (h : Agree J Eq x y)
    (hfg : ∀ a, Agree J S (f a) (g a)) : Agree J S (x >>= f) (y >>= g) :=
  h.bind fun a _ hab => hab ▸ hfg a

theorem mono {R' : α → β → Prop} {x : m α} {y : n β} (h : Agree J R x y)
    (hR : ∀ a b, R a b → R' a b) : Agree J R' x y := by
  rw [← bind_pure x, ← bind_pure y]
  exact h.bind fun a b hab => .pure (hR a b hab)

theorem mapM {xs : List α} {ys : List β} {f : α → m γ} {g : β → n δ}
    (h : List.Forall₂ R xs ys) (hfg : ∀ a b, R a b → Agree J S (f a) (g b)) :
    Agree J (List.Forall₂ S) (xs.mapM f) (ys.mapM g) := by
  induction h with
  | nil => exact .pure .nil
  | cons hab _ ih =>
    rw [List.mapM_cons, List.mapM_cons]
    refine (hfg _ _ hab).bind fun c d hcd => ?_
    refine ih.bind fun cs ds hcds => ?_
    exact .pure (.cons hcd hcds)

theorem mapMEq {xs : List α} {ys : List β} {f : α → m γ} {g : β → n γ}
    (h : List.Forall₂ R xs ys) (hfg : ∀ a b, R a b → Agree J Eq (f a) (g b)) :
    Agree J Eq (xs.mapM f) (ys.mapM g) :=
  (mapM h hfg).mono fun _ _ h => List.forall₂_eq_eq_eq ▸ h

theorem foldlM {xs : List α} {ys : List β} {f : γ → α → m γ} {g : δ → β → n δ}
    (h : List.Forall₂ R xs ys)
    (hfg : ∀ c d a b, S c d → R a b → Agree J S (f c a) (g d b)) {c : γ} {d : δ}
    (hcd : S c d) : Agree J S (xs.foldlM f c) (ys.foldlM g d) := by
  induction h generalizing c d with
  | nil => exact .pure hcd
  | cons hab _ ih =>
    rw [List.foldlM_cons, List.foldlM_cons]
    exact (hfg _ _ _ _ hcd hab).bind fun _ _ hcd => ih hcd

theorem foldlMEq {xs : List α} {ys : List β} {f : γ → α → m γ} {g : γ → β → n γ}
    (h : List.Forall₂ R xs ys)
    (hfg : ∀ c a b, R a b → Agree J Eq (f c a) (g c b)) (c : γ) :
    Agree J Eq (xs.foldlM f c) (ys.foldlM g c) :=
  foldlM h (fun _ _ a b hcd hab => hcd ▸ hfg _ a b hab) rfl

end Agree

/-! ## Results of readings without a state -/

namespace Comparison

variable (fault : Fault → Fault → Prop) (excused : Fault → Prop) {α β : Type}

/-- Two results agree: values by `R`, faults by `fault`; and whatever the second result is, it
agrees with an excused fault. -/
def ResultsAgree (R : α → β → Prop) : Result α → Result β → Prop
  | .ok a, .ok b => R a b
  | .error e, .error e' => excused e ∨ fault e e'
  | .error e, .ok _ => excused e
  | .ok _, .error _ => False

theorem resultsAgree_bind {γ δ : Type} {R : α → β → Prop} {S : γ → δ → Prop} {x : Result α}
    {y : Result β} {f : α → Result γ} {g : β → Result δ} (h : ResultsAgree fault excused R x y)
    (hfg : ∀ a b, R a b → ResultsAgree fault excused S (f a) (g b)) :
    ResultsAgree fault excused S (x >>= f) (y >>= g) := by
  match x, y, h with
  | .ok a, .ok b, h => exact hfg a b h
  | .error e, .error e', h => exact h
  | .error e, .ok b, h =>
    -- The first reading has stopped for good; the second may still fail, which excuses it too.
    show ResultsAgree fault excused S (.error e) (g b)
    cases g b with
    | error e' => exact .inl h
    | ok d => exact h

/-- The comparison of results in which the faults that are excused stop the first reading alone. -/
def results : Comparison Result Result where
  fault := fault
  Holds := ResultsAgree fault excused
  pure h := h
  throw h := .inr h
  bind := resultsAgree_bind fault excused

/-- The comparison of results by which they agree only if they are the same. -/
abbrev strict : Comparison Result Result := results Eq fun _ => False

end Comparison

namespace Agree

variable {α : Type} {x y : Result α}

/-- Where no fault is excused and faults are the same, agreement is equality. -/
theorem eq_of_strict (h : Agree .strict Eq x y) : x = y := by
  match x, y, h with
  | .ok a, .ok b, h => exact congrArg Except.ok h
  | .error e, .error e', .inr h => exact congrArg Except.error h

theorem of_eq {fault : Fault → Fault → Prop} {excused : Fault → Prop} (h : x = y)
    (hfault : ∀ e, fault e e) : Agree (.results fault excused) Eq x y := by
  subst h
  cases x with
  | ok a => exact rfl
  | error e => exact .inr (hfault e)

end Agree

end Reading

/-! ## Nodes that correspond -/

/-- Two nodes that say the same of themselves, and whose children correspond by `node` as far as
their constructs take notice of them. Of the offsets a text may start at, those in the two sources
correspond by `start`, of those it may stop at by `stop`; faults correspond by `fault`. -/
structure Cst.Alike (node : Cst → Cst → Prop) (start stop : Nat → Nat → Prop)
    (fault : Fault → Fault → Prop) (c d : Cst) : Prop where
  kind : c.kind = d.kind
  field : c.field = d.field
  isNamed : c.isNamed = d.isNamed
  start_start : start c.info.start d.info.start
  start_stop : start c.info.stop d.info.stop
  stop_start : stop c.info.start d.info.start
  stop_stop : stop c.info.stop d.info.stop
  fault : ∀ cause, fault (c.fault cause) (d.fault cause)
  seen : List.Forall₂ node c.seen d.seen

section

variable {m n : Type → Type} [Monad m] [MonadExceptOf Fault m] [LawfulReading m] [Monad n]
  [MonadExceptOf Fault n] [LawfulReading n]

/-- Two visitors whose readings of corresponding nodes agree. The laws of the offsets and the names
are what the rules of literals need, which alone reckon with them. -/
structure Likeness (v : Visitor m) (w : Visitor n) where
  node : Cst → Cst → Prop
  start : Nat → Nat → Prop
  stop : Nat → Nat → Prop
  readings : Reading.Comparison m n
  alike {c d : Cst} : node c d → c.Alike node start stop readings.fault d
  start_succ {a b : Nat} : start a b → start (a + 1) (b + 1)
  start_min {a b a' b' : Nat} : start a b → start a' b' → start (min a a') (min b b')
  slice? {a b a' b' : Nat} : start a b → stop a' b' →
    v.source.slice? a a' = w.source.slice? b b'
  names : v.source.names = w.source.names
  visit {c d : Cst} (role : Reading.Role) : node c d →
    Reading.Agree readings Eq (v.visit role c) (w.visit role d)

/-- Visitors of one text are alike, if their readings of the nodes that correspond agree: offsets
correspond to themselves. -/
def Likeness.ofOneText {source : Source} {f : Reading.Role → Cst → m Tree}
    {g : Reading.Role → Cst → n Tree} (readings : Reading.Comparison m n) (node : Cst → Cst → Prop)
    (alike : ∀ {c d : Cst}, node c d → c.Alike node Eq Eq readings.fault d)
    (visit : ∀ {c d : Cst} (role : Reading.Role), node c d →
      Reading.Agree readings Eq (f role c) (g role d)) :
    Likeness ⟨source, f⟩ ⟨source, g⟩ where
  node := node
  start := Eq
  stop := Eq
  readings := readings
  alike := alike
  start_succ := fun h => by rw [h]
  start_min := fun h h' => by rw [h, h']
  slice? := fun h h' => by rw [h, h']
  names := rfl
  visit := visit

end

namespace Likeness

open Reading (Agree)

variable {m n : Type → Type} [Monad m] [MonadExceptOf Fault m] [LawfulReading m] [Monad n]
  [MonadExceptOf Fault n] [LawfulReading n] {v : Visitor m} {w : Visitor n} (L : Likeness v w)
  {c d : Cst} {cs ds : List Cst}

/-- Nodes that a rule may be applied to: their parts correspond, whether or not they do. -/
abbrev Alike (c d : Cst) : Prop := Cst.Alike L.node L.start L.stop L.readings.fault c d

/-- Readings of the two visitors that agree. -/
abbrev Agree {α β : Type} (R : α → β → Prop) (x : m α) (y : n β) : Prop :=
  Reading.Agree L.readings R x y

theorem kind (h : L.node c d) : c.kind = d.kind := (L.alike h).kind

theorem isNamed (h : L.node c d) : c.isNamed = d.isNamed := (L.alike h).isNamed

theorem isTrivia (h : L.Alike c d) : c.isTrivia = d.isTrivia := by
  rw [Cst.isTrivia, Cst.isTrivia, h.kind]

theorem slice {a b a' b' : Nat} (ha : L.start a b) (ha' : L.stop a' b') :
    v.source.slice a a' = w.source.slice b b' := by
  rw [Source.slice, Source.slice, L.slice? ha ha']

theorem text (h : L.Alike c d) : v.text c = w.text d :=
  L.slice h.start_start h.stop_stop

theorem fault_agree {α β : Type} {R : α → β → Prop} (h : L.Alike c d) (cause : Cause) :
    L.Agree R (throw (c.fault cause) : m α) (throw (d.fault cause) : n β) :=
  .error (h.fault cause)

/-! ## Lists of nodes -/

theorem filter {p : Cst → Bool} (hp : ∀ {a b}, L.Alike a b → p a = p b)
    (h : List.Forall₂ L.node cs ds) : List.Forall₂ L.node (cs.filter p) (ds.filter p) :=
  List.rel_filter (fun _ _ hab => by simp only [hp (L.alike hab)]) h

theorem head? (h : List.Forall₂ L.node cs ds) : Option.Rel L.node cs.head? ds.head? := by
  cases h with
  | nil => exact .none
  | cons hab _ => exact .some hab

theorem find? {p : Cst → Bool} (hp : ∀ {a b}, L.Alike a b → p a = p b)
    (h : List.Forall₂ L.node cs ds) : Option.Rel L.node (cs.find? p) (ds.find? p) := by
  rw [← List.head?_filter, ← List.head?_filter]
  exact L.head? (L.filter hp h)

theorem any {p : Cst → Bool} (hp : ∀ {a b}, L.Alike a b → p a = p b)
    (h : List.Forall₂ L.node cs ds) : cs.any p = ds.any p := by
  induction h with
  | nil => rfl
  | cons hab _ ih => rw [List.any_cons, List.any_cons, hp (L.alike hab), ih]

theorem eraseP {p : Cst → Bool} (hp : ∀ {a b}, L.Alike a b → p a = p b)
    (h : List.Forall₂ L.node cs ds) : List.Forall₂ L.node (cs.eraseP p) (ds.eraseP p) := by
  induction h with
  | nil => exact .nil
  | @cons a b _ _ hab hrest ih =>
    cases hb : p b with
    | true =>
      rw [List.eraseP_cons_of_pos ((hp (L.alike hab)).trans hb), List.eraseP_cons_of_pos hb]
      exact hrest
    | false =>
      have ha : p a = false := (hp (L.alike hab)).trans hb
      rw [List.eraseP_cons_of_neg (by simp [ha]), List.eraseP_cons_of_neg (by simp [hb])]
      exact .cons hab ih

theorem getElem? (h : List.Forall₂ L.node cs ds) (i : Nat) :
    Option.Rel L.node cs[i]? ds[i]? := by
  induction h generalizing i with
  | nil => exact .none
  | cons hab _ ih =>
    cases i with
    | zero => exact .some hab
    | succ i => exact ih i

theorem map {α : Type} {f g : Cst → α} (hfg : ∀ {a b}, L.Alike a b → f a = g b)
    (h : List.Forall₂ L.node cs ds) : cs.map f = ds.map g := by
  induction h with
  | nil => rfl
  | cons hab _ ih => rw [List.map_cons, List.map_cons, hfg (L.alike hab), ih]

theorem map? {α : Type} {f g : Cst → α} (hfg : ∀ {a b}, L.Alike a b → f a = g b)
    {x y : Option Cst} (h : Option.Rel L.node x y) : x.map f = y.map g := by
  cases h with
  | none => rfl
  | some hab => rw [Option.map_some, Option.map_some, hfg (L.alike hab)]

theorem flatMap {f g : Cst → List Cst}
    (hfg : ∀ {a b}, L.Alike a b → List.Forall₂ L.node (f a) (g b))
    (h : List.Forall₂ L.node cs ds) : List.Forall₂ L.node (cs.flatMap f) (ds.flatMap g) := by
  induction h with
  | nil => exact .nil
  | cons hab _ ih =>
    rw [List.flatMap_cons, List.flatMap_cons]
    exact List.rel_append (hfg (L.alike hab)) ih

/-! ## Views of the children -/

theorem isUnder (name : String) {a b : Cst} (h : L.Alike a b) :
    (a.field == some name) = (b.field == some name) := by
  rw [h.field]

theorem isToken (token : String) {a b : Cst} (h : L.Alike a b) :
    (!a.isNamed && a.kind == token) = (!b.isNamed && b.kind == token) := by
  rw [h.isNamed, h.kind]

theorem isOfKind (kind : String) {a b : Cst} (h : L.Alike a b) :
    (a.kind == kind) = (b.kind == kind) := by
  rw [h.kind]

theorem filter_children {p : Cst → Bool} (hp : ∀ {a b}, L.Alike a b → p a = p b)
    (hnoticed : Cst.Noticed p) (h : L.Alike c d) :
    List.Forall₂ L.node (c.children.filter p) (d.children.filter p) := by
  -- What is filtered is seen, so the children may be taken for those that are seen.
  rw [← Cst.filter_seen hnoticed, ← Cst.filter_seen hnoticed]
  exact L.filter hp h.seen

theorem find?_children {p : Cst → Bool} (hp : ∀ {a b}, L.Alike a b → p a = p b)
    (hnoticed : Cst.Noticed p) (h : L.Alike c d) :
    Option.Rel L.node (c.children.find? p) (d.children.find? p) := by
  rw [← List.head?_filter, ← List.head?_filter]
  exact L.head? (L.filter_children hp hnoticed h)

theorem findLast?_children {p : Cst → Bool} (hp : ∀ {a b}, L.Alike a b → p a = p b)
    (hnoticed : Cst.Noticed p) (h : L.Alike c d) :
    Option.Rel L.node (c.children.reverse.find? p) (d.children.reverse.find? p) := by
  rw [← List.head?_filter, ← List.head?_filter, List.filter_reverse, List.filter_reverse]
  exact L.head? (List.rel_reverse (L.filter_children hp hnoticed h))

theorem child? (h : L.Alike c d) (name : String) :
    Option.Rel L.node (c.child? name) (d.child? name) :=
  L.find?_children (L.isUnder name) (Cst.noticed_field name) h

theorem child?_none {name : String} (h : L.Alike c d) (hc : c.child? name = none) :
    d.child? name = none := by
  have hchild := L.child? h name
  rw [hc] at hchild
  cases hd : d.child? name with
  | none => rfl
  | some b => rw [hd] at hchild; cases hchild

theorem child?_some {name : String} {a : Cst} (h : L.Alike c d) (hc : c.child? name = some a) :
    ∃ b, d.child? name = some b ∧ L.node a b := by
  have hchild := L.child? h name
  rw [hc] at hchild
  match hd : d.child? name, hchild with
  | some b, .some hab => exact ⟨b, rfl, hab⟩

theorem childrenUnder (h : L.Alike c d) (name : String) :
    List.Forall₂ L.node (c.childrenUnder name) (d.childrenUnder name) :=
  L.filter_children (L.isUnder name) (Cst.noticed_field name) h

theorem significantOf (h : List.Forall₂ L.node cs ds) :
    List.Forall₂ L.node (Cst.significantOf cs) (Cst.significantOf ds) :=
  L.filter (fun hab => by rw [hab.isNamed, L.isTrivia hab]) h

theorem significant (h : L.Alike c d) : List.Forall₂ L.node c.significant d.significant := by
  rw [← Cst.significantOf_seen, ← Cst.significantOf_seen]
  exact L.significantOf h.seen

theorem significantBeside (h : L.Alike c d) (name : String) :
    List.Forall₂ L.node (c.significantBeside name) (d.significantBeside name) := by
  have herase := L.significantOf (L.eraseP (L.isUnder name) h.seen)
  rwa [Cst.significantOf_eraseP_seen (Cst.noticed_field name),
    Cst.significantOf_eraseP_seen (Cst.noticed_field name)] at herase

theorem hasToken (h : L.Alike c d) (token : String) : c.hasToken token = d.hasToken token := by
  rw [Cst.hasToken, Cst.hasToken, ← List.isSome_find?, ← List.isSome_find?]
  match c.children.find? _, d.children.find? _,
    L.find?_children (L.isToken token) (Cst.noticed_token token) h with
  | _, _, .none => rfl
  | _, _, .some _ => rfl

theorem require_agree (h : L.Alike c d) (name : String) :
    L.Agree L.node (c.require name) (d.require name) := by
  cases hc : c.child? name with
  | none =>
    rw [Cst.require_of_none hc, Cst.require_of_none (L.child?_none h hc), h.kind]
    exact L.fault_agree h _
  | some a =>
    obtain ⟨b, hd, hab⟩ := L.child?_some h hc
    rw [Cst.require_of_some hc, Cst.require_of_some hd]
    exact .pure hab

theorem firstPart_agree (h : L.Alike c d) : L.Agree L.node c.firstPart d.firstPart := by
  rw [Cst.firstPart, Cst.firstPart, h.kind]
  match c.significant, d.significant, L.significant h with
  | _, _, .nil => exact L.fault_agree h _
  | _, _, .cons hpart _ => exact .pure hpart

/-! ## Parts that are read -/

theorem expression_agree (access : Access) (h : L.node c d) :
    L.Agree Eq (v.expression access c) (w.expression access d) :=
  L.visit (.expression access) h

theorem load_agree (h : L.node c d) : L.Agree Eq (v.load c) (w.load d) :=
  L.expression_agree .load h

theorem store_agree (h : L.node c d) : L.Agree Eq (v.store c) (w.store d) :=
  L.expression_agree .store h

theorem typeHint_agree (h : L.node c d) : L.Agree Eq (v.typeHint c) (w.typeHint d) :=
  L.visit .typeHint h

theorem load?_agree {x y : Option Cst} (h : Option.Rel L.node x y) :
    L.Agree Eq (v.load? x) (w.load? y) := by
  cases h with
  | none => exact .pure rfl
  | some h => exact L.load_agree h

theorem typeHint?_agree {x y : Option Cst} (h : Option.Rel L.node x y) :
    L.Agree Eq (v.typeHint? x) (w.typeHint? y) := by
  cases h with
  | none => exact .pure rfl
  | some h => exact L.typeHint_agree h

theorem elements_agree (access : Access) (h : List.Forall₂ L.node cs ds) :
    L.Agree Eq (v.elements access cs) (w.elements access ds) :=
  .mapMEq h fun _ _ => L.expression_agree access

theorem tuple_agree (access : Access) (h : List.Forall₂ L.node cs ds) :
    L.Agree Eq (v.tuple access cs) (w.tuple access ds) :=
  (L.elements_agree access h).bindEq fun _ => .pure rfl

theorem joined_agree (hparent : L.Alike c d) (h : List.Forall₂ L.node cs ds) :
    L.Agree Eq (v.joined c cs) (w.joined d ds) := by
  cases h with
  | nil =>
    rw [Visitor.joined, Visitor.joined, hparent.kind]
    exact L.fault_agree hparent _
  | cons hfirst hrest =>
    cases hrest with
    | nil => exact L.load_agree hfirst
    | cons hsecond hrest => exact L.tuple_agree .load (.cons hfirst (.cons hsecond hrest))

theorem block_agree (h : L.Alike c d) : L.Agree Eq (v.block c) (w.block d) :=
  .mapMEq (L.significant h) fun _ _ => L.visit .statement

theorem elseBody_agree {x y : Option Cst} (h : Option.Rel L.node x y) :
    L.Agree Eq (v.elseBody x) (w.elseBody y) := by
  cases h with
  | none => exact .pure rfl
  | some hclause =>
    refine (L.require_agree (L.alike hclause) "body").bind fun _ _ hbody => ?_
    exact L.block_agree (L.alike hbody)

end Likeness

end TreeText
