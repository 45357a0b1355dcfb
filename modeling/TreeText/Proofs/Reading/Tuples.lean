import TreeText.Proofs.Reading.Annotation

/-!
# Commas and tuples

A comma makes a tuple: operands with a comma between them or behind them are the elements of one,
and an operand without any comma is meant itself (`Visitor.byComma`). Three constructs have operands
with commas in this way, and each finds out in a way of its own. A statement counts its operands; a
subscript looks for a comma if it has a single one; the loop of a comprehension takes all children
under one field, where commas may hang as well.

So only subscripts keep the law. A statement loses the comma behind a single operand, and a loop
either loses it or takes commas for elements. `runFrom_sameJustIf_byComma` says of each construct
just when it comes to what the law says, and `not_forall_runFrom_eq_byComma` that two of them need
not, though commas stand between all operands.
-/

namespace TreeText

namespace Cst

/-- A comma. -/
def isComma (c : Cst) : Bool := !c.isNamed && c.kind == ","

/-- An assignment, which as the only part of a statement is read as one. -/
def isAssignment (c : Cst) : Bool := c.kind == "assignment" || c.kind == "augmented_assignment"

theorem isComma_of_mem {c d : Cst} (hcomma : c.hasToken "," = false) (hd : d ∈ c.children) :
    d.isComma = false :=
  Bool.not_eq_true _ ▸ List.any_eq_false.mp hcomma d hd

end Cst

/-! ## The law of commas -/

namespace Visitor

variable {m : Type → Type} [Monad m] [MonadExceptOf Fault m] (v : Visitor m)

/-- Operands, the elements of a tuple if there is a comma. -/
def byComma (comma : Bool) (first : Cst) (rest : List Cst) : m Tree :=
  if comma then v.tuple .load (first :: rest) else v.load first

/-- An expression statement with these operands, by the law. -/
def statementByComma (c first : Cst) (rest : List Cst) : m Tree := do
  let value ← v.byComma (c.hasToken ",") first rest
  return .record "Expr" [("value", value)]

/-- A subscript with these operands in its brackets, by the law. -/
def subscriptByComma (access : Access) (c first : Cst) (rest : List Cst) : m Tree := do
  let index ← v.byComma (c.hasToken ",") first rest
  let value ← v.load (← c.require "value")
  return .record "Subscript"
    [("value", value), ("slice", .index index), ("ctx", access.marker)]

/-- The loops so far and a loop over these operands, by the law. -/
def clauseByComma (loops : List Loop) (c first : Cst) (rest : List Cst) : m (List Loop) := do
  let target ← v.store (← c.require "left")
  let iterable ← v.byComma (c.hasToken ",") first rest
  return ⟨target, iterable, [], c.hasToken "async"⟩ :: loops

/-! ## What the rules go by -/

/-- Expressions that stand alone go by their number. -/
theorem joined_eq_byComma (parent first : Cst) (rest : List Cst) :
    v.joined parent (first :: rest) = v.byComma (!rest.isEmpty) first rest := by
  cases rest with
  | nil => rfl
  | cons second rest => rfl

theorem expressionOrAssignment_eq {c first : Cst} {rest : List Cst}
    (hparts : c.significant = first :: rest) (hplain : rest = [] → first.isAssignment = false) :
    v.expressionOrAssignment c = (do
      return .record "Expr" [("value", ← v.byComma (!rest.isEmpty) first rest)]) := by
  have hstatement : v.expressionStatement c = (do
      return .record "Expr" [("value", ← v.byComma (!rest.isEmpty) first rest)]) := by
    rw [expressionStatement, hparts, joined_eq_byComma]
  rw [expressionOrAssignment, hparts]
  split
  · next single hsingle =>
    obtain ⟨rfl, rfl⟩ := List.cons.inj hsingle
    have hkind := hplain rfl
    rw [Cst.isAssignment, Bool.or_eq_false_iff, beq_eq_false_iff_ne, beq_eq_false_iff_ne] at hkind
    split
    · next hassignment => exact absurd hassignment hkind.1
    · next haugmented => exact absurd haugmented hkind.2
    · exact hstatement
  · exact hstatement

end Visitor

/-! ## The same just if -/

namespace Reading

/-- Two readings come to the same if a condition holds, and otherwise never to the same value. -/
structure SameJustIf {α : Type} (condition : Prop) (x y : Result α) : Prop where
  eq_of : condition → x = y
  of_eq_ok : ∀ a, x = .ok a → y = .ok a → condition

namespace SameJustIf

variable {α β : Type} {condition : Prop} {x y : Result α}

theorem congr {condition' : Prop} (hcondition : condition ↔ condition')
    (h : SameJustIf condition x y) : SameJustIf condition' x y where
  eq_of hholds := h.eq_of (hcondition.mpr hholds)
  of_eq_ok a hx hy := hcondition.mp (h.of_eq_ok a hx hy)

/-- What tells values apart still does so afterwards. -/
theorem bind (h : SameJustIf condition x y) {f : α → Result β}
    (hf : ∀ a b c, f a = .ok c → f b = .ok c → a = b) :
    SameJustIf condition (x >>= f) (y >>= f) where
  eq_of hholds := by rw [h.eq_of hholds]
  of_eq_ok c hx hy := by
    obtain ⟨a, hxa, hfa⟩ := exists_of_bind_eq_ok hx
    obtain ⟨b, hyb, hfb⟩ := exists_of_bind_eq_ok hy
    obtain rfl := hf a b c hfa hfb
    exact h.of_eq_ok a hxa hyb

/-- What is read before makes no difference. -/
theorem after {f g : β → Result α} (z : Result β) (h : ∀ b, SameJustIf condition (f b) (g b)) :
    SameJustIf condition (z >>= f) (z >>= g) where
  eq_of hholds := by
    congr 1
    funext b
    exact (h b).eq_of hholds
  of_eq_ok c hf hg := by
    obtain ⟨b, hb, hfb⟩ := exists_of_bind_eq_ok hf
    obtain ⟨b', hb', hgb⟩ := exists_of_bind_eq_ok hg
    obtain rfl := Except.ok.inj (hb.symm.trans hb')
    exact (h b).of_eq_ok c hfb hgb

/-- Nor does going down a level. -/
theorem nested {depth : Nat} {c : Cst} {f g : Nat → Result Tree}
    (h : SameJustIf condition (f (depth + 1)) (g (depth + 1))) :
    SameJustIf condition (nested depth c f) (nested depth c g) := by
  rw [Reading.nested, Reading.nested]
  split
  · exact h
  · refine ⟨fun _ => rfl, fun tree hread => ?_⟩
    cases hread

end SameJustIf

end Reading

namespace Visitor

open Reading (Result SameJustIf exists_of_bind_eq_ok length_eq_of_mapM_eq_ok subscriptItems_single
  subscriptItems_tuple)

variable {v : Visitor Result} {comma comma' : Bool} {c first : Cst} {rest : List Cst}

theorem exists_of_tuple_eq_ok {nodes : List Cst} {tree : Tree}
    (h : v.tuple .load nodes = .ok tree) :
    ∃ values, nodes.mapM v.load = .ok values ∧ tree = .tuple values .load := by
  obtain ⟨values, hvalues, h⟩ := exists_of_bind_eq_ok h
  exact ⟨values, hvalues, (Except.ok.inj h).symm⟩

/-- An operand is not the tuple that it is the first element of. -/
theorem load_ne_tuple {tree : Tree} (hload : v.load first = .ok tree) :
    v.tuple .load (first :: rest) ≠ .ok tree := by
  intro htuple
  obtain ⟨values, hvalues, rfl⟩ := exists_of_tuple_eq_ok htuple
  rw [List.mapM_cons, hload] at hvalues
  obtain ⟨value, hvalue, hvalues⟩ := exists_of_bind_eq_ok hvalues
  obtain ⟨others, -, hvalues⟩ := exists_of_bind_eq_ok hvalues
  obtain rfl := Except.ok.inj hvalue
  have hcons : Tree.tuple values .load :: others = values := Except.ok.inj hvalues
  have hsubset : ∀ tree ∈ Tree.tuple values .load :: others, tree ∈ values := by
    rw [hcons]
    exact fun _ => id
  exact Tree.ne_tuple_of_mem (hsubset _ List.mem_cons_self) rfl

theorem byComma_sameJustIf :
    SameJustIf (comma = comma') (v.byComma comma first rest) (v.byComma comma' first rest) where
  eq_of h := by rw [h]
  of_eq_ok tree hx hy := by
    match comma, comma' with
    | true, true => rfl
    | false, false => rfl
    | true, false => exact absurd hx (load_ne_tuple hy)
    | false, true => exact absurd hy (load_ne_tuple hx)

/-- Items of a subscript go by commas, and several of them by their number. -/
theorem subscriptItems_eq_byComma (hslice : ∀ d ∈ first :: rest, d.kind ≠ "slice") :
    v.subscriptItems comma (first :: rest) = (do
      return .index (← v.byComma (comma || !rest.isEmpty) first rest)) := by
  have htuple (hmany : (first :: rest).length = 1 → comma = true) :
      v.subscriptItems comma (first :: rest) = (do
        return .index (← v.byComma true first rest)) := by
    rw [subscriptItems_tuple hslice hmany, byComma, if_pos rfl, tuple, bind_assoc]
    simp only [pure_bind]
  cases comma with
  | true => exact htuple fun _ => rfl
  | false =>
    cases rest with
    | nil => exact subscriptItems_single (hslice first List.mem_cons_self)
    | cons second rest => exact htuple fun hone => absurd hone (by simp)

/-! ## The three constructs -/

/-- A statement keeps the law just if it has a comma where it has several operands, and none where
it has one. -/
theorem expressionOrAssignment_sameJustIf (hparts : c.significant = first :: rest)
    (hplain : rest = [] → first.isAssignment = false) :
    SameJustIf (c.hasToken "," = true ↔ rest ≠ []) (v.expressionOrAssignment c)
      (v.statementByComma c first rest) := by
  rw [expressionOrAssignment_eq v hparts hplain, statementByComma]
  refine (byComma_sameJustIf.bind ?_).congr ?_
  · intro value value' tree h h'
    have hrecord := (Except.ok.inj h).trans (Except.ok.inj h').symm
    have hfields := (Tree.record_inj ["value"] rfl rfl (by decide)).mp hrecord
    simpa using hfields
  · cases rest <;> cases c.hasToken "," <;> simp

/-- A subscript keeps the law, unless it has several operands without a comma. -/
theorem subscript_sameJustIf (hitems : c.childrenUnder "subscript" = first :: rest)
    (hslice : ∀ d ∈ first :: rest, d.kind ≠ "slice") (access : Access) :
    SameJustIf (c.hasToken "," = true ∨ rest = []) (v.subscript access c)
      (v.subscriptByComma access c first rest) := by
  rw [subscript, hitems, subscriptItems_eq_byComma hslice, subscriptByComma, bind_assoc]
  simp only [pure_bind]
  refine (byComma_sameJustIf.bind ?_).congr ?_
  · intro value value' tree h h'
    obtain ⟨object, -, h⟩ := exists_of_bind_eq_ok h
    obtain ⟨base, -, h⟩ := exists_of_bind_eq_ok h
    obtain ⟨object', -, h'⟩ := exists_of_bind_eq_ok h'
    obtain ⟨base', -, h'⟩ := exists_of_bind_eq_ok h'
    have hrecord := (Except.ok.inj h).trans (Except.ok.inj h').symm
    have hfields := (Tree.record_inj ["value", "slice", "ctx"] rfl rfl (by decide)).mp hrecord
    simp only [List.cons.injEq, Prod.mk.injEq, true_and, and_true, Tree.index_inj] at hfields
    exact hfields.2
  · cases rest <;> cases c.hasToken "," <;> simp

/-- Commas among the operands make more elements of a tuple than there are operands. -/
theorem joined_ne_byComma {parent : Cst} {items : List Cst} {tree : Tree}
    (hitems : items.filter (fun d => !d.isComma) = first :: rest)
    (hcomma : ∃ d ∈ items, d.isComma = true) (hjoined : v.joined parent items = .ok tree) :
    v.byComma true first rest ≠ .ok tree := by
  intro hlaw
  have hlength : (first :: rest).length < items.length := by
    rw [← hitems, List.length_filter_lt_length_iff_exists]
    simpa using hcomma
  have htuple : v.tuple .load items = .ok tree := by
    match items, hlength, hjoined with
    | _ :: _ :: _, _, hjoined => exact hjoined
    | [_], hlength, _ => exact absurd hlength (by simp)
  obtain ⟨values, hvalues, rfl⟩ := exists_of_tuple_eq_ok htuple
  obtain ⟨values', hvalues', hsame⟩ := exists_of_tuple_eq_ok hlaw
  obtain rfl := Tree.tuple_inj.mp hsame
  have hvaluesLength := length_eq_of_mapM_eq_ok hvalues
  have hvaluesLength' := length_eq_of_mapM_eq_ok hvalues'
  omega

theorem joined_sameJustIf (parent : Cst) {items : List Cst}
    (hitems : items.filter (fun d => !d.isComma) = first :: rest)
    (hcomma : comma = false → ∀ d ∈ items, d.isComma = false) :
    SameJustIf ((comma = true ↔ rest ≠ []) ∧ ∀ d ∈ items, d.isComma = false)
      (v.joined parent items) (v.byComma comma first rest) := by
  by_cases hclean : ∀ d ∈ items, d.isComma = false
  · have hall : items = first :: rest := by
      rw [← hitems, eq_comm, List.filter_eq_self]
      intro d hd
      rw [hclean d hd, Bool.not_false]
    rw [and_iff_left hclean, hall, joined_eq_byComma]
    refine byComma_sameJustIf.congr ?_
    cases rest <;> cases comma <;> simp
  · have hexists : ∃ d ∈ items, d.isComma = true := by simpa using hclean
    obtain rfl : comma = true := by
      by_contra hnot
      exact hclean (hcomma (Bool.not_eq_true _ ▸ hnot))
    exact ⟨fun h => absurd h.2 hclean, fun tree hjoined hlaw =>
      absurd hlaw (joined_ne_byComma hitems hexists hjoined)⟩

/-- A loop keeps the law just if it has a comma where it has several operands, and none where it
has one, and if no comma hangs under the field of the operands. -/
theorem addClause_sameJustIf (hkind : c.kind = "for_in_clause")
    (hitems : (c.childrenUnder "right").filter (fun d => !d.isComma) = first :: rest)
    (loops : List Loop) :
    SameJustIf ((c.hasToken "," = true ↔ rest ≠ []) ∧
        ∀ d ∈ c.childrenUnder "right", d.isComma = false)
      (v.addClause loops c) (v.clauseByComma loops c first rest) := by
  have hcomma (hnone : c.hasToken "," = false) :
      ∀ d ∈ c.childrenUnder "right", d.isComma = false := fun d hd =>
    Cst.isComma_of_mem hnone (List.mem_filter.mp hd).1
  rw [addClause, hkind]
  refine .after _ fun left => .after _ fun target => ?_
  refine (joined_sameJustIf c hitems hcomma).bind fun iterable iterable' loops' h h' => ?_
  have hloops := (Except.ok.inj h).trans (Except.ok.inj h').symm
  cases hloops
  rfl

end Visitor

/-! ## Reading -/

namespace Reading

namespace Counted

variable (source : Source) (depth : Nat) {c first : Cst} {rest : List Cst}

/-- Statements that stand alone, subscripts and loops of comprehensions make a tuple of their
operands as the law of commas says, under just these conditions. -/
theorem runFrom_sameJustIf_byComma :
    (c.kind = "expression_statement" → c.significant = first :: rest →
      (rest = [] → first.isAssignment = false) →
      SameJustIf (c.hasToken "," = true ↔ rest ≠ [])
        ((Counted.read source .statement c).runFrom depth).1
        (Reading.nested depth c fun depth =>
          (visitorFrom source depth).statementByComma c first rest)) ∧
    (c.kind = "subscript" → c.childrenUnder "subscript" = first :: rest →
      (∀ d ∈ first :: rest, d.kind ≠ "slice") → ∀ access,
      SameJustIf (c.hasToken "," = true ∨ rest = [])
        ((Counted.read source (.expression access) c).runFrom depth).1
        (Reading.nested depth c fun depth =>
          (visitorFrom source depth).subscriptByComma access c first rest)) ∧
    (c.kind = "for_in_clause" →
      (c.childrenUnder "right").filter (fun d => !d.isComma) = first :: rest → ∀ loops,
      SameJustIf ((c.hasToken "," = true ↔ rest ≠ []) ∧
          ∀ d ∈ c.childrenUnder "right", d.isComma = false)
        ((Visitor.addClause ⟨source, Counted.read source⟩ loops c).runFrom depth).1
        ((visitorFrom source depth).clauseByComma loops c first rest)) := by
  refine ⟨?_, ?_, ?_⟩
  · intro hkind hparts hplain
    rw [runFrom_read_eq_step, Reading.step]
    dsimp only
    refine .nested ?_
    rw [Visitor.statementForm, hkind]
    exact Visitor.expressionOrAssignment_sameJustIf hparts hplain
  · intro hkind hitems hslice access
    rw [runFrom_read_eq_step, Reading.step]
    dsimp only
    refine .nested ?_
    rw [Visitor.expressionForm, hkind]
    exact Visitor.subscript_sameJustIf hitems hslice access
  · intro hkind hitems loops
    have hrun := ((handedDown source depth).addClause_agree loops
      (handedDown_alike source depth c)).runFrom_eq
    rw [hrun]
    exact Visitor.addClause_sameJustIf hkind hitems loops

/-- The text of `a, b`. -/
def pairSource : Source := .ofText CharacterName.noNames "a, b"

/-- The statement `a, b`. -/
def pairStatement : Cst :=
  .sound "expression_statement" none true 0 4 0 0 [nameAt 0 1, tokenAt "," 1, nameAt 3 4]

/-- The text of `x[a,]`. -/
def subscriptSource : Source := .ofText CharacterName.noNames "x[a,]"

/-- The subscript `x[a,]`. -/
def singleSubscript : Cst :=
  .sound "subscript" none true 0 5 0 0 [
    (nameAt 0 1).under (some "value"), tokenAt "[" 1, (nameAt 2 3).under (some "subscript"),
    tokenAt "," 3, tokenAt "]" 4]

/-- A comprehension over two elements without parentheses. -/
def loopSource : Source := .ofText CharacterName.noNames "[x for x in a, b]"

/-- The clause `for x in a` of the comprehension, or with `, b` behind it. -/
def clauseOver (second : Bool) : Cst :=
  .sound "for_in_clause" none true 3 16 0 3 (
    [.sound "for" none false 3 6 0 3 [], (nameAt 7 8).under (some "left"),
      .sound "in" none false 9 11 0 9 [], (nameAt 12 13).under (some "right")] ++
    if second then [(tokenAt "," 13).under (some "right"), (nameAt 15 16).under (some "right")]
    else [])

/-- Two operands of a statement, one operand and a comma in a subscript, and one operand of a loop
are read as the law says. -/
theorem runFrom_pairStatement_singleSubscript_clauseOver :
    ((Counted.read pairSource .statement pairStatement).runFrom 0).1 =
      .ok (.record "Expr" [("value", .tuple [.name "a" .load, .name "b" .load] .load)]) ∧
    ((Counted.read subscriptSource (.expression .load) singleSubscript).runFrom 0).1 =
      .ok (.record "Subscript" [
        ("value", .name "x" .load), ("slice", .index (.tuple [.name "a" .load] .load)),
        ("ctx", Access.load.marker)]) ∧
    ((Visitor.addClause ⟨loopSource, Counted.read loopSource⟩ [] (clauseOver false)).runFrom 0).1 =
      .ok [⟨.name "x" .store, .name "a" .load, [], false⟩] := by
  obtain ⟨hstatement, -, -⟩ := runFrom_sameJustIf_byComma pairSource 0 (c := pairStatement)
  obtain ⟨-, hsubscript, -⟩ := runFrom_sameJustIf_byComma subscriptSource 0 (c := singleSubscript)
  obtain ⟨-, -, hclause⟩ := runFrom_sameJustIf_byComma loopSource 0 (c := clauseOver false)
  refine ⟨?_, ?_, ?_⟩
  · rw [(hstatement rfl rfl nofun).eq_of (by decide)]
    rfl
  · rw [(hsubscript rfl rfl (by decide) .load).eq_of (by decide)]
    rfl
  · rw [(hclause rfl rfl []).eq_of (by decide)]
    rfl

/-- The text of `*a,`. -/
def starSource : Source := .ofText CharacterName.noNames "*a,"

/-- The statement `*a,`. -/
def starStatement : Cst :=
  .sound "expression_statement" none true 0 3 0 0 [
    .sound "list_splat" none true 0 2 0 0 [tokenAt "*" 0, nameAt 1 2], tokenAt "," 2]

/-- Not all statements and loops make a tuple of their operands as the law says, even where commas
stand between all of them: the statement `*a,` is read as `*a`, and the loop over `a, b` as one over
three elements, the second of which is the comma. -/
theorem not_forall_runFrom_eq_byComma :
    (¬ ∀ (source : Source) (depth : Nat) (c first : Cst) (rest : List Cst),
      c.kind = "expression_statement" → c.significant = first :: rest →
      (rest = [] → first.isAssignment = false) → (rest ≠ [] → c.hasToken "," = true) →
      ((Counted.read source .statement c).runFrom depth).1 =
        Reading.nested depth c fun depth =>
          (visitorFrom source depth).statementByComma c first rest) ∧
    (¬ ∀ (source : Source) (depth : Nat) (c first : Cst) (rest : List Cst) (loops : List Loop),
      c.kind = "for_in_clause" →
      (c.childrenUnder "right").filter (fun d => !d.isComma) = first :: rest →
      (rest ≠ [] → c.hasToken "," = true) →
      ((Visitor.addClause ⟨source, Counted.read source⟩ loops c).runFrom depth).1 =
        (visitorFrom source depth).clauseByComma loops c first rest) := by
  constructor
  · intro h
    have hsame := h starSource 0 starStatement _ _ rfl rfl (fun _ => rfl) (fun _ => rfl)
    revert hsame
    decide +kernel
  · intro h
    have hsame := h loopSource 0 (clauseOver true) ((nameAt 12 13).under (some "right"))
      [(nameAt 15 16).under (some "right")] [] rfl rfl (fun _ => rfl)
    have hread : ((Visitor.addClause ⟨loopSource, Counted.read loopSource⟩ []
        (clauseOver true)).runFrom 0).1 = .ok [⟨.name "x" .store,
          .tuple [.name "a" .load, .leaf ",", .name "b" .load] .load, [], false⟩] := rfl
    have hlaw : (visitorFrom loopSource 0).clauseByComma [] (clauseOver true)
        ((nameAt 12 13).under (some "right")) [(nameAt 15 16).under (some "right")] =
          .ok [⟨.name "x" .store, .tuple [.name "a" .load, .name "b" .load] .load, [], false⟩] :=
      rfl
    rw [hread, hlaw, Except.ok.injEq, List.cons.injEq, Loop.mk.injEq] at hsame
    revert hsame
    decide

end Counted

end Reading

end TreeText
