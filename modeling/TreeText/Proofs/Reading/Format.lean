import TreeText.Proofs.Reading.Literal

/-!
# Replacement fields in formats

The format behind the colon of a replacement field may have replacement fields itself. It is cut
into pieces as a literal is, and joined as one, at every level of nesting, so it spells the texts
and the fields that it is cut into (`Visitor.exists_spells_of_formatSpec`).

A part of a format is a replacement field if it has an expression. Reading asks for its kind
instead, and leaves all others in the text. So a format spells all its replacement fields just if
all of them are of that one kind (`Visitor.formatSpells_iff`). In the trees of the grammar they are
not: the field in `f'{x:{y}}'` is a `format_expression`, and comes out as the text `{y}`.
-/

namespace TreeText

/-- The values of the replacement fields in a spelling. -/
def Spelling.fields (spelling : Spelling) : List Tree := spelling.filterMap Sum.getRight?

theorem Spelling.fields_ofText (text : List Char) : fields (ofText text) = [] := by
  rw [fields, ofText, List.filterMap_map]
  exact List.filterMap_eq_nil_iff.mpr fun _ _ => rfl

theorem Spelling.fields_append (spelling more : Spelling) :
    fields (spelling ++ more) = fields spelling ++ fields more :=
  List.filterMap_append

/-- A joined string spells one thing only. -/
theorem Tree.JoinsTo.unique {tree : Tree} {spelling spelling' : Spelling}
    (h : tree.JoinsTo spelling) (h' : tree.JoinsTo spelling') : spelling = spelling' := by
  obtain ⟨values, rfl, -, rfl⟩ := h
  obtain ⟨values', hsame, -, rfl⟩ := h'
  rw [record_inj ["values"] rfl rfl (by decide)] at hsame
  cases hsame
  rfl

namespace Cst

variable {text : String} {start start' stop : Nat} {nodes : List Cst}

theorem Apart.of_span (h : Apart text stop start nodes) (hspan : Span text start' start) :
    Apart text stop start' nodes := by
  cases h with
  | last hrest => exact .last ⟨hspan.le.trans hrest.le, hspan.start, hrest.stop⟩
  | node hbefore hnode hrest =>
    exact .node ⟨hspan.le.trans hbefore.le, hspan.start, hbefore.stop⟩ hnode hrest

theorem Apart.isValid_start (h : Apart text stop start nodes) :
    String.Pos.Raw.IsValid text ⟨start⟩ := by
  cases h with
  | last hspan => exact hspan.start
  | node hspan => exact hspan.start

/-- Nodes stand apart if some of them are left out. -/
theorem Apart.filter (h : Apart text stop start nodes) (keep : Cst → Bool) :
    Apart text stop start (nodes.filter keep) := by
  induction h with
  | last hspan => exact .last hspan
  | @node start c nodes hspan hnode hrest ih =>
    rw [List.filter_cons]
    split
    · exact .node hspan hnode ih
    · exact ih.of_span ⟨hspan.le.trans hnode, hspan.start, hrest.isValid_start⟩

/-- The replacement fields of a format: its named parts with an expression. -/
def replacementFields (spec : Cst) : List Cst :=
  spec.children.filter fun d => d.isNamed && (d.child? "expression").isSome

/-- Where the text of a format starts, behind its colon. -/
def formatStart (spec : Cst) : Nat := min (spec.info.start + 1) spec.info.stop

end Cst

namespace Visitor

open Reading (Result bind_eq_ok_iff)

variable {v : Visitor Result} {marks : Marks} {start stop : Nat} {literal spec : Cst}
  {fields : List Cst} {spelling : Spelling} {pieces : List Piece} {format : Tree}

/-- A stretch spells its fields, each once, in order. -/
theorem Spells.forall₂_fields (h : v.Spells marks stop start fields spelling) :
    List.Forall₂ (v.FieldValue marks) fields spelling.fields := by
  induction h with
  | last => rw [Spelling.fields_ofText]; exact .nil
  | field _ hvalue _ ih =>
    rw [Spelling.fields_append, Spelling.fields_ofText]
    exact .cons hvalue ih

/-- What is read as a field has an expression. -/
theorem exists_expression_of_piecesFrom
    (h : v.piecesFrom literal marks stop start fields = .ok pieces) :
    ∀ field ∈ fields, (field.child? "expression").isSome = true := by
  induction fields generalizing start pieces with
  | nil => exact nofun
  | cons field fields ih =>
    simp only [piecesFrom, interpolation, bind_eq_ok_iff, Cst.require_eq_ok_iff] at h
    obtain ⟨_, -, _, ⟨expression, hexpression, -⟩, after, hafter, -⟩ := h
    rw [List.forall_mem_cons, hexpression]
    exact ⟨rfl, ih hafter⟩

/-- The parts of a format that reading asks for are replacement fields, if they are read. -/
theorem interpolations_eq_of_piecesFrom
    (h : v.piecesFrom literal marks stop start (spec.significant.filter Cst.isInterpolation) =
      .ok pieces) :
    spec.significant.filter Cst.isInterpolation =
      spec.replacementFields.filter Cst.isInterpolation := by
  have hexpression := exists_expression_of_piecesFrom h
  simp only [Cst.significant, Cst.significantOf, Cst.replacementFields, List.filter_filter]
  -- An interpolation is no trivia, so the two filters differ only in whether it has an expression.
  refine List.filter_congr fun d hd => ?_
  cases hkind : d.isInterpolation with
  | false => rfl
  | true =>
    have htrivia : d.isTrivia = false := by
      rw [Cst.isTrivia, eq_of_beq hkind]
      rfl
    cases hnamed : d.isNamed with
    | false => rfl
    | true =>
      have hmem : d ∈ spec.significant.filter Cst.isInterpolation := by
        simp [Cst.significant, Cst.significantOf, hd, hkind, hnamed, htrivia]
      rw [htrivia, hexpression d hmem]
      rfl

/-- What the format of a replacement field spells that keeps all replacement fields in it. Nothing
is decoded in it, except that braces are halved. -/
def FormatSpells (v : Visitor Result) (marks : Marks) (spec : Cst) (format : Tree) : Prop :=
  ∃ spelling, v.Spells { marks with raw := true } spec.info.stop spec.formatStart
    spec.replacementFields spelling ∧ format.JoinsTo spelling

section

variable {names : CharacterName.Lookup} {text : String} (hsource : v.source = .ofText names text)
  (hapart : Cst.Apart text spec.info.stop spec.formatStart spec.replacementFields)
  (hlabel : ∀ field ∈ spec.replacementFields, field.debugSign? = none)
  (hread : v.formatSpec marks spec = .ok format)

include hsource hapart hlabel hread

/-- A format spells its interpolations, and all else as text. -/
theorem exists_spells_of_formatSpec :
    ∃ spelling, v.Spells { marks with raw := true } spec.info.stop spec.formatStart
      (spec.replacementFields.filter Cst.isInterpolation) spelling ∧ format.JoinsTo spelling := by
  obtain ⟨pieces, hpieces, hformat⟩ := bind_eq_ok_iff.mp hread
  cases hformat
  have hfields := (piecesFrom_valuesAreFields spec _ _ _ _).of_eq_ok hpieces
  rw [interpolations_eq_of_piecesFrom hpieces] at hpieces
  refine ⟨_, (spells_iff_piecesFrom hsource (hapart.filter _) ?_).mpr ⟨pieces, hpieces, rfl⟩,
    Piece.joinsTo_joined hfields⟩
  exact fun field hfield => hlabel field (List.mem_filter.mp hfield).1

/-- A format keeps all its replacement fields just if they are all interpolations. -/
theorem formatSpells_iff :
    v.FormatSpells marks spec format ↔
      ∀ field ∈ spec.replacementFields, field.isInterpolation = true := by
  obtain ⟨spelling, hspells, hformat⟩ :=
    exists_spells_of_formatSpec hsource hapart hlabel hread
  rw [← List.filter_eq_self]
  constructor
  · rintro ⟨spelling', hspells', hformat'⟩
    obtain rfl := hformat.unique hformat'
    -- One spelling has as many fields as there are interpolations, and as there are fields at all.
    have hlength := hspells.forall₂_fields.length_eq
    rw [← hspells'.forall₂_fields.length_eq] at hlength
    exact List.filter_sublist.eq_of_length hlength
  · intro hall
    rw [hall] at hspells
    exact ⟨spelling, hspells, hformat⟩

end

end Visitor

namespace Reading

namespace Counted

/-- **A replacement field in a format is kept just if it is an interpolation.** If a field with a
format is read, its format spells the interpolations in it as fields, one each and in order, and all
else as text. So it spells all replacement fields in it just if all of them are interpolations. This
is so for any marks and from any depth, and so for fields in formats too. -/
theorem runFrom_interpolation_formatSpells {names : CharacterName.Lookup} {text : String}
    {c spec : Cst} (hspec : c.child? "format_specifier" = some spec)
    (hapart : Cst.Apart text spec.info.stop spec.formatStart spec.replacementFields)
    (hlabel : ∀ field ∈ spec.replacementFields, field.debugSign? = none) {marks : Marks}
    {depth : Nat} {pieces : List Piece}
    (hread : ((Visitor.interpolation ⟨.ofText names text, Counted.read (.ofText names text)⟩ marks
      c).runFrom depth).1 = .ok pieces) :
    ∃ tree format, pieces = (visitorFrom (.ofText names text) depth).label c ++ [.value tree] ∧
      (visitorFrom (.ofText names text) depth).FieldValue marks c tree ∧
      tree.field? "format_spec" = some format ∧
      (∃ spelling, (visitorFrom (.ofText names text) depth).Spells { marks with raw := true }
        spec.info.stop spec.formatStart (spec.replacementFields.filter Cst.isInterpolation)
        spelling ∧ format.JoinsTo spelling) ∧
      ((visitorFrom (.ofText names text) depth).FormatSpells marks spec format ↔
        ∀ field ∈ spec.replacementFields, field.isInterpolation = true) := by
  rw [((handedDown (.ofText names text) depth).interpolation_agree marks
    (handedDown_alike (.ofText names text) depth c)).runFrom_eq] at hread
  simp only [Visitor.interpolation, bind_eq_ok_iff, Cst.require_eq_ok_iff] at hread
  obtain ⟨expression, hexpression, format, hformat, value, hvalue, hpieces⟩ := hread
  cases hpieces
  -- A format takes no level of its own, so it is read as its rule says from the same depth.
  have hstep := congrArg Prod.fst
    (runFrom_read_eq_step (.ofText names text) depth (.formatSpec marks) spec)
  have hvisit : (visitorFrom (.ofText names text) depth).formatSpec marks spec = .ok format := by
    rw [hspec] at hformat
    exact hstep.symm.trans hformat
  refine ⟨_, format, rfl, ⟨expression, value, format, hexpression, hvalue, hformat, rfl⟩, ?_,
    Visitor.exists_spells_of_formatSpec rfl hapart hlabel hvisit,
    Visitor.formatSpells_iff rfl hapart hlabel hvisit⟩
  rw [Tree.field?_record]
  rfl

/-- The text `f'{x:{y}}'`. -/
def nestedText : String := "f'\x7bx:\x7by\x7d\x7d'"

def nestedSource : Source := .ofText CharacterName.noNames nestedText

/-- The marks of the literal in the text. -/
def nestedMarks : Marks := ⟨false, false, true, false⟩

/-- The format `{y}` in the text, with its field of this kind. -/
def nestedFormat (kind : String) : Cst :=
  .sound "format_specifier" (some "format_specifier") true 4 8 0 4 [
    .sound ":" none false 4 5 0 4 [],
    .sound kind none true 5 8 0 5 [
      .sound "\x7b" none false 5 6 0 5 [], operand "expression" 6,
      .sound "\x7d" none false 7 8 0 7 []]]

/-- The field in the text. -/
def nestedField (kind : String) : Cst :=
  .sound "interpolation" none true 2 9 0 2 [
    .sound "\x7b" none false 2 3 0 2 [], operand "expression" 3, nestedFormat kind,
    .sound "\x7d" none false 8 9 0 8 []]

/-- The value of a field with no conversion. -/
def valueOf (name : String) (format : Tree) : Tree :=
  .record "FormattedValue" [
    ("value", .name name .load), ("conversion", .int (-1)), ("format_spec", format)]

theorem field?_valueOf (name : String) (format : Tree) :
    (valueOf name format).field? "format_spec" = some format := by
  rw [valueOf, Tree.field?_record]
  rfl

/-- A joined string of one value. -/
def joinedOf (value : Tree) : Tree := .record "JoinedStr" [("values", .seq [value])]

theorem apart_nestedFormat (kind : String) :
    Cst.Apart nestedText (nestedFormat kind).info.stop (nestedFormat kind).formatStart
      (nestedFormat kind).replacementFields := by
  have hspan : Span nestedText 5 5 := ⟨by decide, by decide, by decide⟩
  have hrest : Span nestedText 8 8 := ⟨by decide, by decide, by decide⟩
  have hapart (child : Cst) (hstart : child.info.start = 5) (hstop : child.info.stop = 8) :
      Cst.Apart nestedText 8 5 [child] :=
    .node (hstart ▸ hspan) (by omega) (.last (hstop ▸ hrest))
  exact hapart _ rfl rfl

/-- The field in the format would be kept if it were an interpolation. As the format expression that
it is, it is left in the text. -/
theorem runFrom_nestedField :
    ((Visitor.interpolation ⟨nestedSource, Counted.read nestedSource⟩ nestedMarks
      (nestedField "interpolation")).runFrom 0).1 =
        .ok [.value (valueOf "x" (joinedOf (valueOf "y" .absent)))] ∧
    (visitorFrom nestedSource 0).FormatSpells nestedMarks (nestedFormat "interpolation")
      (joinedOf (valueOf "y" .absent)) ∧
    ((Visitor.interpolation ⟨nestedSource, Counted.read nestedSource⟩ nestedMarks
      (nestedField "format_expression")).runFrom 0).1 =
        .ok [.value (valueOf "x" (joinedOf (.constant (.str "\x7by\x7d"))))] ∧
    ¬ (visitorFrom nestedSource 0).FormatSpells nestedMarks
      (nestedFormat "format_expression") (joinedOf (.constant (.str "\x7by\x7d"))) := by
  have hkept (kind : String) (value : Tree)
      (hread : ((Visitor.interpolation ⟨nestedSource, Counted.read nestedSource⟩ nestedMarks
        (nestedField kind)).runFrom 0).1 =
          .ok [.value (valueOf "x" (joinedOf value))]) :
      (visitorFrom nestedSource 0).FormatSpells nestedMarks (nestedFormat kind)
        (joinedOf value) ↔
          ∀ field ∈ (nestedFormat kind).replacementFields, field.isInterpolation = true := by
    obtain ⟨tree, format, hpieces, -, hformat, -, hiff⟩ := runFrom_interpolation_formatSpells
      (c := nestedField kind) rfl (apart_nestedFormat kind) (List.forall_mem_singleton.mpr rfl)
      hread
    have htree : [Piece.value (valueOf "x" (joinedOf value))] = [.value tree] := hpieces
    obtain rfl := Piece.value.inj (List.cons.inj htree).1
    obtain rfl := Option.some.inj ((field?_valueOf _ _).symm.trans hformat)
    exact hiff
  refine ⟨rfl, (hkept _ _ rfl).mpr (by decide), rfl, ?_⟩
  rw [hkept _ _ rfl]
  decide

/-- Not every field in a format is kept: the one in `f'{x:{y}}'`, which is no interpolation, is
left in the text. -/
theorem not_forall_formatSpells :
    ¬ ∀ (names : CharacterName.Lookup) (text : String) (c spec : Cst) (marks : Marks) (depth : Nat)
        (pieces : List Piece),
      c.child? "format_specifier" = some spec →
      Cst.Apart text spec.info.stop spec.formatStart spec.replacementFields →
      (∀ field ∈ spec.replacementFields, field.debugSign? = none) →
      ((Visitor.interpolation ⟨.ofText names text, Counted.read (.ofText names text)⟩ marks
        c).runFrom depth).1 = .ok pieces →
      ∃ tree format, .value tree ∈ pieces ∧ tree.field? "format_spec" = some format ∧
        (visitorFrom (.ofText names text) depth).FormatSpells marks spec format := by
  intro h
  obtain ⟨tree, format, hmem, hformat, hspells⟩ :=
    h CharacterName.noNames nestedText (nestedField "format_expression")
      (nestedFormat "format_expression") nestedMarks 0
      [.value (valueOf "x" (joinedOf (.constant (.str "\x7by\x7d"))))] rfl (apart_nestedFormat _)
      (by decide) rfl
  obtain rfl := Piece.value.inj (List.mem_singleton.mp hmem)
  obtain rfl := Option.some.inj ((field?_valueOf _ _).symm.trans hformat)
  have hfields := (Visitor.formatSpells_iff rfl (apart_nestedFormat _) (by decide) rfl).mp hspells
  revert hfields
  decide

end Counted

end Reading

end TreeText
