import Mathlib.Data.List.Chain
import TreeText.Proofs.Reading.Building.Literal
import TreeText.Proofs.Reading.Operator

/-!
# Literals keep their texts and their replacement fields

What a literal stands for is a sequence of characters and of values of replacement fields, its
*spelling*. It does not say where one text ends and the next one begins, so pieces have the spelling
that they are joined to (`Piece.spelling_values`), and so have literals side by side.

`Visitor.Spells` says what a stretch of the source spells: the decoded text before the first
replacement field, the value of this field, and so on to the end. Cutting a literal into pieces
gives this spelling (`spells_iff_piecesFrom`), so none of its texts and values is lost, repeated or
moved, and from there on pieces are only joined. `runFrom_literals` says what this comes to for all
literals of a constant, with the tree that shows it.
-/

namespace TreeText

/-! ## Spellings -/

/-- Characters and values of replacement fields, in order. -/
abbrev Spelling := List (Char ⊕ Tree)

namespace Spelling

/-- The spelling of a text. -/
def ofText (text : List Char) : Spelling := text.map .inl

theorem ofText_append (text more : List Char) :
    ofText (text ++ more) = ofText text ++ ofText more :=
  List.map_append

theorem flatten_map_ofText (texts : List (List Char)) :
    (texts.map ofText).flatten = ofText texts.flatten :=
  List.map_flatten.symm

/-- The characters of a spelling. -/
def text (spelling : Spelling) : List Char := spelling.filterMap Sum.getLeft?

theorem text_ofText (chars : List Char) : text (ofText chars) = chars := by
  rw [ofText, Spelling.text, List.filterMap_map]
  exact List.filterMap_some

theorem text_append (spelling more : Spelling) :
    text (spelling ++ more) = text spelling ++ text more :=
  List.filterMap_append

end Spelling

namespace Tree

/-- The text of a constant that is a text. -/
def constantText? (tree : Tree) : Option String :=
  if tree.kind? = some "Constant" then (tree.field? "value").bind text? else none

/-- What a value of a joined string spells. -/
def spelling (tree : Tree) : Spelling :=
  match tree.constantText? with
  | some text => Spelling.ofText text.toList
  | none => [.inr tree]

theorem constantText?_constant (text : String) :
    (constant (.str text)).constantText? = some text := by
  have hkind : (constant (.str text)).kind? = some "Constant" := rfl
  have hvalue : (constant (.str text)).field? "value" = some (.str text) := by
    rw [constant, field?_record]
    rfl
  rw [constantText?, if_pos hkind, hvalue]
  rfl

theorem constantText?_of_kind {tree : Tree} (h : tree.kind? = some "FormattedValue") :
    tree.constantText? = none := by
  rw [constantText?, h, if_neg (by decide)]

/-- Values of a joined string, in which no text is empty and none stands beside another. -/
structure Merged (values : List Tree) : Prop where
  nonempty : ∀ value ∈ values, value.constantText? ≠ some ""
  apart : values.IsChain fun a b => a.constantText? = none ∨ b.constantText? = none

/-- The constant of a text, with the mark that its first literal may have, or of bytes. -/
def textConstant (bytes unicode : Bool) (text : List Char) : Tree :=
  if bytes then .constant (.scalar "bytes" (String.ofList text))
  else
    .record "Constant" [
      ("value", .str (String.ofList text)), ("kind", if unicode then .str "u" else .absent)]

theorem kind?_textConstant (bytes unicode : Bool) (text : List Char) :
    (textConstant bytes unicode text).kind? = some "Constant" := by
  rw [textConstant]
  split <;> rfl

/-- A joined string spells this. -/
def JoinsTo (tree : Tree) (spelling : Spelling) : Prop :=
  ∃ values, tree = .record "JoinedStr" [("values", .seq values)] ∧ Merged values ∧
    values.flatMap Tree.spelling = spelling

end Tree

namespace Piece

/-- What a piece spells. -/
def spelling : Piece → Spelling
  | .text chunk => Spelling.ofText chunk.toList
  | .value tree => [.inr tree]

/-- What pieces spell one after the other. -/
def spellingOfAll (pieces : List Piece) : Spelling := pieces.flatMap spelling

theorem spellingOfAll_cons (piece : Piece) (pieces : List Piece) :
    spellingOfAll (piece :: pieces) = piece.spelling ++ spellingOfAll pieces :=
  List.flatMap_cons

theorem spellingOfAll_append (before after : List Piece) :
    spellingOfAll (before ++ after) = spellingOfAll before ++ spellingOfAll after :=
  List.flatMap_append

theorem spellingOfAll_text (text : List Char) (pieces : List Piece) :
    spellingOfAll (.text (String.ofList text) :: pieces) =
      Spelling.ofText text ++ spellingOfAll pieces := by
  rw [spellingOfAll_cons, spelling, String.toList_ofList]

theorem spellingOfAll_single (text : List Char) :
    spellingOfAll [.text (String.ofList text)] = Spelling.ofText text :=
  (spellingOfAll_text text []).trans (List.append_nil _)

theorem spellingOfAll_flatten (lists : List (List Piece)) :
    spellingOfAll lists.flatten = (lists.map spellingOfAll).flatten := by
  induction lists with
  | nil => rfl
  | cons pieces lists ih =>
    rw [List.flatten_cons, spellingOfAll_append, ih, List.map_cons, List.flatten_cons]

theorem spellingOfAll_value (tree : Tree) (pieces : List Piece) :
    spellingOfAll (.value tree :: pieces) = .inr tree :: spellingOfAll pieces := rfl

theorem toList_allText (pieces : List Piece) :
    (allText pieces).toList = Spelling.text (spellingOfAll pieces) := by
  induction pieces with
  | nil => rfl
  | cons piece pieces ih =>
    rw [allText, String.toList_join] at ih ⊢
    rw [spellingOfAll_cons, Spelling.text_append, ← ih]
    cases piece with
    | text chunk => rw [spelling, Spelling.text_ofText]; rfl
    | value tree => rfl

/-- The values of replacement fields among the pieces are not texts. -/
def ValuesAreFields (pieces : List Piece) : Prop :=
  ∀ tree, .value tree ∈ pieces → tree.constantText? = none

theorem valuesAreFields_nil : ValuesAreFields [] := nofun

theorem valuesAreFields_text {chunk : String} {pieces : List Piece} :
    ValuesAreFields (.text chunk :: pieces) ↔ ValuesAreFields pieces := by
  simp [ValuesAreFields]

theorem valuesAreFields_value {tree : Tree} {pieces : List Piece} :
    ValuesAreFields (.value tree :: pieces) ↔
      tree.constantText? = none ∧ ValuesAreFields pieces := by
  simp [ValuesAreFields]

theorem valuesAreFields_append {before after : List Piece} :
    ValuesAreFields (before ++ after) ↔ ValuesAreFields before ∧ ValuesAreFields after := by
  simp [ValuesAreFields, or_imp, forall_and]

theorem spelling_textValues (chunk : String) :
    (textValues chunk).flatMap Tree.spelling = Spelling.ofText chunk.toList := by
  rw [textValues]
  split
  · next hempty => rw [String.isEmpty_iff.mp hempty]; rfl
  · rw [List.flatMap_singleton, Tree.spelling, Tree.constantText?_constant]

/-- Joining texts changes nothing of what is spelled. -/
theorem spelling_values {pieces : List Piece} (h : ValuesAreFields pieces) (chunk : String) :
    (values chunk pieces).flatMap Tree.spelling =
      Spelling.ofText chunk.toList ++ spellingOfAll pieces := by
  induction pieces generalizing chunk with
  | nil => rw [values, spelling_textValues]; exact (List.append_nil _).symm
  | cons piece pieces ih =>
    rw [spellingOfAll_cons]
    cases piece with
    | text more =>
      rw [values, ih (valuesAreFields_text.mp h), String.toList_append, Spelling.ofText_append,
        List.append_assoc]
      rfl
    | value tree =>
      obtain ⟨htree, hrest⟩ := valuesAreFields_value.mp h
      have hspelling : tree.spelling = [.inr tree] := by rw [Tree.spelling, htree]
      rw [values, List.flatMap_append, spelling_textValues, List.flatMap_cons, hspelling, ih hrest]
      rfl

theorem merged_textValues (chunk : String) : Tree.Merged (textValues chunk) := by
  rw [textValues]
  split
  · exact ⟨nofun, .nil⟩
  · next hnonempty =>
    refine ⟨?_, .singleton _⟩
    intro value hvalue hempty
    cases List.mem_singleton.mp hvalue
    rw [Tree.constantText?_constant, Option.some.injEq] at hempty
    exact hnonempty (String.isEmpty_iff.mpr hempty)

/-- Texts are joined as far as there is no value between them, and empty ones left out. -/
theorem merged_values {pieces : List Piece} (h : ValuesAreFields pieces) (chunk : String) :
    Tree.Merged (values chunk pieces) := by
  induction pieces generalizing chunk with
  | nil => exact merged_textValues chunk
  | cons piece pieces ih =>
    cases piece with
    | text more => exact ih (valuesAreFields_text.mp h) (chunk ++ more)
    | value tree =>
      obtain ⟨htree, hrest⟩ := valuesAreFields_value.mp h
      have hbefore := merged_textValues chunk
      have hafter := ih hrest ""
      refine ⟨?_, ?_⟩
      · intro value hvalue
        rcases List.mem_append.mp hvalue with hvalue | hvalue
        · exact hbefore.nonempty value hvalue
        · rcases List.mem_cons.mp hvalue with rfl | hvalue
          · rw [htree]; nofun
          · exact hafter.nonempty value hvalue
      -- The value stands between the text before it and whatever comes after it.
      · refine List.isChain_append.mpr ⟨hbefore.apart, ?_, ?_⟩
        · exact List.isChain_cons.mpr ⟨fun _ _ => .inl htree, hafter.apart⟩
        · intro text _ value hvalue
          cases hvalue
          exact .inr htree

/-- Joined pieces spell what the pieces do. -/
theorem joinsTo_joined {pieces : List Piece} (h : ValuesAreFields pieces) :
    (joined pieces).JoinsTo (spellingOfAll pieces) :=
  ⟨values "" pieces, rfl, merged_values h "", spelling_values h ""⟩

end Piece

/-! ## Stretches of the source -/

/-- Two offsets lie in a text in this order, and cut no character of it. -/
structure Span (text : String) (start stop : Nat) : Prop where
  le : start ≤ stop
  start : String.Pos.Raw.IsValid text ⟨start⟩
  stop : String.Pos.Raw.IsValid text ⟨stop⟩

theorem Source.exists_slice? (names : CharacterName.Lookup) {text : String} {start stop : Nat}
    (h : Span text start stop) :
    ∃ raw, (Source.ofText names text).slice? start stop = some raw := by
  have hsize : stop ≤ (Source.ofText names text).bytes.size := h.stop.le_rawEndPos
  have hutf8 : ((Source.ofText names text).bytes.extract start stop).IsValidUTF8 :=
    (String.Pos.Raw.isValidUTF8_extract_iff ⟨start⟩ ⟨stop⟩ h.le h.stop.le_rawEndPos).mpr
      (.inr ⟨h.start, h.stop⟩)
  rw [slice?, if_pos ⟨h.le, hsize⟩, String.fromUTF8?, dif_pos hutf8]
  exact ⟨_, rfl⟩

namespace Cst

/-- Nodes stand one after the other between two offsets of a text. -/
inductive Apart (text : String) (stop : Nat) : Nat → List Cst → Prop
  | last {start : Nat} (hspan : Span text start stop) : Apart text stop start []
  | node {start : Nat} {c : Cst} {nodes : List Cst} (hspan : Span text start c.info.start)
    (hnode : c.info.start ≤ c.info.stop) (hrest : Apart text stop c.info.stop nodes) :
    Apart text stop start (c :: nodes)

/-- The replacement fields of a literal. -/
def interpolations (literal : Cst) : List Cst := literal.children.filter Cst.isInterpolation

/-- A literal in a text: its fields stand one after the other in its body, and none of them shows
its own text. Only formatted literals have fields. -/
structure IsLiteral (names : CharacterName.Lookup) (text : String) (literal : Cst) : Prop where
  apart : Apart text literal.bodyStop literal.bodyStart literal.interpolations
  unlabelled : ∀ field ∈ literal.interpolations, field.debugSign? = none
  plain : (literal.marks (.ofText names text)).formatted = false → literal.interpolations = []

end Cst

namespace Visitor

open Reading (Result Yields bind_eq_ok_iff)

variable {v : Visitor Result} {marks : Marks} {start stop : Nat} {literal field : Cst}
  {fields : List Cst} {spelling : Spelling} {pieces : List Piece}

/-- What the text between two offsets stands for in a literal with these marks. -/
def Decodes (v : Visitor Result) (marks : Marks) (start stop : Nat) (text : List Char) : Prop :=
  ∃ raw, v.source.slice? start stop = some raw ∧ marks.decode v.source.names raw.toList = .ok text

/-- The value of a replacement field in a literal with these marks. -/
def FieldValue (v : Visitor Result) (marks : Marks) (field : Cst) (tree : Tree) : Prop :=
  ∃ expression value format, field.child? "expression" = some expression ∧
    v.load expression = .ok value ∧
    v.format? marks (field.child? "format_specifier") = .ok format ∧
    tree = .record "FormattedValue"
      [("value", value), ("conversion", .int (v.conversion field)), ("format_spec", format)]

/-- What a stretch of the source spells, given the replacement fields in it: the text before the
first one, the value of this one, and so on from its end to the end of the stretch. -/
inductive Spells (v : Visitor Result) (marks : Marks) (stop : Nat) :
    Nat → List Cst → Spelling → Prop
  | last {start : Nat} {text : List Char} (htext : v.Decodes marks start stop text) :
    Spells v marks stop start [] (Spelling.ofText text)
  | field {start : Nat} {field : Cst} {fields : List Cst} {text : List Char} {tree : Tree}
    {rest : Spelling} (htext : v.Decodes marks start field.info.start text)
    (hvalue : v.FieldValue marks field tree)
    (hrest : Spells v marks stop field.info.stop fields rest) :
    Spells v marks stop start (field :: fields) (Spelling.ofText text ++ .inr tree :: rest)

theorem textPieces_eq_ok_iff (hslice : ∃ raw, v.source.slice? start stop = some raw) :
    v.textPieces literal marks start stop = .ok pieces ↔
      ∃ text, v.Decodes marks start stop text ∧ pieces = [.text (String.ofList text)] := by
  obtain ⟨raw, hraw⟩ := hslice
  rw [textPieces, hraw]
  dsimp only
  cases hdecode : marks.decode v.source.names raw.toList with
  | error fault =>
    constructor
    · intro h
      cases h
    · rintro ⟨text, ⟨raw', hraw', htext⟩, -⟩
      cases hraw.symm.trans hraw'
      cases hdecode.symm.trans htext
  | ok text =>
    constructor
    · intro h
      cases h
      exact ⟨text, ⟨raw, hraw, hdecode⟩, rfl⟩
    · rintro ⟨text', ⟨raw', hraw', htext'⟩, rfl⟩
      cases hraw.symm.trans hraw'
      cases hdecode.symm.trans htext'
      rfl

/-- A field that does not show its own text comes to its value. -/
theorem interpolation_eq_ok_iff (hlabel : field.debugSign? = none) :
    v.interpolation marks field = .ok pieces ↔
      ∃ tree, v.FieldValue marks field tree ∧ pieces = [.value tree] := by
  simp only [interpolation, bind_eq_ok_iff, Cst.require_eq_ok_iff, label, hlabel, List.nil_append]
  constructor
  · rintro ⟨expression, hexpression, format, hformat, value, hvalue, h⟩
    cases h
    exact ⟨_, ⟨expression, value, format, hexpression, hvalue, hformat, rfl⟩, rfl⟩
  · rintro ⟨_, ⟨expression, value, format, hexpression, hvalue, hformat, rfl⟩, rfl⟩
    exact ⟨expression, hexpression, format, hformat, value, hvalue, rfl⟩

/-- A stretch is cut into pieces that spell what it spells, if it spells anything. -/
theorem spells_iff_piecesFrom {names : CharacterName.Lookup} {text : String}
    (hsource : v.source = .ofText names text)
    (hapart : Cst.Apart text stop start fields)
    (hlabel : ∀ field ∈ fields, field.debugSign? = none) :
    v.Spells marks stop start fields spelling ↔
      ∃ pieces, v.piecesFrom literal marks stop start fields = .ok pieces ∧
        Piece.spellingOfAll pieces = spelling := by
  have hslice {start stop : Nat} (hspan : Span text start stop) :
      ∃ raw, v.source.slice? start stop = some raw := hsource ▸ Source.exists_slice? names hspan
  -- No text is left out, since every stretch between two fields is text of the source.
  induction hapart generalizing spelling with
  | last hspan =>
    simp only [piecesFrom, textPieces_eq_ok_iff (hslice hspan)]
    constructor
    · rintro ⟨htext⟩
      exact ⟨_, ⟨_, htext, rfl⟩, Piece.spellingOfAll_single _⟩
    · rintro ⟨_, ⟨text, htext, rfl⟩, rfl⟩
      rw [Piece.spellingOfAll_single]
      exact .last htext
  | node hspan _ _ ih =>
    have hlabelRest := fun field hfield => hlabel field (List.mem_cons_of_mem _ hfield)
    simp only [piecesFrom, bind_eq_ok_iff, textPieces_eq_ok_iff (hslice hspan),
      interpolation_eq_ok_iff (hlabel _ List.mem_cons_self)]
    constructor
    · rintro (_ | ⟨htext, hvalue, hrest⟩)
      obtain ⟨after, hafter, rfl⟩ := (ih hlabelRest).mp hrest
      exact ⟨_, ⟨_, ⟨_, htext, rfl⟩, _, ⟨_, hvalue, rfl⟩, after, hafter, rfl⟩,
        Piece.spellingOfAll_text _ _⟩
    · rintro ⟨_, ⟨_, ⟨text, htext, rfl⟩, _, ⟨tree, hvalue, rfl⟩, after, hafter, h⟩, rfl⟩
      cases h
      have hrest := (ih hlabelRest).mpr ⟨after, hafter, rfl⟩
      have hall := Spells.field htext hvalue hrest
      rwa [← Piece.spellingOfAll_value, ← Piece.spellingOfAll_text] at hall

theorem textPieces_valuesAreFields (literal : Cst) (marks : Marks) (start stop : Nat) :
    Yields Piece.ValuesAreFields (v.textPieces literal marks start stop) :=
  (Supply.textPieces_yields literal marks start stop).mono fun _ hpieces tree htree =>
    absurd htree (hpieces tree)

theorem interpolation_valuesAreFields (marks : Marks) (field : Cst) :
    Yields Piece.ValuesAreFields (v.interpolation marks field) := by
  refine .of_forall fun pieces h => ?_
  simp only [interpolation, bind_eq_ok_iff] at h
  obtain ⟨expression, -, format, -, value, -, h⟩ := h
  cases h
  refine Piece.valuesAreFields_append.mpr ⟨?_, ?_⟩
  · rw [label]
    split
    · exact Piece.valuesAreFields_text.mpr Piece.valuesAreFields_nil
    · exact Piece.valuesAreFields_nil
  · exact Piece.valuesAreFields_value.mpr
      ⟨Tree.constantText?_of_kind rfl, Piece.valuesAreFields_nil⟩

/-- Values that come into a literal come from its fields. -/
theorem piecesFrom_valuesAreFields (literal : Cst) (marks : Marks) (stop start : Nat)
    (fields : List Cst) :
    Yields Piece.ValuesAreFields (v.piecesFrom literal marks stop start fields) := by
  induction fields generalizing start with
  | nil => exact textPieces_valuesAreFields literal marks start stop
  | cons field fields ih =>
    refine (textPieces_valuesAreFields literal marks _ _).bind fun before hbefore => ?_
    refine (interpolation_valuesAreFields marks field).bind fun value hvalue => ?_
    refine (ih field.info.stop).bind fun after hafter => .pure ?_
    simp only [Piece.valuesAreFields_append]
    exact ⟨⟨hbefore, hvalue⟩, hafter⟩

/-- What a literal spells. -/
def LiteralSpells (v : Visitor Result) (literal : Cst) : Spelling → Prop :=
  v.Spells (literal.marks v.source) literal.bodyStop literal.bodyStart literal.interpolations

/-- What the whole body of a literal stands for. -/
def BodyDecodes (v : Visitor Result) (literal : Cst) : List Char → Prop :=
  v.Decodes (literal.marks v.source) literal.bodyStart literal.bodyStop

/-- Without fields a literal spells just its body. -/
theorem literalSpells_iff_of_plain (hplain : literal.interpolations = []) :
    v.LiteralSpells literal spelling ↔
      ∃ body, v.BodyDecodes literal body ∧ spelling = Spelling.ofText body := by
  rw [LiteralSpells, hplain]
  constructor
  · rintro ⟨htext⟩
    exact ⟨_, htext, rfl⟩
  · rintro ⟨body, hbody, rfl⟩
    exact .last hbody

theorem literalSpells_iff_pieces {names : CharacterName.Lookup} {text : String}
    (hsource : v.source = .ofText names text)
    (h : literal.IsLiteral names text) :
    v.LiteralSpells literal spelling ↔ ∃ pieces, v.pieces literal = .ok pieces ∧
      Piece.spellingOfAll pieces = spelling :=
  spells_iff_piecesFrom hsource h.apart h.unlabelled

end Visitor

/-! ## Literals side by side -/

namespace Visitor

open Reading (Result Yields bind_eq_ok_iff mapM_eq_ok_iff)

variable {v : Visitor Result} {names : CharacterName.Lookup} {text : String} {nodes : List Cst}
  {tree : Tree}

/-- The pieces of literals spell what the literals do. -/
theorem forall₂_literalSpells_iff (hsource : v.source = .ofText names text)
    (h : ∀ literal ∈ nodes, literal.IsLiteral names text) {spellings : List Spelling} :
    List.Forall₂ v.LiteralSpells nodes spellings ↔
      ∃ lists, nodes.mapM v.pieces = .ok lists ∧ lists.map Piece.spellingOfAll = spellings := by
  simp only [mapM_eq_ok_iff]
  induction nodes generalizing spellings with
  | nil =>
    simp only [List.forall₂_nil_left_iff]
    constructor
    · rintro rfl
      exact ⟨[], rfl, rfl⟩
    · rintro ⟨_, rfl, rfl⟩
      rfl
  | cons literal nodes ih =>
    have hliteral := h literal List.mem_cons_self
    have hrest := fun literal hmem => h literal (List.mem_cons_of_mem _ hmem)
    simp only [List.forall₂_cons_left_iff, literalSpells_iff_pieces hsource hliteral, ih hrest]
    constructor
    · rintro ⟨_, _, ⟨pieces, hpieces, rfl⟩, ⟨lists, hlists, rfl⟩, rfl⟩
      exact ⟨_, ⟨pieces, lists, hpieces, hlists, rfl⟩, rfl⟩
    · rintro ⟨_, ⟨pieces, lists, hpieces, hlists, rfl⟩, rfl⟩
      exact ⟨_, _, ⟨pieces, hpieces, rfl⟩, ⟨lists, hlists, rfl⟩, rfl⟩

theorem literals_eq_ok_iff : v.literals nodes = .ok tree ↔ ∃ lists,
    nodes.mapM v.pieces = .ok lists ∧
      Piece.toTree (nodes.map (Cst.marks v.source)) lists.flatten = tree := by
  rw [literals, bind_eq_ok_iff]
  exact exists_congr fun lists => and_congr_right fun _ => ⟨Except.ok.inj, congrArg _⟩

theorem mapM_pieces_valuesAreFields :
    Yields (fun lists => Piece.ValuesAreFields lists.flatten) (nodes.mapM v.pieces) := by
  have hpieces (literal : Cst) : Yields Piece.ValuesAreFields (v.pieces literal) :=
    piecesFrom_valuesAreFields literal _ _ _ _
  refine (Yields.mapM fun literal _ => hpieces literal).mono fun lists hlists tree htree => ?_
  obtain ⟨pieces, hmem, htree⟩ := List.mem_flatten.mp htree
  exact hlists pieces hmem tree htree

/-- Literals are read just if each of them spells something. -/
theorem exists_literals_iff (hsource : v.source = .ofText names text)
    (h : ∀ literal ∈ nodes, literal.IsLiteral names text) :
    (∃ tree, v.literals nodes = .ok tree) ↔
      ∃ spellings, List.Forall₂ v.LiteralSpells nodes spellings := by
  simp only [literals_eq_ok_iff, forall₂_literalSpells_iff hsource h]
  constructor
  · rintro ⟨_, lists, hlists, -⟩
    exact ⟨_, lists, hlists, rfl⟩
  · rintro ⟨_, lists, hlists, -⟩
    exact ⟨_, lists, hlists, rfl⟩

/-- If one of the literals is formatted, they come to a joined string that spells what they do. -/
theorem joinsTo_of_literals (hsource : v.source = .ofText names text)
    (h : ∀ literal ∈ nodes, literal.IsLiteral names text)
    (hformatted : ∃ literal ∈ nodes, (literal.marks v.source).formatted = true)
    (hread : v.literals nodes = .ok tree) :
    ∃ spellings, List.Forall₂ v.LiteralSpells nodes spellings ∧ tree.JoinsTo spellings.flatten := by
  obtain ⟨lists, hlists, rfl⟩ := literals_eq_ok_iff.mp hread
  have hany : (nodes.map (Cst.marks v.source)).any Marks.formatted = true := by
    simpa using hformatted
  have hfields := mapM_pieces_valuesAreFields.of_eq_ok hlists
  refine ⟨_, (forall₂_literalSpells_iff hsource h).mpr ⟨lists, hlists, rfl⟩, ?_⟩
  rw [Piece.toTree, if_pos hany, ← Piece.spellingOfAll_flatten]
  exact Piece.joinsTo_joined hfields

/-- Literals without fields spell just their bodies. -/
theorem exists_bodies_of_plain (hplain : ∀ literal ∈ nodes, literal.interpolations = [])
    {spellings : List Spelling} (h : List.Forall₂ v.LiteralSpells nodes spellings) :
    ∃ bodies, List.Forall₂ v.BodyDecodes nodes bodies ∧
      spellings = bodies.map Spelling.ofText := by
  induction h with
  | nil => exact ⟨[], .nil, rfl⟩
  | cons hspells _ ih =>
    rw [List.forall_mem_cons] at hplain
    obtain ⟨body, hbody, rfl⟩ := (literalSpells_iff_of_plain hplain.1).mp hspells
    obtain ⟨bodies, hbodies, rfl⟩ := ih hplain.2
    exact ⟨body :: bodies, .cons hbody hbodies, rfl⟩

/-- If none of the literals is formatted, they come to one constant of all their bodies. -/
theorem textConstant_of_literals (hsource : v.source = .ofText names text)
    (h : ∀ literal ∈ nodes, literal.IsLiteral names text)
    (hplain : ∀ literal ∈ nodes, (literal.marks v.source).formatted = false)
    (hread : v.literals nodes = .ok tree) :
    ∃ bodies, List.Forall₂ v.BodyDecodes nodes bodies ∧
      tree = .textConstant (nodes.any fun literal => (literal.marks v.source).bytes)
        (nodes.head?.any fun literal => (literal.marks v.source).unicode) bodies.flatten := by
  obtain ⟨lists, hlists, rfl⟩ := literals_eq_ok_iff.mp hread
  have hany : (nodes.map (Cst.marks v.source)).any Marks.formatted = false := by
    simpa using hplain
  have hspells := (forall₂_literalSpells_iff hsource h).mpr ⟨lists, hlists, rfl⟩
  obtain ⟨bodies, hbodies, hspelling⟩ := exists_bodies_of_plain
    (fun literal hliteral => (h literal hliteral).plain (hsource ▸ hplain literal hliteral)) hspells
  have htext : Piece.allText lists.flatten = String.ofList bodies.flatten := by
    rw [← String.ofList_toList (s := Piece.allText _), Piece.toList_allText,
      Piece.spellingOfAll_flatten, hspelling, Spelling.flatten_map_ofText, Spelling.text_ofText]
  refine ⟨bodies, hbodies, ?_⟩
  rw [Piece.toTree, hany, htext, List.any_map, List.head?_map, Option.any_map]
  rfl

end Visitor

namespace Reading

namespace Counted

/-- **Literals side by side keep their texts and their fields, in order.** They are read just if
each of them spells something: texts that are decoded, and values of fields that are read from the
depth at which the literals stand. If one of them is formatted, and only then, they come to a joined
string; it spells what they spell, with no text empty and none beside another. If none is, they come
to one constant of all their bodies: bytes if one of them is, and otherwise with the mark `u` if the
first one has it. -/
theorem runFrom_literals {names : CharacterName.Lookup} {text : String} {nodes : List Cst}
    (h : ∀ literal ∈ nodes, literal.IsLiteral names text) (depth : Nat) :
    ((∃ tree, ((Visitor.literals ⟨.ofText names text, Counted.read (.ofText names text)⟩
        nodes).runFrom depth).1 = .ok tree) ↔
      ∃ spellings,
        List.Forall₂ (visitorFrom (.ofText names text) depth).LiteralSpells nodes spellings) ∧
    ∀ tree, ((Visitor.literals ⟨.ofText names text, Counted.read (.ofText names text)⟩
        nodes).runFrom depth).1 = .ok tree →
      (tree.kind? = some "JoinedStr" ↔
        ∃ literal ∈ nodes, (literal.marks (.ofText names text)).formatted = true) ∧
      ((∃ literal ∈ nodes, (literal.marks (.ofText names text)).formatted = true) → ∃ spellings,
        List.Forall₂ (visitorFrom (.ofText names text) depth).LiteralSpells nodes spellings ∧
        tree.JoinsTo spellings.flatten) ∧
      ((∀ literal ∈ nodes, (literal.marks (.ofText names text)).formatted = false) → ∃ bodies,
        List.Forall₂ (visitorFrom (.ofText names text) depth).BodyDecodes nodes bodies ∧
        tree = .textConstant (nodes.any fun literal => (literal.marks (.ofText names text)).bytes)
          (nodes.head?.any fun literal => (literal.marks (.ofText names text)).unicode)
          bodies.flatten) := by
  have halike := List.forall₂_same.mpr fun d (_ : d ∈ nodes) =>
    handedDown_alike (.ofText names text) depth d
  have hrun := ((handedDown (.ofText names text) depth).literals_agree halike).runFrom_eq
  simp only [hrun]
  refine ⟨Visitor.exists_literals_iff rfl h, fun tree htree => ?_⟩
  have hformatted := fun hany => Visitor.joinsTo_of_literals rfl h hany htree
  have hplain := fun hnone => Visitor.textConstant_of_literals rfl h hnone htree
  refine ⟨?_, hformatted, hplain⟩
  constructor
  · intro hkind
    by_contra hany
    have hnone (literal : Cst) (hliteral : literal ∈ nodes) :
        (literal.marks (.ofText names text)).formatted = false :=
      Bool.eq_false_iff.mpr fun hformatted => hany ⟨literal, hliteral, hformatted⟩
    obtain ⟨bodies, -, rfl⟩ := hplain hnone
    rw [Tree.kind?_textConstant] at hkind
    revert hkind
    decide
  · intro hany
    obtain ⟨spellings, -, values, rfl, -⟩ := hformatted hany
    rfl

/-- The text `'a' f'b{x}c' u'd'`. -/
def adjacentText : String := "'a' f'b\x7bx\x7dc' u'd'"

/-- The text as a source. -/
def adjacentSource : Source := .ofText CharacterName.noNames adjacentText

/-- A literal of one letter, with this opening quote, at an offset. -/
def letterLiteral (start opening : Nat) : Cst :=
  .sound "string" none true start (start + opening + 2) 0 start [
    .sound "string_start" none true start (start + opening) 0 start [],
    .sound "string_end" none true (start + opening + 1) (start + opening + 2) 0
      (start + opening + 1) []]

/-- The literals of the text. -/
def adjacentLiterals : List Cst := [
  letterLiteral 0 1,
  .sound "string" none true 4 12 0 4 [
    .sound "string_start" none true 4 6 0 4 [],
    .sound "interpolation" none true 7 10 0 7 [
      .sound "\x7b" none false 7 8 0 7 [], operand "expression" 8,
      .sound "\x7d" none false 9 10 0 9 []],
    .sound "string_end" none true 11 12 0 11 []],
  letterLiteral 13 2]

/-- What the literals are read as. -/
def adjacentTree : Tree :=
  .record "JoinedStr" [("values", .seq [
    .constant (.str "ab"),
    .record "FormattedValue" [
      ("value", .name "x" .load), ("conversion", .int (-1)), ("format_spec", .absent)],
    .constant (.str "cd")])]

/-- Texts on either side of a seam between two literals are joined. -/
theorem runFrom_literals_adjacent :
    ((Visitor.literals ⟨adjacentSource, Counted.read adjacentSource⟩ adjacentLiterals).runFrom
        0).1 = .ok adjacentTree ∧
    ∃ spellings,
      List.Forall₂ (visitorFrom adjacentSource 0).LiteralSpells adjacentLiterals spellings ∧
      adjacentTree.JoinsTo spellings.flatten := by
  have h : ∀ literal ∈ adjacentLiterals,
      literal.IsLiteral CharacterName.noNames adjacentText := by
    rw [adjacentLiterals, List.forall_mem_cons, List.forall_mem_cons, List.forall_mem_singleton]
    refine ⟨⟨?_, nofun, fun _ => rfl⟩, ⟨?_, by decide, by decide⟩, ⟨?_, nofun, fun _ => rfl⟩⟩
    · exact .last ⟨by decide, by decide, by decide⟩
    · exact .node ⟨by decide, by decide, by decide⟩ (by decide)
        (.last ⟨by decide, by decide, by decide⟩)
    · exact .last ⟨by decide, by decide, by decide⟩
  have hread : ((Visitor.literals ⟨adjacentSource, Counted.read adjacentSource⟩
      adjacentLiterals).runFrom 0).1 = .ok adjacentTree := by decide +kernel
  obtain ⟨-, hresult⟩ := runFrom_literals h 0
  obtain ⟨-, hjoined, -⟩ := hresult _ hread
  exact ⟨hread, hjoined (by decide)⟩

end Counted

end Reading

end TreeText
