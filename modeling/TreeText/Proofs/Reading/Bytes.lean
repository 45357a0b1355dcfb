import TreeText.Proofs.Reading.Literal
import TreeText.Proofs.Text.ByteRange

/-!
# Literals of bytes

Literals of bytes side by side are read as one constant, whose text should have one character for
each byte. A raw literal stands for the text between its quotes, which is in ASCII, and any other
for this text decoded. So the constant denotes bytes just if no literal has an octal number beyond
the last byte among its escapes (`runFrom_bytes_upTo_iff`), and that is not always so
(`not_forall_bytes_upTo`).
-/

namespace TreeText

open Escape (BytesUnless IsAscii UpTo)

namespace Cst

/-- The text between the quotes of a literal. -/
def body? (source : Source) (literal : Cst) : Option String :=
  source.slice? literal.bodyStart literal.bodyStop

/-- A literal of bytes in a text, with nothing but ASCII between its quotes. -/
structure IsBytes (names : CharacterName.Lookup) (text : String) (literal : Cst) : Prop extends
    literal.IsLiteral names text where
  bytes : (literal.marks (.ofText names text)).bytes = true
  unformatted : (literal.marks (.ofText names text)).formatted = false
  ascii : ∀ body ∈ literal.body? (.ofText names text), IsAscii body.toList

/-- A literal that is not raw has an octal number beyond the last byte among its escapes. -/
def HasWide (source : Source) (literal : Cst) : Prop :=
  (literal.marks source).raw = false ∧
    ∃ body ∈ literal.body? source, Escape.HasWide body.toList

end Cst

/-- The constant of bytes with one character for each of them. -/
def Tree.bytes (text : List Char) : Tree := .constant (.scalar "bytes" (String.ofList text))

theorem Tree.bytes_inj {text text' : List Char} : bytes text = bytes text' ↔ text = text' := by
  constructor
  · intro h
    have hfields := (record_inj ["value", "kind"] rfl rfl (by decide)).mp h
    have hscalar := (Prod.mk.inj (List.cons.inj hfields).1).2
    have hvalues := (record_inj ["value"] rfl rfl (by decide)).mp hscalar
    have htext := str.inj (Prod.mk.inj (List.cons.inj hvalues).1).2
    exact String.ofList_injective htext
  · exact congrArg bytes

/-- What a text in ASCII stands for in a literal of bytes. -/
theorem Marks.decode_bytes (names : CharacterName.Lookup) {marks : Marks} {text : List Char}
    (hbytes : marks.bytes = true) (hunformatted : marks.formatted = false) (hascii : IsAscii text) :
    ∃ decoded, marks.decode names text = .ok decoded ∧
      BytesUnless (marks.raw = false ∧ Escape.HasWide text) decoded := by
  rw [Marks.decode, hunformatted, hbytes]
  cases marks.raw with
  | true => exact ⟨text, rfl, .of_ascii hascii nofun⟩
  | false =>
    obtain ⟨decoded, hdecode, hdecoded⟩ := Escape.decodeEscapesBy_bytes names hascii
    exact ⟨decoded, hdecode, hdecoded.congr (and_iff_right rfl)⟩

namespace Visitor

open Reading (Result)

variable {v : Visitor Result} {names : CharacterName.Lookup} {text : String} {literal : Cst}
  {nodes : List Cst}

/-- A literal of bytes has one decoding, which is in the range of bytes unless an octal number takes
it out. -/
theorem exists_bodyDecodes_iff (hsource : v.source = .ofText names text)
    (h : literal.IsBytes names text) :
    ∃ decoded, (∀ body, v.BodyDecodes literal body ↔ body = decoded) ∧
      BytesUnless (literal.HasWide v.source) decoded := by
  obtain ⟨raw, hraw⟩ : ∃ raw, literal.body? (.ofText names text) = some raw := by
    have hapart := h.apart
    rw [h.plain h.unformatted] at hapart
    cases hapart with
    | last hspan => exact Source.exists_slice? names hspan
  obtain ⟨decoded, hdecode, hdecoded⟩ :=
    Marks.decode_bytes v.source.names h.bytes h.unformatted (h.ascii raw hraw)
  rw [← hsource] at hraw hdecode hdecoded
  refine ⟨decoded, fun body => ⟨?_, ?_⟩, hdecoded.congr ?_⟩
  · rintro ⟨raw', hraw', hbody⟩
    cases hraw.symm.trans hraw'
    exact Except.ok.inj (hbody.symm.trans hdecode)
  · rintro rfl
    exact ⟨raw, hraw, hdecode⟩
  · simp only [Cst.HasWide, hraw, Option.mem_some, exists_eq_left']

/-- The decodings of literals of bytes, one after the other. -/
theorem exists_flatten_bodies (hsource : v.source = .ofText names text)
    (h : ∀ literal ∈ nodes, literal.IsBytes names text) :
    ∃ stored, (∃ bodies, List.Forall₂ v.BodyDecodes nodes bodies) ∧
      (∀ bodies, List.Forall₂ v.BodyDecodes nodes bodies → bodies.flatten = stored) ∧
      BytesUnless (∃ literal ∈ nodes, literal.HasWide v.source) stored := by
  induction nodes with
  | nil =>
    refine ⟨[], ⟨[], .nil⟩, fun bodies hbodies => ?_, .of_ascii nofun nofun⟩
    cases hbodies
    rfl
  | cons literal nodes ih =>
    rw [List.forall_mem_cons] at h
    obtain ⟨first, hfirst, hbytes⟩ := exists_bodyDecodes_iff hsource h.1
    obtain ⟨others, ⟨bodies, hbodies⟩, hothers, hbytes'⟩ := ih h.2
    refine ⟨first ++ others, ⟨first :: bodies, .cons ((hfirst _).mpr rfl) hbodies⟩, ?_,
      (hbytes.append hbytes').congr (List.exists_mem_cons_iff ..)⟩
    rintro _ (_ | ⟨hbody, hrest⟩)
    rw [List.flatten_cons, (hfirst _).mp hbody, hothers _ hrest]

/-- Literals without fields spell what their bodies stand for. -/
theorem forall₂_literalSpells_of_bodies (hplain : ∀ literal ∈ nodes, literal.interpolations = [])
    {bodies : List (List Char)} (h : List.Forall₂ v.BodyDecodes nodes bodies) :
    List.Forall₂ v.LiteralSpells nodes (bodies.map Spelling.ofText) := by
  induction h with
  | nil => exact .nil
  | cons hbody _ ih =>
    rw [List.forall_mem_cons] at hplain
    exact .cons ((literalSpells_iff_of_plain hplain.1).mpr ⟨_, hbody, rfl⟩) (ih hplain.2)

/-- Literals of bytes are always read, as one constant of bytes. -/
theorem literals_eq_bytes (hsource : v.source = .ofText names text) (hne : nodes ≠ [])
    (h : ∀ literal ∈ nodes, literal.IsBytes names text) :
    ∃ stored, v.literals nodes = .ok (.bytes stored) ∧
      BytesUnless (∃ literal ∈ nodes, literal.HasWide v.source) stored := by
  obtain ⟨stored, ⟨bodies, hbodies⟩, hflatten, hstored⟩ := exists_flatten_bodies hsource h
  have hliteral := fun literal hmem => (h literal hmem).toIsLiteral
  have hunformatted (literal : Cst) (hmem : literal ∈ nodes) :
      (literal.marks v.source).formatted = false :=
    hsource ▸ (h literal hmem).unformatted
  have hspells := forall₂_literalSpells_of_bodies
    (fun literal hmem => (h literal hmem).plain (h literal hmem).unformatted) hbodies
  obtain ⟨tree, htree⟩ := (exists_literals_iff hsource hliteral).mpr ⟨_, hspells⟩
  obtain ⟨bodies', hbodies', rfl⟩ := textConstant_of_literals hsource hliteral hunformatted htree
  have hbytes : (nodes.any fun literal => (literal.marks v.source).bytes) = true := by
    obtain ⟨literal, hmem⟩ := List.exists_mem_of_ne_nil nodes hne
    exact List.any_eq_true.mpr ⟨literal, hmem, hsource ▸ (h literal hmem).bytes⟩
  rw [hflatten _ hbodies', hbytes] at htree
  exact ⟨stored, htree, hstored⟩

end Visitor

namespace Reading

namespace Counted

/-- **Decoded bytes are bytes, unless there is an octal number beyond the last one.** A text in
ASCII is always decoded as bytes, to characters up to U+01FF; they are all up to U+00FF, and so
denote bytes, just if no segment of the text is an octal number beyond. Literals of bytes side by
side are always read as one constant of bytes; its text is up to U+01FF, and denotes bytes just if
none of the literals has such an octal number among its escapes. -/
theorem runFrom_bytes_upTo_iff (names : CharacterName.Lookup) (raw : List Char) (text : String)
    (nodes : List Cst) (depth : Nat) :
    (IsAscii raw → ∃ decoded, decodeEscapesBy names true raw = .ok decoded ∧
      UpTo 0x1FF decoded ∧ (UpTo 0xFF decoded ↔ ¬ Escape.HasWide raw)) ∧
    (nodes ≠ [] → (∀ literal ∈ nodes, literal.IsBytes names text) →
      ∃ stored, ((Visitor.literals ⟨.ofText names text, Counted.read (.ofText names text)⟩
          nodes).runFrom depth).1 = .ok (.bytes stored) ∧
        UpTo 0x1FF stored ∧
        (UpTo 0xFF stored ↔ ∀ literal ∈ nodes, ¬ literal.HasWide (.ofText names text))) := by
  constructor
  · intro hascii
    obtain ⟨decoded, hdecode, hdecoded⟩ := Escape.decodeEscapesBy_bytes names hascii
    exact ⟨decoded, hdecode, hdecoded.upTo, hdecoded.upTo_iff⟩
  · intro hne h
    have halike := List.forall₂_same.mpr fun d (_ : d ∈ nodes) =>
      handedDown_alike (.ofText names text) depth d
    rw [((handedDown (.ofText names text) depth).literals_agree halike).runFrom_eq]
    obtain ⟨stored, hread, hstored⟩ := Visitor.literals_eq_bytes (v := visitorFrom _ _) rfl hne h
    refine ⟨stored, hread, hstored.upTo, hstored.upTo_iff.trans ?_⟩
    push Not
    rfl

/-- A literal in a text: its opening mark and its closing one, around a body of some length. -/
def quotedLiteral (start opening length : Nat) : Cst :=
  .sound "string" none true start (start + opening + length + 1) 0 start [
    .sound "string_start" none true start (start + opening) 0 start [],
    .sound "string_end" none true (start + opening + length) (start + opening + length + 1) 0
      (start + opening + length) []]

/-- Bytes by their numbers, and beside them a raw literal. -/
def numberedText : String := "b'\\x41\\377' rb'\\777'"

def numberedSource : Source := .ofText CharacterName.noNames numberedText

/-- The literals of the text. -/
def numberedLiterals : List Cst := [quotedLiteral 0 2 8, quotedLiteral 12 3 4]

theorem isBytes_numberedLiterals :
    ∀ literal ∈ numberedLiterals, literal.IsBytes CharacterName.noNames numberedText := by
  rw [numberedLiterals, List.forall_mem_cons, List.forall_mem_singleton]
  refine ⟨⟨⟨?_, nofun, fun _ => rfl⟩, by decide, by decide, by decide +kernel⟩,
    ⟨⟨?_, nofun, fun _ => rfl⟩, by decide, by decide, by decide +kernel⟩⟩
  · exact .last ⟨by decide, by decide, by decide⟩
  · exact .last ⟨by decide, by decide, by decide⟩

/-- The last byte in octal digits is in the range, and so is what stands between the quotes of the
raw literal. Where it is not raw, it is an octal number beyond. -/
theorem runFrom_numberedLiterals :
    IsAscii ['\\', '7', '7', '7'] ∧ Escape.HasWide ['\\', '7', '7', '7'] ∧
    (∀ literal ∈ numberedLiterals, literal.IsBytes CharacterName.noNames numberedText) ∧
    ((Visitor.literals ⟨numberedSource, Counted.read numberedSource⟩
      numberedLiterals).runFrom 0).1 = .ok (.bytes ['A', '\u00ff', '\\', '7', '7', '7']) ∧
    ∀ literal ∈ numberedLiterals, ¬ literal.HasWide numberedSource := by
  obtain ⟨hdecode, hliterals⟩ :=
    runFrom_bytes_upTo_iff CharacterName.noNames ['\\', '7', '7', '7'] numberedText
      numberedLiterals 0
  have hascii : IsAscii ['\\', '7', '7', '7'] := by decide
  have hread : ((Visitor.literals ⟨numberedSource, Counted.read numberedSource⟩
      numberedLiterals).runFrom 0).1 = .ok (.bytes ['A', '\u00ff', '\\', '7', '7', '7']) := by
    decide +kernel
  refine ⟨hascii, ?_, isBytes_numberedLiterals, hread, ?_⟩
  · obtain ⟨decoded, hdecoded, -, hiff⟩ := hdecode hascii
    have hvalue : decodeEscapesBy CharacterName.noNames true ['\\', '7', '7', '7'] =
        .ok ['\u01ff'] := by decide +kernel
    cases hvalue.symm.trans hdecoded
    exact not_not.mp fun hnot => absurd (hiff.mpr hnot) (by decide)
  · obtain ⟨stored, hstored, -, hiff⟩ := hliterals (by decide) isBytes_numberedLiterals
    obtain rfl := Tree.bytes_inj.mp (Except.ok.inj (hread.symm.trans hstored))
    exact hiff.mp (by decide)

/-- Decoded bytes are not always bytes: `\777` comes to U+01FF, and a literal of it with it. -/
theorem not_forall_bytes_upTo :
    (¬ ∀ names text decoded, IsAscii text → decodeEscapesBy names true text = .ok decoded →
      UpTo 0xFF decoded) ∧
    ¬ ∀ (names : CharacterName.Lookup) (text : String) (stored : List Char) (nodes : List Cst)
        (depth : Nat),
      (∀ literal ∈ nodes, literal.IsBytes names text) →
      ((Visitor.literals ⟨.ofText names text, Counted.read (.ofText names text)⟩ nodes).runFrom
        depth).1 = .ok (.bytes stored) →
      UpTo 0xFF stored := by
  constructor
  · intro h
    have hupTo := h CharacterName.noNames ['\\', '7', '7', '7'] ['\u01ff'] (by decide)
      (by decide +kernel)
    revert hupTo
    decide
  · intro h
    have hbytes : ∀ literal ∈ [quotedLiteral 0 2 4],
        literal.IsBytes CharacterName.noNames "b'\\777'" := by
      rw [List.forall_mem_singleton]
      exact ⟨⟨.last ⟨by decide, by decide, by decide⟩, nofun, fun _ => rfl⟩, by decide, by decide,
        by decide +kernel⟩
    have hupTo := h _ _ ['\u01ff'] _ 0 hbytes (by decide +kernel)
    revert hupTo
    decide

end Counted

end Reading

end TreeText
