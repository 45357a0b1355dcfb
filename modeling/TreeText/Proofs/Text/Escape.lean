import Mathlib.Algebra.Group.Nat.Defs
import Mathlib.Data.List.Forall2
import Mathlib.Data.List.TakeWhile
import TreeText.Proofs.Text.CharacterName
import TreeText.Text.Escape

/-!
# Escaped texts are read back

A character can be written in many ways: as itself, by one letter, by its code point in one of four
widths, or by its name. `Escape.Spelling` lists them, each on its own and without the reader, and
`Escape.Spells` puts the spellings of a text one after the other, with broken lines anywhere between
them. Decoding gives the text back, whatever spellings were chosen (`decodeEscapesBy_of_spells`).

Every spelling tells where it ends: one letter, a fixed number of digits, or the brace that closes a
name. So `Spelling.decode` holds in front of any text, even one that starts with another digit, and
the whole text follows by induction over the spellings.
-/

namespace TreeText

/-! ## Numerals -/

/-- The last digits of a number to a base, as many as `width`, the highest first. -/
def numeral (base : Nat) : (width code : Nat) → List Nat
  | 0, _ => []
  | width + 1, code => numeral base width (code / base) ++ [code % base]

theorem length_numeral (base width code : Nat) : (numeral base width code).length = width := by
  induction width generalizing code with
  | zero => rfl
  | succ width ih => rw [numeral, List.length_append, ih, List.length_singleton]

theorem lt_of_mem_numeral {base width code digit : Nat} (hbase : 0 < base)
    (h : digit ∈ numeral base width code) : digit < base := by
  induction width generalizing code with
  | zero => cases h
  | succ width ih =>
    rw [numeral] at h
    rcases List.mem_append.mp h with h | h
    · exact ih h
    · rw [List.mem_singleton.mp h]
      exact Nat.mod_lt _ hbase

/-- A numeral that is wide enough shows the whole number. -/
theorem foldl_numeral {base width code : Nat} (h : code < base ^ width) :
    (numeral base width code).foldl (fun value digit => value * base + digit) 0 = code := by
  induction width generalizing code with
  | zero =>
    rw [Nat.pow_zero] at h
    show 0 = code
    omega
  | succ width ih =>
    have hdiv : code / base < base ^ width := by
      rw [Nat.pow_succ] at h
      exact Nat.div_lt_of_lt_mul (Nat.mul_comm _ _ ▸ h)
    rw [numeral, List.foldl_append, ih hdiv]
    show code / base * base + code % base = code
    exact Nat.div_add_mod' code base

/-! ## Hexadecimal digits of either case -/

/-- A hexadecimal digit, in lower or upper case. -/
def IsHexDigit (digit : Nat) (c : Char) : Prop :=
  c = hexChar digit ∨ c = (hexChar digit).toUpper

/-- A number written with so many hexadecimal digits, each in lower or upper case. -/
def HexWritten (width code : Nat) (digits : List Char) : Prop :=
  List.Forall₂ IsHexDigit (numeral 16 width code) digits

theorem hexDigit?_of_isHexDigit {digit : Nat} {c : Char} (hdigit : digit < 16)
    (h : IsHexDigit digit c) : hexDigit? c = some digit := by
  have hboth : ∀ d < 16, hexDigit? (hexChar d) = some d ∧
      hexDigit? (hexChar d).toUpper = some d := by
    decide
  rcases h with rfl | rfl
  · exact (hboth digit hdigit).1
  · exact (hboth digit hdigit).2

theorem hexNumber?_go_of_forall₂ {digits : List Nat} {text : List Char} (value : Nat)
    (hdigits : ∀ digit ∈ digits, digit < 16) (h : List.Forall₂ IsHexDigit digits text) :
    hexNumber?.go value text =
      some (digits.foldl (fun value digit => value * 16 + digit) value) := by
  induction h generalizing value with
  | nil => rfl
  | cons hdigit _ ih =>
    rw [List.forall_mem_cons] at hdigits
    rw [hexNumber?.go, hexDigit?_of_isHexDigit hdigits.1 hdigit]
    exact ih _ hdigits.2

namespace HexWritten

variable {width code : Nat} {digits : List Char}

theorem length_digits (h : HexWritten width code digits) : digits.length = width := by
  rw [← List.Forall₂.length_eq h, length_numeral]

theorem isHexDigit (h : HexWritten width code digits) :
    ∀ c ∈ digits, Escape.isHexDigit c = true := by
  intro c hc
  obtain ⟨i, hi, rfl⟩ := List.getElem_of_mem hc
  have hi' : i < (numeral 16 width code).length := by
    rw [List.Forall₂.length_eq h]
    exact hi
  have hdigit : IsHexDigit (numeral 16 width code)[i] digits[i] := List.Forall₂.get h hi' hi
  have hlt := lt_of_mem_numeral (by decide) (List.getElem_mem hi')
  rw [Escape.isHexDigit, hexDigit?_of_isHexDigit hlt hdigit]
  rfl

theorem hexNumber?_eq (h : HexWritten width code digits) (hcode : code < 16 ^ width) :
    hexNumber? digits = some code := by
  have hdigits : ∀ digit ∈ numeral 16 width code, digit < 16 :=
    fun digit hdigit => lt_of_mem_numeral (by decide) hdigit
  rw [hexNumber?, hexNumber?_go_of_forall₂ 0 hdigits h, foldl_numeral hcode]

end HexWritten

namespace Escape

/-! ## Spellings -/

/-- The letters that stand for a character behind a backslash. -/
def letters : List (Char × Char) := [
  ('\\', '\\'), ('\'', '\''), ('"', '"'), ('a', '\x07'), ('b', '\x08'), ('f', '\x0c'),
  ('n', '\n'), ('r', '\r'), ('t', '\t'), ('v', '\x0b')]

/-- The ways to write a character in a literal, of bytes or of text. -/
inductive Spelling (names : CharacterName.Lookup) (bytes : Bool) (c : Char) : List Char → Prop
  | self (hplain : c ≠ '\\') : Spelling names bytes c [c]
  | letter {mark : Char} (hletter : (mark, c) ∈ letters) : Spelling names bytes c ['\\', mark]
  | octal (hcode : c.toNat ≤ 0x1FF) :
    Spelling names bytes c ('\\' :: (numeral 8 3 c.toNat).map hexChar)
  | hex {digits : List Char} (hcode : c.toNat ≤ 0xFF) (hdigits : HexWritten 2 c.toNat digits) :
    Spelling names bytes c ('\\' :: 'x' :: digits)
  | short {digits : List Char} (htext : bytes = false) (hcode : c.toNat ≤ 0xFFFF)
    (hdigits : HexWritten 4 c.toNat digits) : Spelling names bytes c ('\\' :: 'u' :: digits)
  | long {digits : List Char} (htext : bytes = false) (hdigits : HexWritten 8 c.toNat digits) :
    Spelling names bytes c ('\\' :: 'U' :: digits)
  | named {name : List Char} (htext : bytes = false) (hname : names name = some c) :
    Spelling names bytes c ('\\' :: 'N' :: '{' :: (name ++ ['}']))

/-- The line ends that vanish behind a backslash. -/
def lineEnds : List (List Char) := [['\n'], ['\r', '\n']]

/-- A text in a literal: its characters spelled one after the other, with broken lines anywhere
between them. -/
inductive Spells (names : CharacterName.Lookup) (bytes : Bool) : List Char → List Char → Prop
  | nil : Spells names bytes [] []
  | char {c : Char} {spelling text written : List Char} (hc : Spelling names bytes c spelling)
    (htext : Spells names bytes text written) : Spells names bytes (c :: text) (spelling ++ written)
  | brokenLine {ending text written : List Char} (hending : ending ∈ lineEnds)
    (htext : Spells names bytes text written) : Spells names bytes text ('\\' :: ending ++ written)

/-! ## What units yield -/

variable {names : CharacterName.Lookup} {bytes : Bool} {c : Char} {text : List Char}

theorem charOf_toNat (c : Char) : charOf c.toNat = c := by
  have hvalid : c.toNat.isValidChar := c.valid
  rw [charOf, if_pos hvalid, Char.ofNat_toNat]

theorem toNat_lt (c : Char) : c.toNat < 16 ^ 8 := by
  have hvalid : c.toNat.isValidChar := c.valid
  unfold Nat.isValidChar at hvalid
  omega

theorem unit_lineEnd (names : CharacterName.Lookup) (bytes : Bool) (text : List Char)
    {ending : List Char} (h : ending ∈ lineEnds) :
    ∃ first rest, ending = first :: rest ∧
      unit names bytes first (rest ++ text) = .ok ([], text) := by
  rw [lineEnds, List.mem_cons, List.mem_singleton] at h
  rcases h with rfl | rfl
  · exact ⟨'\n', [], rfl, rfl⟩
  · exact ⟨'\r', ['\n'], rfl, rfl⟩

theorem unit_letter {mark : Char} (h : (mark, c) ∈ letters) :
    unit names bytes mark text = .ok ([c], text) := by
  have hletters : ∀ pair ∈ letters,
      pair.1 ≠ '\n' ∧ pair.1 ≠ '\r' ∧ letter? pair.1 = some pair.2 := by
    decide
  obtain ⟨hfeed, hreturn, hletter⟩ := hletters _ h
  rw [unit, if_neg hfeed, if_neg hreturn, hletter]

/-- Digits of base eight are no line ends and no letters. -/
theorem hexChar_octal : ∀ digit < 8, hexChar digit ≠ '\n' ∧ hexChar digit ≠ '\r' ∧
    letter? (hexChar digit) = none ∧ isOctalDigit (hexChar digit) = true ∧
    (hexChar digit).toNat - '0'.toNat = digit := by
  decide

theorem octalUnit_eq {first second third : Nat} (hfirst : first < 8) (hsecond : second < 8)
    (hthird : third < 8) :
    octalUnit (hexChar first) (hexChar second :: hexChar third :: text) =
      ([charOf ((first * 8 + second) * 8 + third)], text) := by
  obtain ⟨-, -, -, -, hvalue⟩ := hexChar_octal first hfirst
  obtain ⟨-, -, -, hdigit', hvalue'⟩ := hexChar_octal second hsecond
  obtain ⟨-, -, -, hdigit'', hvalue''⟩ := hexChar_octal third hthird
  -- At most two more digits are taken, so a digit in the text behind is not.
  have hmore : ((hexChar second :: hexChar third :: text).take 2).takeWhile isOctalDigit =
      [hexChar second, hexChar third] := by
    rw [List.take_succ_cons, List.take_succ_cons, List.take_zero, List.takeWhile_cons,
      if_pos hdigit', List.takeWhile_cons, if_pos hdigit'', List.takeWhile_nil]
  rw [octalUnit, hmore, octal]
  simp only [List.foldl_cons, List.foldl_nil, hvalue, hvalue', hvalue'', Nat.zero_mul, Nat.zero_add]
  rfl

theorem unit_octal (names : CharacterName.Lookup) (bytes : Bool) (text : List Char)
    (hcode : c.toNat ≤ 0x1FF) :
    ∃ first rest, (numeral 8 3 c.toNat).map hexChar = first :: rest ∧
      unit names bytes first (rest ++ text) = .ok ([c], text) := by
  have hlt (code : Nat) : code % 8 < 8 := Nat.mod_lt _ (by decide)
  obtain ⟨hfeed, hreturn, hletter, hdigit, -⟩ := hexChar_octal _ (hlt (c.toNat / 8 / 8))
  have hcode : (c.toNat / 8 / 8 % 8 * 8 + c.toNat / 8 % 8) * 8 + c.toNat % 8 = c.toNat := by
    omega
  refine ⟨hexChar (c.toNat / 8 / 8 % 8), [hexChar (c.toNat / 8 % 8), hexChar (c.toNat % 8)],
    rfl, ?_⟩
  rw [unit, if_neg hfeed, if_neg hreturn, hletter]
  dsimp only
  rw [if_pos hdigit, List.cons_append, List.cons_append, List.nil_append,
    octalUnit_eq (hlt _) (hlt _) (hlt _), hcode, charOf_toNat]

/-- So many digits are taken as the mark asks for, whatever stands behind them. -/
theorem hexUnit_eq {mark : Char} {width : Nat} {digits : List Char} (hcode : c.toNat < 16 ^ width)
    (h : HexWritten width c.toNat digits) : hexUnit mark width (digits ++ text) = ([c], text) := by
  have hdigits : ((digits ++ text).take width).takeWhile isHexDigit = digits := by
    rw [← h.length_digits, List.take_left, List.takeWhile_eq_self_iff]
    exact h.isHexDigit
  rw [hexUnit, hdigits, if_pos h.length_digits, h.hexNumber?_eq hcode, List.drop_left]
  dsimp only
  rw [charOf_toNat]

theorem unit_hex {digits : List Char} (hcode : c.toNat ≤ 0xFF)
    (h : HexWritten 2 c.toNat digits) :
    unit names bytes 'x' (digits ++ text) = .ok ([c], text) := by
  show Except.ok (hexUnit 'x' 2 (digits ++ text)) = _
  rw [hexUnit_eq (by omega) h]

theorem unit_short {digits : List Char} (htext : bytes = false) (hcode : c.toNat ≤ 0xFFFF)
    (h : HexWritten 4 c.toNat digits) :
    unit names bytes 'u' (digits ++ text) = .ok ([c], text) := by
  subst htext
  show Except.ok (hexUnit 'u' 4 (digits ++ text)) = _
  rw [hexUnit_eq (by omega) h]

theorem unit_long {digits : List Char} (htext : bytes = false)
    (h : HexWritten 8 c.toNat digits) :
    unit names bytes 'U' (digits ++ text) = .ok ([c], text) := by
  subst htext
  show Except.ok (hexUnit 'U' 8 (digits ++ text)) = _
  rw [hexUnit_eq (toNat_lt c) h]

/-- A name goes up to the first closing brace. -/
theorem takeWhile_name {name : List Char} (hbrace : '}' ∉ name) :
    (name ++ '}' :: text).takeWhile (· != '}') = name := by
  rw [List.takeWhile_append_of_pos, List.takeWhile_cons_of_neg (by decide), List.append_nil]
  intro d hd
  rw [bne_iff_ne]
  intro heq
  exact hbrace (heq ▸ hd)

/-- What stands between braces is looked up. -/
theorem nameUnit_braces {name : List Char} (hne : name ≠ []) (hbrace : '}' ∉ name) :
    nameUnit names ('{' :: (name ++ '}' :: text)) =
      match names name with
      | some c => .ok ([c], text)
      | none => .error (.unknownName (String.ofList name)) := by
  have htake : (name ++ '}' :: text).takeWhile (· != '}') = name := takeWhile_name hbrace
  have hends : (name.isEmpty || decide (name.length = (name ++ '}' :: text).length)) = false := by
    rw [Bool.or_eq_false_iff, List.isEmpty_eq_false_iff, decide_eq_false_iff_not,
      List.length_append, List.length_cons]
    exact ⟨hne, by omega⟩
  have hdrop : (name ++ '}' :: text).drop (name.length + 1) = text := by
    rw [List.drop_append, List.drop_eq_nil_of_le (by omega), List.nil_append,
      Nat.add_sub_cancel_left]
    rfl
  rw [nameUnit, htake, hends, hdrop]
  rfl

theorem nameUnit_eq (hnames : names.FitsBraces) {name : List Char}
    (hname : names name = some c) :
    nameUnit names ('{' :: (name ++ '}' :: text)) = .ok ([c], text) := by
  obtain ⟨hne, hbrace⟩ := hnames name c hname
  rw [nameUnit_braces hne hbrace, hname]

theorem unit_named (hnames : names.FitsBraces) (htext : bytes = false) {name : List Char}
    (hname : names name = some c) :
    unit names bytes 'N' ('{' :: (name ++ '}' :: text)) = .ok ([c], text) := by
  rw [← nameUnit_eq hnames hname, htext]
  rfl

end Escape

/-! ## What decoding makes of a unit -/

section Decoding

variable {names : CharacterName.Lookup} {bytes : Bool} {c : Char} {text rest decoded : List Char}

theorem decodeEscapesBy_cons (hc : c ≠ '\\') :
    decodeEscapesBy names bytes (c :: text) =
      (decodeEscapesBy names bytes text).map (c :: ·) := by
  rw [decodeEscapesBy]
  · exact fun h => absurd h hc
  · exact fun _ _ h => absurd h hc

theorem decodeEscapesBy_of_unit (h : Escape.unit names bytes c text = .ok (decoded, rest)) :
    decodeEscapesBy names bytes ('\\' :: c :: text) =
      (decodeEscapesBy names bytes rest).map (decoded ++ ·) := by
  rw [decodeEscapesBy]
  split
  next fault herror => cases herror.symm.trans h
  next decoded' rest' hok =>
    obtain ⟨rfl, rfl⟩ := Prod.mk.inj (Except.ok.inj (hok.symm.trans h))
    rfl

theorem decodeEscapesBy_of_unit_error {fault : EscapeFault}
    (h : Escape.unit names bytes c text = .error fault) :
    decodeEscapesBy names bytes ('\\' :: c :: text) = .error fault := by
  rw [decodeEscapesBy]
  split
  next herror =>
    cases herror.symm.trans h
    rfl
  next hok => cases hok.symm.trans h

end Decoding

namespace Escape

variable {names : CharacterName.Lookup} {bytes : Bool} {c : Char} {text written : List Char}

/-- A spelling is read as its character, in front of any text. -/
theorem Spelling.decode (hnames : names.FitsBraces) {spelling : List Char}
    (h : Spelling names bytes c spelling) :
    decodeEscapesBy names bytes (spelling ++ text) =
      (decodeEscapesBy names bytes text).map (c :: ·) := by
  cases h with
  | self hplain => exact decodeEscapesBy_cons hplain
  | letter hletter => exact decodeEscapesBy_of_unit (unit_letter hletter)
  | octal hcode =>
    obtain ⟨first, rest, hdigits, hunit⟩ := unit_octal names bytes text hcode
    rw [hdigits]
    exact decodeEscapesBy_of_unit hunit
  | hex hcode hdigits => exact decodeEscapesBy_of_unit (unit_hex hcode hdigits)
  | short htext hcode hdigits => exact decodeEscapesBy_of_unit (unit_short htext hcode hdigits)
  | long htext hdigits => exact decodeEscapesBy_of_unit (unit_long htext hdigits)
  | named htext hname =>
    rw [List.cons_append, List.cons_append, List.cons_append, List.append_assoc]
    exact decodeEscapesBy_of_unit (unit_named hnames htext hname)

/-- A broken line leaves no trace. -/
theorem decodeEscapesBy_brokenLine {ending : List Char} (h : ending ∈ lineEnds) :
    decodeEscapesBy names bytes ('\\' :: ending ++ text) = decodeEscapesBy names bytes text := by
  obtain ⟨first, rest, rfl, hunit⟩ := unit_lineEnd names bytes text h
  rw [List.cons_append, List.cons_append, decodeEscapesBy_of_unit hunit]
  cases decodeEscapesBy names bytes text <;> rfl

theorem Spells.decode (hnames : names.FitsBraces) (h : Spells names bytes text written) :
    decodeEscapesBy names bytes written = .ok text := by
  induction h with
  | nil => rw [decodeEscapesBy]
  | char hc _ ih =>
    rw [hc.decode hnames, ih]
    rfl
  | brokenLine hending _ ih => rw [decodeEscapesBy_brokenLine hending, ih]

end Escape

/-- **Decoding undoes every way of escaping a text.** However the characters of a text are spelled
in a literal, each by itself, by one letter, by its code point in octal or in hexadecimal digits of
either case, or by its name, and whichever lines are broken between them, decoding gives the text
back, for any names that fit between braces, those in use among them. -/
theorem decodeEscapes_of_spells (bytes : Bool) (text written : List Char) :
    (∀ names : CharacterName.Lookup, names.FitsBraces →
      Escape.Spells names bytes text written →
      decodeEscapesBy names bytes written = .ok text) ∧
    (Escape.Spells CharacterName.find? bytes text written →
      decodeEscapesBy CharacterName.find? bytes written = .ok text) := by
  constructor
  · intro names hnames hspells
    exact hspells.decode hnames
  · intro hspells
    exact hspells.decode CharacterName.find?_fitsBraces

/-- An accented letter by its code point, a dash by its name, a broken line, and a letter in octal
digits before a digit that stands for itself. -/
def mixedSpelling : List Char :=
  ['\\', 'x', 'E', '9'] ++ (('\\' :: 'N' :: '{' :: ("EM DASH".toList ++ ['}'])) ++
    (('\\' :: ['\r', '\n']) ++ (['\\', '1', '0', '1'] ++ ['1'])))

/-- Several ways of escaping side by side are each read to their ends. -/
theorem decodeEscapes_mixedSpelling :
    CharacterName.Lookup.FitsBraces CharacterName.find? ∧
    Escape.Spells CharacterName.find? false ['\u00e9', '\u2014', 'A', '1'] mixedSpelling ∧
    decodeEscapesBy CharacterName.find? false mixedSpelling =
      .ok ['\u00e9', '\u2014', 'A', '1'] := by
  have hspells : Escape.Spells CharacterName.find? false ['\u00e9', '\u2014', 'A', '1']
      mixedSpelling :=
    .char (.hex (by decide) (.cons (.inr rfl) (.cons (.inl rfl) .nil)))
      (.char (.named rfl (by decide))
        (.brokenLine (by decide) (.char (.octal (by decide)) (.char (.self (by decide)) .nil))))
  obtain ⟨hany, -⟩ := decodeEscapes_of_spells false ['\u00e9', '\u2014', 'A', '1'] mixedSpelling
  exact ⟨CharacterName.find?_fitsBraces, hspells, hany _ CharacterName.find?_fitsBraces hspells⟩

end TreeText
