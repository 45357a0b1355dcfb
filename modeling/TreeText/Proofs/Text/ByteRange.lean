import Mathlib.Data.List.Induction
import TreeText.Proofs.Text.Segment

/-!
# The range of decoded bytes

A literal of bytes is written in ASCII, and its text should denote one byte with each character,
none beyond U+00FF. Two digits of base sixteen keep to that, and so do letters and characters that
stand for themselves. Three octal digits do not: they go up to U+01FF, and the decoder does not cut
the number down to a byte. So the text of a literal denotes bytes just if no segment of it is an
octal number beyond the last byte (`Escape.decodeEscapesBy_bytes`).
-/

namespace TreeText

namespace Escape

/-- All characters are of ASCII. -/
def IsAscii (text : List Char) : Prop := ∀ c ∈ text, c.toNat < 0x80

/-- No character is beyond this code point. -/
def UpTo (code : Nat) (text : List Char) : Prop := ∀ c ∈ text, c.toNat ≤ code

instance (text : List Char) : Decidable (IsAscii text) :=
  List.decidableBAll (fun c : Char => c.toNat < 0x80) text

instance (code : Nat) (text : List Char) : Decidable (UpTo code text) :=
  List.decidableBAll (fun c : Char => c.toNat ≤ code) text

/-- A segment is an octal number beyond the last byte. -/
def IsWide (segment : List Char) : Prop :=
  ∃ digits, segment = '\\' :: digits ∧ (∀ c ∈ digits, isOctalDigit c = true) ∧ 0xFF < octal digits

/-- Some segment of a text is an octal number beyond the last byte. -/
def HasWide (text : List Char) : Prop :=
  ∃ segments, Cut true text segments ∧ ∃ segment ∈ segments, IsWide segment

/-- Characters up to U+01FF, and even up to U+00FF, unless something wide is among what they were
written as. -/
structure BytesUnless (wide : Prop) (decoded : List Char) : Prop where
  upTo : UpTo 0x1FF decoded
  upTo_iff : UpTo 0xFF decoded ↔ ¬ wide

theorem IsAscii.upTo {text : List Char} (h : IsAscii text) : UpTo 0xFF text := fun c hc =>
  Nat.le_trans (Nat.le_of_lt (h c hc)) (by decide)

namespace BytesUnless

variable {wide wide' : Prop} {decoded more : List Char}

theorem of_upTo (h : UpTo 0xFF decoded) (hwide : ¬ wide) : BytesUnless wide decoded :=
  ⟨fun c hc => Nat.le_trans (h c hc) (by decide), iff_of_true h hwide⟩

theorem of_ascii (h : IsAscii decoded) (hwide : ¬ wide) : BytesUnless wide decoded :=
  .of_upTo h.upTo hwide

theorem congr (h : BytesUnless wide decoded) (hwide : wide' ↔ wide) : BytesUnless wide' decoded :=
  ⟨h.upTo, h.upTo_iff.trans (not_congr hwide.symm)⟩

theorem append (h : BytesUnless wide decoded) (hmore : BytesUnless wide' more) :
    BytesUnless (wide ∨ wide') (decoded ++ more) := by
  refine ⟨List.forall_mem_append.mpr ⟨h.upTo, hmore.upTo⟩, ?_⟩
  rw [UpTo, List.forall_mem_append, not_or]
  exact and_congr h.upTo_iff hmore.upTo_iff

end BytesUnless

/-! ## Numbers of digits -/

variable {c plain : Char} {digits : List Char}

theorem toNat_charOf {code : Nat} (h : code < 0xD800) : (charOf code).toNat = code := by
  have hvalid : code.isValidChar := .inl h
  rw [charOf, if_pos hvalid, Char.ofNat, dif_pos hvalid]
  rfl

theorem toNat_sub_lt_of_isOctalDigit (h : isOctalDigit c = true) : c.toNat - '0'.toNat < 8 := by
  rw [isOctalDigit, Bool.and_eq_true, decide_eq_true_iff, decide_eq_true_iff] at h
  have hle : c.toNat ≤ '7'.toNat := h.2
  have hseven : '7'.toNat < 8 + '0'.toNat := by decide
  omega

theorem octal_lt (h : ∀ c ∈ digits, isOctalDigit c = true) : octal digits < 8 ^ digits.length := by
  induction digits using List.reverseRecOn with
  | nil => exact Nat.one_pos
  | append_singleton digits c ih =>
    rw [List.forall_mem_append, List.forall_mem_singleton] at h
    have hdigit := toNat_sub_lt_of_isOctalDigit h.2
    have hbefore := ih h.1
    have hvalue : octal (digits ++ [c]) = octal digits * 8 + (c.toNat - '0'.toNat) := by
      rw [octal, List.foldl_append]
      rfl
    rw [hvalue, List.length_append, List.length_singleton, Nat.pow_succ]
    omega

theorem lt_of_hexDigit? {digit : Nat} (h : hexDigit? c = some digit) : digit < 16 := by
  have hnine : '9'.toNat < 16 + '0'.toNat := by decide
  have hlower : 'f'.toNat < 6 + 'a'.toNat := by decide
  have hupper : 'F'.toNat < 6 + 'A'.toNat := by decide
  unfold hexDigit? at h
  split at h
  · next hrange =>
    cases h
    have hle : c.toNat ≤ '9'.toNat := hrange.2
    omega
  split at h
  · next hrange =>
    cases h
    have hle : c.toNat ≤ 'f'.toNat := hrange.2
    omega
  split at h
  · next hrange =>
    cases h
    have hle : c.toNat ≤ 'F'.toNat := hrange.2
    omega
  · cases h

theorem lt_of_hexNumber?_go {value code : Nat} (h : hexNumber?.go value digits = some code) :
    code < (value + 1) * 16 ^ digits.length := by
  induction digits generalizing value with
  | nil =>
    cases h
    rw [List.length_nil, Nat.pow_zero, Nat.mul_one]
    exact Nat.lt_succ_self _
  | cons c digits ih =>
    rw [hexNumber?.go] at h
    split at h
    · cases h
    next digit hdigit =>
      have hlt := lt_of_hexDigit? hdigit
      calc code < (value * 16 + digit + 1) * 16 ^ digits.length := ih h
        _ ≤ ((value + 1) * 16) * 16 ^ digits.length := Nat.mul_le_mul_right _ (by omega)
        _ = (value + 1) * 16 ^ (c :: digits).length := by
          rw [List.length_cons, Nat.pow_succ, Nat.mul_assoc, Nat.mul_comm 16]

/-! ## Bytes by their forms -/

theorem Form.ofChar_of_isOctalDigit {bytes : Bool} (h : isOctalDigit c = true) :
    Form.ofChar bytes c = .octal := by
  have hnot (d : Char) (hd : isOctalDigit d = false) : c ≠ d := by
    rintro rfl
    exact Bool.noConfusion (h.symm.trans hd)
  have hletter : letter? c = none := by
    simp only [letter?, hnot '\\' rfl, hnot '\'' rfl, hnot '"' rfl, hnot 'a' rfl, hnot 'b' rfl,
      hnot 'f' rfl, hnot 'n' rfl, hnot 'r' rfl, hnot 't' rfl, hnot 'v' rfl, or_self, if_false]
  unfold Form.ofChar
  rw [if_neg (hnot '\n' rfl), if_neg (hnot '\r' rfl), hletter]
  dsimp only
  rw [if_pos h]

theorem letter?_ascii (h : letter? c = some plain) : plain.toNat < 0x80 := by
  unfold letter? at h
  split_ifs at h with hself
  · cases h
    rcases hself with rfl | rfl | rfl
    all_goals decide
  all_goals
    cases h
    decide

/-! ## Segments and texts -/

variable {segment text body rest : List Char} {segments : List (List Char)}

theorem octalUnit_bytes (hc : isOctalDigit c = true) (h : IsRun isOctalDigit 2 body rest) :
    BytesUnless (IsWide ('\\' :: c :: body)) (octalUnit c body).1 := by
  have hdigits : ∀ d ∈ c :: body, isOctalDigit d = true :=
    List.forall_mem_cons.mpr ⟨hc, h.forall_isDigit⟩
  have hlt : octal (c :: body) < 0x200 := by
    refine Nat.lt_of_lt_of_le (octal_lt hdigits) ?_
    calc 8 ^ (c :: body).length ≤ 8 ^ 3 :=
          Nat.pow_le_pow_right (by decide) (Nat.succ_le_succ h.length_le)
      _ ≤ 0x200 := by decide
  have hwide : IsWide ('\\' :: c :: body) ↔ 0xFF < octal (c :: body) := by
    constructor
    · rintro ⟨digits, hsegment, -, hvalue⟩
      cases hsegment
      exact hvalue
    · exact fun hvalue => ⟨c :: body, rfl, hdigits, hvalue⟩
  have hunit : (octalUnit c body).1 = [charOf (octal (c :: body))] := by
    rw [octalUnit, h.takeWhile_take_self]
  have hvalue := toNat_charOf (Nat.lt_trans hlt (by decide))
  constructor
  · rw [hunit, UpTo, List.forall_mem_singleton, hvalue]
    exact Nat.le_of_lt_succ hlt
  · rw [hunit, UpTo, List.forall_mem_singleton, hvalue, hwide, Nat.not_lt]

theorem hexUnit_upTo (hc : c.toNat < 0x80) (hbody : IsAscii body)
    (h : IsRun isHexDigit 2 body rest) : UpTo 0xFF (hexUnit c 2 body).1 := by
  have hkept : UpTo 0xFF ('\\' :: c :: body) := IsAscii.upTo <|
    List.forall_mem_cons.mpr ⟨by decide, List.forall_mem_cons.mpr ⟨hc, hbody⟩⟩
  rw [hexUnit, h.takeWhile_take_self]
  dsimp only
  split
  · next hlength =>
    split
    · next code hcode =>
      have hlt := lt_of_hexNumber?_go hcode
      rw [hlength] at hlt
      rw [UpTo, List.forall_mem_singleton, toNat_charOf (by omega)]
      omega
    · exact hkept
  · exact hkept

theorem not_isWide_of_ofChar (hform : Form.ofChar true c ≠ .octal) :
    ¬ IsWide ('\\' :: c :: body) := by
  rintro ⟨digits, hsegment, hdigits, -⟩
  cases hsegment
  exact hform (Form.ofChar_of_isOctalDigit (hdigits c List.mem_cons_self))

/-- An escape in ASCII denotes characters up to U+00FF, unless it is an octal number beyond. -/
theorem Form.Takes.read_bytes (h : (Form.ofChar true c).Takes body rest)
    (names : CharacterName.Lookup) (hc : c.toNat < 0x80) (hbody : IsAscii body) :
    ∃ decoded, ((Form.ofChar true c).read names c body).map Prod.fst = .ok decoded ∧
      BytesUnless (IsWide ('\\' :: c :: body)) decoded := by
  have hnot : Form.ofChar true c ≠ .octal → ¬ IsWide ('\\' :: c :: body) :=
    not_isWide_of_ofChar
  generalize hform : Form.ofChar true c = form at h hnot ⊢
  cases h with
  | lineFeed | lineBreak | carriageReturn => exact ⟨[], rfl, .of_ascii nofun (hnot nofun)⟩
  | @letter plain =>
    have hplain : IsAscii [plain] :=
      List.forall_mem_singleton.mpr (letter?_ascii (fits_of_ofChar hform))
    exact ⟨[plain], rfl, .of_ascii hplain (hnot nofun)⟩
  | octal hrun => exact ⟨_, rfl, octalUnit_bytes (fits_of_ofChar hform) hrun⟩
  | hex hrun =>
    obtain ⟨-, rfl⟩ | ⟨hbytes, -⟩ := fits_of_ofChar hform
    · exact ⟨_, rfl, .of_upTo (hexUnit_upTo hc hbody hrun) (hnot nofun)⟩
    · cases hbytes
  | name | noName => cases (fits_of_ofChar hform).2
  | other =>
    have hkept : IsAscii ['\\', c] :=
      List.forall_mem_cons.mpr ⟨by decide, List.forall_mem_singleton.mpr hc⟩
    exact ⟨['\\', c], rfl, .of_ascii hkept (hnot nofun)⟩

theorem IsSegment.decode_bytes (h : IsSegment true segment rest) (names : CharacterName.Lookup)
    (hascii : IsAscii segment) :
    ∃ decoded, decodeEscapesBy names true segment = .ok decoded ∧
      BytesUnless (IsWide segment) decoded := by
  cases h with
  | @plain c _ hplain =>
    refine ⟨[c], ?_, .of_ascii hascii ?_⟩
    · rw [decodeEscapesBy_cons hplain, decodeEscapesBy]
      rfl
    · rintro ⟨digits, hsegment, -⟩
      exact hplain (List.cons.inj hsegment).1
  | backslash =>
    refine ⟨['\\'], ?_, .of_ascii hascii ?_⟩
    · rw [decodeEscapesBy]
    · rintro ⟨digits, hsegment, -, hvalue⟩
      cases hsegment
      exact absurd hvalue (by decide)
  | escape htakes =>
    obtain ⟨-, hafter⟩ := List.forall_mem_cons.mp hascii
    obtain ⟨hc, hbody⟩ := List.forall_mem_cons.mp hafter
    rw [decode_escape htakes]
    exact htakes.read_bytes names hc hbody

theorem Cut.decode_bytes (h : Cut true text segments) (names : CharacterName.Lookup)
    (hascii : IsAscii text) :
    ∃ decoded, decodeEscapesBy names true text = .ok decoded ∧
      BytesUnless (∃ segment ∈ segments, IsWide segment) decoded := by
  induction h with
  | nil => exact ⟨[], by rw [decodeEscapesBy], .of_ascii nofun nofun⟩
  | cons hsegment _ ih =>
    obtain ⟨hfirst, hothers⟩ := List.forall_mem_append.mp hascii
    obtain ⟨first, hdecode, hbytes⟩ := hsegment.decode_bytes names hfirst
    obtain ⟨others, hdecode', hbytes'⟩ := ih hothers
    refine ⟨first ++ others, ?_, (hbytes.append hbytes').congr (List.exists_mem_cons_iff ..)⟩
    rw [hsegment.decode_append, hdecode, hdecode']
    rfl

theorem Cut.hasWide_iff (h : Cut true text segments) :
    HasWide text ↔ ∃ segment ∈ segments, IsWide segment := by
  constructor
  · rintro ⟨segments', hcut, hwide⟩
    rwa [h.unique hcut]
  · exact fun hwide => ⟨segments, h, hwide⟩

/-- Text in ASCII is always decoded as bytes, to characters up to U+01FF. These are all up to
U+00FF, and so denote bytes, just if no segment of the text is an octal number beyond. -/
theorem decodeEscapesBy_bytes (names : CharacterName.Lookup) (hascii : IsAscii text) :
    ∃ decoded, decodeEscapesBy names true text = .ok decoded ∧
      BytesUnless (HasWide text) decoded := by
  obtain ⟨segments, hcut⟩ := exists_cut true text
  obtain ⟨decoded, hdecode, hbytes⟩ := hcut.decode_bytes names hascii
  exact ⟨decoded, hdecode, hbytes.congr hcut.hasWide_iff⟩

end Escape

end TreeText
