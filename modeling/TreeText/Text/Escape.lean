import TreeText.Text.Hexadecimal

/-!
# Backslash escapes in literals

`decodeEscapesBy` reads the text of a literal that is not raw. A backslash and what follows it form
one unit: a line end, which vanishes, one letter, up to three octal digits, a fixed number of
hexadecimal digits, or a name in braces. Where the digits are too few, or the letter stands for
nothing, the unit stays as it is written. Bytes know neither code points nor names.

The only way to fail is a name: without its braces, or of no character.

Notes on the form: the characters that names stand for are told by another library, so the lookup is
a parameter. `decode_escapes` takes characters from an iterator and pushes what they stand for; here
a unit is taken from the front of the text and returned with what is left of it.
-/

namespace TreeText

/-- What characters names stand for. -/
abbrev CharacterName.Lookup := List Char → Option Char

/-- No names at all. -/
def CharacterName.noNames : Lookup := fun _ => none

/-- Why an escape stands for nothing (`EscapeError`). -/
inductive EscapeFault where
  | unknownName (name : String)
  | malformedName
deriving DecidableEq

/-- The wording of a fault. -/
def EscapeFault.message : EscapeFault → String
  | .unknownName name => "unknown Unicode character name '" ++ name ++ "'"
  | .malformedName => "malformed \\N character escape"

namespace Escape

/-- The character that a one-letter escape stands for. -/
def letter? (c : Char) : Option Char :=
  if c = '\\' ∨ c = '\'' ∨ c = '"' then some c
  else if c = 'a' then some '\x07'
  else if c = 'b' then some '\x08'
  else if c = 'f' then some '\x0c'
  else if c = 'n' then some '\n'
  else if c = 'r' then some '\r'
  else if c = 't' then some '\t'
  else if c = 'v' then some '\x0b'
  else none

/-- The digits of base eight. -/
def isOctalDigit (c : Char) : Bool := '0' ≤ c && c ≤ '7'

/-- The digits of base sixteen, in either case. -/
def isHexDigit (c : Char) : Bool := (hexDigit? c).isSome

/-- The number that octal digits spell. -/
def octal (digits : List Char) : Nat :=
  digits.foldl (fun value c => value * 8 + (c.toNat - '0'.toNat)) 0

/-- The character of a code point, or the replacement character if there is none (`push_code`). -/
def charOf (code : Nat) : Char :=
  if code.isValidChar then Char.ofNat code else '\ufffd'

/-- What a unit yields and the text after it. -/
abbrev Step := Except EscapeFault (List Char × List Char)

/-- Reads up to two more octal digits after the first (`decode_escapes`). -/
def octalUnit (first : Char) (text : List Char) : List Char × List Char :=
  let more := (text.take 2).takeWhile isOctalDigit
  ([charOf (octal (first :: more))], text.drop more.length)

/-- Reads `width` hexadecimal digits after their mark (`push_hex`). If there are fewer, they stay as
they are. -/
def hexUnit (mark : Char) (width : Nat) (text : List Char) : List Char × List Char :=
  let digits := (text.take width).takeWhile isHexDigit
  let kept := '\\' :: mark :: digits
  let decoded :=
    if digits.length = width then
      match hexNumber? digits with
      | some code => [charOf code]
      | none => kept
    else kept
  (decoded, text.drop digits.length)

/-- Reads a name in braces (`named_char`). -/
def nameUnit (names : CharacterName.Lookup) : List Char → Step
  | '{' :: text =>
    let name := text.takeWhile (· != '}')
    if name.isEmpty || name.length = text.length then .error .malformedName
    else
      match names name with
      | some c => .ok ([c], text.drop (name.length + 1))
      | none => .error (.unknownName (String.ofList name))
  | _ => .error .malformedName

/-- Reads what follows a backslash and the character `c` (`decode_escapes`). -/
def unit (names : CharacterName.Lookup) (bytes : Bool) (c : Char) (text : List Char) : Step :=
  if c = '\n' then .ok ([], text)
  else if c = '\r' then
    .ok ([], if text.head? = some '\n' then text.tail else text)
  else
    match letter? c with
    | some plain => .ok ([plain], text)
    | none =>
      if isOctalDigit c then .ok (octalUnit c text)
      else if c = 'x' then .ok (hexUnit 'x' 2 text)
      else if c = 'u' ∧ bytes = false then .ok (hexUnit 'u' 4 text)
      else if c = 'U' ∧ bytes = false then .ok (hexUnit 'U' 8 text)
      else if c = 'N' ∧ bytes = false then nameUnit names text
      else .ok (['\\', c], text)

theorem nameUnit_length {names : CharacterName.Lookup} {text decoded rest : List Char}
    (h : nameUnit names text = .ok (decoded, rest)) : rest.length ≤ text.length := by
  unfold nameUnit at h
  split at h
  · dsimp only at h
    split at h
    · simp at h
    · split at h
      · simp only [Except.ok.injEq, Prod.mk.injEq] at h
        rw [← h.2, List.length_drop, List.length_cons]
        omega
      · simp at h
  · simp at h

/-- A unit takes nothing back. -/
theorem unit_length {names : CharacterName.Lookup} {bytes : Bool} {c : Char}
    {text decoded rest : List Char} (h : unit names bytes c text = .ok (decoded, rest)) :
    rest.length ≤ text.length := by
  unfold unit at h
  repeat' split at h
  all_goals
    first
    | exact nameUnit_length h
    | simp only [Except.ok.injEq, Prod.mk.injEq, octalUnit, hexUnit] at h
      obtain ⟨-, rfl⟩ := h
      simp

end Escape

/-- The text that a literal's text stands for, given what names stand for (`decode_escapes`). -/
def decodeEscapesBy (names : CharacterName.Lookup) (bytes : Bool) :
    List Char → Except EscapeFault (List Char)
  | [] => .ok []
  | ['\\'] => .ok ['\\']
  | '\\' :: c :: text =>
    match _h : Escape.unit names bytes c text with
    | .error fault => .error fault
    | .ok (decoded, rest) => (decodeEscapesBy names bytes rest).map (decoded ++ ·)
  | c :: text => (decodeEscapesBy names bytes text).map (c :: ·)
termination_by text => text.length
decreasing_by
  · have := Escape.unit_length _h
    simp only [List.length_cons]
    omega
  · simp

end TreeText
