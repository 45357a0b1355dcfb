import TreeText.Text.Escape

/-!
# Characters by their Unicode names

Names are compared without regard to the case of ASCII letters and are exact otherwise. Hangul
syllables are named by the short names of their letters, and unified ideographs by their code
points; all other names come from a table of the names in use.

The program decodes escapes with this lookup (`CharacterName.find?`). The library that the tool asks
knows all names there are; nothing that is proved of reading depends on which names are known.
-/

namespace TreeText.CharacterName

/-- Characters that have a name of their own. -/
def table : List (String × Char) := [
  ("SPACE", ' '),
  ("DIGIT ZERO", '0'),
  ("NO-BREAK SPACE", '\u00a0'),
  ("LATIN SMALL LETTER E WITH ACUTE", '\u00e9'),
  ("GREEK SMALL LETTER ALPHA", '\u03b1'),
  ("GREEK SMALL LETTER OMEGA", '\u03c9'),
  ("EM DASH", '\u2014'),
  ("SNOWMAN", '\u2603'),
  ("GRINNING FACE", '😀')]

/-! ## Hangul syllables -/

/-- Short names of the letters that a syllable starts with. -/
def initials : List String :=
  ["G", "GG", "N", "D", "DD", "R", "M", "B", "BB", "S", "SS", "", "J", "JJ", "C", "K", "T", "P",
    "H"]

/-- Short names of the vowels. -/
def vowels : List String :=
  ["A", "AE", "YA", "YAE", "EO", "E", "YEO", "YE", "O", "WA", "WAE", "OE", "YO", "U", "WEO", "WE",
    "WI", "YU", "EU", "YI", "I"]

/-- Short names of the letters that a syllable ends with. -/
def finals : List String :=
  ["", "G", "GG", "GS", "N", "NJ", "NH", "D", "L", "LG", "LM", "LB", "LS", "LT", "LP", "LH", "M",
    "B", "BS", "S", "SS", "NG", "J", "C", "K", "T", "P", "H"]

/-- Splits the longest of these names off the front of a text, at most `length` characters, and
returns its number in the list. -/
def splitLongest? (names : List String) : (length : Nat) → List Char → Option (Nat × List Char)
  | 0, text => (names.idxOf? "").map (·, text)
  | length + 1, text =>
    if length < text.length then
      match names.idxOf? (String.ofList (text.take (length + 1))) with
      | some number => some (number, text.drop (length + 1))
      | none => splitLongest? names length text
    else splitLongest? names length text

/-- The syllable that the short names of its letters spell. -/
def syllable? (letters : List Char) : Option Char := do
  let (first, rest) ← splitLongest? initials 3 letters
  let (second, rest) ← splitLongest? vowels 3 rest
  let (third, rest) ← splitLongest? finals 3 rest
  if rest.isEmpty then some (Char.ofNat (0xAC00 + (first * 21 + second) * 28 + third)) else none

/-! ## Unified ideographs -/

/-- First and last code points of the blocks of unified ideographs. -/
def ideographRanges : List (Nat × Nat) := [
  (0x3400, 0x4DBF), (0x4E00, 0x9FFF), (0x20000, 0x2A6DF), (0x2A700, 0x2B739), (0x2B740, 0x2B81D),
  (0x2B820, 0x2CEA1), (0x2CEB0, 0x2EBE0), (0x2EBF0, 0x2EE5D), (0x30000, 0x3134A),
  (0x31350, 0x323AF)]

/-- The unified ideograph whose code point one to five hexadecimal digits spell. -/
def ideograph? (digits : List Char) : Option Char :=
  if digits.length ≤ 5 then
    match hexNumber? digits with
    | some code =>
      if ideographRanges.any fun range => range.1 ≤ code && code ≤ range.2 then
        some (Char.ofNat code)
      else none
    | none => none
  else none

/-! ## All names -/

/-- What follows `start` in a text that begins with it. -/
def after? (start : String) (text : List Char) : Option (List Char) :=
  if start.toList.isPrefixOf text then some (text.drop start.length) else none

/-- The character of a name. -/
def find? (name : List Char) : Option Char :=
  let upper := name.map Char.toUpper
  match after? "HANGUL SYLLABLE " upper with
  | some letters => syllable? letters
  | none =>
    match after? "CJK UNIFIED IDEOGRAPH-" upper with
    | some digits => ideograph? digits
    | none => table.lookup (String.ofList upper)

end TreeText.CharacterName
