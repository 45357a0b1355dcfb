import TreeText.Json
import TreeText.Text.Hexadecimal

/-!
# Reading JSON

`Json.read` reads one value from the front of a text and returns what is left of the text. A
value may nest arrays and objects `nestingLimit` deep. A text that ends too early is told from one
that is wrong: `ReadError.unfinished` against `ReadError.malformed`.

A string holds no raw control character, and its `\u` escapes have to spell characters, surrogates
standing in pairs. A number has to fit a double. The digits that count for this are those that fit
64 bits; of the digits after them, those of the integer part count as zeros and those of the
fraction not at all.

Notes on the form: this is what the library does that the tool reads JSON with, as far as it tells
values and failures apart; of a failure only its category is kept, not its wording or place. The
nesting is the structural argument of `Json.value`. Lists of items and members take the number of
characters left as a bound on their length.
-/

namespace TreeText.Json

/-- Why a text does not start with a JSON value. -/
inductive ReadError where
  /-- The text ends inside the value, or has none. -/
  | unfinished
  /-- No continuation could make the text a value. -/
  | malformed
deriving DecidableEq

/-- What reading a part yields: its value and the text after it. -/
abbrev Step (α : Type) := Except ReadError (α × List Char)

/-- Arrays and objects may lie this deep in one another. -/
def nestingLimit : Nat := 127

/-- The blanks of JSON. -/
def isBlank (c : Char) : Bool :=
  c == ' ' || c == '\n' || c == '\t' || c == '\r'

/-- A text from its first character on that is no blank. -/
def skipBlanks (text : List Char) : List Char :=
  text.dropWhile isBlank

/-! ## Literal names -/

/-- Reads a fixed word. -/
def word : List Char → List Char → Except ReadError (List Char)
  | [], text => .ok text
  | _ :: _, [] => .error .unfinished
  | expected :: more, c :: text =>
    if c = expected then word more text else .error .malformed

/-! ## Strings -/

/-- The character that a one-letter escape stands for. -/
def shortEscape? (c : Char) : Option Char :=
  if c = '"' ∨ c = '\\' ∨ c = '/' then some c
  else if c = 'b' then some '\x08'
  else if c = 'f' then some '\x0c'
  else if c = 'n' then some '\n'
  else if c = 'r' then some '\r'
  else if c = 't' then some '\t'
  else none

/-- The first half of a pair that stands for one character. -/
def isHighSurrogate (code : Nat) : Bool := 0xD800 ≤ code && code ≤ 0xDBFF

/-- The second half of such a pair. -/
def isLowSurrogate (code : Nat) : Bool := 0xDC00 ≤ code && code ≤ 0xDFFF

/-- The character of a surrogate pair. -/
def pairedChar (high low : Nat) : Char :=
  Char.ofNat (0x10000 + (high - 0xD800) * 0x400 + (low - 0xDC00))

/-- What is wrong where four hexadecimal digits should start: digits are looked for in the next
four bytes, if there are as many. -/
def badHex (text : List Char) : ReadError :=
  if ((text.take 4).map Char.utf8Size).foldl (· + ·) 0 < 4 then .unfinished else .malformed

/-- Reads the rest of a string, `done` being its characters so far, last first. -/
def stringBody (done : List Char) : List Char → Step String
  | [] => .error .unfinished
  | c :: text =>
    if c = '"' then .ok (String.ofList done.reverse, text)
    else if c = '\\' then
      match text with
      | [] => .error .unfinished
      | e :: text =>
        if e = 'u' then
          match text with
          | a :: b :: c :: d :: text =>
            match hexNumber? [a, b, c, d] with
            | none => .error .malformed
            | some code =>
              if isLowSurrogate code then .error .malformed
              else if isHighSurrogate code then
                match text with
                | [] => .error .unfinished
                | '\\' :: [] => .error .unfinished
                | '\\' :: 'u' :: a :: b :: c :: d :: text =>
                  match hexNumber? [a, b, c, d] with
                  | none => .error .malformed
                  | some low =>
                    if isLowSurrogate low then stringBody (pairedChar code low :: done) text
                    else .error .malformed
                | '\\' :: 'u' :: text => .error (badHex text)
                | _ => .error .malformed
              else stringBody (Char.ofNat code :: done) text
          | text => .error (badHex text)
        else
          match shortEscape? e with
          | some plain => stringBody (plain :: done) text
          | none => .error .malformed
    else if c.toNat < 0x20 then .error .malformed
    else stringBody (c :: done) text

/-! ## Numbers -/

/-- The greatest number of digits from the left that fit 64 bits, read after `value`, and how
many digits are left over. -/
def significand (value : Nat) : List Char → Nat × Nat
  | [] => (value, 0)
  | c :: digits =>
    let next := value * 10 + (c.toNat - '0'.toNat)
    if next < Nat.pow 2 64 then significand next digits else (value, digits.length + 1)

/-- A number rounded to 53 binary digits, to the even neighbour of two equally near ones. -/
def rounded (n : Nat) : Nat :=
  let shift := n.log2 - 52
  let kept := n >>> shift
  let cut := n - kept <<< shift
  if 2 * cut > Nat.pow 2 shift ∨ (2 * cut = Nat.pow 2 shift ∧ shift ≠ 0 ∧ kept % 2 = 1) then
    (kept + 1) <<< shift
  else kept <<< shift

/-- Whether `significand * 10 ^ exponent`, each factor rounded, lies beyond the doubles. -/
def tooLarge (significand : Nat) (exponent : Int) : Bool :=
  if exponent ≤ 0 then false
  else if exponent > 308 then significand != 0
  else
    Nat.pow 2 1024 - Nat.pow 2 970 ≤ rounded significand * rounded (Nat.pow 10 exponent.toNat)

/-- The number that decimal digits spell. -/
def decimal (digits : List Char) : Nat :=
  digits.foldl (fun value c => value * 10 + (c.toNat - '0'.toNat)) 0

/-- Reads one or more digits. -/
def digits (text : List Char) : Step (List Char) :=
  match text.takeWhile Char.isDigit with
  | [] => .error (if text.isEmpty then .unfinished else .malformed)
  | found => .ok (found, text.dropWhile Char.isDigit)

/-- Reads the integer part: a zero alone, or digits that do not start with one. -/
def integerPart : List Char → Step (List Char)
  | '0' :: text =>
    if (text.head?.any Char.isDigit) then .error .malformed else .ok (['0'], text)
  | text => digits text

/-- Reads a fraction with its point, if there is one. -/
def fractionPart : List Char → Step (List Char)
  | '.' :: text => digits text
  | text => .ok ([], text)

/-- Reads the digits of an exponent and whether a minus sign stands before them, if there is an
exponent. -/
def exponentPart : List Char → Step (Bool × List Char)
  | c :: text =>
    if c = 'e' ∨ c = 'E' then
      match text with
      | '-' :: text => (digits text).map fun (found, text) => ((true, found), text)
      | '+' :: text => (digits text).map fun (found, text) => ((false, found), text)
      | text => (digits text).map fun (found, text) => ((false, found), text)
    else .ok ((false, []), c :: text)
  | [] => .ok ((false, []), [])

/-- Reads a number without its sign. -/
def magnitude (text : List Char) : Except ReadError (List Char) := do
  let (whole, afterWhole) ← integerPart text
  let (fraction, afterFraction) ← fractionPart afterWhole
  let ((negative, exponent), rest) ← exponentPart afterFraction
  let (wholeValue, wholeLeft) := significand 0 whole
  let (value, fractionLeft) := significand wholeValue fraction
  let shift : Int := if negative then -(decimal exponent : Int) else decimal exponent
  if tooLarge value (shift + wholeLeft - (fraction.length - fractionLeft : Nat)) then
    .error .malformed
  else .ok rest

/-- A number without its sign. -/
def unsigned : List Char → List Char
  | '-' :: text => text
  | text => text

/-- Reads a number and keeps its spelling. -/
def signedNumber (text : List Char) : Step Json :=
  (magnitude (unsigned text)).map fun rest =>
    (.number (String.ofList (text.take (text.length - rest.length))), rest)

/-! ## Values -/

/-- Reads items up to the closing bracket, `done` being the items so far, last first. -/
def itemsWith (readItem : List Char → Step Json) :
    Nat → List Json → List Char → Step (List Json)
  | 0, _, _ => .error .unfinished
  | bound + 1, done, text =>
    match readItem text with
    | .error fault => .error fault
    | .ok (item, text) =>
      match skipBlanks text with
      | [] => .error .unfinished
      | c :: text =>
        if c = ',' then itemsWith readItem bound (item :: done) text
        else if c = ']' then .ok ((item :: done).reverse, text)
        else .error .malformed

/-- Reads a member's name with the colon after it. -/
def memberName (text : List Char) : Step String :=
  match skipBlanks text with
  | [] => .error .unfinished
  | c :: text =>
    if c = '"' then
      match stringBody [] text with
      | .error fault => .error fault
      | .ok (name, text) =>
        match skipBlanks text with
        | [] => .error .unfinished
        | c :: text => if c = ':' then .ok (name, text) else .error .malformed
    else .error .malformed

/-- Reads members up to the closing brace, `done` being the members so far, last first. -/
def membersWith (readItem : List Char → Step Json) :
    Nat → List (String × Json) → List Char → Step (List (String × Json))
  | 0, _, _ => .error .unfinished
  | bound + 1, done, text =>
    match memberName text with
    | .error fault => .error fault
    | .ok (name, text) =>
      match readItem text with
      | .error fault => .error fault
      | .ok (item, text) =>
        match skipBlanks text with
        | [] => .error .unfinished
        | c :: text =>
          if c = ',' then membersWith readItem bound ((name, item) :: done) text
          else if c = '}' then .ok (((name, item) :: done).reverse, text)
          else .error .malformed

/-- Reads what follows an opening bracket. -/
def arrayBody (readItem : List Char → Step Json) (text : List Char) : Step Json :=
  match skipBlanks text with
  | ']' :: text => .ok (.arr [], text)
  | text => (itemsWith readItem (text.length + 1) [] text).map fun (items, text) =>
    (.arr items, text)

/-- Reads what follows an opening brace. -/
def objectBody (readItem : List Char → Step Json) (text : List Char) : Step Json :=
  match skipBlanks text with
  | '}' :: text => .ok (.obj [], text)
  | text => (membersWith readItem (text.length + 1) [] text).map fun (members, text) =>
    (.obj members, text)

/-- Reads a value in which arrays and objects nest at most `depth` deep, blanks before it. -/
def value : Nat → List Char → Step Json
  | depth, text =>
    match skipBlanks text with
    | [] => .error .unfinished
    | c :: text =>
      if c = 'n' then (word ['u', 'l', 'l'] text).map fun text => (.null, text)
      else if c = 't' then (word ['r', 'u', 'e'] text).map fun text => (.bool true, text)
      else if c = 'f' then (word ['a', 'l', 's', 'e'] text).map fun text => (.bool false, text)
      else if c = '"' then (stringBody [] text).map fun (string, text) => (.str string, text)
      else if c = '[' then
        match depth with
        | 0 => .error .malformed
        | depth + 1 => arrayBody (fun text => value depth text) text
      else if c = '{' then
        match depth with
        | 0 => .error .malformed
        | depth + 1 => objectBody (fun text => value depth text) text
      else if c = '-' ∨ c.isDigit then signedNumber (c :: text)
      else .error .malformed

/-- Reads one value from the front of a text. -/
def read (text : String) : Step Json :=
  value nestingLimit text.toList

end TreeText.Json
