import TreeText.Text.Hexadecimal
import TreeText.Toml

/-!
# Reading TOML

`Toml.read?` reads a document, or says that the text is none. Reading goes from left to right over
the characters: each function takes what it reads from the front of a text and returns the rest.
What makes a number or a date valid is tested on the whole word, from the value's start to the next
delimiter.

Arrays and inline tables nest at most 79 deep, and a key has at most 79 parts.

Notes on the form: this is what the library does that schema files are read with, as far as it tells
documents from other texts; why a text is none is not told.
-/

namespace TreeText.Toml

/-- What reading a part yields: its value and the text after it. -/
abbrev Step (α : Type) := Option (α × List Char)

/-! ## Blanks, comments and line ends -/

/-- The blanks of TOML within a line. -/
def isBlank (c : Char) : Bool := c == ' ' || c == '\t'

/-- A text from its first character on that is no blank. -/
def skipBlanks (text : List Char) : List Char := text.dropWhile isBlank

/-- A character that may stand in a comment or, but for the delimiters, in a string of one line:
anything but a control character, the tab excepted. -/
def isPrinting (c : Char) : Bool :=
  c == '\t' || (0x20 ≤ c.toNat && c.toNat ≠ 0x7F)

/-- Reads a line end, or nothing at the end of the text. -/
def lineEnd? : List Char → Option (List Char)
  | [] => some []
  | '\n' :: text => some text
  | '\r' :: '\n' :: text => some text
  | _ => none

/-- Reads blanks and a comment up to the end of the line. -/
def restOfLine? (text : List Char) : Option (List Char) :=
  match skipBlanks text with
  | '#' :: text => lineEnd? (text.dropWhile isPrinting)
  | text => lineEnd? text

/-- Skips blanks, line ends and comments, between the items of an array. -/
def skipLoose? (inComment : Bool) : List Char → Option (List Char)
  | [] => some []
  | '\n' :: text => skipLoose? false text
  | '\r' :: '\n' :: text => skipLoose? false text
  | c :: text =>
    if inComment then
      if isPrinting c then skipLoose? true text else none
    else if c = '#' then skipLoose? true text
    else if isBlank c then skipLoose? false text
    else some (c :: text)

/-! ## Strings -/

/-- The character that a one-letter escape stands for. -/
def shortEscape? (c : Char) : Option Char :=
  if c = '"' ∨ c = '\\' then some c
  else if c = 'b' then some '\x08'
  else if c = 't' then some '\t'
  else if c = 'n' then some '\n'
  else if c = 'f' then some '\x0c'
  else if c = 'r' then some '\r'
  else none

/-- The character with the code that hexadecimal digits spell. -/
def codeChar? (digits : List Char) : Option Char :=
  match hexNumber? digits with
  | some code => if code.isValidChar then some (Char.ofNat code) else none
  | none => none

/-- Reads the rest of a basic string, `done` being its characters so far, last first. -/
def basicBody (done : List Char) : List Char → Step String
  | [] => none
  | c :: text =>
    if c = '"' then some (String.ofList done.reverse, text)
    else if c = '\\' then
      match text with
      | 'u' :: a :: b :: c :: d :: text =>
        match codeChar? [a, b, c, d] with
        | some plain => basicBody (plain :: done) text
        | none => none
      | 'U' :: a :: b :: c :: d :: e :: f :: g :: h :: text =>
        match codeChar? [a, b, c, d, e, f, g, h] with
        | some plain => basicBody (plain :: done) text
        | none => none
      | e :: text =>
        match shortEscape? e with
        | some plain => basicBody (plain :: done) text
        | none => none
      | [] => none
    else if isPrinting c then basicBody (c :: done) text
    else none

/-- Reads the rest of a literal string. -/
def literalBody (done : List Char) : List Char → Step String
  | [] => none
  | c :: text =>
    if c = '\'' then some (String.ofList done.reverse, text)
    else if isPrinting c then literalBody (c :: done) text
    else none

/-- Up to two more quotes belong to a multi-line string that three quotes close. -/
def closeLong (quote : Char) (done : List Char) (text : List Char) : String × List Char :=
  let extra := (text.take 2).takeWhile (· == quote)
  (String.ofList (done.reverse ++ extra), text.drop extra.length)

/-- Whether a line end follows after blanks. -/
def endsLine (text : List Char) : Bool :=
  match skipBlanks text with
  | '\n' :: _ => true
  | '\r' :: '\n' :: _ => true
  | _ => false

/-- Reads the rest of a multi-line basic string. While `trimming`, after a backslash at the end
of a line, blanks and line ends are passed over. -/
def longBasicBody (trimming : Bool) (done : List Char) : List Char → Step String
  | [] => none
  | '"' :: '"' :: '"' :: text => some (closeLong '"' done text)
  | '\r' :: '\n' :: text =>
    longBasicBody trimming (if trimming then done else '\n' :: done) text
  | c :: text =>
    if c = '\n' then longBasicBody trimming (if trimming then done else '\n' :: done) text
    else if trimming && isBlank c then longBasicBody true done text
    else if c = '\\' then
      if endsLine text then longBasicBody true done text
      else
        match text with
        | 'u' :: a :: b :: c :: d :: text =>
          match codeChar? [a, b, c, d] with
          | some plain => longBasicBody false (plain :: done) text
          | none => none
        | 'U' :: a :: b :: c :: d :: e :: f :: g :: h :: text =>
          match codeChar? [a, b, c, d, e, f, g, h] with
          | some plain => longBasicBody false (plain :: done) text
          | none => none
        | e :: text =>
          match shortEscape? e with
          | some plain => longBasicBody false (plain :: done) text
          | none => none
        | [] => none
    else if isPrinting c then longBasicBody false (c :: done) text
    else none

/-- Reads the rest of a multi-line literal string. -/
def longLiteralBody (done : List Char) : List Char → Step String
  | [] => none
  | '\'' :: '\'' :: '\'' :: text => some (closeLong '\'' done text)
  | '\r' :: '\n' :: text => longLiteralBody ('\n' :: done) text
  | c :: text =>
    if c = '\n' || isPrinting c then longLiteralBody (c :: done) text else none

/-- A line end right after the opening quotes is no part of a multi-line string. -/
def skipFirstLineEnd : List Char → List Char
  | '\n' :: text => text
  | '\r' :: '\n' :: text => text
  | text => text

/-- Reads a string of any of the four forms. -/
def string? : List Char → Step String
  | '"' :: '"' :: '"' :: text => longBasicBody false [] (skipFirstLineEnd text)
  | '\'' :: '\'' :: '\'' :: text => longLiteralBody [] (skipFirstLineEnd text)
  | '"' :: text => basicBody [] text
  | '\'' :: text => literalBody [] text
  | _ => none

/-! ## Keys -/

/-- The characters of bare keys. -/
def isKeyChar (c : Char) : Bool := c.isAlphanum || c == '_' || c == '-'

/-- Reads one part of a key: bare, or a string of one line. -/
def simpleKey? : List Char → Step String
  | '"' :: text => basicBody [] text
  | '\'' :: text => literalBody [] text
  | text =>
    match text.takeWhile isKeyChar with
    | [] => none
    | found => some (String.ofList found, text.dropWhile isKeyChar)

/-- Reads a key of at most `bound` parts, blanks around each, `done` being the parts so far, last
first. The last part is given apart. -/
def key? : Nat → List String → List Char → Step (List String × String)
  | 0, _, _ => none
  | bound + 1, done, text =>
    match simpleKey? (skipBlanks text) with
    | none => none
    | some (part, text) =>
      match skipBlanks text with
      | '.' :: text => key? bound (part :: done) text
      | text => some ((done.reverse, part), text)

/-- Parts of a key, and arrays and inline tables in one another, stay below this number. -/
def nestingLimit : Nat := 79

/-! ## Numbers, truth values, dates and times -/

/-- A word of digits that may have single underscores between them; without these. -/
def plainDigits? (isDigit : Char → Bool) : List Char → Option (List Char)
  | [] => none
  | [c] => if isDigit c then some [c] else none
  | c :: '_' :: rest => if isDigit c then (plainDigits? isDigit rest).map (c :: ·) else none
  | c :: rest => if isDigit c then (plainDigits? isDigit rest).map (c :: ·) else none

/-- The number that digits spell in a base. -/
def spelled (base : Nat) (digits : List Char) : Nat :=
  digits.foldl (fun value c => value * base + (hexDigit? c).getD 0) 0

/-- Decimal digits that do not start with a needless zero. -/
def wholePart? (word : List Char) : Option (List Char) :=
  match plainDigits? Char.isDigit word with
  | some ['0'] => some ['0']
  | some ('0' :: _) => none
  | found => found

/-- A number without sign in another base than ten, after its mark. -/
def isBasedInteger (base : Nat) (word : List Char) : Bool :=
  match plainDigits? (fun c => (hexDigit? c).any (· < base)) word with
  | some found => spelled base found < Nat.pow 2 63
  | none => false

/-- Splits a sign off. -/
def splitSign : List Char → Bool × List Char
  | '-' :: word => (true, word)
  | '+' :: word => (false, word)
  | word => (false, word)

/-- A whole number, in one of four bases, that fits 64 bits with a sign. -/
def isInteger (word : List Char) : Bool :=
  match word with
  | '0' :: 'x' :: word => isBasedInteger 16 word
  | '0' :: 'o' :: word => isBasedInteger 8 word
  | '0' :: 'b' :: word => isBasedInteger 2 word
  | word =>
    let (negative, word) := splitSign word
    match wholePart? word with
    | some found => spelled 10 found < if negative then Nat.pow 2 63 + 1 else Nat.pow 2 63
    | none => false

/-- Whether a decimal number lies so far above the doubles that it is read as infinite. -/
def isInfinite (digits : List Char) (exponent : Int) : Bool :=
  let value := spelled 10 digits
  let limit := Nat.pow 2 1024 - Nat.pow 2 970
  if value = 0 then false
  else if exponent > 400 then true
  else if exponent ≥ 0 then limit ≤ value * Nat.pow 10 exponent.toNat
  else if digits.length < exponent.natAbs then false
  else limit * Nat.pow 10 exponent.natAbs ≤ value

/-- An exponent after its letter, if there is one. -/
def exponent? : List Char → Option Int
  | [] => some 0
  | word =>
    let (negative, word) := splitSign word
    (plainDigits? Char.isDigit word).map fun found =>
      if negative then -(spelled 10 found : Int) else spelled 10 found

/-- A number with a fraction or an exponent, an infinity or no number. One that is read as
infinite has to be negative. -/
def isFloat (word : List Char) : Bool :=
  let (negative, word) := splitSign word
  if word = ['i', 'n', 'f'] || word = ['n', 'a', 'n'] then true
  else
    let isMark := fun c => c = 'e' || c = 'E'
    let mantissa := word.takeWhile fun c => !isMark c
    let afterMantissa := word.dropWhile fun c => !isMark c
    let whole := mantissa.takeWhile (· != '.')
    let fraction := mantissa.dropWhile (· != '.')
    match wholePart? whole,
        (if fraction.isEmpty then some [] else plainDigits? Char.isDigit fraction.tail),
        exponent? afterMantissa.tail with
    | some whole, some fraction, some exponent =>
      (!afterMantissa.isEmpty || !fraction.isEmpty) && (afterMantissa.length != 1) &&
        (negative || !isInfinite (whole ++ fraction) (exponent - fraction.length))
    | _, _, _ => false

/-- The number of two digits. -/
def twoDigits? (a b : Char) : Option Nat :=
  if a.isDigit && b.isDigit then some (spelled 10 [a, b]) else none

/-- How many days a month of a year has. -/
def daysIn (year month : Nat) : Nat :=
  if month = 2 then
    if year % 4 = 0 ∧ (year % 100 ≠ 0 ∨ year % 400 = 0) then 29 else 28
  else if month = 4 ∨ month = 6 ∨ month = 9 ∨ month = 11 then 30
  else 31

/-- A date: year, month and day. -/
def isDate : List Char → Bool
  | [a, b, c, d, '-', e, f, '-', g, h] =>
    match twoDigits? a b, twoDigits? c d, twoDigits? e f, twoDigits? g h with
    | some century, some year, some month, some day =>
      1 ≤ month && month ≤ 12 && 1 ≤ day && day ≤ daysIn (century * 100 + year) month
    | _, _, _, _ => false
  | _ => false

/-- Splits a time of day off: hours, minutes, seconds, and perhaps a fraction. -/
def splitTime? : List Char → Option (List Char)
  | a :: b :: ':' :: c :: d :: ':' :: e :: f :: rest =>
    match twoDigits? a b, twoDigits? c d, twoDigits? e f with
    | some hour, some minute, some second =>
      if hour ≤ 23 && minute ≤ 59 && second ≤ 60 then
        match rest with
        | '.' :: rest =>
          if rest.head?.any Char.isDigit then some (rest.dropWhile Char.isDigit) else none
        | rest => some rest
      else none
    | _, _, _ => none
  | _ => none

/-- An offset from universal time, or none. -/
def isOffset : List Char → Bool
  | [] => true
  | [c] => c = 'Z' || c = 'z'
  | [sign, a, b, ':', c, d] =>
    match twoDigits? a b, twoDigits? c d with
    | some hour, some minute => (sign = '+' || sign = '-') && hour ≤ 23 && minute ≤ 59
    | _, _ => false
  | _ => false

/-- A date, a time of day, or both with perhaps an offset. -/
def isMoment (word : List Char) : Bool :=
  isDate word || splitTime? word == some [] ||
    (isDate (word.take 10) &&
      match word.drop 10 with
      | c :: rest =>
        (c = 'T' || c = 't' || c = ' ') && (splitTime? rest).any isOffset
      | [] => false)

/-- What ends a word: blanks, line ends, delimiters and comments. -/
def endsWord (c : Char) : Bool :=
  isBlank c || c == '\n' || c == '\r' || c == ',' || c == ']' || c == '}' || c == '#'

/-- Reads a word. A date goes on over one space if a digit follows it. -/
def word (text : List Char) : List Char × List Char :=
  let first := text.takeWhile fun c => !endsWord c
  match text.dropWhile fun c => !endsWord c with
  | ' ' :: c :: rest =>
    if isDate first && c.isDigit then
      (first ++ ' ' :: (c :: rest).takeWhile (fun c => !endsWord c),
        (c :: rest).dropWhile fun c => !endsWord c)
    else (first, ' ' :: c :: rest)
  | rest => (first, rest)

/-- Reads a number, a truth value, a date or a time. -/
def scalar? (text : List Char) : Step Toml :=
  let (found, rest) := word text
  if found = ['t', 'r', 'u', 'e'] || found = ['f', 'a', 'l', 's', 'e'] || isInteger found ||
      isFloat found || isMoment found then some (.scalar, rest)
  else none

/-! ## Values -/

/-- Reads items up to the closing bracket, `done` being the items so far, last first. -/
def itemsWith? (readItem : List Char → Step Toml) : Nat → List Toml → List Char → Step Toml
  | 0, _, _ => none
  | bound + 1, done, text =>
    match skipLoose? false text with
    | none => none
    | some (']' :: text) => some (.array done.reverse, text)
    | some text =>
      match readItem text with
      | none => none
      | some (item, text) =>
        match skipLoose? false text with
        | some (',' :: text) => itemsWith? readItem bound (item :: done) text
        | some (']' :: text) => some (.array (item :: done).reverse, text)
        | _ => none

/-- Reads a key and its value, as a change of the table that they stand in. -/
def keyValue? (readValue : List Char → Step Toml) (text : List Char) : Step Change :=
  match key? nestingLimit [] text with
  | some ((path, key), '=' :: text) =>
    (readValue (skipBlanks text)).map fun (value, text) => (assign path key value, text)
  | _ => none

/-- Reads the rest of an inline table that has entries, up to the closing brace. -/
def entriesWith? (readValue : List Char → Step Toml) :
    Nat → NameTable Toml → List Char → Step Toml
  | 0, _, _ => none
  | bound + 1, entries, text =>
    match keyValue? readValue text with
    | none => none
    | some (change, text) =>
      match change .closed entries with
      | none => none
      | some entries =>
        match skipBlanks text with
        | ',' :: text => entriesWith? readValue bound entries text
        | '}' :: text => some (.table .closed entries, text)
        | _ => none

/-- Reads a value in which arrays and inline tables nest at most `depth` deep. -/
def value? : Nat → List Char → Step Toml
  | depth, text =>
    match text with
    | '"' :: _ => (string? text).map fun (string, text) => (.str string, text)
    | '\'' :: _ => (string? text).map fun (string, text) => (.str string, text)
    | '[' :: text =>
      match depth with
      | 0 => none
      | depth + 1 => itemsWith? (fun text => value? depth text) (text.length + 1) [] text
    | '{' :: text =>
      match depth with
      | 0 => none
      | depth + 1 =>
        match skipBlanks text with
        | '}' :: text => some (.table .closed [], text)
        | text => entriesWith? (fun text => value? depth text) (text.length + 1) [] text
    | text => scalar? text

/-! ## Documents -/

/-- A document up to some line: its entries and the path of the table that lines add to. -/
structure Draft where
  entries : NameTable Toml
  current : List String

/-- Reads a header after its opening brackets, closed by as many. -/
def header? (closing : List Char) (text : List Char) : Step (List String × String) :=
  match key? nestingLimit [] text with
  | none => none
  | some (name, text) =>
    if closing.isPrefixOf text then
      (restOfLine? (text.drop closing.length)).map fun text => (name, text)
    else none

/-- Opens a table by its header. -/
def Draft.open? (draft : Draft) (change : Change) (path : List String) : Option Draft :=
  (change .header draft.entries).map fun entries => ⟨entries, path⟩

/-- Reads one line: a header, a key with its value, or nothing but a comment. -/
def line? (draft : Draft) (text : List Char) : Step Draft :=
  match skipBlanks text with
  | '[' :: '[' :: text =>
    match header? [']', ']'] text with
    | none => none
    | some ((path, key), text) =>
      (draft.open? (openElement path key) (path ++ [key])).map fun draft => (draft, text)
  | '[' :: text =>
    match header? [']'] text with
    | none => none
    | some ((path, key), text) =>
      (draft.open? (openTable path key) (path ++ [key])).map fun draft => (draft, text)
  | text =>
    match restOfLine? text with
    | some text => some (draft, text)
    | none =>
      match keyValue? (value? nestingLimit) text with
      | none => none
      | some (change, text) =>
        match restOfLine? text, underHeader draft.current change .header draft.entries with
        | some text, some entries => some (⟨entries, draft.current⟩, text)
        | _, _ => none

/-- Reads lines up to the end of the text. -/
def lines? : Nat → Draft → List Char → Option Draft
  | 0, _, _ => none
  | _ + 1, draft, [] => some draft
  | bound + 1, draft, text =>
    match line? draft text with
    | none => none
    | some (draft, text) => lines? bound draft text

/-- A byte order mark may stand at the start. -/
def skipMark : List Char → List Char
  | '\ufeff' :: text => text
  | text => text

/-- The table of entries that a document's text defines. -/
def read? (text : String) : Option (NameTable Toml) :=
  let characters := skipMark text.toList
  (lines? (characters.length + 1) ⟨[], []⟩ characters).map Draft.entries

end TreeText.Toml
