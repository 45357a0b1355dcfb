import TreeText.Json
import TreeText.Text.Hexadecimal

/-!
# Printing JSON

`Json.compact` prints a value without blanks; `Json.pretty` puts each item and each member on a
line of its own, two spaces deeper than what it lies in. Quotes, backslashes and control
characters are escaped, with a letter where there is one; every other character stands for itself.

Notes on the form: this is what the library does that the tool writes JSON with. As with
S-expressions, a value is put in front of the text that follows it.
-/

namespace TreeText.Json

/-- A character as a string holds it. -/
def escape (c : Char) : List Char :=
  if c = '"' then ['\\', '"']
  else if c = '\\' then ['\\', '\\']
  else if c = '\x08' then ['\\', 'b']
  else if c = '\t' then ['\\', 't']
  else if c = '\n' then ['\\', 'n']
  else if c = '\x0c' then ['\\', 'f']
  else if c = '\r' then ['\\', 'r']
  else if c.toNat < 0x20 then
    ['\\', 'u', '0', '0', hexChar (c.toNat / 16), hexChar (c.toNat % 16)]
  else [c]

/-- Puts the characters of a string in front of `rest`. -/
def putChars : List Char → List Char → List Char
  | [], rest => rest
  | c :: cs, rest => escape c ++ putChars cs rest

/-- Puts a string with its quotes in front of `rest`. -/
def putString (text : String) (rest : List Char) : List Char :=
  '"' :: putChars text.toList ('"' :: rest)

/-- The two truth values. -/
def boolText : Bool → List Char
  | true => ['t', 'r', 'u', 'e']
  | false => ['f', 'a', 'l', 's', 'e']

/-! ## On one line -/

mutual

/-- Puts a value in front of `rest`. -/
def put : Json → List Char → List Char
  | .null, rest => 'n' :: 'u' :: 'l' :: 'l' :: rest
  | .bool value, rest => boolText value ++ rest
  | .number spelling, rest => spelling.toList ++ rest
  | .str text, rest => putString text rest
  | .arr [], rest => '[' :: ']' :: rest
  | .arr (item :: items), rest => '[' :: put item (putItems items (']' :: rest))
  | .obj [], rest => '{' :: '}' :: rest
  | .obj ((name, value) :: members), rest =>
    '{' :: putString name (':' :: put value (putMembers members ('}' :: rest)))

/-- Puts further items in front of `rest`. -/
def putItems : List Json → List Char → List Char
  | [], rest => rest
  | item :: items, rest => ',' :: put item (putItems items rest)

/-- Puts further members in front of `rest`. -/
def putMembers : List (String × Json) → List Char → List Char
  | [], rest => rest
  | (name, value) :: members, rest =>
    ',' :: putString name (':' :: put value (putMembers members rest))

end

/-- A value on one line, without blanks. -/
def compact (value : Json) : String :=
  String.ofList (value.put [])

/-! ## On indented lines -/

/-- Starts a line at a depth. -/
def putLine (depth : Nat) (rest : List Char) : List Char :=
  '\n' :: (List.replicate (2 * depth) ' ' ++ rest)

mutual

/-- Puts a value at a depth in front of `rest`. -/
def putPretty (depth : Nat) : Json → List Char → List Char
  | .null, rest => 'n' :: 'u' :: 'l' :: 'l' :: rest
  | .bool value, rest => boolText value ++ rest
  | .number spelling, rest => spelling.toList ++ rest
  | .str text, rest => putString text rest
  | .arr [], rest => '[' :: ']' :: rest
  | .arr (item :: items), rest =>
    '[' :: putLine (depth + 1) (putPretty (depth + 1) item
      (putPrettyItems (depth + 1) items (putLine depth (']' :: rest))))
  | .obj [], rest => '{' :: '}' :: rest
  | .obj ((name, value) :: members), rest =>
    '{' :: putLine (depth + 1) (putString name (':' :: ' ' :: putPretty (depth + 1) value
      (putPrettyMembers (depth + 1) members (putLine depth ('}' :: rest)))))

/-- Puts further items at a depth in front of `rest`. -/
def putPrettyItems (depth : Nat) : List Json → List Char → List Char
  | [], rest => rest
  | item :: items, rest =>
    ',' :: putLine depth (putPretty depth item (putPrettyItems depth items rest))

/-- Puts further members at a depth in front of `rest`. -/
def putPrettyMembers (depth : Nat) : List (String × Json) → List Char → List Char
  | [], rest => rest
  | (name, value) :: members, rest =>
    ',' :: putLine depth (putString name (':' :: ' ' :: putPretty depth value
      (putPrettyMembers depth members rest)))

end

/-- A value with items and members on lines of their own. -/
def pretty (value : Json) : String :=
  String.ofList (value.putPretty 0 [])

end TreeText.Json
