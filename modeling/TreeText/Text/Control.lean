import TreeText.Text.Hexadecimal

/-!
# Control characters in messages

A terminal acts on some control characters instead of showing them, and a text from a stranger
could make use of that. In a message these characters are written by their codes: the bell, the
backspace, the form feed, the escape and the delete character with two digits, and those from
U+0080 to U+009F with their digits in braces. Everything else stands for itself, line ends and tabs
included.
-/

namespace TreeText

/-- The control characters below U+0080 that a terminal acts on. -/
def commandCharacters : List Char := ['\x07', '\x08', '\x0c', '\x1b', '\x7f']

/-- A character as a message shows it. -/
def shownChar (c : Char) : List Char :=
  let digits := [hexChar (c.toNat / 16), hexChar (c.toNat % 16)]
  if commandCharacters.contains c then '\\' :: 'x' :: digits
  else if 0x80 ≤ c.toNat ∧ c.toNat ≤ 0x9F then '\\' :: 'u' :: '{' :: (digits ++ ['}'])
  else [c]

/-- A text as a message shows it. -/
def shown (text : String) : String :=
  String.ofList (text.toList.flatMap shownChar)

end TreeText
