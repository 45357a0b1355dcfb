/-!
# Blank characters and lines

The characters with the Unicode property `White_Space`, and the two operations on text that the
wording of diagnostics needs: the first line, and a text without the blanks around it.
-/

namespace TreeText

/-- The characters of the Unicode property `White_Space`. -/
def blankCharacters : List Char := [
  '\t', '\n', '\x0b', '\x0c', '\r', ' ', '\u0085', '\u00a0', '\u1680',
  '\u2000', '\u2001', '\u2002', '\u2003', '\u2004', '\u2005', '\u2006', '\u2007', '\u2008',
  '\u2009', '\u200a', '\u2028', '\u2029', '\u202f', '\u205f', '\u3000']

/-- Whether a character has the property. -/
def isBlank (c : Char) : Bool := blankCharacters.contains c

/-- A text without the blanks at its two ends. -/
def trimmed (text : List Char) : List Char :=
  ((text.dropWhile isBlank).reverse.dropWhile isBlank).reverse

/-- The first line without its line end, which is a line feed or a carriage return before one. -/
def firstLine : List Char → List Char
  | [] => []
  | '\n' :: _ => []
  | '\r' :: '\n' :: _ => []
  | c :: text => c :: firstLine text

end TreeText
