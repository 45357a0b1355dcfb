/-!
# Doubled braces

In the text of a formatted literal a brace is written twice. Both kinds of pairs are undone, the
opening ones first.

Notes on the form: each pass is a replacement of one text by another, from left to right, without
looking at what has been put in; `halved` is this for a text of two equal characters.
-/

namespace TreeText

/-- Two of the character side by side become one, from left to right. -/
def halved (c : Char) : List Char → List Char
  | a :: b :: text =>
    if a = c ∧ b = c then c :: halved c text else a :: halved c (b :: text)
  | text => text

/-- A formatted literal's text with its doubled braces undone (`unescape_braces`). -/
def withSingleBraces (text : List Char) : List Char :=
  halved '}' (halved '{' text)

end TreeText
