import TreeText.Text.Escape

/-!
# Source text by byte offsets

The nodes of a concrete syntax tree say where their text stands by offsets into the UTF-8 bytes of
the source. A slice between two offsets is text only if both lie in the source, in this order, and
no character is cut.
-/

namespace TreeText

/-- The UTF-8 bytes of a source text, and what the names of characters in its literals stand for. -/
structure Source where
  bytes : ByteArray
  names : CharacterName.Lookup

namespace Source

/-- The bytes of a text, and these names. -/
def ofText (names : CharacterName.Lookup) (text : String) : Source := ⟨text.toUTF8, names⟩

/-- The text between two byte offsets. -/
def slice? (source : Source) (start stop : Nat) : Option String :=
  if start ≤ stop ∧ stop ≤ source.bytes.size then
    String.fromUTF8? (source.bytes.extract start stop)
  else none

/-- The text between two byte offsets, empty where there is none. -/
def slice (source : Source) (start stop : Nat) : String :=
  (source.slice? start stop).getD ""

end Source

end TreeText
