import TreeText.Reading.Visitor
import TreeText.Text.Brace

/-!
# String literals

A literal is cut into pieces: decoded text, and the values of its replacement fields. Literals that
stand side by side are one; their pieces follow one another. If one of them is formatted the result
is a joined string, in which texts side by side are merged and empty ones left out. Otherwise all
pieces are text, and the result is one constant.

The format of a replacement field is cut in the same way, except that nothing is decoded in it.

Notes on the form: `push_text` and `lower_interpolation` push to a list of pieces that they are
given; here each returns its own pieces. Where a text is looked up by its offsets and there is none,
nothing is pushed. What escapes with names stand for is asked of the lookup that the source comes
with.
-/

namespace TreeText

/-- The marks before the opening quote (`Prefix::parse`). -/
def Marks.ofOpening (opening : String) : Marks :=
  let letters := (opening.toList.takeWhile fun c => c != '"' && c != '\'').map Char.toLower
  ⟨letters.contains 'r', letters.contains 'b', letters.contains 'f', letters.contains 'u'⟩

/-- No marks at all. -/
def Marks.none : Marks := ⟨false, false, false, false⟩

/-- A part of a literal. -/
inductive Piece where
  | text (text : String)
  /-- The value of a replacement field. -/
  | value (tree : Tree)

namespace Piece

/-- The constant of a text, unless it is empty (`joined_str`). -/
def textValues (chunk : String) : List Tree :=
  if chunk.isEmpty then [] else [.constant (.str chunk)]

/-- The values of a joined string whose text so far, since the last value, is `chunk`
(`joined_str`). -/
def values (chunk : String) : List Piece → List Tree
  | [] => textValues chunk
  | .text more :: pieces => values (chunk ++ more) pieces
  | .value tree :: pieces => textValues chunk ++ tree :: values "" pieces

/-- The texts among the pieces, joined. -/
def allText (pieces : List Piece) : String :=
  String.join (pieces.filterMap fun piece =>
    match piece with
    | .text chunk => some chunk
    | .value _ => none)

/-- A joined string (`joined_str`). -/
def joined (pieces : List Piece) : Tree :=
  .record "JoinedStr" [("values", .seq (values "" pieces))]

/-- What literals side by side come to, given the marks of each and all their pieces
(`lower_strings`). Of the marks `u` only the first literal's counts. -/
def toTree (marks : List Marks) (pieces : List Piece) : Tree :=
  if marks.any Marks.formatted then joined pieces
  else if marks.any Marks.bytes then .constant (.scalar "bytes" (allText pieces))
  else
    .record "Constant" [
      ("value", .str (allText pieces)),
      ("kind", if marks.head?.any Marks.unicode then .str "u" else .absent)]

end Piece

/-- The text that stands for itself in a literal with these marks (`push_text`). -/
def Marks.decode (marks : Marks) (names : CharacterName.Lookup) (text : List Char) :
    Except EscapeFault (List Char) :=
  let text := if marks.formatted then withSingleBraces text else text
  if marks.raw then .ok text else decodeEscapesBy names marks.bytes text

namespace Cst

/-- The marks of a literal (`string_prefix`). -/
def marks (source : Source) (literal : Cst) : Marks :=
  match literal.children.find? fun child => child.kind == "string_start" with
  | some start => .ofOpening (start.text source)
  | none => .none

/-- Where a literal's body starts, after its opening quote (`string_pieces`). -/
def bodyStart (literal : Cst) : Nat :=
  match literal.children.find? fun child => child.kind == "string_start" with
  | some start => start.info.stop
  | none => literal.info.start

/-- Where a literal's body ends, before its closing quote (`string_pieces`). -/
def bodyStop (literal : Cst) : Nat :=
  match literal.children.reverse.find? fun child => child.kind == "string_end" with
  | some stop => stop.info.start
  | none => literal.info.stop

/-- A replacement field. -/
def isInterpolation (c : Cst) : Bool := c.kind == "interpolation"

/-- The equals sign of a replacement field that shows its own text. -/
def debugSign? (c : Cst) : Option Cst :=
  c.children.find? fun child => !child.isNamed && child.kind == "="

end Cst

namespace Visitor

variable {m : Type → Type} [Monad m] [MonadExceptOf Fault m] (v : Visitor m)

/-- The text of a literal between two offsets (`push_text`). -/
def textPieces (literal : Cst) (marks : Marks) (start stop : Nat) : m (List Piece) :=
  match v.source.slice? start stop with
  | none => pure []
  | some raw =>
    match marks.decode v.source.names raw.toList with
    | .ok text => pure [.text (String.ofList text)]
    | .error fault => throw (literal.fault (.escape fault))

/-- The conversion that a replacement field asks for, as the code of its letter. -/
def conversion? (c : Cst) : Option Nat :=
  (c.child? "type_conversion").bind fun conversion =>
    (v.text conversion).toList.getLast?.map Char.toNat

/-- The text of a replacement field up to its equals sign, if it has one (`lower_interpolation`). -/
def label (c : Cst) : List Piece :=
  match c.debugSign? with
  | some sign => [.text (v.source.slice (c.info.start + 1) sign.info.stop)]
  | none => []

/-- The code of the conversion of a replacement field: the one that it asks for, else the one of `r`
where its own text is shown and no format is given, else minus one (`lower_interpolation`). -/
def conversion (c : Cst) : Int :=
  match v.conversion? c with
  | some code => code
  | none =>
    if c.debugSign?.isSome && (c.child? "format_specifier").isNone then 'r'.toNat else -1

/-- The format of a replacement field in a literal with these marks. -/
def format? (marks : Marks) : Option Cst → m Tree
  | some spec => v.visit (.formatSpec marks) spec
  | none => pure .absent

/-- A replacement field (`lower_interpolation`). Its format is read before its expression. -/
def interpolation (marks : Marks) (c : Cst) : m (List Piece) := do
  let expression ← c.require "expression"
  let format ← v.format? marks (c.child? "format_specifier")
  let value ← v.load expression
  return v.label c ++ [.value (.record "FormattedValue"
    [("value", value), ("conversion", .int (v.conversion c)), ("format_spec", format)])]

/-- The pieces of a literal from an offset on, up to `stop`, given its replacement fields
(`literal_pieces`). -/
def piecesFrom (literal : Cst) (marks : Marks) (stop : Nat) :
    (start : Nat) → List Cst → m (List Piece)
  | start, [] => v.textPieces literal marks start stop
  | start, field :: fields => do
    let before ← v.textPieces literal marks start field.info.start
    let value ← v.interpolation marks field
    let after ← piecesFrom literal marks stop field.info.stop fields
    return before ++ value ++ after

/-- The pieces of one literal (`string_pieces`). -/
def pieces (literal : Cst) : m (List Piece) :=
  v.piecesFrom literal (literal.marks v.source) literal.bodyStop literal.bodyStart
    (literal.children.filter Cst.isInterpolation)

/-- One literal, or several side by side (`lower_strings`). -/
def literals (nodes : List Cst) : m Tree := do
  let pieces ← nodes.mapM v.pieces
  return Piece.toTree (nodes.map (Cst.marks v.source)) pieces.flatten

/-- The format after the colon of a replacement field (`lower_interpolation`). -/
def formatSpec (marks : Marks) (spec : Cst) : m Tree := do
  let start := min (spec.info.start + 1) spec.info.stop
  let fields := spec.significant.filter Cst.isInterpolation
  let pieces ← v.piecesFrom spec { marks with raw := true } spec.info.stop start fields
  return Piece.joined pieces

end Visitor

end TreeText
