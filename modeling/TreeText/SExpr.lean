/-!
# S-expressions and their text

The form between a tree and its one line of text: tagged lists of symbols, field markers,
strings and placeholders. Strings are kept as they are; they are quoted when written.

Notes on the form: `render_into` pushes the text of an expression behind a buffer. `SExpr.put`
writes it in front of a text that is already there, so that a list is written in time linear in its
text and a reader's law can speak of any text that follows.
-/

namespace TreeText

/-- A tagged-list expression. -/
inductive SExpr where
  /-- The absence token. -/
  | nil
  /-- A bare name, the kind of a node. -/
  | symbol (name : String)
  /-- A field marker, written with a colon before it. -/
  | keyword (name : String)
  /-- Text, written between quotes. -/
  | str (text : String)
  /-- Stands for a node of a kind that the schema does not know. -/
  | placeholder (kind : String)
  | list (items : List SExpr)
deriving Inhabited

/-- Backslashes and double quotes get a backslash before them; nothing else changes
(`push_escaped`). -/
def escaped : List Char → List Char
  | [] => []
  | c :: rest =>
    if c = '\\' ∨ c = '"' then '\\' :: c :: escaped rest else c :: escaped rest

/-- A text between double quotes (`escape_str`). -/
def quoted (text : String) : String :=
  String.ofList ('"' :: escaped text.toList ++ ['"'])

namespace SExpr

/-- Whether an expression is the absence token (`is_nil`). -/
def isNil : SExpr → Bool
  | .nil => true
  | _ => false

/-- The items of a list (`as_list`). -/
def items? : SExpr → Option (List SExpr)
  | .list items => some items
  | _ => none

/-- The name that a tagged list starts with (`head`). -/
def head? : SExpr → Option String
  | .list (.symbol name :: _) => some name
  | _ => none

/-- In a list of markers and values by turns, the value after the first marker of that name. -/
def valueOf? (name : String) : List SExpr → Option SExpr
  | .keyword marker :: value :: rest =>
    if marker = name then some value else valueOf? name rest
  | _ :: _ :: rest => valueOf? name rest
  | _ => none

/-- The value of a field of a tagged list (`field`). -/
def field? (expr : SExpr) (name : String) : Option SExpr :=
  match expr with
  | .list (.symbol _ :: rest) => valueOf? name rest
  | _ => none

mutual

/-- Writes an expression in front of `rest` (`render_into`). -/
def put : SExpr → List Char → List Char
  | .nil, rest => "nil".toList ++ rest
  | .symbol name, rest => name.toList ++ rest
  | .keyword name, rest => ':' :: (name.toList ++ rest)
  | .str text, rest => '"' :: (escaped text.toList ++ '"' :: rest)
  | .placeholder kind, rest => '#' :: '<' :: (kind.toList ++ '>' :: rest)
  | .list [], rest => '(' :: ')' :: rest
  | .list (item :: items), rest => '(' :: put item (putTail items (')' :: rest))

/-- Writes items in front of `rest`, each after a space. -/
def putTail : List SExpr → List Char → List Char
  | [], rest => rest
  | item :: items, rest => ' ' :: put item (putTail items rest)

end

/-- An expression as one line of text (`render`). -/
def render (expr : SExpr) : String :=
  String.ofList (expr.put [])

/-- Appends the text of an expression to `out` (`render_into`). -/
def renderOnto (out : String) (expr : SExpr) : String :=
  out ++ expr.render

end SExpr

end TreeText
