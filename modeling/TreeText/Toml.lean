import TreeText.NameTable

/-!
# TOML values and the rules on tables

A TOML document is a table of values. Numbers, truth values, dates and times are told apart only
while they are read, so they are one kind of value here.

TOML lets the parts of a table stand apart in the text and forbids to say anything twice. So a
table remembers how it came about, in its `TableForm`, and three operations build a document:
`assign` for a key with its value, `openTable` for a `[header]`, `openElement` for a `[[header]]`.
Each of them fails where the text would define a name again or reopen what is closed.
-/

namespace TreeText

/-- How a table came about. -/
inductive TableForm where
  /-- By a header of its own, or as the whole document. -/
  | header
  /-- By a longer header that leads through it. -/
  | implied
  /-- By a dotted key that leads through it. -/
  | dotted
  /-- By an inline table, which nothing extends. -/
  | closed
deriving DecidableEq

/-- A TOML value. -/
inductive Toml where
  | str (text : String)
  /-- A number, a truth value, a date or a time. -/
  | scalar
  | array (items : List Toml)
  | table (form : TableForm) (entries : List (String × Toml))
  /-- The tables of an array of tables. -/
  | tables (elements : List Toml)
deriving Inhabited

namespace Toml

/-- What is done to a table, given how it came about. -/
abbrev Change := TableForm → NameTable Toml → Option (NameTable Toml)

/-- Makes a change in the table that a path leads to. The path goes through tables that may be
entered and through the last table of an array; where it finds nothing it makes a table. -/
def within (made : TableForm) (mayEnter : TableForm → Bool) (change : Change) :
    List String → Change
  | [], form, entries => change form entries
  | key :: path, _, entries =>
    match entries.lookup key with
    | none =>
      (within made mayEnter change path made []).map fun inner =>
        NameTable.insert key (.table made inner) entries
    | some (.table form inner) =>
      if mayEnter form then
        (within made mayEnter change path form inner).map fun inner =>
          NameTable.insert key (.table form inner) entries
      else none
    | some (.tables elements) =>
      match elements.getLast? with
      | some (.table form inner) =>
        (within made mayEnter change path form inner).map fun inner =>
          NameTable.insert key (.tables (elements.dropLast ++ [.table form inner])) entries
      | _ => none
    | _ => none

/-- Gives a key its value in the table at the end of a dotted path. All tables on the way have to
come from dotted keys or headers that lead through them, and the last one from dotted keys. -/
def assign (path : List String) (key : String) (value : Toml) : Change :=
  within .dotted (fun form => form = .implied || form = .dotted)
    (fun form entries =>
      if (path.isEmpty || form = .dotted) && (entries.lookup key).isNone then
        some (NameTable.insert key value entries)
      else none)
    path

/-- Makes a change in the table that a header's path leads to. -/
def underHeader (path : List String) (change : Change) : Change :=
  within .implied (fun form => form ≠ .closed) change path

/-- Opens the table of a header. It may be there already if longer headers led through it. -/
def openTable (path : List String) (key : String) : Change :=
  underHeader path fun _ entries =>
    match entries.lookup key with
    | none => some (NameTable.insert key (.table .header []) entries)
    | some (.table .implied inner) => some (NameTable.insert key (.table .header inner) entries)
    | _ => none

/-- Opens a further table of an array of tables. -/
def openElement (path : List String) (key : String) : Change :=
  underHeader path fun _ entries =>
    match entries.lookup key with
    | none => some (NameTable.insert key (.tables [.table .header []]) entries)
    | some (.tables elements) =>
      some (NameTable.insert key (.tables (elements ++ [.table .header []])) entries)
    | _ => none

end Toml

end TreeText
