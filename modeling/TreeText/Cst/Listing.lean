import TreeText.Cst
import TreeText.Json.Reader

/-!
# Listings of concrete syntax trees

A grammar's parser hands a concrete syntax tree over as a JSON array with one row for each node,
parents before children:

    [kind, field, flags, start, stop, row, column, number of children]

The field is `null` where there is none. The flags are bits: named, error, missing, has an error.
-/

namespace TreeText.Cst

/-- The row that a JSON value lists. -/
def rowOfJson? : Json → Option Row
  | .arr [.str kind, field, flags, start, stop, row, column, childCount] => do
    let flags ← flags.nat?
    let info : Info := {
      kind
      field := field.text?
      isNamed := flags.testBit 0
      isError := flags.testBit 1
      isMissing := flags.testBit 2
      hasError := flags.testBit 3
      start := ← start.nat?
      stop := ← stop.nat?
      row := ← row.nat?
      column := ← column.nat? }
    return ⟨info, ← childCount.nat?⟩
  | _ => none

/-- The tree of a listing. -/
def read? (text : String) : Option Cst :=
  match Json.read text with
  | .ok (.arr rows, _) => (rows.mapM rowOfJson?).bind ofRows?
  | _ => none

end TreeText.Cst
