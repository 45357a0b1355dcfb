import TreeText.Reading.Visitor

/-!
# Imports

The names of an import are aliases. Dotted names are put together from their parts, so blanks
around the dots leave no trace. The leading dots of a relative import are its level.

Notes on the form: `lower_import_from` goes through the parts of a relative import and overwrites
what it found before, so the last part of a sort counts; here that part is looked for from the end.
-/

namespace TreeText

namespace Tree

/-- An imported name, and the name that it goes by if that is another. -/
def importAlias (name : String) (asName : Option String) : Tree :=
  .record "alias" [("name", .str name), ("asname", .ofText? asName)]

end Tree

namespace Visitor

variable {m : Type → Type} [Monad m] [MonadExceptOf Fault m] (v : Visitor m)

/-- A dotted name without blanks (`dotted_name`). -/
def dottedName (c : Cst) : String :=
  if c.kind = "dotted_name" then
    ".".intercalate (c.significant.map v.text)
  else v.text c

/-- One name in the list of an import (`lower_alias`). -/
def importedName (c : Cst) : Tree :=
  if c.kind = "aliased_import" then
    .importAlias (((c.child? "name").map v.dottedName).getD "") ((c.child? "alias").map v.text)
  else .importAlias (v.dottedName c) none

/-- All names in the list of an import (`lower_import_names`). -/
def importedNames (c : Cst) : List Tree :=
  (c.childrenUnder "name").map v.importedName

/-- An import of modules. -/
def importStatement (c : Cst) : Tree :=
  .record "Import" [("names", .seq (v.importedNames c))]

/-- An import of features of the language itself. -/
def futureImport (c : Cst) : Tree :=
  .record "ImportFrom" [
    ("module", .str "__future__"),
    ("names", .seq (v.importedNames c)),
    ("level", .int 0)]

/-- The leading dots of a relative import (`lower_import_from`). -/
def relativeLevel (parts : List Cst) : Nat :=
  match parts.reverse.find? fun part => part.kind == "import_prefix" with
  | some dots => (v.text dots).toList.count '.'
  | none => 0

/-- The module's name in a relative import, if there is one (`lower_import_from`). -/
def relativeModule (parts : List Cst) : Option String :=
  (parts.reverse.find? fun part => part.kind != "import_prefix").map v.dottedName

/-- An import of names from a module; a star stands for all of them (`lower_import_from`). -/
def importFrom (c : Cst) : m Tree := do
  let source ← c.require "module_name"
  let relative := source.kind == "relative_import"
  let module := if relative then v.relativeModule source.significant else v.dottedName source
  let level := if relative then v.relativeLevel source.significant else 0
  let names :=
    if c.significant.any fun child => child.kind == "wildcard_import" then [.importAlias "*" none]
    else v.importedNames c
  return .record "ImportFrom"
    [("module", .ofText? module), ("names", .seq names), ("level", .int level)]

end Visitor

end TreeText
