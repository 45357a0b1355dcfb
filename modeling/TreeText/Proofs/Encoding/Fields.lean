import TreeText.Proofs.Encoding.Visit
import TreeText.Tree.Interchange

/-!
# Fields are written in the order of the schema

A node may be given its fields in any order, some of them more than once and some that its schema
does not list. None of this shows: what a node is depends on the last value of each field alone
(`Tree.given_eq_iff`), and the S-expression of a node of a known kind has the markers of the listed
fields, in the order of the list, with the value behind each.

Reading a field back goes through markers and values by turns. A value is passed by together with
its marker, so it is not looked at, whatever markers there are in it (`SExpr.valueOf?_flatMap`).
-/

namespace TreeText

/-! ## Nodes that are given fields -/

namespace Tree

/-- The node of a kind that is given these values one after the other. -/
def given (kind : String) (values : List (String × Tree)) : Tree :=
  values.foldl (fun tree pair => set tree pair.1 pair.2) (leaf kind)

/-- The last of the values for a name. -/
def lastGiven? (values : List (String × Tree)) (name : String) : Option Tree :=
  values.reverse.lookup name

theorem given_eq_record (kind : String) (values : List (String × Tree)) :
    given kind values = record kind values := by
  have hset (fields : List (String × Tree)) :
      values.foldl (fun tree pair => set tree pair.1 pair.2) (node kind fields) =
        node kind (NameTable.extend fields values) := by
    induction values generalizing fields with
    | nil => rfl
    | cons pair rest ih => exact ih (NameTable.insert pair.1 pair.2 fields)
  exact hset []

/-- Nodes are the same just if the last values that they have been given agree. -/
theorem given_eq_iff {kind : String} {values values' : List (String × Tree)} :
    given kind values = given kind values' ↔
      ∀ name, lastGiven? values name = lastGiven? values' name := by
  rw [given_eq_record, given_eq_record, record, record, node.injEq, NameTable.ofList_eq_iff]
  exact and_iff_right rfl

end Tree

/-! ## Markers and values by turns -/

namespace SExpr

/-- The names of the markers, in a list of markers and values by turns. -/
def markersIn? : List SExpr → Option (List String)
  | [] => some []
  | .keyword name :: _ :: rest => (markersIn? rest).map (name :: ·)
  | _ => none

/-- The names of the fields of a tagged list. -/
def markers? : SExpr → Option (List String)
  | .list (.symbol _ :: rest) => markersIn? rest
  | _ => none

variable (names : List String) (value : String → SExpr)

theorem markersIn?_flatMap :
    markersIn? (names.flatMap fun name => [.keyword name, value name]) = some names := by
  induction names with
  | nil => rfl
  | cons name rest ih =>
    rw [List.flatMap_cons, List.cons_append, List.cons_append, List.nil_append, markersIn?, ih]
    rfl

theorem valueOf?_flatMap (name : String) :
    valueOf? name (names.flatMap fun name => [.keyword name, value name]) =
      if name ∈ names then some (value name) else none := by
  induction names with
  | nil => rfl
  | cons first rest ih =>
    rw [List.flatMap_cons, List.cons_append, List.cons_append, List.nil_append, valueOf?, ih]
    by_cases hfirst : first = name
    · rw [if_pos hfirst, if_pos (hfirst ▸ List.mem_cons_self), hfirst]
    · have hmem : name ∈ first :: rest ↔ name ∈ rest :=
        List.mem_cons.trans (or_iff_right (Ne.symm hfirst))
      rw [if_neg hfirst]
      simp only [hmem]

end SExpr

namespace Schema

variable (schema : Schema)

/-- A node of a known kind that has been given values shows the last one of each listed field. -/
theorem encode_given {kind : String} {names : List String}
    (hkind : schema.fields? kind = some names) (values : List (String × Tree)) :
    schema.encode (.given kind values) = .list (.symbol kind :: names.flatMap fun name =>
      [.keyword name, ((Tree.lastGiven? values name).map schema.encode).getD .nil]) := by
  have hvalue (name : String) :
      schema.encode (Tree.listed (NameTable.ofList values) name) =
        ((Tree.lastGiven? values name).map schema.encode).getD .nil := by
    rw [Tree.listed, NameTable.lookup_ofList, ← Tree.lastGiven?]
    cases Tree.lastGiven? values name with
    | none => rfl
    | some value => rfl
  rw [Tree.given_eq_record, Tree.record, schema.encode_node_of_fields? hkind]
  simp only [hvalue]

/-- **Fields are written in the order of the schema and can be read back.** Let a node of a known
kind be given any values one after the other. Its S-expression is a list with the kind in front,
then the markers of just the listed fields, in the order of the list. Reading a field back gives the
last value for it, or the absence token if there is none, and nothing if it is not listed. Nodes for
which the last values agree are the same, and so are their texts in the interchange format. -/
theorem encode_given_readsBack {kind : String} {names : List String}
    (hkind : schema.fields? kind = some names) (values : List (String × Tree)) :
    (schema.encode (.given kind values)).head? = some kind ∧
    (schema.encode (.given kind values)).markers? = some names ∧
    (∀ name, (schema.encode (.given kind values)).field? name =
      if name ∈ names then some (((Tree.lastGiven? values name).map schema.encode).getD .nil)
      else none) ∧
    (∀ values', (∀ name, Tree.lastGiven? values name = Tree.lastGiven? values' name) →
      Tree.given kind values = .given kind values' ∧
      (Tree.given kind values).compactText = (Tree.given kind values').compactText ∧
      (Tree.given kind values).prettyText = (Tree.given kind values').prettyText) := by
  rw [schema.encode_given hkind]
  refine ⟨rfl, SExpr.markersIn?_flatMap names _, SExpr.valueOf?_flatMap names _, ?_⟩
  intro values' hlast
  have hsame : Tree.given kind values = .given kind values' := Tree.given_eq_iff.mpr hlast
  exact ⟨hsame, congrArg Tree.compactText hsame, congrArg Tree.prettyText hsame⟩

/-- The schema of pairs. -/
def pairSchema : Schema := ⟨[("Pair", ["right", "left"])]⟩

/-- A pair as the value of a field of another: it has the markers of both. -/
def innerPair : Tree := .given "Pair" [("left", .str "a"), ("right", .str "b")]

/-- Values for a pair, one of them replaced later and one for a field that pairs do not have. -/
def outerValues : List (String × Tree) :=
  [("left", .str "c"), ("middle", innerPair), ("left", innerPair), ("right", .seq [innerPair])]

/-- Of the values of a pair the later one is read back, whatever lies in it and whatever is behind
it. -/
theorem encode_given_readsBack_pair :
    pairSchema.fields? "Pair" = some ["right", "left"] ∧
    (pairSchema.encode (.given "Pair" outerValues)).field? "left" =
      some (pairSchema.encode innerPair) ∧
    (pairSchema.encode (.given "Pair" outerValues)).field? "right" =
      some (.list [pairSchema.encode innerPair]) ∧
    (pairSchema.encode (.given "Pair" outerValues)).field? "middle" = none ∧
    (pairSchema.encode (.given "Pair" [("right", .str "b")])).field? "left" = some .nil ∧
    (Tree.given "Pair" [("right", .str "b"), ("left", .str "a")]).compactText =
      innerPair.compactText := by
  have hkind : pairSchema.fields? "Pair" = some ["right", "left"] := rfl
  obtain ⟨-, -, houter, -⟩ := encode_given_readsBack pairSchema hkind outerValues
  obtain ⟨-, -, hlacking, -⟩ := encode_given_readsBack pairSchema hkind [("right", .str "b")]
  obtain ⟨-, -, -, hsame⟩ := encode_given_readsBack pairSchema hkind
    [("right", .str "b"), ("left", .str "a")]
  refine ⟨hkind, houter "left", houter "right", houter "middle", hlacking "left", ?_⟩
  have hlast (name : String) :
      Tree.lastGiven? [("right", .str "b"), ("left", .str "a")] name =
        Tree.lastGiven? [("left", .str "a"), ("right", .str "b")] name := by
    by_cases hleft : name = "left"
    · subst hleft
      rfl
    · simp [Tree.lastGiven?, List.lookup_cons, beq_eq_false_iff_ne.mpr hleft]
  exact (hsame _ hlast).2.1

end Schema

end TreeText
