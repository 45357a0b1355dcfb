import TreeText.Proofs.CommandLine.Strictness
import TreeText.Proofs.Reading.Induction
import TreeText.Proofs.Reading.Trivia
import TreeText.Proofs.Tree.Interchange

/-!
# Two runs, one after the other

A run may write the tree of a program, and another run may read it again and write the line of text.
Together they write what a single run would have written (`run_fedWith_emitted`). Three facts make
it so. The tree that was read from a program is well formed, since every rule makes a node of its
fields by putting them into a table (`readModule_wellFormed`). So its text, with the end of the line
that a run writes behind it, is read back as the same tree. And the line of text depends on nothing
but the tree and the schema.

The two ways differ in their warnings only: the second run does not know that the tree was a
program, and takes no kind for an expected one.
-/

namespace TreeText

/-! ## Well-formed trees from programs -/

theorem Derives.wellFormed {given : Form → Tree → Prop}
    (hgiven : ∀ form tree, given form tree → tree.WellFormed) {n : Nat} {form : Form} {tree : Tree}
    (h : Derives given n form tree) : tree.WellFormed := by
  induction h with
  | given h => exact hgiven _ _ h
  | text text => exact trivial
  | absent => exact trivial
  | present _ ih => exact ih
  | instead text => exact trivial
  | other _ ih => exact ih
  | list _ ih => exact Tree.wellFormedItems_iff.mpr ih
  | @node n category kind forms fields hkind hforms hnames hfields hparallel ih =>
    refine ⟨NameTable.ofList_sorted fields, Tree.wellFormedFields_iff.mpr fun pair hpair => ?_⟩
    -- A table has no values but those that were put into it.
    obtain ⟨form, hzip⟩ := (exists_zip_of_mem hnames).2 pair (NameTable.mem_of_mem_ofList hpair)
    exact ih _ hzip

/-- All rules keep trees well formed. -/
theorem Kept.wellFormed (root : Cst) : Kept root fun _ _ _ tree => tree.WellFormed where
  leaf := fun _ _ _ => ⟨List.Pairwise.nil, trivial⟩
  rule := fun _ _ _ h => h.wellFormed fun _ _ ⟨_, _, _, hformed⟩ => hformed
  ordinary := fun h => h

theorem readModule_wellFormed {names : CharacterName.Lookup} {fileName text : String} {root : Cst}
    {tree : Tree} (h : readModule names fileName text root = .ok tree) : tree.WellFormed :=
  ((Kept.wellFormed root).readModule h).wellFormed fun _ _ ⟨_, _, _, hformed⟩ => hformed

/-- The unknown kinds stand in increasing order, so each stands once. -/
theorem Schema.unknownKinds_pairwise_lt (schema : Schema) (tree : Tree) :
    (schema.unknownKinds tree).Pairwise (· < ·) :=
  List.pairwise_map.mpr (NameTable.ofList_sorted _)

namespace CommandLine

/-! ## One run after another -/

/-- What a run finds that gets the output of another run on its standard input. -/
def fedWith (surroundings : Surroundings) (outcome : Outcome) : Surroundings :=
  { surroundings with standardInput := outcome.output.toUTF8 }

/-- No kind is expected of a tree of unknown origin. -/
theorem warnings_of_treeJson {options : Options} (h : options.input = .treeJson) (schema : Schema)
    (tree : Tree) : warnings options schema tree = (schema.unknownKinds tree).map warning := by
  have hall : (schema.unknownKinds tree).filter
      (fun kind => !(expectedKinds options.input).contains kind) = schema.unknownKinds tree := by
    rw [h]
    exact List.filter_eq_self.mpr fun kind _ => rfl
  rw [warnings, hall]

/-- A warning about a kind ends with its name. -/
def WarnsOf (kind message : String) : Prop :=
  ∃ sentence, message = "WARN cinder: " ++ sentence ++ " kind=" ++ kind

theorem forall₂_warnsOf (kinds : List String) : List.Forall₂ WarnsOf kinds (kinds.map warning) := by
  refine List.forall₂_map_right_iff.mpr (List.forall₂_same.mpr fun kind _ => ?_)
  exact ⟨shown ("no schema entry, rendered as #<" ++ kind ++ ">"), rfl⟩

/-- **Two runs write what one would.** Let a program be found and read, its tree nest no deeper
than 127, and the schema be found. If one run writes the tree and another reads its output and
writes the line of text, this is the line that a single run writes. The second run warns of each
unknown kind of the tree once, by its name and in increasing order, the expected ones included. -/
theorem run_fedWith_emitted (surroundings : Surroundings) {parser : ArgumentParser}
    {direct emitting again : List String} {file text : String} {schemaPath : Option String}
    {schema : Schema} {root : Cst} {tree : Tree}
    (hdirect : parser direct = .ok ⟨file, .program, .line, schemaPath, false⟩)
    (hemitting : parser emitting = .ok ⟨file, .program, .tree, schemaPath, false⟩)
    (hagain : parser again = .ok ⟨"-", .treeJson, .line, schemaPath, false⟩)
    (hschema : loadSchema surroundings schemaPath = .ok schema)
    (htext : readInput surroundings file = .ok text)
    (hroot : surroundings.concreteSyntax text = some root)
    (htree : readModule surroundings.characterNames (displayName file) text root = .ok tree)
    (hdepth : tree.jsonDepth ≤ 127) :
    (run surroundings parser direct).exitCode = 0 ∧
    (run (fedWith surroundings (run surroundings parser emitting)) parser again).exitCode = 0 ∧
    (run (fedWith surroundings (run surroundings parser emitting)) parser again).output =
      (run surroundings parser direct).output ∧
    (run (fedWith surroundings (run surroundings parser emitting)) parser again).messages =
      (schema.unknownKinds tree).map warning ∧
    List.Forall₂ WarnsOf (schema.unknownKinds tree)
      (run (fedWith surroundings (run surroundings parser emitting)) parser again).messages ∧
    (schema.unknownKinds tree).Pairwise (· < ·) := by
  have hrun : run surroundings parser direct =
      emit ⟨file, .program, .line, schemaPath, false⟩ schema tree :=
    run_of_check_ok hdirect
      (prepare_eq_ok hschema htext (readTree_program rfl hroot htree)) (check_of_not_strict rfl)
  have hemitted : (run surroundings parser emitting).output = tree.prettyText ++ "\n" := by
    rw [run_of_check_ok hemitting
      (prepare_eq_ok hschema htext (readTree_program rfl hroot htree)) (check_of_not_strict rfl)]
    rfl
  have hlimit : tree.jsonDepth ≤ Json.nestingLimit := hdepth
  have hread : Tree.read (tree.prettyText ++ "\n") = .ok tree := by
    rw [Tree.read_prettyText_newline (readModule_wellFormed htree), if_pos hlimit]
  have hrunAgain : run (fedWith surroundings (run surroundings parser emitting)) parser again =
      emit ⟨"-", .treeJson, .line, schemaPath, false⟩ schema tree := by
    rw [fedWith, hemitted]
    -- The schema file is looked up among the files, which are the same for both runs.
    exact run_of_check_ok hagain
      (prepare_eq_ok hschema (readInput_standardInput surroundings _) (readTree_treeJson rfl hread))
      (check_of_not_strict rfl)
  have hmessages : (run (fedWith surroundings (run surroundings parser emitting)) parser
      again).messages = (schema.unknownKinds tree).map warning := by
    rw [hrunAgain]
    exact warnings_of_treeJson rfl schema tree
  rw [hmessages, hrun, hrunAgain]
  exact ⟨rfl, rfl, rfl, rfl, forall₂_warnsOf _, schema.unknownKinds_pairwise_lt tree⟩

/-- The concrete syntax tree of `1`. -/
def oneModule : Cst :=
  .sound "module" none true 0 2 0 0 [
    .sound "expression_statement" none true 0 1 0 0 [.sound "integer" none true 0 1 0 0 []]]

/-- The tree of `1`. -/
def oneTree : Tree :=
  .record "Module" [
    ("body", .seq [.record "Expr" [("value", .constant (.scalar "int" "1"))]]),
    ("type_ignores", .seq [])]

/-- The text of a schema file that knows one kind more. -/
def matchFile : String := "[kinds]\nMatch = [\"subject\"]\n"

/-- A run finds this schema file, and `1` on its standard input. -/
def oneSurroundings : Surroundings :=
  ⟨fun path => if path = "more.toml" then .ok matchFile.toUTF8 else .error .notFound,
    "1\n".toUTF8, fun _ => some oneModule, CharacterName.noNames⟩

/-- Numbers are no kind of the schema file: the second run warns of them, since it takes no kind
for an expected one. -/
theorem run_fedWith_emitted_one :
    (run oneSurroundings Arguments.parse ["-", "--schema", "more.toml"]).exitCode = 0 ∧
    (run (fedWith oneSurroundings
      (run oneSurroundings Arguments.parse ["--emit", "tree", "--schema=more.toml", "-"]))
      Arguments.parse ["--input", "tree-json", "--schema", "more.toml", "-"]).output =
      (run oneSurroundings Arguments.parse ["-", "--schema", "more.toml"]).output ∧
    (run (fedWith oneSurroundings
      (run oneSurroundings Arguments.parse ["--emit", "tree", "--schema=more.toml", "-"]))
      Arguments.parse ["--input", "tree-json", "--schema", "more.toml", "-"]).messages =
        ["WARN cinder: no schema entry, rendered as #<int> kind=int"] := by
  have hdirect : Arguments.parse ["-", "--schema", "more.toml"] =
      .ok ⟨"-", .program, .line, some "more.toml", false⟩ := by decide +kernel
  have hemitting : Arguments.parse ["--emit", "tree", "--schema=more.toml", "-"] =
      .ok ⟨"-", .program, .tree, some "more.toml", false⟩ := by decide +kernel
  have hagain : Arguments.parse ["--input", "tree-json", "--schema", "more.toml", "-"] =
      .ok ⟨"-", .treeJson, .line, some "more.toml", false⟩ := by decide +kernel
  have hofToml : Schema.ofToml matchFile = .ok ⟨[("Match", ["subject"])]⟩ := by decide +kernel
  have hschema : loadSchema oneSurroundings (some "more.toml") =
      .ok (Schema.builtin.extend ⟨[("Match", ["subject"])]⟩) := by
    have hread : readText oneSurroundings "more.toml" = .ok matchFile := textOf_toUTF8 matchFile
    rw [loadSchema, hread]
    simp only [hofToml]
  have htext : readInput oneSurroundings "-" = .ok "1\n" :=
    readInput_standardInput oneSurroundings "1\n"
  have htree : readModule CharacterName.noNames (displayName "-") "1\n" oneModule =
      .ok oneTree := by decide +kernel
  have hdepth : oneTree.jsonDepth ≤ 127 := by decide +kernel
  have hunknown : (Schema.builtin.extend ⟨[("Match", ["subject"])]⟩).unknownKinds oneTree =
      ["int"] := by decide +kernel
  obtain ⟨hexit, -, houtput, hmessages, -, -⟩ :=
    run_fedWith_emitted oneSurroundings hdirect hemitting hagain hschema htext rfl htree hdepth
  rw [hunknown] at hmessages
  exact ⟨hexit, houtput, hmessages⟩

end CommandLine

end TreeText
