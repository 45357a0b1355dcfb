import TreeText.CommandLine
import TreeText.Proofs.CommandLine.Flag
import TreeText.Proofs.Encoding.Agreement

/-!
# The strict check is a filter

Asking for the strict check changes nothing that the tool writes: a run that is checked either ends
as the run that is not, or the check rejects the tree and the run ends with the defect. This holds
for any parser of arguments that takes the flag, if it does not refuse them. If it does, both runs
end with a refusal, and its text may depend on the flag (`run_strict`). The text of a missing file
does, since it shows the options that were used (`not_forall_run_strict_eq`).

One half of this is about the parser (`ArgumentParser.TakesStrict`). The other half is about one
run: everything before the check takes no notice of whether it is asked for.

A run that passes the check and writes the line of text has nothing to warn of. The kinds that the
check allows are those that no warning is about, and what it does not allow it does not let pass.
-/

namespace TreeText

/-! ## Runs -/

namespace CommandLine

variable (surroundings : Surroundings)

/-- The schema and the tree of a run, as they come to the check. -/
def prepare (options : Options) : Except Failure (Schema × Tree) := do
  let schema ← loadSchema surroundings options.schemaPath
  let text ← readInput surroundings options.file
  let tree ← readTree surroundings options text
  return (schema, tree)

theorem perform_eq (options : Options) :
    perform surroundings options = (do
      let (schema, tree) ← prepare surroundings options
      check options schema tree
      return emit options schema tree) := by
  simp only [perform, prepare, bind_assoc, pure_bind]

variable {surroundings} {parser : ArgumentParser} {arguments : List String} {options : Options}
  {schema : Schema} {text : String} {tree : Tree}

/-- The tree of a program. -/
theorem readTree_program {root : Cst} (hinput : options.input = .program)
    (hroot : surroundings.concreteSyntax text = some root)
    (htree : readModule surroundings.characterNames (displayName options.file) text root =
      .ok tree) :
    readTree surroundings options text = .ok tree := by
  rw [readTree, hinput]
  simp only [hroot, htree]
  rfl

/-- The tree of a JSON text. -/
theorem readTree_treeJson (hinput : options.input = .treeJson)
    (htree : Tree.read text = .ok tree) : readTree surroundings options text = .ok tree := by
  rw [readTree, hinput]
  simp only [htree]
  rfl

/-- What a run prepares whose schema, text and tree are found. -/
theorem prepare_eq_ok (hschema : loadSchema surroundings options.schemaPath = .ok schema)
    (htext : readInput surroundings options.file = .ok text)
    (htree : readTree surroundings options text = .ok tree) :
    prepare surroundings options = .ok (schema, tree) := by
  rw [prepare, hschema]
  show (readInput surroundings options.file >>= _) = _
  rw [htext]
  show (readTree surroundings options text >>= _) = _
  rw [htree]
  rfl

/-- Without a tree the run ends before the check. -/
theorem run_of_prepare_error {failure : Failure} (hparse : parser arguments = .ok options)
    (hprepare : prepare surroundings options = .error failure) :
    run surroundings parser arguments = ⟨1, "", ["cinder: " ++ failure.message]⟩ := by
  have hperform : perform surroundings options = .error failure := by
    rw [perform_eq, hprepare]
    rfl
  rw [run, hparse]
  simp only [hperform]
  rfl

/-- A run that passes the check, if there is one, writes what it has prepared. -/
theorem run_of_check_ok (hparse : parser arguments = .ok options)
    (hprepare : prepare surroundings options = .ok (schema, tree))
    (hcheck : check options schema tree = .ok ()) :
    run surroundings parser arguments = emit options schema tree := by
  have hperform : perform surroundings options = .ok (emit options schema tree) := by
    rw [perform_eq, hprepare]
    show (check options schema tree >>= fun _ => _) = _
    rw [hcheck]
    rfl
  rw [run, hparse]
  simp only [hperform]

/-- A run that does not pass the check writes nothing. -/
theorem run_of_check_error {failure : Failure} (hparse : parser arguments = .ok options)
    (hprepare : prepare surroundings options = .ok (schema, tree))
    (hcheck : check options schema tree = .error failure) :
    run surroundings parser arguments = ⟨1, "", ["cinder: " ++ failure.message]⟩ := by
  have hperform : perform surroundings options = .error failure := by
    rw [perform_eq, hprepare]
    show (check options schema tree >>= fun _ => _) = _
    rw [hcheck]
    rfl
  rw [run, hparse]
  simp only [hperform]
  rfl

theorem check_of_not_strict (hstrict : options.strict = false) :
    check options schema tree = .ok () := by
  rw [check, hstrict]
  rfl

theorem check_of_strict (hstrict : options.strict = true) :
    check options schema tree =
      (schema.validate (expectedKinds options.input) tree).mapError .misfit := by
  rw [check, hstrict]
  rfl

theorem exitCode_emit (options : Options) (schema : Schema) (tree : Tree) :
    (emit options schema tree).exitCode = 0 := by
  rw [emit]
  split <;> rfl

/-- A tree that the check accepts shows no placeholder but the expected ones. -/
theorem warnings_of_validate (h : schema.validate (expectedKinds options.input) tree = .ok ()) :
    warnings options schema tree = [] := by
  have haccepts := (schema.validate_eq_ok_iff (expectedKinds options.input) tree).mp h
  have hnone : (schema.unknownKinds tree).filter
      (fun kind => !(expectedKinds options.input).contains kind) = [] := by
    rw [List.filter_eq_nil_iff]
    intro kind hkind
    have hmem := haccepts.1 kind (schema.mem_unknownKinds_iff.mp hkind)
    simp [hmem]
  rw [warnings, hnone, List.map_nil]

/-- A run whose arguments are refused writes nothing but the refusal. -/
theorem run_of_refusal (hparse : parser arguments = .error (.refusal text)) :
    run surroundings parser arguments = ⟨2, "", [text]⟩ := by
  rw [run, hparse]
  rfl

variable (surroundings parser)

/-- The strict check would reject the tree of a run with these arguments, for this defect. -/
def Rejects (arguments : List String) (defect : Defect) : Prop :=
  ∃ options schema tree, parser arguments = .ok options ∧
    prepare surroundings options = .ok (schema, tree) ∧
    schema.validate (expectedKinds options.input) tree = .error defect

variable {surroundings parser}

theorem not_rejects_of_parse_error {ending : Ending} (hparse : parser arguments = .error ending)
    (defect : Defect) : ¬ Rejects surroundings parser arguments defect := by
  rintro ⟨options, schema, tree, hok, -⟩
  cases hparse.symm.trans hok

theorem not_rejects_of_prepare_error {failure : Failure} (hparse : parser arguments = .ok options)
    (hprepare : prepare surroundings options = .error failure) (defect : Defect) :
    ¬ Rejects surroundings parser arguments defect := by
  rintro ⟨options', schema, tree, hparse', hok, -⟩
  cases hparse.symm.trans hparse'
  cases hprepare.symm.trans hok

theorem not_rejects_of_validate (hparse : parser arguments = .ok options)
    (hprepare : prepare surroundings options = .ok (schema, tree))
    (hvalid : schema.validate (expectedKinds options.input) tree = .ok ()) (defect : Defect) :
    ¬ Rejects surroundings parser arguments defect := by
  rintro ⟨options', schema', tree', hparse', hok, hdefect⟩
  cases hparse.symm.trans hparse'
  cases hprepare.symm.trans hok
  cases hvalid.symm.trans hdefect

/-- Arguments that are accepted: nothing before the check depends on the flag. -/
theorem run_strict_of_ok (hparser : parser.TakesStrict) (h : "--strict" ∉ arguments)
    (hplain : parser arguments = .ok options) :
    (run surroundings parser ("--strict" :: arguments) = run surroundings parser arguments ∧
      ∀ defect, ¬ Rejects surroundings parser arguments defect) ∨
    ∃ defect, Rejects surroundings parser arguments defect ∧
      (run surroundings parser arguments).exitCode = 0 ∧
      run surroundings parser ("--strict" :: arguments) =
        ⟨1, "", ["cinder: " ++ defect.message]⟩ := by
  have hparse := hparser.on h hplain
  cases hprepare : prepare surroundings options with
  | error failure =>
    left
    refine ⟨?_, not_rejects_of_prepare_error hplain hprepare⟩
    rw [run_of_prepare_error hparse hprepare, run_of_prepare_error hplain hprepare]
  | ok prepared =>
    obtain ⟨schema, tree⟩ := prepared
    have hfree := run_of_check_ok hplain hprepare (check_of_not_strict (hparser.off h hplain))
    have hcheck : check (options.withStrict true) schema tree =
        (schema.validate (expectedKinds options.input) tree).mapError .misfit :=
      check_of_strict rfl
    cases hvalid : schema.validate (expectedKinds options.input) tree with
    | ok _ =>
      left
      rw [hvalid] at hcheck
      refine ⟨?_, not_rejects_of_validate hplain hprepare hvalid⟩
      rw [run_of_check_ok hparse hprepare hcheck, hfree]
      rfl
    | error defect =>
      right
      rw [hvalid] at hcheck
      refine ⟨defect, ⟨options, schema, tree, hplain, hprepare, hvalid⟩, ?_, ?_⟩
      · rw [hfree, exitCode_emit]
      · exact run_of_check_error hparse hprepare hcheck

/-- Arguments that are not refused. -/
theorem run_strict_eq_or_rejects (hparser : parser.TakesStrict) (h : "--strict" ∉ arguments)
    (hsense : ∀ text, parser arguments ≠ .error (.refusal text)) :
    (run surroundings parser ("--strict" :: arguments) = run surroundings parser arguments ∧
      ∀ defect, ¬ Rejects surroundings parser arguments defect) ∨
    ∃ defect, Rejects surroundings parser arguments defect ∧
      (run surroundings parser arguments).exitCode = 0 ∧
      run surroundings parser ("--strict" :: arguments) =
        ⟨1, "", ["cinder: " ++ defect.message]⟩ := by
  cases hplain : parser arguments with
  | ok options => exact run_strict_of_ok hparser h hplain
  | error ending =>
    cases ending with
    | help text =>
      left
      refine ⟨?_, not_rejects_of_parse_error hplain⟩
      rw [run, run, hparser.help h hplain, hplain]
    | refusal text => exact absurd hplain (hsense text)

theorem messages_of_strict (hparse : parser arguments = .ok options)
    (hstrict : options.strict = true) (hemission : options.emission = .line)
    (hsuccess : (run surroundings parser arguments).exitCode = 0) :
    (run surroundings parser arguments).messages = [] := by
  cases hprepare : prepare surroundings options with
  | error failure =>
    rw [run_of_prepare_error hparse hprepare] at hsuccess
    cases hsuccess
  | ok prepared =>
    obtain ⟨schema, tree⟩ := prepared
    have hcheck : check options schema tree =
        (schema.validate (expectedKinds options.input) tree).mapError .misfit :=
      check_of_strict hstrict
    cases hvalid : schema.validate (expectedKinds options.input) tree with
    | ok _ =>
      rw [hvalid] at hcheck
      rw [run_of_check_ok hparse hprepare hcheck, emit, hemission]
      exact warnings_of_validate hvalid
    | error defect =>
      rw [hvalid] at hcheck
      rw [run_of_check_error hparse hprepare hcheck] at hsuccess
      cases hsuccess

theorem textOf_toUTF8 (text : String) : textOf text.toUTF8 = .ok text := by
  have hutf8 : String.fromUTF8? text.toUTF8 = some text := by
    simp only [String.fromUTF8?, String.toUTF8_eq_toByteArray, text.isValidUTF8, dif_pos]
    rfl
  rw [textOf, hutf8]

/-- A text on the standard input is what a run gets that reads from there. -/
theorem readInput_standardInput (surroundings : Surroundings) (text : String) :
    readInput { surroundings with standardInput := text.toUTF8 } "-" = .ok text := by
  rw [readInput, if_pos rfl, textOf_toUTF8]
  rfl

/-- **The strict check is a filter.** Of arguments that do not ask for it, let `--strict` be put in
front. If they are not refused, then either the check rejects the tree, the run without it succeeds
and the run with it ends with the defect and nothing written; or both runs leave the same behind. If
they are refused, both runs end with exit code 2 and write nothing but what the parser says. And a
run that is checked, succeeds and writes the line of text has no warnings. -/
theorem run_strict (surroundings : Surroundings) {parser : ArgumentParser}
    (hparser : parser.TakesStrict) :
    (∀ arguments : List String, "--strict" ∉ arguments →
      ((∀ text, parser arguments ≠ .error (.refusal text)) →
        (run surroundings parser ("--strict" :: arguments) = run surroundings parser arguments ∧
          ∀ defect, ¬ Rejects surroundings parser arguments defect) ∨
        ∃ defect, Rejects surroundings parser arguments defect ∧
          (run surroundings parser arguments).exitCode = 0 ∧
          run surroundings parser ("--strict" :: arguments) =
            ⟨1, "", ["cinder: " ++ defect.message]⟩) ∧
      ∀ text, parser arguments = .error (.refusal text) →
        run surroundings parser arguments = ⟨2, "", [text]⟩ ∧
        (∃ text', run surroundings parser ("--strict" :: arguments) = ⟨2, "", [text']⟩) ∧
        ∀ defect, ¬ Rejects surroundings parser arguments defect) ∧
    ∀ (arguments : List String) (options : Options), parser arguments = .ok options →
      options.strict = true → options.emission = .line →
      (run surroundings parser arguments).exitCode = 0 →
      (run surroundings parser arguments).messages = [] := by
  refine ⟨fun arguments h => ⟨run_strict_eq_or_rejects hparser h, fun text hrefused => ?_⟩,
    fun _ _ => messages_of_strict⟩
  obtain ⟨text', hstrict⟩ := hparser.refusal h hrefused
  exact ⟨run_of_refusal hrefused, ⟨text', run_of_refusal hstrict⟩,
    not_rejects_of_parse_error hrefused⟩

/-- A run finds this on its standard input, and no files. -/
def onlyInput (text : String) : Surroundings :=
  ⟨fun _ => .error .notFound, text.toUTF8, fun _ => none, CharacterName.noNames⟩

theorem prepare_onlyInput {text : String} {tree : Tree} (h : Tree.read text = .ok tree)
    (strict : Bool) :
    prepare (onlyInput text) ⟨"-", .treeJson, .line, none, strict⟩ = .ok (.builtin, tree) :=
  prepare_eq_ok rfl (readInput_standardInput (onlyInput text) text) (readTree_treeJson rfl h)

/-- A tree of an unknown kind is rejected by the check, and an absence is accepted by it. Without a
file there is nothing to check. -/
theorem run_strict_of_unknownKind :
    (∃ defect,
      Rejects (onlyInput "\x7b\"kind\": \"X\"\x7d") Arguments.parse
        ["--input", "tree-json", "-"] defect ∧
      (run (onlyInput "\x7b\"kind\": \"X\"\x7d") Arguments.parse
        ["--input", "tree-json", "-"]).exitCode = 0 ∧
      run (onlyInput "\x7b\"kind\": \"X\"\x7d") Arguments.parse
        ["--strict", "--input", "tree-json", "-"] = ⟨1, "", ["cinder: " ++ defect.message]⟩) ∧
    (run (onlyInput "null") Arguments.parse
      ["--strict", "--input", "tree-json", "-"]).messages = [] ∧
    ∃ text, run (onlyInput "null") Arguments.parse ["--strict", "--input", "tree-json"] =
      ⟨2, "", [text]⟩ := by
  refine ⟨?_, ?_, ?_⟩
  · have hread : Tree.read "\x7b\"kind\": \"X\"\x7d" = .ok (.leaf "X") := by cbv
    have hparse : Arguments.parse ["--input", "tree-json", "-"] =
        .ok ⟨"-", .treeJson, .line, none, false⟩ := rfl
    have hrejects : Rejects (onlyInput "\x7b\"kind\": \"X\"\x7d") Arguments.parse
        ["--input", "tree-json", "-"] (.unknownKind "X" "X") :=
      ⟨_, .builtin, _, hparse, prepare_onlyInput hread false, rfl⟩
    have hfilter := ((run_strict (onlyInput "\x7b\"kind\": \"X\"\x7d")
      Arguments.parse_takesStrict).1 ["--input", "tree-json", "-"] (by decide)).1
      (fun text hrefused => by cases hparse.symm.trans hrefused)
    exact hfilter.resolve_left fun hsame => hsame.2 _ hrejects
  · have hparse : Arguments.parse ["--strict", "--input", "tree-json", "-"] =
        .ok ⟨"-", .treeJson, .line, none, true⟩ := rfl
    have hread : Tree.read "null" = .ok .absent := rfl
    have hsuccess : (run (onlyInput "null") Arguments.parse
        ["--strict", "--input", "tree-json", "-"]).exitCode = 0 := by
      rw [run_of_check_ok hparse (prepare_onlyInput hread true) rfl, exitCode_emit]
    exact (run_strict (onlyInput "null") Arguments.parse_takesStrict).2 _ _ hparse rfl rfl hsuccess
  · exact (((run_strict (onlyInput "null") Arguments.parse_takesStrict).1 ["--input", "tree-json"]
      (by decide)).2 _ rfl).2.1

/-- Of arguments that are refused the two runs do not leave the same behind: without a file, the
refusal shows the flag as one of the options that were used. -/
theorem not_forall_run_strict_eq :
    ¬ ∀ (surroundings : Surroundings) (arguments : List String), "--strict" ∉ arguments →
      (run surroundings Arguments.parse ("--strict" :: arguments) =
          run surroundings Arguments.parse arguments ∧
        ∀ defect, ¬ Rejects surroundings Arguments.parse arguments defect) ∨
      ∃ defect, Rejects surroundings Arguments.parse arguments defect ∧
        (run surroundings Arguments.parse arguments).exitCode = 0 ∧
        run surroundings Arguments.parse ("--strict" :: arguments) =
          ⟨1, "", ["cinder: " ++ defect.message]⟩ := by
  intro h
  obtain ⟨hsame, -⟩ | ⟨defect, -, hexit, -⟩ := h (onlyInput "") [] (by decide)
  · have hmessages := congrArg Outcome.messages hsame
    revert hmessages
    decide +kernel
  · cases hexit

end CommandLine

end TreeText
