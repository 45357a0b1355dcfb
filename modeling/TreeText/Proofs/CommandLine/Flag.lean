import TreeText.CommandLine.Arguments

/-!
# A flag in front of other arguments

What a run needs to know of the parser of its arguments, where it is about the flag `--strict`: a
flag is off unless it is given, and in front of other arguments it turns itself on and changes
nothing else (`ArgumentParser.TakesStrict`). What it may change is the text of a refusal, which may
show the arguments that were used. `Arguments.parse` is such a parser (`parse_takesStrict`): as it
takes its arguments one after the other, the flag is passed on and never looked at.
-/

namespace TreeText

/-- The same, with or without the check. -/
def Options.withStrict (options : Options) (strict : Bool) : Options :=
  { options with strict := strict }

/-- The parser takes `--strict` as a flag. -/
structure ArgumentParser.TakesStrict (parser : ArgumentParser) : Prop where
  /-- A flag that is not given is off. -/
  off : ∀ {arguments : List String} {options : Options}, "--strict" ∉ arguments →
    parser arguments = .ok options → options.strict = false
  /-- A flag may stand in front, and turns itself on. -/
  on : ∀ {arguments : List String} {options : Options}, "--strict" ∉ arguments →
    parser arguments = .ok options →
    parser ("--strict" :: arguments) = .ok (options.withStrict true)
  /-- Help is about all arguments that there are, not about those that are given. -/
  help : ∀ {arguments : List String} {text : String}, "--strict" ∉ arguments →
    parser arguments = .error (.help text) →
    parser ("--strict" :: arguments) = .error (.help text)
  /-- What makes no sense makes none behind a flag, but may be told in other words. -/
  refusal : ∀ {arguments : List String} {text : String}, "--strict" ∉ arguments →
    parser arguments = .error (.refusal text) →
    ∃ text', parser ("--strict" :: arguments) = .error (.refusal text')

namespace Arguments

/-- The same, with or without the check, and with options that were given before. -/
def Given.withStrict (given : Given) (strict : Bool) (before : List String) : Given :=
  { given with strict := strict, used := before ++ given.used }

namespace Given

variable (given : Given) (strict : Bool) (before : List String)

theorem addFile_withStrict (file : String) :
    (given.withStrict strict before).addFile file =
      (given.addFile file).map (·.withStrict strict before) := by
  rw [addFile, addFile, withStrict]
  split <;> rfl

theorem addValue_withStrict (option value : String) :
    (given.withStrict strict before).addValue option value =
      (given.addValue option value).map (·.withStrict strict before) := by
  obtain ⟨file, input, emission, schemaPath, asked, used⟩ := given
  have happend (name : String) : before ++ used ++ [name] = before ++ (used ++ [name]) :=
    List.append_assoc ..
  simp only [addValue, withStrict, happend]
  split
  · -- The format of the input.
    cases input with
    | none => cases InputFormat.ofName? value <;> rfl
    | some _ => rfl
  · -- What is to be written.
    cases emission with
    | none => cases Emission.ofName? value <;> rfl
    | some _ => rfl
  · cases schemaPath <;> rfl
  · rfl

theorem foldlM_addFile_withStrict (files : List String) :
    files.foldlM addFile (given.withStrict strict before) =
      (files.foldlM addFile given).map (·.withStrict strict before) := by
  induction files generalizing given with
  | nil => rfl
  | cons file files ih =>
    rw [List.foldlM_cons, List.foldlM_cons, addFile_withStrict]
    cases given.addFile file with
    | error ending => rfl
    | ok next => exact ih next

/-- If there is a file, the flag shows in the options. If there is none, it shows in the usage at
most. -/
theorem options_withStrict :
    (∃ options, given.options = .ok options ∧
      (given.withStrict strict before).options = .ok (options.withStrict strict)) ∨
    ∃ text text', given.options = .error (.refusal text) ∧
      (given.withStrict strict before).options = .error (.refusal text') := by
  cases hfile : given.file with
  | some file =>
    left
    rw [options, options, withStrict, hfile]
    exact ⟨_, rfl, rfl⟩
  | none =>
    right
    rw [options, options, withStrict, hfile]
    exact ⟨_, _, rfl, rfl⟩

theorem strict_of_options {options : Options} (h : given.options = .ok options) :
    options.strict = given.strict := by
  rw [Given.options] at h
  split at h
  · cases h
    rfl
  · cases h

end Given

theorem bind_collect_withStrict {strict : Bool} {before rest : List String}
    (h : ∀ given : Given, collect (given.withStrict strict before) rest =
      (collect given rest).map (·.withStrict strict before)) (found : Except Ending Given) :
    (found.map (·.withStrict strict before) >>= fun given => collect given rest) =
      (found >>= fun given => collect given rest).map (·.withStrict strict before) := by
  cases found with
  | error ending => rfl
  | ok given => exact h given

/-- Arguments that do not ask for the check take no notice of whether it has been asked for. -/
theorem collect_withStrict {arguments : List String} (h : "--strict" ∉ arguments) (given : Given)
    (strict : Bool) (before : List String) :
    collect (given.withStrict strict before) arguments =
      (collect given arguments).map (·.withStrict strict before) := by
  fun_induction collect given arguments with
  | case1 given => rfl
  | case2 given files =>
    -- After `--` all arguments are files.
    rw [collect.eq_def]
    simp only [if_true, Given.foldlM_addFile_withStrict]
  | case3 given argument rest hdashes hoption ih =>
    rw [collect.eq_def]
    simp only [if_neg hdashes, if_pos hoption, Given.addFile_withStrict]
    exact bind_collect_withStrict (fun next => ih next (List.not_mem_of_not_mem_cons h)) _
  | case4 given argument rest hdashes hoption hhelp =>
    rw [collect.eq_def]
    simp only [if_neg hdashes, if_neg hoption, if_pos hhelp]
    rfl
  | case5 given rest => exact absurd List.mem_cons_self h
  | case6 given argument hdashes hoption hhelp hstrict hvalue =>
    rw [collect, if_neg hdashes, if_neg hoption, if_neg hhelp, if_neg hstrict, if_pos hvalue]
    rfl
  | case7 given argument hdashes hoption hhelp hstrict hvalue value rest hlooks =>
    rw [collect, if_neg hdashes, if_neg hoption, if_neg hhelp, if_neg hstrict, if_pos hvalue]
    simp only [if_pos hlooks]
    rfl
  | case8 given argument hdashes hoption hhelp hstrict hvalue value rest hlooks ih =>
    have hrest := List.not_mem_of_not_mem_cons (List.not_mem_of_not_mem_cons h)
    rw [collect, if_neg hdashes, if_neg hoption, if_neg hhelp, if_neg hstrict, if_pos hvalue]
    simp only [if_neg hlooks]
    rw [Given.addValue_withStrict]
    exact bind_collect_withStrict (fun next => ih next hrest) _
  | case9 given argument rest hdashes hoption hhelp hstrict hvalue option value hsplit ih =>
    rw [collect.eq_def]
    simp only [if_neg hdashes, if_neg hoption, if_neg hhelp, if_neg hstrict, if_neg hvalue, hsplit,
      Given.addValue_withStrict]
    exact bind_collect_withStrict (fun next => ih next (List.not_mem_of_not_mem_cons h)) _
  | case10 given argument rest hdashes hoption hhelp hstrict hvalue hsplit =>
    rw [collect.eq_def]
    simp only [if_neg hdashes, if_neg hoption, if_neg hhelp, if_neg hstrict, if_neg hvalue, hsplit]
    rfl

/-- `--strict` in front is taken, and the other arguments are taken as without it. -/
theorem collect_strict {arguments : List String} (h : "--strict" ∉ arguments) :
    collect .nothing ("--strict" :: arguments) =
      (collect .nothing arguments).map (·.withStrict true ["--strict"]) := by
  rw [← collect_withStrict h, collect.eq_def]
  rfl

theorem strict_of_collect {arguments : List String} (h : "--strict" ∉ arguments) {given : Given}
    (hcollect : collect .nothing arguments = .ok given) : given.strict = false := by
  have hsame := collect_withStrict h .nothing false []
  rw [show Given.nothing.withStrict false [] = .nothing from rfl, hcollect] at hsame
  exact congrArg Given.strict (Except.ok.inj hsame)

/-- With `--strict` in front, either taking the arguments ends as without it, or both times it gives
the same options but for the flag, or both times there is no file. -/
theorem parse_strict_cases {arguments : List String} (h : "--strict" ∉ arguments) :
    (∃ ending, parse arguments = .error ending ∧
      parse ("--strict" :: arguments) = .error ending) ∨
    (∃ options, options.strict = false ∧ parse arguments = .ok options ∧
      parse ("--strict" :: arguments) = .ok (options.withStrict true)) ∨
    ∃ text text', parse arguments = .error (.refusal text) ∧
      parse ("--strict" :: arguments) = .error (.refusal text') := by
  unfold parse
  rw [collect_strict h]
  cases hcollect : collect .nothing arguments with
  | error ending => exact .inl ⟨ending, rfl, rfl⟩
  | ok given =>
    right
    obtain ⟨options, hoptions, hstrict⟩ | hrefused := given.options_withStrict true ["--strict"]
    · have hoff := (given.strict_of_options hoptions).trans (strict_of_collect h hcollect)
      exact .inl ⟨options, hoff, hoptions, hstrict⟩
    · exact .inr hrefused

theorem parse_takesStrict : ArgumentParser.TakesStrict parse where
  off := by
    intro arguments options h hparse
    obtain ⟨_, hother, -⟩ | ⟨_, hoff, hother, -⟩ | ⟨_, _, hother, -⟩ := parse_strict_cases h
    all_goals cases hparse.symm.trans hother
    exact hoff
  on := by
    intro arguments options h hparse
    obtain ⟨_, hother, -⟩ | ⟨_, -, hother, hstrict⟩ | ⟨_, _, hother, -⟩ := parse_strict_cases h
    all_goals cases hparse.symm.trans hother
    exact hstrict
  help := by
    intro arguments text h hparse
    obtain ⟨_, hother, hstrict⟩ | ⟨_, -, hother, -⟩ | ⟨_, _, hother, -⟩ := parse_strict_cases h
    all_goals cases hparse.symm.trans hother
    exact hstrict
  refusal := by
    intro arguments text h hparse
    obtain ⟨_, hother, hstrict⟩ | ⟨_, -, hother, -⟩ | ⟨_, text', hother, hstrict⟩ :=
      parse_strict_cases h
    all_goals cases hparse.symm.trans hother
    · exact ⟨text, hstrict⟩
    · exact ⟨text', hstrict⟩

end Arguments

end TreeText
