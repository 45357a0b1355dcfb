import TreeText.Proofs.Text.Escape

/-!
# Texts are cut into segments

From left to right the text of a literal falls into segments: characters that stand for themselves,
and escapes, each as long as it can be. Where an escape ends is told by its form, that is by the
character behind the backslash (`Escape.Form`): after it, after a number of digits, after a name in
braces. `Escape.Cut` describes the segments of a text without the decoder. There is one way to cut a
text (`exists_cut`, `Cut.unique`), so it makes sense to ask for the first segment of a kind; a
backslash that belongs to an escape starts no other one.

Decoding goes segment by segment (`IsSegment.decode_append`), each of them being decoded as if it
stood alone. So a text is faulty just if one of its segments is, and the fault is that of the first
one. Only names can be faulty, and bytes have none (`decodeEscapesBy_eq_error_iff`).
-/

namespace TreeText

namespace Escape

/-! ## Forms of escapes -/

/-- What an escape consists of. -/
inductive Form where
  | lineFeed
  | carriageReturn
  | letter (plain : Char)
  | octal
  | hex (width : Nat)
  | name
  | other
deriving DecidableEq

/-- The form of an escape by the character behind the backslash. -/
def Form.ofChar (bytes : Bool) (c : Char) : Form :=
  if c = '\n' then .lineFeed
  else if c = '\r' then .carriageReturn
  else
    match letter? c with
    | some plain => .letter plain
    | none =>
      if isOctalDigit c then .octal
      else if c = 'x' then .hex 2
      else if c = 'u' ∧ bytes = false then .hex 4
      else if c = 'U' ∧ bytes = false then .hex 8
      else if c = 'N' ∧ bytes = false then .name
      else .other

/-- Reads what follows a backslash and a character that has this form. -/
def Form.read (names : CharacterName.Lookup) (c : Char) (text : List Char) : Form → Step
  | .lineFeed => .ok ([], text)
  | .carriageReturn => .ok ([], if text.head? = some '\n' then text.tail else text)
  | .letter plain => .ok ([plain], text)
  | .octal => .ok (octalUnit c text)
  | .hex width => .ok (hexUnit c width text)
  | .name => nameUnit names text
  | .other => .ok (['\\', c], text)

/-- The decoder goes by the form. -/
theorem unit_eq_read (names : CharacterName.Lookup) (bytes : Bool) (c : Char) (text : List Char) :
    unit names bytes c text = (Form.ofChar bytes c).read names c text := by
  unfold unit Form.ofChar
  by_cases hfeed : c = '\n'
  · rw [if_pos hfeed, if_pos hfeed]
    rfl
  by_cases hreturn : c = '\r'
  · rw [if_neg hfeed, if_neg hfeed, if_pos hreturn, if_pos hreturn]
    rfl
  rw [if_neg hfeed, if_neg hfeed, if_neg hreturn, if_neg hreturn]
  cases letter? c with
  | some plain => rfl
  | none =>
    dsimp only
    split_ifs with hoctal hx hu hU hname
    · rfl
    · rw [hx]
      rfl
    · rw [hu.1]
      rfl
    · rw [hU.1]
      rfl
    · rfl
    · rfl

/-- What the character behind the backslash is in an escape of this form. -/
def Form.Fits (bytes : Bool) (c : Char) : Form → Prop
  | .lineFeed => c = '\n'
  | .carriageReturn => c = '\r'
  | .letter plain => letter? c = some plain
  | .octal => isOctalDigit c = true
  | .hex width =>
    c = 'x' ∧ width = 2 ∨ bytes = false ∧ (c = 'u' ∧ width = 4 ∨ c = 'U' ∧ width = 8)
  | .name => c = 'N' ∧ bytes = false
  | .other => True

theorem Form.fits_ofChar (bytes : Bool) (c : Char) : (Form.ofChar bytes c).Fits bytes c := by
  unfold Form.ofChar
  split
  · assumption
  split
  · assumption
  split
  · assumption
  split_ifs with hoctal hx hu hU hname
  · exact hoctal
  · exact .inl ⟨hx, rfl⟩
  · exact .inr ⟨hu.2, .inl ⟨hu.1, rfl⟩⟩
  · exact .inr ⟨hU.2, .inr ⟨hU.1, rfl⟩⟩
  · exact hname
  · trivial

theorem Form.fits_of_ofChar {bytes : Bool} {c : Char} {form : Form}
    (h : Form.ofChar bytes c = form) : form.Fits bytes c :=
  h ▸ Form.fits_ofChar bytes c

/-! ## Runs of digits -/

/-- Digits before a rest, as many as asked for, or fewer if the rest goes on with something else. -/
structure IsRun (isDigit : Char → Bool) (width : Nat) (digits rest : List Char) : Prop where
  forall_isDigit : ∀ c ∈ digits, isDigit c = true
  length_le : digits.length ≤ width
  stops : digits.length < width → ∀ c ∈ rest.head?, isDigit c = false

theorem exists_isRun (isDigit : Char → Bool) (width : Nat) (text : List Char) :
    ∃ digits rest, text = digits ++ rest ∧ IsRun isDigit width digits rest := by
  induction width generalizing text with
  | zero => exact ⟨[], text, rfl, nofun, Nat.le_refl 0, fun h => absurd h (Nat.lt_irrefl 0)⟩
  | succ width ih =>
    cases text with
    | nil => exact ⟨[], [], rfl, nofun, Nat.zero_le _, fun _ => nofun⟩
    | cons c text =>
      cases hc : isDigit c with
      | false =>
        refine ⟨[], c :: text, rfl, nofun, Nat.zero_le _, fun _ d hd => ?_⟩
        cases hd
        exact hc
      | true =>
        obtain ⟨digits, rest, rfl, hrun⟩ := ih text
        refine ⟨c :: digits, rest, rfl, ?_, Nat.succ_le_succ hrun.length_le,
          fun h => hrun.stops (Nat.lt_of_succ_lt_succ h)⟩
        rw [List.forall_mem_cons]
        exact ⟨hc, hrun.forall_isDigit⟩

namespace IsRun

variable {isDigit : Char → Bool} {width : Nat} {digits rest : List Char}

theorem takeWhile_take (h : IsRun isDigit width digits rest) :
    ((digits ++ rest).take width).takeWhile isDigit = digits := by
  rw [List.take_append, List.take_of_length_le h.length_le,
    List.takeWhile_append_of_pos h.forall_isDigit]
  have hnone : (rest.take (width - digits.length)).takeWhile isDigit = [] := by
    cases hmore : width - digits.length with
    | zero => rfl
    | succ more =>
      cases rest with
      | nil => rfl
      | cons c rest =>
        have hstop : isDigit c = false := h.stops (by omega) c rfl
        rw [List.take_succ_cons, List.takeWhile_cons_of_neg (by simp [hstop])]
  rw [hnone, List.append_nil]

/-- A run may as well end where the text ends. -/
theorem atEnd (h : IsRun isDigit width digits rest) : IsRun isDigit width digits [] :=
  ⟨h.forall_isDigit, h.length_le, fun _ => nofun⟩

theorem takeWhile_take_self (h : IsRun isDigit width digits rest) :
    (digits.take width).takeWhile isDigit = digits := by
  have hrun := h.atEnd.takeWhile_take
  rwa [List.append_nil] at hrun

end IsRun

/-! ## Segments -/

/-- What an escape of some form takes after its first character, before the rest of the text. -/
inductive Form.Takes : Form → (body rest : List Char) → Prop
  | lineFeed {rest : List Char} : Takes .lineFeed [] rest
  | lineBreak {rest : List Char} : Takes .carriageReturn ['\n'] rest
  | carriageReturn {rest : List Char} (h : rest.head? ≠ some '\n') : Takes .carriageReturn [] rest
  | letter {plain : Char} {rest : List Char} : Takes (.letter plain) [] rest
  | octal {digits rest : List Char} (h : IsRun isOctalDigit 2 digits rest) :
    Takes .octal digits rest
  | hex {width : Nat} {digits rest : List Char} (h : IsRun isHexDigit width digits rest) :
    Takes (.hex width) digits rest
  | name {name rest : List Char} (hne : name ≠ []) (hbrace : '}' ∉ name) :
    Takes .name ('{' :: (name ++ ['}'])) rest
  | noName {rest : List Char}
    (h : ∀ name after, name ≠ [] → '}' ∉ name → rest ≠ '{' :: (name ++ '}' :: after)) :
    Takes .name [] rest
  | other {rest : List Char} : Takes .other [] rest

/-- The first segment of a text, and the rest of it: a character that stands for itself, a backslash
at the very end, or an escape. -/
inductive IsSegment (bytes : Bool) : (segment rest : List Char) → Prop
  | plain {c : Char} {rest : List Char} (hplain : c ≠ '\\') : IsSegment bytes [c] rest
  | backslash : IsSegment bytes ['\\'] []
  | escape {c : Char} {body rest : List Char} (h : (Form.ofChar bytes c).Takes body rest) :
    IsSegment bytes ('\\' :: c :: body) rest

/-- A text is cut into these segments, from left to right. -/
inductive Cut (bytes : Bool) : List Char → List (List Char) → Prop
  | nil : Cut bytes [] []
  | cons {segment rest : List Char} {segments : List (List Char)}
    (hsegment : IsSegment bytes segment rest) (hrest : Cut bytes rest segments) :
    Cut bytes (segment ++ rest) (segment :: segments)

/-! ## There is one way to cut a text -/

variable {bytes : Bool} {form : Form} {text body rest segment : List Char}
  {segments : List (List Char)}

theorem Form.exists_takes (form : Form) (text : List Char) :
    ∃ body rest, text = body ++ rest ∧ form.Takes body rest := by
  cases form with
  | lineFeed => exact ⟨[], text, rfl, .lineFeed⟩
  | carriageReturn =>
    by_cases hhead : text.head? = some '\n'
    · obtain ⟨rest, rfl⟩ := List.head?_eq_some_iff.mp hhead
      exact ⟨['\n'], rest, rfl, .lineBreak⟩
    · exact ⟨[], text, rfl, .carriageReturn hhead⟩
  | letter plain => exact ⟨[], text, rfl, .letter⟩
  | octal =>
    obtain ⟨digits, rest, htext, hrun⟩ := exists_isRun isOctalDigit 2 text
    exact ⟨digits, rest, htext, .octal hrun⟩
  | hex width =>
    obtain ⟨digits, rest, htext, hrun⟩ := exists_isRun isHexDigit width text
    exact ⟨digits, rest, htext, .hex hrun⟩
  | name =>
    by_cases hname : ∃ name after, name ≠ [] ∧ '}' ∉ name ∧ text = '{' :: (name ++ '}' :: after)
    · obtain ⟨name, after, hne, hbrace, rfl⟩ := hname
      exact ⟨'{' :: (name ++ ['}']), after, by simp, .name hne hbrace⟩
    · exact ⟨[], text, rfl, .noName fun name after hne hbrace htext =>
        hname ⟨name, after, hne, hbrace, htext⟩⟩
  | other => exact ⟨[], text, rfl, .other⟩

theorem exists_isSegment (bytes : Bool) (c : Char) (text : List Char) :
    ∃ segment rest, c :: text = segment ++ rest ∧ segment ≠ [] ∧ IsSegment bytes segment rest := by
  by_cases hc : c = '\\'
  · subst hc
    cases text with
    | nil => exact ⟨['\\'], [], rfl, List.cons_ne_nil _ _, .backslash⟩
    | cons d text =>
      obtain ⟨body, rest, rfl, htakes⟩ := (Form.ofChar bytes d).exists_takes text
      exact ⟨'\\' :: d :: body, rest, rfl, List.cons_ne_nil _ _, .escape htakes⟩
  · exact ⟨[c], text, rfl, List.cons_ne_nil _ _, .plain hc⟩

theorem exists_cut (bytes : Bool) (text : List Char) : ∃ segments, Cut bytes text segments := by
  match text with
  | [] => exact ⟨[], .nil⟩
  | c :: text =>
    obtain ⟨segment, rest, htext, hne, hsegment⟩ := exists_isSegment bytes c text
    have hlength : rest.length < (c :: text).length := by
      rw [htext, List.length_append]
      exact Nat.lt_add_of_pos_left (List.length_pos_of_ne_nil hne)
    obtain ⟨segments, hcut⟩ := exists_cut bytes rest
    rw [htext]
    exact ⟨segment :: segments, .cons hsegment hcut⟩
termination_by text.length
decreasing_by exact hlength

/-- The form alone tells where an escape ends. -/
theorem Form.Takes.unique {body' rest' : List Char} (h : form.Takes body rest)
    (h' : form.Takes body' rest') (htext : body ++ rest = body' ++ rest') : body = body' := by
  cases h with
  | lineFeed | letter | other =>
    cases h'
    rfl
  | lineBreak =>
    cases h' with
    | lineBreak => rfl
    | carriageReturn h =>
      rw [List.nil_append] at htext
      exact absurd rfl (htext ▸ h)
  | carriageReturn h =>
    cases h' with
    | lineBreak =>
      rw [List.nil_append] at htext
      exact absurd rfl (htext ▸ h)
    | carriageReturn => rfl
  | octal hrun =>
    cases h' with
    | octal hrun' => rw [← hrun.takeWhile_take, htext, hrun'.takeWhile_take]
  | hex hrun =>
    cases h' with
    | hex hrun' => rw [← hrun.takeWhile_take, htext, hrun'.takeWhile_take]
  | name hne hbrace =>
    cases h' with
    | name hne' hbrace' =>
      simp only [List.cons_append, List.append_assoc, List.cons.injEq, true_and] at htext
      rw [← takeWhile_name hbrace, htext, takeWhile_name hbrace']
    | noName h =>
      refine absurd ?_ (h _ rest hne hbrace)
      simpa using htext.symm
  | noName h =>
    cases h' with
    | name hne' hbrace' =>
      refine absurd ?_ (h _ rest' hne' hbrace')
      simpa using htext
    | noName => rfl

theorem IsSegment.unique {segment' rest' : List Char} (h : IsSegment bytes segment rest)
    (h' : IsSegment bytes segment' rest') (htext : segment ++ rest = segment' ++ rest') :
    segment = segment' := by
  cases h with
  | plain hplain =>
    cases h' with
    | plain => exact congrArg (fun c => [c]) (List.cons.inj htext).1
    | backslash => exact absurd (List.cons.inj htext).1 hplain
    | escape => exact absurd (List.cons.inj htext).1 hplain
  | backslash =>
    cases h' with
    | plain hplain => exact absurd (List.cons.inj htext).1.symm hplain
    | backslash => rfl
    | escape => cases (List.cons.inj htext).2
  | escape htakes =>
    cases h' with
    | plain hplain => exact absurd (List.cons.inj htext).1.symm hplain
    | backslash => cases (List.cons.inj htext).2
    | escape htakes' =>
      obtain ⟨hc, hbody⟩ := List.cons.inj (List.cons.inj htext).2
      subst hc
      rw [htakes.unique htakes' hbody]

theorem IsSegment.ne_nil (h : IsSegment bytes segment rest) : segment ≠ [] := by
  cases h with
  | _ => exact List.cons_ne_nil _ _

theorem Cut.unique {segments' : List (List Char)} (h : Cut bytes text segments)
    (h' : Cut bytes text segments') : segments = segments' := by
  induction h generalizing segments' with
  | nil =>
    generalize htext : ([] : List Char) = text at h'
    cases h' with
    | nil => rfl
    | cons hsegment => exact absurd (List.append_eq_nil_iff.mp htext.symm).1 hsegment.ne_nil
  | @cons segment rest segments hsegment hrest ih =>
    generalize htext : segment ++ rest = text at h'
    cases h' with
    | nil => exact absurd (List.append_eq_nil_iff.mp htext).1 hsegment.ne_nil
    | cons hsegment' hrest' =>
      obtain rfl := hsegment.unique hsegment' htext
      obtain rfl := List.append_cancel_left htext
      rw [ih hrest']

/-! ## Decoding goes segment by segment -/

section Decoding

variable {names : CharacterName.Lookup} {c : Char}

/-- Without a name in braces there is none to look up. -/
theorem nameUnit_eq_malformed
    (h : ∀ name after, name ≠ [] → '}' ∉ name → rest ≠ '{' :: (name ++ '}' :: after)) :
    nameUnit names rest = .error .malformedName := by
  unfold nameUnit
  split
  · next text =>
    dsimp only
    split
    · rfl
    · next hends =>
      obtain ⟨hne, hlength⟩ : text.takeWhile (· != '}') ≠ [] ∧
          (text.takeWhile (· != '}')).length ≠ text.length := by
        simpa using hends
      have htext := List.takeWhile_append_dropWhile (p := (· != '}')) (l := text)
      cases hafter : text.dropWhile (· != '}') with
      | nil =>
        rw [hafter, List.append_nil] at htext
        exact absurd (congrArg List.length htext) hlength
      | cons d after =>
        have hclosing : d = '}' := by
          have hhead := List.head?_dropWhile_not (· != '}') text
          rw [hafter] at hhead
          simpa using hhead
        rw [hafter, hclosing] at htext
        refine absurd (congrArg ('{' :: ·) htext.symm) (h _ after hne fun hbrace => ?_)
        simpa using List.mem_takeWhile_imp hbrace
  · rfl

/-- What an escape takes is read in front of any rest as it is read alone. -/
theorem Form.Takes.read_append (h : form.Takes body rest) (names : CharacterName.Lookup)
    (c : Char) :
    form.read names c (body ++ rest) = (form.read names c body).map fun read => (read.1, rest) := by
  cases h with
  | lineFeed | letter | other | lineBreak => rfl
  | carriageReturn h =>
    show Except.ok ([], if rest.head? = some '\n' then rest.tail else rest) = _
    rw [if_neg h]
    rfl
  | octal hrun =>
    rw [read, read, octalUnit, octalUnit, hrun.takeWhile_take, hrun.takeWhile_take_self,
      List.drop_left]
    rfl
  | hex hrun =>
    rw [read, read, hexUnit, hexUnit, hrun.takeWhile_take, hrun.takeWhile_take_self,
      List.drop_left]
    rfl
  | @name name _ hne hbrace =>
    have hread (after : List Char) :
        Form.name.read names c ('{' :: (name ++ ['}']) ++ after) =
          match names name with
          | some c => .ok ([c], after)
          | none => .error (.unknownName (String.ofList name)) := by
      rw [List.cons_append, List.append_assoc]
      exact nameUnit_braces hne hbrace
    have halone := hread []
    rw [List.append_nil] at halone
    rw [hread, halone]
    cases names name with
    | _ => rfl
  | noName h =>
    show nameUnit names rest = _
    rw [nameUnit_eq_malformed h]
    rfl

theorem Form.Takes.atEnd (h : form.Takes body rest) : form.Takes body [] := by
  cases h with
  | lineFeed => exact .lineFeed
  | lineBreak => exact .lineBreak
  | carriageReturn => exact .carriageReturn nofun
  | letter => exact .letter
  | octal hrun => exact .octal hrun.atEnd
  | hex hrun => exact .hex hrun.atEnd
  | name hne hbrace => exact .name hne hbrace
  | noName => exact .noName fun _ _ _ _ => nofun
  | other => exact .other

/-- An escape alone is decoded as its form says, and nothing is left behind it. -/
theorem decode_escape (h : (Form.ofChar bytes c).Takes body rest) :
    decodeEscapesBy names bytes ('\\' :: c :: body) =
      ((Form.ofChar bytes c).read names c body).map Prod.fst := by
  have hread := h.atEnd.read_append names c
  rw [List.append_nil] at hread
  cases hresult : (Form.ofChar bytes c).read names c body with
  | error fault => exact decodeEscapesBy_of_unit_error ((unit_eq_read ..).trans hresult)
  | ok read =>
    rw [hresult] at hread
    have hunit : unit names bytes c body = .ok (read.1, []) := by
      rw [unit_eq_read, hresult, hread]
      rfl
    rw [decodeEscapesBy_of_unit hunit, decodeEscapesBy]
    exact congrArg Except.ok (List.append_nil read.1)

/-- The first segment of a text is decoded by itself, and then the rest. -/
theorem IsSegment.decode_append (h : IsSegment bytes segment rest) :
    decodeEscapesBy names bytes (segment ++ rest) = (do
      let first ← decodeEscapesBy names bytes segment
      (decodeEscapesBy names bytes rest).map (first ++ ·)) := by
  cases h with
  | plain hplain =>
    rw [List.singleton_append, decodeEscapesBy_cons hplain, decodeEscapesBy_cons hplain,
      decodeEscapesBy]
    rfl
  | backslash =>
    rw [List.append_nil, decodeEscapesBy, decodeEscapesBy]
    rfl
  | @escape c body rest htakes =>
    rw [decode_escape htakes, List.cons_append, List.cons_append]
    have hread := htakes.read_append names c
    cases hresult : (Form.ofChar bytes c).read names c body with
    | error fault =>
      rw [hresult] at hread
      exact decodeEscapesBy_of_unit_error ((unit_eq_read ..).trans hread)
    | ok read =>
      rw [hresult] at hread
      exact decodeEscapesBy_of_unit ((unit_eq_read ..).trans hread)

end Decoding

/-! ## The first fault -/

/-- A segment is an escape by name that stands for nothing: it has no name in braces, or one that
nothing is called by. -/
inductive Faulty (names : CharacterName.Lookup) : (segment : List Char) → EscapeFault → Prop
  | malformed : Faulty names ['\\', 'N'] .malformedName
  | unknown {name : List Char} (hname : names name = none) :
    Faulty names ('\\' :: 'N' :: '{' :: (name ++ ['}'])) (.unknownName (String.ofList name))

/-- The first faulty segment has this fault. -/
inductive FirstFault (names : CharacterName.Lookup) : List (List Char) → EscapeFault → Prop
  | here {segment : List Char} {segments : List (List Char)} {fault : EscapeFault}
    (hfaulty : Faulty names segment fault) : FirstFault names (segment :: segments) fault
  | later {segment : List Char} {segments : List (List Char)} {fault : EscapeFault}
    (hsound : ∀ fault, ¬ Faulty names segment fault) (hlater : FirstFault names segments fault) :
    FirstFault names (segment :: segments) fault

section Faults

variable {names : CharacterName.Lookup} {c : Char} {fault : EscapeFault}

/-- Only names fail. -/
theorem Form.exists_read_eq_ok (names : CharacterName.Lookup) (c : Char) (text : List Char)
    (hform : form ≠ .name) :
    ∃ read, form.read names c text = .ok read := by
  cases form with
  | name => exact absurd rfl hform
  | _ => exact ⟨_, rfl⟩

theorem faulty_name_iff {name : List Char} :
    Faulty names ('\\' :: 'N' :: '{' :: (name ++ ['}'])) fault ↔
      names name = none ∧ fault = .unknownName (String.ofList name) := by
  constructor
  · intro h
    generalize hsegment : '\\' :: 'N' :: '{' :: (name ++ ['}']) = segment at h
    cases h with
    | malformed => cases hsegment
    | unknown hname =>
      obtain rfl : name = _ := by simpa using hsegment
      exact ⟨hname, rfl⟩
  · rintro ⟨hname, rfl⟩
    exact .unknown hname

theorem Form.Takes.read_name_eq_error_iff (h : Form.name.Takes body rest) :
    (Form.name.read names c body).map Prod.fst = .error fault ↔
      Faulty names ('\\' :: 'N' :: body) fault := by
  cases h with
  | @name name _ hne hbrace =>
    rw [Form.read, nameUnit_braces hne hbrace, faulty_name_iff]
    cases names name with
    | some c => exact ⟨nofun, nofun⟩
    | none => exact ⟨fun h => ⟨rfl, (Except.error.inj h).symm⟩, fun h => congrArg _ h.2.symm⟩
  | noName =>
    constructor
    · intro h
      cases h
      exact .malformed
    · intro h
      cases h
      rfl

theorem IsSegment.decode_eq_error_iff (h : IsSegment false segment rest) :
    decodeEscapesBy names false segment = .error fault ↔ Faulty names segment fault := by
  cases h with
  | plain hplain =>
    rw [decodeEscapesBy_cons hplain, decodeEscapesBy]
    refine iff_of_false (fun herror => ?_) fun hfaulty => ?_
    · cases herror
    · cases hfaulty
  | backslash =>
    rw [decodeEscapesBy]
    refine iff_of_false (fun herror => ?_) fun hfaulty => ?_
    · cases herror
    · cases hfaulty
  | @escape c body rest htakes =>
    rw [decode_escape htakes]
    by_cases hform : Form.ofChar false c = .name
    · obtain ⟨rfl, -⟩ := Form.fits_of_ofChar hform
      rw [hform] at htakes ⊢
      exact htakes.read_name_eq_error_iff
    · obtain ⟨read, hread⟩ := Form.exists_read_eq_ok names c body hform
      rw [hread]
      refine iff_of_false (fun herror => ?_) fun hfaulty => ?_
      · cases herror
      · cases hfaulty with
        | _ => exact hform rfl

theorem IsSegment.exists_decode_eq_ok (h : IsSegment true segment rest)
    (names : CharacterName.Lookup) :
    ∃ decoded, decodeEscapesBy names true segment = .ok decoded := by
  cases h with
  | @plain c _ hplain =>
    refine ⟨[c], ?_⟩
    rw [decodeEscapesBy_cons hplain, decodeEscapesBy]
    rfl
  | backslash =>
    refine ⟨['\\'], ?_⟩
    rw [decodeEscapesBy]
  | @escape c body _ htakes =>
    have hform : Form.ofChar true c ≠ .name := fun hname =>
      Bool.noConfusion (Form.fits_of_ofChar hname).2
    obtain ⟨read, hread⟩ := Form.exists_read_eq_ok names c body hform
    refine ⟨read.1, ?_⟩
    rw [decode_escape htakes, hread]
    rfl

theorem Cut.decode_eq_error_iff (h : Cut false text segments) :
    decodeEscapesBy names false text = .error fault ↔ FirstFault names segments fault := by
  induction h with
  | nil =>
    rw [decodeEscapesBy]
    refine iff_of_false (fun herror => ?_) fun hfault => ?_
    · cases herror
    · cases hfault
  | @cons segment rest segments hsegment _ ih =>
    have hfirst (fault : EscapeFault) :
        decodeEscapesBy names false segment = .error fault ↔ Faulty names segment fault :=
      hsegment.decode_eq_error_iff
    rw [hsegment.decode_append]
    cases hdecode : decodeEscapesBy names false segment with
    | error fault' =>
      rw [hdecode] at hfirst
      constructor
      · intro herror
        cases herror
        exact .here ((hfirst _).mp rfl)
      · intro hfault
        cases hfault with
        | here hfaulty => exact (hfirst _).mpr hfaulty
        | later hsound => exact absurd ((hfirst _).mp rfl) (hsound _)
    | ok first =>
      rw [hdecode] at hfirst
      have hsound (fault : EscapeFault) : ¬ Faulty names segment fault := fun hfaulty => by
        cases (hfirst _).mpr hfaulty
      have hrest : (decodeEscapesBy names false rest).map (first ++ ·) = .error fault ↔
          decodeEscapesBy names false rest = .error fault := by
        cases decodeEscapesBy names false rest <;> simp [Except.map]
      refine (hrest.trans ih).trans ⟨.later hsound, fun hfault => ?_⟩
      cases hfault with
      | here hfaulty => exact absurd hfaulty (hsound _)
      | later _ hlater => exact hlater

theorem Cut.exists_decode_eq_ok (h : Cut true text segments) :
    ∃ decoded, decodeEscapesBy names true text = .ok decoded := by
  induction h with
  | nil => exact ⟨[], by rw [decodeEscapesBy]⟩
  | cons hsegment _ ih =>
    obtain ⟨first, hfirst⟩ := hsegment.exists_decode_eq_ok names
    obtain ⟨others, hothers⟩ := ih
    refine ⟨first ++ others, ?_⟩
    rw [hsegment.decode_append, hfirst, hothers]
    rfl

end Faults

end Escape

/-- **Decoding fails only at a bad name.** Bytes are always decoded. A text has just one cut into
segments, and it is not decoded just if one of these is an escape by name without a name in braces
or by a name of nothing; the fault is that of the first such segment. -/
theorem decodeEscapesBy_eq_error_iff (names : CharacterName.Lookup) (text : List Char) :
    (∃ decoded, decodeEscapesBy names true text = .ok decoded) ∧
    ∃ segments, (∀ cut, Escape.Cut false text cut ↔ cut = segments) ∧ ∀ fault,
      decodeEscapesBy names false text = .error fault ↔ Escape.FirstFault names segments fault := by
  obtain ⟨segments, hcut⟩ := Escape.exists_cut false text
  obtain ⟨segments', hcut'⟩ := Escape.exists_cut true text
  refine ⟨hcut'.exists_decode_eq_ok, segments, fun cut => ⟨fun h => h.unique hcut, ?_⟩, fun fault =>
    hcut.decode_eq_error_iff⟩
  rintro rfl
  exact hcut

end TreeText
