import TreeText.Proofs.Json.Printer

/-!
# Reading JSON texts back

A printed value is read back, whatever blanks the layout puts in, if it nests no deeper than the
reader goes; if it nests deeper, the reader refuses it as malformed. The reader of the items is a
parameter of the rules for arrays and objects, so `ReadsBack` says of it what is to be shown of the
whole reader one level further up, and `readsBack_value` goes up from there by induction on the
value. The numbers are left out: a number keeps its spelling, which need not be one.

The second half is the converse for the nesting: whatever is read, from any text, nests no deeper
than the reader goes (`depth_le_of_value`).
-/

namespace TreeText

theorem hexDigit?_hexChar {digit : Nat} (h : digit < 16) :
    hexDigit? (hexChar digit) = some digit := by
  decide +revert

namespace Json

/-! ## Strings -/

theorem hexNumber?_control {code : Nat} (h : code < 0x20) :
    hexNumber? ['0', '0', hexChar (code / 16), hexChar (code % 16)] = some code := by
  have hzero : hexDigit? '0' = some 0 := by decide
  have hhigh := hexDigit?_hexChar (show code / 16 < 16 by omega)
  have hlow := hexDigit?_hexChar (show code % 16 < 16 by omega)
  simp only [hexNumber?, hexNumber?.go, hzero, hhigh, hlow]
  congr 1
  omega

theorem stringBody_quote (done rest : List Char) :
    stringBody done ('"' :: rest) = .ok (String.ofList done.reverse, rest) := by
  rw [stringBody.eq_def]
  rfl

theorem stringBody_shortEscape {e plain : Char} (hu : e ≠ 'u') (h : shortEscape? e = some plain)
    (done text : List Char) :
    stringBody done ('\\' :: e :: text) = stringBody (plain :: done) text := by
  rw [stringBody.eq_def]
  simp only [if_neg hu, h]
  rfl

theorem stringBody_control {c : Char} (h : c.toNat < 0x20) (done text : List Char) :
    stringBody done ('\\' :: 'u' :: '0' :: '0' :: hexChar (c.toNat / 16) ::
      hexChar (c.toNat % 16) :: text) = stringBody (c :: done) text := by
  have hhigh : isHighSurrogate c.toNat = false := by
    simp only [isHighSurrogate, Bool.and_eq_false_iff, decide_eq_false_iff_not]
    omega
  have hlow : isLowSurrogate c.toNat = false := by
    simp only [isLowSurrogate, Bool.and_eq_false_iff, decide_eq_false_iff_not]
    omega
  rw [stringBody.eq_def]
  simp only [hexNumber?_control h, hhigh, hlow, Char.ofNat_toNat]
  rfl

theorem stringBody_plain {c : Char} (hquote : c ≠ '"') (hslash : c ≠ '\\')
    (hcontrol : ¬ c.toNat < 0x20) (done text : List Char) :
    stringBody done (c :: text) = stringBody (c :: done) text := by
  rw [stringBody.eq_def]
  simp only [if_neg hquote, if_neg hslash, if_neg hcontrol]

/-- Every character is read as itself, however it is written. -/
theorem stringBody_escape (c : Char) (done text : List Char) :
    stringBody done (escape c ++ text) = stringBody (c :: done) text := by
  unfold escape
  -- The seven characters whose escape is a letter or themselves.
  iterate 7
    split
    · next h =>
      subst h
      exact stringBody_shortEscape (by decide) rfl done text
  split
  · next h => exact stringBody_control h done text
  · next hquote hslash _ _ _ _ _ hcontrol =>
    exact stringBody_plain hquote hslash hcontrol done text

theorem stringBody_putChars (text done rest : List Char) :
    stringBody done (putChars text ('"' :: rest)) =
      .ok (String.ofList (done.reverse ++ text), rest) := by
  induction text generalizing done with
  | nil => rw [putChars, List.append_nil, stringBody_quote]
  | cons c text ih =>
    rw [putChars, stringBody_escape, ih, List.reverse_cons, List.append_assoc,
      List.singleton_append]

/-- A string ends at its closing quote, whatever it holds and whatever follows. -/
theorem stringBody_string (text : String) (rest : List Char) :
    stringBody [] (putChars text.toList ('"' :: rest)) = .ok (text, rest) := by
  rw [stringBody_putChars, List.reverse_nil, List.nil_append, String.ofList_toList]

/-! ## Blanks -/

theorem skipBlanks_append {blanks : List Char} (h : ∀ c ∈ blanks, isBlank c = true)
    (text : List Char) : skipBlanks (blanks ++ text) = skipBlanks text :=
  List.dropWhile_append_of_pos h

theorem skipBlanks_cons {c : Char} (h : isBlank c = false) (text : List Char) :
    skipBlanks (c :: text) = c :: text :=
  List.dropWhile_cons_of_neg (by simp [h])

/-- Reading a value does not depend on the blanks before it. -/
theorem value_append {blanks : List Char} (h : ∀ c ∈ blanks, isBlank c = true) (limit : Nat)
    (text : List Char) : value limit (blanks ++ text) = value limit text := by
  rw [value, value, skipBlanks_append h]

/-! ## How arrays and objects begin -/

theorem arrayBody_of_ne {readItem : List Char → Step Json} {text inner : List Char} {c : Char}
    (hskip : skipBlanks text = c :: inner) (hc : c ≠ ']') :
    arrayBody readItem text =
      (itemsWith readItem ((c :: inner).length + 1) [] (c :: inner)).map fun (items, text) =>
        (.arr items, text) := by
  rw [arrayBody, hskip]
  split
  · next heq => exact absurd (List.cons.inj heq).1 hc
  · rfl

theorem objectBody_of_ne {readItem : List Char → Step Json} {text inner : List Char} {c : Char}
    (hskip : skipBlanks text = c :: inner) (hc : c ≠ '}') :
    objectBody readItem text =
      (membersWith readItem ((c :: inner).length + 1) [] (c :: inner)).map fun (members, text) =>
        (.obj members, text) := by
  rw [objectBody, hskip]
  split
  · next heq => exact absurd (List.cons.inj heq).1 hc
  · rfl

theorem value_bracket (limit : Nat) (text : List Char) :
    value (limit + 1) ('[' :: text) = arrayBody (value limit) text :=
  rfl

theorem value_bracket_zero (text : List Char) :
    value 0 ('[' :: text) = .error .malformed :=
  rfl

theorem value_brace (limit : Nat) (text : List Char) :
    value (limit + 1) ('{' :: text) = objectBody (value limit) text :=
  rfl

theorem value_brace_zero (text : List Char) :
    value 0 ('{' :: text) = .error .malformed :=
  rfl

/-! ## Printed values -/

theorem value_putString (limit : Nat) (text : String) (rest : List Char) :
    value limit (putString text rest) = .ok (.str text, rest) := by
  rw [putString, value, skipBlanks_cons rfl]
  show Except.map _ (stringBody [] _) = _
  rw [stringBody_string]
  rfl

theorem memberName_putString {blanks : List Char} (h : ∀ c ∈ blanks, isBlank c = true)
    (name : String) (rest : List Char) :
    memberName (blanks ++ putString name (':' :: rest)) = .ok (name, rest) := by
  rw [memberName, skipBlanks_append h, putString, skipBlanks_cons rfl]
  simp only [if_true, stringBody_string]
  rw [skipBlanks_cons rfl]
  rfl

/-- A reader of items gives a printed value back if it nests no deeper than `limit`, whatever
blanks stand before it and whatever follows it, and refuses it otherwise. -/
def ReadsBack (layout : Layout) (readItem : List Char → Step Json) (limit : Nat) (v : Json) :
    Prop :=
  ∀ (blanks : List Char), (∀ c ∈ blanks, isBlank c = true) → ∀ (depth : Nat) (rest : List Char),
    readItem (blanks ++ layout.put depth v rest) =
      if v.depth ≤ limit then .ok (v, rest) else .error .malformed

section

variable {layout : Layout} {readItem : List Char → Step Json} {limit : Nat}

theorem itemsWith_put {item : Json} {items : List Json}
    (h : ∀ x ∈ item :: items, ReadsBack layout readItem limit x) {bound : Nat}
    (hbound : items.length < bound) (done : List Json) {before after : List Char}
    (hbefore : ∀ c ∈ before, isBlank c = true) (hafter : ∀ c ∈ after, isBlank c = true)
    (depth : Nat) (rest : List Char) :
    itemsWith readItem bound done
        (before ++ layout.put depth item (layout.putItems depth items (after ++ ']' :: rest))) =
      if itemsDepth (item :: items) ≤ limit then .ok (done.reverse ++ item :: items, rest)
      else .error .malformed := by
  induction items generalizing item bound done before with
  | nil =>
    obtain ⟨bound, rfl⟩ : ∃ n, bound = n + 1 := ⟨bound - 1, by omega⟩
    have hitem := h item List.mem_cons_self before hbefore depth (after ++ ']' :: rest)
    rw [itemsWith, Layout.putItems, hitem, itemsDepth, itemsDepth, Nat.max_zero]
    by_cases hdepth : item.depth ≤ limit
    · rw [if_pos hdepth, if_pos hdepth]
      simp only [skipBlanks_append hafter, skipBlanks_cons (show isBlank ']' = false from rfl),
        List.reverse_cons]
      rfl
    · rw [if_neg hdepth, if_neg hdepth]
  | cons next items ih =>
    obtain ⟨bound, rfl⟩ : ∃ n, bound = n + 1 := ⟨bound - 1, by omega⟩
    have hitem := h item List.mem_cons_self before hbefore depth
      (layout.putItems depth (next :: items) (after ++ ']' :: rest))
    have hbound : items.length < bound := by
      rw [List.length_cons] at hbound
      omega
    have hitems := ih (fun x hx => h x (List.mem_cons_of_mem _ hx)) hbound (item :: done)
      (layout.line_blank depth)
    rw [itemsWith, hitem, itemsDepth]
    by_cases hdepth : item.depth ≤ limit
    · rw [if_pos hdepth, Layout.putItems]
      simp only [skipBlanks_cons (show isBlank ',' = false from rfl), if_true, hitems,
        Nat.max_le, hdepth, true_and, List.reverse_cons, List.append_assoc, List.singleton_append]
    · rw [if_neg hdepth, if_neg fun hle => hdepth (Nat.le_trans (Nat.le_max_left _ _) hle)]

theorem membersWith_put {name : String} {v : Json} {members : List (String × Json)}
    (h : ∀ x ∈ (name, v) :: members, ReadsBack layout readItem limit x.2) {bound : Nat}
    (hbound : members.length < bound) (done : List (String × Json)) {before after : List Char}
    (hbefore : ∀ c ∈ before, isBlank c = true) (hafter : ∀ c ∈ after, isBlank c = true)
    (depth : Nat) (rest : List Char) :
    membersWith readItem bound done (before ++ putString name (':' :: (layout.gap ++
        layout.put depth v (layout.putMembers depth members (after ++ '}' :: rest))))) =
      if membersDepth ((name, v) :: members) ≤ limit then
        .ok (done.reverse ++ (name, v) :: members, rest)
      else .error .malformed := by
  induction members generalizing name v bound done before with
  | nil =>
    obtain ⟨bound, rfl⟩ : ∃ n, bound = n + 1 := ⟨bound - 1, by omega⟩
    have hvalue := h _ List.mem_cons_self _ layout.gap_blank depth (after ++ '}' :: rest)
    rw [membersWith, memberName_putString hbefore, membersDepth, membersDepth, Nat.max_zero]
    simp only [Layout.putMembers, hvalue]
    by_cases hdepth : v.depth ≤ limit
    · rw [if_pos hdepth, if_pos hdepth]
      simp only [skipBlanks_append hafter, skipBlanks_cons (show isBlank '}' = false from rfl),
        List.reverse_cons]
      rfl
    · rw [if_neg hdepth, if_neg hdepth]
  | cons next members ih =>
    obtain ⟨bound, rfl⟩ : ∃ n, bound = n + 1 := ⟨bound - 1, by omega⟩
    obtain ⟨name', v'⟩ := next
    have hvalue := h _ List.mem_cons_self _ layout.gap_blank depth
      (layout.putMembers depth ((name', v') :: members) (after ++ '}' :: rest))
    have hbound : members.length < bound := by
      rw [List.length_cons] at hbound
      omega
    have hmembers := ih (fun x hx => h x (List.mem_cons_of_mem _ hx)) hbound ((name, v) :: done)
      (layout.line_blank depth)
    rw [membersWith, memberName_putString hbefore, membersDepth]
    simp only [hvalue]
    by_cases hdepth : v.depth ≤ limit
    · rw [if_pos hdepth, Layout.putMembers]
      simp only [skipBlanks_cons (show isBlank ',' = false from rfl), if_true, hmembers,
        Nat.max_le, hdepth, true_and, List.reverse_cons, List.append_assoc, List.singleton_append]
    · rw [if_neg hdepth, if_neg fun hle => hdepth (Nat.le_trans (Nat.le_max_left _ _) hle)]

end

section

variable {layout : Layout} {readItem : List Char → Step Json} {limit : Nat}

/-- What stands after the opening bracket of an array is read back. -/
theorem arrayBody_put {items : List Json} (hnumberless : ∀ item ∈ items, item.Numberless)
    (h : ∀ item ∈ items, ReadsBack layout readItem limit item) (depth : Nat) (rest : List Char) :
    ∃ text, layout.put depth (.arr items) rest = '[' :: text ∧
      arrayBody readItem text =
        if itemsDepth items ≤ limit then .ok (.arr items, rest) else .error .malformed := by
  cases items with
  | nil =>
    refine ⟨_, by rw [Layout.put], ?_⟩
    rw [arrayBody, skipBlanks_cons rfl, itemsDepth, if_pos (Nat.zero_le _)]
    rfl
  | cons item items =>
    refine ⟨_, by rw [Layout.put], ?_⟩
    -- The first item is what the array is told by from an empty one.
    obtain ⟨c, inner, hcons, hblank, hc⟩ := layout.exists_put_eq_cons
      (hnumberless item List.mem_cons_self) (depth + 1)
      (layout.putItems (depth + 1) items (layout.line depth ++ ']' :: rest))
    have hbound : items.length < (c :: inner).length + 1 := by
      have hitem := layout.length_put item (depth + 1)
        (layout.putItems (depth + 1) items (layout.line depth ++ ']' :: rest))
      have hitems := layout.length_putItems items (depth + 1) (layout.line depth ++ ']' :: rest)
      rw [hcons] at hitem
      omega
    have hread := itemsWith_put h hbound [] (List.forall_mem_nil _) (layout.line_blank depth)
      (depth + 1) rest
    rw [List.nil_append, hcons] at hread
    rw [hcons, arrayBody_of_ne (by rw [skipBlanks_append (layout.line_blank _),
      skipBlanks_cons hblank]) hc, hread]
    split
    · rfl
    · rfl

/-- What stands after the opening brace of an object is read back. -/
theorem objectBody_put {members : List (String × Json)}
    (h : ∀ member ∈ members, ReadsBack layout readItem limit member.2) (depth : Nat)
    (rest : List Char) :
    ∃ text, layout.put depth (.obj members) rest = '{' :: text ∧
      objectBody readItem text =
        if membersDepth members ≤ limit then .ok (.obj members, rest) else .error .malformed := by
  cases members with
  | nil =>
    refine ⟨_, by rw [Layout.put], ?_⟩
    rw [objectBody, skipBlanks_cons rfl, membersDepth, if_pos (Nat.zero_le _)]
    rfl
  | cons member members =>
    obtain ⟨name, v⟩ := member
    refine ⟨_, by rw [Layout.put], ?_⟩
    have hbound : members.length <
        (putString name (':' :: (layout.gap ++ layout.put (depth + 1) v
          (layout.putMembers (depth + 1) members
            (layout.line depth ++ '}' :: rest))))).length + 1 := by
      have hname := length_putString name (':' :: (layout.gap ++ layout.put (depth + 1) v
        (layout.putMembers (depth + 1) members (layout.line depth ++ '}' :: rest))))
      have hvalue := layout.length_put v (depth + 1)
        (layout.putMembers (depth + 1) members (layout.line depth ++ '}' :: rest))
      have hmembers :=
        layout.length_putMembers members (depth + 1) (layout.line depth ++ '}' :: rest)
      simp only [List.length_append, List.length_cons] at hname
      omega
    have hread := membersWith_put h hbound [] (List.forall_mem_nil _) (layout.line_blank depth)
      (depth + 1) rest
    rw [List.nil_append] at hread
    rw [putString] at hread ⊢
    rw [objectBody_of_ne (by rw [skipBlanks_append (layout.line_blank _),
      skipBlanks_cons rfl]) (by decide), hread]
    split
    · rfl
    · rfl

end

/-- A printed value without numbers is read back if it nests no deeper than the reader goes, and
is refused otherwise. -/
theorem readsBack_value (layout : Layout) {v : Json} (hv : v.Numberless) (limit : Nat) :
    ReadsBack layout (value limit) limit v := by
  induction v using Json.induction generalizing limit with
  | null =>
    intro blanks hblanks depth rest
    rw [value_append hblanks, Layout.put, value, skipBlanks_cons rfl]
    rfl
  | bool b =>
    intro blanks hblanks depth rest
    rw [value_append hblanks, Layout.put]
    cases b with
    | false =>
      rw [boolText, List.cons_append, value, skipBlanks_cons rfl]
      rfl
    | true =>
      rw [boolText, List.cons_append, value, skipBlanks_cons rfl]
      rfl
  | number spelling => cases hv
  | str text =>
    intro blanks hblanks depth rest
    rw [value_append hblanks, Layout.put, value_putString]
    rfl
  | arr items ih =>
    intro blanks hblanks depth rest
    obtain _ | _ | _ | ⟨hitems⟩ := hv
    rw [value_append hblanks]
    cases limit with
    | zero =>
      obtain ⟨text, hput, -⟩ :=
        arrayBody_put hitems (fun item hmem => ih item hmem (hitems item hmem) 0) depth rest
      rw [hput, value_bracket_zero, if_neg (by simp [Json.depth])]
    | succ limit =>
      obtain ⟨text, hput, hread⟩ :=
        arrayBody_put hitems (fun item hmem => ih item hmem (hitems item hmem) limit) depth rest
      simp only [hput, value_bracket, hread, Json.depth, Nat.add_le_add_iff_right]
  | obj members ih =>
    intro blanks hblanks depth rest
    obtain _ | _ | _ | _ | ⟨hmembers⟩ := hv
    rw [value_append hblanks]
    cases limit with
    | zero =>
      obtain ⟨text, hput, -⟩ :=
        objectBody_put (fun member hmem => ih member hmem (hmembers member hmem) 0) depth rest
      rw [hput, value_brace_zero, if_neg (by simp [Json.depth])]
    | succ limit =>
      obtain ⟨text, hput, hread⟩ :=
        objectBody_put (fun member hmem => ih member hmem (hmembers member hmem) limit) depth rest
      simp only [hput, value_brace, hread, Json.depth, Nat.add_le_add_iff_right]

/-! ## What is read nests no deeper than the limit -/

theorem exists_of_map_eq_ok {ε α β : Type} {f : α → β} {x : Except ε α} {b : β}
    (h : x.map f = .ok b) : ∃ a, x = .ok a ∧ f a = b := by
  cases x with
  | error fault => cases h
  | ok a => exact ⟨a, rfl, Except.ok.inj h⟩

theorem itemsDepth_le_iff {items : List Json} {limit : Nat} :
    itemsDepth items ≤ limit ↔ ∀ item ∈ items, item.depth ≤ limit := by
  induction items with
  | nil => simp [itemsDepth]
  | cons item rest ih => rw [itemsDepth, Nat.max_le, ih, List.forall_mem_cons]

theorem membersDepth_le_iff {members : List (String × Json)} {limit : Nat} :
    membersDepth members ≤ limit ↔ ∀ member ∈ members, member.2.depth ≤ limit := by
  induction members with
  | nil => simp [membersDepth]
  | cons member rest ih => rw [membersDepth, Nat.max_le, ih, List.forall_mem_cons]

section

variable {readItem : List Char → Step Json} {limit : Nat}
  (hread : ∀ {text v rest}, readItem text = .ok (v, rest) → v.depth ≤ limit)

include hread

theorem depth_le_of_itemsWith {bound : Nat} {done items : List Json} {text rest : List Char}
    (hdone : ∀ item ∈ done, item.depth ≤ limit)
    (h : itemsWith readItem bound done text = .ok (items, rest)) :
    ∀ item ∈ items, item.depth ≤ limit := by
  induction bound generalizing done text with
  | zero => cases h
  | succ bound ih =>
    rw [itemsWith] at h
    split at h
    · cases h
    · next item text' hitem =>
      have hmore : ∀ x ∈ item :: done, x.depth ≤ limit :=
        List.forall_mem_cons.mpr ⟨hread hitem, hdone⟩
      split at h
      · cases h
      · split at h
        · exact ih hmore h
        · split at h
          · obtain ⟨rfl, -⟩ := Prod.mk.inj (Except.ok.inj h)
            exact fun x hx => hmore x (List.mem_reverse.mp hx)
          · cases h

theorem depth_le_of_membersWith {bound : Nat} {done members : List (String × Json)}
    {text rest : List Char} (hdone : ∀ member ∈ done, member.2.depth ≤ limit)
    (h : membersWith readItem bound done text = .ok (members, rest)) :
    ∀ member ∈ members, member.2.depth ≤ limit := by
  induction bound generalizing done text with
  | zero => cases h
  | succ bound ih =>
    rw [membersWith] at h
    split at h
    · cases h
    · next name text' hname =>
      split at h
      · cases h
      · next item text'' hitem =>
        have hmore : ∀ x ∈ (name, item) :: done, x.2.depth ≤ limit :=
          List.forall_mem_cons.mpr ⟨hread hitem, hdone⟩
        split at h
        · cases h
        · split at h
          · exact ih hmore h
          · split at h
            · obtain ⟨rfl, -⟩ := Prod.mk.inj (Except.ok.inj h)
              exact fun x hx => hmore x (List.mem_reverse.mp hx)
            · cases h

theorem depth_le_of_arrayBody {text rest : List Char} {v : Json}
    (h : arrayBody readItem text = .ok (v, rest)) : v.depth ≤ limit + 1 := by
  unfold arrayBody at h
  split at h
  · cases h
    exact Nat.succ_le_succ (Nat.zero_le _)
  · obtain ⟨⟨items, after⟩, hitems, heq⟩ := exists_of_map_eq_ok h
    cases heq
    exact Nat.succ_le_succ
      (itemsDepth_le_iff.mpr (depth_le_of_itemsWith hread (List.forall_mem_nil _) hitems))

theorem depth_le_of_objectBody {text rest : List Char} {v : Json}
    (h : objectBody readItem text = .ok (v, rest)) : v.depth ≤ limit + 1 := by
  unfold objectBody at h
  split at h
  · cases h
    exact Nat.succ_le_succ (Nat.zero_le _)
  · obtain ⟨⟨members, after⟩, hmembers, heq⟩ := exists_of_map_eq_ok h
    cases heq
    exact Nat.succ_le_succ
      (membersDepth_le_iff.mpr (depth_le_of_membersWith hread (List.forall_mem_nil _) hmembers))

end

theorem depth_eq_zero_of_scalar {α : Type} {f : α → Json × List Char}
    (hscalar : ∀ a, (f a).1.depth = 0) {x : Except ReadError α} {v : Json} {rest : List Char}
    (h : x.map f = .ok (v, rest)) : v.depth = 0 := by
  obtain ⟨a, -, heq⟩ := exists_of_map_eq_ok h
  have hv : (f a).1 = v := congrArg Prod.fst heq
  exact hv ▸ hscalar a

/-- What is read nests nothing, or is an array or an object one level further down. -/
theorem cases_of_value {limit : Nat} {text rest : List Char} {v : Json}
    (h : value limit text = .ok (v, rest)) :
    v.depth = 0 ∨ ∃ lower inner, limit = lower + 1 ∧
      (arrayBody (value lower) inner = .ok (v, rest) ∨
        objectBody (value lower) inner = .ok (v, rest)) := by
  rw [value] at h
  cases hskip : skipBlanks text with
  | nil =>
    rw [hskip] at h
    cases h
  | cons c inner =>
    rw [hskip] at h
    dsimp only at h
    by_cases hnull : c = 'n'
    · rw [if_pos hnull] at h
      exact .inl (depth_eq_zero_of_scalar (fun _ => rfl) h)
    rw [if_neg hnull] at h
    by_cases htrue : c = 't'
    · rw [if_pos htrue] at h
      exact .inl (depth_eq_zero_of_scalar (fun _ => rfl) h)
    rw [if_neg htrue] at h
    by_cases hfalse : c = 'f'
    · rw [if_pos hfalse] at h
      exact .inl (depth_eq_zero_of_scalar (fun _ => rfl) h)
    rw [if_neg hfalse] at h
    by_cases hquote : c = '"'
    · rw [if_pos hquote] at h
      exact .inl (depth_eq_zero_of_scalar (fun _ => rfl) h)
    rw [if_neg hquote] at h
    by_cases hbracket : c = '['
    · rw [if_pos hbracket] at h
      cases limit with
      | zero => cases h
      | succ lower => exact .inr ⟨lower, inner, rfl, .inl h⟩
    rw [if_neg hbracket] at h
    by_cases hbrace : c = '{'
    · rw [if_pos hbrace] at h
      cases limit with
      | zero => cases h
      | succ lower => exact .inr ⟨lower, inner, rfl, .inr h⟩
    rw [if_neg hbrace] at h
    split at h
    · exact .inl (depth_eq_zero_of_scalar (fun _ => rfl) h)
    · cases h

theorem depth_le_of_value {limit : Nat} {text rest : List Char} {v : Json}
    (h : value limit text = .ok (v, rest)) : v.depth ≤ limit := by
  induction limit generalizing text v rest with
  | zero =>
    rcases cases_of_value h with hzero | ⟨lower, inner, hlower, -⟩
    · exact Nat.le_of_eq hzero
    · cases hlower
  | succ limit ih =>
    rcases cases_of_value h with hzero | ⟨lower, inner, hlower, harray | hobject⟩
    · omega
    · cases hlower
      exact depth_le_of_arrayBody ih harray
    · cases hlower
      exact depth_le_of_objectBody ih hobject

end Json

end TreeText
