import TreeText.Json.Reader
import TreeText.Json.Printer

/-!
# What the printers of JSON write

Both printers put the same characters and differ in their blanks alone. A `Layout` says where
blanks are put, and carries the proof that they are blanks; `Layout.put` is the printer of a layout.
`Json.compact` and `Json.pretty` are the printers of two layouts (`put_compact`, `put_pretty`), so
what is shown of every layout holds of both.

Here is also how deep a value nests, and what reading needs to know of a printed text: how it
begins, and that it is no shorter than the number of its items.
-/

namespace TreeText.Json

/-! ## Nesting -/

mutual

/-- How many arrays and objects lie in one another. -/
def depth : Json → Nat
  | .arr items => itemsDepth items + 1
  | .obj members => membersDepth members + 1
  | _ => 0

/-- The greatest depth of these items. -/
def itemsDepth : List Json → Nat
  | [] => 0
  | item :: rest => max (depth item) (itemsDepth rest)

/-- The greatest depth of these members' values. -/
def membersDepth : List (String × Json) → Nat
  | [] => 0
  | (_, value) :: rest => max (depth value) (membersDepth rest)

end

/-- There is no number in the value. -/
inductive Numberless : Json → Prop
  | null : Numberless .null
  | bool (value : Bool) : Numberless (.bool value)
  | str (text : String) : Numberless (.str text)
  | arr {items : List Json} (h : ∀ item ∈ items, Numberless item) : Numberless (.arr items)
  | obj {members : List (String × Json)} (h : ∀ member ∈ members, Numberless member.2) :
      Numberless (.obj members)

/-! ## Layouts -/

/-- Where blanks are put: in front of an item, a member or a closing bracket at a depth, and
between a colon and the value after it. -/
structure Layout where
  line : Nat → List Char
  gap : List Char
  line_blank : ∀ depth, ∀ c ∈ line depth, isBlank c = true
  gap_blank : ∀ c ∈ gap, isBlank c = true

namespace Layout

/-- No blanks at all. -/
def compact : Layout where
  line := fun _ => []
  gap := []
  line_blank := fun _ => List.forall_mem_nil _
  gap_blank := List.forall_mem_nil _

/-- A line for each item and each member. -/
def pretty : Layout where
  line := fun depth => putLine depth []
  gap := [' ']
  line_blank := by
    intro depth c h
    rw [putLine, List.append_nil] at h
    rcases List.mem_cons.mp h with rfl | h
    · rfl
    · rw [List.eq_of_mem_replicate h]; rfl
  gap_blank := List.forall_mem_singleton.mpr rfl

variable (layout : Layout)

mutual

/-- Puts a value at a depth in front of `rest`. -/
def put (depth : Nat) : Json → List Char → List Char
  | .null, rest => 'n' :: 'u' :: 'l' :: 'l' :: rest
  | .bool value, rest => boolText value ++ rest
  | .number spelling, rest => spelling.toList ++ rest
  | .str text, rest => putString text rest
  | .arr [], rest => '[' :: ']' :: rest
  | .arr (item :: items), rest =>
    '[' :: (layout.line (depth + 1) ++ put (depth + 1) item
      (putItems (depth + 1) items (layout.line depth ++ ']' :: rest)))
  | .obj [], rest => '{' :: '}' :: rest
  | .obj ((name, value) :: members), rest =>
    '{' :: (layout.line (depth + 1) ++ putString name (':' :: (layout.gap ++
      put (depth + 1) value (putMembers (depth + 1) members (layout.line depth ++ '}' :: rest)))))

/-- Puts further items at a depth in front of `rest`. -/
def putItems (depth : Nat) : List Json → List Char → List Char
  | [], rest => rest
  | item :: items, rest =>
    ',' :: (layout.line depth ++ put depth item (putItems depth items rest))

/-- Puts further members at a depth in front of `rest`. -/
def putMembers (depth : Nat) : List (String × Json) → List Char → List Char
  | [], rest => rest
  | (name, value) :: members, rest =>
    ',' :: (layout.line depth ++ putString name (':' :: (layout.gap ++
      put depth value (putMembers depth members rest))))

end

mutual

theorem put_compact : ∀ (value : Json) (depth : Nat) (rest : List Char),
    compact.put depth value rest = value.put rest
  | .null, _, _ => by rw [put, Json.put]
  | .bool _, _, _ => by rw [put, Json.put]
  | .number _, _, _ => by rw [put, Json.put]
  | .str _, _, _ => by rw [put, Json.put]
  | .arr [], _, _ => by rw [put, Json.put]
  | .arr (item :: items), depth, rest => by
    rw [put, Json.put, put_compact item, putItems_compact items]
    rfl
  | .obj [], _, _ => by rw [put, Json.put]
  | .obj ((name, value) :: members), depth, rest => by
    rw [put, Json.put, put_compact value, putMembers_compact members]
    rfl

theorem putItems_compact : ∀ (items : List Json) (depth : Nat) (rest : List Char),
    compact.putItems depth items rest = Json.putItems items rest
  | [], _, _ => by rw [putItems, Json.putItems]
  | item :: items, depth, rest => by
    rw [putItems, Json.putItems, put_compact item, putItems_compact items]
    rfl

theorem putMembers_compact : ∀ (members : List (String × Json)) (depth : Nat) (rest : List Char),
    compact.putMembers depth members rest = Json.putMembers members rest
  | [], _, _ => by rw [putMembers, Json.putMembers]
  | (name, value) :: members, depth, rest => by
    rw [putMembers, Json.putMembers, put_compact value, putMembers_compact members]
    rfl

end

theorem pretty_line (depth : Nat) (rest : List Char) :
    pretty.line depth ++ rest = putLine depth rest := by
  simp [pretty, putLine]

mutual

theorem put_pretty : ∀ (value : Json) (depth : Nat) (rest : List Char),
    pretty.put depth value rest = value.putPretty depth rest
  | .null, _, _ => by rw [put, putPretty]
  | .bool _, _, _ => by rw [put, putPretty]
  | .number _, _, _ => by rw [put, putPretty]
  | .str _, _, _ => by rw [put, putPretty]
  | .arr [], _, _ => by rw [put, putPretty]
  | .arr (item :: items), depth, rest => by
    rw [put, putPretty, put_pretty item, putItems_pretty items, pretty_line, pretty_line]
  | .obj [], _, _ => by rw [put, putPretty]
  | .obj ((name, value) :: members), depth, rest => by
    rw [put, putPretty, put_pretty value, putMembers_pretty members, pretty_line, pretty_line]
    rfl

theorem putItems_pretty : ∀ (items : List Json) (depth : Nat) (rest : List Char),
    pretty.putItems depth items rest = putPrettyItems depth items rest
  | [], _, _ => by rw [putItems, putPrettyItems]
  | item :: items, depth, rest => by
    rw [putItems, putPrettyItems, put_pretty item, putItems_pretty items, pretty_line]

theorem putMembers_pretty : ∀ (members : List (String × Json)) (depth : Nat) (rest : List Char),
    pretty.putMembers depth members rest = putPrettyMembers depth members rest
  | [], _, _ => by rw [putMembers, putPrettyMembers]
  | (name, value) :: members, depth, rest => by
    rw [putMembers, putPrettyMembers, put_pretty value, putMembers_pretty members, pretty_line]
    rfl

end

/-! ## What stands behind a text -/

theorem putChars_append (cs rest more : List Char) :
    putChars cs (rest ++ more) = putChars cs rest ++ more := by
  induction cs with
  | nil => rfl
  | cons c cs ih => rw [putChars, putChars, ih, List.append_assoc]

theorem putString_append (text : String) (rest more : List Char) :
    putString text (rest ++ more) = putString text rest ++ more := by
  rw [putString, putString, ← List.cons_append, putChars_append, List.cons_append]

mutual

/-- What a value is put in front of stays as it is. -/
theorem put_append : ∀ (value : Json) (depth : Nat) (rest more : List Char),
    layout.put depth value (rest ++ more) = layout.put depth value rest ++ more
  | .null, _, _, _ => by rw [put, put]; rfl
  | .bool _, _, _, _ => by rw [put, put, List.append_assoc]
  | .number _, _, _, _ => by rw [put, put, List.append_assoc]
  | .str _, _, _, _ => by rw [put, put, putString_append]
  | .arr [], _, _, _ => by rw [put, put]; rfl
  | .arr (item :: items), depth, rest, more => by
    simp only [put, List.cons_append, List.append_assoc, ← put_append item,
      ← putItems_append items]
  | .obj [], _, _, _ => by rw [put, put]; rfl
  | .obj ((name, value) :: members), depth, rest, more => by
    simp only [put, List.cons_append, List.append_assoc, ← putString_append, ← put_append value,
      ← putMembers_append members]

theorem putItems_append : ∀ (items : List Json) (depth : Nat) (rest more : List Char),
    layout.putItems depth items (rest ++ more) = layout.putItems depth items rest ++ more
  | [], _, _, _ => by rw [putItems, putItems]
  | item :: items, depth, rest, more => by
    simp only [putItems, List.cons_append, List.append_assoc, ← put_append item,
      ← putItems_append items]

theorem putMembers_append : ∀ (members : List (String × Json)) (depth : Nat)
    (rest more : List Char),
    layout.putMembers depth members (rest ++ more) = layout.putMembers depth members rest ++ more
  | [], _, _, _ => by rw [putMembers, putMembers]
  | (name, value) :: members, depth, rest, more => by
    simp only [putMembers, List.cons_append, List.append_assoc, ← putString_append,
      ← put_append value, ← putMembers_append members]

end

/-! ## Beginning and length of a text -/

/-- What a value without numbers begins with. -/
theorem exists_put_eq_cons {v : Json} (h : v.Numberless) (depth : Nat)
    (rest : List Char) :
    ∃ c text, layout.put depth v rest = c :: text ∧ isBlank c = false ∧ c ≠ ']' := by
  cases h with
  | null => exact ⟨'n', _, by rw [put], rfl, by decide⟩
  | bool b =>
    cases b with
    | false => exact ⟨'f', _, by rw [put]; rfl, rfl, by decide⟩
    | true => exact ⟨'t', _, by rw [put]; rfl, rfl, by decide⟩
  | str text => exact ⟨'"', _, by rw [put]; rfl, rfl, by decide⟩
  | @arr items _ =>
    cases items with
    | nil => exact ⟨'[', _, by rw [put], rfl, by decide⟩
    | cons => exact ⟨'[', _, by rw [put], rfl, by decide⟩
  | @obj members _ =>
    cases members with
    | nil => exact ⟨'{', _, by rw [put], rfl, by decide⟩
    | cons => exact ⟨'{', _, by rw [put], rfl, by decide⟩

end Layout

theorem length_putChars (text rest : List Char) : rest.length ≤ (putChars text rest).length := by
  induction text with
  | nil => exact Nat.le_refl _
  | cons c text ih =>
    rw [putChars, List.length_append]
    omega

theorem length_putString (text : String) (rest : List Char) :
    rest.length ≤ (putString text rest).length := by
  have h := length_putChars text.toList ('"' :: rest)
  rw [putString, List.length_cons]
  rw [List.length_cons] at h
  omega

namespace Layout

variable (layout : Layout)

mutual

/-- Nothing of what follows a value is lost. -/
theorem length_put : ∀ (v : Json) (depth : Nat) (rest : List Char),
    rest.length ≤ (layout.put depth v rest).length
  | .null, _, rest => by
    simp only [put, List.length_cons]
    omega
  | .bool b, _, rest => by
    simp only [put, List.length_append]
    omega
  | .number spelling, _, rest => by
    simp only [put, List.length_append]
    omega
  | .str text, _, rest => by
    rw [put]
    exact length_putString text rest
  | .arr [], _, rest => by
    simp only [put, List.length_cons]
    omega
  | .arr (item :: items), depth, rest => by
    have hitem := length_put item (depth + 1)
      (layout.putItems (depth + 1) items (layout.line depth ++ ']' :: rest))
    have hitems := length_putItems items (depth + 1) (layout.line depth ++ ']' :: rest)
    simp only [List.length_append, List.length_cons] at hitems
    simp only [put, List.length_append, List.length_cons]
    omega
  | .obj [], _, rest => by
    simp only [put, List.length_cons]
    omega
  | .obj ((name, v) :: members), depth, rest => by
    have hname := length_putString name (':' :: (layout.gap ++ layout.put (depth + 1) v
      (layout.putMembers (depth + 1) members (layout.line depth ++ '}' :: rest))))
    have hvalue := length_put v (depth + 1)
      (layout.putMembers (depth + 1) members (layout.line depth ++ '}' :: rest))
    have hmembers := length_putMembers members (depth + 1) (layout.line depth ++ '}' :: rest)
    simp only [List.length_append, List.length_cons] at hname hmembers
    simp only [put, List.length_append, List.length_cons]
    omega

/-- Each further item takes its place. -/
theorem length_putItems : ∀ (items : List Json) (depth : Nat) (rest : List Char),
    items.length + rest.length ≤ (layout.putItems depth items rest).length
  | [], _, rest => by simp [putItems]
  | item :: items, depth, rest => by
    have hitem := length_put item depth (layout.putItems depth items rest)
    have hitems := length_putItems items depth rest
    simp only [putItems, List.length_append, List.length_cons]
    omega

/-- Each further member takes its place. -/
theorem length_putMembers : ∀ (members : List (String × Json)) (depth : Nat) (rest : List Char),
    members.length + rest.length ≤ (layout.putMembers depth members rest).length
  | [], _, rest => by simp [putMembers]
  | (name, v) :: members, depth, rest => by
    have hname := length_putString name
      (':' :: (layout.gap ++ layout.put depth v (layout.putMembers depth members rest)))
    have hvalue := length_put v depth (layout.putMembers depth members rest)
    have hmembers := length_putMembers members depth rest
    simp only [List.length_append, List.length_cons] at hname
    simp only [putMembers, List.length_append, List.length_cons]
    omega

end

end Layout

end TreeText.Json
