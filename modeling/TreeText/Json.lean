/-!
# JSON values

A JSON value as a text holds it: numbers keep their spelling, objects keep their members in
order, repeated names included. `Json/Reader` reads one from a text and `Json/Printer` writes one.
-/

namespace TreeText

/-- A JSON value. -/
inductive Json where
  | null
  | bool (value : Bool)
  /-- A number as it is spelled. -/
  | number (spelling : String)
  | str (text : String)
  | arr (items : List Json)
  /-- The members in order of the text. -/
  | obj (members : List (String × Json))
deriving Inhabited

namespace Json

/-- Induction over values, with the items of an array and the member values of an object at hand. -/
@[elab_as_elim]
theorem induction {motive : Json → Prop} (null : motive .null)
    (bool : ∀ value, motive (.bool value)) (number : ∀ spelling, motive (.number spelling))
    (str : ∀ text, motive (.str text))
    (arr : ∀ items : List Json, (∀ item ∈ items, motive item) → motive (.arr items))
    (obj : ∀ members : List (String × Json), (∀ member ∈ members, motive member.2) →
      motive (.obj members)) (value : Json) : motive value := by
  refine @Json.rec motive (fun items => ∀ item ∈ items, motive item)
    (fun members => ∀ member ∈ members, motive member.2) (fun member => motive member.2)
    null bool number str arr obj ?_ ?_ ?_ ?_ ?_ value
  · exact List.forall_mem_nil _
  · intro first rest hfirst hrest
    exact List.forall_mem_cons.mpr ⟨hfirst, hrest⟩
  · exact List.forall_mem_nil _
  · intro first rest hfirst hrest
    exact List.forall_mem_cons.mpr ⟨hfirst, hrest⟩
  · intro name value h
    exact h

/-- The text of a string. -/
def text? : Json → Option String
  | .str text => some text
  | _ => none

/-- The items of an array. -/
def items? : Json → Option (List Json)
  | .arr items => some items
  | _ => none

/-- The value of a number that is spelled with digits only. -/
def nat? : Json → Option Nat
  | .number spelling =>
    if spelling.toList.all Char.isDigit then spelling.toNat? else none
  | _ => none

end Json

end TreeText
