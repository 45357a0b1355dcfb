import TreeText.NameTable
import TreeText.Text.CharacterName

/-!
# Names between braces

A name stands between braces, so no name in use may hold a closing one, or be empty. This is all
that reading an escape needs to know of the names (`CharacterName.Lookup.FitsBraces`), and it holds
of the ones in `CharacterName.find?`: syllables and ideographs are spelled by letters and digits
from short lists, and the other names stand in a table.
-/

namespace TreeText

namespace CharacterName

/-- What has a character as a name fits between braces: it is not empty and has no closing one. -/
def Lookup.FitsBraces (names : Lookup) : Prop :=
  ∀ name c, names name = some c → name ≠ [] ∧ '}' ∉ name

/-- What is split off the front of a text is an entry of the list. -/
theorem exists_of_splitLongest? {names : List String} {length number : Nat}
    {text rest : List Char} (h : splitLongest? names length text = some (number, rest)) :
    ∃ entry ∈ names, text = entry.toList ++ rest := by
  induction length with
  | zero =>
    obtain ⟨found, hfound, heq⟩ := Option.map_eq_some_iff.mp h
    obtain ⟨-, rfl⟩ := Prod.mk.inj heq
    have hmem : "" ∈ names := by
      rw [← List.isSome_idxOf?, hfound]
      rfl
    exact ⟨"", hmem, rfl⟩
  | succ length ih =>
    rw [splitLongest?] at h
    split at h
    next =>
      split at h
      next found hfound =>
        obtain ⟨-, rfl⟩ := Prod.mk.inj (Option.some.inj h)
        have hmem : String.ofList (text.take (length + 1)) ∈ names := by
          rw [← List.isSome_idxOf?, hfound]
          rfl
        refine ⟨_, hmem, ?_⟩
        rw [String.toList_ofList, List.take_append_drop]
      next => exact ih h
    next => exact ih h

theorem not_mem_of_splitLongest? {names : List String} {length number : Nat}
    {text rest : List Char} {c : Char} (hnames : ∀ entry ∈ names, c ∉ entry.toList)
    (h : splitLongest? names length text = some (number, rest)) (hrest : c ∉ rest) :
    c ∉ text := by
  obtain ⟨entry, hentry, rfl⟩ := exists_of_splitLongest? h
  intro hc
  rcases List.mem_append.mp hc with hc | hc
  · exact hnames entry hentry hc
  · exact hrest hc

theorem not_mem_of_syllable? {letters : List Char} {c : Char} (h : syllable? letters = some c) :
    '}' ∉ letters := by
  obtain ⟨⟨first, rest⟩, hfirst, h⟩ := Option.bind_eq_some_iff.mp h
  obtain ⟨⟨second, rest'⟩, hsecond, h⟩ := Option.bind_eq_some_iff.mp h
  obtain ⟨⟨third, rest''⟩, hthird, h⟩ := Option.bind_eq_some_iff.mp h
  dsimp only at h
  split at h
  next hempty =>
    have hend : '}' ∉ rest'' := by
      rw [List.isEmpty_iff.mp hempty]
      exact List.not_mem_nil
    exact not_mem_of_splitLongest? (by decide) hfirst
      (not_mem_of_splitLongest? (by decide) hsecond
        (not_mem_of_splitLongest? (by decide) hthird hend))
  next => cases h

theorem isSome_of_hexNumber?_go {digits : List Char} {value code : Nat}
    (h : hexNumber?.go value digits = some code) : ∀ c ∈ digits, (hexDigit? c).isSome := by
  induction digits generalizing value with
  | nil => exact nofun
  | cons first rest ih =>
    rw [hexNumber?.go] at h
    split at h
    next => cases h
    next digit hdigit =>
      intro c hc
      rcases List.mem_cons.mp hc with rfl | hc
      · rw [hdigit]
        rfl
      · exact ih h c hc

theorem not_mem_of_ideograph? {digits : List Char} {c : Char} (h : ideograph? digits = some c) :
    '}' ∉ digits := by
  rw [ideograph?] at h
  split at h
  next =>
    split at h
    next code hcode =>
      intro hc
      have hdigit := isSome_of_hexNumber?_go hcode '}' hc
      revert hdigit
      decide
    next => cases h
  next => cases h

/-- A name that starts with a word has no brace if neither the word nor the rest has. -/
theorem not_mem_of_after? {start : String} {text rest : List Char} {c : Char}
    (hstart : c ∉ start.toList) (h : after? start text = some rest) (hrest : c ∉ rest) :
    c ∉ text := by
  rw [after?] at h
  split at h
  next hbegins =>
    obtain ⟨tail, rfl⟩ := List.isPrefixOf_iff_prefix.mp hbegins
    have htail : rest = tail := by
      rw [← Option.some.inj h, ← String.length_toList, List.drop_left]
    intro hc
    rcases List.mem_append.mp hc with hc | hc
    · exact hstart hc
    · exact hrest (htail ▸ hc)
  next => cases h

/-- The names in use fit between braces. -/
theorem find?_fitsBraces : Lookup.FitsBraces find? := by
  intro name c h
  have hupper (hbrace : '}' ∈ name) : '}' ∈ name.map Char.toUpper :=
    List.mem_map.mpr ⟨'}', hbrace, rfl⟩
  constructor
  · intro hempty
    subst hempty
    have hnone : find? [] = none := by decide
    cases hnone.symm.trans h
  · intro hbrace
    refine absurd (hupper hbrace) ?_
    unfold find? at h
    dsimp only at h
    split at h
    next letters hletters =>
      exact not_mem_of_after? (by decide) hletters (not_mem_of_syllable? h)
    next =>
      split at h
      next digits hdigits =>
        exact not_mem_of_after? (by decide) hdigits (not_mem_of_ideograph? h)
      next =>
        have htable : ∀ pair ∈ table, '}' ∉ pair.1.toList := by
          decide
        have hentry := htable _ (NameTable.mem_of_lookup h)
        rwa [String.toList_ofList] at hentry

end CharacterName

end TreeText
