import TreeText.Text.Brace
import Mathlib.Data.List.SplitBy

/-!
# Characters written twice

Where a text has some characters written twice (`doubled`), taking every pair of one of them
together undoes it for this character and leaves the others as they are (`halved_doubled`): in front
of each such character there is an even number of the same, so no pair starts in the middle of
another. So the two passes over the braces do not get in each other's way, in whatever order and
number braces follow one another (`withSingleBraces_doubled`).

In any text at all the two passes come to one scan that takes pairs of both kinds together
(`withSingleBraces_eq_oneScan`). A scan puts nothing in front of a text: what it makes of the text
begins with the same character. So where two characters are side by side behind the first pass that
it does not take together, they were before it (`halvedWhere_halvedWhere`). A scan also takes every
run of one character for itself, and of a run of braces it leaves half, rounded up.
-/

namespace TreeText

/-- A text with some of its characters written twice. -/
def doubled (twice : Char → Bool) (text : List Char) : List Char :=
  text.flatMap fun c => if twice c then [c, c] else [c]

theorem doubled_cons_of_twice {twice : Char → Bool} {c : Char} (hc : twice c = true)
    (text : List Char) : doubled twice (c :: text) = c :: c :: doubled twice text := by
  show (if twice c then [c, c] else [c]) ++ doubled twice text = _
  rw [if_pos hc]
  rfl

theorem doubled_cons_of_once {twice : Char → Bool} {c : Char} (hc : twice c = false)
    (text : List Char) : doubled twice (c :: text) = c :: doubled twice text := by
  show (if twice c then [c, c] else [c]) ++ doubled twice text = _
  rw [hc]
  rfl

theorem doubled_of_forall_once {twice : Char → Bool} (h : ∀ c, twice c = false)
    (text : List Char) : doubled twice text = text := by
  induction text with
  | nil => rfl
  | cons c text ih => rw [doubled_cons_of_once (h c), ih]

theorem halved_cons_self (c : Char) (text : List Char) :
    halved c (c :: c :: text) = c :: halved c text := by
  rw [halved, if_pos ⟨rfl, rfl⟩]

theorem halved_cons_of_ne {c d : Char} (hne : d ≠ c) (text : List Char) :
    halved c (d :: text) = d :: halved c text := by
  cases text with
  | nil => rfl
  | cons e text => rw [halved, if_neg fun h => hne h.1]

/-- Taking pairs of one character together undoes the doubling of this character alone. -/
theorem halved_doubled {twice : Char → Bool} {c : Char} (hc : twice c = true) (text : List Char) :
    halved c (doubled twice text) = doubled (fun d => twice d && d != c) text := by
  induction text with
  | nil => rfl
  | cons d text ih =>
    by_cases hd : d = c
    · subst hd
      have honce : (twice d && d != d) = false := by
        rw [bne_self_eq_false, Bool.and_false]
      rw [doubled_cons_of_twice hc, doubled_cons_of_once honce, halved_cons_self, ih]
    · have hother : (twice d && d != c) = twice d := by
        rw [bne_iff_ne.mpr hd, Bool.and_true]
      cases htwice : twice d with
      | true =>
        rw [doubled_cons_of_twice htwice, doubled_cons_of_twice (hother.trans htwice),
          halved_cons_of_ne hd, halved_cons_of_ne hd, ih]
      | false =>
        rw [doubled_cons_of_once htwice, doubled_cons_of_once (hother.trans htwice),
          halved_cons_of_ne hd, ih]

/-- Undoing doubled braces leaves the other characters that are written twice. -/
theorem withSingleBraces_doubled {twice : Char → Bool} (hopening : twice '{' = true)
    (hclosing : twice '}' = true) (text : List Char) :
    withSingleBraces (doubled twice text) =
      doubled (fun c => twice c && c != '{' && c != '}') text := by
  have hstill : (twice '}' && '}' != '{') = true := by
    rw [hclosing]
    rfl
  rw [withSingleBraces, halved_doubled hopening, halved_doubled hstill]

/-! ## One scan for several characters -/

/-- Two of the same character side by side become one if the character is `paired`, in one scan from
left to right. -/
def halvedWhere (paired : Char → Bool) : List Char → List Char
  | a :: b :: text =>
    if a = b ∧ paired a = true then a :: halvedWhere paired text
    else a :: halvedWhere paired (b :: text)
  | text => text

/-- What a run of one character comes to: if it is `paired`, half as many, rounded up. -/
def halvedRun (paired : Char → Bool) (run : List Char) : List Char :=
  if run.any paired then run.take ((run.length + 1) / 2) else run

/-- Whether a character is a brace. -/
def isBrace (c : Char) : Bool := c == '{' || c == '}'

section

variable {paired : Char → Bool}

theorem halvedWhere_pair {c : Char} (hc : paired c = true) (text : List Char) :
    halvedWhere paired (c :: c :: text) = c :: halvedWhere paired text := by
  rw [halvedWhere, if_pos ⟨rfl, hc⟩]

theorem halvedWhere_cons_of_single {c : Char} (hc : paired c = false) (text : List Char) :
    halvedWhere paired (c :: text) = c :: halvedWhere paired text := by
  cases text with
  | nil => rfl
  | cons d text => rw [halvedWhere, if_neg (by simp [hc])]

theorem halvedWhere_cons_of_head?_ne {c : Char} {text : List Char} (h : text.head? ≠ some c) :
    halvedWhere paired (c :: text) = c :: halvedWhere paired text := by
  cases text with
  | nil => rfl
  | cons d text => rw [halvedWhere, if_neg fun hpair => h (congrArg some hpair.1.symm)]

theorem head?_halvedWhere (text : List Char) : (halvedWhere paired text).head? = text.head? := by
  unfold halvedWhere
  split
  · split <;> rfl
  · rfl

/-- A pass for one character is a scan. -/
theorem halved_eq_halvedWhere (c : Char) (text : List Char) :
    halved c text = halvedWhere (· == c) text := by
  fun_induction halved with
  | case1 a b text h ih =>
    obtain ⟨rfl, rfl⟩ := h
    rw [halvedWhere, if_pos ⟨rfl, beq_self_eq_true _⟩, ih]
  | case2 a b text h ih =>
    have hno : ¬ (a = b ∧ (a == c) = true) := by
      rintro ⟨rfl, ha⟩
      exact h ⟨beq_iff_eq.mp ha, beq_iff_eq.mp ha⟩
    rw [halvedWhere, if_neg hno, ih]
  | case3 text h =>
    match text, h with
    | [], _ => rfl
    | [_], _ => rfl
    | a :: b :: rest, h => exact absurd rfl (h a b rest)

/-- Two scans for different characters come to one for all of them. -/
theorem halvedWhere_halvedWhere {first second : Char → Bool}
    (hdisjoint : ∀ c, first c = true → second c = false) (text : List Char) :
    halvedWhere second (halvedWhere first text) =
      halvedWhere (fun c => first c || second c) text := by
  fun_induction halvedWhere (fun c => first c || second c) text with
  | case1 a b text h ih =>
    obtain ⟨rfl, ha⟩ := h
    cases hfirst : first a with
    | true =>
      rw [halvedWhere_pair hfirst, halvedWhere_cons_of_single (hdisjoint a hfirst), ih]
    | false =>
      -- The first scan goes past both of the pair, so it is still one for the second.
      rw [hfirst, Bool.false_or] at ha
      rw [halvedWhere_cons_of_single hfirst, halvedWhere_cons_of_single hfirst,
        halvedWhere_pair ha, ih]
  | case2 a b text h ih =>
    by_cases hab : a = b
    · have hneither : first a = false ∧ second a = false := by
        simpa [hab] using h
      rw [halvedWhere_cons_of_single hneither.1, halvedWhere_cons_of_single hneither.2, ih]
    · -- The next character differs, and so it does behind the first scan.
      have hhead : (b :: text).head? ≠ some a := fun heq => hab (Option.some.inj heq).symm
      have hstill : (halvedWhere first (b :: text)).head? ≠ some a := by
        rwa [head?_halvedWhere]
      rw [halvedWhere_cons_of_head?_ne hhead, halvedWhere_cons_of_head?_ne hstill, ih]
  | case3 text h =>
    match text, h with
    | [], _ => rfl
    | [_], _ => rfl
    | a :: b :: rest, h => exact absurd rfl (h a b rest)

/-! ## Run by run -/

/-- A text that is not empty begins with a run of one character, and another one comes then. -/
theorem exists_run (c : Char) (text : List Char) :
    ∃ n rest, c :: text = List.replicate (n + 1) c ++ rest ∧ rest.head? ≠ some c := by
  induction text with
  | nil => exact ⟨0, [], rfl, nofun⟩
  | cons d text ih =>
    by_cases hd : d = c
    · subst hd
      obtain ⟨n, rest, htext, hrest⟩ := ih
      exact ⟨n + 1, rest, congrArg (d :: ·) htext, hrest⟩
    · exact ⟨0, d :: text, rfl, fun h => hd (Option.some.inj h)⟩

theorem halvedWhere_replicate_of_single {c : Char} (hc : paired c = false) (n : Nat)
    (rest : List Char) :
    halvedWhere paired (List.replicate n c ++ rest) =
      List.replicate n c ++ halvedWhere paired rest := by
  induction n with
  | zero => rfl
  | succ n ih =>
    rw [List.replicate_succ, List.cons_append, halvedWhere_cons_of_single hc, ih]
    rfl

/-- Of an odd number of characters the last one stays alone. -/
theorem halvedWhere_replicate_of_paired {c : Char} (hc : paired c = true) {rest : List Char}
    (hrest : rest.head? ≠ some c) : (n : Nat) →
    halvedWhere paired (List.replicate n c ++ rest) =
      List.replicate ((n + 1) / 2) c ++ halvedWhere paired rest
  | 0 => rfl
  | 1 => halvedWhere_cons_of_head?_ne hrest
  | n + 2 => by
    have hhalf : (n + 2 + 1) / 2 = (n + 1) / 2 + 1 := by omega
    rw [hhalf, List.replicate_succ, List.replicate_succ, List.replicate_succ, List.cons_append,
      List.cons_append, halvedWhere_pair hc, halvedWhere_replicate_of_paired hc hrest n]
    rfl

theorem halvedWhere_run {c : Char} {rest : List Char} (hrest : rest.head? ≠ some c) (n : Nat) :
    halvedWhere paired (List.replicate (n + 1) c ++ rest) =
      halvedRun paired (List.replicate (n + 1) c) ++ halvedWhere paired rest := by
  cases hc : paired c with
  | true =>
    have hhalf : (n + 1 + 1) / 2 ≤ n + 1 := by omega
    rw [halvedWhere_replicate_of_paired hc hrest, halvedRun, List.length_replicate,
      List.take_replicate, Nat.min_eq_left hhalf, if_pos (by simp [hc])]
  | false => rw [halvedWhere_replicate_of_single hc, halvedRun, if_neg (by simp [hc])]

theorem splitBy_run {c : Char} {rest : List Char} (hrest : rest.head? ≠ some c) (n : Nat) :
    (List.replicate (n + 1) c ++ rest).splitBy (· == ·) =
      List.replicate (n + 1) c :: rest.splitBy (· == ·) := by
  have hrun : (List.replicate (n + 1) c).IsChain fun x y => (x == y) = true :=
    List.isChain_replicate_of_rel _ (beq_self_eq_true c)
  rw [List.splitBy_append, List.splitBy_of_isChain (by simp) hrun, List.singleton_append]
  intro d hd e he
  obtain rfl := List.eq_of_mem_replicate (List.mem_of_getLast? hd)
  exact beq_eq_false_iff_ne.mpr fun heq => hrest (heq ▸ he)

/-- A scan takes every run for itself. -/
theorem halvedWhere_eq_flatMap (text : List Char) :
    halvedWhere paired text = (text.splitBy (· == ·)).flatMap (halvedRun paired) := by
  induction hlength : text.length using Nat.strong_induction_on generalizing text with
  | h length ih =>
    cases text with
    | nil => rfl
    | cons c text =>
      obtain ⟨n, rest, htext, hrest⟩ := exists_run c text
      have hshorter : rest.length < length := by
        rw [← hlength, htext, List.length_append, List.length_replicate]
        omega
      rw [htext, halvedWhere_run hrest, splitBy_run hrest, List.flatMap_cons,
        ih _ hshorter rest rfl]

end

/-- **Two passes over the braces come to one scan.** To take the opening braces of a text together
by pairs, and then the closing ones of what is left, is to scan the text once and take both
together. However the braces follow one another, of every run of one of them half is left, rounded
up, and all else stays. -/
theorem withSingleBraces_eq_oneScan (text : List Char) :
    withSingleBraces text = halvedWhere isBrace text ∧
    withSingleBraces text = (text.splitBy (· == ·)).flatMap (halvedRun isBrace) := by
  have hdisjoint : ∀ c : Char, (c == '{') = true → (c == '}') = false := by
    intro c hc
    rw [beq_iff_eq.mp hc]
    rfl
  have hscan : withSingleBraces text = halvedWhere isBrace text := by
    rw [withSingleBraces, halved_eq_halvedWhere, halved_eq_halvedWhere,
      halvedWhere_halvedWhere hdisjoint]
    rfl
  exact ⟨hscan, hscan.trans (halvedWhere_eq_flatMap text)⟩

/-- Of three braces two are left, of two one, and one stays. -/
example : withSingleBraces ['{', '{', '{', '}', '}', 'x', '}'] = ['{', '{', '}', 'x', '}'] := rfl

end TreeText
