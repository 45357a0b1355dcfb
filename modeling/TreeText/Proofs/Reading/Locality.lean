import TreeText.Proofs.Reading.Counter

/-!
# What is read depends on the text alone

A construct may stand anywhere: at another offset, on another line, in another source. What is read
from it is the same tree, or there is a fault of the same cause, as long as its own text is the same
(`runFrom_read_of_shifted`). So nothing around a construct has a part in it, though literals reckon
with offsets into the whole source.

The reason is that a rule comes to an offset in two ways only. Either a node says it, or it is one
byte after such an offset; and a text always stops where some node says. So a rule looks at nothing
before the construct and at nothing behind it, and in between the two sources hold the same bytes.
-/

namespace TreeText

/-! ## The same bytes at two places -/

/-- A stretch of bytes that two sources have in common, in which names stand for the same. -/
structure Common (source source' : Source) where
  /-- Where it starts in the first source. -/
  base : Nat
  /-- Where it starts in the second source. -/
  base' : Nat
  length : Nat
  le_size : base + length ≤ source.bytes.size
  le_size' : base' + length ≤ source'.bytes.size
  extract_eq : source.bytes.extract base (base + length) =
    source'.bytes.extract base' (base' + length)
  names_eq : source.names = source'.names

theorem Source.slice?_eq_some {source : Source} {start stop : Nat} {text : String}
    (h : source.slice? start stop = some text) :
    start ≤ stop ∧ stop ≤ source.bytes.size ∧
      source.bytes.extract start stop = text.toByteArray := by
  rw [Source.slice?] at h
  split at h
  · next hbounds =>
    refine ⟨hbounds.1, hbounds.2, ?_⟩
    rw [String.fromUTF8?] at h
    split at h
    · cases h
      rfl
    · cases h
  · cases h

namespace Common

variable {source source' : Source}

/-- The stretch of a text that both sources have. -/
def ofSlices {start stop start' stop' : Nat} {text : String}
    (h : source.slice? start stop = some text) (h' : source'.slice? start' stop' = some text)
    (hlength : stop' - start' = stop - start) (hnames : source.names = source'.names) :
    Common source source' where
  base := start
  base' := start'
  length := stop - start
  le_size := by
    obtain ⟨hle, hsize, -⟩ := Source.slice?_eq_some h
    omega
  le_size' := by
    obtain ⟨hle, hsize, -⟩ := Source.slice?_eq_some h'
    omega
  extract_eq := by
    obtain ⟨hle, -, hbytes⟩ := Source.slice?_eq_some h
    obtain ⟨hle', -, hbytes'⟩ := Source.slice?_eq_some h'
    have hstop : start + (stop - start) = stop := by omega
    have hstop' : start' + (stop - start) = stop' := by omega
    rw [hstop, hstop', hbytes, hbytes']
  names_eq := hnames

variable (common : Common source source')

/-- Two offsets that are equally far behind the start. -/
def Start (a b : Nat) : Prop :=
  ∃ k, a = common.base + k ∧ b = common.base' + k

/-- Two offsets that are equally far behind the start, and not behind the end. -/
def Stop (a b : Nat) : Prop :=
  ∃ k, k ≤ common.length ∧ a = common.base + k ∧ b = common.base' + k

theorem start_succ {a b : Nat} (h : common.Start a b) : common.Start (a + 1) (b + 1) := by
  obtain ⟨k, rfl, rfl⟩ := h
  exact ⟨k + 1, rfl, rfl⟩

theorem start_min {a b a' b' : Nat} (h : common.Start a b) (h' : common.Start a' b') :
    common.Start (min a a') (min b b') := by
  obtain ⟨k, rfl, rfl⟩ := h
  obtain ⟨k', rfl, rfl⟩ := h'
  exact ⟨min k k', by omega, by omega⟩

/-- Bytes up to the end of the stretch are the bytes of the stretch. -/
theorem extract_extract_eq {k k' : Nat} (h : k' ≤ common.length) :
    source.bytes.extract (common.base + k) (common.base + k') =
      source'.bytes.extract (common.base' + k) (common.base' + k') := by
  have hbase : min (common.base + k') (common.base + common.length) = common.base + k' := by omega
  have hbase' : min (common.base' + k') (common.base' + common.length) = common.base' + k' := by
    omega
  have hextract := congrArg (·.extract k k') common.extract_eq
  simp only [ByteArray.extract_extract, hbase, hbase'] at hextract
  exact hextract

theorem slice?_eq {a b a' b' : Nat} (h : common.Start a b) (h' : common.Stop a' b') :
    source.slice? a a' = source'.slice? b b' := by
  obtain ⟨k, rfl, rfl⟩ := h
  obtain ⟨k', hk', rfl, rfl⟩ := h'
  have hsize := common.le_size
  have hsize' := common.le_size'
  rw [Source.slice?, Source.slice?, common.extract_extract_eq hk']
  -- Neither text goes beyond its source, so only the order of the offsets counts.
  by_cases hle : k ≤ k'
  · rw [if_pos (by omega), if_pos (by omega)]
  · rw [if_neg (by omega), if_neg (by omega)]

end Common

/-! ## The same construct at two places -/

namespace Cst

/-- The second tree is the first at another place: all offsets are shifted by one constant, lines
and columns are any. -/
inductive Shifted (shift : Int) : Cst → Cst → Prop
  | node {info : Info} {start stop row column : Nat} {children children' : List Cst}
      (hstart : start = info.start + shift) (hstop : stop = info.stop + shift)
      (hchildren : List.Forall₂ (Shifted shift) children children') :
      Shifted shift (.node info children) (.node { info with start, stop, row, column } children')

/-- All offsets in a tree lie between these two. -/
inductive Within (start stop : Nat) : Cst → Prop
  | node {info : Info} {children : List Cst} (hstart : start ≤ info.start ∧ info.start ≤ stop)
      (hstop : start ≤ info.stop ∧ info.stop ≤ stop)
      (hchildren : ∀ child ∈ children, Within start stop child) :
      Within start stop (.node info children)

theorem Shifted.bounds {shift : Int} {c d : Cst} (h : c.Shifted shift d) :
    d.info.start = c.info.start + shift ∧ d.info.stop = c.info.stop + shift := by
  cases h with
  | node hstart hstop => exact ⟨hstart, hstop⟩

theorem Within.of_children {c : Cst} (hle : c.info.start ≤ c.info.stop)
    (h : ∀ child ∈ c.children, child.Within c.info.start c.info.stop) :
    c.Within c.info.start c.info.stop := by
  cases c
  exact ⟨⟨Nat.le_refl _, hle⟩, ⟨hle, Nat.le_refl _⟩, h⟩

end Cst

namespace Common

open Cst

variable {source source' : Source} (common : Common source source')

/-- A construct in the common stretch, once in each source. -/
def Node (c d : Cst) : Prop :=
  c.Within common.base (common.base + common.length) ∧
    c.Shifted (common.base' - common.base) d

theorem Stop.start {a b : Nat} (h : common.Stop a b) : common.Start a b := by
  obtain ⟨k, -, ha, hb⟩ := h
  exact ⟨k, ha, hb⟩

/-- An offset in the stretch and the same offset in the other source. -/
theorem stop_of_shift {a b : Nat} (ha : common.base ≤ a ∧ a ≤ common.base + common.length)
    (hb : (b : Int) = a + (common.base' - common.base)) : common.Stop a b :=
  ⟨a - common.base, by omega, by omega, by omega⟩

theorem node_alike {c d : Cst} (h : common.Node c d) :
    c.Alike common.Node common.Start common.Stop (fun e e' => e.cause = e'.cause) d := by
  obtain ⟨hwithin, hshifted⟩ := h
  obtain ⟨hstart, hstop, hchildren⟩ := hwithin
  obtain ⟨hstart', hstop', hchildren'⟩ := hshifted
  have hnodes := (List.forall₂_and_left _ _).mpr ⟨hchildren, hchildren'⟩
  have hstarts := common.stop_of_shift hstart hstart'
  have hstops := common.stop_of_shift hstop hstop'
  exact {
    kind := rfl
    field := rfl
    isNamed := rfl
    start_start := hstarts.start
    start_stop := hstops.start
    stop_start := hstarts
    stop_stop := hstops
    fault := fun _ => rfl
    seen := List.rel_filter (fun a b hab => by
      obtain ⟨-, hab⟩ := hab
      cases hab
      rfl) hnodes }

end Common

namespace Reading

/-- Results agree if they are the same tree, or faults of the same cause. -/
abbrev Comparison.sameCauses : Comparison Result Result :=
  .results (fun e e' => e.cause = e'.cause) fun _ => False

theorem Agree.mapError_eq {α : Type} {x y : Result α} (h : Agree .sameCauses Eq x y) :
    x.mapError Fault.cause = y.mapError Fault.cause := by
  match x, y, h with
  | .ok a, .ok b, h => exact congrArg Except.ok h
  | .error e, .error e', .inr h => exact congrArg Except.error h

variable {source source' : Source} (common : Common source source')

/-- Two visitors of constructs in the common stretch. -/
def localLikeness (f g : Role → Cst → Result Tree)
    (h : ∀ {c d} role, common.Node c d → Agree .sameCauses Eq (f role c) (g role d)) :
    Likeness ⟨source, f⟩ ⟨source', g⟩ where
  node := common.Node
  start := common.Start
  stop := common.Stop
  readings := .sameCauses
  alike := common.node_alike
  start_succ := common.start_succ
  start_min := common.start_min
  slice? := common.slice?_eq
  names := common.names_eq
  visit := h

/-- The induction is on the rounds: both constructs have as many, and each hands on one less. -/
theorem visit_agree_of_node (rounds depth : Nat) (role : Role) {c d : Cst} (h : common.Node c d) :
    Agree .sameCauses Eq (visit source rounds depth role c)
      (visit source' rounds depth role d) := by
  induction rounds generalizing depth role c d with
  | zero => exact .error rfl
  | succ rounds ih =>
    let L (depth : Nat) := localLikeness common (visit source rounds depth)
      (visit source' rounds depth) fun role h => ih depth role h
    have halike := common.node_alike h
    exact step_agree_of_alike (L depth) (L (depth + 1)) rfl halike halike
      (nested_agree_of_depth_eq rfl) role

namespace Counted

/-- **Reading is local.** Let a construct have all offsets in it between its own, and let it stand
in two sources with the same text: shifted by a constant, on any lines and columns. If names of
characters stand for the same in both, then from any depth and in any role it is read as the same
tree, or there is a fault of the same cause, and so of the same wording. -/
theorem runFrom_read_of_shifted {c d : Cst} {shift : Int} {text : String}
    (hshifted : c.Shifted shift d)
    (hwithin : ∀ child ∈ c.children, child.Within c.info.start c.info.stop)
    (htext : source.slice? c.info.start c.info.stop = some text)
    (htext' : source'.slice? d.info.start d.info.stop = some text)
    (hnames : source.names = source'.names) (depth : Nat) (role : Role) :
    ((Counted.read source role c).runFrom depth).1.mapError Fault.cause =
      ((Counted.read source' role d).runFrom depth).1.mapError Fault.cause := by
  obtain ⟨hle, -, -⟩ := Source.slice?_eq_some htext
  have hbounds := hshifted.bounds
  let common : Common source source' := .ofSlices htext htext' (by omega) hnames
  have hstop : common.base + common.length = c.info.stop := Nat.add_sub_of_le hle
  have hshift : (common.base' - common.base : Int) = shift := by
    show (d.info.start - c.info.start : Int) = shift
    omega
  have hnode : common.Node c d := by
    refine ⟨?_, hshift ▸ hshifted⟩
    rw [hstop]
    exact .of_children hle hwithin
  -- As many rounds as both trees are high are enough for each.
  have hrounds := visit_agree_of_node common (max c.height d.height) depth role hnode
  rw [runFrom_read, runFrom_read, Reading.read, Reading.read,
    visit_eq_of_bare_eq rfl (Nat.le_refl _) (Nat.le_max_left c.height d.height),
    visit_eq_of_bare_eq rfl (Nat.le_refl _) (Nat.le_max_right c.height d.height)]
  exact hrounds.mapError_eq

/-- The literal `f'{a=}'` at an offset, on a line, in a column. -/
def labelled (offset row column : Nat) : Cst :=
  .sound "string" none true offset (offset + 7) row column [
    .sound "string_start" none true offset (offset + 2) row column [],
    .sound "interpolation" none true (offset + 2) (offset + 6) row (column + 2) [
      .sound "\x7b" none false (offset + 2) (offset + 3) row (column + 2) [],
      .sound "identifier" (some "expression") true (offset + 3) (offset + 4) row (column + 3) [],
      .sound "=" none false (offset + 4) (offset + 5) row (column + 4) [],
      .sound "\x7d" none false (offset + 5) (offset + 6) row (column + 5) []],
    .sound "string_end" none true (offset + 6) (offset + 7) row (column + 6) []]

/-- The literal alone. -/
def labelledSource : Source := .ofText CharacterName.noNames "f'\x7ba=\x7d'"

/-- The literal behind an assignment on the third line. -/
def assignedSource : Source := .ofText CharacterName.noNames "\n\né = f'\x7ba=\x7d'"

/-- What the literal is read as: it shows its own text. -/
def labelledTree : Tree :=
  .record "JoinedStr" [("values", .seq [
    .record "Constant" [("value", .str "a="), ("kind", .absent)],
    .record "FormattedValue" [
      ("value", .name "a" .load), ("conversion", .int 114), ("format_spec", .absent)]])]

/-- The literal says the same alone and behind an assignment on the third line. -/
theorem runFrom_read_labelled :
    ((Counted.read labelledSource (.expression .load) (labelled 0 0 0)).runFrom 0).1 =
      .ok labelledTree ∧
    ((Counted.read assignedSource (.expression .load) (labelled 7 2 5)).runFrom 0).1.mapError
      Fault.cause = .ok labelledTree := by
  have hshifted : (labelled 0 0 0).Shifted 7 (labelled 7 2 5) := by
    refine .node rfl rfl (.cons ?_ (.cons ?_ (.cons ?_ .nil)))
    · exact .node rfl rfl .nil
    · refine .node rfl rfl (.cons ?_ (.cons ?_ (.cons ?_ (.cons ?_ .nil))))
      all_goals exact .node rfl rfl .nil
    · exact .node rfl rfl .nil
  have hleaf (kind : String) (field : Option String) (isNamed : Bool) (start stop column : Nat)
      (hstart : start ≤ 7) (hstop : stop ≤ 7) :
      Cst.Within 0 7 (.sound kind field isNamed start stop 0 column []) :=
    .node ⟨Nat.zero_le _, hstart⟩ ⟨Nat.zero_le _, hstop⟩ nofun
  have hwithin : ∀ child ∈ (labelled 0 0 0).children, child.Within 0 7 := by
    intro child hchild
    simp only [labelled, Cst.sound, Cst.children, List.mem_cons, List.not_mem_nil,
      or_false] at hchild
    rcases hchild with rfl | rfl | rfl
    · exact hleaf _ _ _ _ _ _ (by decide) (by decide)
    · refine .node ⟨by decide, by decide⟩ ⟨by decide, by decide⟩ fun child hchild => ?_
      simp only [List.mem_cons, List.not_mem_nil, or_false] at hchild
      rcases hchild with rfl | rfl | rfl | rfl
      all_goals exact hleaf _ _ _ _ _ _ (by decide) (by decide)
    · exact hleaf _ _ _ _ _ _ (by decide) (by decide)
  have hread :
      ((Counted.read labelledSource (.expression .load) (labelled 0 0 0)).runFrom 0).1 =
        .ok labelledTree := by decide +kernel
  have htext : labelledSource.slice? 0 7 = some "f'\x7ba=\x7d'" := rfl
  have htext' : assignedSource.slice? 7 14 = some "f'\x7ba=\x7d'" := by
    decide +kernel
  refine ⟨hread, ?_⟩
  rw [← runFrom_read_of_shifted hshifted hwithin htext htext' rfl, hread]
  rfl

end Counted

end Reading

end TreeText
