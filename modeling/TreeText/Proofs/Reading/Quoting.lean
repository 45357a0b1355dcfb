import TreeText.Proofs.Text.Brace
import TreeText.Proofs.Text.Escape
import TreeText.Reading.Literal

/-!
# Quoted texts are read back

Which characters of a text have to be written twice in a literal depends on its marks: a backslash
unless the literal is raw, and a brace if it is formatted (`Marks.quoted`). With any marks the
stretch of the source that holds the quoted text is cut into one piece, the text itself
(`Visitor.textPieces_quoted`).

Braces are undone before backslashes. Neither gets in the other's way, since each only takes
together what was written twice: after the braces no character but the backslash is still doubled,
and a text whose backslashes are doubled is decoded to itself (`decodeEscapesBy_doubled`). So a text
that looks like an escape, by a name in braces for instance, is read as the text that it is, and
what names stand for does not matter.
-/

namespace TreeText

/-- A doubled backslash stands for one, and all other characters stand for themselves. -/
theorem decodeEscapesBy_doubled (names : CharacterName.Lookup) (bytes : Bool) (text : List Char) :
    decodeEscapesBy names bytes (doubled (· == '\\') text) = .ok text := by
  induction text with
  | nil => exact decodeEscapesBy.eq_1 names bytes
  | cons c text ih =>
    by_cases hc : c = '\\'
    · subst hc
      have hunit : Escape.unit names bytes '\\' (doubled (· == '\\') text) =
          .ok (['\\'], doubled (· == '\\') text) := Escape.unit_letter (by decide)
      rw [doubled_cons_of_twice rfl, decodeEscapesBy_of_unit hunit, ih]
      rfl
    · have honce : doubled (· == '\\') (c :: text) = c :: doubled (· == '\\') text := by
        apply doubled_cons_of_once
        exact beq_eq_false_iff_ne.mpr hc
      rw [honce, decodeEscapesBy_cons hc, ih]
      rfl

namespace Marks

/-- Whether a character is written twice in a literal with these marks. -/
def writtenTwice (marks : Marks) (c : Char) : Bool :=
  (c == '\\' && !marks.raw) || ((c == '{' || c == '}') && marks.formatted)

/-- A text as it is quoted in a literal with these marks. -/
def quoted (marks : Marks) (text : List Char) : List Char :=
  doubled marks.writtenTwice text

variable {marks : Marks}

/-- Without the braces only backslashes are written twice. -/
theorem writtenTwice_of_not_brace (c : Char) :
    (marks.writtenTwice c && c != '{' && c != '}') = (c == '\\' && !marks.raw) := by
  unfold writtenTwice
  by_cases hopening : c = '{'
  · subst hopening
    cases marks.formatted <;> rfl
  · by_cases hclosing : c = '}'
    · subst hclosing
      cases marks.formatted <;> rfl
    · rw [bne_iff_ne.mpr hopening, bne_iff_ne.mpr hclosing, beq_eq_false_iff_ne.mpr hopening,
        beq_eq_false_iff_ne.mpr hclosing]
      simp

/-- Once the braces are undone, backslashes are left, with any marks. -/
theorem withSingleBraces_quoted (text : List Char) :
    (if marks.formatted then withSingleBraces (marks.quoted text) else marks.quoted text) =
      doubled (fun c => c == '\\' && !marks.raw) text := by
  cases hformatted : marks.formatted with
  | true =>
    have hopening : marks.writtenTwice '{' = true := by
      rw [writtenTwice, hformatted]
      rfl
    have hclosing : marks.writtenTwice '}' = true := by
      rw [writtenTwice, hformatted]
      rfl
    rw [if_pos rfl, quoted, withSingleBraces_doubled hopening hclosing]
    congr 1
    funext c
    exact writtenTwice_of_not_brace c
  | false =>
    show doubled marks.writtenTwice text = _
    congr 1
    funext c
    rw [writtenTwice, hformatted, Bool.and_false, Bool.or_false]

/-- What is quoted is decoded to itself. -/
theorem decode_quoted (names : CharacterName.Lookup) (text : List Char) :
    marks.decode names (marks.quoted text) = .ok text := by
  unfold decode
  rw [withSingleBraces_quoted]
  cases hraw : marks.raw with
  | true =>
    have honce : ∀ c : Char, (c == '\\' && !true) = false := fun c => Bool.and_false _
    rw [if_pos rfl, doubled_of_forall_once honce]
  | false =>
    have htwice : (fun c : Char => c == '\\' && !false) = (· == '\\') := by
      funext c
      exact Bool.and_true _
    rw [if_neg Bool.false_ne_true, htwice]
    exact decodeEscapesBy_doubled names marks.bytes text

end Marks

namespace Visitor

variable {m : Type → Type} [Monad m] [MonadExceptOf Fault m]

/-- **Literal text survives quoting with any marks.** Where a text stands quoted in the source, the
text itself is the one piece that is cut out, whatever it consists of. -/
theorem textPieces_quoted (v : Visitor m) (literal : Cst) (marks : Marks) (text : String)
    {start stop : Nat} (hslice : v.source.slice? start stop =
      some (String.ofList (marks.quoted text.toList))) :
    v.textPieces literal marks start stop = pure [.text text] := by
  unfold textPieces
  rw [hslice]
  dsimp only
  rw [String.toList_ofList, Marks.decode_quoted]
  dsimp only
  rw [String.ofList_toList]

/-- A formatted literal of a backslash, the letter N and a name in braces. -/
def nameSource : Source := .ofText CharacterName.noNames "f'\\\\N\x7b\x7ba\x7d\x7d'"

/-- A visitor of this source that reads no part of it. -/
def nameVisitor : Visitor Reading.Result := ⟨nameSource, fun _ _ => .ok .absent⟩

/-- The marks of a formatted literal. -/
def formattedMarks : Marks := ⟨false, false, true, false⟩

/-- Quoted, the text looks like an escape by name, but is none. -/
theorem textPieces_quoted_name :
    nameVisitor.source.slice? 2 10 =
      some (String.ofList (formattedMarks.quoted "\\N\x7ba\x7d".toList)) ∧
    nameVisitor.textPieces default formattedMarks 2 10 = .ok [.text "\\N\x7ba\x7d"] := by
  have hslice : nameVisitor.source.slice? 2 10 =
      some (String.ofList (formattedMarks.quoted "\\N\x7ba\x7d".toList)) := by
    decide +kernel
  exact ⟨hslice, textPieces_quoted nameVisitor default formattedMarks _ hslice⟩

end Visitor

end TreeText
