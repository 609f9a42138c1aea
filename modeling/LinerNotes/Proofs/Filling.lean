import LinerNotes.Proofs.Cleaning
import LinerNotes.Proofs.Digits
import LinerNotes.Proofs.Lowering
import LinerNotes.Proofs.Rendering
import LinerNotes.Sheet
import LinerNotes.Spec.Reading

/-!
What a placeholder becomes. A value of the kind that its field holds always has a text, and the
digits of a number come through lowercasing and cleaning unchanged.
-/

namespace LinerNotes

open LinerNotes.Text

namespace Field

/-- Whether a value is of the kind that a field holds: an integer, or text that may be missing. -/
def Holds (field : Field) : Value → Prop
  | .number _ => field.isNumeric = true
  | _ => field.isNumeric = false

/-- The text that a name shows for a value: nothing if the field is absent, and the digits of an
integer up to the field's width. -/
def nameText (field : Field) (value : Value) : String :=
  if value.isEmpty then ""
  else
    match value with
    | .absent => ""
    | .text s => s
    | .number n => String.ofList (Numeral.paddedChars field.width n)

theorem format_of_holds {field : Field} {value : Value} (hkind : field.Holds value)
    (hlength : ∀ n, value = .number n → (Numeral.digitChars n).length ≤ Numeral.digitLimit) :
    field.format value = .ok (.text (field.nameText value)) := by
  unfold format nameText
  split
  · rfl
  · cases value with
    | absent => simp_all [Value.isEmpty]
    | text s =>
        have hnumeric : field.isNumeric = false := hkind
        simp [hnumeric]
    | number n =>
        have hnumeric : field.isNumeric = true := hkind
        have hwrite := Numeral.write_of_length_le field.width (hlength n rfl)
        simp only [hnumeric, Bool.not_true, Bool.false_eq_true, if_false, Value.toInt]
        exact congrArg (fun written => Value.text <$> written) hwrite

variable {field : Field} {n : Int}

theorem nameText_number (hne : n ≠ 0) :
    field.nameText (.number n) = String.ofList (Numeral.paddedChars field.width n) := by
  simp [nameText, Value.isEmpty, hne]

theorem width_le (field : Field) : field.width ≤ Numeral.digitLimit := by
  cases field <;> decide

theorem captured_paddedChars (hnumeric : field.isNumeric = true)
    (hlength : (Numeral.digitChars n).length ≤ Numeral.digitLimit) :
    Spec.captured field (Numeral.paddedChars field.width n) = .ok (.number n) := by
  rw [Spec.captured, if_pos hnumeric, Numeral.read_paddedChars field.width_le hlength]
  rfl

end Field

namespace Spec

theorem fieldText_of_holds {lookUp : Field → Except Failure Value} {field : Field} {value : Value}
    (hlookUp : lookUp field = .ok value) (hkind : field.Holds value)
    (hlength : ∀ n, value = .number n → (Numeral.digitChars n).length ≤ Numeral.digitLimit) :
    fieldText lookUp field = .ok (field.nameText value) :=
  fieldText_eq_ok_iff.mpr ⟨value, hlookUp, Field.format_of_holds hkind hlength⟩

/-- The text that stands for a placeholder in a name written from a sheet. -/
def replacement (hazard : Option Hazard) (sheet : Sheet) (p : Placeholder) : List Char :=
  filled hazard p (p.field.nameText (sheet p.field))

theorem render_of_holds {spec : Spec} {lookUp : Field → Except Failure Value} {sheet : Sheet}
    (hazard : Option Hazard)
    (hlookUp : ∀ p ∈ spec.placeholders, lookUp p.field = .ok (sheet p.field))
    (hkind : ∀ p ∈ spec.placeholders, p.field.Holds (sheet p.field))
    (hlength : ∀ p ∈ spec.placeholders, ∀ n, sheet p.field = .number n →
      (Numeral.digitChars n).length ≤ Numeral.digitLimit) :
    spec.render hazard lookUp = .ok (String.ofList (spell spec.tokens
      (spec.placeholders.map (replacement hazard sheet)))) := by
  let text : Field → String := fun field => field.nameText (sheet field)
  have htext : ∀ p ∈ spec.placeholders, fieldText lookUp p.field = .ok (text p.field) :=
    fun p hp => fieldText_of_holds (hlookUp p hp) (hkind p hp) (hlength p hp)
  have hrender := render_of_texts hazard htext
  exact hrender

theorem replacement_ne_nil (hazard : Option Hazard) (sheet : Sheet) (p : Placeholder) :
    replacement hazard sheet p ≠ [] :=
  Hazard.clean_ne_nil _ _ _

end Spec

theorem Text.lowerChars_of_digits {s : List Char} (h : ∀ c ∈ s, c.isDigit = true) :
    lowerChars s = s :=
  lowerChars_of_isLowered fun c hc => of_isDigit isLowered (by decide +kernel) (h c hc)

theorem Hazard.not_holdsFor_of_isDigit (hazard : Option Hazard) {c : Char}
    (h : c.isDigit = true) : holdsFor hazard c = false := by
  have hdigit : (!holdsFor hazard c) = true := by
    rcases hazard with _ | kind
    · rfl
    · cases kind with
      | shell => exact of_isDigit (fun c => !holdsFor (some .shell) c) (by decide +kernel) h
      | filesystem =>
          exact of_isDigit (fun c => !holdsFor (some .filesystem) c) (by decide +kernel) h
  simpa using hdigit

namespace Spec

theorem isAlphanumeric_of_isDigit {c : Char} (h : c.isDigit = true) : isAlphanumeric c = true :=
  of_isDigit isAlphanumeric (by decide +kernel) h

theorem clean_of_digits (hazard : Option Hazard) {substitute : Option Char} {s : List Char}
    (hsubstitute : ∀ x ∈ substitute, isSubstitute x = true) (hne : s ≠ [])
    (h : ∀ c ∈ s, c.isDigit = true) : Hazard.clean hazard substitute.toList s = s := by
  apply Hazard.clean_of_harmless hne
  · intro hquote
    have := h _ hquote
    contradiction
  · intro c hc
    exact Hazard.not_holdsFor_of_isDigit hazard (h c hc)
  · intro x hx hmem
    have := hsubstitute x hx
    simp [isSubstitute, isAlphanumeric_of_isDigit (h x hmem)] at this

theorem filled_of_digits {hazard : Option Hazard} {p : Placeholder} {text : String}
    (hsubstitute : ∀ x ∈ p.substitute, isSubstitute x = true) (hne : text.toList ≠ [])
    (h : ∀ c ∈ text.toList, c.isDigit = true) : filled hazard p text = text.toList := by
  have hclean := clean_of_digits hazard hsubstitute hne h
  unfold filled
  cases p.letterCase with
  | preserve => exact hclean
  | downcase => simpa [lowerChars_of_digits h] using hclean

end Spec

end LinerNotes
