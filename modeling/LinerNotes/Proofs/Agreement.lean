import LinerNotes.Input
import LinerNotes.Proofs.WrittenForm

/-!
Writing numbers and reading them. The text that a name shows for a number is read as that number in
whatever way it is read: typed by a user, captured from a name or found at the front of a tag.
Cleaning does not touch it.
-/

namespace LinerNotes

open LinerNotes.Text

theorem Text.trimmed_of_kept {drop : Char → Bool} {s : List Char} (h : ∀ c ∈ s, drop c = false) :
    trimmed drop s = s := by
  have hkept : ∀ {s : List Char}, (∀ c ∈ s, drop c = false) → s.dropWhile drop = s := by
    intro s h
    cases s with
    | nil => rfl
    | cons c rest => rw [List.dropWhile_cons_of_neg (by simp [h c List.mem_cons_self])]
  rw [trimmed, hkept h, hkept fun c hc => h c (List.mem_reverse.mp hc), List.reverse_reverse]

namespace Numeral

variable {width : Nat} {n : Int}

theorem not_isBlank_of_mem_paddedChars {c : Char} (hc : c ∈ paddedChars width n) :
    isBlank c = false := by
  obtain ⟨row, hrow, -, hdigits, -⟩ := exists_row width n
  rw [hrow, List.mem_append] at hc
  rcases hc with hsign | hdigit
  · have hminus : c = '-' := by
      unfold signChars at hsign
      split at hsign
      · exact List.mem_singleton.mp hsign
      · cases hsign
    rw [hminus]
    decide
  · exact not_isBlank_of_isDecimalDigit (isDecimalDigit_of_isDigit (hdigits c hdigit))

theorem isPlainNumeral_paddedChars (width : Nat) (n : Int) :
    isPlainNumeral (paddedChars width n) = true := by
  obtain ⟨row, hrow, hne, hdigits, -⟩ := exists_row width n
  have hascii : ∀ c ∈ row, ('0' ≤ c && c ≤ '9') = true := fun c hc =>
    of_isDigit (fun c => '0' ≤ c && c ≤ '9') (by decide) (hdigits c hc)
  rw [isPlainNumeral, hrow,
    splitSign_append n hne fun c hc => isDecimalDigit_of_isDigit (hdigits c hc)]
  simp only [Bool.and_eq_true, bne_iff_ne, List.all_eq_true]
  exact ⟨hne, fun c hc => Bool.and_eq_true_iff.mp (hascii c hc)⟩

end Numeral

namespace Field

variable {field : Field} {n : Int}

theorem format_number (hnumeric : field.isNumeric = true) (hne : n ≠ 0)
    (hlength : (Numeral.digitChars n).length ≤ Numeral.digitLimit) :
    field.format (.number n) = .ok (.text (String.ofList (Numeral.paddedChars field.width n))) := by
  rw [← nameText_number hne]
  refine format_of_holds hnumeric fun other hother => ?_
  cases hother
  exact hlength

theorem parse_paddedChars (hnumeric : field.isNumeric = true)
    (hlength : (Numeral.digitChars n).length ≤ Numeral.digitLimit) :
    field.parse (String.ofList (Numeral.paddedChars field.width n)) = .ok (.number n) := by
  have hbody : trimmed isBlank (Numeral.paddedChars field.width n) =
      Numeral.paddedChars field.width n :=
    trimmed_of_kept fun c hc => Numeral.not_isBlank_of_mem_paddedChars hc
  have hread := Numeral.read_paddedChars field.width_le hlength
  have hplain := Numeral.isPlainNumeral_paddedChars field.width n
  simp [parse, hnumeric, hbody, hplain, hread, Failure.ofNumeral, Except.mapError]

/-- What a name shows for a number is read as that number wherever a number is read. The user may
type it, and if the number is positive, it is a row of digits that no cleaning by a spec changes,
and both a name that holds it and a tag that begins with it give the number back. -/
theorem parse_format (hnumeric : field.isNumeric = true) (hne : n ≠ 0)
    (hlength : (Numeral.digitChars n).length ≤ Numeral.digitLimit) :
    ∃ text, field.format (.number n) = .ok (.text text) ∧ field.parse text = .ok (.number n) ∧
      (0 < n → text ≠ "" ∧ (∀ c ∈ text.toList, c.isDigit = true) ∧
        (∀ source spec, Spec.read source = .ok spec → ∀ p ∈ spec.placeholders, ∀ hazard,
          Hazard.clean hazard p.substitute.toList text.toList = text.toList) ∧
        Spec.captured field text.toList = .ok (.number n) ∧
        Numeral.leading text.toList = .ok n) := by
  refine ⟨_, format_number hnumeric hne hlength, parse_paddedChars hnumeric hlength, ?_⟩
  intro hpositive
  have hdigits : ∀ c ∈ Numeral.paddedChars field.width n, c.isDigit = true :=
    fun c hc => Numeral.isDigit_of_mem_paddedChars hpositive.le hc
  have hfilled := Numeral.paddedChars_ne_nil field.width n
  rw [String.toList_ofList]
  refine ⟨?_, hdigits, ?_, captured_paddedChars hnumeric hlength, ?_⟩
  · intro hempty
    rw [← String.toList_inj, String.toList_ofList] at hempty
    exact hfilled hempty
  · intro source spec hspec p hp hazard
    exact Spec.clean_of_digits hazard (Spec.isSubstitute_of_read hspec p hp) hfilled hdigits
  · have hshort : (Numeral.paddedChars field.width n).length ≤ Numeral.digitLimit := by
      rw [Numeral.paddedChars_length _ hpositive.le]
      exact max_le field.width_le hlength
    have hleading :=
      Numeral.leading_of_digits (fun c hc => isDecimalDigit_of_isDigit (hdigits c hc)) hshort
    rw [hleading, Numeral.decimalValue_paddedChars _ hpositive.le,
      Int.natAbs_of_nonneg hpositive.le]

theorem parse_format_seven :
    Field.track.format (.number (-7)) = .ok (.text "-7") ∧
      Field.track.parse "-7" = .ok (.number (-7)) ∧
      Field.track.format (.number 7) = .ok (.text "07") ∧
      Field.track.parse "07" = .ok (.number 7) ∧
      Spec.read "%-n" = .ok ⟨"%-n", [.placeholder ⟨.track, some '-', .downcase⟩]⟩ ∧
      Hazard.clean (some .shell) ['-'] "07".toList = "07".toList ∧
      Spec.captured .track "07".toList = .ok (.number 7) ∧
      Numeral.leading "07".toList = .ok 7 := by
  have hbelow : Field.track.format (.number (-7)) = .ok (.text "-7") := by decide +kernel
  have habove : Field.track.format (.number 7) = .ok (.text "07") := by decide +kernel
  have hspec : Spec.read "%-n" = .ok ⟨"%-n", [.placeholder ⟨.track, some '-', .downcase⟩]⟩ := by
    decide +kernel
  obtain ⟨_, hformat, hparse, -⟩ := @parse_format .track (-7) rfl (by decide) (by decide)
  rw [hbelow] at hformat
  cases hformat
  obtain ⟨_, hformat, hparse', hpositive⟩ := @parse_format .track 7 rfl (by decide) (by decide)
  rw [habove] at hformat
  cases hformat
  obtain ⟨-, -, hclean, hcaptured, hleading⟩ := hpositive (by decide)
  exact ⟨hbelow, hparse, habove, hparse', hspec,
    hclean _ _ hspec _ List.mem_cons_self (some .shell), hcaptured, hleading⟩

end Field

end LinerNotes
