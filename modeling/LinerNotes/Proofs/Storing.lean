import LinerNotes.Proofs.Digits
import LinerNotes.Proofs.Frames
import LinerNotes.Tags.Container

/-!
Values that every form of tags can store. Such a value is read as it was written, whatever the form
and whatever was there before, and the other fields read as before.
-/

namespace LinerNotes

open LinerNotes.Text

namespace Field

/-- Whether a value can be stored for a field in every form of tags: text without the null character
for a text field, a track that fits two bytes, a year of four digits, and any value that clears. -/
def Stores (field : Field) : Value → Prop
  | .absent => True
  | .text s => s = "" ∨ field.isNumeric = false ∧ '\x00' ∉ s.toList
  | .number n => n = 0 ∨ field = .track ∧ 0 ≤ n ∧ n ≤ 65535 ∨ field = .year ∧ 1000 ≤ n ∧ n ≤ 9999

instance (field : Field) (value : Value) : Decidable (field.Stores value) :=
  match value with
  | .absent => inferInstanceAs (Decidable True)
  | .text _ => inferInstanceAs (Decidable (_ ∨ _))
  | .number _ => inferInstanceAs (Decidable (_ ∨ _))

/-- What a field reads as after a value was written: an empty value clears it. -/
def kept (field : Field) (value : Value) : Value :=
  if value.isEmpty then field.emptyValue else value

theorem valueOfTag_none (field : Field) : field.valueOfTag none = .ok field.emptyValue := by
  cases field <;> rfl

theorem valueOfTag_text {field : Field} (hnumeric : field.isNumeric = false)
    (stored : Option String) :
    field.valueOfTag stored =
      .ok (if stored.getD "" = "" then .absent else .text (stored.getD "")) := by
  cases field <;> simp_all [valueOfTag, isNumeric]

theorem valueOfTag_number {field : Field} (hnumeric : field.isNumeric = true)
    {stored : Option String} {value : Value} (h : field.valueOfTag stored = .ok value) :
    ∃ n, value = .number n := by
  cases field with
  | track =>
      simp only [valueOfTag] at h
      cases hleading : Numeral.leading (stored.getD "").toList with
      | error cause => simp [hleading] at h
      | ok n =>
          rw [hleading] at h
          cases h
          exact ⟨n, rfl⟩
  | year =>
      cases h
      exact ⟨_, rfl⟩
  | _ => cases hnumeric

theorem kept_of_valueOfTag {field : Field} {stored : Option String} {value : Value}
    (h : field.valueOfTag stored = .ok value) : field.kept value = value := by
  unfold kept
  split
  · rename_i hempty
    cases hnumeric : field.isNumeric with
    | true =>
        obtain ⟨n, rfl⟩ := valueOfTag_number hnumeric h
        have hn : n = 0 := beq_iff_eq.mp hempty
        simp [emptyValue, hnumeric, hn]
    | false =>
        rw [valueOfTag_text hnumeric] at h
        cases h
        split at hempty
        · rename_i hnone
          simp [emptyValue, hnumeric, hnone]
        · rename_i hsome
          exact absurd (beq_iff_eq.mp hempty) hsome
  · rfl

end Field

namespace Timestamp

theorem piecesFrom_of_plain {s : List Char}
    (h : ∀ c ∈ s, isBlank c = false ∧ isSeparator c = false) : piecesFrom false s = [s] := by
  induction s with
  | nil => rfl
  | cons c rest ih =>
      have hrest := ih fun d hd => h d (List.mem_cons_of_mem c hd)
      obtain ⟨hblank, hseparator⟩ := h c (by simp)
      simp [piecesFrom, hblank, hseparator, hrest]

theorem digitChars_length_of_year {n : Int} (hlow : 1000 ≤ n) (hhigh : n ≤ 9999) :
    (Numeral.digitChars n).length = 4 := by
  have hfour : (Numeral.digitChars n).length ≤ 4 := by
    rw [Numeral.digitChars_length_le_iff (by decide)]
    omega
  have hthree : ¬ (Numeral.digitChars n).length ≤ 3 := by
    rw [Numeral.digitChars_length_le_iff (by decide)]
    omega
  omega

theorem normalised_text {n : Int} (hnonneg : 0 ≤ n)
    (hlength : (Numeral.digitChars n).length ≤ Numeral.digitLimit) :
    normalised (Numeral.text n) = String.ofList (Numeral.paddedChars 4 n) := by
  have hplain : ∀ c ∈ Numeral.digitChars n, isBlank c = false ∧ isSeparator c = false := by
    intro c hc
    have hdigit := Numeral.isDigit_of_mem_digitChars hc
    have hseparator := of_isDigit (fun c => !isSeparator c) (by decide +kernel) hdigit
    refine ⟨not_isBlank_of_isDecimalDigit (isDecimalDigit_of_isDigit hdigit), ?_⟩
    simpa using hseparator
  have hread := Numeral.read_of_digits (Numeral.digitChars_ne_nil n)
    (fun c hc => isDecimalDigit_of_isDigit (Numeral.isDigit_of_mem_digitChars hc)) hlength
  rw [Numeral.decimalValue_digitChars, Int.natAbs_of_nonneg hnonneg] at hread
  have hchars : Numeral.chars n = Numeral.digitChars n := Numeral.chars_of_nonneg hnonneg
  simp [normalised, Numeral.text, hchars, piecesFrom_of_plain hplain, numbers, hread, chars, layout]

theorem normalised_of_neg {n : Int} (h : n < 0) : normalised (Numeral.text n) = "" := by
  have hpieces : piecesFrom false ('-' :: Numeral.digitChars n) =
      [] :: piecesFrom false (Numeral.digitChars n) := by
    have hblank : isBlank '-' = false := by decide
    simp [piecesFrom, hblank, isSeparator]
  have hread : Numeral.read (String.ofList []) = .error (.malformed "") := by decide
  simp [normalised, Numeral.text, Numeral.chars_of_neg h, hpieces, numbers, hread, chars, layout]

theorem normalised_year {n : Int} (hlow : 1000 ≤ n) (hhigh : n ≤ 9999) :
    normalised (Numeral.text n) = Numeral.text n := by
  have hnonneg : 0 ≤ n := by omega
  have hlength := digitChars_length_of_year hlow hhigh
  have hpadded : Numeral.paddedChars 4 n = Numeral.digitChars n := by
    rw [Numeral.paddedChars_of_nonneg 4 hnonneg, hlength]
    rfl
  rw [normalised_text hnonneg (by rw [hlength]; decide), hpadded, Numeral.text,
    Numeral.chars_of_nonneg hnonneg]

end Timestamp

namespace Field

theorem Stores.cases {field : Field} {value : Value} (h : field.Stores value)
    (hne : value.isEmpty = false) :
    (∃ s, value = .text s ∧ s ≠ "" ∧ field.isNumeric = false ∧ '\x00' ∉ s.toList) ∨
    (∃ n, value = .number n ∧ field = .track ∧ 0 < n ∧ n ≤ 65535) ∨
    (∃ n, value = .number n ∧ field = .year ∧ 1000 ≤ n ∧ n ≤ 9999) := by
  cases value with
  | absent => simp [Value.isEmpty] at hne
  | text s =>
      have hs : s ≠ "" := by simpa [Value.isEmpty] using hne
      rcases h with rfl | ⟨hnumeric, hnul⟩
      · exact absurd rfl hs
      · exact .inl ⟨s, rfl, hs, hnumeric, hnul⟩
  | number n =>
      have hn : n ≠ 0 := by simpa [Value.isEmpty] using hne
      rcases h with rfl | ⟨hfield, hlow, hhigh⟩ | ⟨hfield, hlow, hhigh⟩
      · exact absurd rfl hn
      · exact .inr (.inl ⟨n, rfl, hfield, by omega, hhigh⟩)
      · exact .inr (.inr ⟨n, rfl, hfield, hlow, hhigh⟩)

theorem Stores.track {value : Value} (h : Field.track.Stores value) (hne : value.isEmpty = false) :
    ∃ n, value = .number n ∧ 0 < n ∧ n ≤ 65535 := by
  rcases h.cases hne with ⟨s, -, -, hnumeric, -⟩ | ⟨n, hn, -, hlow, hhigh⟩ | ⟨n, -, hyear, -⟩
  · cases hnumeric
  · exact ⟨n, hn, hlow, hhigh⟩
  · cases hyear

theorem content_text {field : Field} (hnumeric : field.isNumeric = false) (s : String) :
    field.content (.text s) = .ok (.text s) := by
  simp [content, hnumeric, Value.write]

theorem content_number {field : Field} {n : Int} (hnumeric : field.isNumeric = true)
    (hlength : (Numeral.digitChars n).length ≤ Numeral.digitLimit) :
    field.content (.number n) = .ok (.number n) := by
  have hwrite := Numeral.write_of_length_le 1 hlength
  simp only [content, hnumeric, if_true, Value.toInt, bind, Except.bind, hwrite]
  rfl

theorem digitChars_length_of_le {n : Int} (hlow : 0 ≤ n) (hhigh : n ≤ 65535) :
    (Numeral.digitChars n).length ≤ 5 := by
  rw [Numeral.digitChars_length_le_iff (by decide)]
  omega

theorem Stores.content {field : Field} {value : Value} (h : field.Stores value)
    (hne : value.isEmpty = false) :
    ∃ content, field.content value = .ok content ∧
      field.valueOfTag (some content.shown) = .ok value := by
  rcases h.cases hne with ⟨s, rfl, hs, hnumeric, -⟩ | ⟨n, rfl, rfl, hlow, hhigh⟩ |
    ⟨n, rfl, rfl, hlow, hhigh⟩
  · refine ⟨.text s, content_text hnumeric s, ?_⟩
    simp [valueOfTag_text hnumeric, Content.shown, hs]
  · have hnonneg : 0 ≤ n := by omega
    have hlength := digitChars_length_of_le hnonneg hhigh
    have hlimit : (Numeral.digitChars n).length ≤ Numeral.digitLimit :=
      hlength.trans (by decide)
    refine ⟨.number n, content_number rfl hlimit, ?_⟩
    have hleading := Numeral.leading_of_digits
      (fun c hc => isDecimalDigit_of_isDigit (Numeral.isDigit_of_mem_digitChars hc)) hlimit
    rw [Numeral.decimalValue_digitChars, Int.natAbs_of_nonneg hnonneg] at hleading
    simp only [valueOfTag, Option.getD_some, Content.shown, Numeral.text, String.toList_ofList,
      Numeral.chars_of_nonneg hnonneg, hleading]
    rfl
  · have hnonneg : 0 ≤ n := by omega
    have hlength := Timestamp.digitChars_length_of_year hlow hhigh
    refine ⟨.number n, content_number rfl (by rw [hlength]; decide), ?_⟩
    have hleading := Numeral.leadingFixed_of_digits
      fun c (hc : c ∈ Numeral.digitChars n) =>
        isDecimalDigit_of_isDigit (Numeral.isDigit_of_mem_digitChars hc)
    rw [Numeral.decimalValue_digitChars, Int.natAbs_of_nonneg hnonneg, hlength] at hleading
    simp only [valueOfTag, Option.getD_some, Content.shown, Numeral.text, String.toList_ofList,
      Numeral.chars_of_nonneg hnonneg, hleading]

end Field

end LinerNotes
