import Mathlib.Data.List.TakeWhile
import Mathlib.Tactic.IntervalCases
import Mathlib.Tactic.Ring
import LinerNotes.Numeral

/-!
Digits and the numbers they write. A decimal digit of any script is no white space, no sign and no
underscore, so a row of digits is read as it stands; and the digits that a number is written with
are read as that number.
-/

namespace LinerNotes.Text

theorem blank_cases {n : Nat} (h : covers blankRanges n = true) :
    (9 ≤ n ∧ n ≤ 13) ∨ (28 ≤ n ∧ n ≤ 32) ∨ n = 133 ∨ n = 160 ∨ n = 5760 ∨
      (8192 ≤ n ∧ n ≤ 8202) ∨ (8232 ≤ n ∧ n ≤ 8233) ∨ n = 8239 ∨ n = 8287 ∨ n = 12288 := by
  simp only [blankRanges, covers] at h
  grind

theorem not_isBlank_of_isDecimalDigit {c : Char} (h : isDecimalDigit c = true) :
    isBlank c = false := by
  rw [Bool.eq_false_iff]
  intro hblank
  have hnone : digitValueFrom digitZeros c.toNat = none := by
    have hcases := blank_cases hblank
    generalize c.toNat = n at hcases
    rcases hcases with h | h | rfl | rfl | rfl | h | h | rfl | rfl | rfl
    all_goals try rfl
    all_goals
      obtain ⟨hlow, hhigh⟩ := h
      interval_cases n <;> rfl
  simp [isDecimalDigit, digitValue?, hnone] at h

theorem ne_of_isDecimalDigit {c other : Char} (h : isDecimalDigit c = true)
    (hother : isDecimalDigit other = false) : c ≠ other := by
  rintro rfl
  simp [h] at hother

theorem range_of_isDigit {c : Char} (h : c.isDigit = true) : 48 ≤ c.toNat ∧ c.toNat ≤ 57 := by
  simpa [Char.isDigit, UInt32.le_iff_toNat_le] using h

theorem of_isDigit (holds : Char → Bool)
    (hall : ['0', '1', '2', '3', '4', '5', '6', '7', '8', '9'].all holds = true) {c : Char}
    (h : c.isDigit = true) : holds c = true := by
  apply List.all_eq_true.mp hall
  obtain ⟨hlow, hhigh⟩ := range_of_isDigit h
  rw [← Char.ofNat_toNat c]
  generalize c.toNat = n at hlow hhigh
  interval_cases n <;> decide

theorem digitValue?_of_isDigit {c : Char} (h : c.isDigit = true) :
    digitValue? c = some (c.toNat - 48) := by
  have hrange := range_of_isDigit h
  have hlow : ¬ c.toNat < 48 := by omega
  have hhigh : c.toNat < 58 := by omega
  simp [digitValue?, digitZeros, digitValueFrom, hlow, hhigh]

theorem isDecimalDigit_of_isDigit {c : Char} (h : c.isDigit = true) :
    isDecimalDigit c = true := by
  simp [isDecimalDigit, digitValue?_of_isDigit h]

theorem digit_lt_ten (c : Char) : (digitValue? c).getD 0 < 10 := by
  cases h : digitValue? c with
  | none => simp
  | some d => simpa using digitValueFrom_lt_ten h

theorem foldl_digits (digits : List Char) (start : Nat) :
    digits.foldl (fun value c => 10 * value + (digitValue? c).getD 0) start =
      10 ^ digits.length * start + decimalValue digits := by
  induction digits generalizing start with
  | nil => simp [decimalValue]
  | cons c digits ih =>
      have htail := ih ((digitValue? c).getD 0)
      simp only [decimalValue, List.foldl_cons, Nat.mul_zero, Nat.zero_add] at htail ⊢
      rw [ih, htail]
      simp only [decimalValue, List.length_cons, pow_succ]
      ring

theorem decimalValue_append (front back : List Char) :
    decimalValue (front ++ back) = 10 ^ back.length * decimalValue front + decimalValue back := by
  rw [← foldl_digits, decimalValue, List.foldl_append]
  rfl

theorem decimalValue_lt (digits : List Char) : decimalValue digits < 10 ^ digits.length := by
  induction digits with
  | nil => simp [decimalValue]
  | cons c digits ih =>
      have hc := digit_lt_ten c
      have hcons : decimalValue (c :: digits) =
          10 ^ digits.length * (digitValue? c).getD 0 + decimalValue digits := by
        rw [← foldl_digits]
        simp [decimalValue]
      calc
        decimalValue (c :: digits) < 10 ^ digits.length * ((digitValue? c).getD 0 + 1) := by
          rw [hcons, Nat.mul_add]
          omega
        _ ≤ 10 ^ digits.length * 10 := Nat.mul_le_mul_left _ (by omega)
        _ = 10 ^ (c :: digits).length := by simp [pow_succ]

theorem decimalValue_take (width : Nat) (digits : List Char) :
    decimalValue (digits.take width) = decimalValue digits / 10 ^ (digits.length - width) := by
  have hback := decimalValue_lt (digits.drop width)
  have hsplit := decimalValue_append (digits.take width) (digits.drop width)
  rw [List.length_drop] at hback
  rw [List.take_append_drop, List.length_drop] at hsplit
  rw [hsplit, Nat.mul_add_div (Nat.pow_pos (by decide)), Nat.div_eq_of_lt hback, Nat.add_zero]

theorem decimalValue_eq_ofDigitChars {digits : List Char} (h : ∀ c ∈ digits, c.isDigit = true) :
    decimalValue digits = Nat.ofDigitChars 10 digits 0 := by
  have hfold : ∀ start, digits.foldl (fun value c => 10 * value + (digitValue? c).getD 0) start =
      Nat.ofDigitChars 10 digits start := by
    intro start
    induction digits generalizing start with
    | nil => rfl
    | cons c digits ih =>
        have hc := digitValue?_of_isDigit (h c (by simp))
        have htail := ih fun d hd => h d (by simp [hd])
        simp [Nat.ofDigitChars_cons, hc, htail]
  exact hfold 0

end LinerNotes.Text

namespace LinerNotes.Numeral

open LinerNotes.Text

theorem isDigit_of_mem_digitChars {n : Int} {c : Char} (h : c ∈ digitChars n) : c.isDigit = true :=
  Nat.isDigit_of_mem_toDigits (by decide) (by decide) h

theorem digitChars_ne_nil (n : Int) : digitChars n ≠ [] :=
  Nat.toDigits_ne_nil

theorem decimalValue_digitChars (n : Int) : decimalValue (digitChars n) = n.natAbs := by
  rw [decimalValue_eq_ofDigitChars fun c hc => isDigit_of_mem_digitChars hc]
  exact Nat.ofDigitChars_ten_toDigits

theorem digitChars_length_le_iff {n : Int} {k : Nat} (hk : 0 < k) :
    (digitChars n).length ≤ k ↔ n.natAbs < 10 ^ k :=
  Nat.length_toDigits_le_iff (by decide) hk

theorem isDigit_of_mem_zeros {k : Nat} {n : Int} {c : Char}
    (hc : c ∈ List.replicate k '0' ++ digitChars n) : c.isDigit = true := by
  rcases List.mem_append.mp hc with hzero | hdigit
  · rw [List.eq_of_mem_replicate hzero]
    rfl
  · exact isDigit_of_mem_digitChars hdigit

theorem decimalValue_zeros (k : Nat) (n : Int) :
    decimalValue (List.replicate k '0' ++ digitChars n) = n.natAbs := by
  rw [decimalValue_eq_ofDigitChars fun c hc => isDigit_of_mem_zeros hc, Nat.ofDigitChars_append,
    Nat.ofDigitChars_replicate_zero, Nat.mul_zero]
  exact Nat.ofDigitChars_ten_toDigits

/-- A number is written as its sign and a row of digits, which has no more zeros in front than the
width asks for. -/
theorem exists_row (width : Nat) (n : Int) : ∃ row, paddedChars width n = signChars n ++ row ∧
    row ≠ [] ∧ (∀ c ∈ row, c.isDigit = true) ∧ decimalValue row = n.natAbs ∧
    row.length ≤ max width (digitChars n).length := by
  refine ⟨_, List.append_assoc _ _ _, ?_, fun c hc => isDigit_of_mem_zeros hc,
    decimalValue_zeros _ n, ?_⟩
  · exact List.append_ne_nil_of_right_ne_nil _ (digitChars_ne_nil n)
  · rw [List.length_append, List.length_replicate]
    omega

theorem signChars_of_nonneg {n : Int} (h : 0 ≤ n) : signChars n = [] := by
  simp [signChars, h]

theorem chars_of_nonneg {n : Int} (h : 0 ≤ n) : chars n = digitChars n := by
  simp [chars, signChars_of_nonneg h]

theorem paddedChars_of_nonneg (width : Nat) {n : Int} (h : 0 ≤ n) :
    paddedChars width n =
      List.replicate (width - (digitChars n).length) '0' ++ digitChars n := by
  simp [paddedChars, signChars_of_nonneg h]

theorem isDigit_of_mem_paddedChars {width : Nat} {n : Int} (h : 0 ≤ n) {c : Char}
    (hc : c ∈ paddedChars width n) : c.isDigit = true := by
  rw [paddedChars_of_nonneg width h] at hc
  exact isDigit_of_mem_zeros hc

theorem paddedChars_ne_nil (width : Nat) (n : Int) : paddedChars width n ≠ [] := by
  simp [paddedChars, digitChars_ne_nil]

theorem decimalValue_paddedChars (width : Nat) {n : Int} (h : 0 ≤ n) :
    decimalValue (paddedChars width n) = n.natAbs := by
  rw [paddedChars_of_nonneg width h, decimalValue_zeros]

theorem paddedChars_length (width : Nat) {n : Int} (h : 0 ≤ n) :
    (paddedChars width n).length = max width (digitChars n).length := by
  rw [paddedChars_of_nonneg width h, List.length_append, List.length_replicate]
  omega

theorem write_of_length_le (width : Nat) {n : Int} (h : (digitChars n).length ≤ digitLimit) :
    write width n = .ok (String.ofList (paddedChars width n)) := by
  simp [write, Nat.not_lt.mpr h]

theorem separates_of_digits {digits : List Char} (h : ∀ c ∈ digits, isDecimalDigit c = true)
    {afterDigit : Bool} (hstart : afterDigit = true ∨ digits ≠ []) :
    separates afterDigit digits = true := by
  induction digits generalizing afterDigit with
  | nil => simpa [separates] using hstart
  | cons c digits ih =>
      have hc : c ≠ '_' := ne_of_isDecimalDigit (h c (by simp)) (by decide)
      simp only [separates, if_neg hc]
      exact ih (fun d hd => h d (by simp [hd])) (.inl rfl)

theorem splitSign_of_isDecimalDigit {c : Char} (rest : List Char) (h : isDecimalDigit c = true) :
    splitSign (c :: rest) = (false, c :: rest) := by
  have hminus : c ≠ '-' := ne_of_isDecimalDigit h (by decide)
  have hplus : c ≠ '+' := ne_of_isDecimalDigit h (by decide)
  unfold splitSign
  split
  · rename_i heq
    simp_all
  · rename_i heq
    simp_all
  · rfl

theorem splitSign_append (n : Int) {digits : List Char} (hne : digits ≠ [])
    (h : ∀ c ∈ digits, isDecimalDigit c = true) :
    splitSign (signChars n ++ digits) = (decide (n < 0), digits) := by
  obtain ⟨c, rest, rfl⟩ := List.exists_cons_of_ne_nil hne
  by_cases hneg : n < 0
  · simp [signChars, hneg, splitSign]
  · rw [signChars, if_neg hneg, List.nil_append,
      splitSign_of_isDecimalDigit rest (h c List.mem_cons_self), decide_eq_false hneg]

theorem read_signed (n : Int) {digits : List Char} (hne : digits ≠ [])
    (h : ∀ c ∈ digits, isDecimalDigit c = true) :
    read (String.ofList (signChars n ++ digits)) =
      if digitLimit < digits.length then .error (.tooManyDigits digits.length)
      else .ok (signed (decide (n < 0)) digits) := by
  have hmember : ∀ c ∈ digits, isDigitOrUnderscore c = true := by
    intro c hc
    simp [isDigitOrUnderscore, h c hc]
  have hbody : (signChars n ++ digits).dropWhile isPadding = signChars n ++ digits := by
    obtain ⟨c, rest, rfl⟩ := List.exists_cons_of_ne_nil hne
    have hminus : isPadding '-' = false := by decide
    have hdigit : isPadding c = false := by
      simp [isPadding, not_isBlank_of_isDecimalDigit (h c List.mem_cons_self)]
    by_cases hneg : n < 0 <;> simp [signChars, hneg, hminus, hdigit]
  have hrun : digits.takeWhile isDigitOrUnderscore = digits :=
    List.takeWhile_eq_self_iff.mpr hmember
  have hafter : digits.dropWhile isDigitOrUnderscore = [] :=
    List.dropWhile_eq_nil_iff.mpr hmember
  have hdigits : digits.filter isDecimalDigit = digits :=
    List.filter_eq_self.mpr h
  have hseparates : separates false digits = true :=
    separates_of_digits h (.inr hne)
  simp only [read, String.toList_ofList, hbody, splitSign_append n hne h, hrun, hafter, hdigits,
    hseparates]
  simp

theorem read_digits {digits : List Char} (hne : digits ≠ [])
    (h : ∀ c ∈ digits, isDecimalDigit c = true) :
    read (String.ofList digits) =
      if digitLimit < digits.length then .error (.tooManyDigits digits.length)
      else .ok (decimalValue digits) := by
  have hread := read_signed 0 hne h
  simpa [signChars, signed] using hread

theorem read_of_digits {digits : List Char} (hne : digits ≠ [])
    (h : ∀ c ∈ digits, isDecimalDigit c = true) (hlength : digits.length ≤ digitLimit) :
    read (String.ofList digits) = .ok (decimalValue digits) := by
  rw [read_digits hne h, if_neg (Nat.not_lt.mpr hlength)]

theorem read_paddedChars {width : Nat} (hwidth : width ≤ digitLimit) {n : Int}
    (hlength : (digitChars n).length ≤ digitLimit) :
    read (String.ofList (paddedChars width n)) = .ok n := by
  obtain ⟨row, hrow, hne, hdigits, hvalue, hshort⟩ := exists_row width n
  have hlimit : ¬ digitLimit < row.length := by omega
  rw [hrow, read_signed n hne fun c hc => isDecimalDigit_of_isDigit (hdigits c hc), if_neg hlimit,
    signed, hvalue]
  congr 1
  simp only [decide_eq_true_eq]
  split <;> omega

theorem dropWhile_isBlank_of_digits {digits : List Char}
    (h : ∀ c ∈ digits, isDecimalDigit c = true) : digits.dropWhile isBlank = digits := by
  cases digits with
  | nil => rfl
  | cons c rest =>
      simp [not_isBlank_of_isDecimalDigit (h c (by simp))]

theorem leading_of_digits {digits : List Char} (h : ∀ c ∈ digits, isDecimalDigit c = true)
    (hlength : digits.length ≤ digitLimit) : leading digits = .ok (decimalValue digits) := by
  have hrun : digits.takeWhile isDecimalDigit = digits := List.takeWhile_eq_self_iff.mpr h
  simp [leading, dropWhile_isBlank_of_digits h, hrun, Nat.not_lt.mpr hlength]

theorem leadingFixed_eq_div {digits : List Char} (h : ∀ c ∈ digits, isDecimalDigit c = true)
    {width : Nat} (hwidth : width ≤ digits.length) :
    leadingFixed width digits = (decimalValue digits / 10 ^ (digits.length - width) : Nat) := by
  have hall : (digits.take width).all isDecimalDigit = true :=
    List.all_eq_true.mpr fun c hc => h c (List.mem_of_mem_take hc)
  simp [leadingFixed, dropWhile_isBlank_of_digits h, hall, hwidth, decimalValue_take]

theorem leadingFixed_of_digits {digits : List Char} (h : ∀ c ∈ digits, isDecimalDigit c = true) :
    leadingFixed digits.length digits = decimalValue digits := by
  rw [leadingFixed_eq_div h le_rfl, Nat.sub_self, Nat.pow_zero, Nat.div_one]

theorem leadingFixed_of_short {width : Nat} {s : List Char} (h : s.length < width) :
    leadingFixed width s = 0 := by
  have hlength : ((s.dropWhile isBlank).take width).length ≠ width := by
    have hdrop := (List.dropWhile_suffix (l := s) isBlank).length_le
    rw [List.length_take]
    omega
  simp only [leadingFixed, hlength, false_and, if_false]

theorem chars_of_neg {n : Int} (h : n < 0) : chars n = '-' :: digitChars n := by
  simp [chars, signChars, h]

theorem leading_of_neg {n : Int} (h : n < 0) : leading (chars n) = .ok 0 := by
  have hblank : isBlank '-' = false := by decide
  have hdigit : isDecimalDigit '-' = false := by decide
  simp [chars_of_neg h, leading, hblank, hdigit, decimalValue]

theorem leadingFixed_of_neg {width : Nat} (hwidth : 0 < width) {n : Int} (h : n < 0) :
    leadingFixed width (chars n) = 0 := by
  obtain ⟨width, rfl⟩ := Nat.exists_eq_succ_of_ne_zero hwidth.ne'
  have hblank : isBlank '-' = false := by decide
  have hdigit : isDecimalDigit '-' = false := by decide
  simp [chars_of_neg h, leadingFixed, hblank, hdigit]

end LinerNotes.Numeral
