import LinerNotes.Proofs.WrittenForm

/-!
Specs that cannot be read. A letter that stands for no field is found by looking at the two
characters before it only: a percent sign, or a substitute after a percent sign. Reading fails
exactly if there is such a letter anywhere in the text, and names the first one.
-/

namespace LinerNotes.Spec

open LinerNotes.Text

/-- The letters that stand for the fields, in both cases. -/
def fieldLetters : List Char :=
  "lrcgtnyLRCGTNY".toList

/-- Whether a letter that stands for no field is at a position, with a percent sign right before it
or one character further to the front, and then with a substitute between them. -/
structure StrayAt (s : List Char) (i : Nat) (letter : Char) : Prop where
  found : s[i]? = some letter
  english : isEnglishLetter letter = true
  unknown : letter ∉ fieldLetters
  marked : (∃ j, i = j + 1 ∧ s[j]? = some '%') ∨
    ∃ j x, i = j + 2 ∧ s[j]? = some '%' ∧ s[j + 1]? = some x ∧ isSubstitute x = true

theorem ofLetter?_eq_none_iff {c : Char} (h : isEnglishLetter c = true) :
    Field.ofLetter? c = none ↔ c ∉ fieldLetters := by
  have hdecide := of_isEnglishLetter
    (fun c => decide (Field.ofLetter? c = none ↔ c ∉ fieldLetters)) (by decide +kernel) h
  exact of_decide_eq_true hdecide

theorem consPlaceholder_of_unknown {letter : Char} (hletter : isEnglishLetter letter = true)
    (hunknown : letter ∉ fieldLetters) (substitute : Option Char)
    (rest : Except UnknownField (List Token)) :
    consPlaceholder substitute letter rest = .error (.letter (String.singleton letter)) := by
  have hnone := (ofLetter?_eq_none_iff hletter).mpr hunknown
  rw [consPlaceholder, placeholderFor, hnone]
  rfl

theorem consPlaceholder_of_known {letter : Char} (hletter : isEnglishLetter letter = true)
    (hknown : letter ∈ fieldLetters) (substitute : Option Char)
    (rest : Except UnknownField (List Token)) :
    ∃ p, consPlaceholder substitute letter rest = (.placeholder p :: ·) <$> rest := by
  cases hfield : Field.ofLetter? letter with
  | none => exact absurd hknown ((ofLetter?_eq_none_iff hletter).mp hfield)
  | some field =>
      rw [consPlaceholder, placeholderFor, hfield]
      cases rest with
      | error cause => exact ⟨⟨field, substitute, .preserve⟩, rfl⟩
      | ok tokens => exact ⟨_, rfl⟩

theorem not_strayAt_nil (i : Nat) (letter : Char) : ¬ StrayAt [] i letter := by
  intro h
  have hfound := h.found
  simp at hfound

theorem not_strayAt_zero (s : List Char) (letter : Char) : ¬ StrayAt s 0 letter := by
  intro h
  rcases h.marked with ⟨j, hj, -⟩ | ⟨j, x, hj, -⟩ <;> omega

theorem StrayAt.cons {s : List Char} {i : Nat} {letter : Char} (h : StrayAt s i letter) (c : Char) :
    StrayAt (c :: s) (i + 1) letter := by
  refine ⟨by simpa using h.found, h.english, h.unknown, ?_⟩
  rcases h.marked with ⟨j, rfl, hpercent⟩ | ⟨j, x, rfl, hpercent, hx, hsubstitute⟩
  · exact .inl ⟨j + 1, rfl, by simpa using hpercent⟩
  · exact .inr ⟨j + 1, x, rfl, by simpa using hpercent, by simpa using hx, hsubstitute⟩

theorem StrayAt.append {s : List Char} {i : Nat} {letter : Char} (h : StrayAt s i letter)
    (before : List Char) : StrayAt (before ++ s) (before.length + i) letter := by
  induction before with
  | nil => simpa using h
  | cons c before ih =>
      have hnext := ih.cons c
      rwa [List.length_cons, Nat.add_right_comm]

theorem StrayAt.of_cons {c : Char} {s : List Char} {i : Nat} {letter : Char}
    (h : StrayAt (c :: s) (i + 1) letter) :
    StrayAt s i letter ∨ c = '%' ∧ ∃ substitute rest, (∀ x ∈ substitute, isSubstitute x = true) ∧
      s = Option.toList substitute ++ letter :: rest ∧ i = substitute.toList.length := by
  have hfound : s[i]? = some letter := by simpa using h.found
  rcases h.marked with ⟨j, hj, hpercent⟩ | ⟨j, x, hj, hpercent, hx, hsubstitute⟩
  · cases j with
    | zero =>
        obtain rfl : i = 0 := by omega
        right
        refine ⟨by simpa using hpercent, none, s.drop 1, by simp, ?_, rfl⟩
        cases s with
        | nil => cases hfound
        | cons d rest => simpa using hfound
    | succ j =>
        obtain rfl : i = j + 1 := by omega
        exact .inl ⟨hfound, h.english, h.unknown, .inl ⟨j, rfl, by simpa using hpercent⟩⟩
  · cases j with
    | zero =>
        obtain rfl : i = 1 := by omega
        right
        refine ⟨by simpa using hpercent, some x, s.drop 2, by simpa using hsubstitute, ?_, rfl⟩
        match s with
        | [] => cases hfound
        | [d] => cases hfound
        | d :: e :: rest => simp_all
    | succ j =>
        obtain rfl : i = j + 2 := by omega
        exact .inl ⟨hfound, h.english, h.unknown,
          .inr ⟨j, x, rfl, by simpa using hpercent, by simpa using hx, hsubstitute⟩⟩

theorem mark_inj {substitute other : Option Char} {letter ending : Char} {rest more : List Char}
    (hsubstitute : ∀ x ∈ substitute, isSubstitute x = true)
    (hother : ∀ x ∈ other, isSubstitute x = true) (hletter : isEnglishLetter letter = true)
    (hending : isEnglishLetter ending = true)
    (h : substitute.toList ++ letter :: rest = other.toList ++ ending :: more) :
    substitute = other ∧ letter = ending := by
  cases substitute with
  | none =>
      cases other with
      | none => simp_all
      | some y =>
          simp only [Option.toList_none, List.nil_append, Option.toList_some, List.cons_append,
            List.cons.injEq] at h
          have hy := hother y rfl
          rw [← h.1, not_isSubstitute_of_isEnglishLetter hletter] at hy
          cases hy
  | some x =>
      cases other with
      | none =>
          simp only [Option.toList_none, List.nil_append, Option.toList_some, List.cons_append,
            List.cons.injEq] at h
          have hx := hsubstitute x rfl
          rw [h.1, not_isSubstitute_of_isEnglishLetter hending] at hx
          cases hx
      | some y => simp_all

section

variable {substitute : Option Char} {letter : Char}
  (hsubstitute : ∀ x ∈ substitute, isSubstitute x = true) (hletter : isEnglishLetter letter = true)

include hsubstitute hletter

theorem strayAt_mark (hunknown : letter ∉ fieldLetters) (rest : List Char) :
    StrayAt ('%' :: (substitute.toList ++ letter :: rest)) (substitute.toList.length + 1)
      letter := by
  refine ⟨by simp, hletter, hunknown, ?_⟩
  cases substitute with
  | none => exact .inl ⟨0, rfl, rfl⟩
  | some x => exact .inr ⟨0, x, rfl, rfl, rfl, hsubstitute x rfl⟩

/-- Behind the letter of a placeholder the search begins anew: neither the letter nor what stands
before it can belong to another placeholder. -/
theorem StrayAt.of_mark {rest : List Char} {i : Nat} {found : Char}
    (h : StrayAt ('%' :: (substitute.toList ++ letter :: rest)) i found) :
    i = substitute.toList.length + 1 ∧ found = letter ∨
      ∃ j, i = substitute.toList.length + 2 + j ∧ StrayAt rest j found := by
  have hrest : ∀ {i}, StrayAt (letter :: rest) i found → ∃ j, i = j + 1 ∧ StrayAt rest j found := by
    intro i hi
    cases i with
    | zero => exact absurd hi (not_strayAt_zero _ _)
    | succ i =>
        rcases hi.of_cons with hnext | ⟨hpercent, -⟩
        · exact ⟨i, rfl, hnext⟩
        · rw [hpercent] at hletter
          exact absurd hletter (by decide +kernel)
  cases i with
  | zero => exact absurd h (not_strayAt_zero _ _)
  | succ i =>
      rcases h.of_cons with hnext | ⟨-, other, more, hother, heq, rfl⟩
      · cases substitute with
        | none =>
            obtain ⟨j, rfl, hj⟩ := hrest hnext
            exact .inr ⟨j, by simp; omega, hj⟩
        | some x =>
            cases i with
            | zero => exact absurd hnext (not_strayAt_zero _ _)
            | succ i =>
                rcases hnext.of_cons with hnext | ⟨-, other, more, hother, heq, rfl⟩
                · obtain ⟨j, rfl, hj⟩ := hrest hnext
                  exact .inr ⟨j, by simp; omega, hj⟩
                · have hshort : Option.toList none ++ letter :: rest =
                      other.toList ++ found :: more := heq
                  obtain ⟨rfl, rfl⟩ := mark_inj (by simp) hother hletter h.english hshort
                  exact .inl ⟨rfl, rfl⟩
      · obtain ⟨rfl, rfl⟩ := mark_inj hsubstitute hother hletter h.english heq
        exact .inl ⟨rfl, rfl⟩

end

/-- What the letters of a text say about reading it: there is no stray one if it can be read, and
the first one is the cause if it cannot. -/
def Judges (s : List Char) : Except UnknownField (List Token) → Prop
  | .ok _ => ∀ i letter, ¬ StrayAt s i letter
  | .error cause => ∃ i letter, cause = .letter (String.singleton letter) ∧ StrayAt s i letter ∧
      ∀ j < i, ∀ other, ¬ StrayAt s j other

theorem Judges.append {before s : List Char} {result : Except UnknownField (List Token)}
    (h : Judges s result) (f : List Token → List Token)
    (hfront : ∀ i letter, StrayAt (before ++ s) i letter →
      ∃ j, i = before.length + j ∧ StrayAt s j letter) :
    Judges (before ++ s) (f <$> result) := by
  cases result with
  | ok tokens =>
      intro i letter hstray
      obtain ⟨j, -, hj⟩ := hfront i letter hstray
      exact h j letter hj
  | error cause =>
      obtain ⟨i, letter, hcause, hstray, hfirst⟩ := h
      refine ⟨before.length + i, letter, hcause, hstray.append before, ?_⟩
      intro j hj other hother
      obtain ⟨k, rfl, hk⟩ := hfront j other hother
      exact hfirst k (by omega) other hk

theorem judges_tokensOf (s : List Char) : Judges s (tokensOf s) := by
  induction s using reading_induction with
  | nil => exact not_strayAt_nil
  | mark substitute letter rest hsubstitute hletter ih =>
      rw [tokensOf_mark hsubstitute hletter]
      by_cases hknown : letter ∈ fieldLetters
      · obtain ⟨p, hp⟩ := consPlaceholder_of_known hletter hknown substitute (tokensOf rest)
        have hmark : '%' :: (substitute.toList ++ letter :: rest) =
            '%' :: (substitute.toList ++ [letter]) ++ rest := by simp
        rw [hp, hmark]
        refine ih.append _ fun i found hstray => ?_
        rw [← hmark] at hstray
        rcases hstray.of_mark hsubstitute hletter with ⟨-, rfl⟩ | ⟨j, hj, hrest⟩
        · exact absurd hknown hstray.unknown
        · exact ⟨j, by simpa using hj, hrest⟩
      · rw [consPlaceholder_of_unknown hletter hknown]
        refine ⟨_, letter, rfl, strayAt_mark hsubstitute hletter hknown rest, ?_⟩
        intro j hj other hother
        rcases hother.of_mark hsubstitute hletter with ⟨heq, -⟩ | ⟨k, heq, -⟩ <;> omega
  | literal c rest hopens ih =>
      rw [tokensOf_of_not_opens hopens]
      change Judges ([c] ++ rest) _
      refine ih.append (consLiteral c) fun i letter hstray => ?_
      cases i with
      | zero => exact absurd hstray (not_strayAt_zero _ _)
      | succ i =>
          rcases hstray.of_cons with hrest | ⟨rfl, substitute, more, hsubstitute, rfl, -⟩
          · exact ⟨i, Nat.add_comm i 1, hrest⟩
          · exact absurd (opens_mark substitute hsubstitute hstray.english more) hopens

/-- A text is refused exactly because of the first letter in it that stands for no field and has a
percent sign, or a percent sign and a substitute, before it. Every text without such a letter is
read. -/
theorem read_eq_error_iff (source : String) :
    (∀ cause, Spec.read source = .error cause ↔ ∃ i letter,
      cause = .letter (String.singleton letter) ∧ StrayAt source.toList i letter ∧
        ∀ j < i, ∀ other, ¬ StrayAt source.toList j other) ∧
    ((∃ spec, Spec.read source = .ok spec) ↔ ∀ i letter, ¬ StrayAt source.toList i letter) := by
  have hjudges := judges_tokensOf source.toList
  unfold Spec.read
  cases htokens : tokensOf source.toList with
  | ok tokens =>
      rw [htokens] at hjudges
      refine ⟨fun cause => ⟨?_, ?_⟩, ⟨fun _ => hjudges, fun _ => ⟨_, rfl⟩⟩⟩
      · rintro ⟨⟩
      · rintro ⟨i, letter, -, hstray, -⟩
        exact absurd hstray (hjudges i letter)
  | error found =>
      rw [htokens] at hjudges
      obtain ⟨i, letter, rfl, hstray, hfirst⟩ := hjudges
      refine ⟨fun cause => ⟨?_, ?_⟩, ⟨?_, ?_⟩⟩
      · rintro ⟨⟩
        exact ⟨i, letter, rfl, hstray, hfirst⟩
      · rintro ⟨j, other, rfl, hother, hleast⟩
        have hsame : i = j := by
          rcases Nat.lt_trichotomy i j with hlt | heq | hgt
          · exact absurd hstray (hleast i hlt letter)
          · exact heq
          · exact absurd hother (hfirst j hgt other)
        subst hsame
        have hletter := hstray.found.symm.trans hother.found
        cases hletter
        rfl
      · rintro ⟨spec, ⟨⟩⟩
      · intro hnone
        exact absurd hstray (hnone i letter)

/-- The percent signs that are read before it do not hide the first of two unknown letters. -/
example : Spec.read "%%t%%%z%q" = .error (.letter "z") := by
  decide +kernel

end LinerNotes.Spec
