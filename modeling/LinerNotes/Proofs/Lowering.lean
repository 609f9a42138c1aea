import LinerNotes.Text.Lowercase

/-!
Text in lowercase. Lowercasing leaves a text alone if it leaves every character of it alone, and
that is so for all characters that it writes; so a second lowercasing changes nothing.
-/

namespace LinerNotes.Text

/-- Whether lowercasing leaves a character alone, whatever stands before and after it. -/
def isLowered (c : Char) : Bool :=
  c != 'Σ' && c != 'İ' && lowerChar c == c

theorem isLowered_iff {c : Char} :
    isLowered c = true ↔ c ≠ 'Σ' ∧ c ≠ 'İ' ∧ lowerChar c = c := by
  simp [isLowered, and_assoc]

theorem lowerAt_of_isLowered (before after : List Char) {c : Char} (h : isLowered c = true) :
    lowerAt before c after = [c] := by
  obtain ⟨hsigma, hdotted, hsame⟩ := isLowered_iff.mp h
  simp [lowerAt, hsigma, hdotted, hsame]

theorem lowerAfter_of_isLowered (before : List Char) {s : List Char}
    (h : ∀ c ∈ s, isLowered c = true) : lowerAfter before s = s := by
  induction s generalizing before with
  | nil => rfl
  | cons c rest ih =>
      have hrest := ih (c :: before) fun d hd => h d (List.mem_cons_of_mem c hd)
      rw [lowerAfter, lowerAt_of_isLowered _ _ (h c List.mem_cons_self), hrest]
      rfl

theorem lowerChars_of_isLowered {s : List Char} (h : ∀ c ∈ s, isLowered c = true) :
    lowerChars s = s :=
  lowerAfter_of_isLowered [] h

/-- Whether a run gives the code point another form. -/
def Casing.Run.Meets (run : Run) (n : Nat) : Prop :=
  run.first ≤ n ∧ n ≤ run.last ∧ (n - run.first) % run.step = 0

/-- Whether the forms that one run gives are met by no other run: they lie outside of it, or both go
in steps of two and miss each other. -/
def Casing.Run.avoids (run other : Run) : Bool :=
  (run.lower + (run.last - run.first)).blt other.first || other.last.blt run.lower ||
    (run.step == 2 || run.first == run.last) && (other.step == 2 || other.first == other.last) &&
      (run.lower + other.first) % 2 == 1

theorem Casing.Run.not_meets_of_avoids {run other : Run} {n : Nat} (h : run.avoids other = true)
    (hn : run.Meets n) : ¬ other.Meets (run.lower + (n - run.first)) := by
  rintro ⟨hfirst, hlast, hstep⟩
  obtain ⟨hfirst', hlast', hstep'⟩ := hn
  simp only [avoids, Bool.or_eq_true, Bool.and_eq_true, Nat.blt_eq, beq_iff_eq] at h
  rcases h with (hbelow | habove) | ⟨⟨hrun, hother⟩, hparity⟩
  · omega
  · omega
  -- the first form and the other run's first code point are at an odd distance
  have hrun : (n - run.first) % 2 = 0 := by
    rcases hrun with htwo | hone
    · rwa [htwo] at hstep'
    · omega
  have hother : (run.lower + (n - run.first) - other.first) % 2 = 0 := by
    rcases hother with htwo | hone
    · rwa [htwo] at hstep
    · omega
  omega

theorem lowerIn_cases (runs : List Casing.Run) (n : Nat) :
    lowerIn runs n = n ∨
      ∃ run ∈ runs, run.Meets n ∧ lowerIn runs n = run.lower + (n - run.first) := by
  induction runs with
  | nil => exact .inl rfl
  | cons run rest ih =>
      rw [lowerIn]
      split
      · exact .inl rfl
      rename_i hfirst
      split
      · rename_i hlast
        split
        · rename_i hstep
          exact .inr ⟨run, List.mem_cons_self, ⟨Nat.le_of_not_lt hfirst, hlast, hstep⟩, rfl⟩
        · exact .inl rfl
      · rcases ih with hsame | ⟨other, hother, hmeets⟩
        · exact .inl hsame
        · exact .inr ⟨other, List.mem_cons_of_mem run hother, hmeets⟩

theorem lowerIn_of_not_meets {runs : List Casing.Run} {n : Nat}
    (h : ∀ run ∈ runs, ¬ run.Meets n) : lowerIn runs n = n := by
  rcases lowerIn_cases runs n with hsame | ⟨run, hrun, hmeets, -⟩
  · exact hsame
  · exact absurd hmeets (h run hrun)

/-- The two letters whose lowercase forms are not in the table, as runs of their own. -/
def Casing.special : List Run :=
  ['Σ', 'İ'].map fun c => ⟨c.toNat, c.toNat, 1, c.toNat⟩

theorem Casing.avoids_of_mem {run other : Run} (hrun : run ∈ runs)
    (hother : other ∈ special ++ runs) : run.avoids other = true := by
  have hall : (runs.all fun run => (special ++ runs).all run.avoids) = true := by
    decide +kernel
  exact List.all_eq_true.mp (List.all_eq_true.mp hall run hrun) other hother

theorem Casing.isValidChar_of_mem : ∀ run ∈ runs, 97 ≤ run.lower ∧
    (run.lower + (run.last - run.first) < 0xD800 ∨
      0xDFFF < run.lower ∧ run.lower + (run.last - run.first) < 0x110000) := by
  decide +kernel

theorem lowerChar_cases (c : Char) :
    lowerChar c = c ∨ isLowered (lowerChar c) = true ∧ 97 ≤ (lowerChar c).toNat := by
  rcases lowerIn_cases Casing.runs c.toNat with hsame | ⟨run, hrun, hmeets, heq⟩
  · exact .inl (by rw [lowerChar, hsame, Char.ofNat_toNat])
  right
  obtain ⟨hletter, hvalid⟩ := Casing.isValidChar_of_mem run hrun
  have hnat : (lowerChar c).toNat = run.lower + (c.toNat - run.first) := by
    have hlast := hmeets.2.1
    have hchar : (run.lower + (c.toNat - run.first)).isValidChar := by
      simp only [Nat.isValidChar]
      omega
    rw [lowerChar, heq, Char.ofNat, dif_pos hchar]
    rfl
  have havoids : ∀ other ∈ Casing.special ++ Casing.runs, ¬ other.Meets (lowerChar c).toNat := by
    intro other hother
    rw [hnat]
    exact Casing.Run.not_meets_of_avoids (Casing.avoids_of_mem hrun hother) hmeets
  have hspecial : ∀ d ∈ ['Σ', 'İ'], lowerChar c ≠ d := by
    intro d hd heq
    refine havoids ⟨d.toNat, d.toNat, 1, d.toNat⟩
      (List.mem_append_left _ (List.mem_map_of_mem hd)) ?_
    rw [heq]
    exact ⟨Nat.le_refl _, Nat.le_refl _, Nat.mod_one _⟩
  have hsame : lowerChar (lowerChar c) = lowerChar c := by
    rw [lowerChar, lowerIn_of_not_meets fun run hrun => havoids run (List.mem_append_right _ hrun),
      Char.ofNat_toNat]
  refine ⟨isLowered_iff.mpr ⟨hspecial _ (by simp), hspecial _ (by simp), hsame⟩, ?_⟩
  omega

/-- A character that lowercasing writes is one that it leaves alone, and either the character that
stood there or none of those before the letter a. -/
theorem of_mem_lowerAt {before after : List Char} {c d : Char} (h : d ∈ lowerAt before c after) :
    isLowered d = true ∧ (d = c ∨ 97 ≤ d.toNat) := by
  have hsigma : isLowered 'σ' = true ∧ isLowered 'ς' = true := by decide +kernel
  have hdotted : isLowered 'i' = true ∧ isLowered '\u0307' = true := by decide +kernel
  unfold lowerAt at h
  split at h
  · rw [List.mem_singleton] at h
    subst h
    split
    · exact ⟨hsigma.2, .inr (by decide)⟩
    · exact ⟨hsigma.1, .inr (by decide)⟩
  rename_i hc
  split at h
  · rcases List.mem_cons.mp h with rfl | h
    · exact ⟨hdotted.1, .inr (by decide)⟩
    · rw [List.mem_singleton] at h
      subst h
      exact ⟨hdotted.2, .inr (by decide)⟩
  rename_i hc'
  rw [List.mem_singleton] at h
  subst h
  rcases lowerChar_cases c with hsame | ⟨hlowered, hletter⟩
  · rw [hsame]
    exact ⟨isLowered_iff.mpr ⟨hc, hc', hsame⟩, .inl rfl⟩
  · exact ⟨hlowered, .inr hletter⟩

theorem of_mem_lowerAfter {before s : List Char} {d : Char} (h : d ∈ lowerAfter before s) :
    isLowered d = true ∧ (d ∈ s ∨ 97 ≤ d.toNat) := by
  induction s generalizing before with
  | nil => cases h
  | cons c rest ih =>
      rcases List.mem_append.mp h with hfirst | hrest
      · obtain ⟨hlowered, hd⟩ := of_mem_lowerAt hfirst
        exact ⟨hlowered, hd.imp (fun heq => by rw [heq]; exact List.mem_cons_self) id⟩
      · obtain ⟨hlowered, hd⟩ := ih hrest
        exact ⟨hlowered, hd.imp (List.mem_cons_of_mem c) id⟩

theorem of_mem_lowerChars {s : List Char} {d : Char} (h : d ∈ lowerChars s) :
    isLowered d = true ∧ (d ∈ s ∨ 97 ≤ d.toNat) :=
  of_mem_lowerAfter h

theorem lowerChars_lowerChars (s : List Char) : lowerChars (lowerChars s) = lowerChars s :=
  lowerChars_of_isLowered fun _ hc => (of_mem_lowerChars hc).1

theorem isLowered_of_lowerChars {c : Char} (h : lowerChars [c] = [c]) : isLowered c = true :=
  (of_mem_lowerChars (s := [c]) (by rw [h]; exact List.mem_singleton_self c)).1

end LinerNotes.Text
