import LinerNotes.Hazard

/-!
What is left of a text in a file name: never nothing, all of it if the text is harmless, and nothing
dangerous but the substitute.
-/

namespace LinerNotes.Hazard

theorem clean_ne_nil (hazard : Option Hazard) (substitute s : List Char) :
    clean hazard substitute s ≠ [] := by
  simp only [clean]
  split
  · simp [fallback]
  · assumption

theorem replaceRuns_of_harmless {dangerous : Char → Bool} (substitute : List Char) (inRun : Bool)
    {s : List Char} (h : ∀ c ∈ s, dangerous c = false) :
    replaceRuns dangerous substitute inRun s = s := by
  induction s generalizing inRun with
  | nil => rfl
  | cons c rest ih =>
      have hrest := ih false fun d hd => h d (by simp [hd])
      simp [replaceRuns, h c (by simp), hrest]

theorem collapseFrom_of_not_mem {x : Char} {s : List Char} (h : x ∉ s) :
    collapseFrom [x] 0 s = s := by
  induction s with
  | nil => rfl
  | cons c rest ih =>
      simp only [List.mem_cons, not_or] at h
      have hfront : ([x] ++ [x]).isPrefixOf (c :: rest) = false := by
        simp [List.isPrefixOf, h.1]
      rw [collapseFrom, hfront, ih h.2]
      rfl

theorem tidy_of_not_mem {x : Char} {s : List Char} (h : x ∉ s) : tidy [x] s = s := by
  have hfront : [x].isPrefixOf s = false := by
    cases s with
    | nil => rfl
    | cons c rest =>
        simp only [List.mem_cons, not_or] at h
        simp [List.isPrefixOf, h.1]
  have hback : [x].isSuffixOf s = false := by
    rw [Bool.eq_false_iff]
    intro hsuffix
    obtain ⟨before, rfl⟩ := List.isSuffixOf_iff_suffix.mp hsuffix
    simp at h
  simp [tidy, collapseFrom_of_not_mem h, dropFront, dropBack, hfront, hback]

theorem clean_of_harmless {hazard : Option Hazard} {substitute : Option Char} {s : List Char}
    (hne : s ≠ []) (hquote : '\'' ∉ s) (hsafe : ∀ c ∈ s, holdsFor hazard c = false)
    (hsubstitute : ∀ x ∈ substitute, x ∉ s) :
    clean hazard substitute.toList s = s := by
  have hfilter : s.filter (· != '\'') = s := by
    rw [List.filter_eq_self]
    intro c hc
    simp only [bne_iff_ne]
    rintro rfl
    exact hquote hc
  have htidy : tidy (if substitute.toList = ['\''] then [] else substitute.toList) s = s := by
    split
    · simp [tidy]
    · cases substitute with
      | none => simp [tidy]
      | some x => exact tidy_of_not_mem (hsubstitute x rfl)
  simp only [clean, hfilter, replaceRuns_of_harmless _ _ hsafe, htidy]

theorem of_mem_replaceRuns {dangerous : Char → Bool} {substitute : List Char} {inRun : Bool}
    {s : List Char} {c : Char} (h : c ∈ replaceRuns dangerous substitute inRun s) :
    c ∈ substitute ∨ c ∈ s ∧ dangerous c = false := by
  induction s generalizing inRun with
  | nil => cases h
  | cons d rest ih =>
      rw [replaceRuns] at h
      split at h
      · rcases List.mem_append.mp h with hsubstitute | hrest
        · left
          split at hsubstitute
          · cases hsubstitute
          · exact hsubstitute
        · rcases ih hrest with hmem | ⟨hmem, hsafe⟩
          · exact .inl hmem
          · exact .inr ⟨List.mem_cons_of_mem d hmem, hsafe⟩
      · rename_i hd
        rcases List.mem_cons.mp h with rfl | hrest
        · exact .inr ⟨List.mem_cons_self, Bool.eq_false_iff.mpr hd⟩
        · rcases ih hrest with hmem | ⟨hmem, hsafe⟩
          · exact .inl hmem
          · exact .inr ⟨List.mem_cons_of_mem d hmem, hsafe⟩

theorem mem_of_mem_collapseFrom {word : List Char} {skip : Nat} {s : List Char} {c : Char}
    (h : c ∈ collapseFrom word skip s) : c ∈ s := by
  induction s generalizing skip with
  | nil =>
      rw [collapseFrom] at h
      exact h
  | cons d rest ih =>
      cases skip with
      | succ skip => exact List.mem_cons_of_mem d (ih h)
      | zero =>
          rw [collapseFrom] at h
          split at h
          · rename_i hcopies
            rcases List.mem_append.mp h with hword | hrest
            · have hfront := (List.isPrefixOf_iff_prefix.mp hcopies).subset
              exact hfront (List.mem_append_left word hword)
            · exact List.mem_cons_of_mem d (ih hrest)
          · rcases List.mem_cons.mp h with rfl | hrest
            · exact List.mem_cons_self
            · exact List.mem_cons_of_mem d (ih hrest)

theorem mem_of_mem_tidy {word s : List Char} {c : Char} (h : c ∈ tidy word s) : c ∈ s := by
  have hfront : ∀ t : List Char, c ∈ dropFront word t → c ∈ t := by
    intro t ht
    unfold dropFront at ht
    split at ht
    · exact List.mem_of_mem_drop ht
    · exact ht
  have hback : ∀ t : List Char, c ∈ dropBack word t → c ∈ t := by
    intro t ht
    unfold dropBack at ht
    split at ht
    · exact List.mem_of_mem_take ht
    · exact ht
  unfold tidy at h
  split at h
  · exact h
  · exact mem_of_mem_collapseFrom (hfront _ (hback _ h))

/-- A character of a cleaned text is the fallback, belongs to the substitute, or is a harmless
character of the text. An apostrophe is never one of them. -/
theorem of_mem_clean {hazard : Option Hazard} {substitute : Option Char} {s : List Char} {c : Char}
    (h : c ∈ clean hazard substitute.toList s) :
    c ≠ '\'' ∧ (c = '_' ∨ substitute = some c ∨ c ∈ s ∧ holdsFor hazard c = false) := by
  simp only [clean] at h
  split at h
  · have hc : c = '_' := by simpa [fallback] using h
    exact ⟨by rw [hc]; decide, .inl hc⟩
  · rcases of_mem_replaceRuns (mem_of_mem_tidy h) with hmem | ⟨hmem, hsafe⟩
    · split at hmem
      · cases hmem
      · rename_i hquote
        have hsubstitute : substitute = some c := by simpa using hmem
        refine ⟨?_, .inr (.inl hsubstitute)⟩
        rintro rfl
        exact hquote (by rw [hsubstitute]; rfl)
    · obtain ⟨hmem, hquote⟩ := List.mem_filter.mp hmem
      exact ⟨by simpa using hquote, .inr (.inr ⟨hmem, hsafe⟩)⟩

end LinerNotes.Hazard
