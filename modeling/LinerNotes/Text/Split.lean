/-!
Cutting a text at a separating character: into all its pieces, or in two at the last separator.
-/

namespace LinerNotes.Text

/-- The pieces between the separators, of which there is always at least one. -/
def pieces (separator : Char) : List Char → List (List Char)
  | [] => [[]]
  | c :: rest =>
      if c = separator then [] :: pieces separator rest
      else
        match pieces separator rest with
        | [] => [[c]]
        | piece :: more => (c :: piece) :: more

/-- What stands before and after the last separator, if there is one. -/
def cutLast (separator : Char) : List Char → Option (List Char × List Char)
  | [] => none
  | c :: rest =>
      match cutLast separator rest with
      | some (before, after) => some (c :: before, after)
      | none => if c = separator then some ([], rest) else none

theorem pieces_ne_nil (separator : Char) (s : List Char) : pieces separator s ≠ [] := by
  induction s with
  | nil => simp [pieces]
  | cons c rest ih =>
      simp only [pieces]
      split
      · simp
      · split <;> simp

theorem pieces_of_not_mem {separator : Char} {s : List Char} (h : separator ∉ s) :
    pieces separator s = [s] := by
  induction s with
  | nil => rfl
  | cons c rest ih =>
      simp only [List.mem_cons, not_or] at h
      simp [pieces, Ne.symm h.1, ih h.2]

theorem eq_of_cutLast {separator : Char} {s before after : List Char}
    (h : cutLast separator s = some (before, after)) : s = before ++ separator :: after := by
  induction s generalizing before with
  | nil => simp [cutLast] at h
  | cons c rest ih =>
      simp only [cutLast] at h
      split at h
      · rename_i inner outer hrest
        simp only [Option.some.injEq, Prod.mk.injEq] at h
        obtain ⟨rfl, rfl⟩ := h
        simp [ih hrest]
      · split at h
        · rename_i hc
          simp only [Option.some.injEq, Prod.mk.injEq] at h
          obtain ⟨rfl, rfl⟩ := h
          simp [hc]
        · simp at h

theorem not_mem_of_cutLast {separator : Char} {s : List Char} (h : cutLast separator s = none) :
    separator ∉ s := by
  induction s with
  | nil => simp
  | cons c rest ih =>
      simp only [cutLast] at h
      split at h
      · cases h
      · rename_i hrest
        split at h
        · cases h
        · rename_i hc
          simp only [List.mem_cons, not_or]
          exact ⟨Ne.symm hc, ih hrest⟩

theorem cutLast_of_not_mem {separator : Char} {s : List Char} (h : separator ∉ s) :
    cutLast separator s = none := by
  induction s with
  | nil => rfl
  | cons c rest ih =>
      simp only [List.mem_cons, not_or] at h
      simp [cutLast, ih h.2, Ne.symm h.1]

theorem cutLast_append {separator : Char} {after : List Char} (before : List Char)
    (h : separator ∉ after) :
    cutLast separator (before ++ separator :: after) = some (before, after) := by
  induction before with
  | nil => simp [cutLast, cutLast_of_not_mem h]
  | cons c before ih => simp [cutLast, ih]

theorem not_mem_after_of_cutLast {separator : Char} {s before after : List Char}
    (h : cutLast separator s = some (before, after)) : separator ∉ after := by
  induction s generalizing before with
  | nil => cases h
  | cons c rest ih =>
      simp only [cutLast] at h
      split at h
      · rename_i inner outer hrest
        cases h
        exact ih hrest
      · rename_i hrest
        split at h
        · cases h
          exact not_mem_of_cutLast hrest
        · cases h

theorem pieces_of_cutLast {separator : Char} {s before after : List Char}
    (h : cutLast separator s = some (before, after)) :
    pieces separator s = pieces separator before ++ [after] := by
  induction s generalizing before with
  | nil => simp [cutLast] at h
  | cons c rest ih =>
      simp only [cutLast] at h
      split at h
      · rename_i inner outer hrest
        simp only [Option.some.injEq, Prod.mk.injEq] at h
        obtain ⟨rfl, rfl⟩ := h
        simp only [pieces, ih hrest]
        split
        · rfl
        · cases hinner : pieces separator inner with
          | nil => exact absurd hinner (pieces_ne_nil separator inner)
          | cons piece more => rfl
      · rename_i hrest
        split at h
        · rename_i hc
          simp only [Option.some.injEq, Prod.mk.injEq] at h
          obtain ⟨rfl, rfl⟩ := h
          simp [pieces, hc, pieces_of_not_mem (not_mem_of_cutLast hrest)]
        · cases h

theorem of_mem_pieces {separator : Char} {s piece : List Char} (h : piece ∈ pieces separator s) :
    separator ∉ piece ∧ ∀ c ∈ piece, c ∈ s := by
  induction s generalizing piece with
  | nil =>
      rw [pieces, List.mem_singleton] at h
      subst h
      simp
  | cons c rest ih =>
      rw [pieces] at h
      split at h
      · rcases List.mem_cons.mp h with rfl | hrest
        · simp
        · obtain ⟨hfree, hchars⟩ := ih hrest
          exact ⟨hfree, fun d hd => List.mem_cons_of_mem c (hchars d hd)⟩
      · rename_i hc
        cases hpieces : pieces separator rest with
        | nil => exact absurd hpieces (pieces_ne_nil separator rest)
        | cons first more =>
            rw [hpieces] at h ih
            rcases List.mem_cons.mp h with rfl | hmore
            · obtain ⟨hfree, hchars⟩ := ih List.mem_cons_self
              constructor
              · rw [List.mem_cons, not_or]
                exact ⟨Ne.symm hc, hfree⟩
              · intro d hd
                rcases List.mem_cons.mp hd with rfl | hd
                · exact List.mem_cons_self
                · exact List.mem_cons_of_mem c (hchars d hd)
            · obtain ⟨hfree, hchars⟩ := ih (List.mem_cons_of_mem first hmore)
              exact ⟨hfree, fun d hd => List.mem_cons_of_mem c (hchars d hd)⟩

theorem pieces_append (separator : Char) (before after : List Char) :
    pieces separator (before ++ separator :: after) =
      pieces separator before ++ pieces separator after := by
  induction before with
  | nil => simp [pieces]
  | cons c rest ih =>
      rw [List.cons_append, pieces, pieces]
      split
      · rw [ih, List.cons_append]
      · rw [ih]
        cases hpieces : pieces separator rest with
        | nil => exact absurd hpieces (pieces_ne_nil separator rest)
        | cons piece more => rfl

end LinerNotes.Text
