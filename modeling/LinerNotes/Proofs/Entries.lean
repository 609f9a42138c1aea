import Mathlib.Data.List.Induction
import LinerNotes.Sheet

/-!
Rows of fields with values, of which the last entry of a field counts.
-/

namespace LinerNotes

/-- The value that the last entry of a field has, if there is one. -/
def lastFor (entries : List (Field × Value)) (field : Field) : Option Value :=
  (entries.filter fun entry => entry.1 == field).getLast?.map (·.2)

theorem lastFor_append (entries others : List (Field × Value)) (field : Field) :
    lastFor (entries ++ others) field = (lastFor others field).or (lastFor entries field) := by
  simp only [lastFor, List.filter_append, List.getLast?_append, Option.map_or]

theorem lastFor_concat (entries : List (Field × Value)) (entry : Field × Value) (field : Field) :
    lastFor (entries ++ [entry]) field =
      if entry.1 = field then some entry.2 else lastFor entries field := by
  rw [lastFor_append]
  by_cases h : entry.1 = field
  · simp [lastFor, h]
  · simp [lastFor, h]

theorem lastFor_cons (entry : Field × Value) (entries : List (Field × Value)) (field : Field) :
    lastFor (entry :: entries) field =
      (lastFor entries field).or (if entry.1 = field then some entry.2 else none) := by
  rw [← List.singleton_append, lastFor_append]
  by_cases h : entry.1 = field
  · simp [lastFor, h]
  · simp [lastFor, h]

theorem lastFor_map {α : Type} (f : α → Field) (g : α → Value) (items : List α) (field : Field) :
    lastFor (items.map fun item => (f item, g item)) field =
      (items.filter fun item => f item == field).getLast?.map g := by
  simp only [lastFor, List.filter_map, List.getLast?_map, Option.map_map]
  rfl

theorem lastFor_map_value (f : Field → Value → Value) (entries : List (Field × Value))
    (field : Field) :
    lastFor (entries.map fun entry => (entry.1, f entry.1 entry.2)) field =
      (lastFor entries field).map (f field) := by
  rw [lastFor_map, lastFor]
  cases hlast : (entries.filter fun entry => entry.1 == field).getLast? with
  | none => rfl
  | some entry =>
      have hfield : entry.1 = field := by
        simpa using (List.mem_filter.mp (List.mem_of_getLast? hlast)).2
      rw [← hfield]
      rfl

theorem lookup_put (entries : List (Field × Value)) (entry : Field × Value) (field : Field) :
    (Keyed.put (fun other => entry.1 == other.1) entry entries).lookup field =
      if entry.1 = field then some entry.2 else entries.lookup field := by
  obtain ⟨key, value⟩ := entry
  induction entries with
  | nil =>
      simp only [Keyed.put, List.lookup_cons, List.lookup_nil]
      by_cases h : key = field
      · simp [h]
      · simp [h, beq_eq_false_iff_ne.mpr (Ne.symm h)]
  | cons first rest ih =>
      obtain ⟨other, stored⟩ := first
      by_cases hkey : key = other
      · subst hkey
        by_cases h : key = field
        · simp [Keyed.put, h]
        · simp [Keyed.put, List.lookup_cons, h, beq_eq_false_iff_ne.mpr (Ne.symm h)]
      · simp only [Keyed.put, beq_eq_false_iff_ne.mpr hkey, Bool.false_eq_true, if_false,
          List.lookup_cons]
        by_cases hfield : field = other
        · subst hfield
          simp [hkey]
        · simpa [beq_eq_false_iff_ne.mpr hfield] using ih

theorem mem_keys_put {entries : List (Field × Value)} {entry : Field × Value} {field : Field}
    (h : field ∈ (Keyed.put (fun other => entry.1 == other.1) entry entries).map Prod.fst) :
    field = entry.1 ∨ field ∈ entries.map Prod.fst := by
  induction entries with
  | nil => simpa [Keyed.put] using h
  | cons first rest ih =>
      simp only [Keyed.put] at h
      split at h
      · rcases List.mem_cons.mp h with heq | hrest
        · exact .inl heq
        · exact .inr (List.mem_cons_of_mem _ hrest)
      · rcases List.mem_cons.mp h with heq | hrest
        · exact .inr (by simp [heq])
        · rcases ih hrest with hfirst | hmem
          · exact .inl hfirst
          · exact .inr (List.mem_cons_of_mem _ hmem)

theorem nodup_keys_put {entries : List (Field × Value)} (entry : Field × Value)
    (h : (entries.map Prod.fst).Nodup) :
    ((Keyed.put (fun other => entry.1 == other.1) entry entries).map Prod.fst).Nodup := by
  induction entries with
  | nil => simp [Keyed.put]
  | cons first rest ih =>
      simp only [List.map_cons, List.nodup_cons] at h
      simp only [Keyed.put]
      split
      · rename_i hsame
        rw [List.map_cons, List.nodup_cons, beq_iff_eq.mp hsame]
        exact h
      · rename_i hother
        rw [List.map_cons, List.nodup_cons]
        refine ⟨fun hmem => ?_, ih h.2⟩
        rcases mem_keys_put hmem with heq | hmem
        · simp [heq] at hother
        · exact h.1 hmem

theorem lookup_ofList (entries : List (Field × Value)) (field : Field) :
    (Keyed.ofList (fun entry other => entry.1 == other.1) entries).lookup field =
      lastFor entries field := by
  induction entries using List.reverseRecOn with
  | nil => rfl
  | append_singleton entries entry ih =>
      rw [lastFor_concat, ← ih, ← lookup_put]
      simp [Keyed.ofList]

theorem nodup_keys_ofList (entries : List (Field × Value)) :
    ((Keyed.ofList (fun entry other => entry.1 == other.1) entries).map Prod.fst).Nodup := by
  induction entries using List.reverseRecOn with
  | nil => simp [Keyed.ofList]
  | append_singleton entries entry ih =>
      simpa [Keyed.ofList] using nodup_keys_put entry ih

theorem mem_of_mem_put {same : Field × Value → Bool} {entry other : Field × Value}
    {entries : List (Field × Value)} (h : other ∈ Keyed.put same entry entries) :
    other = entry ∨ other ∈ entries := by
  induction entries with
  | nil => exact .inl (List.mem_singleton.mp h)
  | cons first rest ih =>
      simp only [Keyed.put] at h
      split at h
      · rcases List.mem_cons.mp h with rfl | hmem
        · exact .inl rfl
        · exact .inr (List.mem_cons_of_mem first hmem)
      · rcases List.mem_cons.mp h with rfl | hmem
        · exact .inr List.mem_cons_self
        · exact (ih hmem).imp id (List.mem_cons_of_mem first)

theorem mem_of_mem_ofList {same : Field × Value → Field × Value → Bool} {entry : Field × Value}
    {entries : List (Field × Value)} (h : entry ∈ Keyed.ofList same entries) : entry ∈ entries := by
  induction entries using List.reverseRecOn with
  | nil => exact h
  | append_singleton entries last ih =>
      have hput : entry ∈ Keyed.put (same last) last (Keyed.ofList same entries) := by
        simpa [Keyed.ofList] using h
      rcases mem_of_mem_put hput with rfl | hmem
      · simp
      · exact List.mem_append_left _ (ih hmem)

theorem Sheet.setAll_apply (sheet : Sheet) (entries : List (Field × Value)) (field : Field) :
    sheet.setAll entries field = (lastFor entries field).getD (sheet field) := by
  induction entries generalizing sheet with
  | nil => rfl
  | cons entry entries ih =>
      have hrest := ih (sheet.set entry.1 entry.2)
      rw [lastFor_cons]
      simp only [Sheet.setAll, List.foldl_cons] at hrest ⊢
      rw [hrest]
      cases lastFor entries field with
      | some value => rfl
      | none =>
          by_cases h : entry.1 = field
          · simp [Sheet.set, h]
          · simp [Sheet.set, h, Ne.symm h]

end LinerNotes
