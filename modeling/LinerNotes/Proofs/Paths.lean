import Mathlib.Data.List.TakeWhile
import LinerNotes.Path

/-!
Paths as texts: the directory and the name of a path and of a joined path, the characters that they
can hold, and the endings of a name.
-/

namespace LinerNotes.Path

open LinerNotes.Text

theorem not_mem_nameChars (path : List Char) : '/' ∉ nameChars path := by
  unfold nameChars
  split
  · rename_i before name hcut
    exact not_mem_after_of_cutLast hcut
  · rename_i hcut
    exact not_mem_of_cutLast hcut

theorem nameChars_of_not_mem {name : List Char} (h : '/' ∉ name) : nameChars name = name := by
  rw [nameChars, cutLast_of_not_mem h]

theorem nameChars_ne_nil {path : List Char} (hne : path ≠ []) (hlast : path.getLast? ≠ some '/') :
    nameChars path ≠ [] := by
  unfold nameChars
  split
  · rename_i before name hcut
    rintro rfl
    rw [eq_of_cutLast hcut] at hlast
    simp at hlast
  · exact hne

theorem nameChars_name (path : String) : nameChars (name path).toList = nameChars path.toList := by
  rw [name, String.toList_ofList, nameChars_of_not_mem (not_mem_nameChars path.toList)]

theorem name_suffix (path : String) : (name path).toList <:+ path.toList := by
  rw [name, String.toList_ofList, nameChars]
  split
  · rename_i before after hcut
    exact ⟨before ++ ['/'], by simp [eq_of_cutLast hcut]⟩
  · exact List.suffix_refl _

theorem directoryChars_cases (path : List Char) :
    directoryChars path = [] ∨
      (∃ before, before.all (· == '/') = true ∧ directoryChars path = before ++ ['/']) ∨
      ∃ before c, c ≠ '/' ∧ directoryChars path = before ++ [c] := by
  unfold directoryChars
  split
  · rename_i before name hcut
    split
    · rename_i hall
      exact .inr (.inl ⟨before, hall, rfl⟩)
    · rename_i hall
      right
      right
      have hne : before.reverse.dropWhile (· == '/') ≠ [] := by
        rw [ne_eq, List.dropWhile_eq_nil_iff]
        intro hslashes
        exact hall (List.all_eq_true.mpr fun c hc => hslashes c (List.mem_reverse.mpr hc))
      obtain ⟨c, rest, hkept⟩ := List.exists_cons_of_ne_nil hne
      have hc : ¬ (c == '/') = true := by
        have := List.head_dropWhile_not (· == '/') hne
        simpa [hkept] using this
      refine ⟨rest.reverse, c, by simpa using hc, ?_⟩
      rw [hkept, List.reverse_cons]
  · exact .inl rfl

theorem directoryChars_append (before : List Char) {name : List Char} (h : '/' ∉ name) :
    directoryChars (before ++ '/' :: name) =
      if before.all (· == '/') then before ++ ['/']
      else (before.reverse.dropWhile (· == '/')).reverse := by
  simp only [directoryChars, cutLast_append before h]

theorem nameChars_append (before : List Char) {name : List Char} (h : '/' ∉ name) :
    nameChars (before ++ '/' :: name) = name := by
  simp only [nameChars, cutLast_append before h]

theorem directoryChars_joinChars (path : List Char) {name : List Char} (h : '/' ∉ name) :
    directoryChars (joinChars (directoryChars path) name) = directoryChars path ∧
      nameChars (joinChars (directoryChars path) name) = name := by
  have hhead : name.head? ≠ some '/' := fun hhead => h (List.mem_of_head? hhead)
  rcases directoryChars_cases path with hnone | ⟨before, hall, hroot⟩ | ⟨before, c, hc, hlast⟩
  · have hjoin : joinChars [] name = name := by simp [joinChars, hhead]
    rw [hnone, hjoin]
    simp [directoryChars, nameChars, cutLast_of_not_mem h]
  · have hjoin : joinChars (before ++ ['/']) name = before ++ '/' :: name := by
      simp [joinChars, hhead]
    rw [hroot, hjoin, directoryChars_append before h, nameChars_append before h, if_pos hall]
    exact ⟨rfl, rfl⟩
  · have hjoin : joinChars (before ++ [c]) name = (before ++ [c]) ++ '/' :: name := by
      simp [joinChars, hhead, hc]
    have hslash : ¬ (before ++ [c]).all (· == '/') = true := by simp [hc]
    rw [hlast, hjoin, directoryChars_append _ h, nameChars_append _ h, if_neg hslash]
    simp [hc]

theorem directory_join (path : String) {new : String} (h : '/' ∉ new.toList) :
    directory (join (directory path) new) = directory path ∧
      name (join (directory path) new) = new := by
  obtain ⟨hdirectory, hname⟩ := directoryChars_joinChars path.toList h
  simp only [directory, name, join, String.toList_ofList, hdirectory, hname, String.ofList_toList,
    and_self]

theorem mem_of_mem_directory {path : String} {c : Char} (hc : c ∈ (directory path).toList) :
    c ∈ path.toList := by
  simp only [directory, String.toList_ofList, directoryChars] at hc
  split at hc
  · rename_i before after hcut
    rw [eq_of_cutLast hcut]
    split at hc
    · rcases List.mem_append.mp hc with hbefore | hslash
      · exact List.mem_append_left _ hbefore
      · rw [List.mem_singleton.mp hslash]
        simp
    · have hmem := (List.dropWhile_suffix _).subset (List.mem_reverse.mp hc)
      exact List.mem_append_left _ (List.mem_reverse.mp hmem)
  · cases hc

theorem mem_of_mem_name {path : String} {c : Char} (hc : c ∈ (name path).toList) :
    c ∈ path.toList := by
  simp only [name, String.toList_ofList, nameChars] at hc
  split at hc
  · rename_i before after hcut
    rw [eq_of_cutLast hcut]
    exact List.mem_append_right _ (List.mem_cons_of_mem _ hc)
  · exact hc

theorem mem_of_mem_extension {path : String} {c : Char} (hc : c ∈ (extension path).toList) :
    c ∈ path.toList := by
  refine mem_of_mem_name ?_
  simp only [extension, String.toList_ofList] at hc
  rw [name, String.toList_ofList, ← splitExtension_append (nameChars path.toList)]
  exact List.mem_append_right _ hc

theorem mem_of_mem_join {directory name : String} {c : Char}
    (hc : c ∈ (join directory name).toList) :
    c ∈ directory.toList ∨ c = '/' ∨ c ∈ name.toList := by
  simp only [join, String.toList_ofList, joinChars] at hc
  split at hc
  · exact .inr (.inr hc)
  · split at hc
    · rcases List.mem_append.mp hc with hleft | hright
      · exact .inl hleft
      · exact .inr (.inr hright)
    · rcases List.mem_append.mp hc with hleft | hright
      · exact .inl hleft
      · exact .inr (List.mem_cons.mp hright)

theorem mem_join {directory name : String} {c : Char} (hc : c ∈ name.toList) :
    c ∈ (join directory name).toList := by
  simp only [join, String.toList_ofList, joinChars]
  split
  · exact hc
  · split
    · exact List.mem_append_right _ hc
    · exact List.mem_append_right _ (List.mem_cons_of_mem _ hc)

theorem not_mem_extension (path : String) : '/' ∉ (extension path).toList := by
  intro hmem
  apply not_mem_nameChars path.toList
  rw [← splitExtension_append (nameChars path.toList)]
  simp only [extension, String.toList_ofList] at hmem
  exact List.mem_append_right _ hmem

theorem stem_name (path : String) : stem (name path) = stem path := by
  rw [stem, stem, nameChars_name]

theorem suffix_name (path : String) : suffix (name path) = suffix path := by
  rw [suffix, suffix, nameChars_name]

theorem extension_name (path : String) : extension (name path) = extension path := by
  rw [extension, extension, nameChars_name]

theorem suffix_congr {path path' : String} (h : name path' = name path) :
    suffix path' = suffix path := by
  rw [← suffix_name path', h, suffix_name]

theorem suffixChars_append {before after : List Char} (hbefore : before ≠ []) (hafter : after ≠ [])
    (hdot : '.' ∉ after) : suffixChars (before ++ '.' :: after) = '.' :: after := by
  simp [suffixChars, cutLast_append before hdot, hbefore, hafter]

theorem exists_of_suffix_ne {path : String} (h : suffix path ≠ "") : ∃ before after,
    nameChars path.toList = before ++ '.' :: after ∧ before ≠ [] ∧ after ≠ [] ∧ '.' ∉ after := by
  unfold suffix suffixChars at h
  cases hcut : cutLast '.' (nameChars path.toList) with
  | none => simp [hcut] at h
  | some parts =>
      obtain ⟨before, after⟩ := parts
      by_cases hnone : before = [] ∨ after = []
      · simp [hcut, hnone] at h
      · obtain ⟨hbefore, hafter⟩ := not_or.mp hnone
        exact ⟨before, after, eq_of_cutLast hcut, hbefore, hafter, not_mem_after_of_cutLast hcut⟩

theorem suffix_append_suffix {path stem : String} (hsuffix : suffix path ≠ "") (hstem : stem ≠ "")
    (hslash : '/' ∉ (stem ++ suffix path).toList) : suffix (stem ++ suffix path) = suffix path := by
  obtain ⟨before, after, hname, hbefore, hafter, hdot⟩ := exists_of_suffix_ne hsuffix
  have hending : suffix path = String.ofList ('.' :: after) := by
    rw [suffix, hname, suffixChars_append hbefore hafter hdot]
  have hne : stem.toList ≠ [] := by simpa using hstem
  rw [suffix, nameChars_of_not_mem hslash, hending, String.toList_append, String.toList_ofList,
    suffixChars_append hne hafter hdot]

theorem extension_of_nameChars {path : String} {before after : List Char}
    (hname : nameChars path.toList = before ++ '.' :: after) (hdot : '.' ∉ after) :
    extension path = String.ofList (if before.all (· == '.') then [] else '.' :: after) := by
  rw [extension, hname, splitExtension, cutLast_append before hdot]
  simp only
  split <;> rfl

theorem extension_eq_suffix_iff {path : String} (hsuffix : suffix path ≠ "") :
    extension path = suffix path ↔ ∃ before after,
      nameChars path.toList = before ++ '.' :: after ∧ '.' ∉ after ∧ ∃ c ∈ before, c ≠ '.' := by
  obtain ⟨before, after, hname, hbefore, hafter, hdot⟩ := exists_of_suffix_ne hsuffix
  rw [extension_of_nameChars hname hdot, suffix, hname, suffixChars_append hbefore hafter hdot]
  constructor
  · intro h
    refine ⟨before, after, rfl, hdot, ?_⟩
    by_contra hdots
    have hall : before.all (· == '.') = true := by simpa using hdots
    rw [if_pos hall, String.ofList_inj] at h
    cases h
  · rintro ⟨front, ending, hsame, hending, c, hc, hne⟩
    have hcut := cutLast_append before hdot
    rw [hsame, cutLast_append front hending] at hcut
    cases hcut
    have hall : ¬ before.all (· == '.') = true := fun hdots =>
      hne (by simpa using List.all_eq_true.mp hdots c hc)
    rw [if_neg hall]

theorem exists_of_extension_ne {path : String} (h : extension path ≠ "") : ∃ after,
    extension path = String.ofList ('.' :: after) ∧ '.' ∉ after := by
  unfold extension splitExtension at h ⊢
  cases hcut : cutLast '.' (nameChars path.toList) with
  | none => simp [hcut] at h
  | some parts =>
      obtain ⟨before, after⟩ := parts
      by_cases hall : before.all (· == '.') = true
      · simp [hcut, hall] at h
      · exact ⟨after, by simp only [if_neg hall], not_mem_after_of_cutLast hcut⟩

/-- A text before an extension leaves it one, unless the text is nothing but dots. -/
theorem extension_append_extension {stem path : String} (hext : extension path ≠ "")
    (hstem : '/' ∉ stem.toList) : extension (stem ++ extension path) =
      if stem.toList.all (· == '.') then "" else extension path := by
  obtain ⟨after, hafter, hdot⟩ := exists_of_extension_ne hext
  have hfree : '/' ∉ (stem ++ extension path).toList := by
    rw [String.toList_append, List.mem_append]
    exact not_or.mpr ⟨hstem, not_mem_extension path⟩
  have hname : nameChars (stem ++ extension path).toList = stem.toList ++ '.' :: after := by
    rw [nameChars_of_not_mem hfree, hafter, String.toList_append, String.toList_ofList]
  rw [extension_of_nameChars hname hdot, hafter]
  split <;> rfl

end LinerNotes.Path
