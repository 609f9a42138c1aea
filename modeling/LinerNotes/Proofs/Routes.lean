import Mathlib.Data.List.Basic
import LinerNotes.Proofs.Places

/-!
Paths as rows of names. A path is followed name by name, so what it leads to can be told from where
its first names lead and what comes after them.
-/

namespace LinerNotes

open LinerNotes.Text

namespace Path

/-- The names that a path goes through, in order. -/
def names (path : List Char) : List String :=
  ((pieces '/' path).filter (· != [])).map String.ofList

theorem of_mem_names {path : List Char} {name : String} (h : name ∈ names path) :
    name ≠ "" ∧ '/' ∉ name.toList ∧ ∀ c ∈ name.toList, c ∈ path := by
  obtain ⟨piece, hpiece, rfl⟩ := List.mem_map.mp h
  obtain ⟨hmem, hne⟩ := List.mem_filter.mp hpiece
  obtain ⟨hfree, hchars⟩ := of_mem_pieces hmem
  rw [String.toList_ofList]
  refine ⟨?_, hfree, hchars⟩
  intro hempty
  rw [← String.toList_inj, String.toList_ofList] at hempty
  simp [hempty] at hne

theorem names_append (before after : List Char) :
    names (before ++ '/' :: after) = names before ++ names after := by
  rw [names, pieces_append, List.filter_append, List.map_append]
  rfl

end Path

namespace Tree

theorem route_eq_ok_iff {path : String} {r : Route} :
    route path = .ok r ↔ path.utf8ByteSize ≤ pathLimit ∧ path.toList.head? ≠ some '/' ∧
      Path.names path.toList = r.through ++ [r.last] ∧
      r.toDirectory = decide (path.toList.getLast? = some '/') := by
  have hnames : ((pieces '/' path.toList).filter (· != [])).map String.ofList =
      Path.names path.toList := rfl
  simp only [route, hnames]
  constructor
  · intro h
    split at h
    · cases h
    rename_i hsize
    split at h
    · cases h
    rename_i hhead
    split at h
    · cases h
    rename_i last hlast
    cases h
    refine ⟨Nat.le_of_not_lt hsize, hhead, ?_, rfl⟩
    exact (List.dropLast_append_getLast? last hlast).symm
  · rintro ⟨hsize, hhead, hnames, hslash⟩
    obtain ⟨through, last, toDirectory⟩ := r
    simp only at hnames hslash
    rw [if_neg (Nat.not_lt.mpr hsize), if_neg hhead, hnames]
    simp [hslash]

theorem walk_append (tree : Tree) (directory : Location) (names others : List String) :
    tree.walk directory (names ++ others) =
      (tree.walk directory names).bind fun middle => tree.walk middle others := by
  induction names generalizing directory with
  | nil => rfl
  | cons name rest ih =>
      rw [List.cons_append, walk, walk]
      cases tree.enter directory name with
      | error cause => rfl
      | ok place =>
          cases place with
          | directory next => exact ih next
          | _ => rfl

theorem walk_single (tree : Tree) (directory : Location) (name : String) :
    tree.walk directory [name] = (tree.enter directory name).bind asDirectory := by
  rw [walk]
  cases tree.enter directory name with
  | error cause => rfl
  | ok place => cases place <;> rfl

theorem directory?_eq_some_iff {tree : Tree} {path : String} {location : Location} :
    tree.directory? path = some location ↔ hasNul path = false ∧ ∃ r directory,
      route path = .ok r ∧ tree.walk [] r.through = .ok directory ∧
      tree.enter directory r.last = .ok (.directory location) := by
  have hfind : tree.directory? path = some location ↔
      hasNul path = false ∧ tree.find path = .ok (.directory location) := by
    unfold directory?
    cases hasNul path with
    | true => simp
    | false =>
        cases tree.find path with
        | error cause => simp
        | ok place => cases place <;> simp
  rw [hfind, find_eq_ok_iff]
  simp

theorem walk_of_directory? {tree : Tree} {path : String} {location : Location}
    (h : tree.directory? path = some location) : hasNul path = false ∧ path.toList ≠ [] ∧
      path.toList.head? ≠ some '/' ∧ tree.walk [] (Path.names path.toList) = .ok location := by
  obtain ⟨hnul, r, directory, hroute, hwalk, henter⟩ := directory?_eq_some_iff.mp h
  obtain ⟨-, hhead, hnames, -⟩ := route_eq_ok_iff.mp hroute
  refine ⟨hnul, ?_, hhead, ?_⟩
  · intro hempty
    simp [hempty, Path.names, pieces] at hnames
  · rw [hnames, walk_append, hwalk]
    simp [Except.bind, walk_single, henter, asDirectory]

theorem plain_of_route {path : String} {r : Route} (hnul : hasNul path = false)
    (hroute : route path = .ok r) : ∀ name ∈ r.through ++ [r.last],
      name ≠ "" ∧ '/' ∉ name.toList ∧ '\x00' ∉ name.toList := by
  intro name hname
  obtain ⟨-, -, hnames, -⟩ := route_eq_ok_iff.mp hroute
  rw [← hnames] at hname
  obtain ⟨hne, hslash, hchars⟩ := Path.of_mem_names hname
  refine ⟨hne, hslash, fun hmem => ?_⟩
  have hfree : '\x00' ∉ path.toList := by simpa [hasNul] using hnul
  exact hfree (hchars _ hmem)

theorem getLast?_of_file? {tree : Tree} {path : String} {file : File}
    (h : tree.file? path = some file) : file.location.getLast? = some (Path.name path) := by
  obtain ⟨-, r, directory, hroute, -, henter, hslash⟩ := file?_eq_some_iff.mp h
  rw [location_of_enter henter, List.getLast?_append, last_of_route hroute hslash]
  rfl

theorem getLast?_of_vacant? {tree : Tree} {path : String} {location : Location}
    (h : tree.vacant? path = some location) : location.getLast? = some (Path.name path) := by
  obtain ⟨-, r, directory, hroute, -, henter, hslash⟩ := vacant?_eq_some_iff.mp h
  rw [(enter_eq_vacant henter).1, List.getLast?_append, last_of_route hroute hslash]
  rfl

end Tree

end LinerNotes
