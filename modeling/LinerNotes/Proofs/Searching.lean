import Mathlib.Data.List.Nodup
import LinerNotes.Batch.Expansion
import LinerNotes.Proofs.Naming
import LinerNotes.Proofs.Soundness

/-!
What the search of a directory finds: a path for each file, and no two paths to one file. Only a
path beyond the limit of the system leads nowhere.
-/

namespace LinerNotes

open LinerNotes.Text

namespace Path

theorem names_of_not_mem {name : List Char} (hne : name ≠ []) (hslash : '/' ∉ name) :
    names name = [String.ofList name] := by
  simp [names, pieces_of_not_mem hslash, hne]

theorem names_joinChars {directory name : List Char} (hdirectory : directory ≠ [])
    (hname : name.head? ≠ some '/') :
    names (joinChars directory name) = names directory ++ names name := by
  rw [joinChars, if_neg hname]
  by_cases hslash : directory.getLast? = some '/'
  · rw [if_pos (.inr hslash)]
    obtain ⟨before, rfl⟩ := List.getLast?_eq_some_iff.mp hslash
    have hbefore : names (before ++ ['/']) = names before := by
      rw [names_append]
      simp [names, pieces]
    rw [hbefore, List.append_assoc, List.singleton_append, names_append]
  · rw [if_neg (not_or.mpr ⟨hdirectory, hslash⟩), names_append]

theorem head?_joinChars {directory name : List Char} (hdirectory : directory ≠ [])
    (hname : name.head? ≠ some '/') : (joinChars directory name).head? = directory.head? := by
  obtain ⟨c, rest, rfl⟩ := List.exists_cons_of_ne_nil hdirectory
  rw [joinChars, if_neg hname]
  split <;> rfl

theorem getLast?_joinChars (directory : List Char) {name : List Char} (hname : name ≠ []) :
    (joinChars directory name).getLast? = name.getLast? := by
  obtain ⟨before, last, rfl⟩ := (List.eq_nil_or_concat' name).resolve_left hname
  rw [joinChars]
  split
  · rfl
  · split
    · simp
    · rw [List.getLast?_append, List.getLast?_cons_of_ne_nil hname]
      simp

end Path

namespace Tree

theorem pathOf_cons_cons (name other : String) (rest : Location) :
    (pathOf (name :: other :: rest)).toList =
      name.toList ++ '/' :: (pathOf (other :: rest)).toList := by
  simp [pathOf, String.toList_intercalate]

theorem pathOf_singleton (name : String) : pathOf [name] = name := by
  simp [pathOf]

theorem names_pathOf {rest : Location} (h : ∀ name ∈ rest, IsName name) :
    Path.names (pathOf rest).toList = rest := by
  induction rest with
  | nil => rfl
  | cons name rest ih =>
      have hname := h name List.mem_cons_self
      have hne : name.toList ≠ [] := by simpa using hname.nonempty
      have hfirst : Path.names name.toList = [name] := by
        rw [Path.names_of_not_mem hne hname.plain.1, String.ofList_toList]
      cases rest with
      | nil => rw [pathOf_singleton, hfirst]
      | cons other rest =>
          rw [pathOf_cons_cons, Path.names_append, hfirst,
            ih fun name hmem => h name (List.mem_cons_of_mem _ hmem)]
          rfl

theorem pathOf_ne_nil {rest : Location} (h : ∀ name ∈ rest, IsName name) (hne : rest ≠ []) :
    (pathOf rest).toList ≠ [] := by
  intro hempty
  rw [← names_pathOf h, hempty] at hne
  exact hne rfl

theorem plain_pathOf {rest : Location} (h : ∀ name ∈ rest, IsName name) :
    (pathOf rest).toList.head? ≠ some '/' ∧ (pathOf rest).toList.getLast? ≠ some '/' ∧
      '\x00' ∉ (pathOf rest).toList := by
  induction rest with
  | nil => simp [pathOf]
  | cons name rest ih =>
      have hname := h name List.mem_cons_self
      have hne : name.toList ≠ [] := by simpa using hname.nonempty
      have hslash : ∀ c ∈ name.toList, c ≠ '/' := fun c hc heq => hname.plain.1 (heq ▸ hc)
      obtain ⟨c, others, hchars⟩ := List.exists_cons_of_ne_nil hne
      have hhead : c ≠ '/' := hslash c (hchars ▸ List.mem_cons_self)
      cases rest with
      | nil =>
          rw [pathOf_singleton]
          refine ⟨by simpa [hchars] using hhead, ?_, hname.plain.2⟩
          intro hlast
          exact hslash '/' (List.mem_of_getLast? hlast) rfl
      | cons other rest =>
          have hrest : ∀ name ∈ other :: rest, IsName name :=
            fun name hmem => h name (List.mem_cons_of_mem _ hmem)
          obtain ⟨-, hlast, hnul⟩ := ih hrest
          rw [pathOf_cons_cons]
          refine ⟨by simpa [hchars] using hhead, ?_, ?_⟩
          · have hother := pathOf_ne_nil hrest (List.cons_ne_nil other rest)
            rw [List.getLast?_append, List.getLast?_cons_of_ne_nil hother]
            simpa [List.getLast?_eq_some_getLast hother] using hlast
          · simp [hname.plain.2, hnul]

theorem hasNul_join {path : String} {rest : Location} (hnul : hasNul path = false)
    (h : ∀ name ∈ rest, IsName name) : hasNul (Path.join path (pathOf rest)) = false := by
  obtain ⟨-, -, hfree⟩ := plain_pathOf h
  simp only [hasNul, List.contains_eq_mem, decide_eq_false_iff_not] at hnul ⊢
  intro hmem
  rcases Path.mem_of_mem_join hmem with hold | hslash | hrest
  · exact hnul hold
  · cases hslash
  · exact hfree hrest

theorem route_join {path : String} (hne : path.toList ≠ []) (hhead : path.toList.head? ≠ some '/')
    {through : Location} {last : String} (h : ∀ name ∈ through ++ [last], IsName name)
    (hsize : (Path.join path (pathOf (through ++ [last]))).utf8ByteSize ≤ pathLimit) :
    route (Path.join path (pathOf (through ++ [last]))) =
      .ok ⟨Path.names path.toList ++ through, last, false⟩ := by
  obtain ⟨hfirst, hlast, -⟩ := plain_pathOf h
  have hlong := pathOf_ne_nil h (by simp)
  rw [route_eq_ok_iff]
  refine ⟨hsize, ?_, ?_, ?_⟩
  · rw [Path.join, String.toList_ofList, Path.head?_joinChars hne hfirst]
    exact hhead
  · rw [Path.join, String.toList_ofList, Path.names_joinChars hne hfirst, names_pathOf h,
      List.append_assoc]
  · rw [Path.join, String.toList_ofList, Path.getLast?_joinChars path.toList hlong]
    simp [hlast]

theorem enter_of_isName (tree : Tree) (directory : Location) {name : String} (h : IsName name) :
    tree.enter directory name = .ok (tree.placeAt (directory ++ [name])) :=
  enter_eq_ok_iff.mpr ⟨h.short, .inr (.inr ⟨h.proper, rfl⟩)⟩

namespace Sound

variable {tree : Tree}

theorem walk_down (h : tree.Sound) {file : File} (hfile : file ∈ tree.files)
    {directory names : Location} (hlocation : directory ++ names <+: file.location)
    (hne : directory ++ names ≠ file.location) :
    tree.walk directory names = .ok (directory ++ names) := by
  induction names generalizing directory with
  | nil => rw [walk, List.append_nil]
  | cons name rest ih =>
      have hsplit : directory ++ name :: rest = directory ++ [name] ++ rest := by simp
      rw [hsplit] at hlocation hne ⊢
      have hwithin : directory ++ [name] <+: file.location :=
        (List.prefix_append _ rest).trans hlocation
      have hname : IsName name := (h.admitted file hfile).named name (hwithin.subset (by simp))
      have hdirectory : tree.hasDirectory (directory ++ [name]) = true := by
        refine h.hasDirectory_of_prefix hfile hwithin ?_
        intro hwhole
        refine hne (hlocation.eq_of_length_le ?_)
        simp [← hwhole]
      have henter : tree.enter directory name = .ok (.directory (directory ++ [name])) := by
        rw [enter_of_isName tree directory hname, placeAt_eq_directory_iff.mpr
          ⟨rfl, h.fileAt?_of_hasDirectory hdirectory, hdirectory⟩]
      rw [walk, henter]
      exact ih hlocation hne

theorem ne_nil_of_location (h : tree.Sound) {path : String} {location rest : Location}
    (hpath : tree.directory? path = some location) {file : File} (hfile : file ∈ tree.files)
    (hlocation : file.location = location ++ rest) : rest ≠ [] := by
  rintro rfl
  have hstanding := standing_of_directory? hpath
  have hfree := (h.admitted file hfile).apart
  rw [hlocation, List.append_nil, hstanding.housed location (List.prefix_refl location)] at hfree
  cases hfree

theorem named_below (h : tree.Sound) {file : File} (hfile : file ∈ tree.files)
    {location rest : Location} (hlocation : file.location = location ++ rest) :
    ∀ name ∈ rest, IsName name :=
  fun name hname => (h.admitted file hfile).named name (hlocation ▸ List.mem_append_right _ hname)

theorem exists_last (h : tree.Sound) {path : String} {location rest : Location}
    (hpath : tree.directory? path = some location) {file : File} (hfile : file ∈ tree.files)
    (hlocation : file.location = location ++ rest) :
    ∃ through last, rest = through ++ [last] ∧ (∀ name ∈ through, IsName name) ∧ IsName last := by
  obtain ⟨through, last, rfl⟩ :=
    (List.eq_nil_or_concat' rest).resolve_left (h.ne_nil_of_location hpath hfile hlocation)
  have hnamed := h.named_below hfile hlocation
  exact ⟨through, last, rfl, fun name hname => hnamed name (List.mem_append_left _ hname),
    hnamed last (List.mem_append_right through List.mem_cons_self)⟩

theorem file?_join (h : tree.Sound) {path : String} {location rest : Location}
    (hpath : tree.directory? path = some location) {file : File} (hfile : file ∈ tree.files)
    (hlocation : file.location = location ++ rest)
    (hsize : (Path.join path (pathOf rest)).utf8ByteSize ≤ pathLimit) :
    tree.file? (Path.join path (pathOf rest)) = some file := by
  obtain ⟨hnul, hne, hhead, hwalk⟩ := walk_of_directory? hpath
  obtain ⟨through, last, rfl, -, -⟩ := h.exists_last hpath hfile hlocation
  have hnamed := h.named_below hfile hlocation
  have hdown : tree.walk location through = .ok (location ++ through) := by
    refine h.walk_down hfile ?_ ?_
    · rw [hlocation, ← List.append_assoc]
      exact List.prefix_append _ _
    · intro hwhole
      simpa [hlocation] using congrArg List.length hwhole
  rw [file?_eq_some_iff]
  refine ⟨hasNul_join hnul hnamed, _, location ++ through,
    route_join hne hhead hnamed hsize, ?_, ?_, rfl⟩
  · rw [walk_append, hwalk]
    exact hdown
  · have hplace : location ++ through ++ [last] = file.location := by
      rw [hlocation, List.append_assoc]
    rw [enter_of_isName tree _ (hnamed last (by simp)), hplace,
      placeAt_eq_file_iff.mpr (h.fileAt?_of_mem hfile)]

end Sound

theorem file?_of_overlong {path : String} (tree : Tree) (h : pathLimit < path.utf8ByteSize) :
    tree.file? path = none := by
  cases hfile : tree.file? path with
  | none => rfl
  | some file =>
      obtain ⟨-, r, -, hroute, -⟩ := file?_eq_some_iff.mp hfile
      exact absurd (route_eq_ok_iff.mp hroute).1 (Nat.not_le.mpr h)

/-- What a search of a directory sees of a place: the way there, if it is below. -/
def seenFrom (directory : Location) (all : Bool) (location : Location) : Option Location :=
  if directory.isPrefixOf location then
    let rest := location.drop directory.length
    if all || rest.length == 1 then some rest else none
  else none

theorem below_eq (tree : Tree) (directory : Location) (all : Bool) :
    tree.below directory all =
      (tree.files.map File.location).filterMap (seenFrom directory all) := by
  rw [List.filterMap_map]
  rfl

theorem seenFrom_eq_some_iff {directory location rest : Location} {all : Bool} :
    seenFrom directory all location = some rest ↔
      location = directory ++ rest ∧ (all = true ∨ rest.length = 1) := by
  unfold seenFrom
  constructor
  · intro h
    split at h
    · rename_i hwithin
      obtain ⟨others, rfl⟩ := List.isPrefixOf_iff_prefix.mp hwithin
      simp only at h
      split at h
      · rename_i hwanted
        cases h
        rw [List.drop_left] at hwanted ⊢
        exact ⟨rfl, by simpa using hwanted⟩
      · cases h
    · cases h
  · rintro ⟨rfl, hwanted⟩
    have hwithin : directory.isPrefixOf (directory ++ rest) = true :=
      List.isPrefixOf_iff_prefix.mpr (List.prefix_append directory rest)
    simp only [hwithin, if_true, List.drop_left]
    exact if_pos (by simpa using hwanted)

theorem mem_below_iff {tree : Tree} {directory rest : Location} {all : Bool} :
    rest ∈ tree.below directory all ↔
      ∃ file ∈ tree.files, file.location = directory ++ rest ∧ (all = true ∨ rest.length = 1) := by
  rw [below_eq, List.mem_filterMap]
  constructor
  · rintro ⟨location, hmem, hseen⟩
    obtain ⟨file, hfile, rfl⟩ := List.mem_map.mp hmem
    exact ⟨file, hfile, seenFrom_eq_some_iff.mp hseen⟩
  · rintro ⟨file, hfile, hseen⟩
    exact ⟨file.location, List.mem_map_of_mem hfile, seenFrom_eq_some_iff.mpr hseen⟩

theorem nodup_below {tree : Tree} (h : tree.Distinct) (directory : Location) (all : Bool) :
    (tree.below directory all).Nodup := by
  rw [below_eq]
  refine List.Nodup.filterMap ?_ h
  intro location other rest hlocation hother
  rw [(seenFrom_eq_some_iff.mp hlocation).1, (seenFrom_eq_some_iff.mp hother).1]

/-- Whether two paths do not lead to the same file. -/
def LeadsApart (tree : Tree) (path other : String) : Prop :=
  ∀ file ∈ tree.file? path, ∀ file' ∈ tree.file? other, file.location ≠ file'.location

theorem LeadsApart.symm {tree : Tree} {path other : String} (h : tree.LeadsApart path other) :
    tree.LeadsApart other path :=
  fun file hfile file' hfile' => (h file' hfile' file hfile).symm

theorem expand_of_directory? {tree : Tree} {path : String} {location : Location}
    (h : tree.directory? path = some location) (recursive : Bool) :
    tree.expand recursive [path] = tree.audioFiles path location recursive := by
  rw [expand, List.flatMap_singleton, expandInput, h]

theorem mem_expand_iff {tree : Tree} {path : String} {location : Location}
    (h : tree.directory? path = some location) {recursive : Bool} {found : String} :
    found ∈ tree.expand recursive [path] ↔ ∃ file ∈ tree.files, ∃ rest,
      (file.location = location ++ rest ∧ (recursive = true ∨ rest.length = 1)) ∧
      found = Path.join path (pathOf rest) ∧
      tree.finds recursive found = true ∧ isAudioPath found = true := by
  rw [expand_of_directory? h, audioFiles, sorted, List.mem_mergeSort, List.mem_filter,
    List.mem_map, Bool.and_eq_true]
  constructor
  · rintro ⟨⟨rest, hrest, hfound⟩, hfinds⟩
    obtain ⟨file, hfile, hplace⟩ := mem_below_iff.mp hrest
    exact ⟨file, hfile, rest, hplace, hfound.symm, hfinds⟩
  · rintro ⟨file, hfile, rest, hplace, hfound, hfinds⟩
    exact ⟨⟨rest, mem_below_iff.mpr ⟨file, hfile, hplace⟩, hfound.symm⟩, hfinds⟩

namespace Sound

variable {tree : Tree} {path : String} {location : Location}

/-- The paths that a search finds lead to files, unless they are too long. -/
theorem file?_of_mem_expand (h : tree.Sound) (hpath : tree.directory? path = some location)
    {recursive : Bool} {found : String} (hfound : found ∈ tree.expand recursive [path]) :
    ((∃ file, tree.file? found = some file) ↔ found.utf8ByteSize ≤ pathLimit) ∧
      (recursive = false → found.utf8ByteSize ≤ pathLimit) := by
  obtain ⟨file, hfile, rest, ⟨hlocation, -⟩, rfl, hfinds, -⟩ := (mem_expand_iff hpath).mp hfound
  have hleads : (∃ file, tree.file? (Path.join path (pathOf rest)) = some file) ↔
      (Path.join path (pathOf rest)).utf8ByteSize ≤ pathLimit := by
    constructor
    · rintro ⟨other, hother⟩
      refine Nat.le_of_not_lt fun hlong => ?_
      rw [file?_of_overlong tree hlong] at hother
      cases hother
    · intro hsize
      exact ⟨file, h.file?_join hpath hfile hlocation hsize⟩
  refine ⟨hleads, ?_⟩
  rintro rfl
  exact hleads.mp (Option.isSome_iff_exists.mp hfinds)

theorem location_of_file?_join (h : tree.Sound) (hpath : tree.directory? path = some location)
    {recursive : Bool} {rest : Location} (hrest : rest ∈ tree.below location recursive)
    {file : File} (hfile : tree.file? (Path.join path (pathOf rest)) = some file) :
    file.location = location ++ rest := by
  obtain ⟨found, hfound, hlocation, -⟩ := mem_below_iff.mp hrest
  have hsize : (Path.join path (pathOf rest)).utf8ByteSize ≤ pathLimit := by
    refine Nat.le_of_not_lt fun hlong => ?_
    rw [file?_of_overlong tree hlong] at hfile
    cases hfile
  rw [h.file?_join hpath hfound hlocation hsize] at hfile
  cases hfile
  exact hlocation

theorem pairwise_expand (h : tree.Sound) (hpath : tree.directory? path = some location)
    (recursive : Bool) : (tree.expand recursive [path]).Pairwise tree.LeadsApart := by
  rw [expand_of_directory? hpath, audioFiles]
  refine List.Pairwise.perm ?_ (List.mergeSort_perm _ _).symm LeadsApart.symm
  refine List.Pairwise.filter _ (List.pairwise_map.mpr ?_)
  refine List.Pairwise.imp_of_mem ?_ (nodup_below h.distinct location recursive)
  intro rest other hrest hother hne file hfile file' hfile' hsame
  rw [h.location_of_file?_join hpath hrest hfile, h.location_of_file?_join hpath hother hfile']
    at hsame
  exact hne (List.append_cancel_left hsame)

end Sound

end Tree

end LinerNotes
