import LinerNotes.Renaming

/-!
Where paths lead after the tree has changed. New tags in a file leave every path as it was; a file
that moves to a vacant place is found there, and all other files stay.
-/

namespace LinerNotes

open LinerNotes.Text

/-- The file with the given tags, if it is the one at the location. -/
def File.retagged (location : Location) (tags : Option Container) (file : File) : File :=
  if file.location = location then { file with tags := tags } else file

theorem File.retagged_location (location : Location) (tags : Option Container) (file : File) :
    (file.retagged location tags).location = file.location := by
  unfold retagged
  split <;> rfl

/-- The file at its new location, if it is the one that moves. -/
def File.moved (source target : Location) (file : File) : File :=
  if file.location = source then { file with location := target } else file

/-- The place with the given tags in its file, if that is the one at the location. -/
def Place.retagged (location : Location) (tags : Option Container) : Place → Place
  | .file found => .file (found.retagged location tags)
  | place => place

namespace Tree

/-- What stands at a location. -/
def placeAt (tree : Tree) (location : Location) : Place :=
  match tree.fileAt? location with
  | some file => .file file
  | none => if tree.hasDirectory location then .directory location else .vacant location

theorem placeAt_eq_file_iff {tree : Tree} {location : Location} {file : File} :
    tree.placeAt location = .file file ↔ tree.fileAt? location = some file := by
  unfold placeAt
  cases tree.fileAt? location with
  | some other => simp
  | none => cases tree.hasDirectory location <;> simp

theorem placeAt_eq_directory_iff {tree : Tree} {location next : Location} :
    tree.placeAt location = .directory next ↔
      next = location ∧ tree.fileAt? location = none ∧ tree.hasDirectory location = true := by
  unfold placeAt
  cases tree.fileAt? location with
  | some other => simp
  | none => cases tree.hasDirectory location <;> simp [eq_comm]

theorem placeAt_eq_vacant_iff {tree : Tree} {location next : Location} :
    tree.placeAt location = .vacant next ↔
      next = location ∧ tree.fileAt? location = none ∧ tree.hasDirectory location = false := by
  unfold placeAt
  cases tree.fileAt? location with
  | some other => simp
  | none => cases tree.hasDirectory location <;> simp [eq_comm]

theorem enter_eq_ok_iff {tree : Tree} {directory : Location} {name : String} {place : Place} :
    tree.enter directory name = .ok place ↔ name.utf8ByteSize ≤ nameLimit ∧
      (name = "." ∧ place = .directory directory ∨
        name = ".." ∧ place = .directory directory.dropLast ∨
        (name ≠ "." ∧ name ≠ "..") ∧ tree.placeAt (directory ++ [name]) = place) := by
  have hplace : tree.enter directory name =
      if nameLimit < name.utf8ByteSize then .error .nameTooLong
      else if name == "." then .ok (.directory directory)
      else if name == ".." then .ok (.directory directory.dropLast)
      else .ok (tree.placeAt (directory ++ [name])) := by
    simp only [enter, placeAt]
    cases tree.fileAt? (directory ++ [name]) with
    | some file => rfl
    | none => cases tree.hasDirectory (directory ++ [name]) <;> rfl
  rw [hplace]
  by_cases hlength : nameLimit < name.utf8ByteSize
  · simp [hlength, Nat.not_le.mpr hlength]
  rw [if_neg hlength]
  simp only [Nat.le_of_not_lt hlength, true_and]
  by_cases hdot : name = "."
  · simp [hdot, eq_comm]
  by_cases hdots : name = ".."
  · simp [hdots, eq_comm]
  simp [hdot, hdots]

theorem placeAt_of_enter_file {tree : Tree} {directory : Location} {name : String} {file : File}
    (h : tree.enter directory name = .ok (.file file)) : name.utf8ByteSize ≤ nameLimit ∧
      (name ≠ "." ∧ name ≠ "..") ∧ tree.fileAt? (directory ++ [name]) = some file := by
  obtain ⟨hlength, ⟨-, hplace⟩ | ⟨-, hplace⟩ | ⟨hproper, hplace⟩⟩ := enter_eq_ok_iff.mp h
  · cases hplace
  · cases hplace
  · exact ⟨hlength, hproper, placeAt_eq_file_iff.mp hplace⟩

theorem location_of_enter {tree : Tree} {directory : Location} {name : String} {file : File}
    (h : tree.enter directory name = .ok (.file file)) : file.location = directory ++ [name] := by
  simpa using List.find?_some (placeAt_of_enter_file h).2.2

theorem enter_eq_file {tree : Tree} {directory : Location} {name : String} {file : File}
    (h : tree.enter directory name = .ok (.file file)) :
    tree.fileAt? file.location = some file ∧ name.utf8ByteSize ≤ nameLimit := by
  obtain ⟨hlength, -, hfile⟩ := placeAt_of_enter_file h
  rw [location_of_enter h]
  exact ⟨hfile, hlength⟩

theorem placeAt_of_enter_vacant {tree : Tree} {directory location : Location} {name : String}
    (h : tree.enter directory name = .ok (.vacant location)) : name.utf8ByteSize ≤ nameLimit ∧
      (name ≠ "." ∧ name ≠ "..") ∧ location = directory ++ [name] ∧
      tree.fileAt? location = none ∧ tree.hasDirectory location = false := by
  obtain ⟨hlength, ⟨-, hplace⟩ | ⟨-, hplace⟩ | ⟨hproper, hplace⟩⟩ := enter_eq_ok_iff.mp h
  · cases hplace
  · cases hplace
  · obtain ⟨rfl, hvacant⟩ := placeAt_eq_vacant_iff.mp hplace
    exact ⟨hlength, hproper, rfl, hvacant⟩

theorem enter_eq_vacant {tree : Tree} {directory location : Location} {name : String}
    (h : tree.enter directory name = .ok (.vacant location)) :
    location = directory ++ [name] ∧ tree.fileAt? location = none ∧
      tree.hasDirectory location = false :=
  (placeAt_of_enter_vacant h).2.2

theorem find_eq (tree : Tree) {path : String} {r : Route} (hroute : route path = .ok r)
    {directory : Location} (hwalk : tree.walk [] r.through = .ok directory) :
    tree.find path = (tree.enter directory r.last).bind fun place =>
      match place with
      | .file file => if r.toDirectory then .error .notADirectory else .ok (.file file)
      | place => .ok place := by
  rw [find, hroute]
  change (tree.walk [] r.through >>= fun directory => _) = _
  rw [hwalk]
  rfl

theorem find_eq_ok_iff {tree : Tree} {path : String} {place : Place} :
    tree.find path = .ok place ↔ ∃ r directory, route path = .ok r ∧
      tree.walk [] r.through = .ok directory ∧ tree.enter directory r.last = .ok place ∧
      ∀ file, place = .file file → r.toDirectory = false := by
  constructor
  · intro h
    cases hroute : route path with
    | error cause => simp [find, hroute, bind, Except.bind] at h
    | ok r =>
        cases hwalk : tree.walk [] r.through with
        | error cause => simp [find, hroute, hwalk, bind, Except.bind] at h
        | ok directory =>
            rw [find_eq tree hroute hwalk] at h
            refine ⟨r, directory, rfl, hwalk, ?_⟩
            cases henter : tree.enter directory r.last with
            | error cause => simp [henter, Except.bind] at h
            | ok other =>
                rw [henter] at h
                cases other with
                | file file =>
                    cases hslash : r.toDirectory with
                    | true => simp [hslash, Except.bind] at h
                    | false =>
                        simp only [Except.bind, hslash, Bool.false_eq_true, if_false] at h
                        exact ⟨h, fun _ _ => rfl⟩
                | _ =>
                    cases h
                    exact ⟨rfl, by simp⟩
  · rintro ⟨r, directory, hroute, hwalk, henter, hslash⟩
    rw [find_eq tree hroute hwalk, henter]
    cases place with
    | file file => simp [Except.bind, hslash file rfl]
    | _ => rfl

theorem file?_eq_some_iff {tree : Tree} {path : String} {file : File} :
    tree.file? path = some file ↔ hasNul path = false ∧ ∃ r directory, route path = .ok r ∧
      tree.walk [] r.through = .ok directory ∧ tree.enter directory r.last = .ok (.file file) ∧
      r.toDirectory = false := by
  have hfind : tree.file? path = some file ↔
      hasNul path = false ∧ tree.find path = .ok (.file file) := by
    unfold file?
    cases hasNul path with
    | true => simp
    | false =>
        cases tree.find path with
        | error cause => simp
        | ok place => cases place <;> simp
  rw [hfind, find_eq_ok_iff]
  simp

/-- The place that a file would get at a path: nothing is there yet, but its directory is. -/
def vacant? (tree : Tree) (path : String) : Option Location :=
  match route path with
  | .ok r =>
      if hasNul path || r.toDirectory then none
      else
        match tree.find path with
        | .ok (.vacant location) => some location
        | _ => none
  | .error _ => none

theorem vacant?_eq_some_iff {tree : Tree} {path : String} {location : Location} :
    tree.vacant? path = some location ↔ hasNul path = false ∧ ∃ r directory, route path = .ok r ∧
      tree.walk [] r.through = .ok directory ∧
      tree.enter directory r.last = .ok (.vacant location) ∧ r.toDirectory = false := by
  have hfind : tree.vacant? path = some location ↔ hasNul path = false ∧
      tree.find path = .ok (.vacant location) ∧
        ∃ r, route path = .ok r ∧ r.toDirectory = false := by
    unfold vacant?
    cases route path with
    | error cause => simp
    | ok r =>
        cases hasNul path <;> cases hslash : r.toDirectory <;> simp [hslash]
        cases tree.find path with
        | error cause => simp
        | ok place => cases place <;> simp
  rw [hfind, find_eq_ok_iff]
  constructor
  · rintro ⟨hnul, ⟨r, directory, hroute, hwalk, henter, -⟩, r', hroute', hslash⟩
    rw [hroute] at hroute'
    cases hroute'
    exact ⟨hnul, r, directory, hroute, hwalk, henter, hslash⟩
  · rintro ⟨hnul, r, directory, hroute, hwalk, henter, hslash⟩
    exact ⟨hnul, ⟨r, directory, hroute, hwalk, henter, fun _ _ => hslash⟩, r, hroute, hslash⟩

theorem getLast?_filter {pieces before : List (List Char)} {last : List Char}
    (h : pieces = before ++ [last]) (hne : last ≠ []) :
    (pieces.filter (· != [])).getLast? = some last := by
  subst h
  have hlast : [last].filter (· != []) = [last] := by simp [hne]
  rw [List.filter_append, hlast, List.getLast?_append]
  rfl

theorem last_of_route {path : String} {r : Route} (h : route path = .ok r)
    (hslash : r.toDirectory = false) : r.last = Path.name path := by
  simp only [route] at h
  split at h
  · cases h
  split at h
  · cases h
  split at h
  · cases h
  rename_i last hlast
  simp only [Except.ok.injEq] at h
  subst h
  simp only [decide_eq_false_iff_not] at hslash
  rw [List.getLast?_map] at hlast
  have hname : ((pieces '/' path.toList).filter (· != [])).getLast? =
      some (Path.nameChars path.toList) := by
    unfold Path.nameChars
    cases hcut : cutLast '/' path.toList with
    | some parts =>
        obtain ⟨before, after⟩ := parts
        refine getLast?_filter (pieces_of_cutLast hcut) ?_
        rintro rfl
        rw [eq_of_cutLast hcut] at hslash
        simp at hslash
    | none =>
        have hpieces : pieces '/' path.toList = [] ++ [path.toList] :=
          pieces_of_not_mem (not_mem_of_cutLast hcut)
        refine getLast?_filter hpieces ?_
        intro hempty
        have hnil : path.toList = [] := hempty
        simp [hnil, pieces] at hlast
  rw [hname] at hlast
  simp only [Option.map_some, Option.some.injEq] at hlast
  exact hlast.symm

theorem name_le_of_file? {tree : Tree} {path : String} {file : File}
    (h : tree.file? path = some file) : (Path.name path).utf8ByteSize ≤ nameLimit := by
  obtain ⟨-, r, directory, hroute, -, henter, hslash⟩ := file?_eq_some_iff.mp h
  rw [← last_of_route hroute hslash]
  exact (enter_eq_file henter).2

theorem fileAt?_store (tree : Tree) (location place : Location) (tags : Option Container) :
    (tree.store location tags).fileAt? place =
      (tree.fileAt? place).map (File.retagged location tags) := by
  have hsame : (fun file : File => file.location == place) ∘ File.retagged location tags =
      fun file => file.location == place := by
    funext file
    simp [File.retagged_location]
  change ((tree.files.map (File.retagged location tags)).find? _) = _
  rw [List.find?_map, hsame]
  rfl

theorem enter_store (tree : Tree) (location : Location) (tags : Option Container)
    (directory : Location) (name : String) :
    (tree.store location tags).enter directory name =
      (tree.enter directory name).map (Place.retagged location tags) := by
  have hdirectory : (tree.store location tags).hasDirectory = tree.hasDirectory := rfl
  simp only [enter, fileAt?_store, hdirectory]
  by_cases hlength : nameLimit < name.utf8ByteSize
  · simp [hlength, Except.map]
  simp only [hlength, if_false]
  cases hdot : name == "."
  case true => rfl
  cases hdots : name == ".."
  case true => rfl
  cases tree.fileAt? (directory ++ [name]) with
  | some file => rfl
  | none => cases hhas : tree.hasDirectory (directory ++ [name]) <;> rfl

theorem walk_store (tree : Tree) (location : Location) (tags : Option Container)
    (directory : Location) (names : List String) :
    (tree.store location tags).walk directory names = tree.walk directory names := by
  induction names generalizing directory with
  | nil => rfl
  | cons name rest ih =>
      simp only [walk, enter_store]
      cases tree.enter directory name with
      | error cause => rfl
      | ok place =>
          cases place with
          | directory next => exact ih next
          | _ => rfl

theorem find_store (tree : Tree) (location : Location) (tags : Option Container) (path : String) :
    (tree.store location tags).find path =
      (tree.find path).map (Place.retagged location tags) := by
  cases hroute : route path with
  | error cause =>
      simp only [find, hroute]
      rfl
  | ok r =>
      cases hwalk : tree.walk [] r.through with
      | error cause => simp [find, hroute, walk_store, hwalk, bind, Except.bind, Except.map]
      | ok directory =>
          have hstored : (tree.store location tags).walk [] r.through = .ok directory := by
            rw [walk_store, hwalk]
          rw [find_eq _ hroute hwalk, find_eq _ hroute hstored, enter_store]
          cases tree.enter directory r.last with
          | error cause => rfl
          | ok place =>
              cases place with
              | file file => cases r.toDirectory <;> rfl
              | _ => rfl

theorem file?_store_eq (tree : Tree) (location : Location) (tags : Option Container)
    (path : String) :
    (tree.store location tags).file? path =
      (tree.file? path).map (File.retagged location tags) := by
  unfold file?
  rw [find_store]
  cases hasNul path with
  | true => rfl
  | false =>
      cases tree.find path with
      | error cause => rfl
      | ok place => cases place <;> rfl

theorem directory?_store (tree : Tree) (location : Location) (tags : Option Container)
    (path : String) : (tree.store location tags).directory? path = tree.directory? path := by
  unfold directory?
  rw [find_store]
  cases hasNul path with
  | true => rfl
  | false =>
      cases tree.find path with
      | error cause => rfl
      | ok place => cases place <;> rfl

theorem pathExists_store (tree : Tree) (location : Location) (tags : Option Container)
    (path : String) : (tree.store location tags).pathExists path = tree.pathExists path := by
  rw [pathExists, file?_store_eq, directory?_store, Option.isSome_map, pathExists]

theorem file?_store {tree : Tree} {path : String} {file : File} (h : tree.file? path = some file)
    (tags : Option Container) :
    (tree.store file.location tags).file? path = some { file with tags := tags } := by
  rw [file?_store_eq, h, Option.map_some, File.retagged, if_pos rfl]

theorem vacant?_store (tree : Tree) (location : Location) (tags : Option Container)
    (path : String) : (tree.store location tags).vacant? path = tree.vacant? path := by
  have hvacant : ∀ directory name place,
      (tree.store location tags).enter directory name = .ok (.vacant place) ↔
        tree.enter directory name = .ok (.vacant place) := by
    intro directory name place
    rw [enter_store]
    cases tree.enter directory name with
    | error cause => simp [Except.map]
    | ok other => cases other <;> simp [Except.map, Place.retagged]
  ext place
  simp only [vacant?_eq_some_iff, walk_store, hvacant]

theorem filter_store (tree : Tree) (location : Location) (tags : Option Container) :
    (tree.store location tags).files.filter (fun file => file.location != location) =
      tree.files.filter fun file => file.location != location := by
  change (tree.files.map (File.retagged location tags)).filter _ = _
  induction tree.files with
  | nil => rfl
  | cons file rest ih =>
      rw [List.map_cons, List.filter_cons, List.filter_cons, File.retagged_location, ih]
      split
      · rename_i hother
        simp [File.retagged, bne_iff_ne.mp hother]
      · rfl

theorem files_store (tree : Tree) (location : Location) (tags : Option Container) :
    (tree.store location tags).files = tree.files.map (File.retagged location tags) := rfl

theorem store_store (tree : Tree) (location : Location) (tags others : Option Container) :
    (tree.store location tags).store location others = tree.store location others := by
  have hfiles : ((tree.store location tags).store location others).files =
      (tree.store location others).files := by
    simp only [files_store, List.map_map]
    congr 1
    funext file
    unfold Function.comp File.retagged
    split <;> simp [*]
  exact Tree.mk.injEq _ _ _ _ ▸ ⟨rfl, hfiles⟩

section Move

variable {tree : Tree} {source target : Location}

theorem not_mem_of_fileAt? {place : Location} (h : tree.fileAt? place = none) {file : File}
    (hfile : file ∈ tree.files) : file.location ≠ place := by
  simpa using List.find?_eq_none.mp h file hfile

theorem files_move (hne : source ≠ target) (hvacant : tree.fileAt? target = none) :
    (tree.move source target).files = tree.files.map (File.moved source target) := by
  have hkeep : (tree.files.filter fun file => file.location != target) = tree.files := by
    rw [List.filter_eq_self]
    intro file hfile
    simpa using not_mem_of_fileAt? hvacant hfile
  simp only [move, hne, if_false, hkeep]
  rfl

theorem directories_move (tree : Tree) (source target : Location) :
    (tree.move source target).directories = tree.directories := by
  unfold move
  split <;> rfl

theorem ne_of_fileAt? (hvacant : tree.fileAt? target = none) {file : File}
    (hfile : tree.fileAt? source = some file) : source ≠ target := by
  rintro rfl
  simp [hvacant] at hfile

theorem find?_moved {files : List File} (hothers : ∀ other ∈ files, other.location ≠ target)
    {file : File} (hfile : (files.find? fun file => file.location == source) = some file) :
    ((files.map (File.moved source target)).find? fun file => file.location == target) =
      some { file with location := target } := by
  induction files with
  | nil => cases hfile
  | cons first rest ih =>
      rw [List.map_cons]
      by_cases hfirst : first.location = source
      · simp only [List.find?_cons, hfirst, beq_self_eq_true, Option.some.injEq] at hfile
        subst hfile
        simp [File.moved, hfirst]
      · have hother := hothers first List.mem_cons_self
        simp only [List.find?_cons, beq_eq_false_iff_ne.mpr hfirst] at hfile
        simp only [List.find?_cons, File.moved, hfirst, if_false, beq_eq_false_iff_ne.mpr hother]
        exact ih (fun other h => hothers other (List.mem_cons_of_mem first h)) hfile

theorem fileAt?_move_target (hvacant : tree.fileAt? target = none) {file : File}
    (hfile : tree.fileAt? source = some file) :
    (tree.move source target).fileAt? target = some { file with location := target } := by
  rw [fileAt?, files_move (ne_of_fileAt? hvacant hfile) hvacant]
  exact find?_moved (fun other => not_mem_of_fileAt? hvacant) hfile

theorem fileAt?_move_of_none (hvacant : tree.fileAt? target = none) {place : Location}
    (hne : place ≠ target) (hplace : tree.fileAt? place = none) :
    (tree.move source target).fileAt? place = none := by
  by_cases hsame : source = target
  · simpa [move, hsame] using hplace
  · rw [fileAt?, files_move hsame hvacant, List.find?_eq_none]
    intro file hfile
    obtain ⟨old, hold, rfl⟩ := List.mem_map.mp hfile
    unfold File.moved
    split
    · simpa using Ne.symm hne
    · simpa using not_mem_of_fileAt? hplace hold

theorem filter_moved {files : List File} (hothers : ∀ other ∈ files, other.location ≠ target) :
    (files.map (File.moved source target)).filter (fun file => file.location != target) =
      files.filter fun file => file.location != source := by
  induction files with
  | nil => rfl
  | cons first rest ih =>
      have hrest := ih fun other h => hothers other (List.mem_cons_of_mem first h)
      have hfirst := hothers first List.mem_cons_self
      by_cases hmoved : first.location = source
      · simp [File.moved, hmoved, hrest]
      · simp [File.moved, hmoved, hfirst, hrest]

theorem filter_move (hvacant : tree.fileAt? target = none) (hne : source ≠ target) :
    (tree.move source target).files.filter (fun file => file.location != target) =
      tree.files.filter fun file => file.location != source := by
  rw [files_move hne hvacant]
  exact filter_moved fun other => not_mem_of_fileAt? hvacant

theorem enter_eq_directory {directory next : Location} {name : String}
    (h : tree.enter directory name = .ok (.directory next)) :
    (∀ other : Tree, other.enter directory name = .ok (.directory next)) ∨
      next = directory ++ [name] ∧ tree.fileAt? next = none ∧ tree.hasDirectory next = true ∧
        ∀ other : Tree, other.fileAt? next = none → other.hasDirectory next = true →
          other.enter directory name = .ok (.directory next) := by
  obtain ⟨hlength, hdot | hdots | ⟨hproper, hplace⟩⟩ := enter_eq_ok_iff.mp h
  · exact .inl fun other => enter_eq_ok_iff.mpr ⟨hlength, .inl hdot⟩
  · exact .inl fun other => enter_eq_ok_iff.mpr ⟨hlength, .inr (.inl hdots)⟩
  · obtain ⟨rfl, hnone, hhas⟩ := placeAt_eq_directory_iff.mp hplace
    refine .inr ⟨rfl, hnone, hhas, fun other hnone' hhas' => enter_eq_ok_iff.mpr ⟨hlength, ?_⟩⟩
    exact .inr (.inr ⟨hproper, placeAt_eq_directory_iff.mpr ⟨rfl, hnone', hhas'⟩⟩)

theorem hasDirectory_move (tree : Tree) (source target place : Location) :
    (tree.move source target).hasDirectory place = tree.hasDirectory place := by
  simp only [hasDirectory, directories_move]

/-- Directories stay where they are when a file moves to a place that is no directory. -/
theorem walk_move (hvacant : tree.fileAt? target = none) (hfree : tree.hasDirectory target = false)
    {directory last : Location} {names : List String} (h : tree.walk directory names = .ok last) :
    (tree.move source target).walk directory names = .ok last := by
  induction names generalizing directory with
  | nil => exact h
  | cons name rest ih =>
      cases henter : tree.enter directory name with
      | error cause => simp [walk, henter, bind, Except.bind] at h
      | ok place =>
          cases place with
          | directory next =>
              have hrest : tree.walk next rest = .ok last := by
                simpa [walk, henter, bind, Except.bind, asDirectory] using h
              have hnext : (tree.move source target).enter directory name =
                  .ok (.directory next) := by
                rcases enter_eq_directory henter with hany | ⟨-, hnone, hhas, hany⟩
                · exact hany _
                · have hne : next ≠ target := by
                    rintro rfl
                    simp [hfree] at hhas
                  exact hany _ (fileAt?_move_of_none hvacant hne hnone)
                    (by rw [hasDirectory_move, hhas])
              simp only [walk, hnext, bind, Except.bind, asDirectory]
              exact ih hrest
          | _ => simp [walk, henter, bind, Except.bind, asDirectory] at h

theorem enter_of_fileAt? {directory location : Location} {name : String} {file : File}
    (h : tree.enter directory name = .ok (.vacant location)) {other : Tree}
    (hfile : other.fileAt? location = some file) :
    other.enter directory name = .ok (.file file) := by
  obtain ⟨hlength, hproper, rfl, -⟩ := placeAt_of_enter_vacant h
  exact enter_eq_ok_iff.mpr ⟨hlength, .inr (.inr ⟨hproper, placeAt_eq_file_iff.mpr hfile⟩)⟩

theorem file?_move {path : String} {location : Location} {file : File}
    (hfile : tree.fileAt? source = some file) (hvacant : tree.vacant? path = some location) :
    (tree.move source location).file? path = some { file with location := location } := by
  rw [vacant?_eq_some_iff] at hvacant
  obtain ⟨hnul, r, directory, hroute, hwalk, henter, hslash⟩ := hvacant
  obtain ⟨-, hnone, hfree⟩ := enter_eq_vacant henter
  rw [file?_eq_some_iff]
  exact ⟨hnul, r, directory, hroute, walk_move hnone hfree hwalk,
    enter_of_fileAt? henter (fileAt?_move_target hnone hfile), hslash⟩

end Move

section Rename

variable {tree : Tree} {source name : String} {file : File} {location : Location}

theorem pathExists_of_vacant {path : String} (h : tree.vacant? path = some location) :
    tree.pathExists path = false := by
  rw [vacant?_eq_some_iff] at h
  obtain ⟨hnul, r, directory, hroute, hwalk, henter, hslash⟩ := h
  have hfind : tree.find path = .ok (.vacant location) := by
    rw [find_eq tree hroute hwalk, henter]
    rfl
  simp [pathExists, file?, directory?, hnul, hfind]

theorem renameFile_of_vacant (hfile : tree.file? source = some file)
    (hname : Path.name source ≠ name)
    (hvacant : tree.vacant? (Path.join (Path.directory source) name) = some location) :
    tree.renameFile source name false = .ok ⟨tree.move file.location location,
      .renamed source name, Path.join (Path.directory source) name⟩ := by
  have hexists := pathExists_of_vacant hvacant
  rw [vacant?_eq_some_iff] at hvacant
  rw [file?_eq_some_iff] at hfile
  obtain ⟨hnul, r, directory, hroute, hwalk, henter, hslash⟩ := hfile
  obtain ⟨hnul', r', directory', hroute', hwalk', henter', hslash'⟩ := hvacant
  have hrename : tree.renameRoute source (Path.join (Path.directory source) name) =
      .ok (file.location, location) := by
    simp [renameRoute, hroute, hwalk, henter, hslash, hroute', hwalk', henter', hslash', bind,
      Except.bind, pure, Except.pure]
  simp [renameFile, hname, hexists, rename, hnul, hnul', hrename, Except.map]

theorem renameRoute_of_not_vacant {target : String} (hfile : tree.file? source = some file)
    (hnul : hasNul target = false) (hexists : tree.pathExists target = false)
    (hvacant : tree.vacant? target = none) :
    ∃ cause, tree.renameRoute source target = .error cause := by
  obtain ⟨-, r, directory, hroute, hwalk, henter, hslash⟩ := file?_eq_some_iff.mp hfile
  cases hroute' : route target with
  | error cause => exact ⟨cause, by simp [renameRoute, hroute, hwalk, hroute', bind, Except.bind]⟩
  | ok r' =>
      cases hwalk' : tree.walk [] r'.through with
      | error cause =>
          exact ⟨cause, by simp [renameRoute, hroute, hwalk, hroute', hwalk', bind, Except.bind]⟩
      | ok directory' =>
          cases henter' : tree.enter directory' r'.last with
          | error cause =>
              exact ⟨cause, by simp [renameRoute, hroute, hwalk, henter, hroute', hwalk', henter',
                bind, Except.bind]⟩
          | ok place =>
              cases hslash' : r'.toDirectory with
              | true =>
                  exact ⟨.notADirectory, by simp [renameRoute, hroute, hwalk, henter, hroute',
                    hwalk', henter', hslash', bind, Except.bind, throw, throwThe,
                    MonadExceptOf.throw]⟩
              | false =>
                  cases place with
                  | directory location =>
                      exact ⟨.isADirectory, by simp [renameRoute, hroute, hwalk, henter, hslash,
                        hroute', hwalk', henter', hslash', bind, Except.bind, throw, throwThe,
                        MonadExceptOf.throw]⟩
                  | file other =>
                      have htarget : tree.file? target = some other :=
                        file?_eq_some_iff.mpr
                          ⟨hnul, r', directory', hroute', hwalk', henter', hslash'⟩
                      simp [pathExists, htarget] at hexists
                  | vacant location =>
                      have htarget : tree.vacant? target = some location :=
                        vacant?_eq_some_iff.mpr
                          ⟨hnul, r', directory', hroute', hwalk', henter', hslash'⟩
                      simp [hvacant] at htarget

theorem renameFile_of_not_vacant (hfile : tree.file? source = some file)
    (hname : Path.name source ≠ name)
    (hnul : hasNul (Path.join (Path.directory source) name) = false)
    (hvacant : tree.vacant? (Path.join (Path.directory source) name) = none) :
    ∃ failure, tree.renameFile source name false = .error failure ∧ failure.reach ≠ .run := by
  cases hexists : tree.pathExists (Path.join (Path.directory source) name) with
  | true =>
      exact ⟨.collision source name, by simp [renameFile, hname, hexists], by simp [Failure.reach]⟩
  | false =>
      obtain ⟨cause, hcause⟩ := renameRoute_of_not_vacant hfile hnul hexists hvacant
      have hsource := (file?_eq_some_iff.mp hfile).1
      refine ⟨.renameFailed cause source (Path.join (Path.directory source) name), ?_,
        by simp [Failure.reach]⟩
      simp [renameFile, hname, hexists, rename, hsource, hnul, hcause, Except.map]

theorem renameRoute_of_no_file (target : String) (hnul : hasNul source = false)
    (hfile : tree.file? source = none) :
    ∃ cause, tree.renameRoute source target = .error cause := by
  cases hroute : route source with
  | error cause => exact ⟨cause, by simp [renameRoute, hroute, bind, Except.bind]⟩
  | ok r =>
      cases hwalk : tree.walk [] r.through with
      | error cause => exact ⟨cause, by simp [renameRoute, hroute, hwalk, bind, Except.bind]⟩
      | ok directory =>
          cases hroute' : route target with
          | error cause =>
              exact ⟨cause, by simp [renameRoute, hroute, hwalk, hroute', bind, Except.bind]⟩
          | ok r' =>
              cases hwalk' : tree.walk [] r'.through with
              | error cause =>
                  exact ⟨cause, by
                    simp [renameRoute, hroute, hwalk, hroute', hwalk', bind, Except.bind]⟩
              | ok directory' =>
                  have hplace : ∀ file, tree.enter directory r.last = .ok (.file file) →
                      r.toDirectory = true := by
                    intro file henter
                    cases hslash : r.toDirectory with
                    | true => rfl
                    | false =>
                        have hfound : tree.file? source = some file := file?_eq_some_iff.mpr
                          ⟨hnul, r, directory, hroute, hwalk, henter, hslash⟩
                        simp [hfile] at hfound
                  simp only [renameRoute, hroute, hwalk, hroute', hwalk', bind, Except.bind]
                  cases henter : tree.enter directory r.last with
                  | error cause => exact ⟨cause, rfl⟩
                  | ok place =>
                      cases place with
                      | directory location => exact ⟨.isADirectory, rfl⟩
                      | vacant location => exact ⟨.missing, rfl⟩
                      | file file =>
                          simp only [hplace file henter, Bool.true_or, if_true]
                          cases tree.enter directory' r'.last with
                          | error cause => exact ⟨cause, rfl⟩
                          | ok place => exact ⟨.notADirectory, rfl⟩

theorem exists_of_rename {target : String} {after : Tree}
    (h : tree.rename source target = .ok after) :
    hasNul target = false ∧ ∃ file, tree.file? source = some file := by
  simp only [rename] at h
  split at h
  · cases h
  rename_i hnul
  simp only [Bool.or_eq_true, not_or, Bool.not_eq_true] at hnul
  refine ⟨hnul.2, ?_⟩
  cases hfile : tree.file? source with
  | some file => exact ⟨file, rfl⟩
  | none =>
      obtain ⟨cause, hcause⟩ := renameRoute_of_no_file target hnul.1 hfile
      simp [hcause] at h

/-- A renaming that is not refused finds the name there already, is dry, or moves a file to a vacant
place. -/
theorem renameFile_eq_ok {dryRun : Bool} {renamed : Renamed}
    (h : tree.renameFile source name dryRun = .ok renamed) :
    (Path.name source = name ∧ renamed = ⟨tree, .alreadyNamed name, source⟩) ∨
      (dryRun = true ∧
        renamed = ⟨tree, .wouldRename source name, Path.join (Path.directory source) name⟩) ∨
      dryRun = false ∧ ∃ file location, tree.file? source = some file ∧
        tree.vacant? (Path.join (Path.directory source) name) = some location ∧
        renamed = ⟨tree.move file.location location, .renamed source name,
          Path.join (Path.directory source) name⟩ := by
  simp only [renameFile] at h
  split at h
  · rename_i hname
    cases h
    exact .inl ⟨hname, rfl⟩
  rename_i hname
  split at h
  · cases h
  rename_i hexists
  split at h
  · rename_i hdry
    cases h
    exact .inr (.inl ⟨hdry, rfl⟩)
  rename_i hdry
  refine .inr (.inr ⟨Bool.eq_false_iff.mpr hdry, ?_⟩)
  cases hrename : tree.rename source (Path.join (Path.directory source) name) with
  | error failure => simp [hrename, Except.map] at h
  | ok after =>
      obtain ⟨hnul, file, hfile⟩ := exists_of_rename hrename
      have hwet : tree.renameFile source name false = .ok renamed := by
        simp [renameFile, hname, hexists, ← h]
      cases hvacant : tree.vacant? (Path.join (Path.directory source) name) with
      | none =>
          obtain ⟨failure, hfails, -⟩ := renameFile_of_not_vacant hfile hname hnul hvacant
          rw [hfails] at hwet
          cases hwet
      | some location =>
          rw [renameFile_of_vacant hfile hname hvacant] at hwet
          cases hwet
          exact ⟨file, location, hfile, rfl, rfl⟩

end Rename

/-- Whether a file is found at a path and place with the given tags while the rest of the tree is as
it was. -/
structure Updated (tree : Tree) (file : File) (after : Tree) (path : String)
    (location : Location) (tags : Option Container) : Prop where
  found : after.file? path = some { file with location := location, tags := tags }
  directories : after.directories = tree.directories
  others : (after.files.filter fun other => other.location != location) =
    tree.files.filter fun other => other.location != file.location

theorem fileAt?_of_file? {tree : Tree} {path : String} {file : File}
    (h : tree.file? path = some file) : tree.fileAt? file.location = some file := by
  obtain ⟨-, r, directory, -, -, henter, -⟩ := file?_eq_some_iff.mp h
  exact (enter_eq_file henter).1

theorem fileAt?_of_vacant? {tree : Tree} {path : String} {location : Location}
    (h : tree.vacant? path = some location) : tree.fileAt? location = none := by
  obtain ⟨-, r, directory, -, -, henter, -⟩ := vacant?_eq_some_iff.mp h
  exact (enter_eq_vacant henter).2.1

namespace Updated

variable {tree after : Tree} {path : String} {file : File} {tags : Option Container}

theorem store (h : tree.Updated file after path file.location tags) (others : Option Container) :
    tree.Updated file (after.store file.location others) path file.location others :=
  ⟨file?_store h.found others, h.directories,
    (filter_store after file.location others).trans h.others⟩

theorem move (h : tree.Updated file after path file.location tags) {target : String}
    {location : Location} (hvacant : after.vacant? target = some location) :
    tree.Updated file (after.move file.location location) target location tags := by
  have hfile := fileAt?_of_file? h.found
  have hnone := fileAt?_of_vacant? hvacant
  refine ⟨file?_move hfile hvacant, ?_, ?_⟩
  · rw [directories_move, h.directories]
  · rw [filter_move hnone (ne_of_fileAt? hnone hfile), h.others]

end Updated

end Tree

end LinerNotes
