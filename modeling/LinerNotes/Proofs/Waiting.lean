import LinerNotes.Proofs.Searching

/-!
The files of a batch do not interfere. Its paths are told once, before the first visit, while every
visit may rename a file. But a visit leaves alone what the other paths lead to, so each file is
visited as it was when the batch began.
-/

namespace LinerNotes

namespace Tree

variable {tree : Tree} {path : String} {file : File}

theorem file?_store_of_ne (h : tree.file? path = some file) {location : Location}
    (hne : file.location ≠ location) (tags : Option Container) :
    (tree.store location tags).file? path = some file := by
  rw [file?_store_eq, h, Option.map_some, File.retagged, if_neg hne]

theorem fileAt?_move_of_ne {source target place : Location} (hvacant : tree.fileAt? target = none)
    (h : tree.fileAt? place = some file) (hne : place ≠ source) :
    (tree.move source target).fileAt? place = some file := by
  by_cases hsame : source = target
  · simpa [move, hsame] using h
  have htarget : place ≠ target := ne_of_fileAt? hvacant h
  have hplace : (fun other : File => other.location == place) ∘ File.moved source target =
      fun other => other.location == place := by
    funext other
    simp only [Function.comp, File.moved]
    split
    · rename_i hsource
      rw [hsource, beq_eq_false_iff_ne.mpr htarget.symm, beq_eq_false_iff_ne.mpr hne.symm]
    · rfl
  have hlocation : file.location = place := by simpa using List.find?_some h
  have hstays : File.moved source target file = file := by
    rw [File.moved, if_neg (hlocation ▸ hne)]
  rw [fileAt?, files_move hsame hvacant, List.find?_map, hplace]
  change (tree.fileAt? place).map _ = _
  rw [h, Option.map_some, hstays]

theorem enter_of_file {directory : Location} {name : String}
    (h : tree.enter directory name = .ok (.file file)) {other : Tree}
    (hfile : other.fileAt? file.location = some file) :
    other.enter directory name = .ok (.file file) := by
  obtain ⟨hlength, hproper, -⟩ := placeAt_of_enter_file h
  rw [location_of_enter h] at hfile
  exact enter_eq_ok_iff.mpr ⟨hlength, .inr (.inr ⟨hproper, placeAt_eq_file_iff.mpr hfile⟩)⟩

theorem file?_move_of_ne (h : tree.file? path = some file) {source target : Location}
    {other : String} (hvacant : tree.vacant? other = some target) (hne : file.location ≠ source) :
    (tree.move source target).file? path = some file := by
  have hnone := fileAt?_of_vacant? hvacant
  have hfree := (admits_of_vacant? hvacant).apart
  have hstays := fileAt?_move_of_ne hnone (fileAt?_of_file? h) hne
  rw [file?_eq_some_iff] at h ⊢
  obtain ⟨hnul, r, directory, hroute, hwalk, henter, hslash⟩ := h
  exact ⟨hnul, r, directory, hroute, walk_move hnone hfree hwalk,
    enter_of_file henter hstays, hslash⟩

theorem file?_renameFile_of_ne (h : tree.file? path = some file) {source name : String}
    {dryRun : Bool} {renamed : Renamed}
    (hrenamed : tree.renameFile source name dryRun = .ok renamed)
    (hne : ∀ other ∈ tree.file? source, other.location ≠ file.location) :
    renamed.tree.file? path = some file := by
  rcases renameFile_eq_ok hrenamed with ⟨-, rfl⟩ | ⟨-, rfl⟩ |
    ⟨-, other, location, hother, hvacant, rfl⟩
  · exact h
  · exact h
  · exact file?_move_of_ne h hvacant (hne other hother).symm

end Tree

theorem Options.file?_visit (options : Options) {tree : Tree} {path other : String} {file : File}
    (h : tree.file? other = some file) (hapart : tree.LeadsApart path other) :
    (options.visit tree path).tree.file? other = some file := by
  cases hopen : Handle.openAt tree path with
  | error failure =>
      rw [tree_visit_of_error hopen]
      exact h
  | ok found =>
      obtain ⟨handle, opened⟩ := found
      obtain ⟨middle, hmiddle, hlast⟩ := options.tree_visit_of_ok hopen
      obtain ⟨first, format, hfirst, -, -, -, rfl⟩ := Handle.openAt_eq_ok hopen
      have hne : first.location ≠ file.location := hapart first hfirst file h
      have hstays : middle.file? other = some file ∧
          ∀ later ∈ middle.file? path, later.location ≠ file.location := by
        rcases hmiddle with rfl | ⟨tags, rfl⟩
        · exact ⟨h, fun later hlater => hapart later hlater file h⟩
        · refine ⟨Tree.file?_store_of_ne h hne.symm tags, ?_⟩
          rw [Tree.file?_store hfirst tags]
          rintro later ⟨rfl⟩
          exact hne
      rcases hlast with hsame | ⟨name, renamed, hrenamed, htree⟩
      · rw [hsame]
        exact hstays.1
      · rw [htree]
        exact Tree.file?_renameFile_of_ne hstays.1 hrenamed hstays.2

/-- Whether visits to the paths, one after the other, cannot interfere: no two lead to the same
file, and one that leads to no file never will. -/
structure Tree.Awaits (tree : Tree) (paths : List String) : Prop where
  apart : paths.Pairwise tree.LeadsApart
  leads : ∀ path ∈ paths, (∃ file, tree.file? path = some file) ∨ Tree.pathLimit < path.utf8ByteSize

namespace Tree.Awaits

variable {tree : Tree} {path : String} {paths : List String}

theorem congr {after : Tree} (h : tree.Awaits paths)
    (hsame : ∀ path ∈ paths, after.file? path = tree.file? path) : after.Awaits paths := by
  constructor
  · refine h.apart.imp_of_mem ?_
    intro path other hpath hother hapart
    unfold LeadsApart
    rwa [hsame path hpath, hsame other hother]
  · intro path hpath
    rw [hsame path hpath]
    exact h.leads path hpath

theorem tail (h : tree.Awaits (path :: paths)) : tree.Awaits paths :=
  ⟨(List.pairwise_cons.mp h.apart).2, fun other hother =>
    h.leads other (List.mem_cons_of_mem _ hother)⟩

theorem visit (h : tree.Awaits (path :: paths)) (options : Options) :
    ∀ other ∈ paths, (options.visit tree path).tree.file? other = tree.file? other := by
  intro other hother
  rcases h.leads other (List.mem_cons_of_mem path hother) with ⟨file, hfile⟩ | hlong
  · rw [hfile]
    exact options.file?_visit hfile ((List.pairwise_cons.mp h.apart).1 other hother)
  · rw [file?_of_overlong _ hlong, file?_of_overlong _ hlong]

end Tree.Awaits

namespace Options

theorem mem_openedAt {tree : Tree} {path : String} {handle : Handle}
    (h : handle ∈ openedAt tree path) :
    ∃ file ∈ tree.file? path, handle.path = path ∧ handle.location = file.location := by
  unfold openedAt at h
  split at h
  · rename_i found opened hopen
    obtain ⟨file, format, hfile, -, -, -, rfl⟩ := Handle.openAt_eq_ok hopen
    rw [List.mem_singleton] at h
    subst h
    exact ⟨file, hfile, rfl, rfl⟩
  · cases h

theorem opened_sublist (options : Options) {tree : Tree} {paths : List String}
    (h : tree.Awaits paths) :
    (options.opened tree paths).Sublist (paths.flatMap (openedAt tree)) := by
  induction paths generalizing tree with
  | nil => exact List.Sublist.refl []
  | cons path rest ih =>
      have hsame := h.visit options
      have hlater : rest.flatMap (openedAt (options.visit tree path).tree) =
          rest.flatMap (openedAt tree) := by
        refine List.flatMap_congr fun other hother => ?_
        simp only [openedAt, Handle.openAt, hsame other hother]
      have hrest := ih (h.tail.congr hsame)
      rw [hlater] at hrest
      rw [opened, List.flatMap_cons]
      refine (List.Sublist.refl _).append ?_
      cases (options.visit tree path).outcome with
      | ok fine => exact hrest
      | error failure => exact List.nil_sublist _

theorem nodup_openedAt {tree : Tree} {paths : List String} (h : paths.Pairwise tree.LeadsApart) :
    ((paths.flatMap (openedAt tree)).map Handle.location).Nodup := by
  rw [List.Nodup, List.pairwise_map, List.pairwise_flatMap]
  constructor
  · intro path hpath
    unfold openedAt
    split
    · exact List.pairwise_singleton _ _
    · exact List.Pairwise.nil
  · refine h.imp ?_
    intro path other hapart handle hhandle handle' hhandle'
    obtain ⟨file, hfile, -, hlocation⟩ := mem_openedAt hhandle
    obtain ⟨file', hfile', -, hlocation'⟩ := mem_openedAt hhandle'
    rw [hlocation, hlocation']
    exact hapart file hfile file' hfile'

end Options

namespace Session

/-- As far as a batch has come, the paths that it still has before it lead to what they led to. -/
theorem file?_visitAll (options : Options) {before after : List String} {session : Session}
    (h : session.tree.Awaits (before ++ after)) :
    ∀ path ∈ after,
      (leftBy (visitAll options before) session).tree.file? path = session.tree.file? path := by
  induction before generalizing session with
  | nil => exact fun path hpath => rfl
  | cons first rest ih =>
      intro path hpath
      have hsame := h.visit options
      have hfirst : (options.visit session.tree first).tree.file? path = session.tree.file? path :=
        hsame path (List.mem_append_right rest hpath)
      have hrest : (session.add (options.visit session.tree first)).tree.Awaits (rest ++ after) :=
        h.tail.congr hsame
      rw [leftBy_visitAll_cons]
      cases (options.visit session.tree first).outcome with
      | ok fine => exact (ih hrest path hpath).trans hfirst
      | error failure => exact hfirst

theorem carries_waiting (options : Options) {before after : List String} {session : Session}
    (hdistinct : session.tree.Distinct) (h : session.tree.Awaits (before ++ after)) :
    session.tree.Carries (fun file later => ∀ path ∈ after, session.tree.file? path = some file →
        later = file ∧ (leftBy (visitAll options before) session).tree.file? path = some later)
      (leftBy (visitAll options before) session).tree := by
  refine (carries_visitAll options before session hdistinct).mono ?_
  intro file later hspared path hpath hfile
  have hapart := List.pairwise_append.mp h.apart
  have hbefore : session.tree.Awaits before :=
    ⟨hapart.1, fun other hother => h.leads other (List.mem_append_left after hother)⟩
  have hlater : later = file := by
    refine hspared.2 fun handle hhandle => ?_
    obtain ⟨other, hother, hopened⟩ :=
      List.mem_flatMap.mp ((options.opened_sublist hbefore).subset hhandle)
    obtain ⟨first, hfirst, -, hlocation⟩ := Options.mem_openedAt hopened
    rw [hlocation]
    exact hapart.2.2 other hother path hpath first hfirst file hfile
  exact ⟨hlater, by rw [file?_visitAll options h path hpath, hfile, hlater]⟩

end Session

theorem Tree.Sound.awaits_expand {tree : Tree} (h : tree.Sound) {path : String}
    {location : Location} (hpath : tree.directory? path = some location) (recursive : Bool) :
    tree.Awaits (tree.expand recursive [path]) := by
  constructor
  · exact h.pairwise_expand hpath recursive
  · intro found hfound
    obtain ⟨hleads, -⟩ := h.file?_of_mem_expand hpath hfound
    rcases Nat.lt_or_ge Tree.pathLimit found.utf8ByteSize with hlong | hsize
    · exact .inr hlong
    · exact .inl (hleads.mpr hsize)

theorem Handle.openAt_notFound_iff {tree : Tree} {path : String} :
    Handle.openAt tree path = .error (.notFound path) ↔ tree.file? path = none := by
  unfold openAt
  cases hfile : tree.file? path with
  | none => simp
  | some file =>
      simp only [reduceCtorEq, iff_false]
      unfold ofFile
      split
      · simp
      · simp
      · simp
      · split <;> simp

namespace Session

/-- The files of a directory do not interfere in a batch. Whenever the batch comes to a path, the
files that this path and the paths after it led to at the beginning are the same files, at the same
places and with the same tags. Only a path beyond the limit of the system is reported as not found,
and a search that is not recursive finds none. The files that are opened are those that the paths
led to at the beginning, none of them twice. -/
theorem run_undisturbed {session : Session} (hsound : session.tree.Sound) (options : Options)
    {path : String} {location : Location}
    (hpath : session.tree.directory? path = some location) :
    let paths := session.tree.expand options.recursive [path]
    let begun := session.record (session.tree.searchEvents options.recursive [path])
    (∀ before next after, paths = before ++ next :: after →
      let now := (leftBy (visitAll options before) begun).tree
      session.tree.Carries (fun file later => ∀ waiting ∈ next :: after,
        session.tree.file? waiting = some file →
          later = file ∧ now.file? waiting = some later) now ∧
      (Handle.openAt now next = .error (.notFound next) ↔ Tree.pathLimit < next.utf8ByteSize)) ∧
    (options.recursive = false → ∀ found ∈ paths, found.utf8ByteSize ≤ Tree.pathLimit) ∧
    (session.opened options [path]).Sublist (paths.flatMap (Options.openedAt session.tree)) ∧
    ((session.opened options [path]).map Handle.location).Nodup := by
  intro paths begun
  have hawaits : session.tree.Awaits paths := hsound.awaits_expand hpath options.recursive
  have hopened := options.opened_sublist hawaits
  refine ⟨?_, ?_, hopened, ?_⟩
  · intro before next after hsplit now
    have hwaiting : begun.tree.Awaits (before ++ next :: after) := hsplit ▸ hawaits
    have hnext : next ∈ paths := by simp [hsplit]
    have hdistinct : begun.tree.Distinct := hsound.distinct
    refine ⟨carries_waiting options hdistinct hwaiting, ?_⟩
    have hleads : (∃ file, begun.tree.file? next = some file) ↔
        next.utf8ByteSize ≤ Tree.pathLimit := (hsound.file?_of_mem_expand hpath hnext).1
    rw [Handle.openAt_notFound_iff, file?_visitAll options hwaiting next List.mem_cons_self,
      ← Nat.not_le, ← hleads, Option.eq_none_iff_forall_ne_some, not_exists]
  · intro honly found hfound
    exact (hsound.file?_of_mem_expand hpath hfound).2 honly
  · exact (Options.nodup_openedAt hawaits.apart).sublist (hopened.map Handle.location)

/-- A batch names the files of a directory by their titles and puts them below another. The first
has the place in mind that a file has which waits for its turn, and does not get it. The second
moves to where the search has been, and is not visited again. -/
theorem run_undisturbed_below :
    let titled (location : Location) (title : String) : File :=
      ⟨location, some .flac, some (.comments [("TITLE", title)]), ⟨none, none, none⟩⟩
    let session := start (Tree.build [["m", "x"]] [titled ["m", "a.flac"] "d",
      titled ["m", "b.flac"] "c", titled ["m", "x", "d.flac"] "e"])
    let options : Options := ⟨[], none,
      some ⟨"x/%T", [.literal "x/".toList, .placeholder ⟨.title, none, .preserve⟩]⟩,
      .shell, false, true⟩
    session.tree.Sound ∧ session.tree.directory? "m" = some ["m"] ∧
      session.tree.expand options.recursive ["m"] = ["m/a.flac", "m/b.flac", "m/x/d.flac"] ∧
      (let now := (leftBy (visitAll options ["m/a.flac", "m/b.flac"])
        (session.record (session.tree.searchEvents options.recursive ["m"]))).tree
      now.files.map File.location = [["m", "a.flac"], ["m", "x", "c.flac"], ["m", "x", "d.flac"]] ∧
      session.tree.Carries (fun file later => ∀ waiting ∈ ["m/x/d.flac"],
        session.tree.file? waiting = some file → later = file ∧ now.file? waiting = some later)
        now) ∧
      ((session.opened options ["m"]).map Handle.location).Nodup ∧
      (session.opened options ["m"]).length = 3 := by
  intro titled session options
  have hsound : session.tree.Sound :=
    Tree.sound_build (by decide +kernel) (by decide +kernel) (by decide +kernel)
  have hpath : session.tree.directory? "m" = some ["m"] := by decide +kernel
  have hexpand : session.tree.expand options.recursive ["m"] =
      ["m/a.flac", "m/b.flac", "m/x/d.flac"] := by
    rw [Tree.expand_of_directory? hpath]
    have hfound : (((session.tree.below ["m"] true).map fun rest =>
        Path.join "m" (Tree.pathOf rest)).filter fun path =>
          session.tree.finds true path && Tree.isAudioPath path) =
        ["m/a.flac", "m/b.flac", "m/x/d.flac"] := by decide +kernel
    exact (congrArg Tree.sorted hfound).trans (List.mergeSort_of_pairwise (by decide +kernel))
  have hopened : (session.opened options ["m"]).length = 3 := by
    rw [opened, hexpand]
    decide +kernel
  obtain ⟨hwaiting, -, -, hnodup⟩ := run_undisturbed hsound options hpath
  refine ⟨hsound, hpath, hexpand, ⟨by decide +kernel, ?_⟩, hnodup, hopened⟩
  exact (hwaiting ["m/a.flac", "m/b.flac"] "m/x/d.flac" [] hexpand).1

end Session

end LinerNotes
