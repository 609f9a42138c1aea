import LinerNotes.Proofs.Routes
import LinerNotes.Proofs.Survival

/-!
Trees that a system can have: every file is in a directory and has a place of its own. Every batch
leaves such a tree as one, so what is shown of them holds of each batch of a session.
-/

namespace LinerNotes

/-- Whether a file or a directory can have the name. -/
structure IsName (name : String) : Prop where
  nonempty : name ≠ ""
  proper : name ≠ "." ∧ name ≠ ".."
  plain : '/' ∉ name.toList ∧ '\x00' ∉ name.toList
  short : name.utf8ByteSize ≤ Tree.nameLimit

instance (name : String) : Decidable (IsName name) :=
  decidable_of_iff (name ≠ "" ∧ (name ≠ "." ∧ name ≠ "..") ∧
      ('/' ∉ name.toList ∧ '\x00' ∉ name.toList) ∧ name.utf8ByteSize ≤ Tree.nameLimit)
    ⟨fun ⟨hnonempty, hproper, hplain, hshort⟩ => ⟨hnonempty, hproper, hplain, hshort⟩,
      fun ⟨hnonempty, hproper, hplain, hshort⟩ => ⟨hnonempty, hproper, hplain, hshort⟩⟩

namespace Tree

theorem mem_ancestors_iff {place location : Location} :
    place ∈ ancestors location ↔ place ≠ [] ∧ place <+: location ∧ place ≠ location := by
  induction location generalizing place with
  | nil => simp [ancestors]
  | cons name rest ih =>
      cases rest with
      | nil =>
          simp only [ancestors, List.not_mem_nil, List.prefix_cons_iff, List.prefix_nil, false_iff]
          rintro ⟨hne, hnil | ⟨tail, htail, rfl⟩, hother⟩
          · exact hne hnil
          · exact hother htail
      | cons other rest =>
          rw [ancestors, List.mem_cons, List.mem_map, List.prefix_cons_iff]
          · constructor
            · rintro (rfl | ⟨tail, htail, rfl⟩)
              · simp
              · obtain ⟨-, hwithin, hother⟩ := ih.mp htail
                refine ⟨List.cons_ne_nil name tail, .inr ⟨tail, rfl, hwithin⟩, ?_⟩
                intro hwhole
                exact hother (List.cons.inj hwhole).2
            · rintro ⟨hne, hnil | ⟨tail, rfl, hwithin⟩, hother⟩
              · exact absurd hnil hne
              · by_cases htail : tail = []
                · exact .inl (by rw [htail])
                · refine .inr ⟨tail, ih.mpr ⟨htail, hwithin, ?_⟩, rfl⟩
                  rintro rfl
                  exact hother rfl
          · exact List.cons_ne_nil other rest

/-- Whether a file can be at a location: in a directory, under names that files can have, and not
where a directory is. -/
structure Admits (tree : Tree) (location : Location) : Prop where
  named : ∀ name ∈ location, IsName name
  housed : ∀ place ∈ ancestors location, tree.hasDirectory place = true
  apart : tree.hasDirectory location = false

theorem Admits.congr {tree after : Tree} {location : Location} (h : tree.Admits location)
    (hdirectories : after.directories = tree.directories) : after.Admits location := by
  have hsame : after.hasDirectory = tree.hasDirectory := by
    funext place
    rw [hasDirectory, hasDirectory, hdirectories]
  exact ⟨h.named, hsame ▸ h.housed, hsame ▸ h.apart⟩

/-- Whether the tree is one that a system can have. -/
structure Sound (tree : Tree) : Prop where
  distinct : tree.Distinct
  admitted : ∀ file ∈ tree.files, tree.Admits file.location

/-- The tree around files in places of their own is sound, if none of them is where a directory is
needed. -/
theorem sound_build {directories : List Location} {files : List File}
    (hdistinct : (files.map File.location).Nodup)
    (hnamed : ∀ file ∈ files, ∀ name ∈ file.location, IsName name)
    (hapart : ∀ file ∈ files, (build directories files).hasDirectory file.location = false) :
    (build directories files).Sound := by
  refine ⟨hdistinct, fun file hfile => ⟨hnamed file hfile, ?_, hapart file hfile⟩⟩
  intro place hplace
  have hneeded : place ∈ (build directories files).directories := by
    rw [build, List.mem_eraseDups]
    exact List.mem_append_right _ (List.mem_flatMap.mpr ⟨file, hfile, hplace⟩)
  simp [hasDirectory, hneeded]

/-- Whether a location is a directory and in directories all the way, under names that they can
have. -/
structure Standing (tree : Tree) (location : Location) : Prop where
  housed : ∀ place, place <+: location → tree.hasDirectory place = true
  named : ∀ name ∈ location, IsName name

theorem standing_nil (tree : Tree) : tree.Standing [] := by
  constructor
  · intro place hwithin
    simp [List.prefix_nil.mp hwithin, hasDirectory]
  · intro name hname
    cases hname

theorem Standing.of_prefix {tree : Tree} {location other : Location} (h : tree.Standing location)
    (hother : other <+: location) : tree.Standing other :=
  ⟨fun place hplace => h.housed place (hplace.trans hother),
    fun name hname => h.named name (hother.subset hname)⟩

theorem Standing.walk {tree : Tree} {directory last : Location} {names : List String}
    (h : tree.Standing directory)
    (hnames : ∀ name ∈ names, name ≠ "" ∧ '/' ∉ name.toList ∧ '\x00' ∉ name.toList)
    (hwalk : tree.walk directory names = .ok last) : tree.Standing last := by
  induction names generalizing directory with
  | nil =>
      cases hwalk
      exact h
  | cons name rest ih =>
      cases henter : tree.enter directory name with
      | error cause => simp [Tree.walk, henter, bind, Except.bind] at hwalk
      | ok place =>
          cases place with
          | directory next =>
              have hrest : tree.walk next rest = .ok last := by
                simpa [Tree.walk, henter, bind, Except.bind, asDirectory] using hwalk
              have hnames' := fun other hother => hnames other (List.mem_cons_of_mem name hother)
              refine ih ?_ hnames' hrest
              obtain ⟨hshort, ⟨-, hplace⟩ | ⟨-, hplace⟩ | ⟨hproper, hplace⟩⟩ :=
                enter_eq_ok_iff.mp henter
              · cases hplace
                exact h
              · cases hplace
                exact h.of_prefix (List.dropLast_prefix directory)
              · obtain ⟨rfl, -, hhas⟩ := placeAt_eq_directory_iff.mp hplace
                obtain ⟨hnonempty, hplain⟩ := hnames name List.mem_cons_self
                constructor
                · intro place hplace
                  rcases List.prefix_concat_iff.mp hplace with rfl | hbefore
                  · exact hhas
                  · exact h.housed place hbefore
                · intro other hother
                  rcases List.mem_append.mp hother with hbefore | hlast
                  · exact h.named other hbefore
                  · rw [List.mem_singleton.mp hlast]
                    exact ⟨hnonempty, hproper, hplain, hshort⟩
          | _ => simp [Tree.walk, henter, bind, Except.bind, asDirectory] at hwalk

theorem standing_of_directory? {tree : Tree} {path : String} {location : Location}
    (h : tree.directory? path = some location) : tree.Standing location := by
  obtain ⟨hnul, -, -, hwalk⟩ := walk_of_directory? h
  obtain ⟨-, r, directory, hroute, -, -⟩ := directory?_eq_some_iff.mp h
  refine (standing_nil tree).walk ?_ hwalk
  rw [(route_eq_ok_iff.mp hroute).2.2.1]
  exact plain_of_route hnul hroute

theorem admits_of_vacant? {tree : Tree} {path : String} {location : Location}
    (h : tree.vacant? path = some location) : tree.Admits location := by
  obtain ⟨hnul, r, directory, hroute, hwalk, henter, -⟩ := vacant?_eq_some_iff.mp h
  have hplain := plain_of_route hnul hroute
  obtain ⟨hshort, hproper, rfl, -, hfree⟩ := placeAt_of_enter_vacant henter
  have hstanding : tree.Standing directory := (standing_nil tree).walk
    (fun name hname => hplain name (List.mem_append_left _ hname)) hwalk
  refine ⟨?_, ?_, hfree⟩
  · intro name hname
    rcases List.mem_append.mp hname with hbefore | hlast
    · exact hstanding.named name hbefore
    · rw [List.mem_singleton.mp hlast]
      obtain ⟨hnonempty, hlast⟩ := hplain r.last (by simp)
      exact ⟨hnonempty, hproper, hlast, hshort⟩
  · intro place hplace
    obtain ⟨-, hwithin, hne⟩ := mem_ancestors_iff.mp hplace
    rcases List.prefix_concat_iff.mp hwithin with hwhole | hbefore
    · exact absurd hwhole hne
    · exact hstanding.housed place hbefore

namespace Sound

variable {tree : Tree}

theorem hasDirectory_of_prefix (h : tree.Sound) {file : File} (hfile : file ∈ tree.files)
    {place : Location} (hwithin : place <+: file.location) (hne : place ≠ file.location) :
    tree.hasDirectory place = true := by
  by_cases hroot : place = []
  · simp [hroot, hasDirectory]
  · exact (h.admitted file hfile).housed place (mem_ancestors_iff.mpr ⟨hroot, hwithin, hne⟩)

theorem fileAt?_of_mem (h : tree.Sound) {file : File} (hfile : file ∈ tree.files) :
    tree.fileAt? file.location = some file := by
  cases hfound : tree.fileAt? file.location with
  | none => exact absurd rfl (not_mem_of_fileAt? hfound hfile)
  | some other =>
      have hother : other ∈ tree.files := List.mem_of_find?_eq_some hfound
      have hplace : other.location = file.location := by simpa using List.find?_some hfound
      rw [h.distinct.eq_of_location hother hfile hplace]

theorem fileAt?_of_hasDirectory (h : tree.Sound) {place : Location}
    (hplace : tree.hasDirectory place = true) : tree.fileAt? place = none := by
  rw [fileAt?, List.find?_eq_none]
  intro file hfile hhere
  rw [← eq_of_beq hhere, (h.admitted file hfile).apart] at hplace
  cases hplace

theorem store (h : tree.Sound) (location : Location) (tags : Option Container) :
    (tree.store location tags).Sound := by
  refine ⟨(carries_store h.distinct location tags).distinct, ?_⟩
  intro file hfile
  obtain ⟨old, hold, rfl⟩ := List.mem_map.mp hfile
  rw [← File.retagged, File.retagged_location]
  exact (h.admitted old hold).congr rfl

theorem move (h : tree.Sound) (source : Location) {path : String} {target : Location}
    (hvacant : tree.vacant? path = some target) : (tree.move source target).Sound := by
  have hnone := fileAt?_of_vacant? hvacant
  have hdirectories := directories_move tree source target
  by_cases hsame : source = target
  · simpa only [Tree.move, hsame, if_true] using h
  refine ⟨(carries_move h.distinct source hnone).distinct, ?_⟩
  intro file hfile
  rw [files_move hsame hnone] at hfile
  obtain ⟨old, hold, rfl⟩ := List.mem_map.mp hfile
  unfold File.moved
  split
  · exact (admits_of_vacant? hvacant).congr hdirectories
  · exact (h.admitted old hold).congr hdirectories

theorem renameFile (h : tree.Sound) {source name : String} {dryRun : Bool} {renamed : Renamed}
    (hrenamed : tree.renameFile source name dryRun = .ok renamed) : renamed.tree.Sound := by
  rcases renameFile_eq_ok hrenamed with ⟨-, rfl⟩ | ⟨-, rfl⟩ | ⟨-, file, location, -, hvacant, rfl⟩
  · exact h
  · exact h
  · exact h.move file.location hvacant

theorem visit (h : tree.Sound) (options : Options) (path : String) :
    (options.visit tree path).tree.Sound := by
  cases hopen : Handle.openAt tree path with
  | error failure =>
      rw [Options.tree_visit_of_error hopen]
      exact h
  | ok found =>
      obtain ⟨middle, hmiddle, hlast⟩ := options.tree_visit_of_ok hopen
      have hsound : middle.Sound := by
        rcases hmiddle with rfl | ⟨tags, rfl⟩
        · exact h
        · exact h.store found.1.location tags
      rcases hlast with hsame | ⟨name, renamed, hrenamed, htree⟩
      · rw [hsame]
        exact hsound
      · rw [htree]
        exact hsound.renameFile hrenamed

end Sound

end Tree

theorem Session.sound_visitAll (options : Options) (paths : List String) {session : Session}
    (h : session.tree.Sound) : (leftBy (visitAll options paths) session).tree.Sound := by
  induction paths generalizing session with
  | nil => exact h
  | cons path rest ih =>
      rw [leftBy_visitAll_cons]
      cases (options.visit session.tree path).outcome with
      | ok fine => exact ih (h.visit options path)
      | error failure => exact h.visit options path

theorem Session.sound_run (options : Options) (inputs : List String) {session : Session}
    (h : session.tree.Sound) : (leftBy (run options inputs) session).tree.Sound := by
  rw [tree_run]
  exact sound_visitAll options _ h

end LinerNotes
