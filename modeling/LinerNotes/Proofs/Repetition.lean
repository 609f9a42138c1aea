import LinerNotes.Proofs.Revision

/-!
Batches that are run again. Every path leads where it led before, a batch makes of each file that it
comes to what the values that get there make of it, however often it comes there, and what they have
made they leave as it is.
-/

namespace LinerNotes

namespace Tree

variable {tree between later : Tree} {relation next whole : File → File → Prop}

/-- The place of the file that a path leads to. -/
def place? (tree : Tree) (path : String) : Option Location :=
  (tree.file? path).map File.location

/-- Whether one tree is another after its files changed as a relation tells, with every path leading
where it led before. -/
structure Follows (tree : Tree) (relation : File → File → Prop) (later : Tree) : Prop
    extends tree.Carries relation later where
  file? : ∀ path, Option.Rel relation (tree.file? path) (later.file? path)
  expand : later.expand = tree.expand

namespace Follows

theorem refl (hdistinct : tree.Distinct) (h : ∀ file, relation file file) :
    tree.Follows relation tree where
  toCarries := .refl hdistinct h
  file? path := by
    cases tree.file? path with
    | none => exact .none
    | some file => exact .some (h file)
  expand := rfl

theorem file?_cases (h : tree.Follows relation later) (path : String) :
    (tree.file? path = none ∧ later.file? path = none) ∨
      ∃ file other, tree.file? path = some file ∧ later.file? path = some other ∧
        relation file other := by
  have hfile := h.file? path
  generalize tree.file? path = first, later.file? path = second at hfile
  cases hfile with
  | none => exact .inl ⟨rfl, rfl⟩
  | some hfile => exact .inr ⟨_, _, rfl, rfl, hfile⟩

theorem trans (h : tree.Follows relation between) (h' : between.Follows next later)
    (hwhole : ∀ file middle last, relation file middle → next middle last → whole file last) :
    tree.Follows whole later where
  toCarries := h.toCarries.trans h'.toCarries hwhole
  file? path := by
    rcases h.file?_cases path with ⟨hnone, hnone'⟩ | ⟨file, middle, hfile, hmiddle, hfirst⟩
    · rcases h'.file?_cases path with ⟨-, hlast⟩ | ⟨_, _, hsome, -⟩
      · rw [hnone, hlast]
        exact .none
      · cases hnone'.symm.trans hsome
    · rcases h'.file?_cases path with ⟨hnone, -⟩ | ⟨_, last, hsame, hlast, hnext⟩
      · cases hmiddle.symm.trans hnone
      · cases hmiddle.symm.trans hsame
        rw [hfile, hlast]
        exact .some (hwhole file middle last hfirst hnext)
  expand := h'.expand.trans h.expand

theorem mono (h : tree.Follows relation later)
    (himp : ∀ file other, relation file other → whole file other) : tree.Follows whole later where
  toCarries := h.toCarries.mono himp
  file? path := by
    rcases h.file?_cases path with ⟨hnone, hnone'⟩ | ⟨file, other, hfile, hother, hrelation⟩
    · rw [hnone, hnone']
      exact .none
    · rw [hfile, hother]
      exact .some (himp file other hrelation)
  expand := h.expand

theorem place?_eq (h : tree.Follows File.Kin later) (path : String) :
    later.place? path = tree.place? path := by
  rcases h.file?_cases path with ⟨hnone, hnone'⟩ | ⟨file, other, hfile, hother, hkin⟩
  · simp [place?, hnone, hnone']
  · simp [place?, hfile, hother, hkin.location]

theorem proper (h : tree.Follows File.Kin later) (hproper : ∀ file ∈ tree.files, file.Proper) :
    ∀ file ∈ later.files, file.Proper := by
  obtain ⟨carry, hfiles, hcarry⟩ := h.files
  rw [hfiles, List.forall_mem_map]
  exact fun file hfile => (hcarry file hfile).proper (hproper file hfile)

theorem succeeds_iff (h : tree.Follows File.Kin later) (options : Options) (path : String) :
    (∃ file ∈ later.file? path, options.Succeeds file) ↔
      ∃ file ∈ tree.file? path, options.Succeeds file := by
  rcases h.file?_cases path with ⟨hnone, hnone'⟩ | ⟨file, other, hfile, hother, hkin⟩
  · rw [hnone, hnone']
  · simp [hfile, hother, Options.succeeds_of_kin hkin]

end Follows

theorem expand_store (tree : Tree) (location : Location) (tags : Option Container) :
    (tree.store location tags).expand = tree.expand := by
  have hbelow : (tree.store location tags).below = tree.below := by
    funext directory all
    rw [below_eq, below_eq]
    exact congrArg _ (tree.places_store location tags)
  have hfinds : (tree.store location tags).finds = tree.finds := by
    funext recursive path
    rw [finds, finds, file?_store_eq, Option.isSome_map]
  have hinput : (tree.store location tags).expandInput = tree.expandInput := by
    funext recursive input
    rw [expandInput, expandInput, directory?_store]
    cases tree.directory? input with
    | none => rfl
    | some directory => simp only [audioFiles, hbelow, hfinds]
  funext recursive inputs
  rw [expand, expand, hinput]

theorem follows_store (hdistinct : tree.Distinct) {file stored : File} (hfile : file ∈ tree.files)
    (hkept : stored = { file with tags := stored.tags }) (hstored : relation file stored)
    (hothers : ∀ other : File, other.location ≠ file.location → relation other other) :
    tree.Follows relation (tree.store file.location stored.tags) := by
  have hretagged : ∀ other ∈ tree.files,
      relation other (other.retagged file.location stored.tags) := by
    intro other hother
    unfold File.retagged
    split
    · rename_i hhere
      rw [hdistinct.eq_of_location hother hfile hhere, ← hkept]
      exact hstored
    · rename_i hne
      exact hothers other hne
  refine ⟨⟨⟨_, rfl, hretagged⟩, rfl, (carries_store hdistinct _ _).distinct⟩, fun path => ?_,
    tree.expand_store _ _⟩
  rw [file?_store_eq]
  cases hother : tree.file? path with
  | none => exact .none
  | some other =>
      exact .some (hretagged other (List.mem_of_find?_eq_some (fileAt?_of_file? hother)))

/-- Whether one of several paths leads to a place. -/
def LeadsTo (tree : Tree) (paths : List String) (location : Location) : Prop :=
  ∃ path ∈ paths, tree.place? path = some location

end Tree

/-- What visits to several paths make of a file: what the values that get there make of it if one of
the paths leads to it, and nothing otherwise. -/
structure Options.Treats (options : Options) (tree : Tree) (paths : List String)
    (file later : File) : Prop where
  reached : tree.LeadsTo paths file.location → file.Revised (options.landing file) later
  missed : ¬ tree.LeadsTo paths file.location → later = file

namespace Options

variable {options : Options} {tree between : Tree} {path : String} {paths : List String}
  {file middle later : File} {fine : Bool}

namespace Treats

theorem kin (h : options.Treats tree paths file later) : file.Kin later := by
  by_cases hreached : tree.LeadsTo paths file.location
  · exact (h.reached hreached).toKin
  · rw [h.missed hreached]
    exact .refl file

theorem of_missed (h : ¬ tree.LeadsTo paths file.location) : options.Treats tree paths file file :=
  ⟨fun hreached => absurd hreached h, fun _ => rfl⟩

theorem cons (hplaces : ∀ other, between.place? other = tree.place? other)
    (h : options.Treats tree [path] file middle) (h' : options.Treats between paths middle later) :
    options.Treats tree (path :: paths) file later := by
  have hlanding : options.landing middle = options.landing file := landing_of_kin h.kin
  have hrest : between.LeadsTo paths middle.location ↔ tree.LeadsTo paths file.location := by
    simp only [Tree.LeadsTo, hplaces, h.kin.location]
  have hreached := h'.reached
  have hmissed := h'.missed
  rw [hrest] at hreached hmissed
  rw [hlanding] at hreached
  have hcons : tree.LeadsTo (path :: paths) file.location ↔
      tree.LeadsTo [path] file.location ∨ tree.LeadsTo paths file.location := by
    simp [Tree.LeadsTo]
  constructor
  · intro hleads
    by_cases hfirst : tree.LeadsTo [path] file.location
    · have hmiddle := h.reached hfirst
      by_cases hlast : tree.LeadsTo paths file.location
      · exact hmiddle.again (hreached hlast)
      · rw [hmissed hlast]
        exact hmiddle
    · have hlast := (hcons.mp hleads).resolve_left hfirst
      obtain rfl := h.missed hfirst
      exact hreached hlast
  · intro hnot
    rw [hcons, not_or] at hnot
    rw [hmissed hnot.2, h.missed hnot.1]

end Treats

theorem visit_treats (hstill : options.Still) (hdistinct : tree.Distinct)
    (hproper : ∀ file ∈ tree.files, file.Proper)
    (hfine : (options.visit tree path).outcome = .ok fine) :
    tree.Follows (options.Treats tree [path]) (options.visit tree path).tree ∧
      (fine = true ↔ ∃ file ∈ tree.file? path, options.Succeeds file) := by
  cases hfile : tree.file? path with
  | none =>
      have hopen : Handle.openAt tree path = .error (.notFound path) := by
        rw [Handle.openAt, hfile]
      have hmissed : ∀ location, ¬ tree.LeadsTo [path] location := by
        simp [Tree.LeadsTo, Tree.place?, hfile]
      rw [tree_visit_of_error hopen]
      refine ⟨.refl hdistinct fun file => .of_missed (hmissed _), ?_⟩
      have hvisit : options.visit tree path = Visit.ofRefusal tree path (.notFound path) := by
        simp [visit, hopen]
      rw [hvisit] at hfine
      simp [Visit.outcome_ofRefusal hfine]
  | some file =>
      have hmem := List.mem_of_find?_eq_some (Tree.fileAt?_of_file? hfile)
      have hleads : ∀ location, tree.LeadsTo [path] location ↔ file.location = location := by
        simp [Tree.LeadsTo, Tree.place?, hfile]
      obtain ⟨⟨stored, hstored, htree⟩, hgoes⟩ :=
        visit_revises hstill hdistinct hfile (hproper file hmem) hfine
      rw [htree]
      refine ⟨Tree.follows_store hdistinct hmem hstored.kept ?_ ?_, by simp [hgoes]⟩
      · exact ⟨fun _ => hstored, fun hmissed => absurd ((hleads _).mpr rfl) hmissed⟩
      · exact fun other hne => .of_missed fun hreached => hne ((hleads _).mp hreached).symm

end Options

/-- Whether a file is another with other tags at most, whose fields read the same. -/
def File.ReadsLike (file later : File) : Prop :=
  later = { file with tags := later.tags } ∧ ∀ field, later.reading field = file.reading field

namespace Session

variable {options : Options} {session after : Session} {fine : Bool}

theorem tree_start (tree : Tree) : (start tree).tree = tree := rfl

/-- A row of visits makes of every file what the values that get there make of it, or nothing if no
path leads there, and its verdict follows from the files that there were before it. -/
theorem visitAll_treats (hstill : options.Still) {paths : List String}
    (hdistinct : session.tree.Distinct) (hproper : ∀ file ∈ session.tree.files, file.Proper)
    (h : visitAll options paths session = .ok fine after) :
    session.tree.Follows (options.Treats session.tree paths) after.tree ∧
      (fine = true ↔ ∀ path ∈ paths, ∃ file ∈ session.tree.file? path, options.Succeeds file) := by
  induction paths generalizing session fine with
  | nil =>
      cases h
      exact ⟨.refl hdistinct fun file => .of_missed (by simp [Tree.LeadsTo]), by simp⟩
  | cons path paths ih =>
      obtain ⟨first, last, hfirst, hlast, rfl⟩ := visitAll_cons_eq_ok h
      obtain ⟨hvisit, hgoes⟩ := Options.visit_treats hstill hdistinct hproper hfirst
      have hkin := hvisit.mono fun file later htreats => htreats.kin
      obtain ⟨hrest, hgo⟩ := ih hvisit.distinct (hkin.proper hproper) hlast
      refine ⟨hvisit.trans hrest fun file middle later => .cons hkin.place?_eq, ?_⟩
      have hgo' : last = true ↔ ∀ other ∈ paths,
          ∃ file ∈ session.tree.file? other, options.Succeeds file := by
        simp only [← hkin.succeeds_iff]
        exact hgo
      rw [Bool.and_eq_true, hgoes, hgo', List.forall_mem_cons]

theorem run_treats (hstill : options.Still) {inputs : List String}
    (hdistinct : session.tree.Distinct) (hproper : ∀ file ∈ session.tree.files, file.Proper)
    (h : run options inputs session = .ok fine after) :
    let paths := session.tree.expand options.recursive inputs
    session.tree.Follows (options.Treats session.tree paths) after.tree ∧
      (fine = true ↔ ∀ path ∈ paths, ∃ file ∈ session.tree.file? path, options.Succeeds file) := by
  intro paths
  obtain ⟨last, hvisits, rfl⟩ := run_eq_ok h
  let begun := session.record (session.tree.searchEvents options.recursive inputs)
  have hbegun : begun.tree.Distinct := hdistinct
  have hvisited := visitAll_treats hstill hbegun hproper hvisits
  exact hvisited

/-- Running the same edit again changes nothing more. A batch that asks for no renaming makes of
each file that its inputs lead to what the values that get there make of it. After a second one,
with the same options and inputs, every file reads in all fields as it did after the first, and the
verdicts are the same. -/
theorem run_again (hstill : options.Still) (hdistinct : session.tree.Distinct)
    (hproper : ∀ file ∈ session.tree.files, file.Proper) {inputs : List String}
    {other after' : Session} {fine' : Bool} (h : run options inputs session = .ok fine after)
    (hother : other.tree = after.tree) (h' : run options inputs other = .ok fine' after') :
    session.tree.Carries
        (options.Treats session.tree (session.tree.expand options.recursive inputs)) after.tree ∧
      after.tree.Carries File.ReadsLike after'.tree ∧ fine' = fine := by
  obtain ⟨hfirst, hfine⟩ := run_treats hstill hdistinct hproper h
  have hkin := hfirst.mono fun file later htreats => htreats.kin
  obtain ⟨hagain, hfine'⟩ := run_treats hstill (hother ▸ hfirst.distinct)
    (hother ▸ hkin.proper hproper) h'
  rw [hother, hkin.expand] at hagain hfine'
  have hverdict : fine' = true ↔ fine = true := by
    rw [hfine', hfine]
    simp only [hkin.succeeds_iff]
  refine ⟨hfirst.toCarries, ?_, Bool.eq_iff_iff.mpr hverdict⟩
  obtain ⟨carry, hfiles, hcarry⟩ := hfirst.files
  obtain ⟨carry', hfiles', hcarry'⟩ := hagain.files
  refine ⟨⟨carry', hfiles', ?_⟩, hagain.directories, hagain.distinct⟩
  intro between hbetween
  have hlater := hcarry' between hbetween
  rw [hfiles] at hbetween
  obtain ⟨file, hfile, rfl⟩ := List.mem_map.mp hbetween
  have hbefore := hcarry file hfile
  have hleads : after.tree.LeadsTo (session.tree.expand options.recursive inputs)
      (carry file).location ↔
      session.tree.LeadsTo (session.tree.expand options.recursive inputs) file.location := by
    simp only [Tree.LeadsTo, hkin.place?_eq, hbefore.kin.location]
  refine ⟨hlater.kin.kept, fun field => ?_⟩
  by_cases hreached :
      session.tree.LeadsTo (session.tree.expand options.recursive inputs) file.location
  · have hrevised := hlater.reached (hleads.mpr hreached)
    rw [Options.landing_of_kin hbefore.kin] at hrevised
    rw [(hbefore.reached hreached).reading_again hrevised]
  · rw [hlater.missed (mt hleads.mp hreached)]

theorem run_again_spellings :
    let session := start ⟨[], [⟨["a.ogg"], some .oggVorbis, some (.comments [("TITLE", "Old")]),
      ⟨none, none, none⟩⟩, ⟨["b.mp3"], some .mp3, none, ⟨none, none, none⟩⟩]⟩
    let options : Options := ⟨[.assign .artist (.text "X\x00Y"), .assign .year (.number 476)],
      some ⟨"%t", [.placeholder ⟨.title, none, .preserve⟩]⟩, none, .shell, false, false⟩
    let inputs := ["a.ogg", "b.mp3", "./a.ogg", "c.mp3"]
    ∃ after after', run options inputs session = .ok false after ∧
      run options inputs (start after.tree) = .ok false after' ∧
      after.tree.files.map (fun file => (file.reading .artist, file.reading .year)) =
        [(.ok (.text "X\x00Y"), .ok (.number 0)), (.ok (.text "X"), .ok (.number 476))] ∧
      after.tree.Carries File.ReadsLike after'.tree := by
  intro session options inputs
  have hstill : options.Still := nofun
  have hproper : ∀ file ∈ session.tree.files, file.Proper := by
    intro file hfile tags htags
    rcases List.mem_pair.mp hfile with rfl | rfl
    · cases htags
      trivial
    · cases htags
  let after := leftBy (run options inputs) session
  let again := leftBy (run options inputs) (start after.tree)
  have hrun : run options inputs session = .ok false after :=
    eq_ok_of_resultOf (by decide +kernel)
  have hrun' : run options inputs (start after.tree) = .ok false again :=
    eq_ok_of_resultOf (by decide +kernel)
  obtain ⟨-, hcarries, -⟩ :=
    run_again hstill (by decide +kernel) hproper hrun (tree_start after.tree) hrun'
  exact ⟨after, again, hrun, hrun', by decide +kernel, hcarries⟩

end Session

end LinerNotes
