import Mathlib.Data.List.Nodup
import LinerNotes.Batch.Session
import LinerNotes.Proofs.Effects

/-!
No file is lost. Whatever batches and renamings are run, and also when they fail, every file of the
tree before is a file of the tree after, in a place of its own.
-/

namespace LinerNotes

namespace Tree

/-- Whether no two files are at one place. -/
def Distinct (tree : Tree) : Prop :=
  (tree.files.map File.location).Nodup

instance (tree : Tree) : Decidable tree.Distinct :=
  inferInstanceAs (Decidable (List.Nodup _))

/-- Whether the files of one tree are those of another, each with the given relation to what it was,
and no two of them at one place. -/
structure Carries (tree : Tree) (relation : File → File → Prop) (after : Tree) : Prop where
  files : ∃ carry : File → File, after.files = tree.files.map carry ∧
    ∀ file ∈ tree.files, relation file (carry file)
  directories : after.directories = tree.directories
  distinct : after.Distinct

namespace Carries

variable {tree middle after : Tree} {relation next whole : File → File → Prop}

theorem refl (hdistinct : tree.Distinct) (h : ∀ file, relation file file) :
    tree.Carries relation tree :=
  ⟨⟨id, tree.files.map_id.symm, fun file _ => h file⟩, rfl, hdistinct⟩

theorem trans (h : tree.Carries relation middle) (h' : middle.Carries next after)
    (hwhole : ∀ file between later, relation file between → next between later → whole file later) :
    tree.Carries whole after := by
  obtain ⟨⟨carry, hfiles, hcarry⟩, hdirectories, -⟩ := h
  obtain ⟨⟨carry', hfiles', hcarry'⟩, hdirectories', hdistinct⟩ := h'
  refine ⟨⟨carry' ∘ carry, ?_, ?_⟩, hdirectories'.trans hdirectories, hdistinct⟩
  · rw [hfiles', hfiles, List.map_map]
  · intro file hfile
    have hbetween : carry file ∈ middle.files := by
      rw [hfiles]
      exact List.mem_map_of_mem hfile
    exact hwhole file _ _ (hcarry file hfile) (hcarry' _ hbetween)

theorem mono (h : tree.Carries relation after)
    (himp : ∀ file later, relation file later → whole file later) : tree.Carries whole after := by
  obtain ⟨⟨carry, hfiles, hcarry⟩, hdirectories, hdistinct⟩ := h
  exact ⟨⟨carry, hfiles, fun file hfile => himp file _ (hcarry file hfile)⟩,
    hdirectories, hdistinct⟩

end Carries

theorem Distinct.eq_of_location {tree : Tree} (hdistinct : tree.Distinct) {file other : File}
    (hfile : file ∈ tree.files) (hother : other ∈ tree.files)
    (h : file.location = other.location) : file = other :=
  List.inj_on_of_nodup_map hdistinct hfile hother h

end Tree

/-- Whether a file is still of the same kind: the same format, and the same faults that come up. -/
def File.SameKind (file later : File) : Prop :=
  later.format = file.format ∧ later.faults = file.faults

/-- Whether a file may have become another only if it was at a given place. -/
def File.ChangedAt (location : Location) (file later : File) : Prop :=
  file.SameKind later ∧ (file.location ≠ location → later = file)

theorem File.ChangedAt.refl (location : Location) (file : File) : file.ChangedAt location file :=
  ⟨⟨rfl, rfl⟩, fun _ => rfl⟩

theorem File.ChangedAt.trans {location : Location} {file between later : File}
    (h : file.ChangedAt location between) (h' : between.ChangedAt location later) :
    file.ChangedAt location later := by
  refine ⟨⟨h'.1.1.trans h.1.1, h'.1.2.trans h.1.2⟩, fun hother => ?_⟩
  have hbetween := h.2 hother
  rw [h'.2 (by rwa [hbetween]), hbetween]

namespace Tree

variable {tree : Tree}

theorem carries_store (hdistinct : tree.Distinct) (location : Location) (tags : Option Container) :
    tree.Carries (File.ChangedAt location) (tree.store location tags) := by
  refine ⟨⟨File.retagged location tags, rfl, fun file _ => ?_⟩, rfl, ?_⟩
  · unfold File.retagged
    split
    · rename_i hhere
      exact ⟨⟨rfl, rfl⟩, fun hother => absurd hhere hother⟩
    · exact .refl location file
  · have hlocations : (tree.store location tags).files.map File.location =
        tree.files.map File.location := by
      rw [files_store, List.map_map]
      congr 1
      funext file
      exact File.retagged_location location tags file
    rwa [Distinct, hlocations]

theorem carries_move (hdistinct : tree.Distinct) (source : Location) {target : Location}
    (hvacant : tree.fileAt? target = none) :
    tree.Carries (fun file later =>
      later = { file with location := later.location } ∧ (file.location ≠ source → later = file))
      (tree.move source target) := by
  by_cases hsame : source = target
  · simp only [move, hsame, if_true]
    exact .refl hdistinct fun file => ⟨rfl, fun _ => rfl⟩
  · refine ⟨⟨File.moved source target, files_move hsame hvacant, fun file _ => ?_⟩,
      directories_move tree source target, ?_⟩
    · unfold File.moved
      split
      · rename_i hhere
        exact ⟨rfl, fun hother => absurd hhere hother⟩
      · exact ⟨rfl, fun _ => rfl⟩
    · rw [Distinct, files_move hsame hvacant, List.map_map]
      refine List.Nodup.map_on ?_ (List.Nodup.of_map _ hdistinct)
      intro file hfile other hother heq
      have hplace : file.location = other.location := by
        simp only [Function.comp, File.moved] at heq
        split at heq <;> split at heq
        · rename_i hfirst hsecond
          rw [hfirst, hsecond]
        · exact absurd heq.symm (not_mem_of_fileAt? hvacant hother)
        · exact absurd heq (not_mem_of_fileAt? hvacant hfile)
        · exact heq
      exact List.inj_on_of_nodup_map hdistinct hfile hother hplace

theorem carries_renameFile (hdistinct : tree.Distinct) {source name : String} {dryRun : Bool}
    {renamed : Renamed} (h : tree.renameFile source name dryRun = .ok renamed) :
    tree.Carries (fun file later => later = { file with location := later.location } ∧
      (tree.file? source ≠ some file → later = file)) renamed.tree := by
  have hsame : tree.Carries (fun file later => later = { file with location := later.location } ∧
      (tree.file? source ≠ some file → later = file)) tree :=
    .refl hdistinct fun file => ⟨rfl, fun _ => rfl⟩
  rcases renameFile_eq_ok h with ⟨-, rfl⟩ | ⟨-, rfl⟩ | ⟨-, file, location, hfile, hvacant, rfl⟩
  · exact hsame
  · exact hsame
  · have hfound := fileAt?_of_file? hfile
    obtain ⟨⟨carry, hfiles, hcarry⟩, hdirectories, hdistinct'⟩ :=
      carries_move hdistinct file.location (fileAt?_of_vacant? hvacant)
    refine ⟨⟨carry, hfiles, fun other hother => ⟨(hcarry other hother).1, fun hne => ?_⟩⟩,
      hdirectories, hdistinct'⟩
    refine (hcarry other hother).2 fun hplace => hne ?_
    have hmem : file ∈ tree.files := List.mem_of_find?_eq_some hfound
    rw [hfile, hdistinct.eq_of_location hmem hother hplace.symm]

end Tree

namespace Options

/-- A visit leaves every file but the one that it opened as it was. -/
theorem carries_visit (options : Options) {tree : Tree} (hdistinct : tree.Distinct) {path : String}
    {handle : Handle} {opened : Event} (h : Handle.openAt tree path = .ok (handle, opened)) :
    tree.Carries (File.ChangedAt handle.location) (options.visit tree path).tree := by
  obtain ⟨middle, hmiddle, hlast⟩ := options.tree_visit_of_ok h
  obtain ⟨file, format, hfile, -, -, -, rfl⟩ := Handle.openAt_eq_ok h
  have hfirst : tree.Carries (File.ChangedAt file.location) middle ∧
      ∃ tags, middle.file? path = some { file with tags := tags } := by
    rcases hmiddle with rfl | ⟨tags, rfl⟩
    · exact ⟨.refl hdistinct (File.ChangedAt.refl _), file.tags, hfile⟩
    · exact ⟨Tree.carries_store hdistinct _ tags, tags, Tree.file?_store hfile tags⟩
  obtain ⟨hcarries, tags, hfound⟩ := hfirst
  rcases hlast with hsame | ⟨name, renamed, hrenamed, htree⟩
  · rw [hsame]
    exact hcarries
  · rw [htree]
    refine hcarries.trans (Tree.carries_renameFile hcarries.distinct hrenamed) ?_
    rintro first between later hchanged ⟨hlater, hothers⟩
    refine hchanged.trans ⟨?_, fun hother => hothers ?_⟩
    · rw [hlater]
      exact ⟨rfl, rfl⟩
    · rw [hfound]
      rintro ⟨rfl⟩
      exact hother rfl

/-- The file that a visit to a path opens, if it does. -/
def openedAt (tree : Tree) (path : String) : List Handle :=
  match Handle.openAt tree path with
  | .ok (handle, _) => [handle]
  | .error _ => []

/-- The files that the visits to several paths open, as far as they get. -/
def opened (options : Options) : Tree → List String → List Handle
  | _, [] => []
  | tree, path :: rest =>
      let visit := options.visit tree path
      let others := match visit.outcome with
        | .ok _ => opened options visit.tree rest
        | .error _ => []
      openedAt tree path ++ others

end Options

/-- Whether a file is still of the same kind, and unchanged unless it was among the opened ones. -/
def File.SparedBy (opened : List Handle) (file later : File) : Prop :=
  file.SameKind later ∧ ((∀ handle ∈ opened, handle.location ≠ file.location) → later = file)

theorem File.ChangedAt.sparedBy {handle : Handle} {opened : List Handle} (hmem : handle ∈ opened)
    {file later : File} (h : file.ChangedAt handle.location later) : file.SparedBy opened later :=
  ⟨h.1, fun hnone => h.2 fun hhere => hnone handle hmem hhere.symm⟩

theorem File.SparedBy.append {first others : List Handle} {file between later : File}
    (h : file.SparedBy first between) (h' : between.SparedBy others later) :
    file.SparedBy (first ++ others) later := by
  refine ⟨⟨h'.1.1.trans h.1.1, h'.1.2.trans h.1.2⟩, fun hnone => ?_⟩
  have hbetween : between = file :=
    h.2 fun handle hmem => hnone handle (List.mem_append_left others hmem)
  rw [h'.2 (fun handle hmem => ?_), hbetween]
  rw [hbetween]
  exact hnone handle (List.mem_append_right first hmem)

theorem Options.carries_visit_openedAt (options : Options) {tree : Tree}
    (hdistinct : tree.Distinct) (path : String) :
    tree.Carries (File.SparedBy (openedAt tree path)) (options.visit tree path).tree := by
  unfold openedAt
  cases hopen : Handle.openAt tree path with
  | error failure =>
      rw [tree_visit_of_error hopen]
      exact .refl hdistinct fun file => ⟨⟨rfl, rfl⟩, fun _ => rfl⟩
  | ok found =>
      exact (options.carries_visit hdistinct hopen).mono fun file later =>
        File.ChangedAt.sparedBy List.mem_cons_self

namespace Session

theorem visitAll_cons_eq (options : Options) (path : String) (paths : List String)
    (session : Session) : visitAll options (path :: paths) session =
      match (options.visit session.tree path).outcome with
      | .ok fine =>
          match visitAll options paths (session.add (options.visit session.tree path)) with
          | .ok others after => .ok (fine && others) after
          | .error failure after => .error failure after
      | .error failure => .error failure (session.add (options.visit session.tree path)) := by
  simp only [visitAll, visit, bind, EStateM.bind]
  cases (options.visit session.tree path).outcome with
  | ok fine =>
      simp only
      cases visitAll options paths (session.add (options.visit session.tree path)) <;> rfl
  | error failure => rfl

theorem leftBy_visitAll_cons (options : Options) (path : String) (paths : List String)
    (session : Session) : leftBy (visitAll options (path :: paths)) session =
      match (options.visit session.tree path).outcome with
      | .ok _ => leftBy (visitAll options paths) (session.add (options.visit session.tree path))
      | .error _ => session.add (options.visit session.tree path) := by
  simp only [leftBy, visitAll_cons_eq]
  cases (options.visit session.tree path).outcome with
  | error failure => rfl
  | ok fine =>
      simp only
      cases visitAll options paths (session.add (options.visit session.tree path)) <;> rfl

theorem run_eq (options : Options) (inputs : List String) (session : Session) :
    run options inputs session =
      match visitAll options (session.tree.expand options.recursive inputs)
        (session.record (session.tree.searchEvents options.recursive inputs)) with
      | .ok fine after => .ok fine (after.record (closing options after.tally))
      | .error failure after => .error failure after := by
  change (visitAll options _ >>= fun fine => modify _ >>= fun _ => pure fine)
    (session.record _) = _
  simp only [bind, EStateM.bind]
  cases visitAll options _ (session.record _) <;> rfl

theorem run_eq_ok {options : Options} {inputs : List String} {session after : Session} {fine : Bool}
    (h : run options inputs session = .ok fine after) :
    ∃ last, visitAll options (session.tree.expand options.recursive inputs)
        (session.record (session.tree.searchEvents options.recursive inputs)) = .ok fine last ∧
      after = last.record (closing options last.tally) := by
  rw [run_eq] at h
  cases hvisits : visitAll options (session.tree.expand options.recursive inputs)
      (session.record (session.tree.searchEvents options.recursive inputs)) with
  | error failure failed =>
      rw [hvisits] at h
      cases h
  | ok verdict last =>
      rw [hvisits] at h
      cases h
      exact ⟨last, rfl, rfl⟩

theorem tree_run (options : Options) (inputs : List String) (session : Session) :
    (leftBy (run options inputs) session).tree =
      (leftBy (visitAll options (session.tree.expand options.recursive inputs))
        (session.record (session.tree.searchEvents options.recursive inputs))).tree := by
  rw [leftBy, run_eq, leftBy]
  cases visitAll options _ (session.record _) <;> rfl

theorem carries_visitAll (options : Options) (paths : List String) (session : Session)
    (hdistinct : session.tree.Distinct) :
    session.tree.Carries (File.SparedBy (options.opened session.tree paths))
      (leftBy (visitAll options paths) session).tree := by
  induction paths generalizing session with
  | nil => exact .refl hdistinct fun file => ⟨⟨rfl, rfl⟩, fun _ => rfl⟩
  | cons path paths ih =>
      have hvisit := options.carries_visit_openedAt hdistinct path
      rw [leftBy_visitAll_cons, Options.opened]
      cases (options.visit session.tree path).outcome with
      | ok fine =>
          have hrest := ih (session.add (options.visit session.tree path)) hvisit.distinct
          exact hvisit.trans hrest fun file between later => File.SparedBy.append
      | error failure =>
          simp only [List.append_nil]
          exact hvisit

/-- The files that a batch opens. -/
def opened (session : Session) (options : Options) (inputs : List String) : List Handle :=
  options.opened session.tree (session.tree.expand options.recursive inputs)

theorem carries_run (options : Options) (inputs : List String) (session : Session)
    (hdistinct : session.tree.Distinct) :
    session.tree.Carries (File.SparedBy (session.opened options inputs))
      (leftBy (run options inputs) session).tree := by
  rw [tree_run]
  exact carries_visitAll options _ (session.record _) hdistinct

end Session

/-- What can be asked of a session: a batch, or the renaming of a single file. -/
inductive Request where
  | batch (options : Options) (inputs : List String)
  | rename (source name : String) (dryRun : Bool)
deriving DecidableEq

namespace Session

/-- The session after a request, whether it was met or failed. -/
def after (session : Session) : Request → Session
  | .batch options inputs => leftBy (run options inputs) session
  | .rename source name dryRun =>
      match session.tree.renameFile source name dryRun with
      | .ok renamed => { session with tree := renamed.tree }
      | .error _ => session

theorem carries_after {session : Session} (hdistinct : session.tree.Distinct) (request : Request) :
    session.tree.Carries File.SameKind (session.after request).tree := by
  cases request with
  | batch options inputs =>
      exact (carries_run options inputs session hdistinct).mono fun file later h => h.1
  | rename source name dryRun =>
      simp only [after]
      cases hrenamed : session.tree.renameFile source name dryRun with
      | error failure => exact .refl hdistinct fun file => ⟨rfl, rfl⟩
      | ok renamed =>
          refine (Tree.carries_renameFile hdistinct hrenamed).mono ?_
          rintro file later ⟨hlater, -⟩
          rw [hlater]
          exact ⟨rfl, rfl⟩

theorem carries_foldl_after {session : Session} (hdistinct : session.tree.Distinct)
    (requests : List Request) :
    session.tree.Carries File.SameKind (requests.foldl after session).tree := by
  induction requests generalizing session with
  | nil => exact .refl hdistinct fun file => ⟨rfl, rfl⟩
  | cons request requests ih =>
      have hfirst := carries_after hdistinct request
      refine hfirst.trans (ih hfirst.distinct) ?_
      rintro file between later ⟨hformat, hfaults⟩ ⟨hformat', hfaults'⟩
      exact ⟨hformat'.trans hformat, hfaults'.trans hfaults⟩

/-- No file is lost or overwritten. Through any row of batches and renamings every file stays a file
of its kind, with a place of its own, also when a request fails. A batch leaves every file that it
did not open as it was. A renaming that fails or is dry leaves the tree as it was; any other
renaming that is not refused changes nothing but the place of the file at the path, which is then
found under the new path. -/
theorem no_file_lost (session : Session) (hdistinct : session.tree.Distinct) :
    (∀ requests : List Request,
      session.tree.Carries File.SameKind (requests.foldl after session).tree) ∧
    (∀ options inputs, session.tree.Carries (File.SparedBy (session.opened options inputs))
      (session.after (.batch options inputs)).tree) ∧
    ∀ source name dryRun,
      match session.tree.renameFile source name dryRun with
      | .error _ => (session.after (.rename source name dryRun)).tree = session.tree
      | .ok renamed =>
          (session.after (.rename source name dryRun)).tree = renamed.tree ∧
          (dryRun = true → renamed.tree = session.tree) ∧
          session.tree.Carries (fun file later =>
            later = { file with location := later.location } ∧
            (session.tree.file? source ≠ some file → later = file)) renamed.tree ∧
          (dryRun = false → ∀ file, session.tree.file? source = some file →
            ∃ location, renamed.tree.file? renamed.path =
              some { file with location := location }) := by
  refine ⟨carries_foldl_after hdistinct, fun options inputs => carries_run options inputs session
    hdistinct, fun source name dryRun => ?_⟩
  cases hrenamed : session.tree.renameFile source name dryRun with
  | error failure => simp only [after, hrenamed]
  | ok renamed =>
      refine ⟨by simp only [after, hrenamed], ?_, Tree.carries_renameFile hdistinct hrenamed, ?_⟩
      · rintro rfl
        rcases Tree.renameFile_eq_ok hrenamed with ⟨-, rfl⟩ | ⟨-, rfl⟩ | ⟨hwet, -⟩
        · rfl
        · rfl
        · cases hwet
      · rintro rfl file hfile
        rcases Tree.renameFile_eq_ok hrenamed with ⟨-, rfl⟩ | ⟨hdry, -⟩ |
          ⟨-, other, location, hother, hvacant, rfl⟩
        · exact ⟨file.location, hfile⟩
        · cases hdry
        · rw [hother] at hfile
          cases hfile
          exact ⟨location, Tree.file?_move (Tree.fileAt?_of_file? hother) hvacant⟩

/-- A batch names two files by their titles. The first is refused, because the second has its name
until it is renamed itself; the next batch renames it. Between them a renaming that would have
replaced the picture is refused. -/
theorem no_file_lost_titles :
    let titled (name title : String) : File :=
      ⟨[name], some .flac, some (.comments [("TITLE", title)]), ⟨none, none, none⟩⟩
    let cover : File := ⟨["cover.jpg"], none, none, ⟨none, none, none⟩⟩
    let session := Session.start ⟨[], [titled "a.flac" "b", titled "b.flac" "c", cover]⟩
    let byTitle : Options := ⟨[], none,
      some ⟨"%T", [.placeholder ⟨.title, none, .preserve⟩]⟩, .shell, false, false⟩
    let requests : List Request := [.batch byTitle ["a.flac", "b.flac"],
      .rename "a.flac" "cover.jpg" false, .batch byTitle ["a.flac", "none.flac"]]
    session.tree.Distinct ∧
      session.tree.Carries File.SameKind (requests.foldl after session).tree ∧
      (requests.foldl after session).tree.files =
        [titled "b.flac" "b", titled "c.flac" "c", cover] := by
  intro titled cover session byTitle requests
  have hdistinct : session.tree.Distinct := by decide +kernel
  exact ⟨hdistinct, (no_file_lost session hdistinct).1 requests, by decide +kernel⟩

end Session

end LinerNotes
