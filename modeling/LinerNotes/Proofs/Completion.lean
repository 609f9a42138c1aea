import LinerNotes.Proofs.Stopping
import LinerNotes.Proofs.Survival

/-!
Batches that come to their end. With known faults and edits as a user gives them, a batch goes on to
its last path unless it opens a file on which a step ends the run, or which it cannot list.
-/

namespace LinerNotes

theorem Listing.fieldLines_cases (lookUp : Field → Except Failure Value) (fields : List Field) :
    match (fieldLines lookUp fields).2 with
    | none => ∀ field ∈ fields, ∃ value, lookUp field = .ok value
    | some failure => ∃ field ∈ fields, lookUp field = .error failure := by
  induction fields with
  | nil => simp [fieldLines]
  | cons field fields ih =>
      cases hfield : lookUp field with
      | error failure =>
          simp only [fieldLines, hfield]
          exact ⟨field, List.mem_cons_self, hfield⟩
      | ok value =>
          simp only [fieldLines, hfield]
          cases hrest : (fieldLines lookUp fields).2 with
          | none =>
              rw [hrest] at ih
              intro other hother
              rcases List.mem_cons.mp hother with rfl | hmem
              · exact ⟨value, hfield⟩
              · exact ih other hmem
          | some failure =>
              rw [hrest] at ih
              obtain ⟨other, hother, hfails⟩ := ih
              exact ⟨other, List.mem_cons_of_mem field hother, hfails⟩

namespace Options

/-- All values that the steps write into the file at a path. -/
def writes (options : Options) (path : String) : List (Field × Value) :=
  options.steps.flatMap (Step.entries path)

/-- Whether an opened file ends the run. A listing comes to a track with too many digits; the values
to be written make a pair that the tags cannot hold; or the renaming after them ends it. -/
inductive Halts (options : Options) (handle : Handle) : Prop where
  | listing (hlisting : options.isEditing = false) (hlong : handle.Overlong)
  | pair (hover : handle.overflows (options.writes handle.path) = true)
  | renaming (step : Step) (hstep : step ∈ options.steps)
      (hhalts : step.Halts options (handle.rewritten (options.writes handle.path)))

/-- Whether the edits are as a user can give them: what they assign was typed. -/
def Typed (options : Options) : Prop :=
  ∀ field value, .assign field value ∈ options.edits → ∃ raw, field.parse raw = .ok value

theorem Typed.takes {options : Options} (h : options.Typed) :
    ∀ entry ∈ options.edits.map Edit.entry, entry.1.Takes entry.2 := by
  intro entry hentry
  obtain ⟨edit, hedit, rfl⟩ := List.mem_map.mp hentry
  cases edit with
  | assign field value =>
      obtain ⟨raw, hraw⟩ := h field value hedit
      exact Field.takes_of_parse hraw
  | assignNothing field => exact field.takes_absent
  | clear field => exact field.takes_emptyValue

theorem halts_iff_of_listing {options : Options} {handle : Handle}
    (h : options.isEditing = false) : options.Halts handle ↔ handle.Overlong := by
  have hsteps : options.steps = [] := by simpa [isEditing] using h
  constructor
  · rintro (⟨-, hlong⟩ | hover | ⟨step, hstep, -⟩)
    · exact hlong
    · rw [writes, hsteps, List.flatMap_nil, Handle.overflows_nil] at hover
      cases hover
    · rw [hsteps] at hstep
      cases hstep
  · exact .listing h

theorem writes_eq (options : Options) (path : String) :
    options.writes path = options.writing.flatMap (Step.entries path) := by
  have hrename : (specStep Step.rename options.rename).flatMap (Step.entries path) = [] := by
    rcases specStep_cases Step.rename options.rename with hnone | ⟨spec, hspec, -⟩
    · rw [hnone]
      rfl
    · rw [hspec]
      rfl
  rw [writes, steps_eq, List.flatMap_append, hrename, List.append_nil]

end Options

namespace Step

variable {options : Options} {path : String}

theorem writes_of_mem_writing (htyped : options.Typed)
    (hextract : ∀ spec : Spec, ∃ entries?, spec.extract (Path.stem path) = .ok entries?) :
    ∀ step ∈ options.writing, (∀ entry ∈ step.entries path, entry.1.Takes entry.2) ∧
      ∀ bench : Workbench, bench.handle.Known → bench.handle.path = path →
        (step.perform options).Writes (step.entries path) bench := by
  intro step hstep
  rcases Options.mem_writing_cases hstep with ⟨spec, rfl⟩ | rfl
  · obtain ⟨entries?, hentries⟩ := hextract spec
    constructor
    · simp only [entries, hentries]
      cases entries? with
      | none => simp
      | some found => exact Spec.takes_of_extract hentries
    · rintro bench hknown rfl
      exact writes_extract hknown hentries
  · exact ⟨htyped.takes, fun bench hknown _ => writes_edit hknown htyped.takes⟩

end Step

namespace Options

theorem not_halts_of_mem_writing {options : Options} {step : Step} (h : step ∈ options.writing)
    (handle : Handle) : ¬ step.Halts options handle := by
  rcases mem_writing_cases h with ⟨spec, rfl⟩ | rfl <;> exact id

theorem attemptAll_steps_cases {options : Options} (htyped : options.Typed)
    (hediting : options.isEditing = true) {bench : Workbench} (hknown : bench.handle.Known)
    (hnul : Tree.hasNul bench.handle.path = false) (hextract : ∀ spec : Spec, ∃ entries?,
      spec.extract (Path.stem bench.handle.path) = .ok entries?) :
    (¬ options.Halts bench.handle ∧ ∃ fine after,
      Step.attemptAll options options.steps bench = .ok fine after) ∨
    (options.Halts bench.handle ∧ (Step.attemptAll options options.steps).Stops bench) := by
  have hwriting := Step.writes_of_mem_writing htyped hextract
  rcases Step.attemptAll_cases hknown rfl (fun step hstep => (hwriting step hstep).1)
    (fun step hstep => (hwriting step hstep).2) with ⟨hfits, fine, middle, hwork, hhandle⟩ |
    ⟨hover, hstops⟩
  · rw [← writes_eq] at hfits hhandle
    have hgoes :
        (∀ step ∈ specStep Step.rename options.rename, ¬ step.Halts options middle.handle) →
          ¬ options.Halts bench.handle := by
      rintro hlast (⟨hlisting, -⟩ | hover | ⟨step, hstep, hhalts⟩)
      · rw [hediting] at hlisting
        cases hlisting
      · rw [hfits] at hover
        cases hover
      · rw [← hhandle] at hhalts
        rcases List.mem_append.mp (steps_eq options ▸ hstep) with hmem | hmem
        · exact not_halts_of_mem_writing hmem middle.handle hhalts
        · exact hlast step hmem hhalts
    rcases specStep_cases Step.rename options.rename with hnone | ⟨spec, hspec, -⟩
    · refine .inl ⟨hgoes (by simp [hnone]), fine, middle, ?_⟩
      rw [steps_eq, hnone, List.append_nil, hwork]
    · have hnul' : Tree.hasNul middle.handle.path = false := by
        rw [hhandle, Handle.rewritten_path, hnul]
      rcases Step.attempt_rename_cases hnul' with ⟨hpasses, fine', after, hrename⟩ |
        ⟨hhalts, failure, after, hrename, hends⟩
      · refine .inl ⟨hgoes (by simpa [hspec] using hpasses), fine && fine', after, ?_⟩
        rw [steps_eq, hspec, Step.attemptAll_append hwork (Step.attemptAll_single hrename)]
      · refine .inr ⟨.renaming (.rename spec) ?_ (hhandle ▸ hhalts), failure, after, ?_, hends⟩
        · rw [steps_eq, hspec]
          simp
        · rw [steps_eq, hspec, Step.attemptAll_append_eq, Job.bind_of_ok hwork, Step.attemptAll,
            Job.bind_of_error (Job.bind_of_error hrename)]
  · rw [← writes_eq] at hover
    refine .inr ⟨.pair hover, ?_⟩
    rw [steps_eq, Step.attemptAll_append_eq]
    exact hstops.bind

end Options

theorem Visit.ofListing_cases (tree : Tree) (handle : Handle) (opened : Event) :
    (¬ handle.Overlong ∧ (Visit.ofListing tree handle opened).outcome = .ok true) ∨
    (handle.Overlong ∧ ∃ failure,
      (Visit.ofListing tree handle opened).outcome = .error failure ∧ failure.EndsRun) := by
  have hcases := Listing.fieldLines_cases handle.read Field.all
  simp only [Visit.ofListing, Listing.lines]
  cases hlines : (Listing.fieldLines handle.read Field.all).2 with
  | none =>
      rw [hlines] at hcases
      obtain ⟨value, hvalue⟩ := hcases .track (Field.mem_all .track)
      rcases handle.read_track_cases with ⟨hshort, -⟩ | ⟨-, count, -, hfails⟩
      · exact .inl ⟨hshort, rfl⟩
      · rw [hfails] at hvalue
        cases hvalue
  | some failure =>
      rw [hlines] at hcases
      obtain ⟨field, -, hfield⟩ := hcases
      obtain ⟨-, hlong, hends⟩ := handle.overlong_of_read hfield
      exact .inr ⟨hlong, failure, rfl, hends⟩

namespace Options

/-- A visit ends the run just when the file that it opens halts it. -/
theorem visit_cases {options : Options} (htyped : options.Typed) {tree : Tree}
    (hfaults : ∀ file ∈ tree.files, file.faults.Known) {path : String} {handle : Handle}
    {opened : Event} (hopen : Handle.openAt tree path = .ok (handle, opened)) :
    (¬ options.Halts handle ∧ ∃ fine, (options.visit tree path).outcome = .ok fine) ∨
    (options.Halts handle ∧
      ∃ failure, (options.visit tree path).outcome = .error failure ∧ failure.EndsRun) := by
  obtain ⟨file, format, hfile, -, -, -, hhandle⟩ := Handle.openAt_eq_ok hopen
  have hpath : handle.path = path := by rw [hhandle]
  cases hediting : options.isEditing with
  | false =>
      have hvisit : options.visit tree path = Visit.ofListing tree handle opened := by
        simp [visit, hopen, hediting]
      rw [halts_iff_of_listing hediting, hvisit]
      rcases Visit.ofListing_cases tree handle opened with ⟨hshort, hfine⟩ | hlong
      · exact .inl ⟨hshort, true, hfine⟩
      · exact .inr hlong
  | true =>
      let start := Workbench.start tree handle opened
      have hknown : start.handle.Known := by
        have hmem := List.mem_of_find?_eq_some (Tree.fileAt?_of_file? hfile)
        exact ⟨_, congrArg Handle.audio hhandle, hfaults file hmem⟩
      have hnul : Tree.hasNul start.handle.path = false :=
        hpath ▸ (Tree.file?_eq_some_iff.mp hfile).1
      have hextract : ∀ spec : Spec, ∃ entries?,
          spec.extract (Path.stem start.handle.path) = .ok entries? := by
        intro spec
        obtain ⟨entries?, hentries, -⟩ := spec.extract_stem hfile
        exact ⟨entries?, hpath ▸ hentries⟩
      have hvisit : options.visit tree path =
          Visit.ofWork (Step.attemptAll options options.steps start) := by
        simp [visit, hopen, hediting, start]
      rw [hvisit]
      rcases attemptAll_steps_cases htyped hediting hknown hnul hextract with
        ⟨hgoes, fine, after, hwork⟩ | ⟨hhalts, failure, after, hwork, hends⟩
      · exact .inl ⟨hgoes, fine, by rw [hwork]; rfl⟩
      · exact .inr ⟨hhalts, failure, by rw [hwork]; rfl, hends⟩

end Options

theorem Handle.reach_of_openAt {tree : Tree} (hfaults : ∀ file ∈ tree.files, file.faults.Known)
    {path : String} {failure : Failure} (h : Handle.openAt tree path = .error failure) :
    failure.reach = .file := by
  unfold openAt at h
  cases hfile : tree.file? path with
  | none =>
      rw [hfile] at h
      cases h
      rfl
  | some file =>
      have hknown := hfaults file (List.mem_of_find?_eq_some (Tree.fileAt?_of_file? hfile))
      simp only [hfile, ofFile] at h
      cases hopening : file.faults.opening with
      | none =>
          simp only [hopening] at h
          split at h
          · cases h
            rfl
          · cases h
      | some fault =>
          have hofFile := hknown.opening fault hopening
          simp only [hopening] at h
          cases fault with
          | codec text =>
              cases h
              rfl
          | system text =>
              cases h
              rfl
          | _ => exact hofFile.elim

theorem Options.visit_cases_openedAt {options : Options} (htyped : options.Typed) {tree : Tree}
    (hfaults : ∀ file ∈ tree.files, file.faults.Known) (path : String) :
    ((∀ handle ∈ openedAt tree path, ¬ options.Halts handle) ∧
      ∃ fine, (options.visit tree path).outcome = .ok fine) ∨
    ((∃ handle ∈ openedAt tree path, options.Halts handle) ∧
      ∃ failure, (options.visit tree path).outcome = .error failure ∧ failure.EndsRun) := by
  unfold openedAt
  cases hopen : Handle.openAt tree path with
  | ok found => simpa using visit_cases htyped hfaults hopen
  | error failure =>
      have hreach := Handle.reach_of_openAt hfaults hopen
      exact .inl ⟨by simp, false, by simp only [visit, hopen, Visit.ofRefusal, hreach]⟩

theorem Tree.Carries.known {tree after : Tree} {relation : File → File → Prop}
    (h : tree.Carries relation after)
    (hkind : ∀ file later, relation file later → file.SameKind later)
    (hfaults : ∀ file ∈ tree.files, file.faults.Known) :
    ∀ file ∈ after.files, file.faults.Known := by
  obtain ⟨⟨carry, hfiles, hcarry⟩, -, -⟩ := h
  intro later hlater
  rw [hfiles] at hlater
  obtain ⟨file, hfile, rfl⟩ := List.mem_map.mp hlater
  rw [(hkind file _ (hcarry file hfile)).2]
  exact hfaults file hfile

namespace Session

/-- The session after visits to all of several paths. -/
def addAll (session : Session) (options : Options) (paths : List String) : Session :=
  paths.foldl (fun session path => session.add (options.visit session.tree path)) session

/-- The session after a batch that comes to its end. -/
def complete (session : Session) (options : Options) (inputs : List String) : Session :=
  let visited :=
    (session.record (session.tree.searchEvents options.recursive inputs)).addAll options
      (session.tree.expand options.recursive inputs)
  visited.record (closing options visited.tally)

theorem visitAll_cases {options : Options} (htyped : options.Typed) (paths : List String)
    (session : Session) (hdistinct : session.tree.Distinct)
    (hfaults : ∀ file ∈ session.tree.files, file.faults.Known) :
    ((∀ handle ∈ options.opened session.tree paths, ¬ options.Halts handle) ∧
      ∃ fine, visitAll options paths session = .ok fine (session.addAll options paths)) ∨
    ((∃ handle ∈ options.opened session.tree paths, options.Halts handle) ∧
      ∃ failure after, visitAll options paths session = .error failure after ∧
        failure.EndsRun) := by
  -- each visit carries the files over, so the faults that the next ones meet are known as well
  induction paths generalizing session with
  | nil => exact .inl ⟨by simp [Options.opened], true, rfl⟩
  | cons path paths ih =>
      let next := session.add (options.visit session.tree path)
      rw [visitAll_cons_eq, Options.opened]
      rcases Options.visit_cases_openedAt htyped hfaults path with ⟨hgoes, fine, hfine⟩ |
        ⟨⟨handle, hmem, hhalts⟩, failure, hfails, hends⟩
      · have hcarries := options.carries_visit_openedAt hdistinct path
        have hrest := ih next hcarries.distinct
          (hcarries.known (fun _ _ h => h.1) hfaults)
        simp only [hfine]
        rcases hrest with ⟨hgoes', fine', hall⟩ |
          ⟨⟨handle, hmem, hhalts⟩, failure, after, hall, hends⟩
        · refine .inl ⟨fun handle hmem => ?_, fine && fine', by rw [hall]; rfl⟩
          rcases List.mem_append.mp hmem with hfirst | hothers
          · exact hgoes handle hfirst
          · exact hgoes' handle hothers
        · exact .inr ⟨⟨handle, List.mem_append_right _ hmem, hhalts⟩, failure, after, by rw [hall],
            hends⟩
      · simp only [hfails]
        exact .inr ⟨⟨handle, List.mem_append_left _ hmem, hhalts⟩, failure, next, rfl, hends⟩

/-- A batch comes to its end, having visited every path, just when no file that it opens halts it,
and otherwise it ends with one of three failures. The files have known faults only, and the edits
are as a user can give them. -/
theorem run_complete_iff {session : Session} (hdistinct : session.tree.Distinct)
    (hfaults : ∀ file ∈ session.tree.files, file.faults.Known) {options : Options}
    (htyped : options.Typed) (inputs : List String) :
    ((∃ fine, run options inputs session = .ok fine (session.complete options inputs)) ↔
      ∀ handle ∈ session.opened options inputs, ¬ options.Halts handle) ∧
    ∀ failure after, run options inputs session = .error failure after → failure.EndsRun := by
  let begun := session.record (session.tree.searchEvents options.recursive inputs)
  let paths := session.tree.expand options.recursive inputs
  have hrun : run options inputs session =
      (visitAll options paths >>= fun fine =>
        (modify fun session => session.record (closing options session.tally)) >>= fun _ =>
          pure fine) begun := rfl
  rcases visitAll_cases htyped paths begun hdistinct hfaults with ⟨hgoes, fine, hall⟩ |
    ⟨⟨handle, hmem, hhalts⟩, failure, after, hall, hends⟩
  · have hcomplete : run options inputs session = .ok fine (session.complete options inputs) := by
      rw [hrun]
      simp only [bind, EStateM.bind, hall]
      rfl
    refine ⟨⟨fun _ => hgoes, fun _ => ⟨fine, hcomplete⟩⟩, fun failure after hfails => ?_⟩
    rw [hcomplete] at hfails
    cases hfails
  · have hfails : run options inputs session = .error failure after := by
      rw [hrun]
      simp only [bind, EStateM.bind, hall]
    refine ⟨⟨?_, fun hgoes => absurd hhalts (hgoes handle hmem)⟩, ?_⟩
    · rintro ⟨fine, hcomplete⟩
      rw [hfails] at hcomplete
      cases hcomplete
    · intro other left hother
      rw [hfails] at hother
      cases hother
      exact hends

/-- A batch that sets every track to 70000 stops at an MP4 file, and the file after it is not
visited. -/
theorem run_complete_iff_pair :
    let first : File := ⟨["a.m4a"], some .mp4, some (.atoms []), ⟨none, none, none⟩⟩
    let second : File := ⟨["b.ogg"], some .oggVorbis, none, ⟨none, none, none⟩⟩
    let session := start ⟨[], [first, second]⟩
    let options : Options :=
      ⟨[.assign .track (.number 70000)], none, none, .shell, false, false⟩
    let inputs := ["a.m4a", "b.ogg"]
    session.tree.Distinct ∧ (∀ file ∈ session.tree.files, file.faults.Known) ∧ options.Typed ∧
      (¬ ∃ fine, run options inputs session = .ok fine (session.complete options inputs)) ∧
      (options.visit session.tree "a.m4a").outcome = .error (.pairOutOfRange 70000 0) ∧
      (leftBy (run options inputs) session).tally = ⟨1, 0, 0, 0⟩ := by
  intro first second session options inputs
  have hdistinct : session.tree.Distinct := by decide +kernel
  have hfaults : ∀ file ∈ session.tree.files, file.faults.Known := by
    intro file hfile
    have hnone : file.faults = ⟨none, none, none⟩ := by
      rcases List.mem_cons.mp hfile with rfl | hfile
      · rfl
      · rw [List.mem_singleton.mp hfile]
    rw [hnone]
    constructor <;> simp
  have htyped : options.Typed := by
    intro field value hassign
    have hassign' : Edit.assign field value = .assign .track (.number 70000) :=
      List.mem_singleton.mp hassign
    cases hassign'
    exact ⟨"70000", by decide +kernel⟩
  refine ⟨hdistinct, hfaults, htyped, fun hcomplete => ?_, by decide +kernel, by decide +kernel⟩
  let handle : Handle := ⟨"a.m4a", first.location, some ⟨.mp4, first.tags, first.faults⟩⟩
  have hmem : handle ∈ session.opened options inputs := by decide +kernel
  refine (run_complete_iff hdistinct hfaults htyped inputs).1.mp hcomplete handle hmem (.pair ?_)
  decide +kernel

end Session

end LinerNotes
