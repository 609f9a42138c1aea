import LinerNotes.Proofs.Naming
import LinerNotes.Proofs.Refinement
import LinerNotes.Batch.Visit

/-!
The whole visit of a batch to one file. As long as nothing stands in the way of reading and writing
the file, every step leaves the tags in the file as they are in memory, and the visit ends with the
values that its steps ask for, in the file and in its name.
-/

namespace LinerNotes

/-- The sheet after a row of writes to a file's tags, where an empty value clears the field. -/
def Sheet.keepAll (sheet : Sheet) (entries : List (Field × Value)) : Sheet :=
  sheet.setAll (entries.map fun entry => (entry.1, entry.1.kept entry.2))

theorem readAfter_of_read {read : Field → Except Failure Value} {sheet : Sheet}
    (hread : ∀ field, read field = .ok (sheet field)) (entries : List (Field × Value))
    (field : Field) : readAfter read entries field = .ok (sheet.keepAll entries field) := by
  rw [readAfter, Sheet.keepAll, Sheet.setAll_apply, lastFor_map_value Field.kept]
  cases lastFor entries field with
  | some value => rfl
  | none => exact hread field

/-- Whether a file can be opened and written: no fault stands in the way, its extension allows it,
and its tags are as a file can have them. -/
structure File.Serves (file : File) (path : String) : Prop where
  recognised : file.format.isSome
  opening : file.faults.opening = none
  saving : file.faults.saving = none
  tagging : file.faults.tagging = none
  allowed : refusedExtensions.contains (Text.lower (Path.suffix path)) = false
  regular : ∀ tags, file.tags = some tags → tags.Regular

namespace Options

/-- The values that a file's name gives the fields, if it is asked and fits. -/
def extracted (options : Options) (path : String) : List (Field × Value) :=
  match options.extract with
  | some spec =>
      match spec.extract (Path.stem path) with
      | .ok (some entries) => entries
      | _ => []
  | none => []

/-- Whether a file's name fits the spec that it is to be read with. -/
def fits (options : Options) (path : String) : Bool :=
  match options.extract with
  | some spec => (spec.captures? (Path.stem path)).isSome
  | none => true

/-- The values of a file's fields after the visit: first those that its name gives, then
the edits. -/
def result (options : Options) (path : String) (before : Sheet) : Sheet :=
  (before.keepAll (options.extracted path)).keepAll (options.edits.map Edit.entry)

end Options

theorem Field.Stores.written {field : Field} {value : Value} (h : field.Stores value) :
    ∃ text, Edit.written value = .ok text := by
  cases value with
  | absent => exact ⟨_, rfl⟩
  | text s => exact ⟨_, rfl⟩
  | number n =>
      have hbounds : 0 ≤ n ∧ n ≤ 65535 := by
        rcases h with rfl | ⟨-, hlow, hhigh⟩ | ⟨-, hlow, hhigh⟩ <;> omega
      have hlength := digitChars_length_of_le hbounds.1 hbounds.2
      exact ⟨_, Numeral.write_of_length_le 1 (hlength.trans (by decide))⟩

theorem Edit.description_of_written {edit : Edit}
    (h : ∃ text, written edit.entry.2 = .ok text) : ∃ text, edit.description = .ok text := by
  cases edit with
  | assign field value =>
      obtain ⟨text, htext⟩ := h
      have hvalue : written value = .ok text := htext
      exact ⟨field.name ++ "=" ++ text, by rw [description, hvalue]; rfl⟩
  | assignNothing field => exact ⟨_, rfl⟩
  | clear field => exact ⟨_, rfl⟩

theorem Edit.descriptions_of_written {edits : List Edit}
    (h : ∀ edit ∈ edits, ∃ text, written edit.entry.2 = .ok text) :
    ∃ descriptions, edits.mapM description = .ok descriptions := by
  cases hdescriptions : edits.mapM description with
  | ok descriptions => exact ⟨descriptions, rfl⟩
  | error cause =>
      obtain ⟨edit, hedit, hfails⟩ := Spec.exists_of_mapM_eq_error hdescriptions
      obtain ⟨text, htext⟩ := description_of_written (h edit hedit)
      rw [htext] at hfails
      cases hfails

/-- How the workbench stands between two steps: the file is where it was, its fields have the given
values, and its tags in memory are those in the file. -/
structure Workbench.Settled (bench : Workbench) (tree : Tree) (path : String) (file : File)
    (sheet : Sheet) : Prop where
  path_eq : bench.handle.path = path
  location_eq : bench.handle.location = file.location
  ready : bench.handle.Ready
  savable : ∀ tags, (bench.handle.setTags tags).toSave = .ok tags
  read : ∀ field, bench.handle.read field = .ok (sheet field)
  vacant : ∀ other, bench.tree.vacant? other = tree.vacant? other
  updated : tree.Updated file bench.tree path file.location bench.handle.tags

namespace Workbench.Settled

variable {tree : Tree} {path : String} {file : File} {sheet : Sheet} {bench : Workbench}

theorem record (h : bench.Settled tree path file sheet) (event : Event) :
    (bench.record event).Settled tree path file sheet :=
  ⟨h.path_eq, h.location_eq, h.ready, h.savable, h.read, h.vacant, h.updated⟩

/-- Writing storable values and saving them leads from one step to the next. -/
theorem save_writeAll (h : bench.Settled tree path file sheet) {entries : List (Field × Value)}
    (hstores : ∀ entry ∈ entries, entry.1.Stores entry.2) :
    ∃ written saved, Job.writeAll entries bench = .ok () written ∧
      Job.save written = .ok () saved ∧
      saved.Settled tree path file (sheet.keepAll entries) := by
  obtain ⟨events, tags, hwrites, hready, hread⟩ := Job.writeAll_of_stores h.ready hstores
  let written : Workbench :=
    { bench with handle := bench.handle.setTags tags, events := bench.events ++ events }
  have htags : written.handle.toSave = .ok tags := h.savable tags
  refine ⟨written, _, hwrites, Job.save_eq htags, h.path_eq, h.location_eq, hready, ?_, ?_, ?_, ?_⟩
  · intro others
    have hsavable := h.savable others
    rwa [← Handle.setTags_setTags bench.handle tags] at hsavable
  · intro field
    have hread' := hread field
    rw [readAfter_of_read h.read] at hread'
    exact hread'
  · intro other
    exact (Tree.vacant?_store bench.tree _ tags other).trans (h.vacant other)
  · have hlocation : written.handle.location = file.location := h.location_eq
    have hmemory : written.handle.tags = tags := h.ready.tags_setTags tags
    rw [hlocation, hmemory]
    exact h.updated.store tags

end Workbench.Settled

namespace Job

theorem get_eq (bench : Workbench) : (get : Job Workbench) bench = .ok bench bench := rfl

theorem extract_eq_writeAll {spec : Spec} {name : String} {entries : List (Field × Value)}
    (hextract : spec.extract name = .ok (some entries)) (bench : Workbench) :
    extract spec name bench = (writeAll entries >>= fun _ => pure true) bench := by
  have hread : Failure.ofNumeral (spec.extract name) = .ok (some entries) := by
    rw [hextract]
    rfl
  rw [extract, bind_of_ok (ofExcept_eq_ok hread bench)]

theorem extract_of_some {bench written : Workbench} {spec : Spec} {name : String}
    {entries : List (Field × Value)} (hextract : spec.extract name = .ok (some entries))
    (hwrites : writeAll entries bench = .ok () written) :
    extract spec name bench = .ok true written := by
  rw [extract_eq_writeAll hextract]
  exact bind_of_ok hwrites

theorem extract_of_error {spec : Spec} {name : String} {cause : Numeral.Fault}
    (hextract : spec.extract name = .error cause) (bench : Workbench) :
    extract spec name bench = .error (.numeral cause) bench := by
  rw [extract, hextract]
  rfl

theorem extract_of_none {spec : Spec} {name : String} (hextract : spec.extract name = .ok none)
    (bench : Workbench) :
    extract spec name bench = .ok false (bench.record (.noMatch name spec.source)) := by
  have hentries : Failure.ofNumeral (spec.extract name) = .ok none := by
    rw [hextract]
    rfl
  rw [extract, bind_of_ok (ofExcept_eq_ok hentries bench)]
  rfl

theorem announce_of_ok {edits : List Edit} {descriptions : List String}
    (h : edits.mapM Edit.description = .ok descriptions) (path : String) (bench : Workbench) :
    announce edits path bench = .ok () (bench.record (.applying descriptions path)) := by
  rw [announce, h]
  rfl

theorem announce_of_error {edits : List Edit} {cause : Numeral.Fault}
    (h : edits.mapM Edit.description = .error cause) (path : String) (bench : Workbench) :
    announce edits path bench = .error (.numeral cause) bench := by
  rw [announce, h]
  rfl

end Job

namespace Step

variable {options : Options} {bench after : Workbench}

theorem attempt_of_ok {step : Step} (h : step.perform options bench = .ok () after) :
    step.attempt options bench = .ok true after := by
  simp only [attempt, h]

theorem attempt_of_error {step : Step} {failure : Failure}
    (h : step.perform options bench = .error failure after) (hreach : failure.reach ≠ .run) :
    ∃ event, step.attempt options bench = .ok false (after.record event) := by
  have hreport : ∃ report, failure.report? after.handle.path = some report := by
    unfold Failure.report?
    cases hcase : failure.reach with
    | file => exact ⟨_, rfl⟩
    | system => exact ⟨_, rfl⟩
    | run => exact absurd hcase hreach
  obtain ⟨report, hreport⟩ := hreport
  exact ⟨.failed after.handle.path report, by simp only [attempt, h, hreport]⟩

theorem attemptAll_append {steps others : List Step} {fine fine' : Bool} {middle : Workbench}
    (h : attemptAll options steps bench = .ok fine middle)
    (h' : attemptAll options others middle = .ok fine' after) :
    attemptAll options (steps ++ others) bench = .ok (fine && fine') after := by
  induction steps generalizing bench fine with
  | nil =>
      cases h
      simpa using h'
  | cons step steps ih =>
      cases hfirst : step.attempt options bench with
      | error failure failed =>
          rw [attemptAll, Job.bind_of_error hfirst] at h
          cases h
      | ok first next =>
          rw [attemptAll, Job.bind_of_ok hfirst] at h
          cases hrest : attemptAll options steps next with
          | error failure failed =>
              rw [Job.bind_of_error hrest] at h
              cases h
          | ok rest last =>
              rw [Job.bind_of_ok hrest] at h
              cases h
              rw [List.cons_append, attemptAll, Job.bind_of_ok hfirst, Job.bind_of_ok (ih hrest),
                Bool.and_assoc]
              rfl

theorem attemptAll_single {step : Step} {fine : Bool}
    (h : step.attempt options bench = .ok fine after) :
    attemptAll options [step] bench = .ok fine after := by
  rw [attemptAll, Job.bind_of_ok h]
  change EStateM.Result.ok (fine && true) after = _
  rw [Bool.and_true]

variable {tree : Tree} {path : String} {file : File} {sheet : Sheet}

theorem saveUnlessDry_of_wet (hdry : options.dryRun = false) :
    saveUnlessDry options.dryRun = Job.save := by
  rw [hdry]
  rfl

theorem perform_extract_of_some (h : bench.Settled tree path file sheet)
    (hdry : options.dryRun = false) {spec : Spec} {entries : List (Field × Value)}
    (hextract : spec.extract (Path.stem path) = .ok (some entries))
    (hstores : ∀ entry ∈ entries, entry.1.Stores entry.2) :
    ∃ saved, perform options (.extract spec) bench = .ok () saved ∧
      saved.Settled tree path file (sheet.keepAll entries) := by
  obtain ⟨written, saved, hwrites, hsave, hsaved⟩ := h.save_writeAll hstores
  refine ⟨saved, ?_, hsaved⟩
  have hmatched := Job.extract_of_some hextract hwrites
  rw [← h.path_eq] at hmatched
  rw [perform, Job.bind_of_ok (Job.get_eq bench), Job.bind_of_ok hmatched, if_pos rfl,
    saveUnlessDry_of_wet hdry, hsave]

theorem perform_extract_of_mismatch {spec : Spec}
    (hextract : spec.extract (Path.stem bench.handle.path) = .ok none) :
    perform options (.extract spec) bench = .error (.mismatch bench.handle.path spec.source)
      (bench.record (.noMatch (Path.stem bench.handle.path) spec.source)) := by
  rw [perform, Job.bind_of_ok (Job.get_eq bench),
    Job.bind_of_ok (Job.extract_of_none hextract bench)]
  rfl

theorem perform_extract_of_none (h : bench.Settled tree path file sheet) {spec : Spec}
    (hextract : spec.extract (Path.stem path) = .ok none) :
    ∃ failure event, perform options (.extract spec) bench =
      .error failure (bench.record event) ∧ failure.reach ≠ .run := by
  rw [← h.path_eq] at hextract
  exact ⟨_, _, perform_extract_of_mismatch hextract, by simp [Failure.reach]⟩

theorem perform_edit (h : bench.Settled tree path file sheet) (hdry : options.dryRun = false)
    {edits : List Edit} (hstores : ∀ edit ∈ edits, edit.entry.1.Stores edit.entry.2) :
    ∃ saved, perform options (.edit edits) bench = .ok () saved ∧
      saved.Settled tree path file (sheet.keepAll (edits.map Edit.entry)) := by
  have hentries : ∀ entry ∈ edits.map Edit.entry, entry.1.Stores entry.2 :=
    List.forall_mem_map.mpr hstores
  obtain ⟨descriptions, hdescriptions⟩ :=
    Edit.descriptions_of_written fun edit hedit => (hstores edit hedit).written
  have hannounce := Job.announce_of_ok hdescriptions bench.handle.path bench
  obtain ⟨written, saved, hwrites, hsave, hsaved⟩ :=
    (h.record (.applying descriptions bench.handle.path)).save_writeAll hentries
  refine ⟨saved, ?_, hsaved⟩
  rw [perform, Job.bind_of_ok (Job.get_eq bench), Job.bind_of_ok hannounce, Job.edit,
    Job.bind_of_ok hwrites, saveUnlessDry_of_wet hdry, hsave]

end Step

namespace Job

theorem rename_eq {bench : Workbench} {name : String} {dryRun : Bool} {renamed : Tree.Renamed}
    (h : bench.tree.renameFile bench.handle.path name dryRun = .ok renamed) :
    rename name dryRun bench = .ok () ⟨renamed.tree, bench.handle, bench.events ++ [renamed.event],
      bench.saves,
      if renamed.path = bench.handle.path then bench.renames else bench.renames + 1⟩ := by
  rw [rename, bind_of_ok (get_eq bench), bind_of_ok (ofExcept_eq_ok h bench)]
  rfl

theorem rename_of_ok {bench : Workbench} {name : String} {dryRun : Bool} {renamed : Tree.Renamed}
    (h : bench.tree.renameFile bench.handle.path name dryRun = .ok renamed) :
    ∃ after, rename name dryRun bench = .ok () after ∧ after.tree = renamed.tree :=
  ⟨_, rename_eq h, rfl⟩

theorem rename_of_error {bench : Workbench} {name : String} {dryRun : Bool} {failure : Failure}
    (h : bench.tree.renameFile bench.handle.path name dryRun = .error failure) :
    rename name dryRun bench = .error failure bench := by
  rw [rename, bind_of_ok (get_eq bench), bind_of_error (ofExcept_eq_error h bench)]

end Job

namespace Step

variable {options : Options} {tree : Tree} {path name : String} {file : File} {sheet : Sheet}
  {bench : Workbench} {spec : Spec}

theorem newName_of_settled (h : bench.Settled tree path file sheet)
    (hrender : spec.render (some options.hazard) sheet.lookUp = .ok name) :
    Job.newName spec (some options.hazard) bench = .ok (name ++ Path.extension path) bench := by
  obtain ⟨name', hname, hread⟩ := spec.render_of_read h.read (some options.hazard)
  rw [hname] at hrender
  cases hrender
  have hnew : spec.newName (some options.hazard) bench.handle.read bench.handle.path =
      .ok (name ++ Path.extension path) := by
    rw [Spec.newName_of_render hread, h.path_eq]
  rw [Job.newName, Job.bind_of_ok (Job.get_eq bench)]
  exact Job.ofExcept_eq_ok hnew bench

theorem perform_rename (h : bench.Settled tree path file sheet) (hdry : options.dryRun = false)
    (hrender : spec.render (some options.hazard) sheet.lookUp = .ok name) :
    perform options (.rename spec) bench =
      Job.rename (name ++ Path.extension path) false bench := by
  rw [perform, Job.bind_of_ok (newName_of_settled h hrender), hdry]

theorem attempt_rename_of_name (h : bench.Settled tree path file sheet)
    (hdry : options.dryRun = false)
    (hrender : spec.render (some options.hazard) sheet.lookUp = .ok name)
    (hname : name ++ Path.extension path = Path.name path) :
    ∃ after, attempt options (.rename spec) bench = .ok true after ∧
      tree.Updated file after.tree path file.location bench.handle.tags := by
  have hrenamed : bench.tree.renameFile bench.handle.path (name ++ Path.extension path) false =
      .ok ⟨bench.tree, .alreadyNamed (name ++ Path.extension path), path⟩ := by
    simp [Tree.renameFile, h.path_eq, hname]
  obtain ⟨after, hafter, htree⟩ := Job.rename_of_ok hrenamed
  rw [← perform_rename h hdry hrender] at hafter
  refine ⟨after, attempt_of_ok hafter, ?_⟩
  rw [htree]
  exact h.updated

theorem attempt_rename_of_vacant (h : bench.Settled tree path file sheet)
    (hdry : options.dryRun = false)
    (hrender : spec.render (some options.hazard) sheet.lookUp = .ok name)
    (hname : name ++ Path.extension path ≠ Path.name path) {location : Location}
    (hvacant : tree.vacant? (Path.join (Path.directory path) (name ++ Path.extension path)) =
      some location) :
    ∃ after, attempt options (.rename spec) bench = .ok true after ∧
      tree.Updated file after.tree
        (Path.join (Path.directory path) (name ++ Path.extension path)) location
        bench.handle.tags := by
  have hfound := h.updated.found
  rw [← h.vacant] at hvacant
  have hrenamed := Tree.renameFile_of_vacant hfound (Ne.symm hname) hvacant
  rw [← h.path_eq] at hrenamed
  obtain ⟨after, hafter, htree⟩ := Job.rename_of_ok hrenamed
  rw [h.path_eq] at hafter
  rw [← perform_rename h hdry hrender] at hafter
  refine ⟨after, attempt_of_ok hafter, ?_⟩
  rw [htree]
  exact h.updated.move hvacant

theorem attempt_rename_of_not_vacant (h : bench.Settled tree path file sheet)
    (hdry : options.dryRun = false)
    (hrender : spec.render (some options.hazard) sheet.lookUp = .ok name)
    (hnul : '\x00' ∉ name.toList) (hname : name ++ Path.extension path ≠ Path.name path)
    (hvacant : tree.vacant? (Path.join (Path.directory path) (name ++ Path.extension path)) =
      none) :
    ∃ after, attempt options (.rename spec) bench = .ok false after ∧
      tree.Updated file after.tree path file.location bench.handle.tags := by
  have hfound := h.updated.found
  have hsource := (Tree.file?_eq_some_iff.mp hfound).1
  rw [← h.vacant] at hvacant
  obtain ⟨failure, hfails, hreach⟩ := Tree.renameFile_of_not_vacant hfound (Ne.symm hname)
    (Tree.hasNul_renamed hsource hnul) hvacant
  rw [← h.path_eq] at hfails
  have hperform := Job.rename_of_error hfails
  rw [h.path_eq, ← perform_rename h hdry hrender] at hperform
  obtain ⟨event, hattempt⟩ := attempt_of_error hperform hreach
  exact ⟨bench.record event, hattempt, h.updated⟩

theorem attemptAll_extract (h : bench.Settled tree path file sheet) (hdry : options.dryRun = false)
    (hfile : tree.file? path = some file)
    (hspec : ∀ spec, options.extract = some spec → spec.isEmpty = false)
    (hstores : ∀ entry ∈ options.extracted path, entry.1.Stores entry.2) :
    ∃ after, attemptAll options (Options.specStep .extract options.extract) bench =
        .ok (options.fits path) after ∧
      after.Settled tree path file (sheet.keepAll (options.extracted path)) := by
  unfold Options.extracted at hstores ⊢
  unfold Options.fits
  cases hextract : options.extract with
  | none => exact ⟨bench, rfl, h⟩
  | some spec =>
      obtain ⟨entries?, hentries, hfits⟩ := spec.extract_stem hfile
      simp only [hextract, hentries] at hstores
      simp only [hentries, ← hfits, Options.specStep, hspec spec hextract, Bool.false_eq_true,
        if_false]
      cases entries? with
      | some entries =>
          obtain ⟨after, hperform, hafter⟩ := perform_extract_of_some h hdry hentries hstores
          exact ⟨after, attemptAll_single (attempt_of_ok hperform), hafter⟩
      | none =>
          obtain ⟨failure, event, hperform, hreach⟩ := perform_extract_of_none h hentries
          obtain ⟨report, hattempt⟩ := attempt_of_error hperform hreach
          exact ⟨_, attemptAll_single hattempt, (h.record event).record report⟩

theorem attemptAll_edit (h : bench.Settled tree path file sheet) (hdry : options.dryRun = false)
    (hstores : ∀ edit ∈ options.edits, edit.entry.1.Stores edit.entry.2) :
    ∃ after, attemptAll options
        (if options.edits.isEmpty then [] else [.edit options.edits]) bench = .ok true after ∧
      after.Settled tree path file (sheet.keepAll (options.edits.map Edit.entry)) := by
  split
  · rename_i hempty
    rw [List.isEmpty_iff.mp hempty]
    exact ⟨bench, rfl, h⟩
  · obtain ⟨after, hperform, hafter⟩ := perform_edit h hdry hstores
    exact ⟨after, attemptAll_single (attempt_of_ok hperform), hafter⟩

/-- The steps before the renaming leave the fields as the options ask for. -/
theorem attemptAll_write (h : bench.Settled tree path file sheet) (hdry : options.dryRun = false)
    (hfile : tree.file? path = some file)
    (hspec : ∀ spec, options.extract = some spec → spec.isEmpty = false)
    (hextracted : ∀ entry ∈ options.extracted path, entry.1.Stores entry.2)
    (hedits : ∀ edit ∈ options.edits, edit.entry.1.Stores edit.entry.2) :
    ∃ after, attemptAll options (Options.specStep .extract options.extract ++
        if options.edits.isEmpty then [] else [.edit options.edits]) bench =
        .ok (options.fits path) after ∧
      after.Settled tree path file (options.result path sheet) := by
  obtain ⟨middle, hfirst, hmiddle⟩ := attemptAll_extract h hdry hfile hspec hextracted
  obtain ⟨after, hsecond, hafter⟩ := attemptAll_edit hmiddle hdry hedits
  refine ⟨after, ?_, hafter⟩
  rw [attemptAll_append hfirst hsecond, Bool.and_true]

end Step

theorem File.Serves.settled {file : File} {path : String} (hserves : file.Serves path)
    {format : Format} {tree : Tree} (hfile : tree.file? path = some file) {before : Sheet}
    (hbefore : ∀ field, Container.value file.tags field = .ok (before field)) (opened : Event) :
    (Workbench.start tree ⟨path, file.location, some ⟨format, file.tags, file.faults⟩⟩
      opened).Settled tree path file before where
  path_eq := rfl
  location_eq := rfl
  ready := by
    refine ⟨_, rfl, ?_⟩
    unfold Audio.Ready
    cases htags : file.tags with
    | some tags => exact hserves.regular tags htags
    | none => exact hserves.tagging
  savable := by
    intro tags
    have hallowed : refusedExtensions.contains (Text.lower (Path.suffix path)) = false :=
      hserves.allowed
    simp only [Handle.toSave, Handle.isRefused, Handle.extension, Workbench.start, hallowed,
      Handle.setTags, Option.map_some, hserves.saving]
    rfl
  read := hbefore
  vacant := fun _ => rfl
  updated := ⟨hfile, rfl, rfl⟩

theorem Options.visit_of_attemptAll {options : Options} {tree : Tree} {path : String}
    {handle : Handle} {opened : Event} (hopen : Handle.openAt tree path = .ok (handle, opened))
    (hediting : options.isEditing = true) {fine : Bool} {after : Workbench}
    (h : Step.attemptAll options options.steps (Workbench.start tree handle opened) =
      .ok fine after) :
    (options.visit tree path).tree = after.tree ∧
      (options.visit tree path).outcome = .ok fine := by
  simp only [visit, hopen, hediting, if_true, h, Visit.ofWork, and_self]

theorem Options.isEditing_of_step {options : Options}
    (hextract : ∀ spec, options.extract = some spec → spec.isEmpty = false)
    (hrename : ∀ spec, options.rename = some spec → spec.isEmpty = false)
    (h : options.extract.isSome ∨ options.edits ≠ [] ∨ options.rename.isSome) :
    options.isEditing = true := by
  simp only [isEditing, steps, Bool.not_eq_true', List.isEmpty_eq_false_iff]
  rcases h with hspec | hedits | hspec
  · obtain ⟨spec, hspec⟩ := Option.isSome_iff_exists.mp hspec
    simp [hspec, specStep, hextract spec hspec]
  · simp [hedits]
  · obtain ⟨spec, hspec⟩ := Option.isSome_iff_exists.mp hspec
    simp [hspec, specStep, hrename spec hspec]

/-- Whether a visit comes to an end, well or not, with the file at a path and place, holding the
given tags, and nothing else changed. -/
def Visit.Leaves (visit : Visit) (fine : Bool) (tree : Tree) (file : File) (path : String)
    (location : Location) (tags : Option Container) : Prop :=
  visit.outcome = .ok fine ∧ tree.Updated file visit.tree path location tags

/-- A visit to a file that can be read and written runs to its end. The tags in the file then read
as the values before, with those that its name gives, with the edits in their order. If the file is
to be renamed, it goes to the name that these values make, provided that it has another name now and
the place is vacant; else it stays where it was. The visit went well unless the old name did not fit
or the new one was not free. -/
theorem Options.visit_of_serves {options : Options} {tree : Tree} {path : String} {file : File}
    (hfile : tree.file? path = some file) (hserves : file.Serves path) {before : Sheet}
    (hbefore : ∀ field, Container.value file.tags field = .ok (before field))
    (hdry : options.dryRun = false)
    (hextract : ∀ spec, options.extract = some spec → spec.isEmpty = false)
    (hrename : ∀ spec, options.rename = some spec → spec.isEmpty = false)
    (hstep : options.extract.isSome ∨ options.edits ≠ [] ∨ options.rename.isSome)
    (hextracted : ∀ entry ∈ options.extracted path, entry.1.Stores entry.2)
    (hedits : ∀ edit ∈ options.edits, edit.entry.1.Stores edit.entry.2)
    (hnul : ∀ spec name, options.rename = some spec →
      spec.render (some options.hazard) (options.result path before).lookUp = .ok name →
        '\x00' ∉ name.toList) :
    ∃ tags, (∀ field, Container.value tags field = .ok (options.result path before field)) ∧
      match options.rename with
      | none =>
          (options.visit tree path).Leaves (options.fits path) tree file path file.location tags
      | some spec =>
          ∃ name, spec.render (some options.hazard) (options.result path before).lookUp = .ok name ∧
            let newName := name ++ Path.extension path
            let target := Path.join (Path.directory path) newName
            (newName = Path.name path →
              (options.visit tree path).Leaves (options.fits path) tree file path file.location
                tags) ∧
            (newName ≠ Path.name path →
              (∀ location, tree.vacant? target = some location →
                (options.visit tree path).Leaves (options.fits path) tree file target location
                  tags) ∧
              (tree.vacant? target = none →
                (options.visit tree path).Leaves false tree file path file.location tags)) := by
  obtain ⟨format, hformat⟩ := Option.isSome_iff_exists.mp hserves.recognised
  have hopen := Handle.openAt_of_file? hfile hserves.opening hformat
  have hediting := isEditing_of_step hextract hrename hstep
  have hstart : (Workbench.start tree ⟨path, file.location, some ⟨format, file.tags, file.faults⟩⟩
      (.opened path format)).Settled tree path file before :=
    hserves.settled hfile hbefore (.opened path format)
  obtain ⟨middle, hwrite, hmiddle⟩ :=
    Step.attemptAll_write hstart hdry hfile hextract hextracted hedits
  have hvisit : ∀ fine after, Step.attemptAll options (specStep .rename options.rename) middle =
      .ok fine after → (options.visit tree path).tree = after.tree ∧
        (options.visit tree path).outcome = .ok (options.fits path && fine) :=
    fun fine after h => visit_of_attemptAll hopen hediting (Step.attemptAll_append hwrite h)
  refine ⟨middle.handle.tags, hmiddle.read, ?_⟩
  cases hspec : options.rename with
  | none =>
      rw [hspec] at hvisit
      obtain ⟨htree, houtcome⟩ := hvisit true middle rfl
      refine ⟨by rw [houtcome, Bool.and_true], ?_⟩
      rw [htree]
      exact hmiddle.updated
  | some spec =>
      have hsteps : specStep .rename options.rename = [.rename spec] := by
        simp [specStep, hspec, hrename spec hspec]
      rw [hsteps] at hvisit
      obtain ⟨name, hrender, -⟩ := spec.render_of_read hmiddle.read (some options.hazard)
      have hleaves : ∀ fine after location target,
          Step.attempt options (.rename spec) middle = .ok fine after →
          tree.Updated file after.tree target location middle.handle.tags →
            (options.visit tree path).Leaves (options.fits path && fine) tree file target location
              middle.handle.tags := by
        intro fine after location target hattempt hupdated
        obtain ⟨htree, houtcome⟩ := hvisit fine after (Step.attemptAll_single hattempt)
        refine ⟨houtcome, ?_⟩
        rwa [htree]
      refine ⟨name, hrender, ?_, fun hname => ⟨?_, ?_⟩⟩
      · intro hname
        obtain ⟨after, hattempt, hupdated⟩ :=
          Step.attempt_rename_of_name hmiddle hdry hrender hname
        simpa using hleaves true after file.location path hattempt hupdated
      · intro location hvacant
        obtain ⟨after, hattempt, hupdated⟩ :=
          Step.attempt_rename_of_vacant hmiddle hdry hrender hname hvacant
        simpa using hleaves true after location _ hattempt hupdated
      · intro hvacant
        obtain ⟨after, hattempt, hupdated⟩ := Step.attempt_rename_of_not_vacant hmiddle hdry
          hrender (hnul spec name hspec hrender) hname hvacant
        simpa using hleaves false after file.location path hattempt hupdated

theorem Options.visit_of_serves_flac :
    let read : Spec := ⟨"%n - %T", [.placeholder ⟨.track, none, .downcase⟩,
      .literal [' ', '-', ' '], .placeholder ⟨.title, none, .preserve⟩]⟩
    let write : Spec := ⟨"%n-%_t", [.placeholder ⟨.track, none, .downcase⟩, .literal ['-'],
      .placeholder ⟨.title, some '_', .downcase⟩]⟩
    let options : Options := ⟨[.assign .artist (.text "Portishead"), .clear .comment], some read,
      some write, .shell, false, false⟩
    let file : File := ⟨["music", "03 - Glory Box.flac"], some .flac,
      some (.comments [("ALBUM", "Dummy"), ("comment", "live")]), ⟨none, none, none⟩⟩
    let cover : File := ⟨["music", "cover.jpg"], none, none, ⟨none, none, none⟩⟩
    let tree : Tree := ⟨[["music"]], [file, cover]⟩
    let path := "music/03 - Glory Box.flac"
    ∃ tags, tree.file? path = some file ∧ file.Serves path ∧
      (options.visit tree path).Leaves true tree file "music/03-glory_box.flac"
        ["music", "03-glory_box.flac"] tags ∧
      Container.value tags .track = .ok (.number 3) ∧
      Container.value tags .title = .ok (.text "Glory Box") ∧
      Container.value tags .artist = .ok (.text "Portishead") ∧
      Container.value tags .comment = .ok .absent ∧
      Container.value tags .album = .ok (.text "Dummy") := by
  intro read write options file cover tree path
  let before : Sheet := Sheet.ofEntries [(.album, .text "Dummy"), (.comment, .text "live"),
    (.track, .number 0), (.year, .number 0)]
  have hfile : tree.file? path = some file := by decide +kernel
  have hserves : file.Serves path := ⟨rfl, rfl, rfl, rfl, by decide +kernel, by
    intro tags htags
    cases htags
    trivial⟩
  have hbefore : ∀ field, Container.value file.tags field = .ok (before field) := by
    intro field
    cases field <;> decide +kernel
  have hextract : ∀ spec, options.extract = some spec → spec.isEmpty = false := by
    intro spec hspec
    cases hspec
    rfl
  have hrename : ∀ spec, options.rename = some spec → spec.isEmpty = false := by
    intro spec hspec
    cases hspec
    rfl
  have hextracted : ∀ entry ∈ options.extracted path, entry.1.Stores entry.2 := by decide +kernel
  have hedits : ∀ edit ∈ options.edits, edit.entry.1.Stores edit.entry.2 := by decide +kernel
  have hname : write.render (some .shell) (options.result path before).lookUp =
      .ok "03-glory_box" := by decide +kernel
  have hnul : ∀ spec name, options.rename = some spec →
      spec.render (some options.hazard) (options.result path before).lookUp = .ok name →
        '\x00' ∉ name.toList := by
    intro spec name hspec hrender
    cases hspec
    rw [hname] at hrender
    cases hrender
    decide
  obtain ⟨tags, hvalues, name, hrender, -, hmoved⟩ := Options.visit_of_serves hfile hserves hbefore
    rfl hextract hrename (.inl rfl) hextracted hedits hnul
  rw [hname] at hrender
  cases hrender
  have hnew : "03-glory_box" ++ Path.extension path ≠ Path.name path := by decide +kernel
  have hleaves := (hmoved hnew).1 ["music", "03-glory_box.flac"] (by decide +kernel)
  have hfits : options.fits path = true := by decide +kernel
  have htarget : Path.join (Path.directory path) ("03-glory_box" ++ Path.extension path) =
      "music/03-glory_box.flac" := by decide +kernel
  rw [hfits, htarget] at hleaves
  refine ⟨tags, hfile, hserves, hleaves, ?_, ?_, ?_, ?_, ?_⟩
  all_goals
    rw [hvalues]
    decide +kernel

end LinerNotes
