import LinerNotes.Proofs.Readback
import LinerNotes.Proofs.Refusal
import LinerNotes.Proofs.Reordering
import LinerNotes.Proofs.Rehearsal
import LinerNotes.Proofs.Untaggable

/-!
What a file reads as after a visit that renames nothing. The tags in memory and those in the file
are those of files like the one that was opened, and each step moves the one and maybe the other
along. What comes of it depends on the name of the file and on a few marks that no step changes.
-/

namespace LinerNotes

namespace File

/-- The handle on a file that is opened at a path, if its format is known. -/
def opened (file : File) (path : String) : Handle :=
  ⟨path, file.location, file.format.map fun format => ⟨format, file.tags, file.faults⟩⟩

/-- What a field of a file reads as. -/
def reading (file : File) (field : Field) : Except Failure Value :=
  Container.value file.tags field

/-- Whether the tags of a file are frames, or will be once it has some. -/
def stamps (file : File) : Bool :=
  (file.opened "").stamps

/-- Whether a file has tags or can get some. -/
def taggable (file : File) : Bool :=
  file.tags.isSome || file.faults.tagging.isNone

theorem tags_of_not_taggable {file : File} (h : file.taggable = false) : file.tags = none := by
  simp only [taggable, Bool.or_eq_false_iff, Option.isSome_eq_false_iff,
    Option.isNone_iff_eq_none] at h
  exact h.1

/-- Whether a file can be opened. -/
def opens (file : File) : Bool :=
  file.faults.opening.isNone && file.format.isSome

/-- Whether the tags of a file can be saved. -/
def savable (file : File) : Bool :=
  !file.isRefused && file.faults.saving.isNone

/-- Whether the tags of a file are as a file can have them: no identifier of a frame holds
a colon. -/
def Proper (file : File) : Prop :=
  ∀ tags, file.tags = some tags → tags.Proper

/-- Whether a file is another with other tags at most, in the same form. -/
structure Kin (file later : File) : Prop where
  kept : later = { file with tags := later.tags }
  taggable : later.taggable = file.taggable
  stamps : later.stamps = file.stamps
  proper : file.Proper → later.Proper

namespace Kin

variable {file between later : File}

theorem refl (file : File) : file.Kin file :=
  ⟨rfl, rfl, rfl, id⟩

theorem trans (h : file.Kin between) (h' : between.Kin later) : file.Kin later where
  kept := by rw [h'.kept, h.kept]
  taggable := h'.taggable.trans h.taggable
  stamps := h'.stamps.trans h.stamps
  proper := h'.proper ∘ h.proper

theorem location (h : file.Kin later) : later.location = file.location := by rw [h.kept]

theorem format (h : file.Kin later) : later.format = file.format := by rw [h.kept]

theorem faults (h : file.Kin later) : later.faults = file.faults := by rw [h.kept]

theorem name (h : file.Kin later) : later.name = file.name := by
  rw [File.name, h.location, File.name]

theorem opens (h : file.Kin later) : later.opens = file.opens := by
  rw [File.opens, File.opens, h.faults, h.format]

theorem savable (h : file.Kin later) : later.savable = file.savable := by
  rw [File.savable, File.savable, File.isRefused, File.isRefused, h.name, h.faults]

theorem eq_of_not_taggable (h : file.Kin later) (hnot : file.taggable = false) : later = file := by
  have hnone : file.tags = none := tags_of_not_taggable hnot
  have hnone' : later.tags = none := tags_of_not_taggable (h.taggable.trans hnot)
  rw [h.kept, hnone', ← hnone]

end Kin

variable {file : File} {format : Format} {path : String}

theorem tags_opened (h : file.format = some format) : (file.opened path).tags = file.tags := by
  simp [opened, Handle.tags, h]

theorem read_opened (h : file.format = some format) (field : Field) :
    (file.opened path).read field = file.reading field := by
  rw [Handle.read, tags_opened h, reading]

theorem stamps_opened (file : File) (path : String) : (file.opened path).stamps = file.stamps := by
  simp only [stamps, Handle.stamps, Handle.content, opened]

theorem proper_opened (h : file.Proper) (path : String) : (file.opened path).Proper := by
  intro tags htags
  simp only [Handle.content, opened, Option.map_map, Option.map_eq_some_iff, Function.comp_apply]
    at htags
  obtain ⟨format, -, rfl⟩ := htags
  cases hstored : file.tags with
  | none => exact format.proper_noTags
  | some stored => exact h stored hstored

theorem proper_of_opened (hformat : file.format = some format) (h : (file.opened path).Proper) :
    file.Proper :=
  fun tags htags => h tags (Handle.content_of_tags ((tags_opened hformat).trans htags))

theorem withTags_opened (file : File) (path : String) (tags : Container) :
    (file.opened path).withTags tags = ({ file with tags := some tags } : File).opened path := by
  simp only [opened, Handle.withTags, Option.map_map]
  rfl

theorem tagsOrNew_opened (hformat : file.format = some format) (path : String) :
    (file.taggable = true ∧ ∃ tags, (file.opened path).tagsOrNew = .ok tags) ∨
      file.taggable = false ∧ ∃ failure, (file.opened path).tagsOrNew = .error failure := by
  unfold Handle.tagsOrNew taggable
  simp only [opened, hformat, Option.map_some]
  cases file.tags with
  | some tags => exact .inl ⟨rfl, tags, rfl⟩
  | none =>
      cases file.faults.tagging with
      | none => exact .inl ⟨rfl, format.noTags, rfl⟩
      | some fault => exact .inr ⟨rfl, by cases fault <;> exact ⟨_, rfl⟩⟩

theorem openAt_opened {tree : Tree} (hfile : tree.file? path = some file) :
    (file.opens = true ∧ ∃ opened, Handle.openAt tree path = .ok (file.opened path, opened)) ∨
      file.opens = false ∧ ∃ failure, Handle.openAt tree path = .error failure := by
  simp only [Handle.openAt, hfile, Handle.ofFile, opens, opened]
  cases file.faults.opening with
  | some fault => exact .inr ⟨rfl, by cases fault <;> exact ⟨_, rfl⟩⟩
  | none =>
      cases file.format with
      | none => exact .inr ⟨rfl, _, rfl⟩
      | some format => exact .inl ⟨rfl, _, rfl⟩

theorem toSave_opened (hformat : file.format = some format) (hname : Path.name path = file.name) :
    (file.savable = true ∧ (file.opened path).toSave = .ok file.tags) ∨
      file.savable = false ∧ ∃ failure, (file.opened path).toSave = .error failure := by
  have hrefused : (file.opened path).isRefused = file.isRefused := by
    rw [Handle.isRefused, Handle.extension, isRefused, ← hname, Path.suffix_name]
    rfl
  unfold Handle.toSave
  rw [hrefused, savable]
  cases file.isRefused with
  | true => exact .inr ⟨rfl, _, rfl⟩
  | false =>
      simp only [opened, hformat, Option.map_some, Bool.false_eq_true, if_false]
      cases file.faults.saving with
      | none => exact .inl ⟨rfl, rfl⟩
      | some fault => exact .inr ⟨rfl, by cases fault <;> exact ⟨_, rfl⟩⟩

end File

/-- What a field reads as after a row of writes that went through, given what the fields read as
before. -/
def heardAfter (stamped : Bool) (before : Field → Except Failure Value)
    (entries : List (Field × Value)) (field : Field) : Except Failure Value :=
  match lastFor entries field with
  | some value => field.heard stamped value
  | none => before field

theorem heardAfter_append (stamped : Bool) (before : Field → Except Failure Value)
    (entries others : List (Field × Value)) : heardAfter stamped before (entries ++ others) =
      heardAfter stamped (heardAfter stamped before entries) others := by
  funext field
  simp only [heardAfter, lastFor_append]
  cases lastFor others field <;> rfl

theorem heardAfter_heardAfter (stamped : Bool) (before : Field → Except Failure Value)
    (entries : List (Field × Value)) :
    heardAfter stamped (heardAfter stamped before entries) entries =
      heardAfter stamped before entries := by
  funext field
  simp only [heardAfter]
  cases lastFor entries field <;> rfl

theorem heardAfter_single (stamped : Bool) (before : Field → Except Failure Value) (field : Field)
    (value : Value) (other : Field) : heardAfter stamped before [(field, value)] other =
      if other = field then field.heard stamped value else before other := by
  by_cases hsame : other = field
  · simp [heardAfter, lastFor, hsame]
  · simp [heardAfter, lastFor, hsame, Ne.symm hsame]

namespace File

/-- Whether a file is another after a row of writes that went through. -/
structure Revised (file : File) (entries : List (Field × Value)) (later : File) : Prop
    extends file.Kin later where
  reading : later.reading = heardAfter file.stamps file.reading entries

variable {file between later : File} {entries others : List (Field × Value)} {format : Format}
  {path : String}

namespace Revised

theorem nil (file : File) : file.Revised [] file :=
  ⟨.refl file, rfl⟩

theorem append (h : file.Revised entries between) (h' : between.Revised others later) :
    file.Revised (entries ++ others) later where
  toKin := h.toKin.trans h'.toKin
  reading := by rw [h'.reading, h.stamps, h.reading, heardAfter_append]

theorem reading_again (h : file.Revised entries between) (h' : between.Revised entries later) :
    later.reading = between.reading := by
  rw [h'.reading, h.stamps, h.reading, heardAfter_heardAfter]

theorem again (h : file.Revised entries between) (h' : between.Revised entries later) :
    file.Revised entries later where
  toKin := h.toKin.trans h'.toKin
  reading := (h.reading_again h').trans h.reading

theorem append_if {reached : Bool} (h : file.Revised (if reached then entries else []) between)
    (h' : between.Revised (if reached then others else []) later) :
    file.Revised (if reached then entries ++ others else []) later := by
  cases reached <;> exact h.append h'

theorem of_taggable (h : file.Revised entries later) :
    file.Revised (if file.taggable then entries else []) later := by
  cases hnot : file.taggable with
  | true => exact h
  | false =>
      rw [h.toKin.eq_of_not_taggable hnot]
      exact .nil file

end Revised

theorem revised_of_write {field : Field} {value : Value} {event : Event} {after : Handle}
    (hformat : file.format = some format) (hproper : file.Proper)
    (h : Handle.write field value (file.opened path) = .ok event after) :
    ∃ later, after = later.opened path ∧ file.Revised [(field, value)] later ∧
      (value.isEmpty = false → file.taggable = true) := by
  obtain ⟨hafter, hstamps, hread⟩ := Handle.write_keeps (proper_opened hproper path) h
  have hlater : ∃ later : File,
      after = later.opened path ∧ later = { file with tags := later.tags } ∧
      later.taggable = file.taggable ∧ (value.isEmpty = false → file.taggable = true) := by
    rcases Handle.write_eq_ok h with ⟨hempty, rfl⟩ | ⟨tags, content, others, -, hnew, -, -, rfl⟩
    · unfold Handle.cleared
      rw [tags_opened hformat]
      cases htags : file.tags with
      | none => exact ⟨file, rfl, rfl, rfl, by simp [hempty]⟩
      | some tags =>
          exact ⟨_, withTags_opened file path _, rfl, by simp [taggable, htags], by simp [hempty]⟩
    · have htaggable : file.taggable = true := by
        rcases tagsOrNew_opened hformat path with ⟨htaggable, -⟩ | ⟨-, failure, hfails⟩
        · exact htaggable
        · cases hnew.symm.trans hfails
      exact ⟨_, withTags_opened file path others, rfl, by rw [htaggable]; rfl, fun _ => htaggable⟩
  obtain ⟨later, rfl, hkept, htaggable, hvalue⟩ := hlater
  have hformat' : later.format = some format := by rw [hkept, hformat]
  rw [stamps_opened, stamps_opened] at hstamps
  refine ⟨later, rfl, ⟨⟨hkept, htaggable, hstamps, fun _ => proper_of_opened hformat' hafter⟩, ?_⟩,
    hvalue⟩
  funext other
  rw [← read_opened hformat', hread, stamps_opened, read_opened hformat, heardAfter_single]

theorem eq_of_write {field : Field} {value : Value} {failure : Failure} {after : Handle}
    (hformat : file.format = some format)
    (h : Handle.write field value (file.opened path) = .error failure after)
    (hreach : failure.reach ≠ .run) :
    after = file.opened path ∧ value.isEmpty = false ∧ file.taggable = false := by
  unfold Handle.write at h
  split at h
  · cases h
  · rename_i hvalue
    cases hnew : (file.opened path).tagsOrNew with
    | error cause =>
        rw [hnew] at h
        cases h
        refine ⟨rfl, Bool.eq_false_iff.mpr hvalue, ?_⟩
        rcases tagsOrNew_opened hformat path with ⟨-, tags, htags⟩ | ⟨hnot, -⟩
        · cases hnew.symm.trans htags
        · exact hnot
    | ok tags =>
        simp only [hnew] at h
        cases hchanged : Handle.changed tags field value with
        | ok written =>
            rw [hchanged] at h
            cases h
        | error cause =>
            rw [hchanged] at h
            cases h
            exact absurd (Handle.reach_of_changed hchanged) hreach

end File

namespace Job

variable {file : File} {format : Format} {path : String} {bench : Workbench}

/-- A row of writes revises the opened file, or it comes to a value for a file that cannot have
tags, or it ends the run. -/
theorem writeAll_opened (hformat : file.format = some format) (hproper : file.Proper)
    (hhandle : bench.handle = file.opened path) (entries : List (Field × Value)) :
    (∃ later after, writeAll entries bench = .ok () after ∧ after.handle = later.opened path ∧
      after.tree = bench.tree ∧ file.Revised entries later ∧
      (GivesValue entries → file.taggable = true)) ∨
    ∃ failure after, writeAll entries bench = .error failure after ∧
      (failure.reach ≠ .run →
        bench.Unmoved after ∧ GivesValue entries ∧ file.taggable = false) := by
  induction entries generalizing bench file with
  | nil => exact .inl ⟨file, bench, rfl, hhandle, rfl, .nil file, by simp [GivesValue]⟩
  | cons entry entries ih =>
      rw [writeAll_cons, givesValue_cons]
      cases hwrite : Handle.write entry.1 entry.2 bench.handle with
      | error failure handle =>
          refine .inr ⟨failure, _, bind_of_error (write_eq_error hwrite), fun hreach => ?_⟩
          rw [hhandle] at hwrite
          obtain ⟨rfl, hvalue, hnot⟩ := File.eq_of_write hformat hwrite hreach
          exact ⟨⟨hhandle.symm, rfl⟩, .inl hvalue, hnot⟩
      | ok event handle =>
          rw [bind_of_ok (write_eq_ok hwrite)]
          rw [hhandle] at hwrite
          obtain ⟨middle, rfl, hmiddle, hfirst⟩ := File.revised_of_write hformat hproper hwrite
          have hformat' : middle.format = some format := hmiddle.format.trans hformat
          have hwritten : ({ bench with handle := middle.opened path }.record event).handle =
              middle.opened path := rfl
          rcases ih hformat' (hmiddle.proper hproper) hwritten with
            ⟨later, after, hrest, hafter, htree, hlater, hvalue⟩ | ⟨failure, after, hrest, hfails⟩
          · refine .inl ⟨later, after, hrest, hafter, htree, hmiddle.append hlater, ?_⟩
            rintro (hgives | hgives)
            · exact hfirst hgives
            · rw [← hmiddle.taggable]
              exact hvalue hgives
          · refine .inr ⟨failure, after, hrest, fun hreach => ?_⟩
            obtain ⟨hunmoved, hgives, hnot⟩ := hfails hreach
            rw [hmiddle.taggable] at hnot
            have hsame := hmiddle.toKin.eq_of_not_taggable hnot
            refine ⟨⟨?_, hunmoved.tree⟩, .inr hgives, hnot⟩
            rw [hunmoved.handle, hhandle, ← hsame]
            rfl

end Job

namespace Step

variable {options : Options} {step : Step} {file : File} {format : Format} {path : String}
  {bench after : Workbench}

/-- Whether a step finds what it is to write, and the file can have it. -/
def Suits (file : File) (path : String) (step : Step) : Prop :=
  step.Finds path ∧ (GivesValue (step.entries path) → file.taggable = true)

/-- Whether a step goes well with a file, the saving included. -/
def Succeeds (options : Options) (file : File) (path : String) (step : Step) : Prop :=
  step.Suits file path ∧ (options.dryRun = false → file.savable = true)

theorem draft_opened (hstep : step ∈ options.writing) (hformat : file.format = some format)
    (hproper : file.Proper) (hhandle : bench.handle = file.opened path) :
    (∃ later after, step.draft bench = .ok () after ∧ after.handle = later.opened path ∧
      after.tree = bench.tree ∧ file.Revised (step.entries path) later ∧ step.Suits file path) ∨
    ∃ failure after, step.draft bench = .error failure after ∧
      (failure.reach ≠ .run → bench.Unmoved after ∧ ¬ step.Suits file path) := by
  have hpath : bench.handle.path = path := by
    rw [hhandle]
    rfl
  by_cases htold : step.Untold
  · obtain ⟨cause, hdraft⟩ := draft_of_untold htold bench
    exact .inr ⟨.numeral cause, bench, hdraft, fun hreach => absurd rfl hreach⟩
  have hcases := draft_cases hstep htold bench
  rw [hpath] at hcases
  rcases hcases with ⟨hfinds, logged, hlogged, hdraft⟩ |
    ⟨hmissing, failure, after, hafter, hdraft, -⟩
  · rw [hdraft]
    have hopened := hlogged.handle.trans hhandle
    rcases Job.writeAll_opened hformat hproper hopened (step.entries path) with
      ⟨later, after, hwrites, hafter, htree, hlater, hvalue⟩ | ⟨failure, after, hwrites, hfails⟩
    · exact .inl ⟨later, after, hwrites, hafter, htree.trans hlogged.tree, hlater, hfinds, hvalue⟩
    · refine .inr ⟨failure, after, hwrites, fun hreach => ?_⟩
      obtain ⟨hunmoved, hgives, hnot⟩ := hfails hreach
      refine ⟨hlogged.trans hunmoved, fun hsuits => ?_⟩
      rw [hsuits.2 hgives] at hnot
      cases hnot
  · exact .inr ⟨failure, after, hdraft, fun _ => ⟨hafter, fun hsuits => hmissing hsuits.1⟩⟩

theorem entries_of_not_suits (htaggable : file.taggable = true) (h : ¬ step.Suits file path) :
    step.entries path = [] :=
  entries_of_not_finds fun hfinds => h ⟨hfinds, fun _ => htaggable⟩

/-- A step that does not end the run revises the file in memory, as far as the file can have tags,
and stores what is in memory just when it goes well. -/
theorem attempt_opened (hstep : step ∈ options.writing) (hformat : file.format = some format)
    (hproper : file.Proper) (hname : Path.name path = file.name)
    (hhandle : bench.handle = file.opened path) {fine : Bool}
    (h : step.attempt options bench = .ok fine after) :
    ∃ later, after.handle = later.opened path ∧
      file.Revised (if file.taggable then step.entries path else []) later ∧
      (fine = true ↔ step.Succeeds options file path) ∧
      after.tree = if fine && !options.dryRun then bench.tree.store file.location later.tags
        else bench.tree := by
  rcases draft_opened hstep hformat hproper hhandle with
    ⟨later, middle, hdraft, hmiddle, htree, hlater, hsuits⟩ | ⟨failure, middle, hdraft, hfails⟩
  · have hperform : step.perform options bench = saveUnlessDry options.dryRun middle := by
      rw [perform_eq_draft hstep, Job.bind_of_ok hdraft]
    have hlocation : (later.opened path).location = file.location := hlater.location
    have hsave := File.toSave_opened (hlater.format.trans hformat) (hname.trans hlater.name.symm)
    rw [hlater.savable, ← hmiddle] at hsave
    simp only [Succeeds, hsuits, true_and]
    refine ⟨later, ?_⟩
    cases hdry : options.dryRun with
    | true =>
        have hworks : step.perform options bench =
            .ok () (middle.record (.wouldSave middle.handle.path)) := by
          rw [hperform, hdry]
          rfl
        cases (attempt_of_ok hworks).symm.trans h
        exact ⟨hmiddle, hlater.of_taggable, by simp, htree⟩
    | false =>
        rw [hdry] at hperform
        rcases hsave with ⟨hsavable, hsave⟩ | ⟨hnot, failure, hsave⟩
        · cases (attempt_of_ok (hperform.trans (Job.save_eq hsave))).symm.trans h
          refine ⟨hmiddle, hlater.of_taggable, by simp [hsavable], ?_⟩
          rw [← htree, ← hlocation, ← hmiddle]
          rfl
        · rcases attempt_eq_ok h with ⟨hok, -⟩ | ⟨other, last, report, hother, hreport, rfl, rfl⟩
          · cases (hperform.trans (Job.save_eq_error hsave)).symm.trans hok
          · cases (hperform.trans (Job.save_eq_error hsave)).symm.trans hother
            exact ⟨hmiddle, hlater.of_taggable, by simp [hnot], htree⟩
  · have hperform : step.perform options bench = .error failure middle := by
      rw [perform_eq_draft hstep, Job.bind_of_error hdraft]
    rcases attempt_eq_ok h with ⟨hok, -⟩ | ⟨other, last, report, hother, hreport, rfl, rfl⟩
    · cases hperform.symm.trans hok
    · cases hperform.symm.trans hother
      obtain ⟨hunmoved, hnot⟩ := hfails (Failure.reach_of_report? hreport)
      refine ⟨file, hunmoved.handle.trans hhandle, ?_, by simp [Succeeds, hnot], hunmoved.tree⟩
      split
      · rename_i htaggable
        rw [entries_of_not_suits htaggable hnot]
        exact .nil file
      · exact .nil file

end Step

/-- Whether what is written into a file gets there. -/
def Options.reaches (options : Options) (file : File) : Bool :=
  !options.dryRun && file.opens && file.savable && file.taggable

/-- Where the work on a file stands after some writes: what they have made of it in memory, as far
as it can have tags, and what of that is stored, as far as it gets there. -/
structure Workbench.Stands (bench : Workbench) (options : Options) (tree : Tree) (path : String)
    (file : File) (done : List (Field × Value)) (drafted stored : File) : Prop where
  handle : bench.handle = drafted.opened path
  drafted : file.Revised (if file.taggable then done else []) drafted
  tree : bench.tree = tree.store file.location stored.tags
  stored : file.Revised (if options.reaches file then done else []) stored

theorem Workbench.Stands.start {options : Options} {tree : Tree} {path : String} {file : File}
    (hdistinct : tree.Distinct) (hfile : tree.file? path = some file) (opened : Event) :
    (Workbench.start tree (file.opened path) opened).Stands options tree path file []
      file file where
  handle := rfl
  drafted := by
    rw [ite_self]
    exact .nil file
  tree := (Tree.store_same hdistinct hfile).symm
  stored := by
    rw [ite_self]
    exact .nil file

namespace Step

variable {options : Options} {tree : Tree} {file drafted stored : File} {path : String}
  {done : List (Field × Value)} {bench after : Workbench} {fine : Bool}

theorem attempt_stands {step : Step} (hstep : step ∈ options.writing) (hopens : file.opens = true)
    (hproper : file.Proper) (hname : Path.name path = file.name)
    (h : bench.Stands options tree path file done drafted stored)
    (hattempt : step.attempt options bench = .ok fine after) :
    (∃ drafted' stored',
      after.Stands options tree path file (done ++ step.entries path) drafted' stored') ∧
    (fine = true ↔ step.Succeeds options file path) := by
  obtain ⟨format, hformat⟩ : ∃ format, file.format = some format := by
    simp only [File.opens, Bool.and_eq_true] at hopens
    exact Option.isSome_iff_exists.mp hopens.2
  have hkin := h.drafted.toKin
  obtain ⟨later, hlater, hrevised, hfine, htree⟩ := attempt_opened hstep (hkin.format.trans hformat)
    (hkin.proper hproper) (hname.trans hkin.name.symm) h.handle hattempt
  have hverdict : step.Succeeds options drafted path ↔ step.Succeeds options file path := by
    simp only [Succeeds, Suits, hkin.taggable, hkin.savable]
  rw [hkin.taggable] at hrevised
  rw [hverdict] at hfine
  have hdrafted := h.drafted.append_if hrevised
  refine ⟨?_, hfine⟩
  cases hstores : fine && !options.dryRun with
  | true =>
      rw [hstores, if_pos rfl, hkin.location, h.tree, Tree.store_store] at htree
      simp only [Bool.and_eq_true, Bool.not_eq_true'] at hstores
      have hreaches : options.reaches file = file.taggable := by
        simp [Options.reaches, hstores.2, hopens, (hfine.mp hstores.1).2 hstores.2]
      exact ⟨later, later, hlater, hdrafted, htree, by rw [hreaches]; exact hdrafted⟩
  | false =>
      rw [hstores, if_neg Bool.false_ne_true] at htree
      refine ⟨later, stored, hlater, hdrafted, htree.trans h.tree, h.stored.append_if ?_⟩
      cases hreaches : options.reaches file with
      | false => exact .nil stored
      | true =>
          simp only [Options.reaches, Bool.and_eq_true, Bool.not_eq_true'] at hreaches
          obtain ⟨⟨⟨hwet, -⟩, hsavable⟩, htaggable⟩ := hreaches
          have hnot : ¬ step.Suits file path := by
            intro hsuits
            have hgoes := hfine.mpr ⟨hsuits, fun _ => hsavable⟩
            simp [hgoes, hwet] at hstores
          rw [entries_of_not_suits htaggable hnot]
          exact .nil stored

theorem attemptAll_stands {steps : List Step} (hsteps : ∀ step ∈ steps, step ∈ options.writing)
    (hopens : file.opens = true) (hproper : file.Proper) (hname : Path.name path = file.name)
    (h : bench.Stands options tree path file done drafted stored)
    (hattempt : attemptAll options steps bench = .ok fine after) :
    (∃ drafted' stored', after.Stands options tree path file
      (done ++ steps.flatMap (Step.entries path)) drafted' stored') ∧
    (fine = true ↔ ∀ step ∈ steps, step.Succeeds options file path) := by
  induction steps generalizing bench done drafted stored fine with
  | nil =>
      cases hattempt
      rw [List.flatMap_nil, List.append_nil]
      exact ⟨⟨drafted, stored, h⟩, by simp⟩
  | cons step steps ih =>
      obtain ⟨first, middle, last, hfirst, hlast, rfl⟩ := attemptAll_cons_eq_ok hattempt
      obtain ⟨⟨drafted', stored', hmiddle⟩, hgoes⟩ :=
        attempt_stands (hsteps step List.mem_cons_self) hopens hproper hname h hfirst
      obtain ⟨hafter, hrest⟩ :=
        ih (fun other hother => hsteps other (List.mem_cons_of_mem step hother)) hmiddle hlast
      rw [List.append_assoc, ← List.flatMap_cons] at hafter
      exact ⟨hafter, by rw [Bool.and_eq_true, hgoes, hrest, List.forall_mem_cons]⟩

theorem entries_name (path : String) : entries (Path.name path) = entries path := by
  funext step
  cases step <;> simp only [entries, Path.stem_name]

theorem succeeds_name (step : Step) :
    step.Succeeds options file (Path.name path) ↔ step.Succeeds options file path := by
  have hfinds : step.Finds (Path.name path) ↔ step.Finds path := by
    cases step <;> simp only [Finds, Path.stem_name]
  rw [Succeeds, Succeeds, Suits, Suits, entries_name, hfinds]

end Step

theorem Visit.outcome_ofRefusal {tree : Tree} {path : String} {failure : Failure} {fine : Bool}
    (h : (ofRefusal tree path failure).outcome = .ok fine) : fine = false := by
  unfold ofRefusal at h
  split at h
  · cases h
    rfl
  · cases h

namespace Options

variable {options : Options} {tree : Tree} {path : String} {file : File} {fine : Bool}

/-- The values that get into a file. -/
def landing (options : Options) (file : File) : List (Field × Value) :=
  if options.reaches file then options.writes file.name else []

/-- Whether all goes well with a file. -/
def Succeeds (options : Options) (file : File) : Prop :=
  file.opens = true ∧ ∀ step ∈ options.writing, step.Succeeds options file file.name

theorem landing_of_kin {later : File} (h : file.Kin later) :
    options.landing later = options.landing file := by
  have hreaches : options.reaches later = options.reaches file := by
    rw [reaches, reaches, h.opens, h.savable, h.taggable]
  rw [landing, landing, hreaches, h.name]

theorem succeeds_of_kin {later : File} (h : file.Kin later) :
    options.Succeeds later ↔ options.Succeeds file := by
  simp only [Succeeds, Step.Succeeds, Step.Suits, h.opens, h.savable, h.taggable, h.name]

/-- A visit that renames nothing and does not end the run makes of the file what the values that get
there make of it, and its verdict follows from the file's name and the marks that stay. -/
theorem visit_revises (hstill : options.Still) (hdistinct : tree.Distinct)
    (hfile : tree.file? path = some file) (hproper : file.Proper)
    (hfine : (options.visit tree path).outcome = .ok fine) :
    (∃ stored, file.Revised (options.landing file) stored ∧
      (options.visit tree path).tree = tree.store file.location stored.tags) ∧
    (fine = true ↔ options.Succeeds file) := by
  have hname := File.name_of_file? hfile
  have hsame := Tree.store_same hdistinct hfile
  rcases File.openAt_opened hfile with ⟨hopens, opened, hopen⟩ | ⟨hclosed, failure, hopen⟩
  · have hwrites : options.writing.flatMap (Step.entries path) = options.writes file.name := by
      rw [writes_eq, hname, Step.entries_name]
    have hsucceeds : options.Succeeds file ↔
        ∀ step ∈ options.writing, step.Succeeds options file path := by
      rw [Succeeds, hname]
      simp only [hopens, true_and, Step.succeeds_name]
    rw [hsucceeds, landing, ← hwrites]
    cases hediting : options.isEditing with
    | false =>
        have hnone : options.writing = [] := by
          rw [← hstill.steps_eq]
          simpa [isEditing] using hediting
        have hvisit : options.visit tree path =
            Visit.ofListing tree (file.opened path) opened := by
          simp [visit, hopen, hediting]
        rw [hvisit] at hfine ⊢
        rw [hnone, List.flatMap_nil, ite_self]
        refine ⟨⟨file, .nil file, hsame.symm⟩, ?_⟩
        rcases Visit.ofListing_cases tree (file.opened path) opened with
          ⟨-, hlists⟩ | ⟨-, failure, hfails, -⟩
        · cases hfine.symm.trans hlists
          simp
        · cases hfine.symm.trans hfails
    | true =>
        have hvisit : options.visit tree path = Visit.ofWork (Step.attemptAll options
            options.writing (Workbench.start tree (file.opened path) opened)) := by
          simp [visit, hopen, hediting, hstill.steps_eq]
        rw [hvisit] at hfine ⊢
        cases hattempt : Step.attemptAll options options.writing
            (Workbench.start tree (file.opened path) opened) with
        | error failure after =>
            rw [hattempt] at hfine
            cases hfine
        | ok verdict after =>
            rw [hattempt] at hfine
            cases hfine
            obtain ⟨⟨drafted, stored, hafter⟩, hgoes⟩ := Step.attemptAll_stands (fun _ => id)
              hopens hproper hname.symm (.start hdistinct hfile opened) hattempt
            exact ⟨⟨stored, hafter.stored, hafter.tree⟩, hgoes⟩
  · have hvisit : options.visit tree path = Visit.ofRefusal tree path failure := by
      simp [visit, hopen]
    have hlanding : options.landing file = [] := by simp [landing, reaches, hclosed]
    rw [hvisit] at hfine
    rw [hlanding, tree_visit_of_error hopen]
    refine ⟨⟨file, .nil file, hsame.symm⟩, ?_⟩
    simp [Visit.outcome_ofRefusal hfine, Succeeds, hclosed]

end Options

end LinerNotes
