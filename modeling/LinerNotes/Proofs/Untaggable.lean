import LinerNotes.Proofs.Completion
import LinerNotes.Proofs.Counting

/-!
Files that have no tags and cannot get any. Writing into such a file fails at the first value that
is not empty, whatever was cleared before it, and every step goes on from a file that is as it was.
So whatever a batch asks for, the file keeps no tags, and it is reported if there was anything to
write into it.
-/

namespace LinerNotes

/-- Whether a row of writes has a value that is not empty. -/
def GivesValue (entries : List (Field × Value)) : Prop :=
  ∃ entry ∈ entries, entry.2.isEmpty = false

theorem givesValue_cons (entry : Field × Value) (entries : List (Field × Value)) :
    GivesValue (entry :: entries) ↔ entry.2.isEmpty = false ∨ GivesValue entries := by
  simp [GivesValue]

theorem givesValue_append (entries others : List (Field × Value)) :
    GivesValue (entries ++ others) ↔ GivesValue entries ∨ GivesValue others := by
  simp only [GivesValue, List.mem_append, or_and_right, exists_or]

namespace Handle

/-- Whether an opened file has no tags and the attempt to give it some fails in a known way. -/
def Untaggable (handle : Handle) : Prop :=
  ∃ audio fault, handle.audio = some audio ∧ audio.tags = none ∧
    audio.faults.tagging = some fault ∧ fault.OfTagging

namespace Untaggable

variable {handle : Handle}

theorem tags (h : handle.Untaggable) : handle.tags = none := by
  obtain ⟨audio, -, haudio, htags, -⟩ := h
  rw [Handle.tags, haudio, Option.bind_some, htags]

theorem tagsOrNew (h : handle.Untaggable) :
    ∃ reason, handle.tagsOrNew = .error (.notTaggable handle.path reason) := by
  obtain ⟨audio, fault, haudio, htags, htagging, hknown⟩ := h
  cases fault with
  | codec reason => exact ⟨reason, by simp [Handle.tagsOrNew, haudio, htags, htagging]⟩
  | unsupported reason => exact ⟨reason, by simp [Handle.tagsOrNew, haudio, htags, htagging]⟩
  | _ => exact hknown.elim

theorem write_of_empty (h : handle.Untaggable) (field : Field) {value : Value}
    (hempty : value.isEmpty = true) :
    write field value handle = .ok (.cleared handle.path field) handle := by
  simp [write, hempty, cleared, h.tags]

theorem write_of_value (h : handle.Untaggable) (field : Field) {value : Value}
    (hvalue : value.isEmpty = false) :
    ∃ reason, write field value handle = .error (.notTaggable handle.path reason) handle := by
  obtain ⟨reason, hnew⟩ := h.tagsOrNew
  exact ⟨reason, by simp [write, hvalue, hnew]⟩

theorem not_misses (h : handle.Untaggable) (spec : Spec) : ¬ spec.Misses handle := by
  rintro ⟨-, text, htext, -⟩
  rw [h.tags] at htext
  cases htext

end Untaggable

end Handle

/-- Whether a workbench comes from another by work that has left the opened file and the
tree alone. -/
structure Workbench.Unmoved (bench after : Workbench) : Prop where
  handle : after.handle = bench.handle
  tree : after.tree = bench.tree

namespace Workbench.Unmoved

variable {bench middle after : Workbench}

theorem refl (bench : Workbench) : bench.Unmoved bench :=
  ⟨rfl, rfl⟩

theorem trans (h : bench.Unmoved middle) (h' : middle.Unmoved after) : bench.Unmoved after :=
  ⟨h'.handle.trans h.handle, h'.tree.trans h.tree⟩

theorem record (h : bench.Unmoved after) (event : Event) : bench.Unmoved (after.record event) :=
  ⟨h.handle, h.tree⟩

end Workbench.Unmoved

namespace Job

variable {α β : Type} {work : Job α} {bench : Workbench}

/-- Whether work leaves the opened file and the tree alone and fails just when there is a value to
be written, because the file cannot have tags. -/
def Balks (work : Job α) (entries : List (Field × Value)) (bench : Workbench) : Prop :=
  ∃ after, bench.Unmoved after ∧
    ((¬ GivesValue entries ∧ ∃ a, work bench = .ok a after) ∨
      GivesValue entries ∧
        ∃ reason, work bench = .error (.notTaggable bench.handle.path reason) after)

theorem balks_writeAll (h : bench.handle.Untaggable) (entries : List (Field × Value)) :
    (writeAll entries).Balks entries bench := by
  induction entries generalizing bench with
  | nil => exact ⟨bench, .refl bench, .inl ⟨by simp [GivesValue], (), rfl⟩⟩
  | cons entry entries ih =>
      rw [Balks, givesValue_cons, writeAll_cons]
      cases hempty : entry.2.isEmpty with
      | true =>
          let middle := bench.record (.cleared bench.handle.path entry.1)
          have hwrite : write entry.1 entry.2 bench = .ok () middle :=
            write_eq_ok (h.write_of_empty entry.1 hempty)
          have hmiddle : middle.handle.Untaggable := h
          obtain ⟨after, hafter, hrest⟩ := ih hmiddle
          refine ⟨after, ((Workbench.Unmoved.refl bench).record _).trans hafter, ?_⟩
          rw [bind_of_ok hwrite]
          simp only [Bool.true_eq_false, false_or]
          exact hrest
      | false =>
          obtain ⟨reason, hwrite⟩ := h.write_of_value entry.1 hempty
          exact ⟨bench, .refl bench,
            .inr ⟨.inl rfl, reason, bind_of_error (write_eq_error hwrite)⟩⟩

theorem Balks.error_iff {entries : List (Field × Value)} (h : work.Balks entries bench) :
    (∃ reason after, work bench = .error (.notTaggable bench.handle.path reason) after) ↔
      GivesValue entries := by
  obtain ⟨after, -, ⟨hnone, a, hwork⟩ | ⟨hvalue, reason, hwork⟩⟩ := h
  · rw [hwork]
    simp [hnone]
  · exact ⟨fun _ => hvalue, fun _ => ⟨reason, after, hwork⟩⟩

theorem Balks.unmoved {entries : List (Field × Value)} (h : work.Balks entries bench) :
    bench.Unmoved (leftBy work bench) := by
  obtain ⟨after, hafter, ⟨-, a, hwork⟩ | ⟨-, reason, hwork⟩⟩ := h
  · rwa [leftBy_of_ok hwork]
  · rwa [leftBy_of_error hwork]

theorem extract_untaggable (h : bench.handle.Untaggable) (spec : Spec) (name : String) :
    bench.Unmoved (leftBy (extract spec name) bench) ∧
      ((∃ reason after, extract spec name bench =
          .error (.notTaggable bench.handle.path reason) after) ↔
        ∃ entries, spec.extract name = .ok (some entries) ∧ GivesValue entries) := by
  cases hextract : spec.extract name with
  | error cause =>
      have hfails := extract_of_error hextract bench
      rw [leftBy_of_error hfails, hfails]
      exact ⟨.refl bench, by simp⟩
  | ok entries? =>
      cases entries? with
      | none =>
          have hnone := extract_of_none hextract bench
          rw [leftBy_of_ok hnone, hnone]
          exact ⟨(Workbench.Unmoved.refl bench).record _, by simp⟩
      | some entries =>
          have hwork : (extract spec name).Balks entries bench := by
            rw [Balks, extract_eq_writeAll hextract]
            obtain ⟨after, hafter, ⟨hnone, _, hwrites⟩ | ⟨hvalue, reason, hwrites⟩⟩ :=
              balks_writeAll h entries
            · exact ⟨after, hafter, .inl ⟨hnone, true, bind_of_ok hwrites⟩⟩
            · exact ⟨after, hafter, .inr ⟨hvalue, reason, bind_of_error hwrites⟩⟩
          refine ⟨hwork.unmoved, hwork.error_iff.trans ?_⟩
          simp

end Job

namespace Step

variable {options : Options} {step : Step} {bench : Workbench} {path : String}

/-- Whether a step finds what it is to write, if anything: an extraction does if the name fits. -/
def Finds (path : String) : Step → Prop
  | .extract spec => ∃ entries, spec.extract (Path.stem path) = .ok (some entries)
  | _ => True

/-- Whether a step is to assign a number that is too long even to be told. -/
def Untold : Step → Prop
  | .edit edits => ∃ cause, edits.mapM Edit.description = .error cause
  | _ => False

/-- Whether a step ends the run on a file that cannot have tags: what it assigns cannot be told, or
it has nothing to write and saves the file with a fault that nothing deals with, or it really
renames to a name with the null character. -/
def Breaks (options : Options) (handle : Handle) : Step → Prop
  | .rename spec => options.dryRun = false ∧ ∃ name,
      spec.newName (some options.hazard) handle.read handle.path = .ok name ∧ '\x00' ∈ name.toList
  | step => step.Untold ∨ options.dryRun = false ∧ step.Finds handle.path ∧
      ¬ GivesValue (step.entries handle.path) ∧
      ∃ failure, handle.toSave = .error failure ∧ failure.reach = .run

theorem breaks_iff (hstep : step ∈ options.writing) (handle : Handle) :
    step.Breaks options handle ↔ step.Untold ∨ options.dryRun = false ∧ step.Finds handle.path ∧
      ¬ GivesValue (step.entries handle.path) ∧
      ∃ failure, handle.toSave = .error failure ∧ failure.reach = .run := by
  rcases Options.mem_writing_cases hstep with ⟨spec, rfl⟩ | rfl <;> exact Iff.rfl

theorem breaks_rename_iff {handle : Handle} (h : handle.Untaggable) (spec : Spec) :
    (Step.rename spec).Breaks options handle ↔ Halts options handle (.rename spec) :=
  (or_iff_right (h.not_misses spec)).symm

theorem entries_of_not_finds (h : ¬ step.Finds path) : step.entries path = [] := by
  cases step with
  | extract spec =>
      have hnone : ∀ found, spec.extract (Path.stem path) ≠ .ok (some found) :=
        fun found hfound => h ⟨found, hfound⟩
      simp only [entries]
  | edit edits => exact absurd trivial h
  | rename spec => rfl

theorem draft_eq (step : Step) (bench : Workbench) :
    step.draft bench = draftAt bench.handle.path step bench := by
  rw [draft, Job.bind_of_ok (Job.get_eq bench)]

theorem draft_of_untold (h : step.Untold) (bench : Workbench) :
    ∃ cause, step.draft bench = .error (.numeral cause) bench := by
  cases step with
  | edit edits =>
      obtain ⟨cause, hcause⟩ := h
      have hannounce := Job.announce_of_error hcause bench.handle.path bench
      exact ⟨cause, by rw [draft_eq, draftAt, Job.bind_of_error hannounce]⟩
  | _ => exact h.elim

theorem draft_cases (hstep : step ∈ options.writing) (htold : ¬ step.Untold) (bench : Workbench) :
    (step.Finds bench.handle.path ∧ ∃ logged, bench.Unmoved logged ∧
      step.draft bench = Job.writeAll (step.entries bench.handle.path) logged) ∨
    ¬ step.Finds bench.handle.path ∧ ∃ failure after, bench.Unmoved after ∧
      step.draft bench = .error failure after ∧
      (failure.reach = .file ∨
        ∃ spec : Spec, ∃ cause, spec.extract (Path.stem bench.handle.path) = .error cause) := by
  rw [draft_eq]
  rcases Options.mem_writing_cases hstep with ⟨spec, rfl⟩ | rfl
  · rw [draftAt]
    cases hextract : spec.extract (Path.stem bench.handle.path) with
    | error cause =>
        exact .inr ⟨by simp [Finds, hextract], _, bench, .refl bench,
          Job.bind_of_error (Job.extract_of_error hextract bench), .inr ⟨spec, cause, hextract⟩⟩
    | ok entries? =>
        cases entries? with
        | none =>
            let event : Event := .noMatch (Path.stem bench.handle.path) spec.source
            refine .inr ⟨by simp [Finds, hextract], .mismatch bench.handle.path spec.source,
              bench.record event, (Workbench.Unmoved.refl bench).record event, ?_, .inl rfl⟩
            rw [Job.bind_of_ok (Job.extract_of_none hextract bench)]
            rfl
        | some found =>
            refine .inl ⟨⟨found, hextract⟩, bench, .refl bench, ?_⟩
            have hentries : entries bench.handle.path (.extract spec) = found := by
              simp only [entries, hextract]
            have hfits := Job.extract_eq_writeAll hextract bench
            rw [hentries]
            cases hwrites : Job.writeAll found bench with
            | ok _ after =>
                rw [Job.bind_of_ok hwrites] at hfits
                exact Job.bind_of_ok hfits
            | error failure after =>
                rw [Job.bind_of_error hwrites] at hfits
                exact Job.bind_of_error hfits
  · cases hdescriptions : options.edits.mapM Edit.description with
    | error cause => exact absurd ⟨cause, hdescriptions⟩ htold
    | ok descriptions =>
        have hannounce := Job.announce_of_ok hdescriptions bench.handle.path bench
        refine .inl ⟨trivial, bench.record (.applying descriptions bench.handle.path),
          (Workbench.Unmoved.refl bench).record _, ?_⟩
        rw [draftAt, Job.bind_of_ok hannounce]
        rfl

/-- In memory a step fails if there is a value to be written or nothing is found, and else does
nothing. -/
theorem draft_untaggable (hstep : step ∈ options.writing) (htold : ¬ step.Untold)
    (h : bench.handle.Untaggable)
    (hextract : ∀ spec : Spec, ∃ entries?,
      spec.extract (Path.stem bench.handle.path) = .ok entries?) :
    ∃ after, bench.Unmoved after ∧
      ((¬ GivesValue (step.entries bench.handle.path) ∧ step.Finds bench.handle.path ∧
          step.draft bench = .ok () after) ∨
        ((GivesValue (step.entries bench.handle.path) ∨ ¬ step.Finds bench.handle.path) ∧
          ∃ failure, step.draft bench = .error failure after ∧ failure.reach = .file)) := by
  rcases draft_cases hstep htold bench with ⟨hfinds, logged, hlogged, hdraft⟩ |
    ⟨hmissing, failure, after, hafter, hdraft, hreach⟩
  · rw [hdraft]
    obtain ⟨after, hafter, ⟨hnone, _, hwrites⟩ | ⟨hvalue, reason, hwrites⟩⟩ :=
      Job.balks_writeAll (hlogged.handle ▸ h) (step.entries bench.handle.path)
    · exact ⟨after, hlogged.trans hafter, .inl ⟨hnone, hfinds, hwrites⟩⟩
    · exact ⟨after, hlogged.trans hafter, .inr ⟨.inl hvalue, _, hwrites, rfl⟩⟩
  · refine ⟨after, hafter, .inr ⟨.inr hmissing, failure, hdraft, ?_⟩⟩
    rcases hreach with hfile | ⟨spec, cause, hfails⟩
    · exact hfile
    · obtain ⟨entries?, hentries⟩ := hextract spec
      cases hfails.symm.trans hentries

theorem saveUnlessDry_untaggable (dryRun : Bool) (h : bench.handle.tags = none)
    (hstored : bench.tree.store bench.handle.location none = bench.tree) :
    ∃ after, bench.Unmoved after ∧
      (((dryRun = true ∨ ∃ tags, bench.handle.toSave = .ok tags) ∧
          saveUnlessDry dryRun bench = .ok () after) ∨
        dryRun = false ∧ ∃ failure, bench.handle.toSave = .error failure ∧
          saveUnlessDry dryRun bench = .error failure after) := by
  cases dryRun with
  | true =>
      exact ⟨_, (Workbench.Unmoved.refl bench).record (.wouldSave bench.handle.path),
        .inl ⟨.inl rfl, rfl⟩⟩
  | false =>
      cases hsave : bench.handle.toSave with
      | ok tags =>
          obtain rfl : tags = none := (Handle.eq_of_toSave hsave).trans h
          refine ⟨_, ?_, .inl ⟨.inr ⟨none, rfl⟩, Job.save_eq hsave⟩⟩
          exact ⟨rfl, hstored⟩
      | error failure =>
          exact ⟨bench, .refl bench, .inr ⟨rfl, failure, rfl, Job.save_eq_error hsave⟩⟩

theorem attempt_of_run {failure : Failure} {after : Workbench}
    (h : step.perform options bench = .error failure after) (hreach : failure.reach = .run) :
    step.attempt options bench = .error failure after := by
  simp only [attempt, h, Failure.report?, hreach]

theorem attempt_untaggable (hstep : step ∈ options.writing) (h : bench.handle.Untaggable)
    (hstored : bench.tree.store bench.handle.location none = bench.tree)
    (hextract : ∀ spec : Spec, ∃ entries?,
      spec.extract (Path.stem bench.handle.path) = .ok entries?) :
    ∃ after, bench.Unmoved after ∧
      ((¬ step.Breaks options bench.handle ∧ ∃ fine, step.attempt options bench = .ok fine after ∧
          (GivesValue (step.entries bench.handle.path) → fine = false)) ∨
        step.Breaks options bench.handle ∧ ∃ failure,
          step.attempt options bench = .error failure after ∧ failure.reach = .run) := by
  rw [breaks_iff hstep]
  by_cases htold : step.Untold
  · obtain ⟨cause, hdraft⟩ := draft_of_untold htold bench
    have hperform : step.perform options bench = .error (.numeral cause) bench := by
      rw [perform_eq_draft hstep, Job.bind_of_error hdraft]
    exact ⟨bench, .refl bench, .inr ⟨.inl htold, _, attempt_of_run hperform rfl, rfl⟩⟩
  rw [or_iff_right htold]
  obtain ⟨middle, hmiddle, ⟨hnone, hfinds, hdraft⟩ | ⟨hnothing, failure, hdraft, hreach⟩⟩ :=
    draft_untaggable hstep htold h hextract
  · obtain ⟨after, hafter, hsave⟩ := saveUnlessDry_untaggable options.dryRun
      (hmiddle.handle ▸ h.tags) (by rw [hmiddle.tree, hmiddle.handle, hstored])
    have hunmoved := hmiddle.trans hafter
    have hperform : step.perform options bench = saveUnlessDry options.dryRun middle := by
      rw [perform_eq_draft hstep, Job.bind_of_ok hdraft]
    rw [hmiddle.handle] at hsave
    rcases hsave with ⟨hsaves, hsaved⟩ | ⟨hdry, failure, hfails, hsaved⟩
    · refine ⟨after, hunmoved, .inl ⟨?_, true, attempt_of_ok (hperform.trans hsaved),
        fun hvalue => absurd hvalue hnone⟩⟩
      rintro ⟨hdry, -, -, failure, hfails, -⟩
      rcases hsaves with hdry' | ⟨tags, htags⟩
      · rw [hdry] at hdry'
        cases hdry'
      · rw [htags] at hfails
        cases hfails
    · by_cases hreach : failure.reach = .run
      · exact ⟨after, hunmoved, .inr ⟨⟨hdry, hfinds, hnone, failure, hfails, hreach⟩, failure,
          attempt_of_run (hperform.trans hsaved) hreach, hreach⟩⟩
      · obtain ⟨event, hattempt⟩ := attempt_of_error (hperform.trans hsaved) hreach
        refine ⟨_, hunmoved.record event, .inl ⟨?_, false, hattempt, fun _ => rfl⟩⟩
        rintro ⟨-, -, -, other, hother, hrun⟩
        cases hfails.symm.trans hother
        exact hreach hrun
  · have hperform : step.perform options bench = .error failure middle := by
      rw [perform_eq_draft hstep, Job.bind_of_error hdraft]
    obtain ⟨event, hattempt⟩ := attempt_of_error hperform (by rw [hreach]; decide)
    refine ⟨_, hmiddle.record event, .inl ⟨?_, false, hattempt, fun _ => rfl⟩⟩
    rintro ⟨-, hfinds, hnone, -⟩
    exact hnothing.elim hnone fun hmissing => hmissing hfinds

theorem attemptAll_untaggable {steps : List Step} (hsteps : ∀ step ∈ steps, step ∈ options.writing)
    (h : bench.handle.Untaggable)
    (hstored : bench.tree.store bench.handle.location none = bench.tree)
    (hextract : ∀ spec : Spec, ∃ entries?,
      spec.extract (Path.stem bench.handle.path) = .ok entries?) :
    ∃ after, bench.Unmoved after ∧
      (((∀ step ∈ steps, ¬ step.Breaks options bench.handle) ∧
          ∃ fine, attemptAll options steps bench = .ok fine after ∧
            (GivesValue (steps.flatMap (Step.entries bench.handle.path)) → fine = false)) ∨
        (∃ step ∈ steps, step.Breaks options bench.handle) ∧ ∃ failure,
          attemptAll options steps bench = .error failure after ∧ failure.reach = .run) := by
  -- a step that does not break the run leaves the bench as it was, for the next one to meet
  induction steps generalizing bench with
  | nil => exact ⟨bench, .refl bench, .inl ⟨nofun, true, rfl, by simp [GivesValue]⟩⟩
  | cons step steps ih =>
      obtain ⟨middle, hmiddle, ⟨hgoes, fine, hattempt, hfine⟩ |
        ⟨hbreaks, failure, hattempt, hreach⟩⟩ :=
        attempt_untaggable (hsteps step List.mem_cons_self) h hstored hextract
      · have hrest := ih (fun other hother => hsteps other (List.mem_cons_of_mem step hother))
          (hmiddle.handle ▸ h) (by rw [hmiddle.tree, hmiddle.handle, hstored])
          (by rw [hmiddle.handle]; exact hextract)
        rw [hmiddle.handle] at hrest
        obtain ⟨after, hafter, ⟨hgo, fine', hattempt', hfine'⟩ |
          ⟨⟨other, hother, hbreaks⟩, failure, hattempt', hreach⟩⟩ := hrest
        · refine ⟨after, hmiddle.trans hafter, .inl ⟨?_, fine && fine',
            attemptAll_cons_of_ok hattempt hattempt', ?_⟩⟩
          · simpa using ⟨hgoes, hgo⟩
          · rw [List.flatMap_cons, givesValue_append]
            rintro (hvalue | hvalue)
            · rw [hfine hvalue, Bool.false_and]
            · rw [hfine' hvalue, Bool.and_false]
        · refine ⟨after, hmiddle.trans hafter,
            .inr ⟨⟨other, List.mem_cons_of_mem step hother, hbreaks⟩, failure, ?_, hreach⟩⟩
          rw [attemptAll, Job.bind_of_ok hattempt, Job.bind_of_error hattempt']
      · refine ⟨middle, hmiddle, .inr ⟨⟨step, List.mem_cons_self, hbreaks⟩, failure, ?_, hreach⟩⟩
        rw [attemptAll, Job.bind_of_error hattempt]

end Step

theorem Tree.store_same {tree : Tree} (hdistinct : tree.Distinct) {path : String} {file : File}
    (hfile : tree.file? path = some file) : tree.store file.location file.tags = tree := by
  have hmem := List.mem_of_find?_eq_some (fileAt?_of_file? hfile)
  have hfiles : (tree.store file.location file.tags).files = tree.files := by
    rw [files_store]
    conv_rhs => rw [← tree.files.map_id]
    apply List.map_congr_left
    intro other hother
    unfold File.retagged
    split
    · rename_i hhere
      rw [hdistinct.eq_of_location hother hmem hhere]
      rfl
    · rfl
  exact Tree.mk.injEq _ _ _ _ ▸ ⟨rfl, hfiles⟩

/-- Whether a file is another with nothing changed but maybe its place. -/
def File.Placed (file later : File) : Prop :=
  later = { file with location := later.location }

namespace Options

variable {options : Options} {bench : Workbench}

/-- Whether a file that cannot have tags ends the run. -/
def Breaks (options : Options) (handle : Handle) : Prop :=
  ∃ step ∈ options.steps, step.Breaks options handle

theorem breaks_iff (options : Options) (handle : Handle) : options.Breaks handle ↔
    (∃ step ∈ options.writing, step.Breaks options handle) ∨
      ∃ step ∈ specStep .rename options.rename, step.Breaks options handle := by
  simp only [Breaks, steps_eq, List.mem_append, or_and_right, exists_or]

theorem steps_untaggable (h : bench.handle.Untaggable)
    (hstored : bench.tree.store bench.handle.location none = bench.tree)
    (hnul : Tree.hasNul bench.handle.path = false)
    (hextract : ∀ spec : Spec, ∃ entries?,
      spec.extract (Path.stem bench.handle.path) = .ok entries?) :
    (¬ options.Breaks bench.handle ∧ ∃ fine after,
      Step.attemptAll options options.steps bench = .ok fine after ∧
        (GivesValue (options.writes bench.handle.path) → fine = false)) ∨
    (options.Breaks bench.handle ∧ ∃ failure after,
      Step.attemptAll options options.steps bench = .error failure after ∧
        failure.reach = .run) := by
  rw [breaks_iff, writes_eq, steps_eq]
  obtain ⟨middle, hmiddle, ⟨hgoes, fine, hwork, hfine⟩ | ⟨hbreaks, failure, hwork, hreach⟩⟩ :=
    Step.attemptAll_untaggable (fun _ => id) h hstored hextract
  · have hwriting : ¬ ∃ step ∈ options.writing, step.Breaks options bench.handle := by
      simpa using hgoes
    rcases specStep_cases Step.rename options.rename with hnone | ⟨spec, hspec, -⟩
    · rw [hnone, List.append_nil]
      exact .inl ⟨by simpa using hwriting, fine, middle, hwork, hfine⟩
    · have hnul' : Tree.hasNul middle.handle.path = false := hmiddle.handle ▸ hnul
      rw [hspec]
      rcases Step.attempt_rename_cases hnul' with ⟨hpasses, fine', after, hrename⟩ |
        ⟨hhalts, failure, after, hrename, hends⟩
      · rw [hmiddle.handle, ← Step.breaks_rename_iff h] at hpasses
        have hlast : ¬ ∃ step ∈ [Step.rename spec], step.Breaks options bench.handle := by
          simpa using hpasses
        refine .inl ⟨not_or.mpr ⟨hwriting, hlast⟩, fine && fine', after,
          Step.attemptAll_append hwork (Step.attemptAll_single hrename), fun hvalue => ?_⟩
        rw [hfine hvalue, Bool.false_and]
      · rw [hmiddle.handle, ← Step.breaks_rename_iff h] at hhalts
        refine .inr ⟨.inr ⟨_, List.mem_singleton_self _, hhalts⟩, failure, after, ?_, hends.reach⟩
        rw [Step.attemptAll_append_eq, Job.bind_of_ok hwork, Step.attemptAll,
          Job.bind_of_error (Job.bind_of_error hrename)]
  · refine .inr ⟨.inl hbreaks, failure, middle, ?_, hreach⟩
    rw [Step.attemptAll_append_eq, Job.bind_of_error hwork]

theorem carries_steps_untaggable (hdistinct : bench.tree.Distinct) (h : bench.handle.Untaggable)
    (hstored : bench.tree.store bench.handle.location none = bench.tree)
    (hextract : ∀ spec : Spec, ∃ entries?,
      spec.extract (Path.stem bench.handle.path) = .ok entries?) :
    bench.tree.Carries File.Placed (leftBy (Step.attemptAll options options.steps) bench).tree := by
  have hsame : bench.tree.Carries File.Placed bench.tree := .refl hdistinct fun _ => rfl
  have hall : ∀ step ∈ options.writing, step ∈ options.writing := fun _ => id
  obtain ⟨middle, hmiddle, hwork⟩ := Step.attemptAll_untaggable hall h hstored hextract
  have hwriting : leftBy (Step.attemptAll options options.writing) bench = middle := by
    rcases hwork with ⟨-, fine, hwork, -⟩ | ⟨-, failure, hwork, -⟩
    · exact leftBy_of_ok hwork
    · exact leftBy_of_error hwork
  rw [steps_eq]
  rcases Step.leftBy_attemptAll_append options options.writing
    (specStep .rename options.rename) bench with hleft | hleft
  · rw [hleft, hwriting, hmiddle.tree]
    exact hsame
  · rw [hleft, hwriting]
    rcases specStep_cases Step.rename options.rename with hnone | ⟨spec, hspec, -⟩
    · rw [hnone]
      change bench.tree.Carries File.Placed middle.tree
      rw [hmiddle.tree]
      exact hsame
    · rw [hspec, Step.leftBy_attemptAll_single]
      rcases Step.tree_attempt_rename options spec middle with htree |
        ⟨name, renamed, -, hrenamed, htree⟩
      · rw [htree, hmiddle.tree]
        exact hsame
      · rw [hmiddle.tree] at hrenamed
        rw [htree]
        exact (Tree.carries_renameFile hdistinct hrenamed).mono fun _ _ hplaced => hplaced.1

/-- A file that cannot have tags is left as it was. Edits and extractions fail just when there is a
value to be written and leave nothing behind; no visit gives any file other tags; and a visit with a
value to be written reports the file, unless a step ends the run: a save of nothing with a fault
that nothing deals with, a number that is too long to be told, or a renaming to a name with the null
character. -/
theorem visit_of_untaggable (options : Options) {tree : Tree} (hdistinct : tree.Distinct)
    {path : String} {handle : Handle} {opened : Event}
    (hopen : Handle.openAt tree path = .ok (handle, opened)) (h : handle.Untaggable) :
    (∀ bench : Workbench, bench.handle = handle →
      (∀ edits : List Edit, (Job.edit edits).Balks (edits.map Edit.entry) bench) ∧
      ∀ (spec : Spec) (name : String), bench.Unmoved (leftBy (Job.extract spec name) bench) ∧
        ((∃ reason after, Job.extract spec name bench = .error (.notTaggable path reason) after) ↔
          ∃ entries, spec.extract name = .ok (some entries) ∧ GivesValue entries)) ∧
    tree.Carries File.Placed (options.visit tree path).tree ∧
    (GivesValue (options.writes path) →
      (¬ options.Breaks handle ∧ (options.visit tree path).outcome = .ok false) ∨
      (options.Breaks handle ∧ ∃ failure,
        (options.visit tree path).outcome = .error failure ∧ failure.reach = .run)) := by
  obtain ⟨file, format, hfile, -, -, -, hhandle⟩ := Handle.openAt_eq_ok hopen
  obtain rfl : handle.path = path := by rw [hhandle]
  let start := Workbench.start tree handle opened
  have hstart : start.handle.Untaggable := h
  have hstored : tree.store handle.location none = tree := by
    have htags : handle.tags = file.tags := by
      rw [hhandle]
      rfl
    have hsame := Tree.store_same hdistinct hfile
    rw [← htags, h.tags] at hsame
    rw [hhandle]
    exact hsame
  have hextract : ∀ spec : Spec, ∃ entries?,
      spec.extract (Path.stem start.handle.path) = .ok entries? := by
    intro spec
    obtain ⟨entries?, hentries, -⟩ := spec.extract_stem hfile
    exact ⟨entries?, hentries⟩
  have hnul : Tree.hasNul start.handle.path = false := (Tree.file?_eq_some_iff.mp hfile).1
  constructor
  · rintro bench rfl
    exact ⟨fun edits => Job.balks_writeAll h _, fun spec name => Job.extract_untaggable h spec name⟩
  cases hediting : options.isEditing with
  | false =>
      have hsteps : options.steps = [] := by simpa [isEditing] using hediting
      have hvisit : options.visit tree handle.path = Visit.ofListing tree handle opened := by
        simp [visit, hopen, hediting]
      rw [hvisit, writes, hsteps]
      exact ⟨.refl hdistinct fun _ => rfl, by simp [GivesValue]⟩
  | true =>
      have hvisit : options.visit tree handle.path =
          Visit.ofWork (Step.attemptAll options options.steps start) := by
        simp [visit, hopen, hediting, start]
      have htree : (options.visit tree handle.path).tree =
          (leftBy (Step.attemptAll options options.steps) start).tree := by
        rw [hvisit, leftBy]
        cases Step.attemptAll options options.steps start <;> rfl
      refine ⟨htree ▸ carries_steps_untaggable hdistinct hstart hstored hextract, fun hvalue => ?_⟩
      rw [hvisit]
      rcases steps_untaggable hstart hstored hnul hextract with ⟨hgoes, fine, after, hwork, hfine⟩ |
        ⟨hbreaks, failure, after, hwork, hreach⟩
      · rw [hwork, hfine hvalue]
        exact .inl ⟨hgoes, rfl⟩
      · rw [hwork]
        exact .inr ⟨hbreaks, failure, rfl, hreach⟩

/-- A file without tags that cannot get any is reported when its artist is to be set. A renaming to
a name with the null character beside that ends the run instead. -/
theorem visit_of_untaggable_artist :
    let file : File := ⟨["a.ogg"], some .oggVorbis, none, ⟨none, none, some (.codec "no room")⟩⟩
    let tree : Tree := ⟨[], [file]⟩
    let plain : Options := ⟨[.assign .artist (.text "X")], none, none, .shell, false, false⟩
    let options : Options := { plain with rename := some ⟨"a\x00b", [.literal ['a', '\x00', 'b']]⟩ }
    let edits : List Edit := [.clear .title, .assign .artist (.text "X")]
    ∃ handle opened, Handle.openAt tree "a.ogg" = .ok (handle, opened) ∧
      (Job.edit edits).Balks (edits.map Edit.entry) (Workbench.start tree handle opened) ∧
      (plain.visit tree "a.ogg").outcome = .ok false ∧
      tree.Carries File.Placed (plain.visit tree "a.ogg").tree ∧
      (∃ failure, (options.visit tree "a.ogg").outcome = .error failure ∧ failure.reach = .run) ∧
      tree.Carries File.Placed (options.visit tree "a.ogg").tree := by
  intro file tree plain options edits
  let handle : Handle := ⟨"a.ogg", ["a.ogg"], some ⟨.oggVorbis, none, file.faults⟩⟩
  have hopen : Handle.openAt tree "a.ogg" = .ok (handle, .opened "a.ogg" .oggVorbis) := by
    decide +kernel
  have hdistinct : tree.Distinct := by decide +kernel
  have huntaggable : handle.Untaggable := ⟨_, .codec "no room", rfl, rfl, rfl, trivial⟩
  obtain ⟨hwork, hcarries, houtcome⟩ := plain.visit_of_untaggable hdistinct hopen huntaggable
  obtain ⟨-, hcarries', houtcome'⟩ := options.visit_of_untaggable hdistinct hopen huntaggable
  have hvalue : GivesValue (plain.writes "a.ogg") := ⟨(.artist, .text "X"), by decide, rfl⟩
  have hvalue' : GivesValue (options.writes "a.ogg") := ⟨(.artist, .text "X"), by decide, rfl⟩
  have hbreaks : options.Breaks handle :=
    ⟨.rename ⟨"a\x00b", [.literal ['a', '\x00', 'b']]⟩, by decide, rfl, "a\x00b.ogg",
      by decide +kernel, by decide⟩
  have hgoes : ¬ plain.Breaks handle := by
    have hsteps : plain.steps = [.edit edits.tail] := by decide
    have hsave : handle.toSave = .ok none := by decide +kernel
    rintro ⟨step, hstep, hbreaks⟩
    rw [hsteps, List.mem_singleton] at hstep
    rw [hstep] at hbreaks
    rcases hbreaks with ⟨cause, hcause⟩ | ⟨-, -, -, failure, hfails, -⟩
    · cases hcause
    · rw [hsave] at hfails
      cases hfails
  refine ⟨handle, _, hopen, (hwork _ rfl).1 edits, ?_, hcarries, ?_, hcarries'⟩
  · exact ((houtcome hvalue).resolve_right fun hbad => hgoes hbad.1).2
  · exact ((houtcome' hvalue').resolve_left fun hgood => hgood.1 hbreaks).2

end Options

end LinerNotes
