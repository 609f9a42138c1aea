import LinerNotes.Proofs.Counting

/-!
Dry runs. They leave the files and the count of saves alone, whatever happens, and as long as the
disk makes no trouble they come to the same verdict and the same counts as the real run, and
announce the name that it gives.
-/

namespace LinerNotes

/-- Whether a workbench comes from another without a change of the tree or a save. -/
structure Workbench.Spares (bench after : Workbench) : Prop where
  tree : after.tree = bench.tree
  saves : after.saves = bench.saves

theorem Workbench.Spares.refl (bench : Workbench) : bench.Spares bench :=
  ⟨rfl, rfl⟩

theorem Workbench.Spares.record (bench : Workbench) (event : Event) :
    bench.Spares (bench.record event) :=
  ⟨rfl, rfl⟩

theorem Workbench.Spares.trans {bench middle after : Workbench} (h : bench.Spares middle)
    (h' : middle.Spares after) : bench.Spares after :=
  ⟨h'.tree.trans h.tree, h'.saves.trans h.saves⟩

namespace Step

variable {options : Options} {step : Step}

theorem spares_perform (hdry : options.dryRun = true) (hstep : step ∈ options.steps)
    (bench : Workbench) : bench.Spares (leftBy (step.perform options) bench) := by
  rcases Options.mem_steps_cases hstep with hwriting | ⟨spec, rfl⟩
  · rw [perform_eq_draft hwriting, leftBy_bind, hdry]
    obtain ⟨tags, news, -, -, -, ⟨_, hdrafts, -⟩ | ⟨failure, _, -, hdrafts, -⟩⟩ :=
      drafts_draft _ step _ _ (Handle.Alike.refl bench.handle)
    · rw [hdrafts bench rfl]
      exact ⟨rfl, rfl⟩
    · rw [hdrafts bench rfl]
      exact ⟨rfl, rfl⟩
  · rcases perform_rename_cases options spec bench with ⟨name, hperform⟩ |
      ⟨-, name, renames, hperform⟩ | ⟨hwet, -⟩ | ⟨failure, hperform, -⟩
    · rw [leftBy_of_ok hperform]
      exact ⟨rfl, rfl⟩
    · rw [leftBy_of_ok hperform]
      exact ⟨rfl, rfl⟩
    · rw [hdry] at hwet
      cases hwet
    · rw [leftBy_of_error hperform]
      exact ⟨rfl, rfl⟩

theorem spares_attemptAll (hdry : options.dryRun = true) {steps : List Step}
    (hsteps : ∀ step ∈ steps, step ∈ options.steps) (bench : Workbench) :
    bench.Spares (leftBy (attemptAll options steps) bench) :=
  keeps_attemptAll Workbench.Spares.refl Workbench.Spares.trans
    (fun bench _ _ => Workbench.Spares.record bench _)
    (fun step hstep => spares_perform hdry (hsteps step hstep)) bench

end Step

theorem Options.visit_spares {options : Options} (hdry : options.dryRun = true) (tree : Tree)
    (path : String) :
    (options.visit tree path).tree = tree ∧ (options.visit tree path).saves = 0 := by
  unfold visit
  cases hopen : Handle.openAt tree path with
  | error failure =>
      simp only [Visit.ofRefusal]
      split <;> exact ⟨rfl, rfl⟩
  | ok found =>
      simp only
      split
      · have hspares := Step.spares_attemptAll hdry (fun _ => id)
          (Workbench.start tree found.1 found.2)
        rw [leftBy] at hspares
        cases hattempt : Step.attemptAll options options.steps
          (Workbench.start tree found.1 found.2) with
        | ok fine after =>
            rw [hattempt] at hspares
            exact ⟨hspares.tree, hspares.saves⟩
        | error failure after =>
            rw [hattempt] at hspares
            exact ⟨hspares.tree, hspares.saves⟩
      · exact ⟨rfl, rfl⟩

namespace Session

theorem spares_visitAll {options : Options} (hdry : options.dryRun = true) (paths : List String)
    (session : Session) :
    (leftBy (visitAll options paths) session).tree = session.tree ∧
      (leftBy (visitAll options paths) session).tally.saved = session.tally.saved := by
  induction paths generalizing session with
  | nil => exact ⟨rfl, rfl⟩
  | cons path paths ih =>
      obtain ⟨htree, hsaves⟩ := Options.visit_spares hdry session.tree path
      have hsaved : (session.add (options.visit session.tree path)).tally.saved =
          session.tally.saved := by
        rw [add, Tally.add, hsaves, Nat.add_zero]
      rw [leftBy_visitAll_cons]
      cases (options.visit session.tree path).outcome with
      | ok fine =>
          obtain ⟨htree', hsaved'⟩ := ih (session.add (options.visit session.tree path))
          exact ⟨htree'.trans htree, hsaved'.trans hsaved⟩
      | error failure => exact ⟨htree, hsaved⟩

theorem spares_run {options : Options} (hdry : options.dryRun = true) (inputs : List String)
    (session : Session) :
    (leftBy (run options inputs) session).tree = session.tree ∧
      (leftBy (run options inputs) session).tally.saved = session.tally.saved := by
  have hvisits := spares_visitAll hdry (session.tree.expand options.recursive inputs)
    (session.record (session.tree.searchEvents options.recursive inputs))
  rw [leftBy] at hvisits ⊢
  rw [run_eq]
  cases hall : visitAll options (session.tree.expand options.recursive inputs)
      (session.record (session.tree.searchEvents options.recursive inputs)) with
  | ok fine after =>
      rw [hall] at hvisits
      exact hvisits
  | error failure after =>
      rw [hall] at hvisits
      exact hvisits

/-- A row of dry batches leaves the files and the count of saves alone, also when one of them
raises. -/
theorem spares_runAll {batches : List (Options × List String)}
    (hdry : ∀ batch ∈ batches, batch.1.dryRun = true) (session : Session) :
    (session.runAll batches).tree = session.tree ∧
      (session.runAll batches).tally.saved = session.tally.saved := by
  induction batches generalizing session with
  | nil => exact ⟨rfl, rfl⟩
  | cons batch batches ih =>
      obtain ⟨htree, hsaved⟩ := spares_run (hdry batch List.mem_cons_self) batch.2 session
      obtain ⟨htree', hsaved'⟩ :=
        ih (fun other hother => hdry other (List.mem_cons_of_mem _ hother))
        (leftBy (run batch.1 batch.2) session)
      exact ⟨htree'.trans htree, hsaved'.trans hsaved⟩

end Session

/-- Whether a failure comes from the disk, at a save or at a renaming. -/
def Failure.isOnDisk : Failure → Bool
  | .saveRefused _ => true
  | .saveFailed _ _ => true
  | .renameFailed _ _ _ => true
  | _ => false

theorem Handle.isOnDisk_of_toSave {handle : Handle} {failure : Failure}
    (h : handle.toSave = .error failure) (hreach : failure.reach ≠ .run) :
    failure.isOnDisk = true := by
  unfold toSave at h
  split at h
  · cases h
    rfl
  · split at h
    · cases h
      exact absurd rfl hreach
    · split at h
      · cases h
      · cases h
        rfl
      · cases h
        rfl
      · rename_i fault hcodec hsystem _
        cases h
        cases fault with
        | system text => exact absurd rfl (hsystem text)
        | _ => exact absurd rfl hreach

theorem Failure.reach_of_report? {failure : Failure} {path report : String}
    (h : failure.report? path = some report) : failure.reach ≠ .run := by
  intro hrun
  rw [report?, hrun] at h
  cases h

/-- The failure of a step, if it fails. -/
def Step.failure? (options : Options) (step : Step) (bench : Workbench) : Option Failure :=
  match step.perform options bench with
  | .ok _ _ => none
  | .error failure _ => some failure

/-- The failures of steps taken one after the other, also of those that are only reported. -/
def Step.failures (options : Options) : List Step → Workbench → List Failure
  | [], _ => []
  | step :: rest, bench =>
      let others := match step.attempt options bench with
        | .ok _ after => failures options rest after
        | .error _ _ => []
      (step.failure? options bench).toList ++ others

/-- The failures that come up in a visit to a path. -/
def Options.failures (options : Options) (tree : Tree) (path : String) : List Failure :=
  match Handle.openAt tree path with
  | .error failure => [failure]
  | .ok (handle, opened) =>
      if options.isEditing then
        Step.failures options options.steps (Workbench.start tree handle opened)
      else (Listing.lines handle.path handle.read).2.toList

/-- The options for the real run. -/
def Options.real (options : Options) : Options :=
  { options with dryRun := false }

/-- The options for the dry run. -/
def Options.dry (options : Options) : Options :=
  { options with dryRun := true }

/-- The old and the new name of a renaming that was done. -/
def Event.performed? : Event → Option (String × String)
  | .renamed path name => some (Path.name path, name)
  | _ => none

/-- The old and the new name of a renaming that was announced. -/
def Event.announced? : Event → Option (String × String)
  | .wouldRename path name => some (Path.name path, name)
  | _ => none

/-- A renaming and its dry run in trees with the same names. -/
theorem Tree.renameFile_rehearsed {tree other : Tree} (source name : String)
    (hexists : ∀ path, other.pathExists path = tree.pathExists path) :
    (tree.renameFile source name false = .ok ⟨tree, .alreadyNamed name, source⟩ ∧
      other.renameFile source name true = .ok ⟨other, .alreadyNamed name, source⟩) ∨
    (∃ failure, tree.renameFile source name false = .error failure ∧
      other.renameFile source name true = .error failure) ∨
    (∃ file location, tree.file? source = some file ∧
      tree.vacant? (Path.join (Path.directory source) name) = some location ∧
      tree.renameFile source name false = .ok ⟨tree.move file.location location,
        .renamed source name, Path.join (Path.directory source) name⟩ ∧
      other.renameFile source name true = .ok ⟨other, .wouldRename source name,
        Path.join (Path.directory source) name⟩) ∨
    ∃ failure, tree.renameFile source name false = .error failure ∧
      (failure.isOnDisk = true ∨ failure.reach = .run) := by
  by_cases hname : Path.name source = name
  · exact .inl ⟨by simp [renameFile, hname], by simp [renameFile, hname]⟩
  cases htaken : tree.pathExists (Path.join (Path.directory source) name) with
  | true =>
      exact .inr (.inl ⟨.collision source name, by simp [renameFile, hname, htaken],
        by simp [renameFile, hname, htaken, hexists]⟩)
  | false =>
      right
      right
      cases hreal : tree.renameFile source name false with
      | ok renamed =>
          rcases renameFile_eq_ok hreal with ⟨hsame, -⟩ | ⟨hdry, -⟩ |
            ⟨-, file, location, hfile, hvacant, rfl⟩
          · exact absurd hsame hname
          · cases hdry
          · exact .inl ⟨file, location, hfile, hvacant, rfl,
              by simp [renameFile, hname, htaken, hexists]⟩
      | error failure =>
          refine .inr ⟨failure, rfl, ?_⟩
          simp only [renameFile, hname, htaken, rename, if_false, Bool.false_eq_true] at hreal
          split at hreal
          · cases hreal
            exact .inr rfl
          · split at hreal
            · cases hreal
            · cases hreal
              exact .inl rfl

namespace Step

variable {options : Options} {step : Step} {bench bench' after : Workbench} {fine : Bool}

theorem rehearse_attempt (hstep : step ∈ options.writing) (hhandle : bench'.handle = bench.handle)
    (hattempt : step.attempt options.real bench = .ok fine after)
    (hdisk : ∀ failure ∈ step.failure? options.real bench, failure.isOnDisk = false) :
    ∃ after', step.attempt options.dry bench' = .ok fine after' ∧ after'.handle = after.handle := by
  have hreal : step ∈ options.real.writing := hstep
  have hdry : step ∈ options.dry.writing := hstep
  obtain ⟨tags, news, _, -, -, hcases⟩ := drafts_draft _ step _ _ (Handle.Alike.refl bench.handle)
  have hsame : (bench'.drafted tags news).handle = (bench.drafted tags news).handle := by
    simp only [Workbench.drafted, hhandle]
  rcases hcases with ⟨_, hdrafts, -⟩ | ⟨failure, _, -, hdrafts, -⟩
  · have hperform : step.perform options.real bench = Job.save (bench.drafted tags news) := by
      rw [perform_eq_draft hreal, Job.bind_of_ok (hdrafts bench rfl)]
      rfl
    have hperform' : step.perform options.dry bench' = .ok () ((bench'.drafted tags news).record
        (.wouldSave (bench'.drafted tags news).handle.path)) := by
      rw [perform_eq_draft hdry, Job.bind_of_ok (hdrafts bench' hhandle)]
      rfl
    cases htags : (bench.drafted tags news).handle.toSave with
    | ok stored =>
        rw [Job.save_eq htags] at hperform
        rw [attempt_of_ok hperform] at hattempt
        cases hattempt
        exact ⟨_, attempt_of_ok hperform', hsame⟩
    | error failure =>
        rw [Job.save_eq_error htags] at hperform
        have hfree : failure.isOnDisk = false := hdisk failure (by simp [failure?, hperform])
        rcases attempt_eq_ok hattempt with ⟨hok, -⟩ | ⟨_, _, report, hfails, hreport, -, -⟩
        · cases hperform.symm.trans hok
        · cases hperform.symm.trans hfails
          rw [Handle.isOnDisk_of_toSave htags (Failure.reach_of_report? hreport)] at hfree
          cases hfree
  · have hperform : step.perform options.real bench = .error failure (bench.drafted tags news) := by
      rw [perform_eq_draft hreal, Job.bind_of_error (hdrafts bench rfl)]
    have hperform' : step.perform options.dry bench' =
        .error failure (bench'.drafted tags news) := by
      rw [perform_eq_draft hdry, Job.bind_of_error (hdrafts bench' hhandle)]
    rcases attempt_eq_ok hattempt with ⟨hok, -⟩ | ⟨_, _, report, hfails, hreport, rfl, rfl⟩
    · cases hperform.symm.trans hok
    · cases hperform.symm.trans hfails
      exact ⟨_, attempt_of_report hperform' (hsame ▸ hreport), hsame⟩

theorem failures_cons_of_ok (hattempt : step.attempt options bench = .ok fine after)
    (steps : List Step) : failures options (step :: steps) bench =
      (step.failure? options bench).toList ++ failures options steps after := by
  simp only [failures, hattempt]

theorem failures_append {steps : List Step}
    (hattempt : attemptAll options steps bench = .ok fine after) (others : List Step) :
    failures options (steps ++ others) bench =
      failures options steps bench ++ failures options others after := by
  induction steps generalizing bench fine with
  | nil =>
      cases hattempt
      rfl
  | cons step steps ih =>
      obtain ⟨first, middle, last, hfirst, hlast, -⟩ := attemptAll_cons_eq_ok hattempt
      rw [List.cons_append, failures_cons_of_ok hfirst, failures_cons_of_ok hfirst, ih hlast,
        List.append_assoc]

theorem rehearse_attemptAll {steps : List Step} (hsteps : ∀ step ∈ steps, step ∈ options.writing)
    (hhandle : bench'.handle = bench.handle)
    (hattempt : attemptAll options.real steps bench = .ok fine after)
    (hdisk : ∀ failure ∈ failures options.real steps bench, failure.isOnDisk = false) :
    ∃ after', attemptAll options.dry steps bench' = .ok fine after' ∧
      after'.handle = after.handle := by
  induction steps generalizing bench bench' fine with
  | nil =>
      cases hattempt
      exact ⟨bench', rfl, hhandle⟩
  | cons step steps ih =>
      obtain ⟨first, middle, last, hfirst, hlast, rfl⟩ := attemptAll_cons_eq_ok hattempt
      rw [failures_cons_of_ok hfirst, List.forall_mem_append] at hdisk
      obtain ⟨middle', hfirst', hmiddle⟩ :=
        rehearse_attempt (hsteps step List.mem_cons_self) hhandle
        hfirst fun failure hfailure => hdisk.1 failure (Option.mem_toList.mpr hfailure)
      obtain ⟨after', hlast', hafter⟩ := ih (fun other hother => hsteps other
        (List.mem_cons_of_mem step hother)) hmiddle hlast hdisk.2
      exact ⟨after', attemptAll_cons_of_ok hfirst' hlast', hafter⟩

theorem rehearse_rename {spec : Spec} (hhandle : bench'.handle = bench.handle)
    (hexists : ∀ path, bench'.tree.pathExists path = bench.tree.pathExists path)
    (hrenames : bench'.renames = bench.renames)
    (hattempt : attempt options.real (.rename spec) bench = .ok fine after)
    (hdisk : ∀ failure ∈ failure? options.real (.rename spec) bench, failure.isOnDisk = false) :
    ∃ after', attempt options.dry (.rename spec) bench' = .ok fine after' ∧
      after'.renames = after.renames ∧ ∃ news news', after.events = bench.events ++ news ∧
        after'.events = bench'.events ++ news' ∧
        news'.filterMap Event.announced? = news.filterMap Event.performed? := by
  have hfails : ∀ failure, perform options.real (.rename spec) bench = .error failure bench →
      failure.isOnDisk = false ∧ ∃ report, failure.report? bench.handle.path = some report ∧
        fine = false ∧ after = bench.record (.failed bench.handle.path report) := by
    intro failure hperform
    refine ⟨hdisk failure (by simp [failure?, hperform]), ?_⟩
    rcases attempt_eq_ok hattempt with ⟨hok, -⟩ | ⟨_, _, report, hfails, hreport, hfine, hafter⟩
    · cases hperform.symm.trans hok
    · cases hperform.symm.trans hfails
      exact ⟨report, hreport, hfine, hafter⟩
  rcases spec.newName_cases (some options.hazard) bench.handle bench.handle.path with
    ⟨-, name, hname⟩ | ⟨-, failure, hunnamed, hends⟩
  · have hperform : perform options.real (.rename spec) bench = Job.rename name false bench :=
      perform_rename_of_ok hname
    have hperform' : perform options.dry (.rename spec) bench' = Job.rename name true bench' := by
      apply perform_rename_of_ok
      rw [hhandle]
      exact hname
    rcases Tree.renameFile_rehearsed bench.handle.path name hexists with ⟨hreal, hdry⟩ |
      ⟨failure, hreal, hdry⟩ | ⟨file, location, hfile, hvacant, hreal, hdry⟩ |
      ⟨failure, hreal, htrouble⟩
    · rw [← hhandle] at hdry
      rw [Job.rename_eq hreal, if_pos rfl] at hperform
      rw [Job.rename_eq hdry, if_pos rfl] at hperform'
      rw [attempt_of_ok hperform] at hattempt
      cases hattempt
      exact ⟨_, attempt_of_ok hperform', hrenames, _, _, rfl, rfl, rfl⟩
    · rw [← hhandle] at hdry
      rw [Job.rename_of_error hreal] at hperform
      rw [Job.rename_of_error hdry] at hperform'
      obtain ⟨-, report, hreport, rfl, rfl⟩ := hfails failure hperform
      exact ⟨_, attempt_of_report hperform' (hhandle ▸ hreport), hrenames, _, _, rfl, rfl, rfl⟩
    · rw [← hhandle] at hdry
      have hne := Tree.ne_of_vacant? hfile hvacant
      rw [Job.rename_eq hreal, if_neg hne] at hperform
      rw [Job.rename_eq hdry, if_neg (hhandle ▸ hne)] at hperform'
      rw [attempt_of_ok hperform] at hattempt
      cases hattempt
      refine ⟨_, attempt_of_ok hperform', congrArg (· + 1) hrenames, _, _, rfl, rfl, ?_⟩
      rw [hhandle]
      rfl
    · rw [Job.rename_of_error hreal] at hperform
      obtain ⟨hfree, report, hreport, -⟩ := hfails failure hperform
      rcases htrouble with hdisk' | hrun
      · rw [hdisk'] at hfree
        cases hfree
      · exact absurd hrun (Failure.reach_of_report? hreport)
  · obtain ⟨-, report, hreport, -⟩ := hfails failure (perform_rename_of_error hunnamed)
    exact absurd hends.reach (Failure.reach_of_report? hreport)

theorem filterMap_of_stays {bench after : Workbench} (h : bench.Stays after) :
    ∃ news, after.events = bench.events ++ news ∧ news.filterMap Event.announced? = [] ∧
      news.filterMap Event.performed? = [] := by
  obtain ⟨news, hnews, hstill⟩ := h.news
  refine ⟨news, hnews, ?_, ?_⟩
  · rw [List.filterMap_eq_nil_iff]
    intro event hevent
    have hnone := hstill event hevent
    cases event <;> first | rfl | cases hnone
  · rw [List.filterMap_eq_nil_iff]
    intro event hevent
    have hnone := hstill event hevent
    cases event <;> first | rfl | cases hnone

theorem rehearse_steps (hhandle : bench'.handle = bench.handle) (htree : bench'.tree = bench.tree)
    (hrenames : bench'.renames = bench.renames)
    (hattempt : attemptAll options.real options.real.steps bench = .ok fine after)
    (hdisk : ∀ failure ∈ failures options.real options.real.steps bench,
      failure.isOnDisk = false) :
    ∃ after', attemptAll options.dry options.dry.steps bench' = .ok fine after' ∧
      after'.renames = after.renames ∧ ∃ news news', after.events = bench.events ++ news ∧
        after'.events = bench'.events ++ news' ∧
        news'.filterMap Event.announced? = news.filterMap Event.performed? := by
  rw [Options.steps_eq] at hattempt hdisk
  obtain ⟨first, middle, last, hwriting, hlast, rfl⟩ := attemptAll_append_eq_ok hattempt
  rw [failures_append hwriting, List.forall_mem_append] at hdisk
  obtain ⟨middle', hwriting', hmiddle⟩ :
      ∃ middle', attemptAll options.dry options.dry.writing bench' = .ok first middle' ∧
        middle'.handle = middle.handle :=
    rehearse_attemptAll (fun _ => id) hhandle hwriting hdisk.1
  have hstays := stays_writing options.real bench
  have hworked := options.real.onTags_writing bench
  rw [leftBy_of_ok hwriting] at hstays hworked
  have hstays' := stays_writing options.dry bench'
  have hspares : bench'.Spares (leftBy (attemptAll options.dry options.dry.writing) bench') :=
    spares_attemptAll rfl (fun _ hstep => List.mem_append_left _ hstep) bench'
  rw [leftBy_of_ok hwriting'] at hstays' hspares
  -- the dry run has the old tags in its tree, but the renaming looks at the names alone
  have hexists : ∀ path, middle'.tree.pathExists path = middle.tree.pathExists path := by
    intro path
    rw [hspares.tree, htree]
    rcases hworked.tree with hsame | ⟨-, tags, hstored⟩
    · rw [hsame]
    · rw [hstored, Tree.pathExists_store]
  have hbefore : middle'.renames = middle.renames := by
    rw [hstays'.renames, hstays.renames, hrenames]
  obtain ⟨news, hnews, -, hperformed⟩ := filterMap_of_stays hstays
  obtain ⟨news', hnews', hannounced, -⟩ := filterMap_of_stays hstays'
  rcases Options.specStep_cases Step.rename options.rename with hnone | ⟨spec, hspec, -⟩
  · have hrest : Options.specStep Step.rename options.real.rename = [] := hnone
    have hrest' : Options.specStep Step.rename options.dry.rename = [] := hnone
    rw [hrest] at hlast
    cases hlast
    refine ⟨middle', ?_, hbefore, news, news', hnews, hnews', hannounced.trans hperformed.symm⟩
    rw [Options.steps_eq, hrest']
    exact attemptAll_append hwriting' rfl
  · have hrest : Options.specStep Step.rename options.real.rename = [.rename spec] := hspec
    have hrest' : Options.specStep Step.rename options.dry.rename = [.rename spec] := hspec
    rw [hrest] at hlast hdisk
    obtain ⟨fine, later, rest, hrename, hnil, rfl⟩ := attemptAll_cons_eq_ok hlast
    cases hnil
    rw [failures_cons_of_ok hrename] at hdisk
    obtain ⟨after', hrename', hafter, others, others', hothers, hothers', hsame⟩ :=
      rehearse_rename hmiddle hexists hbefore hrename fun failure hfailure =>
        hdisk.2 failure (List.mem_append_left _ (Option.mem_toList.mpr hfailure))
    refine ⟨after', ?_, hafter, news ++ others, news' ++ others', ?_, ?_, ?_⟩
    · rw [Options.steps_eq, hrest', Bool.and_true]
      exact attemptAll_append hwriting' (attemptAll_single hrename')
    · rw [hothers, hnews, List.append_assoc]
    · rw [hothers', hnews', List.append_assoc]
    · rw [List.filterMap_append, List.filterMap_append, hannounced, hperformed, hsame]

end Step

/-- Whether a dry visit comes to the same as a real one and announces the name that it gives. -/
structure Visit.Rehearses (dry real : Visit) : Prop where
  outcome : dry.outcome = real.outcome
  opened : dry.opened = real.opened
  renames : dry.renames = real.renames
  naming : dry.events.filterMap Event.announced? = real.events.filterMap Event.performed?

theorem Options.rehearse_visit {options : Options} {tree : Tree} {path : String} {fine : Bool}
    (h : (options.real.visit tree path).outcome = .ok fine)
    (hdisk : ∀ failure ∈ options.real.failures tree path, failure.isOnDisk = false) :
    (options.dry.visit tree path).Rehearses (options.real.visit tree path) := by
  unfold failures at hdisk
  unfold visit at h ⊢
  cases hopen : Handle.openAt tree path with
  | error failure =>
      simp only [Visit.ofRefusal]
      split
      · exact ⟨rfl, rfl, rfl, rfl⟩
      · exact ⟨rfl, rfl, rfl, rfl⟩
  | ok found =>
      obtain ⟨handle, opened⟩ := found
      obtain ⟨file, format, -, -, -, rfl, -⟩ := Handle.openAt_eq_ok hopen
      have hediting : options.dry.isEditing = options.real.isEditing := rfl
      simp only [hopen] at h hdisk ⊢
      rw [hediting]
      split at h
      · rename_i hreal
        rw [if_pos hreal] at hdisk
        rw [if_pos hreal, if_pos hreal]
        cases hattempt : Step.attemptAll options.real options.real.steps
            (Workbench.start tree handle (.opened path format)) with
        | error failure after =>
            rw [hattempt] at h
            cases h
        | ok verdict after =>
            obtain ⟨after', hattempt', hrenames, news, news', hnews, hnews', hsame⟩ :=
              Step.rehearse_steps rfl rfl rfl hattempt hdisk
            rw [hattempt']
            refine ⟨rfl, rfl, hrenames, ?_⟩
            simp only [Visit.ofWork, hnews, hnews']
            exact hsame
      · rename_i hlisting
        rw [if_neg hlisting, if_neg hlisting]
        exact ⟨rfl, rfl, rfl, rfl⟩

theorem Event.filterMap_performed (events : List Event) :
    events.filterMap performed? = (events.filter isRenamed).filterMap performed? := by
  rw [List.filterMap_filter]
  congr 1
  funext event
  cases event <;> rfl

theorem Tally.add_of_rehearses {dry real : Visit} (h : dry.Rehearses real) (hsaves : dry.saves = 0)
    (tally : Tally) : tally.add dry = { tally.add real with saved := tally.saved } := by
  simp only [add, h.outcome, h.opened, h.renames, hsaves, Nat.add_zero]

namespace Session

theorem run_single (options : Options) {path : String} {session : Session}
    (h : session.tree.directory? path = none) : run options [path] session =
      match (options.visit session.tree path).outcome with
      | .ok fine => .ok fine ((session.add (options.visit session.tree path)).record
          (closing options (session.tally.add (options.visit session.tree path))))
      | .error failure => .error failure (session.add (options.visit session.tree path)) := by
  have hexpand : session.tree.expand options.recursive [path] = [path] := by
    simp [Tree.expand, Tree.expandInput, h]
  have hsearch : session.tree.searchEvents options.recursive [path] = [] := by
    simp [Tree.searchEvents, Tree.searchEvent?, h]
  have hbegun : session.record [] = session := by simp [record]
  rw [run_eq, hexpand, hsearch, hbegun, visitAll_cons_eq]
  cases (options.visit session.tree path).outcome with
  | error failure => rfl
  | ok fine => cases fine <;> rfl

theorem filterMap_closing (options : Options) (tally : Tally) :
    (closing options tally).filterMap Event.announced? = [] ∧
      (closing options tally).filterMap Event.performed? = [] := by
  unfold closing
  constructor
  · split <;> split <;> rfl
  · split <;> split <;> rfl

/-- Dry runs are harmless and faithful. Whatever dry batches do, also if they raise, the files and
the count of saves stay as they are. And where the real run of a batch on one path comes to its end
without trouble from the disk, the dry run has the same verdict and the same counts but that of the
saves, and announces the one renaming that the real run makes, or none. -/
theorem dry_run_rehearses (session : Session) :
    (∀ batches : List (Options × List String), (∀ batch ∈ batches, batch.1.dryRun = true) →
      (session.runAll batches).tree = session.tree ∧
        (session.runAll batches).tally.saved = session.tally.saved) ∧
    ∀ options path fine after, session.tree.directory? path = none →
      run (Options.real options) [path] session = .ok fine after →
      (∀ failure ∈ options.real.failures session.tree path, failure.isOnDisk = false) →
      ∃ after' given news news', run options.dry [path] session = .ok fine after' ∧
        after'.tally = { after.tally with saved := session.tally.saved } ∧
        after.events = session.events ++ news ∧ after'.events = session.events ++ news' ∧
        news.filterMap Event.performed? = Option.toList given ∧
        news'.filterMap Event.announced? = Option.toList given ∧
        (given = none → after.tree.places = session.tree.places) ∧
        ∀ old new, given = some (old, new) →
          old = Path.name path ∧ session.tree.Moves path new after.tree := by
  refine ⟨fun batches hdry => spares_runAll hdry session, ?_⟩
  intro options path fine after hplain hrun hdisk
  rw [run_single options.real hplain] at hrun
  cases houtcome : (options.real.visit session.tree path).outcome with
  | error failure =>
      rw [houtcome] at hrun
      cases hrun
  | ok verdict =>
      rw [houtcome] at hrun
      cases hrun
      have hrehearses := Options.rehearse_visit houtcome hdisk
      have hspares : (options.dry.visit session.tree path).saves = 0 :=
        (Options.visit_spares rfl session.tree path).2
      let real := options.real.visit session.tree path
      let dry := options.dry.visit session.tree path
      let after' := (session.add dry).record (closing options.dry (session.tally.add dry))
      have hrun' : run options.dry [path] session = .ok fine after' := by
        rw [run_single options.dry hplain, hrehearses.outcome, houtcome]
      have hnamed : (real.events ++ closing options.real (session.tally.add real)).filterMap
          Event.performed? = (real.events.filter Event.isRenamed).filterMap Event.performed? := by
        rw [List.filterMap_append, (filterMap_closing _ _).2, List.append_nil,
          Event.filterMap_performed]
      have hsame : (dry.events ++ closing options.dry (session.tally.add dry)).filterMap
          Event.announced? =
            (real.events ++ closing options.real (session.tally.add real)).filterMap
            Event.performed? := by
        rw [List.filterMap_append, List.filterMap_append, (filterMap_closing _ _).1,
          (filterMap_closing _ _).2, hrehearses.naming]
      have hcounts : after'.tally = { session.tally.add real with saved := session.tally.saved } :=
        Tally.add_of_rehearses hrehearses hspares session.tally
      rcases (Options.visit_tells houtcome).moves rfl with ⟨hnone, hplaces⟩ |
        ⟨name, hone, hmoves⟩
      · rw [hnone] at hnamed
        exact ⟨after', none, _, _, hrun', hcounts, List.append_assoc _ _ _, List.append_assoc _ _ _,
          hnamed, hsame.trans hnamed, fun _ => hplaces, nofun⟩
      · rw [hone] at hnamed
        refine ⟨after', some (Path.name path, name), _, _, hrun', hcounts, List.append_assoc _ _ _,
          List.append_assoc _ _ _, hnamed, hsame.trans hnamed, nofun, ?_⟩
        rintro old new ⟨rfl, rfl⟩
        exact ⟨rfl, hmoves⟩

theorem dry_run_rehearses_title :
    let tree : Tree := ⟨[], [⟨["a.ogg"], some .oggVorbis, none, ⟨none, none, none⟩⟩,
      ⟨["b.m4a"], some .mp4, some (.atoms []), ⟨none, none, none⟩⟩]⟩
    let session := start tree
    let options (edit : Edit) : Options := ⟨[edit], none,
      some ⟨"%T", [.placeholder ⟨.title, none, .preserve⟩]⟩, .shell, true, false⟩
    let title := options (.assign .title (.text "New"))
    let track := options (.assign .track (.number 70000))
    (session.runAll [(track, ["b.m4a"]), (title, ["b.m4a", "a.ogg"])]).tree = tree ∧
      resultOf (run track ["b.m4a"]) session = none ∧
      (leftBy (run title.real ["a.ogg"]) session).tally = ⟨1, 1, 1, 0⟩ ∧
      (leftBy (run title.real ["a.ogg"]) session).events.filterMap Event.performed? =
        [("a.ogg", "New.ogg")] ∧
      (leftBy (run title.dry ["a.ogg"]) session).events.filterMap Event.announced? =
        [("a.ogg", "New.ogg")] ∧
      ∃ after, run title.dry ["a.ogg"] session = .ok true after ∧ after.tally = ⟨1, 0, 1, 0⟩ := by
  intro tree session options title track
  obtain ⟨hspares, hrehearses⟩ := dry_run_rehearses session
  have hdry : ∀ batch ∈ [(track, ["b.m4a"]), (title, ["b.m4a", "a.ogg"])],
      batch.1.dryRun = true := by decide +kernel
  have hreal : run title.real ["a.ogg"] session =
      .ok true (leftBy (run title.real ["a.ogg"]) session) := eq_ok_of_resultOf (by decide +kernel)
  have hdisk : ∀ failure ∈ title.real.failures session.tree "a.ogg", failure.isOnDisk = false := by
    decide +kernel
  obtain ⟨after, given, news, news', hrun, htally, -⟩ :=
    hrehearses title "a.ogg" true _ (by decide +kernel) hreal hdisk
  refine ⟨(hspares _ hdry).1, by decide +kernel, by decide +kernel, by decide +kernel,
    by decide +kernel, after, hrun, ?_⟩
  rw [htally]
  decide +kernel

end Session

end LinerNotes
