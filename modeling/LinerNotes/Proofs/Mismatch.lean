import LinerNotes.Proofs.Counting

/-!
Names that do not fit. The extraction from such a name is reported and writes nothing, and the other
steps do what they would do without it, since no step depends on what has been told before it. A
spec without tokens is as good as none, so no name is reported for it.
-/

namespace LinerNotes

/-- The workbench with news told before its own. -/
def Workbench.prefaced (news : List Event) (bench : Workbench) : Workbench :=
  { bench with events := news ++ bench.events }

theorem Workbench.prefaced_record (news : List Event) (bench : Workbench) (event : Event) :
    (bench.prefaced news).record event = (bench.record event).prefaced news := by
  simp only [prefaced, record, List.append_assoc]

namespace Job

variable {α β : Type}

/-- A result with news told before those of the work. -/
def prefaced (news : List Event) :
    EStateM.Result Failure Workbench α → EStateM.Result Failure Workbench α
  | .ok a bench => .ok a (bench.prefaced news)
  | .error failure bench => .error failure (bench.prefaced news)

/-- Whether work does the same whatever has been told before it. -/
def Forgets (work : Job α) : Prop :=
  ∀ news bench, work (bench.prefaced news) = prefaced news (work bench)

theorem Forgets.bind {work : Job α} {next : α → Job β} (h : work.Forgets)
    (hnext : ∀ a, (next a).Forgets) : Forgets (work >>= next) := by
  intro news bench
  have hprefaced := h news bench
  cases hwork : work bench with
  | ok a middle =>
      rw [hwork] at hprefaced
      rw [bind_of_ok hprefaced, bind_of_ok hwork]
      exact hnext a news middle
  | error failure middle =>
      rw [hwork] at hprefaced
      rw [bind_of_error hprefaced, bind_of_error hwork]
      rfl

theorem forgets_handle {next : Handle → Job α} (h : ∀ handle, (next handle).Forgets) :
    Forgets (get >>= fun bench => next bench.handle) :=
  fun news bench => h bench.handle news bench

theorem forgets_pure (a : α) : Forgets (pure a) :=
  fun _ _ => rfl

theorem forgets_throw (failure : Failure) : Forgets (throw failure : Job α) :=
  fun _ _ => rfl

theorem forgets_log (event : Event) : Forgets (log event) := by
  intro news bench
  change EStateM.Result.ok () ((bench.prefaced news).record event) = _
  rw [bench.prefaced_record]
  rfl

theorem forgets_ofExcept (result : Except Failure α) : Forgets (ofExcept result) := by
  cases result with
  | ok a => exact forgets_pure a
  | error failure => exact forgets_throw failure

theorem forgets_onHandle (work : EStateM Failure Handle α) : Forgets (onHandle work) := by
  intro news bench
  have hhandle : (bench.prefaced news).handle = bench.handle := rfl
  simp only [onHandle, hhandle]
  cases work bench.handle <;> rfl

theorem forgets_writeAll (entries : List (Field × Value)) : Forgets (writeAll entries) := by
  induction entries with
  | nil => exact forgets_pure ()
  | cons entry entries ih =>
      rw [writeAll_cons]
      exact ((forgets_onHandle _).bind forgets_log).bind fun _ => ih

theorem forgets_extract (spec : Spec) (name : String) : Forgets (extract spec name) := by
  refine (forgets_ofExcept _).bind fun entries? => ?_
  cases entries? with
  | some entries => exact (forgets_writeAll entries).bind fun _ => forgets_pure true
  | none => exact (forgets_log _).bind fun _ => forgets_pure false

theorem forgets_announce (edits : List Edit) (path : String) : Forgets (announce edits path) :=
  (forgets_ofExcept _).bind fun _ => forgets_log _

theorem forgets_save : Forgets save := by
  intro news bench
  cases htags : bench.handle.toSave with
  | ok tags =>
      have htags' : (bench.prefaced news).handle.toSave = .ok tags := htags
      rw [save_eq htags, save_eq htags']
      simp only [prefaced, Workbench.prefaced, List.append_assoc]
  | error failure =>
      have htags' : (bench.prefaced news).handle.toSave = .error failure := htags
      rw [save_eq_error htags, save_eq_error htags']
      rfl

theorem forgets_rename (name : String) (dryRun : Bool) : Forgets (rename name dryRun) := by
  intro news bench
  cases hrenamed : bench.tree.renameFile bench.handle.path name dryRun with
  | ok renamed =>
      have hrenamed' : (bench.prefaced news).tree.renameFile (bench.prefaced news).handle.path name
          dryRun = .ok renamed := hrenamed
      rw [rename_eq hrenamed, rename_eq hrenamed']
      simp only [prefaced, Workbench.prefaced, List.append_assoc]
      rfl
  | error failure =>
      have hrenamed' : (bench.prefaced news).tree.renameFile (bench.prefaced news).handle.path name
          dryRun = .error failure := hrenamed
      rw [rename_of_error hrenamed, rename_of_error hrenamed']
      rfl

end Job

namespace Step

variable (options : Options)

theorem forgets_saveUnlessDry (dryRun : Bool) : (saveUnlessDry dryRun).Forgets := by
  unfold saveUnlessDry
  split
  · exact Job.forgets_handle fun handle => Job.forgets_log (.wouldSave handle.path)
  · exact Job.forgets_save

theorem forgets_perform (step : Step) : (step.perform options).Forgets := by
  cases step with
  | extract spec =>
      have hnext : ∀ handle : Handle, Job.Forgets (do
          if ← Job.extract spec (Path.stem handle.path) then saveUnlessDry options.dryRun
          else throw (.mismatch handle.path spec.source)) := by
        intro handle
        refine (Job.forgets_extract spec _).bind fun fits => ?_
        cases fits with
        | true => exact forgets_saveUnlessDry options.dryRun
        | false => exact Job.forgets_throw _
      exact Job.forgets_handle hnext
  | edit edits =>
      have hnext : ∀ handle : Handle, Job.Forgets (do
          Job.announce edits handle.path
          Job.edit edits
          saveUnlessDry options.dryRun) := fun handle =>
        (Job.forgets_announce edits _).bind fun _ => (Job.forgets_writeAll _).bind fun _ =>
          forgets_saveUnlessDry options.dryRun
      exact Job.forgets_handle hnext
  | rename spec =>
      refine Job.Forgets.bind ?_ fun name => Job.forgets_rename name options.dryRun
      exact Job.forgets_handle fun handle =>
        Job.forgets_ofExcept (spec.newName (some options.hazard) handle.read handle.path)

theorem forgets_attempt (step : Step) : (step.attempt options).Forgets := by
  intro news bench
  have hperform := forgets_perform options step news bench
  unfold attempt
  rw [hperform]
  cases step.perform options bench with
  | ok _ after => rfl
  | error failure after =>
      simp only [Job.prefaced]
      have hpath : (after.prefaced news).handle.path = after.handle.path := rfl
      rw [hpath]
      cases failure.report? after.handle.path with
      | none => rfl
      | some report => exact congrArg _ (after.prefaced_record news _)

theorem forgets_attemptAll (steps : List Step) : (attemptAll options steps).Forgets := by
  induction steps with
  | nil => exact Job.forgets_pure true
  | cons step steps ih =>
      exact (forgets_attempt options step).bind fun _ => ih.bind fun _ => Job.forgets_pure _

end Step

namespace Options

/-- The options without the extraction. -/
def unextracted (options : Options) : Options :=
  { options with extract := none }

variable {options : Options} {spec : Spec}

theorem steps_of_spec (hspec : options.extract = some spec) (hempty : spec.isEmpty = false) :
    options.steps = .extract spec :: options.unextracted.steps := by
  simp [steps, hspec, specStep, hempty, unextracted]

theorem steps_of_empty (hspec : options.extract = some spec) (hempty : spec.isEmpty = true) :
    options.steps = options.unextracted.steps := by
  simp [steps, hspec, specStep, hempty, unextracted]

theorem attemptAll_unextracted (options : Options) (steps : List Step) :
    Step.attemptAll options.unextracted steps = Step.attemptAll options steps := by
  have hperform : ∀ step : Step, step.perform options.unextracted = step.perform options := by
    intro step
    cases step <;> rfl
  have hattempt : ∀ step : Step, step.attempt options.unextracted = step.attempt options := by
    intro step
    funext bench
    simp only [Step.attempt, hperform]
  induction steps with
  | nil => rfl
  | cons step steps ih => simp only [Step.attemptAll, hattempt, ih]

theorem visit_of_empty (hspec : options.extract = some spec) (hempty : spec.isEmpty = true)
    (tree : Tree) (path : String) :
    options.visit tree path = options.unextracted.visit tree path := by
  have hsteps := steps_of_empty hspec hempty
  unfold visit
  simp only [isEditing, hsteps, attemptAll_unextracted]

/-- What is told about a name that does not fit. -/
def mismatchEvents (path : String) (spec : Spec) : List Event :=
  [.noMatch (Path.stem path) spec.source, .failed path (Failure.mismatch path spec.source).message]

theorem visit_of_mismatch_eq (hspec : options.extract = some spec) (hempty : spec.isEmpty = false)
    {tree : Tree} {handle : Handle} {opened : Event}
    (hopen : Handle.openAt tree handle.path = .ok (handle, opened))
    (hmismatch : spec.extract (Path.stem handle.path) = .ok none) :
    let rest := options.unextracted.visit tree handle.path
    options.visit tree handle.path = { rest with
      events := opened :: mismatchEvents handle.path spec ++ rest.events.tail
      printed := []
      outcome := if options.unextracted.isEditing then rest.outcome.map fun _ => false
        else .ok false } := by
  intro rest
  have hsteps := steps_of_spec hspec hempty
  let base : Workbench := ⟨tree, handle, [], 0, 0⟩
  let news := opened :: mismatchEvents handle.path spec
  have hattempt : Step.attempt options (.extract spec) (Workbench.start tree handle opened) =
      .ok false (base.prefaced news) := by
    have hmismatch' : spec.extract (Path.stem (Workbench.start tree handle opened).handle.path) =
        .ok none := hmismatch
    rw [Step.attempt_of_report (Step.perform_extract_of_mismatch hmismatch') rfl]
    rfl
  have hvisit : options.visit tree handle.path = Visit.ofWork
      ((Step.attemptAll options options.unextracted.steps >>= fun others => pure (false && others))
        (base.prefaced news)) := by
    simp only [visit, hopen, isEditing, hsteps, List.isEmpty_cons, Bool.not_false, if_true]
    rw [Step.attemptAll, Job.bind_of_ok hattempt]
  -- the other steps do the same after the report as they would right after the opening
  have hafter := Step.forgets_attemptAll options options.unextracted.steps news base
  have hwithout := Step.forgets_attemptAll options options.unextracted.steps [opened] base
  cases hediting : options.unextracted.isEditing with
  | false =>
      have hnone : options.unextracted.steps = [] := by simpa [isEditing] using hediting
      have hrest : rest = Visit.ofListing tree handle opened := by
        simp [rest, visit, hopen, hediting]
      rw [hvisit, hrest, hnone]
      rfl
  | true =>
      have hrest : rest = Visit.ofWork (Step.attemptAll options options.unextracted.steps
          (base.prefaced [opened])) := by
        simp only [rest, visit, hopen, hediting, if_true, attemptAll_unextracted]
        rfl
      rw [hvisit, hrest]
      cases hwork : Step.attemptAll options options.unextracted.steps base with
      | ok fine after =>
          rw [hwork] at hafter hwithout
          rw [Job.bind_of_ok hafter, hwithout]
          rfl
      | error failure after =>
          rw [hwork] at hafter hwithout
          rw [Job.bind_of_error hafter, hwithout]
          rfl

/-- A file whose name does not fit is reported, and comes out of the visit as it would without the
extraction but for a bad verdict: after the report the same is saved, renamed and told. That holds
of every spec with tokens. One without tokens fits no name either, and yet the visit is as if there
were none. -/
theorem visit_of_mismatch (hspec : options.extract = some spec) {tree : Tree} {path : String}
    {handle : Handle} {opened : Event} (hopen : Handle.openAt tree path = .ok (handle, opened))
    (hmismatch : spec.extract (Path.stem path) = .ok none) :
    let visit := options.visit tree path
    let rest := options.unextracted.visit tree path
    (spec.isEmpty = false →
      visit = { rest with
        events := opened :: mismatchEvents path spec ++ rest.events.tail
        printed := []
        outcome := if options.unextracted.isEditing then rest.outcome.map fun _ => false
          else .ok false } ∧
      (∃ event ∈ visit.events, event.level = .error ∧
        event.message = (Failure.mismatch path spec.source).message) ∧
      visit.outcome ≠ .ok true) ∧
    (spec.isEmpty = true → visit = rest) := by
  intro visit rest
  refine ⟨fun hempty => ?_, fun hempty => visit_of_empty hspec hempty tree path⟩
  obtain ⟨file, format, -, -, -, -, hhandle⟩ := Handle.openAt_eq_ok hopen
  obtain rfl : handle.path = path := by rw [hhandle]
  have hvisit := visit_of_mismatch_eq hspec hempty hopen hmismatch
  refine ⟨hvisit,
    ⟨.failed handle.path (Failure.mismatch handle.path spec.source).message, ?_, rfl, rfl⟩, ?_⟩
  · simp only [visit, hvisit]
    exact List.mem_append_left _
      (List.mem_cons_of_mem opened (List.mem_cons_of_mem _ (List.mem_singleton_self _)))
  · simp only [visit, hvisit]
    split
    · cases (options.unextracted.visit tree handle.path).outcome <;> simp [Except.map]
    · simp

/-- The name "a" fits neither a spec with two fields nor the empty one. The first is reported,
beside the genre that is set; of the second nothing is said, and the visit goes well. -/
theorem visit_of_mismatch_genre :
    let file : File := ⟨["a.ogg"], some .oggVorbis, none, ⟨none, none, none⟩⟩
    let tree : Tree := ⟨[], [file]⟩
    let spec : Spec := ⟨"%n %t", [.placeholder ⟨.track, none, .preserve⟩, .literal [' '],
      .placeholder ⟨.title, none, .preserve⟩]⟩
    let options : Options :=
      ⟨[.assign .genre (.text "Folk")], some spec, none, .shell, false, false⟩
    let degenerate : Options := { options with extract := some ⟨"", []⟩ }
    spec.extract (Path.stem "a.ogg") = .ok none ∧
      (Spec.mk "" []).extract (Path.stem "a.ogg") = .ok none ∧
      (options.visit tree "a.ogg").outcome = .ok false ∧
      (∃ event ∈ (options.visit tree "a.ogg").events, event.level = .error ∧
        event.message = "Filename does not match '%n %t': a.ogg") ∧
      (degenerate.visit tree "a.ogg").outcome = .ok true ∧
      ∀ event ∈ (degenerate.visit tree "a.ogg").events, event.level ≠ .error := by
  intro file tree spec options degenerate
  let handle : Handle := ⟨"a.ogg", ["a.ogg"], some ⟨.oggVorbis, none, file.faults⟩⟩
  have hopen : Handle.openAt tree "a.ogg" = .ok (handle, .opened "a.ogg" .oggVorbis) := by
    decide +kernel
  have hmismatch : spec.extract (Path.stem "a.ogg") = .ok none := by decide +kernel
  have hmismatch' : (Spec.mk "" []).extract (Path.stem "a.ogg") = .ok none := by decide +kernel
  have hspec : options.extract = some spec := rfl
  have hspec' : degenerate.extract = some ⟨"", []⟩ := rfl
  obtain ⟨hvisit, hreport, -⟩ := (visit_of_mismatch hspec hopen hmismatch).1 (by decide)
  have hsilent := (visit_of_mismatch hspec' hopen hmismatch').2 rfl
  have hmessage : (Failure.mismatch "a.ogg" spec.source).message =
      "Filename does not match '%n %t': a.ogg" := by decide +kernel
  rw [hmessage] at hreport
  refine ⟨hmismatch, hmismatch', ?_, hreport, ?_, ?_⟩
  · rw [hvisit]
    decide +kernel
  · rw [hsilent]
    decide +kernel
  · rw [hsilent]
    decide +kernel

end Options

end LinerNotes
