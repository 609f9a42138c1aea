import LinerNotes.Proofs.Visiting

/-!
What a visit can do to the tree, whether it goes well or fails. Up to the renaming nothing but the
tags of the opened file changes, in memory and where the file is stored; the renaming comes last.
-/

namespace LinerNotes

/-- The state after a piece of work that went well or failed. -/
def leftBy {σ α : Type} (work : EStateM Failure σ α) (state : σ) : σ :=
  match work state with
  | .ok _ after => after
  | .error _ after => after

theorem leftBy_of_ok {σ α : Type} {work : EStateM Failure σ α} {state after : σ} {a : α}
    (h : work state = .ok a after) : leftBy work state = after := by
  simp only [leftBy, h]

theorem leftBy_of_error {σ α : Type} {work : EStateM Failure σ α} {state after : σ}
    {failure : Failure} (h : work state = .error failure after) : leftBy work state = after := by
  simp only [leftBy, h]

/-- The result of a piece of work, unless it fails. -/
def resultOf {σ α : Type} (work : EStateM Failure σ α) (state : σ) : Option α :=
  match work state with
  | .ok a _ => some a
  | .error _ _ => none

theorem eq_ok_of_resultOf {σ α : Type} {work : EStateM Failure σ α} {state : σ} {a : α}
    (h : resultOf work state = some a) : work state = .ok a (leftBy work state) := by
  unfold resultOf at h
  unfold leftBy
  cases hwork : work state with
  | ok b after =>
      rw [hwork] at h
      cases h
      rfl
  | error failure after =>
      rw [hwork] at h
      cases h

theorem leftBy_bind {σ α β : Type} (work : EStateM Failure σ α) (next : α → EStateM Failure σ β)
    (state : σ) : leftBy (work >>= next) state =
      match work state with
      | .ok a after => leftBy (next a) after
      | .error _ after => after := by
  simp only [leftBy, bind, EStateM.bind]
  cases work state <;> rfl

theorem leftBy_map {σ α β : Type} (work : EStateM Failure σ α) (f : α → β) (state : σ) :
    leftBy (work >>= fun a => pure (f a)) state = leftBy work state := by
  rw [leftBy_bind, leftBy]
  cases work state <;> rfl

namespace Workbench

/-- Whether one workbench comes from another by work on the tags of the opened file: other tags are
in memory, and maybe in the file, unless its format is refused. -/
structure Worked (bench after : Workbench) : Prop where
  handle : ∃ tags, after.handle = bench.handle.setTags tags
  tree : after.tree = bench.tree ∨ bench.handle.isRefused = false ∧
    ∃ tags, after.tree = bench.tree.store bench.handle.location tags

namespace Worked

variable {bench middle after : Workbench}

theorem refl (bench : Workbench) : bench.Worked bench :=
  ⟨⟨bench.handle.tags, bench.handle.setTags_tags.symm⟩, .inl rfl⟩

theorem path_eq (h : bench.Worked after) : after.handle.path = bench.handle.path := by
  obtain ⟨⟨tags, hhandle⟩, -⟩ := h
  rw [hhandle, Handle.setTags_path]

theorem location_eq (h : bench.Worked after) : after.handle.location = bench.handle.location := by
  obtain ⟨⟨tags, hhandle⟩, -⟩ := h
  rw [hhandle, Handle.setTags_location]

theorem isRefused_eq (h : bench.Worked after) :
    after.handle.isRefused = bench.handle.isRefused := by
  rw [Handle.isRefused, Handle.isRefused, Handle.extension, Handle.extension, h.path_eq]

theorem trans (h : bench.Worked middle) (h' : middle.Worked after) : bench.Worked after := by
  have hlocation := h.location_eq
  have hrefused := h.isRefused_eq
  obtain ⟨⟨tags, hhandle⟩, htree⟩ := h
  obtain ⟨⟨tags', hhandle'⟩, htree'⟩ := h'
  constructor
  · exact ⟨tags', by rw [hhandle', hhandle, Handle.setTags_setTags]⟩
  · rw [hlocation, hrefused] at htree'
    rcases htree with hsame | ⟨hallowed, stored, hstored⟩
    · rwa [hsame] at htree'
    · rcases htree' with hsame' | ⟨-, stored', hstored'⟩
      · exact .inr ⟨hallowed, stored, by rw [hsame', hstored]⟩
      · exact .inr ⟨hallowed, stored', by rw [hstored', hstored, Tree.store_store]⟩

theorem record (h : bench.Worked after) (event : Event) : bench.Worked (after.record event) :=
  ⟨h.handle, h.tree⟩

end Worked

end Workbench

namespace Job

/-- Whether some work concerns nothing but the tags of the opened file. -/
def OnTags {α : Type} (work : Job α) : Prop :=
  ∀ bench : Workbench, bench.Worked (leftBy work bench)

theorem OnTags.bind {α β : Type} {work : Job α} {next : α → Job β} (hwork : work.OnTags)
    (hnext : ∀ a, (next a).OnTags) : OnTags (work >>= next) := by
  intro bench
  have hfirst := hwork bench
  rw [leftBy_bind]
  rw [leftBy] at hfirst
  cases h : work bench with
  | ok a middle =>
      simp only [h] at hfirst ⊢
      exact hfirst.trans (hnext a middle)
  | error failure middle =>
      simp only [h] at hfirst ⊢
      exact hfirst

theorem onTags_pure {α : Type} (a : α) : OnTags (pure a) :=
  Workbench.Worked.refl

theorem onTags_get : OnTags get :=
  Workbench.Worked.refl

theorem onTags_throw {α : Type} (failure : Failure) : OnTags (throw failure : Job α) :=
  Workbench.Worked.refl

theorem onTags_log (event : Event) : OnTags (log event) :=
  fun bench => (Workbench.Worked.refl bench).record event

theorem onTags_ofExcept {α : Type} (result : Except Failure α) : OnTags (ofExcept result) := by
  cases result with
  | ok a => exact onTags_pure a
  | error failure => exact onTags_throw failure

end Job

theorem Handle.leftBy_write (field : Field) (value : Value) (handle : Handle) :
    ∃ tags, leftBy (Handle.write field value) handle = handle.setTags tags := by
  unfold leftBy Handle.write
  by_cases hempty : value.isEmpty = true
  · simp only [hempty, if_true, cleared]
    split
    · exact ⟨_, rfl⟩
    · exact ⟨handle.tags, handle.setTags_tags.symm⟩
  · simp only [hempty, Bool.false_eq_true, if_false]
    cases hnew : handle.tagsOrNew with
    | error failure => exact ⟨handle.tags, handle.setTags_tags.symm⟩
    | ok tags =>
        simp only
        cases changed tags field value with
        | error failure => exact ⟨some tags, rfl⟩
        | ok written => exact ⟨some written.1, rfl⟩

theorem Handle.allowed_of_toSave {handle : Handle} {tags : Option Container}
    (h : handle.toSave = .ok tags) : handle.isRefused = false := by
  unfold toSave at h
  split at h
  · cases h
  · rename_i hallowed
    exact Bool.eq_false_iff.mpr hallowed

namespace Job

theorem onTags_write (field : Field) (value : Value) : OnTags (write field value) := by
  refine OnTags.bind (fun bench => ?_) onTags_log
  obtain ⟨tags, htags⟩ := Handle.leftBy_write field value bench.handle
  have hleft : leftBy (onHandle (Handle.write field value)) bench =
      { bench with handle := bench.handle.setTags tags } := by
    rw [← htags]
    simp only [leftBy, onHandle]
    cases Handle.write field value bench.handle <;> rfl
  rw [hleft]
  exact ⟨⟨tags, rfl⟩, .inl rfl⟩

theorem writeAll_cons (entry : Field × Value) (entries : List (Field × Value)) :
    writeAll (entry :: entries) = write entry.1 entry.2 >>= fun _ => writeAll entries :=
  List.forM_cons

theorem onTags_writeAll (entries : List (Field × Value)) : OnTags (writeAll entries) := by
  induction entries with
  | nil => exact onTags_pure ()
  | cons entry entries ih =>
      rw [writeAll_cons]
      exact (onTags_write entry.1 entry.2).bind fun _ => ih

theorem onTags_save : OnTags save := by
  intro bench
  cases htags : bench.handle.toSave with
  | ok tags =>
      rw [leftBy_of_ok (save_eq htags)]
      exact ⟨⟨bench.handle.tags, bench.handle.setTags_tags.symm⟩,
        .inr ⟨Handle.allowed_of_toSave htags, tags, rfl⟩⟩
  | error failure =>
      rw [leftBy_of_error (save_eq_error htags)]
      exact .refl bench

theorem onTags_extract (spec : Spec) (name : String) : OnTags (extract spec name) := by
  refine (onTags_ofExcept _).bind fun entries? => ?_
  cases entries? with
  | some entries => exact (onTags_writeAll entries).bind fun _ => onTags_pure true
  | none => exact (onTags_log _).bind fun _ => onTags_pure false

theorem onTags_announce (edits : List Edit) (path : String) : OnTags (announce edits path) :=
  (onTags_ofExcept _).bind fun _ => onTags_log _

end Job

namespace Step

variable {options : Options}

theorem onTags_saveUnlessDry (dryRun : Bool) : (saveUnlessDry dryRun).OnTags := by
  unfold saveUnlessDry
  split
  · exact Job.onTags_get.bind fun _ => Job.onTags_log _
  · exact Job.onTags_save

theorem onTags_extract (options : Options) (spec : Spec) :
    (perform options (.extract spec)).OnTags := by
  refine Job.onTags_get.bind fun bench => (Job.onTags_extract spec _).bind fun fits => ?_
  split
  · exact onTags_saveUnlessDry options.dryRun
  · exact Job.onTags_throw _

theorem onTags_edit (options : Options) (edits : List Edit) :
    (perform options (.edit edits)).OnTags :=
  Job.onTags_get.bind fun _ => (Job.onTags_announce edits _).bind fun _ =>
    (Job.onTags_writeAll _).bind fun _ => onTags_saveUnlessDry options.dryRun

theorem leftBy_attempt (options : Options) (step : Step) (bench : Workbench) :
    leftBy (step.attempt options) bench = leftBy (step.perform options) bench ∨
      ∃ path report, leftBy (step.attempt options) bench =
        (leftBy (step.perform options) bench).record (.failed path report) := by
  simp only [leftBy, attempt]
  cases step.perform options bench with
  | ok _ after => exact .inl rfl
  | error failure after =>
      simp only
      cases failure.report? after.handle.path with
      | some report => exact .inr ⟨_, _, rfl⟩
      | none => exact .inl rfl

theorem leftBy_attemptAll_cons (options : Options) (step : Step) (steps : List Step)
    (bench : Workbench) : leftBy (attemptAll options (step :: steps)) bench =
      match step.attempt options bench with
      | .ok _ middle => leftBy (attemptAll options steps) middle
      | .error _ middle => middle := by
  rw [attemptAll, leftBy_bind]
  cases step.attempt options bench with
  | ok fine middle => exact leftBy_map _ _ middle
  | error failure middle => rfl

/-- What every step of a row keeps, also one that fails, and what a report keeps, the whole row
keeps. -/
theorem keeps_attemptAll {relation : Workbench → Workbench → Prop}
    (hrefl : ∀ bench, relation bench bench)
    (htrans : ∀ {bench middle after}, relation bench middle → relation middle after →
      relation bench after)
    (hreport : ∀ bench path report, relation bench (bench.record (.failed path report)))
    {steps : List Step} (h : ∀ step ∈ steps, ∀ bench,
      relation bench (leftBy (step.perform options) bench)) (bench : Workbench) :
    relation bench (leftBy (attemptAll options steps) bench) := by
  induction steps generalizing bench with
  | nil => exact hrefl bench
  | cons step steps ih =>
      have hperform := h step List.mem_cons_self bench
      have hfirst : relation bench (leftBy (step.attempt options) bench) := by
        rcases leftBy_attempt options step bench with hleft | ⟨path, report, hleft⟩
        · rw [hleft]
          exact hperform
        · rw [hleft]
          exact htrans hperform (hreport _ path report)
      rw [leftBy_attemptAll_cons]
      rw [leftBy] at hfirst
      cases hattempt : step.attempt options bench with
      | ok fine middle =>
          rw [hattempt] at hfirst
          have hothers := fun other hother => h other (List.mem_cons_of_mem step hother)
          exact htrans hfirst (ih hothers middle)
      | error failure middle =>
          rw [hattempt] at hfirst
          exact hfirst

theorem attemptAll_append_eq (options : Options) (steps others : List Step) :
    attemptAll options (steps ++ others) = attemptAll options steps >>= fun fine =>
      attemptAll options others >>= fun fine' => pure (fine && fine') := by
  induction steps with
  | nil => simp only [List.nil_append, attemptAll, pure_bind, Bool.true_and, bind_pure]
  | cons step steps ih =>
      simp only [List.cons_append, attemptAll, ih, bind_assoc, pure_bind, Bool.and_assoc]

theorem leftBy_attemptAll_append (options : Options) (steps others : List Step)
    (bench : Workbench) :
    leftBy (attemptAll options (steps ++ others)) bench =
      leftBy (attemptAll options steps) bench ∨
    leftBy (attemptAll options (steps ++ others)) bench =
      leftBy (attemptAll options others) (leftBy (attemptAll options steps) bench) := by
  rw [attemptAll_append_eq, leftBy_bind]
  cases h : attemptAll options steps bench with
  | ok fine middle =>
      right
      rw [leftBy_of_ok h]
      exact leftBy_map _ _ middle
  | error failure middle => exact .inl (leftBy_of_error h).symm

theorem leftBy_attemptAll_single (options : Options) (step : Step) (bench : Workbench) :
    leftBy (attemptAll options [step]) bench = leftBy (step.attempt options) bench := by
  rw [leftBy_attemptAll_cons, leftBy]
  cases step.attempt options bench <;> rfl

theorem perform_rename_of_error {spec : Spec} {bench : Workbench} {failure : Failure}
    (h : spec.newName (some options.hazard) bench.handle.read bench.handle.path = .error failure) :
    perform options (.rename spec) bench = .error failure bench := by
  have hnew : Job.newName spec (some options.hazard) bench = .error failure bench := by
    rw [Job.newName, Job.bind_of_ok (Job.get_eq bench), Job.ofExcept_eq_error h]
  rw [perform, Job.bind_of_error hnew]

theorem perform_rename_of_ok {spec : Spec} {bench : Workbench} {name : String}
    (h : spec.newName (some options.hazard) bench.handle.read bench.handle.path = .ok name) :
    perform options (.rename spec) bench = Job.rename name options.dryRun bench := by
  have hnew : Job.newName spec (some options.hazard) bench = .ok name bench := by
    rw [Job.newName, Job.bind_of_ok (Job.get_eq bench), Job.ofExcept_eq_ok h]
  rw [perform, Job.bind_of_ok hnew]

theorem tree_attempt_rename (options : Options) (spec : Spec) (bench : Workbench) :
    (leftBy (attempt options (.rename spec)) bench).tree = bench.tree ∨
      ∃ name renamed,
        spec.newName (some options.hazard) bench.handle.read bench.handle.path = .ok name ∧
        bench.tree.renameFile bench.handle.path name options.dryRun = .ok renamed ∧
        (leftBy (attempt options (.rename spec)) bench).tree = renamed.tree := by
  have hperform : (leftBy (attempt options (.rename spec)) bench).tree =
      (leftBy (perform options (.rename spec)) bench).tree := by
    rcases leftBy_attempt options (.rename spec) bench with hleft | ⟨_, _, hleft⟩ <;> rw [hleft]
    rfl
  rw [hperform]
  cases hname : spec.newName (some options.hazard) bench.handle.read bench.handle.path with
  | error failure => exact .inl (by rw [leftBy_of_error (perform_rename_of_error hname)])
  | ok name =>
      have hrename := perform_rename_of_ok hname
      cases hrenamed : bench.tree.renameFile bench.handle.path name options.dryRun with
      | error failure =>
          left
          rw [leftBy_of_error (hrename.trans (Job.rename_of_error hrenamed))]
      | ok renamed =>
          obtain ⟨after, hafter, htree⟩ := Job.rename_of_ok hrenamed
          right
          refine ⟨name, renamed, rfl, hrenamed, ?_⟩
          rw [leftBy_of_ok (hrename.trans hafter), htree]

end Step

namespace Options

theorem specStep_cases (step : Spec → Step) (spec? : Option Spec) :
    specStep step spec? = [] ∨ ∃ spec, specStep step spec? = [step spec] ∧
      spec? = some spec ∧ spec.isEmpty = false := by
  unfold specStep
  split
  · rename_i spec
    split
    · exact .inl rfl
    · rename_i hempty
      exact .inr ⟨spec, rfl, rfl, Bool.eq_false_iff.mpr hempty⟩
  · exact .inl rfl

/-- The steps that write, which come before the renaming. -/
def writing (options : Options) : List Step :=
  specStep .extract options.extract ++
    if options.edits.isEmpty then [] else [.edit options.edits]

theorem steps_eq (options : Options) :
    options.steps = options.writing ++ specStep .rename options.rename := rfl

theorem mem_writing_cases {options : Options} {step : Step} (h : step ∈ options.writing) :
    (∃ spec, step = .extract spec) ∨ step = .edit options.edits := by
  rcases List.mem_append.mp h with hmem | hmem
  · rcases specStep_cases Step.extract options.extract with hnone | ⟨spec, hspec, -⟩
    · rw [hnone] at hmem
      cases hmem
    · rw [hspec, List.mem_singleton] at hmem
      exact .inl ⟨spec, hmem⟩
  · split at hmem
    · cases hmem
    · exact .inr (List.mem_singleton.mp hmem)

theorem mem_steps_cases {options : Options} {step : Step} (h : step ∈ options.steps) :
    step ∈ options.writing ∨ ∃ spec, step = .rename spec := by
  rw [steps_eq, List.mem_append] at h
  refine h.imp_right fun hrename => ?_
  rcases specStep_cases Step.rename options.rename with hnone | ⟨spec, hspec, -⟩
  · rw [hnone] at hrename
    cases hrename
  · rw [hspec] at hrename
    exact ⟨spec, List.mem_singleton.mp hrename⟩

theorem onTags_writing (options : Options) : (Step.attemptAll options options.writing).OnTags := by
  refine Step.keeps_attemptAll Workbench.Worked.refl Workbench.Worked.trans
    (fun bench _ _ => (Workbench.Worked.refl bench).record _) fun step hstep => ?_
  rcases mem_writing_cases hstep with ⟨spec, rfl⟩ | rfl
  · exact Step.onTags_extract options spec
  · exact Step.onTags_edit options options.edits

theorem tree_visit_of_error {options : Options} {tree : Tree} {path : String} {failure : Failure}
    (h : Handle.openAt tree path = .error failure) : (options.visit tree path).tree = tree := by
  simp only [visit, h, Visit.ofRefusal]
  split <;> rfl

/-- Whether one tree comes from another by the renaming that the options ask for. -/
def Renames (options : Options) (tree : Tree) (path : String) (after : Tree) : Prop :=
  ∃ spec lookUp name renamed, options.rename = some spec ∧ spec.isEmpty = false ∧
    spec.newName (some options.hazard) lookUp path = .ok name ∧
    tree.renameFile path name options.dryRun = .ok renamed ∧ after = renamed.tree

/-- The tree after a visit to a file: the file may have new tags, unless its format is refused, and
then a new name. -/
theorem tree_visit_cases (options : Options) {tree : Tree} {path : String} {handle : Handle}
    {opened : Event} (h : Handle.openAt tree path = .ok (handle, opened)) :
    ∃ middle, (middle = tree ∨
        handle.isRefused = false ∧ ∃ tags, middle = tree.store handle.location tags) ∧
      ((options.visit tree path).tree = middle ∨
        options.Renames middle path (options.visit tree path).tree) := by
  have hpath : handle.path = path := by
    obtain ⟨file, format, -, -, -, -, rfl⟩ := Handle.openAt_eq_ok h
    rfl
  cases hediting : options.isEditing with
  | false =>
      exact ⟨tree, .inl rfl, .inl (by simp [visit, h, hediting, Visit.ofListing])⟩
  | true =>
      let start := Workbench.start tree handle opened
      have hvisit : (options.visit tree path).tree =
          (leftBy (Step.attemptAll options options.steps) start).tree := by
        simp only [visit, h, hediting, if_true, leftBy, start]
        cases Step.attemptAll options options.steps (Workbench.start tree handle opened) <;> rfl
      have hmiddle := options.onTags_writing start
      refine ⟨(leftBy (Step.attemptAll options options.writing) start).tree, hmiddle.tree, ?_⟩
      rw [hvisit, steps_eq]
      rcases Step.leftBy_attemptAll_append options options.writing
        (specStep .rename options.rename) start with hleft | hleft
      · exact .inl (by rw [hleft])
      · rw [hleft]
        rcases specStep_cases Step.rename options.rename with hnone | ⟨spec, hstep, hspec, hempty⟩
        · rw [hnone]
          exact .inl rfl
        · have hpath' :
              (leftBy (Step.attemptAll options options.writing) start).handle.path = path :=
            hmiddle.path_eq.trans hpath
          rw [hstep, Step.leftBy_attemptAll_single, ← hpath']
          rcases Step.tree_attempt_rename options spec _ with hsame |
            ⟨name, renamed, hname, hrenamed, htree⟩
          · exact .inl hsame
          · exact .inr ⟨spec, _, name, renamed, hspec, hempty, hname, hrenamed, htree⟩

theorem tree_visit_of_ok (options : Options) {tree : Tree} {path : String} {handle : Handle}
    {opened : Event} (h : Handle.openAt tree path = .ok (handle, opened)) :
    ∃ middle, (middle = tree ∨ ∃ tags, middle = tree.store handle.location tags) ∧
      ((options.visit tree path).tree = middle ∨
        ∃ name renamed, middle.renameFile path name options.dryRun = .ok renamed ∧
          (options.visit tree path).tree = renamed.tree) := by
  obtain ⟨middle, hmiddle, hlast⟩ := options.tree_visit_cases h
  refine ⟨middle, hmiddle.imp_right fun hstored => hstored.2, hlast.imp_right ?_⟩
  rintro ⟨-, -, name, renamed, -, -, -, hrenamed, htree⟩
  exact ⟨name, renamed, hrenamed, htree⟩

end Options

end LinerNotes
