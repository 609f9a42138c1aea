import LinerNotes.Proofs.Drafting
import LinerNotes.Proofs.Stopping

/-!
The counts of a session, its log and its verdict on a batch tell the same, whatever goes wrong on
the way. Every count grows by the entries of its kind in the log, a batch went well when no file got
an entry about an error, and what counts as a renaming has moved a file.
-/

namespace LinerNotes

namespace Event

def isError (event : Event) : Bool :=
  event.level == .error

def isSaved : Event → Bool
  | .saved _ => true
  | _ => false

def isRenamed : Event → Bool
  | .renamed _ _ => true
  | _ => false

theorem isError_of_isDraft {event : Event} (h : event.isDraft = true) : event.isError = false := by
  cases event <;> first | rfl | cases h

theorem isSaved_of_isDraft {event : Event} (h : event.isDraft = true) : event.isSaved = false := by
  cases event <;> first | rfl | cases h

theorem isRenamed_of_isRenaming {event : Event} (h : event.isRenaming = false) :
    event.isRenamed = false := by
  cases event <;> first | rfl | cases h

end Event

theorem Job.bind_eq_ok {α β : Type} {work : Job α} {next : α → Job β} {bench after : Workbench}
    {b : β} (h : (work >>= next) bench = .ok b after) :
    ∃ a middle, work bench = .ok a middle ∧ next a middle = .ok b after := by
  cases hwork : work bench with
  | ok a middle =>
      rw [bind_of_ok hwork] at h
      exact ⟨a, middle, rfl, h⟩
  | error failure middle =>
      rw [bind_of_error hwork] at h
      cases h

/-- Whether a workbench comes from another by work that is told truly: the verdict is bad if there
is an entry about an error, each of which mentions the file, and there are as many saves as there
are entries about one, at most so many. -/
structure Workbench.Tells (bench : Workbench) (most : Nat) (fine : Bool) (after : Workbench)
    (news : List Event) : Prop where
  path : after.handle.path = bench.handle.path
  events : after.events = bench.events ++ news
  verdict : fine = !news.any Event.isError
  mentions : ∀ event ∈ news, event.isError = true →
    Text.Mentions event.message (Path.name bench.handle.path)
  saves : after.saves = bench.saves + news.countP Event.isSaved
  most : news.countP Event.isSaved ≤ most

namespace Workbench.Tells

variable {bench middle after : Workbench} {most more : Nat} {fine fine' : Bool}
  {news others : List Event}

theorem nil (bench : Workbench) : bench.Tells 0 true bench [] :=
  ⟨rfl, (List.append_nil _).symm, rfl, nofun, rfl, Nat.le_refl 0⟩

theorem append (h : bench.Tells most fine middle news) (h' : middle.Tells more fine' after others) :
    bench.Tells (most + more) (fine && fine') after (news ++ others) where
  path := h'.path.trans h.path
  events := by rw [h'.events, h.events, List.append_assoc]
  verdict := by rw [h.verdict, h'.verdict, List.any_append, Bool.not_or]
  mentions := by
    rw [List.forall_mem_append]
    exact ⟨h.mentions, h.path ▸ h'.mentions⟩
  saves := by rw [h'.saves, h.saves, List.countP_append, Nat.add_assoc]
  most := by
    rw [List.countP_append]
    exact Nat.add_le_add h.most h'.most

theorem mono (h : bench.Tells most fine after news) (hle : most ≤ more) :
    bench.Tells more fine after news :=
  { h with most := Nat.le_trans h.most hle }

theorem drafted {tags : Option Container} (h : ∀ event ∈ news, event.isDraft = true) :
    bench.Tells 0 true (bench.drafted tags news) news := by
  have hsaved : news.countP Event.isSaved = 0 :=
    List.countP_eq_zero.mpr fun event hevent => by simp [Event.isSaved_of_isDraft (h event hevent)]
  have herror : ∀ event ∈ news, event.isError = false :=
    fun event hevent => Event.isError_of_isDraft (h event hevent)
  refine ⟨rfl, rfl, ?_, ?_, by rw [hsaved]; rfl, Nat.le_of_eq hsaved⟩
  · symm
    simpa using herror
  · intro event hevent hfails
    rw [herror event hevent] at hfails
    cases hfails

theorem failed {report : String} (h : Text.Mentions report (Path.name bench.handle.path)) :
    bench.Tells 0 false (bench.record (.failed bench.handle.path report))
      [.failed bench.handle.path report] := by
  refine ⟨rfl, rfl, rfl, ?_, rfl, Nat.le_refl 0⟩
  intro event hevent _
  rw [List.mem_singleton.mp hevent]
  exact h

end Workbench.Tells

namespace Step

variable {options : Options} {step : Step} {bench after : Workbench}

theorem attempt_eq_ok {fine : Bool} (h : step.attempt options bench = .ok fine after) :
    (step.perform options bench = .ok () after ∧ fine = true) ∨
    ∃ failure last report, step.perform options bench = .error failure last ∧
      failure.report? last.handle.path = some report ∧ fine = false ∧
      after = last.record (.failed last.handle.path report) := by
  unfold attempt at h
  cases hperform : step.perform options bench with
  | ok _ last =>
      rw [hperform] at h
      cases h
      exact .inl ⟨rfl, rfl⟩
  | error failure last =>
      simp only [hperform] at h
      cases hreport : failure.report? last.handle.path with
      | none =>
          rw [hreport] at h
          cases h
      | some report =>
          rw [hreport] at h
          cases h
          exact .inr ⟨failure, last, report, rfl, hreport, rfl, rfl⟩

theorem attempt_of_report {failure : Failure} {report : String}
    (hperform : step.perform options bench = .error failure after)
    (hreport : failure.report? after.handle.path = some report) :
    step.attempt options bench = .ok false (after.record (.failed after.handle.path report)) := by
  simp only [attempt, hperform, hreport]

theorem attemptAll_cons_eq_ok {steps : List Step} {fine : Bool}
    (h : attemptAll options (step :: steps) bench = .ok fine after) :
    ∃ first middle last, step.attempt options bench = .ok first middle ∧
      attemptAll options steps middle = .ok last after ∧ fine = (first && last) := by
  obtain ⟨first, middle, hfirst, hrest⟩ := Job.bind_eq_ok h
  obtain ⟨last, after, hlast, hpure⟩ := Job.bind_eq_ok hrest
  cases hpure
  exact ⟨first, middle, last, hfirst, hlast, rfl⟩

theorem attemptAll_cons_of_ok {steps : List Step} {middle : Workbench} {first last : Bool}
    (hfirst : step.attempt options bench = .ok first middle)
    (hlast : attemptAll options steps middle = .ok last after) :
    attemptAll options (step :: steps) bench = .ok (first && last) after := by
  rw [attemptAll, Job.bind_of_ok hfirst, Job.bind_of_ok hlast]
  rfl

theorem attemptAll_append_eq_ok {steps others : List Step} {fine : Bool}
    (h : attemptAll options (steps ++ others) bench = .ok fine after) :
    ∃ first middle last, attemptAll options steps bench = .ok first middle ∧
      attemptAll options others middle = .ok last after ∧ fine = (first && last) := by
  rw [attemptAll_append_eq] at h
  obtain ⟨first, middle, hfirst, hrest⟩ := Job.bind_eq_ok h
  obtain ⟨last, after, hlast, hpure⟩ := Job.bind_eq_ok hrest
  cases hpure
  exact ⟨first, middle, last, hfirst, hlast, rfl⟩

end Step

namespace Job

variable {bench : Workbench} {most more : Nat}

/-- Whether some work is told truly, also when it fails: no entry is about an error yet, and the
failure mentions the file if it concerns the file alone. -/
def Tells {α : Type} (work : Job α) (most : Nat) (bench : Workbench) : Prop :=
  (∃ a after news, work bench = .ok a after ∧ bench.Tells most true after news) ∨
  ∃ failure after news, work bench = .error failure after ∧ bench.Tells most true after news ∧
    (failure.reach = .file → Text.Mentions failure.message (Path.name bench.handle.path))

theorem Tells.bind {α β : Type} {work : Job α} {next : α → Job β} (h : work.Tells most bench)
    (hnext : ∀ a after, after.handle.path = bench.handle.path → (next a).Tells more after) :
    Tells (work >>= next) (most + more) bench := by
  rcases h with ⟨a, middle, news, hwork, htells⟩ | ⟨failure, after, news, hwork, htells, hmentions⟩
  · rw [Tells, bind_of_ok hwork]
    rcases hnext a middle htells.path with ⟨b, after, others, hafter, htells'⟩ |
      ⟨failure, after, others, hafter, htells', hmentions⟩
    · exact .inl ⟨b, after, _, hafter, htells.append htells'⟩
    · exact .inr ⟨failure, after, _, hafter, htells.append htells', htells.path ▸ hmentions⟩
  · exact .inr ⟨failure, after, news, bind_of_error hwork, htells.mono (by omega), hmentions⟩

end Job

namespace Step

variable {options : Options} {step : Step} {bench after : Workbench}

theorem tells_draft (step : Step) (bench : Workbench) :
    step.draft.Tells 0 bench := by
  obtain ⟨tags, news, -, hdraft, -, ⟨_, hdrafts, -⟩ | ⟨failure, _, hfailure, hdrafts, -⟩⟩ :=
    drafts_draft _ step _ _ (Handle.Alike.refl bench.handle)
  · exact .inl ⟨(), _, news, hdrafts bench rfl, .drafted hdraft⟩
  · exact .inr ⟨failure, _, news, hdrafts bench rfl, .drafted hdraft, hfailure.mentions⟩

theorem tells_saveUnlessDry (dryRun : Bool) (bench : Workbench) :
    (saveUnlessDry dryRun).Tells 1 bench := by
  cases dryRun with
  | true =>
      exact .inl ⟨(), bench.record (.wouldSave bench.handle.path), _, rfl,
        ⟨rfl, rfl, rfl, by simp [Event.isError, Event.level], rfl, Nat.zero_le 1⟩⟩
  | false =>
      rcases (Handle.Alike.refl bench.handle).toSave with ⟨tags, htags, -⟩ |
        ⟨failure, _, hfails, -, hfailure⟩
      · exact .inl ⟨(), _, _, Job.save_eq htags,
          ⟨rfl, rfl, rfl, by simp [Event.isError, Event.level], rfl, Nat.le_refl 1⟩⟩
      · exact .inr ⟨failure, bench, [], Job.save_eq_error hfails,
          (Workbench.Tells.nil bench).mono (Nat.zero_le 1), hfailure.mentions⟩

theorem tells_perform (h : step ∈ options.writing) (bench : Workbench) :
    (step.perform options).Tells 1 bench := by
  rw [perform_eq_draft h]
  exact (tells_draft step bench).bind fun _ after _ => tells_saveUnlessDry options.dryRun after

theorem tells_attempt {most : Nat} {fine : Bool} (h : (step.perform options).Tells most bench)
    (hattempt : step.attempt options bench = .ok fine after) :
    ∃ news, bench.Tells most fine after news := by
  rcases attempt_eq_ok hattempt with ⟨hperform, rfl⟩ |
    ⟨failure, last, report, hperform, hreport, rfl, rfl⟩
  · rcases h with ⟨_, _, news, hperform', htells⟩ | ⟨failure, _, news, hperform', -⟩
    · cases hperform.symm.trans hperform'
      exact ⟨news, htells⟩
    · cases hperform.symm.trans hperform'
  · rcases h with ⟨_, _, news, hperform', -⟩ | ⟨_, _, news, hperform', htells, hmentions⟩
    · cases hperform.symm.trans hperform'
    · cases hperform.symm.trans hperform'
      have hreported : Text.Mentions report (Path.name last.handle.path) :=
        Failure.mentions_of_report? (htells.path ▸ hmentions) hreport
      exact ⟨_, htells.append (.failed hreported)⟩

theorem tells_attemptAll {steps : List Step} (h : ∀ step ∈ steps, step ∈ options.writing)
    {fine : Bool} (hattempt : attemptAll options steps bench = .ok fine after) :
    ∃ news, bench.Tells steps.length fine after news := by
  induction steps generalizing bench fine with
  | nil =>
      cases hattempt
      exact ⟨[], .nil _⟩
  | cons step steps ih =>
      obtain ⟨first, middle, last, hfirst, hlast, rfl⟩ := attemptAll_cons_eq_ok hattempt
      obtain ⟨news, htells⟩ :=
        tells_attempt (tells_perform (h step List.mem_cons_self) bench) hfirst
      obtain ⟨others, htells'⟩ :=
        ih (fun other hother => h other (List.mem_cons_of_mem step hother)) hlast
      refine ⟨news ++ others, ?_⟩
      rw [List.length_cons, Nat.add_comm]
      exact htells.append htells'

end Step

theorem Options.length_writing (options : Options) : options.writing.length ≤ 2 := by
  have hspec : (specStep Step.extract options.extract).length ≤ 1 := by
    rcases specStep_cases Step.extract options.extract with hnone | ⟨spec, hstep, -⟩
    · simp [hnone]
    · simp [hstep]
  rw [writing, List.length_append]
  split <;> simp <;> omega

namespace Tree

/-- The places of the files. -/
def places (tree : Tree) : List Location :=
  tree.files.map File.location

/-- Whether one tree comes from another by moving the file at a path to the place, vacant before, to
which the new name leads. -/
def Moves (tree : Tree) (path name : String) (after : Tree) : Prop :=
  ∃ file target, tree.file? path = some file ∧
    tree.vacant? (Path.join (Path.directory path) name) = some target ∧ target ∉ tree.places ∧
    after.places = tree.places.map fun place => if place = file.location then target else place

theorem places_store (tree : Tree) (location : Location) (tags : Option Container) :
    (tree.store location tags).places = tree.places := by
  rw [places, places, files_store, List.map_map]
  exact List.map_congr_left fun file _ => File.retagged_location location tags file

theorem mentions_of_renameFile {tree : Tree} {source name : String} {dryRun : Bool}
    {failure : Failure} (h : tree.renameFile source name dryRun = .error failure)
    (hreach : failure.reach = .file) : Text.Mentions failure.message (Path.name source) := by
  simp only [renameFile] at h
  split at h
  · cases h
  split at h
  · cases h
    exact Failure.mentions_of_path? rfl
  split at h
  · cases h
  · simp only [rename] at h
    split at h
    · cases h
      cases hreach
    · split at h
      · cases h
      · cases h
        cases hreach

theorem Moves.of_store {tree after : Tree} {path name : String} {location : Location}
    {tags : Option Container} {file : File} (h : (tree.store location tags).Moves path name after)
    (hfile : tree.file? path = some file) : tree.Moves path name after := by
  obtain ⟨other, target, hother, hvacant, hfree, hplaces⟩ := h
  rw [file?_store_eq, hfile] at hother
  cases hother
  rw [vacant?_store] at hvacant
  rw [places_store] at hfree hplaces
  rw [File.retagged_location] at hplaces
  exact ⟨file, target, hfile, hvacant, hfree, hplaces⟩

theorem ne_of_vacant? {tree : Tree} {path target : String} {file : File} {location : Location}
    (hfile : tree.file? path = some file) (hvacant : tree.vacant? target = some location) :
    target ≠ path := by
  rintro rfl
  obtain ⟨-, r, directory, hroute, hwalk, henter, -⟩ := file?_eq_some_iff.mp hfile
  obtain ⟨-, r', directory', hroute', hwalk', henter', -⟩ := vacant?_eq_some_iff.mp hvacant
  cases hroute.symm.trans hroute'
  cases hwalk.symm.trans hwalk'
  cases henter.symm.trans henter'

theorem moves_move {tree : Tree} {path name : String} {file : File} {location : Location}
    (hfile : tree.file? path = some file)
    (hvacant : tree.vacant? (Path.join (Path.directory path) name) = some location) :
    tree.Moves path name (tree.move file.location location) := by
  have hnone := fileAt?_of_vacant? hvacant
  refine ⟨file, location, hfile, hvacant, ?_, ?_⟩
  · intro hmem
    obtain ⟨other, hother, hplace⟩ := List.mem_map.mp hmem
    exact not_mem_of_fileAt? hnone hother hplace
  · have hne : file.location ≠ location := ne_of_fileAt? hnone (fileAt?_of_file? hfile)
    rw [places, files_move hne hnone, places, List.map_map, List.map_map]
    congr 1
    funext other
    simp only [Function.comp_apply, File.moved]
    split <;> rfl

end Tree

/-- Whether a workbench comes from another by work whose renaming, if any, is told truly: it has
moved the opened file and no other. -/
def Workbench.Moved (bench after : Workbench) : Prop :=
  ∃ news, after.events = bench.events ++ news ∧
    ((after.renames = bench.renames ∧ news.filter Event.isRenamed = [] ∧
        after.tree.places = bench.tree.places) ∨
      ∃ name, after.renames = bench.renames + 1 ∧
        news.filter Event.isRenamed = [.renamed bench.handle.path name] ∧
        bench.tree.Moves bench.handle.path name after.tree)

namespace Step

variable {options : Options} {spec : Spec} {bench after : Workbench}

theorem perform_rename_cases (options : Options) (spec : Spec) (bench : Workbench) :
    (∃ name, perform options (.rename spec) bench = .ok () (bench.record (.alreadyNamed name))) ∨
    (options.dryRun = true ∧ ∃ name renames, perform options (.rename spec) bench =
      .ok () ⟨bench.tree, bench.handle, bench.events ++ [.wouldRename bench.handle.path name],
        bench.saves, renames⟩) ∨
    (options.dryRun = false ∧ ∃ name file location,
      bench.tree.file? bench.handle.path = some file ∧
      bench.tree.vacant? (Path.join (Path.directory bench.handle.path) name) = some location ∧
      perform options (.rename spec) bench =
        .ok () ⟨bench.tree.move file.location location, bench.handle,
          bench.events ++ [.renamed bench.handle.path name], bench.saves, bench.renames + 1⟩) ∨
    ∃ failure, perform options (.rename spec) bench = .error failure bench ∧
      (failure.reach = .file → Text.Mentions failure.message (Path.name bench.handle.path)) := by
  rcases spec.newName_cases (some options.hazard) bench.handle bench.handle.path with
    ⟨-, name, hname⟩ | ⟨-, failure, hfails, hends⟩
  · have hrename := perform_rename_of_ok hname
    cases hrenamed : bench.tree.renameFile bench.handle.path name options.dryRun with
    | error failure =>
        exact .inr (.inr (.inr ⟨failure, hrename.trans (Job.rename_of_error hrenamed),
          Tree.mentions_of_renameFile hrenamed⟩))
    | ok renamed =>
        rw [Job.rename_eq hrenamed] at hrename
        rcases Tree.renameFile_eq_ok hrenamed with ⟨-, rfl⟩ | ⟨hdry, rfl⟩ |
          ⟨hdry, file, location, hfile, hvacant, rfl⟩
        · refine .inl ⟨name, ?_⟩
          rw [hrename, if_pos rfl]
          rfl
        · exact .inr (.inl ⟨hdry, name, _, hrename⟩)
        · refine .inr (.inr (.inl ⟨hdry, name, file, location, hfile, hvacant, ?_⟩))
          rw [hrename, if_neg (Tree.ne_of_vacant? hfile hvacant)]
  · have hreach := hends.reach
    exact .inr (.inr (.inr ⟨failure, perform_rename_of_error hfails, by simp [hreach]⟩))

theorem tells_rename (options : Options) (spec : Spec) (bench : Workbench) :
    (perform options (.rename spec)).Tells 0 bench := by
  rcases perform_rename_cases options spec bench with ⟨name, hperform⟩ |
    ⟨hdry, name, renames, hperform⟩ | ⟨hdry, name, file, location, -, -, hperform⟩ |
    ⟨failure, hperform, hmentions⟩
  · exact .inl ⟨(), _, [.alreadyNamed name], hperform,
      ⟨rfl, rfl, rfl, by simp [Event.isError, Event.level], rfl, Nat.le_refl 0⟩⟩
  · exact .inl ⟨(), _, [.wouldRename bench.handle.path name], hperform,
      ⟨rfl, rfl, rfl, by simp [Event.isError, Event.level], rfl, Nat.le_refl 0⟩⟩
  · exact .inl ⟨(), _, [.renamed bench.handle.path name], hperform,
      ⟨rfl, rfl, rfl, by simp [Event.isError, Event.level], rfl, Nat.le_refl 0⟩⟩
  · exact .inr ⟨failure, bench, [], hperform, .nil bench, hmentions⟩

theorem moved_attempt_rename (hdry : options.dryRun = false) {fine : Bool}
    (h : attempt options (.rename spec) bench = .ok fine after) : bench.Moved after := by
  have hcases := perform_rename_cases options spec bench
  rcases attempt_eq_ok h with ⟨hattempt, -⟩ | ⟨failure, last, report, hattempt, -, -, rfl⟩
  · rw [hattempt] at hcases
    rcases hcases with ⟨name, hperform⟩ | ⟨hdry', -⟩ |
      ⟨-, name, file, location, hfile, hvacant, hperform⟩ | ⟨failure, hperform, -⟩
    · cases hperform
      exact ⟨[.alreadyNamed name], rfl, .inl ⟨rfl, rfl, rfl⟩⟩
    · rw [hdry] at hdry'
      cases hdry'
    · cases hperform
      exact ⟨[.renamed bench.handle.path name], rfl,
        .inr ⟨name, rfl, rfl, Tree.moves_move hfile hvacant⟩⟩
    · cases hperform
  · rw [hattempt] at hcases
    rcases hcases with ⟨name, hperform⟩ | ⟨-, name, renames, hperform⟩ |
      ⟨-, name, file, location, -, -, hperform⟩ | ⟨failure, hperform, -⟩
    · cases hperform
    · cases hperform
    · cases hperform
    · cases hperform
      exact ⟨[.failed bench.handle.path report], rfl, .inl ⟨rfl, rfl, rfl⟩⟩

theorem attemptAll_steps_eq_ok {fine : Bool}
    (h : attemptAll options options.steps bench = .ok fine after) :
    ∃ first middle, attemptAll options options.writing bench = .ok first middle ∧
      ((after = middle ∧ fine = first) ∨
        ∃ spec last, attempt options (.rename spec) middle = .ok last after ∧
          fine = (first && last)) := by
  rw [Options.steps_eq] at h
  obtain ⟨first, middle, last, hwriting, hrename, rfl⟩ := attemptAll_append_eq_ok h
  refine ⟨first, middle, hwriting, ?_⟩
  rcases Options.specStep_cases Step.rename options.rename with hnone | ⟨spec, hstep, -⟩
  · rw [hnone] at hrename
    cases hrename
    exact .inl ⟨rfl, Bool.and_true first⟩
  · rw [hstep] at hrename
    obtain ⟨fine, later, rest, hattempt, hnil, rfl⟩ := attemptAll_cons_eq_ok hrename
    cases hnil
    exact .inr ⟨spec, fine, hattempt, by rw [Bool.and_true]⟩

theorem tells_steps {fine : Bool} (h : attemptAll options options.steps bench = .ok fine after) :
    ∃ news, bench.Tells 2 fine after news := by
  obtain ⟨first, middle, hwriting, hrest⟩ := attemptAll_steps_eq_ok h
  obtain ⟨news, htells⟩ := tells_attemptAll (fun _ => id) hwriting
  have htwice := htells.mono options.length_writing
  rcases hrest with ⟨rfl, rfl⟩ | ⟨spec, last, hattempt, rfl⟩
  · exact ⟨news, htwice⟩
  · obtain ⟨others, htells'⟩ := tells_attempt (tells_rename options spec middle) hattempt
    exact ⟨news ++ others, htwice.append htells'⟩

theorem moved_steps (hdry : options.dryRun = false) {fine : Bool}
    (h : attemptAll options options.steps bench = .ok fine after) {file : File}
    (hfile : bench.tree.file? bench.handle.path = some file) : bench.Moved after := by
  obtain ⟨first, middle, hwriting, hrest⟩ := attemptAll_steps_eq_ok h
  have hstays := stays_writing options bench
  have hworked := options.onTags_writing bench
  rw [leftBy_of_ok hwriting] at hstays hworked
  obtain ⟨news, hnews, hstill⟩ := hstays.news
  have hnone : news.filter Event.isRenamed = [] := List.filter_eq_nil_iff.mpr fun event hevent => by
    simp [Event.isRenamed_of_isRenaming (hstill event hevent)]
  have hplaces : middle.tree.places = bench.tree.places := by
    rcases hworked.tree with hsame | ⟨-, tags, hstored⟩
    · rw [hsame]
    · rw [hstored, Tree.places_store]
  rcases hrest with ⟨rfl, rfl⟩ | ⟨spec, last, hattempt, rfl⟩
  · exact ⟨news, hnews, .inl ⟨hstays.renames, hnone, hplaces⟩⟩
  · obtain ⟨others, hothers, hmoved⟩ := moved_attempt_rename hdry hattempt
    refine ⟨news ++ others, by rw [hothers, hnews, List.append_assoc], ?_⟩
    rw [List.filter_append, hnone, List.nil_append, ← hstays.renames, ← hplaces, ← hworked.path_eq]
    refine hmoved.imp_right ?_
    rintro ⟨name, hrenames, hone, hmoves⟩
    refine ⟨name, hrenames, hone, ?_⟩
    rw [hworked.path_eq] at hmoves ⊢
    rcases hworked.tree with hsame | ⟨-, tags, hstored⟩
    · rw [hsame] at hmoves
      exact hmoves
    · rw [hstored] at hmoves
      exact hmoves.of_store hfile

end Step

/-- Whether a visit is told truly: whether it went well and whether the file was opened, how often
it was saved, and whether it was renamed, which moved it and no other. -/
structure Visit.Tells (visit : Visit) (dryRun : Bool) (tree : Tree) (path : String) (fine : Bool) :
    Prop where
  verdict : fine = !visit.events.any Event.isError
  mentions : ∀ event ∈ visit.events, event.isError = true →
    Text.Mentions event.message (Path.name path)
  opened : visit.opened = !(Options.openedAt tree path).isEmpty
  saves : visit.saves = visit.events.countP Event.isSaved
  twice : visit.saves ≤ 2
  renames : dryRun = false → visit.renames = visit.events.countP Event.isRenamed
  moves : dryRun = false →
    (visit.events.filter Event.isRenamed = [] ∧ visit.tree.places = tree.places) ∨
      ∃ name, visit.events.filter Event.isRenamed = [.renamed path name] ∧
        tree.Moves path name visit.tree

namespace Visit

variable {tree : Tree} {path : String} {fine : Bool}

theorem tells_ofRefusal (dryRun : Bool) {failure : Failure}
    (hopen : Handle.openAt tree path = .error failure)
    (h : (ofRefusal tree path failure).outcome = .ok fine) :
    (ofRefusal tree path failure).Tells dryRun tree path fine := by
  have hnone : Options.openedAt tree path = [] := by rw [Options.openedAt, hopen]
  unfold ofRefusal at h ⊢
  cases hreach : failure.reach with
  | file =>
      simp only [hreach] at h ⊢
      cases h
      refine ⟨rfl, ?_, by rw [hnone]; rfl, rfl, Nat.zero_le 2, fun _ => rfl,
        fun _ => .inl ⟨rfl, rfl⟩⟩
      intro event hevent _
      rw [List.mem_singleton.mp hevent]
      exact Handle.mentions_of_openAt hopen hreach
  | system =>
      simp only [hreach] at h
      cases h
  | run =>
      simp only [hreach] at h
      cases h

theorem tells_ofListing (dryRun : Bool) {handle : Handle} {opened : Event}
    (hopen : Handle.openAt tree path = .ok (handle, opened))
    (h : (ofListing tree handle opened).outcome = .ok fine) :
    (ofListing tree handle opened).Tells dryRun tree path fine := by
  have hsome : Options.openedAt tree path = [handle] := by rw [Options.openedAt, hopen]
  obtain ⟨file, format, -, -, -, rfl, -⟩ := Handle.openAt_eq_ok hopen
  unfold ofListing at h ⊢
  simp only at h
  split at h
  · cases h
    refine ⟨rfl, ?_, by rw [hsome]; rfl, rfl, Nat.zero_le 2, fun _ => rfl, fun _ => .inl ⟨rfl, rfl⟩⟩
    simp [Event.isError, Event.level]
  · cases h

theorem tells_ofWork {options : Options} {handle : Handle} {opened : Event} {after : Workbench}
    (hopen : Handle.openAt tree path = .ok (handle, opened))
    (h : Step.attemptAll options options.steps (Workbench.start tree handle opened) =
      .ok fine after) :
    (ofWork (.ok fine after)).Tells options.dryRun tree path fine := by
  have hsome : Options.openedAt tree path = [handle] := by rw [Options.openedAt, hopen]
  obtain ⟨file, format, hfile, -, -, rfl, rfl⟩ := Handle.openAt_eq_ok hopen
  obtain ⟨news, htells⟩ := Step.tells_steps h
  have hevents : after.events = .opened path format :: news := htells.events
  have hsaves : after.saves = news.countP Event.isSaved := htells.saves.trans (Nat.zero_add _)
  refine ⟨?_, ?_, by rw [hsome]; rfl, ?_, ?_, ?_, ?_⟩
  · rw [ofWork, hevents]
    exact htells.verdict
  · rw [ofWork, hevents]
    intro event hevent herror
    rcases List.mem_cons.mp hevent with rfl | hnews
    · cases herror
    · exact htells.mentions event hnews herror
  · rw [ofWork, hevents]
    exact hsaves
  · rw [ofWork, hsaves]
    exact htells.most
  · intro hdry
    obtain ⟨others, hothers, hmoved⟩ := Step.moved_steps hdry h hfile
    cases hevents.symm.trans hothers
    rw [ofWork, List.countP_eq_length_filter, hevents]
    change after.renames = (others.filter Event.isRenamed).length
    rcases hmoved with ⟨hrenames, hnone, -⟩ | ⟨name, hrenames, hone, -⟩
    · rw [hrenames, hnone]
      rfl
    · rw [hrenames, hone]
      rfl
  · intro hdry
    obtain ⟨others, hothers, hmoved⟩ := Step.moved_steps hdry h hfile
    cases hevents.symm.trans hothers
    rw [ofWork, hevents]
    rcases hmoved with ⟨-, hnone, hplaces⟩ | ⟨name, -, hone, hmoves⟩
    · exact .inl ⟨hnone, hplaces⟩
    · exact .inr ⟨name, hone, hmoves⟩

end Visit

theorem Options.visit_tells {options : Options} {tree : Tree} {path : String} {fine : Bool}
    (h : (options.visit tree path).outcome = .ok fine) :
    (options.visit tree path).Tells options.dryRun tree path fine := by
  unfold visit at h ⊢
  cases hopen : Handle.openAt tree path with
  | error failure =>
      simp only [hopen] at h ⊢
      exact Visit.tells_ofRefusal options.dryRun hopen h
  | ok found =>
      obtain ⟨handle, opened⟩ := found
      simp only [hopen] at h ⊢
      split at h
      · rename_i hediting
        rw [if_pos hediting]
        cases hattempt : Step.attemptAll options options.steps
            (Workbench.start tree handle opened) with
        | error failure after =>
            rw [hattempt] at h
            cases h
        | ok verdict after =>
            rw [hattempt] at h
            cases h
            exact Visit.tells_ofWork hopen hattempt
      · rename_i hediting
        rw [if_neg hediting]
        exact Visit.tells_ofListing options.dryRun hopen h

/-- The visit of a batch to a path: the tree that it meets, and the path. -/
structure Turn where
  tree : Tree
  path : String
deriving DecidableEq

namespace Turn

def visit (options : Options) (turn : Turn) : Visit :=
  options.visit turn.tree turn.path

/-- The entries that the visit puts into the log. -/
def told (options : Options) (turn : Turn) : List Event :=
  (turn.visit options).events

/-- Whether the file is opened. -/
def opens (turn : Turn) : Bool :=
  !(Options.openedAt turn.tree turn.path).isEmpty

/-- Whether an entry is about an error. -/
def fails (options : Options) (turn : Turn) : Bool :=
  (turn.told options).any Event.isError

end Turn

/-- The visits to paths one after the other. -/
def Options.turns (options : Options) : Tree → List String → List Turn
  | _, [] => []
  | tree, path :: rest => ⟨tree, path⟩ :: turns options (options.visit tree path).tree rest

theorem Options.map_path_turns (options : Options) (tree : Tree) (paths : List String) :
    (options.turns tree paths).map Turn.path = paths := by
  induction paths generalizing tree with
  | nil => rfl
  | cons path paths ih => rw [turns, List.map_cons, ih]

namespace Session

/-- Whether the counts and the verdict after some visits are those that the visits' entries in
the log tell, with entries about errors that mention the file and entries about renamings that
moved it. -/
structure Counts (session : Session) (options : Options) (turns : List Turn) (fine : Bool)
    (after : Session) : Prop where
  verdict : fine = false ↔ session.tally.failed < after.tally.failed
  failed : after.tally.failed = session.tally.failed + turns.countP (Turn.fails options)
  mentions : ∀ turn ∈ turns, ∀ event ∈ turn.told options, event.isError = true →
    Text.Mentions event.message (Path.name turn.path)
  processed : after.tally.processed = session.tally.processed + turns.countP Turn.opens
  saved : after.tally.saved =
    session.tally.saved + (turns.flatMap (Turn.told options)).countP Event.isSaved
  twice : ∀ turn ∈ turns, (turn.told options).countP Event.isSaved ≤ 2
  renamed : options.dryRun = false → after.tally.renamed =
    session.tally.renamed + (turns.flatMap (Turn.told options)).countP Event.isRenamed
  moves : options.dryRun = false → ∀ turn ∈ turns,
    ((turn.told options).filter Event.isRenamed = [] ∧
      (turn.visit options).tree.places = turn.tree.places) ∨
    ∃ name, (turn.told options).filter Event.isRenamed = [.renamed turn.path name] ∧
      turn.tree.Moves turn.path name (turn.visit options).tree

namespace Counts

variable {session after : Session} {options : Options} {turns : List Turn}
  {first fine : Bool}

theorem nil (session : Session) : session.Counts options [] true session where
  verdict := by simp
  failed := rfl
  mentions := nofun
  processed := rfl
  saved := rfl
  twice := nofun
  renamed := fun _ => rfl
  moves := nofun

theorem cons (turn : Turn)
    (htells : (turn.visit options).Tells options.dryRun turn.tree turn.path first)
    (houtcome : (turn.visit options).outcome = .ok first)
    (h : (session.add (turn.visit options)).Counts options turns fine after) :
    session.Counts options (turn :: turns) (first && fine) after := by
  have hfirst : first = !turn.fails options := htells.verdict
  have hadded : (session.add (turn.visit options)).tally.failed =
      session.tally.failed + if turn.fails options then 1 else 0 := by
    simp only [Session.add, Tally.add, houtcome, hfirst]
    cases turn.fails options <;> rfl
  constructor
  · have hgrows := h.failed
    have hverdict := h.verdict
    rw [hadded] at hgrows hverdict
    rw [hfirst]
    cases hfails : turn.fails options with
    | true =>
        simp only [hfails, if_true] at hgrows
        simp only [Bool.not_true, Bool.false_and, true_iff]
        omega
    | false =>
        simpa [hfails] using hverdict
  · rw [h.failed, hadded, List.countP_cons]
    omega
  · rw [List.forall_mem_cons]
    exact ⟨htells.mentions, h.mentions⟩
  · rw [h.processed, List.countP_cons, Nat.add_comm (turns.countP _), ← Nat.add_assoc, Session.add,
      Tally.add, htells.opened]
    rfl
  · rw [h.saved, List.flatMap_cons, List.countP_append, Session.add, Tally.add, htells.saves]
    exact Nat.add_assoc _ _ _
  · rw [List.forall_mem_cons]
    exact ⟨htells.saves ▸ htells.twice, h.twice⟩
  · intro hdry
    rw [h.renamed hdry, List.flatMap_cons, List.countP_append, Session.add, Tally.add,
      htells.renames hdry]
    exact Nat.add_assoc _ _ _
  · intro hdry
    rw [List.forall_mem_cons]
    exact ⟨htells.moves hdry, h.moves hdry⟩

end Counts

theorem visitAll_cons_eq_ok {options : Options} {path : String} {paths : List String}
    {session after : Session} {fine : Bool}
    (h : visitAll options (path :: paths) session = .ok fine after) :
    ∃ first last, (options.visit session.tree path).outcome = .ok first ∧
      visitAll options paths (session.add (options.visit session.tree path)) = .ok last after ∧
      fine = (first && last) := by
  rw [visitAll_cons_eq] at h
  cases houtcome : (options.visit session.tree path).outcome with
  | error failure =>
      rw [houtcome] at h
      cases h
  | ok first =>
      simp only [houtcome] at h
      cases hrest : visitAll options paths (session.add (options.visit session.tree path)) with
      | error failure failed =>
          rw [hrest] at h
          cases h
      | ok last others =>
          rw [hrest] at h
          cases h
          exact ⟨first, last, rfl, rfl, rfl⟩

theorem counts_visitAll {options : Options} {paths : List String} {session after : Session}
    {fine : Bool} (h : visitAll options paths session = .ok fine after) :
    session.Counts options (options.turns session.tree paths) fine after ∧
      after.events =
        session.events ++ (options.turns session.tree paths).flatMap (Turn.told options) := by
  induction paths generalizing session fine with
  | nil =>
      cases h
      exact ⟨.nil _, (List.append_nil _).symm⟩
  | cons path paths ih =>
      obtain ⟨first, last, houtcome, hrest, rfl⟩ := visitAll_cons_eq_ok h
      obtain ⟨hcounts, hevents⟩ := ih hrest
      refine ⟨.cons ⟨session.tree, path⟩ (Options.visit_tells houtcome) houtcome hcounts, ?_⟩
      rw [hevents, Options.turns, List.flatMap_cons, ← List.append_assoc]
      rfl

/-- The visits of a batch. -/
def turns (session : Session) (options : Options) (inputs : List String) : List Turn :=
  options.turns session.tree (session.tree.expand options.recursive inputs)

/-- A batch that comes to its end is told truly: of every path that its inputs stand for the log has
what the visit told, in order, and verdict and counts are as those entries have it. What was opened
and what was not make up all paths. -/
theorem run_counts {options : Options} {inputs : List String} {session after : Session}
    {fine : Bool} (h : run options inputs session = .ok fine after) :
    (session.turns options inputs).map Turn.path =
        session.tree.expand options.recursive inputs ∧
      session.Counts options (session.turns options inputs) fine after ∧
      after.tally.processed + (session.turns options inputs).countP (fun turn => !turn.opens) =
        session.tally.processed + (session.tree.expand options.recursive inputs).length ∧
      after.events = session.events ++ session.tree.searchEvents options.recursive inputs ++
        (session.turns options inputs).flatMap (Turn.told options) ++
        closing options after.tally := by
  have hpaths := options.map_path_turns session.tree
    (session.tree.expand options.recursive inputs)
  obtain ⟨last, hvisits, rfl⟩ := run_eq_ok h
  obtain ⟨hcounts, hevents⟩ := counts_visitAll hvisits
  have hcounted : session.Counts options (session.turns options inputs) fine
      (last.record (closing options last.tally)) := { hcounts with }
  refine ⟨hpaths, hcounted, ?_, ?_⟩
  · have hlength := congrArg List.length hpaths
    rw [List.length_map, List.length_eq_countP_add_countP Turn.opens] at hlength
    rw [← hlength, hcounted.processed, Nat.add_assoc]
    congr 3
    funext turn
    cases turn.opens <;> rfl
  · rw [record, hevents]
    rfl

theorem run_counts_four :
    let session := start ⟨[], [⟨["a.ogg"], some .oggVorbis, none, ⟨none, none, none⟩⟩,
      ⟨["b.aac"], some .monkeysAudio, none, ⟨none, none, none⟩⟩,
      ⟨["c.txt"], none, none, ⟨none, none, none⟩⟩]⟩
    let options : Options := ⟨[.assign .title (.text "New")],
      some ⟨"%g", [.placeholder ⟨.genre, none, .downcase⟩]⟩,
      some ⟨"%T", [.placeholder ⟨.title, none, .preserve⟩]⟩, .shell, false, false⟩
    let inputs := ["a.ogg", "b.aac", "c.txt", "d.mp3"]
    let turns := session.turns options inputs
    ∃ after, run options inputs session = .ok false after ∧
      session.Counts options turns false after ∧ after.tally = ⟨2, 2, 2, 3⟩ ∧
      turns.map (Turn.fails options) = [false, true, true, true] ∧
      turns.map Turn.opens = [true, true, false, false] ∧
      (turns.flatMap (Turn.told options)).filter Event.isRenamed =
        [.renamed "a.ogg" "New.ogg", .renamed "b.aac" "New.aac"] := by
  intro session options inputs turns
  have hrun : run options inputs session = .ok false (leftBy (run options inputs) session) :=
    eq_ok_of_resultOf (by decide +kernel)
  have hcounts := (run_counts hrun).2.1
  exact ⟨_, hrun, hcounts, by decide +kernel, by decide +kernel, by decide +kernel,
    by decide +kernel⟩

end Session

end LinerNotes
