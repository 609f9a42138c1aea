import LinerNotes.Proofs.Counting
import LinerNotes.Proofs.Searching

/-!
Without a renaming the order of the inputs does not matter. A visit reads and writes nothing but the
file that its path leads to, so visits to different files may change places, and of two visits to
one file, however its path is spelled, the first does the same whichever it is. Every order of the
inputs comes from such exchanges.
-/

namespace LinerNotes

/-- Tags that were saved to the file at a place. -/
structure Saving where
  location : Location
  tags : Option Container

/-- The tree after a save, if there was one. -/
def Tree.afterSaving (tree : Tree) : Option Saving → Tree
  | some saving => tree.store saving.location saving.tags
  | none => tree

/-- A file after a save to it or to another file, if there was one. -/
def File.afterSaving (saving? : Option Saving) (file : File) : File :=
  match saving? with
  | some saving => file.retagged saving.location saving.tags
  | none => file

theorem File.afterSaving_of_ne {saving? : Option Saving} {file : File}
    (h : ∀ saving ∈ saving?, file.location ≠ saving.location) :
    file.afterSaving saving? = file := by
  cases saving? with
  | none => rfl
  | some saving => exact if_neg (h saving rfl)

namespace Tree

theorem file?_afterSaving (tree : Tree) (saving? : Option Saving) (path : String) :
    (tree.afterSaving saving?).file? path = (tree.file? path).map (File.afterSaving saving?) := by
  cases saving? with
  | none => exact Option.map_id'.symm
  | some saving => exact file?_store_eq tree saving.location saving.tags path

theorem store_comm (tree : Tree) {location place : Location} (h : location ≠ place)
    (tags others : Option Container) : (tree.store location tags).store place others =
      (tree.store place others).store location tags := by
  have hfiles : ((tree.store location tags).store place others).files =
      ((tree.store place others).store location tags).files := by
    simp only [files_store, List.map_map]
    congr 1
    funext file
    simp only [Function.comp_apply, File.retagged]
    by_cases hlocation : file.location = location
    · simp [hlocation, h]
    · simp only [hlocation, if_false]
      split <;> simp
  exact Tree.mk.injEq _ _ _ _ ▸ ⟨rfl, hfiles⟩

theorem afterSaving_comm (tree : Tree) {saving? other? : Option Saving}
    (h : ∀ saving ∈ saving?, ∀ other ∈ other?, saving.location ≠ other.location) :
    (tree.afterSaving saving?).afterSaving other? =
      (tree.afterSaving other?).afterSaving saving? := by
  cases saving? with
  | none => rfl
  | some saving =>
      cases other? with
      | none => rfl
      | some other => exact tree.store_comm (h saving rfl other rfl) saving.tags other.tags

theorem store_afterSaving (tree : Tree) {saving? : Option Saving} {location : Location}
    (h : ∀ saving ∈ saving?, saving.location = location) (tags : Option Container) :
    (tree.afterSaving saving?).store location tags = tree.afterSaving (some ⟨location, tags⟩) := by
  cases saving? with
  | none => rfl
  | some saving =>
      rw [afterSaving, h saving rfl, store_store]
      rfl

/-- Whether what was saved, if anything, was saved to the file that a path leads to. -/
def SavesAt (tree : Tree) (path : String) (saving? : Option Saving) : Prop :=
  ∀ saving ∈ saving?, ∃ file, tree.file? path = some file ∧ saving.location = file.location

theorem savesAt_none (tree : Tree) (path : String) : tree.SavesAt path none := by
  simp [SavesAt]

theorem file?_of_leadsApart {tree : Tree} {path other : String} {saving? : Option Saving}
    (hapart : tree.LeadsApart path other) (hsaves : tree.SavesAt path saving?) :
    (tree.afterSaving saving?).file? other = tree.file? other := by
  rw [file?_afterSaving]
  cases hother : tree.file? other with
  | none => rfl
  | some file' =>
      have hne : ∀ saving ∈ saving?, file'.location ≠ saving.location := by
        intro saving hsaving hlocation
        obtain ⟨file, hfile, hsaved⟩ := hsaves saving hsaving
        exact hapart file hfile file' hother (hsaved.symm.trans hlocation.symm)
      rw [Option.map_some, File.afterSaving_of_ne hne]

theorem exists_of_not_leadsApart {tree : Tree} {path other : String}
    (h : ¬ tree.LeadsApart path other) :
    ∃ file, tree.file? path = some file ∧ tree.file? other = some file := by
  simp only [LeadsApart, not_forall, not_not] at h
  obtain ⟨file, hfile, file', hfile', hlocation⟩ := h
  have hsame := fileAt?_of_file? hfile'
  rw [← hlocation, fileAt?_of_file? hfile] at hsame
  cases hsame
  exact ⟨file, hfile, hfile'⟩

end Tree

/-- Whether two workbenches, made up in two trees, stand alike: they have the same file opened and
the same saved to it, and tell and count the same. -/
structure Workbench.Alike (name : String) (tree tree' : Tree) (bench bench' : Workbench) :
    Prop where
  handle : bench.handle.Alike name bench'.handle
  saving : ∃ saving? : Option Saving,
    (∀ saving ∈ saving?, saving.location = bench.handle.location) ∧
      bench.tree = tree.afterSaving saving? ∧ bench'.tree = tree'.afterSaving saving?
  records : bench'.events.map Event.record = bench.events.map Event.record
  saves : bench'.saves = bench.saves
  renames : bench'.renames = bench.renames

namespace Workbench.Alike

variable {name : String} {tree tree' : Tree} {bench bench' : Workbench}

theorem start {handle handle' : Handle} {opened opened' : Event} (h : handle.Alike name handle')
    (hrecord : opened'.record = opened.record) :
    (Workbench.start tree handle opened).Alike name tree tree'
      (Workbench.start tree' handle' opened') where
  handle := h
  saving := ⟨none, by simp, rfl, rfl⟩
  records := congrArg (fun record => [record]) hrecord
  saves := rfl
  renames := rfl

theorem record (h : bench.Alike name tree tree' bench') {event event' : Event}
    (hrecord : event'.record = event.record) :
    (bench.record event).Alike name tree tree' (bench'.record event') where
  handle := h.handle
  saving := h.saving
  records := by simp [Workbench.record, h.records, hrecord]
  saves := h.saves
  renames := h.renames

theorem drafted (h : bench.Alike name tree tree' bench') (tags : Option Container)
    {news news' : List Event} (hrecords : news'.map Event.record = news.map Event.record) :
    (bench.drafted tags news).Alike name tree tree' (bench'.drafted tags news') where
  handle := h.handle.setTags tags
  saving := h.saving
  records := by simp [Workbench.drafted, h.records, hrecords]
  saves := h.saves
  renames := h.renames

end Workbench.Alike

theorem Failure.Alike.report?_eq {name path path' : String} {failure failure' : Failure}
    (h : failure.Alike name failure') (hname : Path.name path' = Path.name path) :
    failure'.report? path' = failure.report? path := by
  unfold report?
  rw [h.reach, h.message, hname]

namespace Step

variable {name : String} {tree tree' : Tree} {options : Options} {step : Step}
  {bench bench' : Workbench}

/-- Whether some work goes alike on two workbenches, and leaves them alike. -/
def GoesAlike (name : String) (tree tree' : Tree) (work : Job Unit) (bench bench' : Workbench) :
    Prop :=
  (∃ after after', work bench = .ok () after ∧ work bench' = .ok () after' ∧
    after.Alike name tree tree' after') ∨
  ∃ failure failure' after after', work bench = .error failure after ∧
    work bench' = .error failure' after' ∧ failure.Alike name failure' ∧
    after.Alike name tree tree' after'

theorem saveUnlessDry_alike (dryRun : Bool) (h : bench.Alike name tree tree' bench') :
    GoesAlike name tree tree' (saveUnlessDry dryRun) bench bench' := by
  cases dryRun with
  | true =>
      have hrecord : (Event.wouldSave bench'.handle.path).record =
          (Event.wouldSave bench.handle.path).record :=
        (Event.wouldSave bench.handle.path).record_respelled rfl h.handle.path h.handle.path'
      exact .inl ⟨_, _, rfl, rfl, h.record hrecord⟩
  | false =>
      rcases h.handle.toSave with ⟨tags, htags, htags'⟩ |
        ⟨failure, failure', hfails, hfails', halike⟩
      · refine .inl ⟨_, _, Job.save_eq htags, Job.save_eq htags', h.handle, ?_, ?_, ?_, h.renames⟩
        · obtain ⟨saving?, hlocation, htree, htree'⟩ := h.saving
          refine ⟨some ⟨bench.handle.location, tags⟩, by simp, ?_, ?_⟩
          · show bench.tree.store bench.handle.location tags = _
            rw [htree, Tree.store_afterSaving tree hlocation]
          · show bench'.tree.store bench'.handle.location tags = _
            rw [htree', h.handle.location, Tree.store_afterSaving tree' hlocation]
        · have hrecord : (Event.saved bench'.handle.path).record =
              (Event.saved bench.handle.path).record :=
            (Event.saved bench.handle.path).record_respelled rfl h.handle.path h.handle.path'
          exact (h.record hrecord).records
        · exact congrArg (· + 1) h.saves
      · exact .inr ⟨failure, failure', bench, bench', Job.save_eq_error hfails,
          Job.save_eq_error hfails', halike, h⟩

theorem perform_alike (hstep : step ∈ options.writing) (h : bench.Alike name tree tree' bench') :
    GoesAlike name tree tree' (step.perform options) bench bench' := by
  rw [perform_eq_draft hstep]
  obtain ⟨tags, news, news', -, hrecords, hcases⟩ := drafts_draft name step _ _ h.handle
  have hdrafted := h.drafted tags hrecords
  rcases hcases with ⟨_, hdraft, hdraft'⟩ | ⟨failure, failure', hfailure, hdraft, hdraft'⟩
  · rw [GoesAlike, Job.bind_of_ok (hdraft bench rfl), Job.bind_of_ok (hdraft' bench' rfl)]
    exact saveUnlessDry_alike options.dryRun hdrafted
  · exact .inr ⟨failure, failure', _, _, Job.bind_of_error (hdraft bench rfl),
      Job.bind_of_error (hdraft' bench' rfl), hfailure, hdrafted⟩

theorem attempt_alike (hstep : step ∈ options.writing) (h : bench.Alike name tree tree' bench')
    {fine : Bool} {after : Workbench} (hattempt : step.attempt options bench = .ok fine after) :
    ∃ after', step.attempt options bench' = .ok fine after' ∧
      after.Alike name tree tree' after' := by
  rcases attempt_eq_ok hattempt with ⟨hperform, rfl⟩ |
    ⟨failure, last, report, hperform, hreport, rfl, rfl⟩
  · rcases perform_alike hstep h with ⟨_, after', hok, hok', halike⟩ |
      ⟨failure, _, _, _, herror, -⟩
    · cases hperform.symm.trans hok
      exact ⟨after', attempt_of_ok hok', halike⟩
    · cases hperform.symm.trans herror
  · rcases perform_alike hstep h with ⟨_, _, hok, -⟩ |
      ⟨_, failure', _, last', herror, herror', hfailure, halike⟩
    · cases hperform.symm.trans hok
    · cases hperform.symm.trans herror
      have hreport' : failure'.report? last'.handle.path = some report :=
        (hfailure.report?_eq halike.handle.name_eq).trans hreport
      exact ⟨_, attempt_of_report herror' hreport', halike.record rfl⟩

theorem attemptAll_alike {steps : List Step} (hsteps : ∀ step ∈ steps, step ∈ options.writing)
    (h : bench.Alike name tree tree' bench') {fine : Bool} {after : Workbench}
    (hattempt : attemptAll options steps bench = .ok fine after) :
    ∃ after', attemptAll options steps bench' = .ok fine after' ∧
      after.Alike name tree tree' after' := by
  induction steps generalizing bench bench' fine with
  | nil =>
      cases hattempt
      exact ⟨bench', rfl, h⟩
  | cons step steps ih =>
      obtain ⟨first, middle, last, hfirst, hlast, rfl⟩ := attemptAll_cons_eq_ok hattempt
      obtain ⟨middle', hfirst', hmiddle⟩ := attempt_alike (hsteps step List.mem_cons_self) h hfirst
      obtain ⟨after', hlast', hafter⟩ :=
        ih (fun other hother => hsteps other (List.mem_cons_of_mem step hother)) hmiddle hlast
      exact ⟨after', attemptAll_cons_of_ok hfirst' hlast', hafter⟩

end Step

/-- Whether two visits came to the same, apart from their trees. -/
structure Visit.Alike (visit other : Visit) : Prop where
  outcome : other.outcome = visit.outcome
  records : other.events.map Event.record = visit.events.map Event.record
  opened : other.opened = visit.opened
  saves : other.saves = visit.saves
  renames : other.renames = visit.renames

namespace Visit

variable {tree tree' : Tree} {path path' : String} {fine : Bool}

theorem ofRefusal_alike {failure failure' : Failure} (h : failure.Alike (Path.name path) failure')
    (hfine : (ofRefusal tree path failure).outcome = .ok fine) :
    (ofRefusal tree path failure).Alike (ofRefusal tree' path' failure') := by
  unfold ofRefusal at hfine ⊢
  rw [h.reach]
  cases hreach : failure.reach with
  | file =>
      have hrecord : (Event.failed path' failure'.message).record =
          (Event.failed path failure.message).record :=
            congrArg (fun text => (_, _, text)) h.message
      exact ⟨rfl, congrArg (fun record => [record]) hrecord, rfl, rfl, rfl⟩
  | system =>
      rw [hreach] at hfine
      cases hfine
  | run =>
      rw [hreach] at hfine
      cases hfine

theorem ofListing_alike {name : String} {handle handle' : Handle} {opened opened' : Event}
    (h : handle.Alike name handle') (hrecord : opened'.record = opened.record) :
    (ofListing tree handle opened).Alike (ofListing tree' handle' opened') := by
  have hread : handle'.read = handle.read := by
    funext field
    rw [Handle.read, Handle.read, h.tags]
  unfold ofListing
  rw [hread]
  exact ⟨rfl, congrArg (fun record => [record]) hrecord, rfl, rfl, rfl⟩

end Visit

namespace Options

variable {options : Options} {tree tree' : Tree} {path path' : String} {fine : Bool}

/-- Whether the options ask for no renaming. -/
def Still (options : Options) : Prop :=
  ∀ spec ∈ options.rename, spec.isEmpty = true

theorem Still.steps_eq (h : options.Still) : options.steps = options.writing := by
  rw [options.steps_eq]
  rcases specStep_cases Step.rename options.rename with hnone | ⟨spec, -, hspec, hempty⟩
  · rw [hnone, List.append_nil]
  · rw [h spec hspec] at hempty
    cases hempty

/-- A visit depends on nothing but what its path leads to, and saves, if anything, to that file. -/
theorem visit_alike (hstill : options.Still) (h : tree.LeadsAlike path tree' path')
    (hfine : (options.visit tree path).outcome = .ok fine) :
    (options.visit tree path).Alike (options.visit tree' path') ∧ ∃ saving?,
      tree.SavesAt path saving? ∧ (options.visit tree path).tree = tree.afterSaving saving? ∧
        (options.visit tree' path').tree = tree'.afterSaving saving? := by
  rcases Handle.openAt_alike h with
    ⟨handle, handle', opened, opened', hopen, hopen', halike, hrecord⟩ |
    ⟨failure, failure', hopen, hopen', halike⟩
  · cases hediting : options.isEditing with
    | false =>
        have hvisit : options.visit tree path = Visit.ofListing tree handle opened := by
          simp [visit, hopen, hediting]
        have hvisit' : options.visit tree' path' = Visit.ofListing tree' handle' opened' := by
          simp [visit, hopen', hediting]
        rw [hvisit, hvisit']
        exact ⟨Visit.ofListing_alike halike hrecord, none, tree.savesAt_none path, rfl, rfl⟩
    | true =>
        have hvisit : options.visit tree path = Visit.ofWork
            (Step.attemptAll options options.writing (Workbench.start tree handle opened)) := by
          simp [visit, hopen, hediting, hstill.steps_eq]
        have hvisit' : options.visit tree' path' = Visit.ofWork
            (Step.attemptAll options options.writing (Workbench.start tree' handle' opened')) := by
          simp [visit, hopen', hediting, hstill.steps_eq]
        have hstart : (Workbench.start tree handle opened).Alike (Path.name path) tree tree'
            (Workbench.start tree' handle' opened') :=
          .start halike hrecord
        rw [hvisit] at hfine
        cases hattempt : Step.attemptAll options options.writing
            (Workbench.start tree handle opened) with
        | error failure after =>
            rw [hattempt] at hfine
            cases hfine
        | ok verdict after =>
            obtain ⟨after', hattempt', hafter⟩ :=
              Step.attemptAll_alike (fun _ => id) hstart hattempt
            obtain ⟨saving?, hlocation, htree, htree'⟩ := hafter.saving
            have hworked := options.onTags_writing (Workbench.start tree handle opened)
            rw [leftBy_of_ok hattempt] at hworked
            rw [hvisit, hvisit', hattempt, hattempt']
            refine ⟨⟨rfl, hafter.records, rfl, hafter.saves, hafter.renames⟩,
              saving?, ?_, htree, htree'⟩
            intro saving hsaving
            obtain ⟨file, format, hfile, -, -, -, rfl⟩ := Handle.openAt_eq_ok hopen
            exact ⟨file, hfile, (hlocation saving hsaving).trans hworked.location_eq⟩
  · have hvisit : options.visit tree path = Visit.ofRefusal tree path failure := by
      simp [visit, hopen]
    have hvisit' : options.visit tree' path' = Visit.ofRefusal tree' path' failure' := by
      simp [visit, hopen']
    refine ⟨?_, none, tree.savesAt_none path, tree_visit_of_error hopen, tree_visit_of_error hopen'⟩
    rw [hvisit] at hfine ⊢
    rw [hvisit']
    exact Visit.ofRefusal_alike halike hfine

/-- Of two visits the first may come second, or do what the second does. Either way both do the same
in all, and leave the same tree. -/
theorem visit_exchange (hstill : options.Still) {first last : Bool}
    (hfirst : (options.visit tree path).outcome = .ok first)
    (hlast : (options.visit (options.visit tree path).tree path').outcome = .ok last) :
    let one := options.visit tree path
    let two := options.visit one.tree path'
    let one' := options.visit tree path'
    let two' := options.visit one'.tree path
    two'.tree = two.tree ∧ (one.Alike two' ∧ two.Alike one' ∨ one.Alike one' ∧ two.Alike two') := by
  intro one two one' two'
  by_cases hapart : tree.LeadsApart path path'
  · obtain ⟨-, before?, hbefore, htree, -⟩ := visit_alike hstill (.of_file?_eq rfl) hfirst
    have hsecond : tree.file? path' = one.tree.file? path' := by
      rw [htree, Tree.file?_of_leadsApart hapart hbefore]
    obtain ⟨halike, later?, hlater, htwo, hone'⟩ :=
      visit_alike hstill (.of_file?_eq hsecond) hlast
    have hlater' : tree.SavesAt path' later? := by
      rw [Tree.SavesAt, hsecond]
      exact hlater
    have hfirst' : one'.tree.file? path = tree.file? path := by
      rw [hone', Tree.file?_of_leadsApart hapart.symm hlater']
    obtain ⟨halike', saving?, hsaving, hone, htwo'⟩ :=
      visit_alike hstill (.of_file?_eq hfirst') hfirst
    refine ⟨?_, .inl ⟨halike', halike⟩⟩
    have hplaces : ∀ saving ∈ saving?, ∀ other ∈ later?, saving.location ≠ other.location := by
      intro saving hsaved other hother
      obtain ⟨file, hfile, hlocation⟩ := hsaving saving hsaved
      obtain ⟨file', hfile', hlocation'⟩ := hlater' other hother
      rw [hlocation, hlocation']
      exact hapart file hfile file' hfile'
    calc two'.tree = one'.tree.afterSaving saving? := htwo'
      _ = (tree.afterSaving later?).afterSaving saving? := by rw [hone']
      _ = (tree.afterSaving saving?).afterSaving later? := (tree.afterSaving_comm hplaces).symm
      _ = one.tree.afterSaving later? := by rw [← hone]
      _ = two.tree := htwo.symm
  · obtain ⟨file, hfile, hfile'⟩ := Tree.exists_of_not_leadsApart hapart
    have hleads : tree.LeadsAlike path tree path' := ⟨hfile'.trans hfile.symm, by simp [hfile]⟩
    obtain ⟨halike, saving?, -, hone, hone'⟩ := visit_alike hstill hleads hfirst
    have hsame : one'.tree = one.tree := hone'.trans hone.symm
    have hleads' : one.tree.LeadsAlike path' one'.tree path := by
      constructor
      · rw [hsame, hone, Tree.file?_afterSaving, Tree.file?_afterSaving, hfile, hfile']
      · rw [hone, Tree.file?_afterSaving, hfile']
        nofun
    obtain ⟨halike', other?, -, htwo, htwo'⟩ := visit_alike hstill hleads' hlast
    refine ⟨?_, .inr ⟨halike, halike'⟩⟩
    rw [htwo', hsame]
    exact htwo.symm

end Options

namespace Tally

theorem add_of_alike {visit other : Visit} (h : visit.Alike other) (tally : Tally) :
    tally.add other = tally.add visit := by
  simp only [add, h.outcome, h.opened, h.saves, h.renames]

theorem add_comm (tally : Tally) (visit other : Visit) :
    (tally.add visit).add other = (tally.add other).add visit := by
  simp only [add, Nat.add_right_comm]

end Tally

namespace Session

/-- Whether two sessions have the same files and counts, and the same entries in their logs up to
order. -/
structure Agrees (session other : Session) : Prop where
  tree : other.tree = session.tree
  tally : other.tally = session.tally
  records : (other.events.map Event.record).Perm (session.events.map Event.record)

namespace Agrees

variable {session between other : Session}

theorem refl (session : Session) : session.Agrees session :=
  ⟨rfl, rfl, .refl _⟩

theorem trans (h : session.Agrees between) (h' : between.Agrees other) : session.Agrees other :=
  ⟨h'.tree.trans h.tree, h'.tally.trans h.tally, h'.records.trans h.records⟩

theorem record (h : session.Agrees other) {events others : List Event}
    (hevents : (others.map Event.record).Perm (events.map Event.record)) :
    (session.record events).Agrees (other.record others) := by
  refine ⟨h.tree, h.tally, ?_⟩
  rw [Session.record, Session.record, List.map_append, List.map_append]
  exact h.records.append hevents

theorem add (h : session.Agrees other) (visit : Visit) :
    (session.add visit).Agrees (other.add visit) := by
  refine ⟨rfl, by rw [Session.add, Session.add, h.tally], ?_⟩
  rw [Session.add, Session.add, List.map_append, List.map_append]
  exact h.records.append_right _

theorem add_exchange (session : Session) {one two one' two' : Visit} (htree : two'.tree = two.tree)
    (h : one.Alike two' ∧ two.Alike one' ∨ one.Alike one' ∧ two.Alike two') :
    ((session.add one).add two).Agrees ((session.add one').add two') := by
  refine ⟨htree, ?_, ?_⟩
  · rcases h with ⟨hone, htwo⟩ | ⟨hone, htwo⟩
    · simp only [Session.add, Tally.add_of_alike hone, Tally.add_of_alike htwo,
        Tally.add_comm _ one two]
    · simp only [Session.add, Tally.add_of_alike hone, Tally.add_of_alike htwo]
  · simp only [Session.add, List.append_assoc, List.map_append]
    refine List.Perm.append_left _ ?_
    rcases h with ⟨hone, htwo⟩ | ⟨hone, htwo⟩
    · rw [hone.records, htwo.records]
      exact List.perm_append_comm
    · rw [hone.records, htwo.records]

end Agrees

variable {options : Options} {session other after : Session} {fine : Bool}

theorem visitAll_cons_of_ok {path : String} {paths : List String} {first last : Bool}
    (hfirst : (options.visit session.tree path).outcome = .ok first)
    (hlast : visitAll options paths (session.add (options.visit session.tree path)) =
      .ok last after) :
    visitAll options (path :: paths) session = .ok (first && last) after := by
  rw [visitAll_cons_eq, hfirst]
  simp only [hlast]

theorem visitAll_of_agrees {paths : List String} (h : session.Agrees other)
    (hvisits : visitAll options paths session = .ok fine after) :
    ∃ after', visitAll options paths other = .ok fine after' ∧ after.Agrees after' := by
  induction paths generalizing session other fine with
  | nil =>
      cases hvisits
      exact ⟨other, rfl, h⟩
  | cons path paths ih =>
      obtain ⟨first, last, hfirst, hlast, rfl⟩ := visitAll_cons_eq_ok hvisits
      obtain ⟨after', hlast', hafter⟩ := ih (h.add (options.visit session.tree path)) hlast
      rw [← h.tree] at hfirst hlast'
      exact ⟨after', visitAll_cons_of_ok hfirst hlast', hafter⟩

theorem visitAll_swap (hstill : options.Still) {path path' : String} {paths : List String}
    (h : visitAll options (path :: path' :: paths) session = .ok fine after) :
    ∃ after', visitAll options (path' :: path :: paths) session = .ok fine after' ∧
      after.Agrees after' := by
  obtain ⟨first, rest, hfirst, hrest, rfl⟩ := visitAll_cons_eq_ok h
  obtain ⟨second, last, hsecond, hlast, rfl⟩ := visitAll_cons_eq_ok hrest
  obtain ⟨htree, halike⟩ := Options.visit_exchange hstill hfirst hsecond
  obtain ⟨after', hlast', hafter⟩ :=
    visitAll_of_agrees (Agrees.add_exchange session htree halike) hlast
  refine ⟨after', ?_, hafter⟩
  rcases halike with ⟨hone, htwo⟩ | ⟨hone, htwo⟩
  · rw [Bool.and_left_comm]
    exact visitAll_cons_of_ok (htwo.outcome.trans hsecond)
      (visitAll_cons_of_ok (hone.outcome.trans hfirst) hlast')
  · exact visitAll_cons_of_ok (hone.outcome.trans hfirst)
      (visitAll_cons_of_ok (htwo.outcome.trans hsecond) hlast')

theorem visitAll_perm (hstill : options.Still) {paths others : List String}
    (hperm : paths.Perm others) (h : visitAll options paths session = .ok fine after) :
    ∃ after', visitAll options others session = .ok fine after' ∧ after.Agrees after' := by
  -- of the four ways to permute only the exchange of two neighbours says anything about visits
  induction hperm generalizing session after fine with
  | nil => exact ⟨after, h, .refl after⟩
  | cons path hperm ih =>
      obtain ⟨first, last, hfirst, hlast, rfl⟩ := visitAll_cons_eq_ok h
      obtain ⟨after', hlast', hafter⟩ := ih hlast
      exact ⟨after', visitAll_cons_of_ok hfirst hlast', hafter⟩
  | swap path path' paths => exact visitAll_swap hstill h
  | trans hperm hperm' ih ih' =>
      obtain ⟨between, hbetween, hagrees⟩ := ih h
      obtain ⟨after', hafter', hagrees'⟩ := ih' hbetween
      exact ⟨after', hafter', hagrees.trans hagrees'⟩

/-- Without a renaming the order of the inputs does not matter. A batch that comes to its end comes
to its end with its inputs in any order, with the same verdict, the same tags in every file, the
same counts, and the same entries in the log up to order. -/
theorem run_reordered (hstill : options.Still) {inputs others : List String}
    (hperm : inputs.Perm others) (h : run options inputs session = .ok fine after) :
    ∃ after', run options others session = .ok fine after' ∧ after'.tree = after.tree ∧
      after'.tally = after.tally ∧
      (after'.events.map Event.record).Perm (after.events.map Event.record) := by
  have hpaths : (session.tree.expand options.recursive inputs).Perm
      (session.tree.expand options.recursive others) := hperm.flatMap_right _
  have hsearch : ((session.tree.searchEvents options.recursive others).map Event.record).Perm
      ((session.tree.searchEvents options.recursive inputs).map Event.record) :=
    (hperm.symm.filterMap _).map _
  obtain ⟨last, hvisits, rfl⟩ := run_eq_ok h
  obtain ⟨between, hbetween, hagrees⟩ := visitAll_perm hstill hpaths hvisits
  obtain ⟨last', hlast', hagrees'⟩ :=
    visitAll_of_agrees ((Agrees.refl session).record hsearch) hbetween
  have hlast := hagrees.trans hagrees'
  have hclosed := hlast.record (.refl ((closing options last.tally).map Event.record))
  refine ⟨_, ?_, hclosed.tree, hclosed.tally, hclosed.records⟩
  rw [run_eq, hlast', ← hlast.tally]

theorem run_reordered_spellings :
    let session := start ⟨[["d"]], [⟨["a.ogg"], some .oggVorbis, none, ⟨none, none, none⟩⟩,
      ⟨["d", "b.mp3"], some .mp3, none, ⟨none, none, none⟩⟩]⟩
    let options : Options := ⟨[.assign .title (.text "New")],
      some ⟨"%g", [.placeholder ⟨.genre, none, .downcase⟩]⟩, none, .shell, false, true⟩
    let inputs := ["a.ogg", "d", "./a.ogg", "c.mp3"]
    let others := ["c.mp3", "./a.ogg", "a.ogg", "d"]
    ∃ after after', run options inputs session = .ok false after ∧
      run options others session = .ok false after' ∧ after'.tree = after.tree ∧
      after'.tally = after.tally ∧ after.tally = ⟨3, 6, 0, 1⟩ ∧
      (after'.events.map Event.record).Perm (after.events.map Event.record) ∧
      (leftBy (run options others) session).events.map Event.record ≠
        after.events.map Event.record := by
  intro session options inputs others
  have hstill : options.Still := nofun
  have hrun : run options inputs session = .ok false (leftBy (run options inputs) session) :=
    eq_ok_of_resultOf (by decide +kernel)
  obtain ⟨after', hrun', htree, htally, hrecords⟩ :=
    run_reordered hstill (show inputs.Perm others by decide +kernel) hrun
  exact ⟨_, after', hrun, hrun', htree, htally, by decide +kernel, hrecords, by decide +kernel⟩

end Session

end LinerNotes
