import LinerNotes.Batch.Listing
import LinerNotes.Batch.Options
import LinerNotes.Workbench

/-!
The visit of a batch to one file. Every step is taken, also after one that failed; a failure that
concerns more than the file ends the visit.
-/

namespace LinerNotes

/-- What a visit came to: the tree after it, its entries in the log, the lines it printed, whether
the file was opened, how often it was saved and renamed, and whether all went well. -/
structure Visit where
  tree : Tree
  events : List Event
  printed : List String
  opened : Bool
  saves : Nat
  renames : Nat
  outcome : Except Failure Bool

namespace Step

def saveUnlessDry (dryRun : Bool) : Job Unit := do
  if dryRun then Job.log (.wouldSave (← get).handle.path) else Job.save

def perform (options : Options) : Step → Job Unit
  | .extract spec => do
      let path := (← get).handle.path
      if ← Job.extract spec (Path.stem path) then saveUnlessDry options.dryRun
      else throw (.mismatch path spec.source)
  | .edit edits => do
      Job.announce edits (← get).handle.path
      Job.edit edits
      saveUnlessDry options.dryRun
  | .rename spec => do
      let name ← Job.newName spec (some options.hazard)
      Job.rename name options.dryRun

/-- Takes a step and tells whether it went well; a failure that concerns the file alone is put into
the log. -/
def attempt (options : Options) (step : Step) : Job Bool := fun bench =>
  match step.perform options bench with
  | .ok _ bench => .ok true bench
  | .error failure bench =>
      match failure.report? bench.handle.path with
      | some report => .ok false (bench.record (.failed bench.handle.path report))
      | none => .error failure bench

def attemptAll (options : Options) : List Step → Job Bool
  | [] => pure true
  | step :: rest => do
      let fine ← step.attempt options
      let others ← attemptAll options rest
      return fine && others

end Step

namespace Visit

def ofRefusal (tree : Tree) (path : String) (failure : Failure) : Visit :=
  match failure.reach with
  | .file => ⟨tree, [.failed path failure.message], [], false, 0, 0, .ok false⟩
  | _ => ⟨tree, [], [], false, 0, 0, .error failure⟩

/-- The visit that only lists a file. -/
def ofListing (tree : Tree) (handle : Handle) (opened : Event) : Visit :=
  let (lines, failure?) := Listing.lines handle.path handle.read
  let outcome := match failure? with
    | none => .ok true
    | some failure => .error failure
  ⟨tree, [opened], lines, true, 0, 0, outcome⟩

def ofWork : EStateM.Result Failure Workbench Bool → Visit
  | .ok fine bench => ⟨bench.tree, bench.events, [], true, bench.saves, bench.renames, .ok fine⟩
  | .error failure bench =>
      ⟨bench.tree, bench.events, [], true, bench.saves, bench.renames, .error failure⟩

end Visit

def Options.visit (options : Options) (tree : Tree) (path : String) : Visit :=
  match Handle.openAt tree path with
  | .error failure => Visit.ofRefusal tree path failure
  | .ok (handle, opened) =>
      if options.isEditing then
        Visit.ofWork (Step.attemptAll options options.steps (Workbench.start tree handle opened))
      else Visit.ofListing tree handle opened

end LinerNotes
