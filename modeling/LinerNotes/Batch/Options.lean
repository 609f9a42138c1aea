import LinerNotes.Edit
import LinerNotes.Hazard
import LinerNotes.Spec.Basic

/-!
What a batch is asked to do with every file.
-/

namespace LinerNotes

/-- One step of the work on a file. -/
inductive Step where
  | extract (spec : Spec)
  | edit (edits : List Edit)
  | rename (spec : Spec)
deriving DecidableEq

/-- The options of a batch. -/
structure Options where
  edits : List Edit
  extract : Option Spec
  rename : Option Spec
  hazard : Hazard
  dryRun : Bool
  recursive : Bool
deriving DecidableEq

namespace Options

/-- The step that a spec asks for. A missing or empty spec asks for nothing. -/
def specStep (step : Spec → Step) : Option Spec → List Step
  | some spec => if spec.isEmpty then [] else [step spec]
  | none => []

/-- The steps to take with each file, in order. -/
def steps (options : Options) : List Step :=
  specStep .extract options.extract ++
    (if options.edits.isEmpty then [] else [.edit options.edits]) ++
    specStep .rename options.rename

/-- Whether there is anything to do; otherwise the files are only listed. -/
def isEditing (options : Options) : Bool :=
  !options.steps.isEmpty

end Options

end LinerNotes
