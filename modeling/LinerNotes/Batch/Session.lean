import LinerNotes.Batch.Expansion
import LinerNotes.Batch.Visit

/-!
Batches of files. A session keeps the tree and the counts from batch to batch; a batch visits every
file that its inputs stand for and goes on past files that have problems.
-/

namespace LinerNotes

/-- The state of a session: the tree and the counts, and the log and the printed lines of the
batches so far. -/
structure Session where
  tree : Tree
  tally : Tally
  events : List Event
  printed : List String
deriving DecidableEq

namespace Tally

def zero : Tally := ⟨0, 0, 0, 0⟩

/-- The counts after one more visit. A visit that ended the run is not counted as a failed file. -/
def add (tally : Tally) (visit : Visit) : Tally where
  processed := tally.processed + if visit.opened then 1 else 0
  saved := tally.saved + visit.saves
  renamed := tally.renamed + visit.renames
  failed := tally.failed +
    match visit.outcome with
    | .ok false => 1
    | _ => 0

end Tally

namespace Session

/-- The session that begins with a tree. -/
def start (tree : Tree) : Session :=
  ⟨tree, .zero, [], []⟩

/-- The session with its log and its printed lines taken away. -/
def settled (session : Session) : Session :=
  { session with events := [], printed := [] }

def add (session : Session) (visit : Visit) : Session where
  tree := visit.tree
  tally := session.tally.add visit
  events := session.events ++ visit.events
  printed := session.printed ++ visit.printed

def record (session : Session) (events : List Event) : Session :=
  { session with events := session.events ++ events }

def visit (options : Options) (path : String) : EStateM Failure Session Bool := fun session =>
  let visit := options.visit session.tree path
  match visit.outcome with
  | .ok fine => .ok fine (session.add visit)
  | .error failure => .error failure (session.add visit)

/-- Visits the files at several paths and tells whether all went well. -/
def visitAll (options : Options) : List String → EStateM Failure Session Bool
  | [] => pure true
  | path :: rest => do
      let fine ← visit options path
      let others ← visitAll options rest
      return fine && others

def closing (options : Options) (tally : Tally) : List Event :=
  (if options.isEditing then [.completed options.dryRun tally] else []) ++
    (if tally.failed = 0 then [] else [.problems tally.failed])

def run (options : Options) (inputs : List String) : EStateM Failure Session Bool := do
  let tree := (← get).tree
  modify (·.record (tree.searchEvents options.recursive inputs))
  let fine ← visitAll options (tree.expand options.recursive inputs)
  modify fun session => session.record (closing options session.tally)
  return fine

end Session

end LinerNotes
