import LinerNotes.Batch.Session
import LinerNotes.CommandLine.Arguments
import LinerNotes.CommandLine.Help

/-!
Following a command line on a file tree.
-/

namespace LinerNotes

/-- What following a command line comes to: the exit status, or the failure that nothing on the way
dealt with, what was written to the two outputs, the entries in the log with the level at which it
begins, and the tree afterwards. -/
structure Execution where
  status : Except Failure Nat
  output : String
  errors : String
  level : Level
  events : List Event
  tree : Tree

namespace Execution

/-- The execution of a command line that asks for nothing to be done. -/
def ofHalt (tree : Tree) : Halt → Execution
  | .help => ⟨.ok 0, Help.text, "", .info, [], tree⟩
  | .version => ⟨.ok 0, Help.version, "", .info, [], tree⟩
  | .misuse misuse => ⟨.ok 2, "", Help.complaint misuse.message, .info, [], tree⟩
  | .failure cause => ⟨.error cause, "", "", .info, [], tree⟩

/-- The level at which the log begins. -/
def levelFor (arguments : Arguments) : Level :=
  arguments.logging.get?.getD .info

def ofBatch (level : Level) : EStateM.Result Failure Session Bool → Execution
  | .ok fine session =>
      ⟨.ok (if fine then 0 else 1), Help.block session.printed, "", level, session.events,
        session.tree⟩
  | .error failure session =>
      ⟨.error failure, Help.block session.printed, "", level, session.events, session.tree⟩

end Execution

/-- Does what the arguments say; without files, shows how to use the program. -/
def Arguments.execute (arguments : Arguments) (tree : Tree) : Execution :=
  let level := Execution.levelFor arguments
  if arguments.files = [] then ⟨.ok 1, "", Help.usage, level, [], tree⟩
  else
    Execution.ofBatch level (Session.run arguments.options arguments.files (Session.start tree))

def execute (argv : List String) (tree : Tree) : Execution :=
  match Arguments.read argv with
  | .error halt => Execution.ofHalt tree halt
  | .ok arguments => arguments.execute tree

end LinerNotes
