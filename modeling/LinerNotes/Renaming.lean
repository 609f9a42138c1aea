import LinerNotes.Journal
import LinerNotes.Tree

/-!
Renaming a file within its directory without taking the place of another.
-/

namespace LinerNotes.Tree

/-- What a rename came to: the tree, the entry in the log, and the path of the file. -/
structure Renamed where
  tree : Tree
  event : Event
  path : String
deriving DecidableEq

/-- Gives the file at a path a new name. A file that has the name already is left alone, and a name
that is taken is refused. A dry run changes nothing. -/
def renameFile (tree : Tree) (source name : String) (dryRun : Bool) : Except Failure Renamed :=
  let target := Path.join (Path.directory source) name
  if Path.name source = name then .ok ⟨tree, .alreadyNamed name, source⟩
  else if tree.pathExists target then .error (.collision source name)
  else if dryRun then .ok ⟨tree, .wouldRename source name, target⟩
  else (tree.rename source target).map fun tree => ⟨tree, .renamed source name, target⟩

end LinerNotes.Tree
