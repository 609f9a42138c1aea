import LinerNotes.Edit
import LinerNotes.Format

/-!
The log: what happened, by kind of event. Level, source and wording of an entry follow from the
event.
-/

namespace LinerNotes

/-- How important an entry is. -/
inductive Level where
  | debug
  | info
  | error
deriving DecidableEq

namespace Level

def name : Level → String
  | .debug => "DEBUG"
  | .info => "INFO"
  | .error => "ERROR"

/-- The place of a level in the order of importance. -/
def rank : Level → Nat
  | .debug => 0
  | .info => 1
  | .error => 2

end Level

/-- The counts that a batch keeps. -/
structure Tally where
  processed : Nat
  saved : Nat
  renamed : Nat
  failed : Nat
deriving DecidableEq

/-- Something that is worth an entry in the log. -/
inductive Event where
  | opened (path : String) (format : Format)
  | cleared (path : String) (field : Field)
  | wrote (path : String) (field : Field) (text : String)
  | saved (path : String)
  | noMatch (name spec : String)
  | alreadyNamed (name : String)
  | renamed (path name : String)
  | wouldRename (path name : String)
  | found (count : Nat) (directory : String)
  | applying (descriptions : List String) (path : String)
  | wouldSave (path : String)
  | failed (path report : String)
  | completed (dryRun : Bool) (tally : Tally)
  | problems (count : Nat)
deriving DecidableEq

namespace Event

def level : Event → Level
  | .renamed _ _ => .info
  | .wouldRename _ _ => .info
  | .wouldSave _ => .info
  | .completed _ _ => .info
  | .failed _ _ => .error
  | .problems _ => .error
  | _ => .debug

def source : Event → String
  | .opened _ _ => "TagFile"
  | .cleared _ _ => "TagFile"
  | .wrote _ _ _ => "TagFile"
  | .saved _ => "TagFile"
  | .noMatch _ _ => "TagExtractor"
  | .alreadyNamed _ => "TagRenamer"
  | .renamed _ _ => "TagRenamer"
  | .wouldRename _ _ => "TagRenamer"
  | _ => "Tagsmith"

def message : Event → String
  | .opened path format => "Opened " ++ Path.name path ++ " as " ++ format.name
  | .cleared path field => "Cleared " ++ field.name ++ " in " ++ Path.name path
  | .wrote path field text =>
      "Set " ++ field.name ++ "=" ++ Text.quoted text ++ " in " ++ Path.name path
  | .saved path => "Saved tags to " ++ Path.name path
  | .noMatch name spec => "'" ++ name ++ "' does not match '" ++ spec ++ "'"
  | .alreadyNamed name => "File already has correct name: " ++ name
  | .renamed path name => "Renamed: " ++ Path.name path ++ " -> " ++ name
  | .wouldRename path name => "[DRY RUN] Would rename: " ++ Path.name path ++ " -> " ++ name
  | .found count directory => "Found " ++ toString count ++ " audio files in " ++ directory
  | .applying descriptions path =>
      "Applying " ++ ", ".intercalate descriptions ++ " to " ++ Path.name path
  | .wouldSave path => "[DRY RUN] Would save tags: " ++ Path.name path
  | .failed _ report => report
  | .completed dryRun tally =>
      (if dryRun then "Dry run completed" else "Completed") ++ ": " ++ toString tally.processed ++
        " files processed, " ++ toString tally.saved ++ " saved, " ++
        toString tally.renamed ++ " renamed"
  | .problems count => "ERRORS: " ++ toString count ++ " files had problems, see messages above"

/-- Whether an event is important enough for a log that begins at a level. -/
def passes (least : Level) (event : Event) : Bool :=
  least.rank ≤ event.level.rank

end Event

end LinerNotes
