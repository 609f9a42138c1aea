import LinerNotes.Field
import LinerNotes.Numeral
import LinerNotes.Path

/-!
Everything that can go wrong, by cause. A problem with one file is reported and the batch goes on to
the next step; any other failure ends the run.
-/

namespace LinerNotes

/-- A failure that reading or writing an audio file brings up by itself. -/
inductive Fault where
  /-- the tag codec gives up -/
  | codec (text : String)
  /-- the operating system refuses -/
  | system (text : String)
  /-- a value inside the file is impossible -/
  | value (text : String)
  /-- the format does not offer the operation -/
  | unsupported (text : String)
deriving DecidableEq

def Fault.text : Fault → String
  | .codec text => text
  | .system text => text
  | .value text => text
  | .unsupported text => text

/-- Why the operating system does not follow a path. -/
inductive PathFault where
  | missing
  | notADirectory
  | isADirectory
  | nameTooLong
deriving DecidableEq

def PathFault.number : PathFault → Nat
  | .missing => 2
  | .notADirectory => 20
  | .isADirectory => 21
  | .nameTooLong => 36

def PathFault.wording : PathFault → String
  | .missing => "No such file or directory"
  | .notADirectory => "Not a directory"
  | .isADirectory => "Is a directory"
  | .nameTooLong => "File name too long"

/-- What stopped an operation. -/
inductive Failure where
  | unknownField (cause : UnknownField)
  /-- a text that gives no number, or a number that gives no text -/
  | numeral (cause : Numeral.Fault)
  | notAnInteger (field : Field) (raw : String)
  | notFound (path : String)
  | notRecognised (path : String)
  | notOpened (path reason : String)
  | notTaggable (path reason : String)
  | saveRefused (path : String)
  | saveFailed (path reason : String)
  | mismatch (path spec : String)
  | collision (path name : String)
  | renameFailed (cause : PathFault) (source target : String)
  /-- a path that no file can have -/
  | nulInPath
  /-- a track number or total that the format cannot hold -/
  | pairOutOfRange (number total : Int)
  | closed
  /-- text is needed where there is none -/
  | notText
  /-- a fault that nothing on the way deals with -/
  | uncaught (fault : Fault)
deriving DecidableEq

namespace Failure

def message : Failure → String
  | .unknownField cause => cause.message
  | .numeral cause => cause.message
  | .notAnInteger field raw => "invalid integer for " ++ field.name ++ ": '" ++ raw ++ "'"
  | .notFound path => "File not found: " ++ path
  | .notRecognised path => "Not a recognised audio file: " ++ Path.name path
  | .notOpened path reason => "Could not open " ++ Path.name path ++ ": " ++ reason
  | .notTaggable path reason => "Cannot add tags to " ++ Path.name path ++ ": " ++ reason
  | .saveRefused path =>
      "Refusing to save " ++ Path.name path ++ ": writing " ++ Text.lower (Path.suffix path) ++
        " files is not safe"
  | .saveFailed path reason => "Error saving " ++ Path.name path ++ ": " ++ reason
  | .mismatch path spec => "Filename does not match '" ++ spec ++ "': " ++ Path.name path
  | .collision path name =>
      "CONFLICT: Target file already exists, not renaming " ++ Path.name path ++ " -> " ++ name
  | .renameFailed cause source target =>
      "[Errno " ++ toString cause.number ++ "] " ++ cause.wording ++ ": " ++ Text.quoted source ++
        " -> " ++ Text.quoted target
  | .nulInPath => "embedded null byte"
  | .pairOutOfRange number total =>
      "invalid numeric pair (" ++ Numeral.text number ++ ", " ++ Numeral.text total ++ ")"
  | .closed => "the file is closed"
  | .notText => "text is missing"
  | .uncaught fault => fault.text

/-- How far a failure reaches. -/
inductive Reach where
  /-- the failure of a step on one file, which is reported in its own words -/
  | file
  /-- a refusal by the operating system, which is reported for the file being processed -/
  | system
  | run
deriving DecidableEq

def reach : Failure → Reach
  | .notFound _ => .file
  | .notRecognised _ => .file
  | .notOpened _ _ => .file
  | .notTaggable _ _ => .file
  | .saveRefused _ => .file
  | .saveFailed _ _ => .file
  | .mismatch _ _ => .file
  | .collision _ _ => .file
  | .renameFailed _ _ _ => .system
  | .uncaught (.system _) => .system
  | _ => .run

/-- The report of a failed step on the file at a path, if the failure does not end the run. -/
def report? (path : String) (failure : Failure) : Option String :=
  match failure.reach with
  | .file => some failure.message
  | .system => some ("Failed to process " ++ Path.name path ++ ": " ++ failure.message)
  | .run => none

/-- The result of a reading or writing of numbers, as a result of the whole program. -/
def ofNumeral {α : Type} (result : Except Numeral.Fault α) : Except Failure α :=
  result.mapError .numeral

/-- The result of a look-up in the fields, as a result of the whole program. -/
def ofField {α : Type} (result : Except UnknownField α) : Except Failure α :=
  result.mapError .unknownField

end Failure

end LinerNotes
