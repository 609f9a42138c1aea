import LinerNotes.Batch.Options
import LinerNotes.CommandLine.Item
import LinerNotes.Input
import LinerNotes.Journal
import LinerNotes.Spec.Reading

/-!
What a command line says: the files, and what is to be done with them. The items are taken from left
to right; the first that is wrong, or asks for help or the version, decides.
-/

namespace LinerNotes

/-- What a command line says about something that takes a value. -/
inductive Setting (α : Type) where
  | unset
  | blank
  | value (a : α)
deriving DecidableEq

def Setting.get? {α : Type} : Setting α → Option α
  | .value a => some a
  | _ => none

/-- What a command line says. -/
structure Arguments where
  files : List String
  edits : List Edit
  extract : Setting Spec
  rename : Setting Spec
  hazard : Hazard
  dryRun : Bool
  recursive : Bool
  logging : Setting Level
deriving DecidableEq

/-- Why a command line asks for nothing to be done. -/
inductive Halt where
  | help
  | version
  | misuse (misuse : Misuse)
  | failure (cause : Failure)
deriving DecidableEq

namespace Arguments

def none : Arguments :=
  ⟨[], [], .unset, .unset, .shell, false, false, .unset⟩

def options (arguments : Arguments) : Options :=
  ⟨arguments.edits, arguments.extract.get?, arguments.rename.get?, arguments.hazard,
    arguments.dryRun, arguments.recursive⟩

/-- The logging levels that can be chosen, with the level at which the log then begins. -/
def loggingChoices : List (String × Level) := [("low", .info), ("high", .debug)]

def addEdits (arguments : Arguments) (edits : List Edit) : Arguments :=
  { arguments with edits := arguments.edits ++ edits }

def refuse {α : Type} (flag : Flag) (fault : FlagFault) : Except Halt α :=
  .error (.misuse (.wrongUse flag fault))

def valued {α : Type} (flag : Flag) (result : Except Failure α) : Except Halt α :=
  result.mapError fun cause => .misuse (.wrongUse flag (.badValue cause))

def applyBare (arguments : Arguments) : Flag → Except Halt Arguments
  | .help => .error .help
  | .version => .error .version
  | .clear field => .ok (arguments.addEdits [.clear field])
  | .clearAll => .ok (arguments.addEdits Edit.clearAll)
  | .dryRun => .ok { arguments with dryRun := true }
  | .recursive => .ok { arguments with recursive := true }
  | flag => refuse flag .valueMissing

def applyValue (arguments : Arguments) (value : String) : Flag → Except Halt Arguments
  | .assign field => do
      let parsed ← valued (.assign field) (field.parse value)
      return arguments.addEdits [.assign field parsed]
  | .extract => do
      let spec ← valued .extract (Failure.ofField (Spec.read value))
      return { arguments with extract := .value spec }
  | .rename hazard => do
      let spec ← valued (.rename hazard) (Failure.ofField (Spec.read value))
      return { arguments with rename := .value spec, hazard := hazard }
  | .logging =>
      match loggingChoices.lookup value with
      | some level => .ok { arguments with logging := .value level }
      | .none => refuse .logging (.badChoice value (loggingChoices.map (·.1)))
  | flag => refuse flag (.valueUnwanted value)

/-- The arguments after a flag that has nothing for a value. A text field is assigned nothing; for
an integer field there is no text to read. -/
def applyNothing (arguments : Arguments) : Flag → Except Halt Arguments
  | .assign field =>
      if field.isNumeric then .error (.failure .notText)
      else .ok (arguments.addEdits [.assignNothing field])
  | .extract => .ok { arguments with extract := .blank }
  | .rename hazard => .ok { arguments with rename := .blank, hazard := hazard }
  | .logging => .ok { arguments with logging := .blank }
  | flag => refuse flag .valueMissing

def plainNext : List Item → Bool
  | .plain _ :: _ => true
  | _ => false

/-- Checks the letters attached to a short flag without value, each of which has to be a flag too.
What follows a flag with a value is that value; if nothing follows, the next item is. -/
def checkCluster (flag : Flag) (next : List Item) : List Char → Except Halt Unit
  | [] => refuse flag (.valueUnwanted "")
  | letter :: rest =>
      match Flag.spelled? (String.ofList ['-', letter]) with
      | .none => refuse flag (.valueUnwanted (String.ofList (letter :: rest)))
      | some inner =>
          if inner.takesValue then
            if rest = [] && !plainNext next then refuse inner .valueMissing else .ok ()
          else if rest = [] then .ok ()
          else checkCluster inner next rest

/-- The arguments after a flag with an attached value. Two dashes, which elsewhere separate the
files from the flags, are nothing for a value. -/
def applyAttached (arguments : Arguments) (text : String) (flag : Flag) (attached : List Char)
    (next : List Item) : Except Halt Arguments :=
  if flag.takesValue then
    if attached = ['-', '-'] then arguments.applyNothing flag
    else arguments.applyValue (String.ofList attached) flag
  else if text.toList.take 2 = ['-', '-'] then refuse flag (.valueUnwanted (String.ofList attached))
  else do
    checkCluster flag next attached
    arguments.applyBare flag

/-- Where the reading of files stands. Files are taken from one row of plain items only, and the
first separator in it is left out. -/
inductive Intake where
  | waiting
  | taking
  | closed
deriving DecidableEq

def Intake.afterFlag : Intake → Intake
  | .waiting => .waiting
  | _ => .closed

/-- Takes the items from left to right; `extras` are the arguments so far that nothing takes. -/
def scan (arguments : Arguments) (intake : Intake) (extras : List String) :
    List Item → Except Halt Arguments
  | [] => if extras = [] then .ok arguments else .error (.misuse (.unrecognised extras))
  | .plain text :: rest =>
      if intake = .closed then scan arguments .closed (extras ++ [text]) rest
      else scan { arguments with files := arguments.files ++ [text] } .taking extras rest
  | .separator :: rest =>
      if intake = .closed then scan arguments .closed (extras ++ ["--"]) rest
      else scan arguments .taking extras rest
  | .unknown text :: rest => scan arguments intake.afterFlag (extras ++ [text]) rest
  | .option text flag (some attached) :: rest => do
      let arguments ← arguments.applyAttached text flag attached rest
      scan arguments intake.afterFlag extras rest
  | .option _ flag .none :: rest =>
      if flag.takesValue then
        match rest with
        | .plain value :: rest => do
            let arguments ← arguments.applyValue value flag
            scan arguments intake.afterFlag extras rest
        | _ => refuse flag .valueMissing
      else do
        let arguments ← arguments.applyBare flag
        scan arguments intake.afterFlag extras rest

/-- What a command line says. Ambiguous abbreviations are found before anything else. -/
def read (argv : List String) : Except Halt Arguments :=
  match Item.ofArguments argv with
  | .error misuse => .error (.misuse misuse)
  | .ok items => scan none .waiting [] items

end Arguments

end LinerNotes
