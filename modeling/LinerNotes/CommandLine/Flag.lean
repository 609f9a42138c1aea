import LinerNotes.Failure
import LinerNotes.Hazard

/-!
The flags of the command line, with their spellings in the order in which they are declared.
-/

namespace LinerNotes

/-- A flag of the command line. -/
inductive Flag where
  | help
  | version
  | assign (field : Field)
  | clear (field : Field)
  | clearAll
  | extract
  | rename (hazard : Hazard)
  | dryRun
  | recursive
  | logging
deriving DecidableEq

namespace Flag

/-- All flags in the order in which they are declared. -/
def all : List Flag :=
  [.help, .version] ++ Field.all.flatMap (fun field => [.assign field, .clear field]) ++
    [.clearAll, .extract, .rename .shell, .rename .filesystem, .dryRun, .recursive, .logging]

def spellings : Flag → List String
  | .help => ["-h", "--help"]
  | .version => ["--version"]
  | .assign field => ["-" ++ String.singleton field.letter, "--" ++ field.name]
  | .clear field => ["--no-" ++ field.name]
  | .clearAll => ["--clear"]
  | .extract => ["--extract"]
  | .rename .shell => ["--rename"]
  | .rename .filesystem => ["--rename-fs"]
  | .dryRun => ["--dry-run"]
  | .recursive => ["--recursive"]
  | .logging => ["--logging"]

def takesValue : Flag → Bool
  | .assign _ => true
  | .extract => true
  | .rename _ => true
  | .logging => true
  | _ => false

def title (flag : Flag) : String :=
  "/".intercalate flag.spellings

/-- All spellings with their flags, in order. -/
def table : List (String × Flag) :=
  all.flatMap fun flag => flag.spellings.map fun spelling => (spelling, flag)

def spelled? (spelling : String) : Option Flag :=
  table.lookup spelling

/-- The spellings, with their flags, that a text is the beginning of. -/
def beginningWith (text : List Char) : List (String × Flag) :=
  table.filter fun (spelling, _) => text.isPrefixOf spelling.toList

end Flag

/-- What is wrong with the use of a flag. -/
inductive FlagFault where
  /-- a flag that takes a value has none -/
  | valueMissing
  /-- a flag that takes no value has one -/
  | valueUnwanted (value : String)
  | badValue (cause : Failure)
  | badChoice (value : String) (choices : List String)
deriving DecidableEq

def FlagFault.message : FlagFault → String
  | .valueMissing => "expected one argument"
  | .valueUnwanted value => "ignored explicit argument " ++ Text.quoted value
  | .badValue cause => cause.message
  | .badChoice value choices =>
      "invalid choice: " ++ Text.quoted value ++ " (choose from " ++
        ", ".intercalate (choices.map Text.quoted) ++ ")"

/-- What is wrong with a command line. -/
inductive Misuse where
  | ambiguous (text : String) (spellings : List String)
  | wrongUse (flag : Flag) (fault : FlagFault)
  | unrecognised (texts : List String)
deriving DecidableEq

def Misuse.message : Misuse → String
  | .ambiguous text spellings =>
      "ambiguous option: " ++ text ++ " could match " ++ ", ".intercalate spellings
  | .wrongUse flag fault => "argument " ++ flag.title ++ ": " ++ fault.message
  | .unrecognised texts => "unrecognized arguments: " ++ " ".intercalate texts

end LinerNotes
