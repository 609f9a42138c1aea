import LinerNotes.CommandLine.Flag
import LinerNotes.Text.Split

/-!
The items of a command line: each argument is a flag, perhaps with its value attached, an unknown
flag, or plain text. Long flags may be abbreviated as long as the abbreviation fits one flag only.
-/

namespace LinerNotes

open LinerNotes.Text

/-- An argument of the command line. -/
inductive Item where
  | plain (text : String)
  | separator
  | option (text : String) (flag : Flag) (attached : Option (List Char))
  | unknown (text : String)
deriving DecidableEq

namespace Item

/-- What stands before and after the first equals sign, if there is one. -/
def cutAtEquals : List Char → Option (List Char × List Char)
  | [] => none
  | '=' :: rest => some ([], rest)
  | c :: rest => (cutAtEquals rest).map fun (before, after) => (c :: before, after)

/-- The digits of an unsigned number with or without a fraction; one line break may follow. -/
def isUnsignedNumber (s : List Char) : Bool :=
  let body := if s.getLast? = some '\n' then s.dropLast else s
  match body.dropWhile isDecimalDigit with
  | [] => body != []
  | '.' :: fraction => fraction != [] && fraction.all isDecimalDigit
  | _ => false

/-- The flags that an argument can mean when it is the full spelling of none. A long flag is
searched by the part before the equals sign, a short flag is followed by its value. -/
def candidates (s : List Char) : List (String × Flag × Option (List Char)) :=
  match s with
  | '-' :: '-' :: _ =>
      let (beginning, attached) := match cutAtEquals s with
        | some (before, after) => (before, some after)
        | none => (s, none)
      (Flag.beginningWith beginning).map fun (spelling, flag) => (spelling, flag, attached)
  | c :: letter :: value =>
      match Flag.spelled? (String.ofList [c, letter]) with
      | some flag => [(String.ofList [c, letter], flag, some value)]
      | none => []
  | _ => []

/-- The flag and its value when an equals sign follows the full spelling of a flag. -/
def withEquals? (s : List Char) : Option (Flag × List Char) :=
  match cutAtEquals s with
  | some (before, after) => (Flag.spelled? (String.ofList before)).map fun flag => (flag, after)
  | none => none

/-- The item that an argument is. An argument that begins with a dash and fits no flag is still
plain when it is a single dash, a negative number, or has a space in it. -/
def ofArgument (text : String) : Except Misuse Item :=
  match text.toList with
  | '-' :: rest =>
      match Flag.spelled? text with
      | some flag => .ok (.option text flag none)
      | none =>
          if rest = [] then .ok (.plain text)
          else
            match withEquals? ('-' :: rest) with
            | some (flag, attached) => .ok (.option text flag (some attached))
            | none =>
                match candidates ('-' :: rest) with
                | [(_, flag, attached)] => .ok (.option text flag attached)
                | [] =>
                    if isUnsignedNumber rest || rest.contains ' ' then .ok (.plain text)
                    else .ok (.unknown text)
                | several => .error (.ambiguous text (several.map (·.1)))
  | _ => .ok (.plain text)

def ofArguments : List String → Except Misuse (List Item)
  | [] => .ok []
  | text :: rest =>
      if text = "--" then .ok (.separator :: rest.map .plain)
      else do
        let item ← ofArgument text
        let items ← ofArguments rest
        return item :: items

end Item

end LinerNotes
