import LinerNotes.Text.Blank
import LinerNotes.Text.Split

/-!
File paths as text: the directory and the name of a path, joining them again, and the extension at
the end of a name. Nothing here looks at the file tree.
-/

namespace LinerNotes.Path

open LinerNotes.Text

/-- What stands after the last slash. -/
def nameChars (path : List Char) : List Char :=
  match cutLast '/' path with
  | some (_, name) => name
  | none => path

/-- What stands before the name, with the slashes at its end removed unless there is
nothing else. -/
def directoryChars (path : List Char) : List Char :=
  match cutLast '/' path with
  | some (before, _) =>
      if before.all (· == '/') then before ++ ['/']
      else (before.reverse.dropWhile (· == '/')).reverse
  | none => []

/-- A name placed in a directory; a name that begins with a slash stands alone. -/
def joinChars (directory name : List Char) : List Char :=
  if name.head? = some '/' then name
  else if directory = [] ∨ directory.getLast? = some '/' then directory ++ name
  else directory ++ '/' :: name

/-- A name up to its extension, and the extension with its dot. The dots at the front of a name
begin no extension. -/
def splitExtension (name : List Char) : List Char × List Char :=
  match cutLast '.' name with
  | some (before, after) => if before.all (· == '.') then (name, []) else (before, '.' :: after)
  | none => (name, [])

/-- The part of a name that tells its format: the last dot, unless the name begins with it or
nothing follows it, and what comes after. -/
def suffixChars (name : List Char) : List Char :=
  match cutLast '.' name with
  | some (before, after) => if before = [] ∨ after = [] then [] else '.' :: after
  | none => []

def name (path : String) : String :=
  String.ofList (nameChars path.toList)

def directory (path : String) : String :=
  String.ofList (directoryChars path.toList)

def join (directory name : String) : String :=
  String.ofList (joinChars directory.toList name.toList)

def extension (path : String) : String :=
  String.ofList (splitExtension (nameChars path.toList)).2

/-- A path's name without its extension. -/
def stem (path : String) : String :=
  String.ofList (splitExtension (nameChars path.toList)).1

def suffix (path : String) : String :=
  String.ofList (suffixChars (nameChars path.toList))

theorem splitExtension_append (name : List Char) :
    (splitExtension name).1 ++ (splitExtension name).2 = name := by
  unfold splitExtension
  split
  · rename_i before after h
    split
    · simp
    · exact (eq_of_cutLast h).symm
  · simp

end LinerNotes.Path
