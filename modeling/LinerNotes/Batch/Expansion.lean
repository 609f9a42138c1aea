import LinerNotes.Journal
import LinerNotes.Tree

/-!
From the inputs of a batch to the paths of its files: a directory stands for the audio files in it,
in order, and any other input for itself.
-/

namespace LinerNotes.Tree

def isAudioPath (path : String) : Bool :=
  audioExtensions.contains (Text.lower (Path.extension path))

/-- Whether a search finds a path that it has spelled. The system follows no path beyond its limit:
directly in a directory only the files that it leads to are found, and below other directories the
names in all those whose own path it follows. -/
def finds (tree : Tree) (recursive : Bool) (path : String) : Bool :=
  if recursive then (Path.directory path).utf8ByteSize ≤ pathLimit else (tree.file? path).isSome

/-- The audio files below a directory, spelled with the path that leads to the directory. -/
def audioFiles (tree : Tree) (path : String) (location : Location) (recursive : Bool) :
    List String :=
  sorted (((tree.below location recursive).map fun rest => Path.join path (pathOf rest)).filter
    fun path => tree.finds recursive path && isAudioPath path)

def expandInput (tree : Tree) (recursive : Bool) (input : String) : List String :=
  match tree.directory? input with
  | some location => tree.audioFiles input location recursive
  | none => [input]

/-- The entry in the log about one input, if it is a directory. -/
def searchEvent? (tree : Tree) (recursive : Bool) (input : String) : Option Event :=
  (tree.directory? input).map fun location =>
    .found (tree.audioFiles input location recursive).length input

/-- The paths that the inputs stand for, in order. -/
def expand (tree : Tree) (recursive : Bool) (inputs : List String) : List String :=
  inputs.flatMap (tree.expandInput recursive)

def searchEvents (tree : Tree) (recursive : Bool) (inputs : List String) : List Event :=
  inputs.filterMap (tree.searchEvent? recursive)

end LinerNotes.Tree
