import LinerNotes.Failure
import LinerNotes.Format
import LinerNotes.Path

/-!
The file tree below the working directory: directories, and audio and other files in them. A path is
followed name by name, as the operating system does it, so that every failure of a path has its
cause; renaming moves one file and replaces whatever file stands at the target.
-/

namespace LinerNotes

open LinerNotes.Text

/-- A place in the tree: the names on the way from the working directory. -/
abbrev Location := List String

/-- The faults that come up when a file is opened, saved or given its first tags. -/
structure Faults where
  opening : Option Fault
  saving : Option Fault
  tagging : Option Fault
deriving DecidableEq

/-- A file. Without a format it is no audio file. -/
structure File where
  location : Location
  format : Option Format
  tags : Option Container
  faults : Faults
deriving DecidableEq

/-- The directories below the working directory and the files. -/
structure Tree where
  directories : List Location
  files : List File
deriving DecidableEq

/-- What a path leads to. -/
inductive Place where
  | directory (location : Location)
  | file (file : File)
  /-- nothing yet, in a directory that is there -/
  | vacant (location : Location)
deriving DecidableEq

namespace Tree

/-- The longest name in a path, in bytes. -/
def nameLimit : Nat := 255

/-- The longest path, in bytes. -/
def pathLimit : Nat := 4095

/-- The names in a path, without empty ones and those for the directory itself. -/
def locationOf (path : String) : Location :=
  ((pieces '/' path.toList).filter fun piece => piece != [] && piece != ['.']).map String.ofList

/-- The directories that must be there for a location to be in one. -/
def ancestors : Location → List Location
  | [] => []
  | [_] => []
  | name :: rest => [name] :: (ancestors rest).map (name :: ·)

/-- The tree with the given files and directories, and all directories on the way to them. -/
def build (directories : List Location) (files : List File) : Tree :=
  let needed := directories.flatMap (fun location => ancestors location ++ [location]) ++
    files.flatMap fun file => ancestors file.location
  ⟨needed.eraseDups, files⟩

/-- The file at a path that has no tags yet, in the format that its extension tells. -/
def untagged (path : String) : File where
  location := locationOf path
  format := Format.ofExtension? (Text.lower (Path.extension path))
  tags := none
  faults := ⟨none, none, none⟩

/-- The tree of files without tags at the given paths. -/
def ofListing (paths : List String) : Tree :=
  build [] (paths.map untagged)

def fileAt? (tree : Tree) (location : Location) : Option File :=
  tree.files.find? fun file => file.location == location

/-- Whether a location is a directory. The working directory always is. -/
def hasDirectory (tree : Tree) (location : Location) : Bool :=
  location == [] || tree.directories.contains location

/-- What one name in a directory leads to. The working directory is its own parent. -/
def enter (tree : Tree) (directory : Location) (name : String) : Except PathFault Place :=
  if nameLimit < name.utf8ByteSize then .error .nameTooLong
  else if name == "." then .ok (.directory directory)
  else if name == ".." then .ok (.directory directory.dropLast)
  else
    let location := directory ++ [name]
    match tree.fileAt? location with
    | some file => .ok (.file file)
    | none =>
        if tree.hasDirectory location then .ok (.directory location) else .ok (.vacant location)

/-- The directory that a place is, when a path goes on from it. -/
def asDirectory : Place → Except PathFault Location
  | .directory location => .ok location
  | .file _ => .error .notADirectory
  | .vacant _ => .error .missing

def walk (tree : Tree) (directory : Location) : List String → Except PathFault Location
  | [] => .ok directory
  | name :: rest => do
      let place ← tree.enter directory name
      let next ← asDirectory place
      tree.walk next rest

/-- A path as it is followed: the names up to the last, the last name, and whether a
slash follows. -/
structure Route where
  through : List String
  last : String
  toDirectory : Bool
deriving DecidableEq

/-- The route of a path. Empty and overlong paths lead nowhere, and absolute paths lead out of the
tree. -/
def route (path : String) : Except PathFault Route :=
  let names := ((pieces '/' path.toList).filter (· != [])).map String.ofList
  if pathLimit < path.utf8ByteSize then .error .nameTooLong
  else if path.toList.head? = some '/' then .error .missing
  else
    match names.getLast? with
    | none => .error .missing
    | some last => .ok ⟨names.dropLast, last, path.toList.getLast? = some '/'⟩

/-- What a path leads to. A slash at the end asks for a directory. -/
def find (tree : Tree) (path : String) : Except PathFault Place := do
  let route ← route path
  let directory ← tree.walk [] route.through
  let place ← tree.enter directory route.last
  match place with
  | .file file => if route.toDirectory then .error .notADirectory else .ok (.file file)
  | place => .ok place

/-- Whether the system is given the path at all: no path holds the null character. -/
def hasNul (path : String) : Bool :=
  path.toList.contains '\x00'

def file? (tree : Tree) (path : String) : Option File :=
  if hasNul path then none
  else
    match tree.find path with
    | .ok (.file file) => some file
    | _ => none

def directory? (tree : Tree) (path : String) : Option Location :=
  if hasNul path then none
  else
    match tree.find path with
    | .ok (.directory location) => some location
    | _ => none

def pathExists (tree : Tree) (path : String) : Bool :=
  (tree.file? path).isSome || (tree.directory? path).isSome

def store (tree : Tree) (location : Location) (tags : Option Container) : Tree :=
  { tree with
    files := tree.files.map fun file =>
      if file.location = location then { file with tags := tags } else file }

/-- The tree with the file at one location moved to another, where it replaces the file that is
there. -/
def move (tree : Tree) (source target : Location) : Tree :=
  if source = target then tree
  else
    { tree with
      files := (tree.files.filter fun file => file.location != target).map fun file =>
        if file.location = source then { file with location := target } else file }

/-- Where a rename comes from and goes to. The directories of both paths are followed before the
last names are looked at. -/
def renameRoute (tree : Tree) (source target : String) :
    Except PathFault (Location × Location) := do
  let fromRoute ← route source
  let fromDirectory ← tree.walk [] fromRoute.through
  let toRoute ← route target
  let toDirectory ← tree.walk [] toRoute.through
  match ← tree.enter fromDirectory fromRoute.last with
  | .vacant _ => throw .missing
  | .directory _ => throw .isADirectory
  | .file file =>
      let place ← tree.enter toDirectory toRoute.last
      if fromRoute.toDirectory || toRoute.toDirectory then throw .notADirectory
      match place with
      | .directory _ => throw .isADirectory
      | .file other => return (file.location, other.location)
      | .vacant location => return (file.location, location)

def rename (tree : Tree) (source target : String) : Except Failure Tree :=
  if hasNul source || hasNul target then .error .nulInPath
  else
    match tree.renameRoute source target with
    | .ok (source, target) => .ok (tree.move source target)
    | .error cause => .error (.renameFailed cause source target)

/-- The path of a location, as seen from the working directory. -/
def pathOf (location : Location) : String :=
  "/".intercalate location

/-- The places of the files below a directory, as seen from it; only those directly in it, unless
all are asked for. -/
def below (tree : Tree) (directory : Location) (all : Bool) : List Location :=
  tree.files.filterMap fun file =>
    if directory.isPrefixOf file.location then
      let rest := file.location.drop directory.length
      if all || rest.length == 1 then some rest else none
    else none

/-- Rows of paths in order of their characters. -/
def sorted (paths : List String) : List String :=
  paths.mergeSort fun path other => decide (path ≤ other)

/-- The paths of all files in order. -/
def paths (tree : Tree) : List String :=
  sorted (tree.files.map fun file => pathOf file.location)

end Tree

end LinerNotes
