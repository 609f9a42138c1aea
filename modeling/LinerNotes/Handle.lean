import LinerNotes.Journal
import LinerNotes.Tree

/-!
An audio file that has been opened. Its tags are a copy in memory, read and changed field by field
until they are saved. A failed change keeps what it had done before it failed.
-/

namespace LinerNotes

/-- What opening a file brings into memory. -/
structure Audio where
  format : Format
  tags : Option Container
  faults : Faults
deriving DecidableEq

/-- An opened file. Without audio it has been closed. -/
structure Handle where
  path : String
  location : Location
  audio : Option Audio
deriving DecidableEq

namespace Handle

def ofFile (path : String) (file : File) : Except Failure (Handle × Event) :=
  match file.faults.opening with
  | some (.codec text) => .error (.notOpened path text)
  | some (.system text) => .error (.notOpened path text)
  | some fault => .error (.uncaught fault)
  | none =>
      match file.format with
      | none => .error (.notRecognised path)
      | some format =>
          .ok (⟨path, file.location, some ⟨format, file.tags, file.faults⟩⟩, .opened path format)

def openAt (tree : Tree) (path : String) : Except Failure (Handle × Event) :=
  match tree.file? path with
  | none => .error (.notFound path)
  | some file => ofFile path file

/-- The handle after it has been closed. -/
def close (handle : Handle) : Handle :=
  { handle with audio := none }

def tags (handle : Handle) : Option Container :=
  handle.audio.bind Audio.tags

def extension (handle : Handle) : String :=
  Text.lower (Path.suffix handle.path)

def isRefused (handle : Handle) : Bool :=
  refusedExtensions.contains handle.extension

def read (handle : Handle) (field : Field) : Except Failure Value :=
  Container.value handle.tags field

def withTags (handle : Handle) (tags : Container) : Handle :=
  { handle with audio := handle.audio.map fun audio => { audio with tags := some tags } }

/-- The handle with a field cleared. Tags that are missing stay so. -/
def cleared (handle : Handle) (field : Field) : Handle :=
  match handle.tags with
  | some tags => handle.withTags (tags.clear field)
  | none => handle

/-- The tags in memory, and what the file gets if it has none. -/
def tagsOrNew (handle : Handle) : Except Failure Container :=
  match handle.audio with
  | none => .error .closed
  | some audio =>
      match audio.tags, audio.faults.tagging with
      | some tags, _ => .ok tags
      | none, none => .ok audio.format.noTags
      | none, some (.codec text) => .error (.notTaggable handle.path text)
      | none, some (.unsupported text) => .error (.notTaggable handle.path text)
      | none, some fault => .error (.uncaught fault)

/-- The tags with a new value for a field, and the text that stands in them. -/
def changed (tags : Container) (field : Field) (value : Value) :
    Except Failure (Container × String) := do
  let content ← Failure.ofNumeral (field.content value)
  let tags ← tags.put field content
  return (tags, content.shown)

/-- Writes a field in memory; an empty value clears it. A file that got its tags keeps them when the
value turns out to be impossible. -/
def write (field : Field) (value : Value) : EStateM Failure Handle Event := fun handle =>
  if value.isEmpty then .ok (.cleared handle.path field) (handle.cleared field)
  else
    match handle.tagsOrNew with
    | .error failure => .error failure handle
    | .ok tags =>
        match changed tags field value with
        | .error failure => .error failure (handle.withTags tags)
        | .ok (tags, text) => .ok (.wrote handle.path field text) (handle.withTags tags)

def toSave (handle : Handle) : Except Failure (Option Container) :=
  if handle.isRefused then .error (.saveRefused handle.path)
  else
    match handle.audio with
    | none => .error .closed
    | some audio =>
        match audio.faults.saving with
        | none => .ok audio.tags
        | some (.codec text) => .error (.saveFailed handle.path text)
        | some (.system text) => .error (.saveFailed handle.path text)
        | some fault => .error (.uncaught fault)

end Handle

end LinerNotes
