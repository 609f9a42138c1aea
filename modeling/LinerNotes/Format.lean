import LinerNotes.Tags.Container

/-!
Audio formats: the form of their tags, and the file name extensions that go with audio files.
-/

namespace LinerNotes

/-- A format that can be opened. -/
inductive Format where
  | oggVorbis
  | flac
  | mp3
  | mp4
  | monkeysAudio
deriving DecidableEq

namespace Format

def name : Format → String
  | .oggVorbis => "OggVorbis"
  | .flac => "FLAC"
  | .mp3 => "MP3"
  | .mp4 => "MP4"
  | .monkeysAudio => "MonkeysAudio"

/-- The tags that a file of the format starts with when it gets tags. -/
def noTags : Format → Container
  | .oggVorbis => .comments []
  | .flac => .comments []
  | .mp3 => .frames []
  | .mp4 => .atoms []
  | .monkeysAudio => .items []

/-- The format that goes with a file name extension in lower case, as far as it tells one. -/
def ofExtension? (extension : String) : Option Format :=
  if [".ogg", ".oga", ".opus"].contains extension then some .oggVorbis
  else if extension == ".flac" then some .flac
  else if [".mp3", ".wav", ".aif", ".aiff"].contains extension then some .mp3
  else if [".m4a", ".mp4"].contains extension then some .mp4
  else if [".ape", ".mpc", ".wv"].contains extension then some .monkeysAudio
  else none

end Format

/-- The extensions that make a file in a directory an audio file, in order. -/
def audioExtensions : List String :=
  [".aac", ".aif", ".aiff", ".ape", ".flac", ".m4a", ".mp3", ".mp4", ".mpc", ".oga", ".ogg",
    ".opus", ".wav", ".wv"]

/-- The extensions of files that are never written, because their format has no safe place
for tags. -/
def refusedExtensions : List String :=
  [".aac"]

end LinerNotes
