import LinerNotes.Keyed
import LinerNotes.Tags.Content
import LinerNotes.Tags.Timestamp
import LinerNotes.Text.Split

/-!
ID3 frames: entries with an identifier and a row of texts, at most one frame for each key. The key
is the identifier; comment frames are told apart by their description and language as well.
-/

namespace LinerNotes

open LinerNotes.Text

/-- A frame. Only comment frames have a description and a language. -/
structure Frame where
  id : String
  desc : String
  lang : String
  texts : List String
deriving DecidableEq

namespace Frame

def commentId : String := "COMM"

def timeId : String := "TDRC"

/-- The frame with the given texts; the texts of a recording time are time stamps. -/
def make (id desc lang : String) (texts : List String) : Frame :=
  ⟨id, desc, lang, if id = timeId then texts.map Timestamp.normalised else texts⟩

def key (frame : Frame) : String :=
  if frame.id = commentId then frame.id ++ ":" ++ frame.desc ++ ":" ++ frame.lang else frame.id

/-- Whether a frame's key begins with an identifier and a colon. -/
def isUnder (id : String) (frame : Frame) : Bool :=
  (id ++ ":").toList.isPrefixOf frame.key.toList

end Frame

/-- The frames of a file in the order in which their keys arrived. -/
abbrev Frames := List Frame

namespace Frames

/-- The frames put one after the other, of which the last with a key counts. -/
def ofList (frames : List Frame) : Frames :=
  Keyed.ofList (fun frame other => frame.key == other.key) frames

def id : Field → String
  | .album => "TALB"
  | .artist => "TPE1"
  | .comment => Frame.commentId
  | .genre => "TCON"
  | .title => "TIT2"
  | .track => "TRCK"
  | .year => Frame.timeId

/-- The frame whose key is the identifier, or else all frames with the identifier in front of their
keys. -/
def held (frames : Frames) (id : String) : List Frame :=
  match frames.find? fun frame => frame.key == id with
  | some frame => [frame]
  | none => frames.filter (Frame.isUnder id)

/-- The frames without those held under an identifier. -/
def without (frames : Frames) (id : String) : Frames :=
  if frames.any fun frame => frame.key == id then frames.filter fun frame => frame.key != id
  else frames.filter fun frame => !Frame.isUnder id frame

/-- The first text of a field. A comment without description goes before one with a description. -/
def get? (frames : Frames) (field : Field) : Option String :=
  let held := frames.held (id field)
  let plain := held.filter fun frame => frame.desc == ""
  let chosen := if field = .comment ∧ plain ≠ [] then plain else held
  chosen.head?.bind fun frame => frame.texts.head?

/-- The frames without those of a field. -/
def clear (frames : Frames) (field : Field) : Frames :=
  frames.without (id field)

/-- The character that separates the texts of a field's frame. -/
def separator : Field → Char
  | .year => ','
  | _ => '\x00'

def frameFor (field : Field) (content : Content) : Frame :=
  let texts := (pieces (separator field) content.shown.toList).map String.ofList
  Frame.make (id field) "" (if field = .comment then "eng" else "") texts

def put (frames : Frames) (field : Field) (content : Content) : Frames :=
  let frame := frameFor field content
  Keyed.put (fun other => other.key == frame.key) frame (frames.clear field)

end Frames

end LinerNotes
