import LinerNotes.Tags.Atoms
import LinerNotes.Tags.Comments
import LinerNotes.Tags.Frames
import LinerNotes.Tags.Items

/-!
The tags of one file, in whichever of the four forms its format has, and what they say about a
field.
-/

namespace LinerNotes

/-- The tags of a file. -/
inductive Container where
  | comments (entries : Comments)
  | frames (entries : Frames)
  | atoms (entries : Atoms)
  | items (entries : Items)
deriving DecidableEq

namespace Container

/-- The first text stored for a field. -/
def get? : Container → Field → Option String
  | .comments entries, field => entries.get? field
  | .frames entries, field => entries.get? field
  | .atoms entries, field => entries.get? field
  | .items entries, field => entries.get? field

/-- The tags without a field. -/
def clear : Container → Field → Container
  | .comments entries, field => .comments (entries.clear field)
  | .frames entries, field => .frames (entries.clear field)
  | .atoms entries, field => .atoms (entries.clear field)
  | .items entries, field => .items (entries.clear field)

def put : Container → Field → Content → Except Failure Container
  | .comments entries, field, content => .ok (.comments (entries.put field content.shown))
  | .frames entries, field, content => .ok (.frames (entries.put field content))
  | .atoms entries, field, content => (entries.put field content).map .atoms
  | .items entries, field, content => .ok (.items (entries.put field content.shown))

def value (tags : Option Container) (field : Field) : Except Failure Value :=
  Failure.ofNumeral (field.valueOfTag (tags.bind fun container => container.get? field))

end Container

end LinerNotes
