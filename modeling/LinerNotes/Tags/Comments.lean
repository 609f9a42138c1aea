import LinerNotes.Field
import LinerNotes.Keyed

/-!
Vorbis comments: a row of keys with texts, in which a key may occur any number of times and is the
same in upper and lower case.
-/

namespace LinerNotes

/-- The comments of a file in their order. -/
abbrev Comments := List (String × String)

namespace Comments

def key : Field → String
  | .album => "ALBUM"
  | .artist => "ARTIST"
  | .comment => "COMMENT"
  | .genre => "GENRE"
  | .title => "TITLE"
  | .track => "TRACKNUMBER"
  | .year => "DATE"

def belongs (field : Field) (comment : String × String) : Bool :=
  Text.lower comment.1 == Text.lower (key field)

/-- The first text of a field. -/
def get? (comments : Comments) (field : Field) : Option String :=
  (comments.find? (belongs field)).map (·.2)

/-- The comments without those of a field. -/
def clear (comments : Comments) (field : Field) : Comments :=
  comments.filter fun comment => !belongs field comment

def put (comments : Comments) (field : Field) (text : String) : Comments :=
  comments.clear field ++ [(key field, text)]

theorem get?_clear (comments : Comments) (field : Field) :
    (comments.clear field).get? field = none := by
  simp [get?, clear, List.find?_filter]

theorem get?_put (comments : Comments) (field : Field) (text : String) :
    (comments.put field text).get? field = some text := by
  have h : (comments.clear field).find? (belongs field) = none := by
    simp [clear, List.find?_filter]
  simp [get?, put, List.find?_append, h, belongs]

theorem eq_of_belongs {field other : Field} {comment : String × String}
    (h : belongs field comment = true) (h' : belongs other comment = true) : field = other := by
  have hkeys : ∀ f ∈ Field.all, ∀ g ∈ Field.all,
      Text.lower (key f) = Text.lower (key g) → f = g := by decide +kernel
  have hkey : Text.lower comment.1 = Text.lower (key field) := beq_iff_eq.mp h
  have hkey' : Text.lower comment.1 = Text.lower (key other) := beq_iff_eq.mp h'
  exact hkeys field (Field.mem_all field) other (Field.mem_all other) (hkey.symm.trans hkey')

theorem belongs_of_ne {field other : Field} (hne : other ≠ field) (comment : String × String)
    (h : belongs field comment = true) : belongs other comment = false := by
  rw [Bool.eq_false_iff]
  intro h'
  exact hne (eq_of_belongs h' h)

theorem get?_clear_of_ne (comments : Comments) {field other : Field} (hne : other ≠ field) :
    (comments.clear field).get? other = comments.get? other := by
  have hfind := Keyed.find?_filter_other comments (belongs_of_ne hne)
  simp [get?, clear, hfind]

theorem get?_put_of_ne (comments : Comments) {field other : Field} (text : String)
    (hne : other ≠ field) : (comments.put field text).get? other = comments.get? other := by
  have hnew : belongs other (key field, text) = false :=
    belongs_of_ne hne _ (by simp [belongs])
  rw [← get?_clear_of_ne comments hne]
  simp [get?, put, List.find?_append, hnew]

end Comments

end LinerNotes
