import LinerNotes.Field
import LinerNotes.Keyed

/-!
APE items: at most one text for each key, where upper and lower case make no difference.
-/

namespace LinerNotes

/-- The items of a file in the order in which their keys arrived. -/
abbrev Items := List (String × String)

namespace Items

def sameKey (key other : String) : Bool :=
  Text.lower key == Text.lower other

/-- The items put one after the other, of which the last with a key counts. -/
def ofList (items : List (String × String)) : Items :=
  Keyed.ofList (fun item other => sameKey item.1 other.1) items

def key : Field → String
  | .album => "Album"
  | .artist => "Artist"
  | .comment => "Comment"
  | .genre => "Genre"
  | .title => "Title"
  | .track => "Track"
  | .year => "Year"

def belongs (field : Field) (item : String × String) : Bool :=
  sameKey (key field) item.1

def get? (items : Items) (field : Field) : Option String :=
  (items.find? (belongs field)).map (·.2)

/-- The items without that of a field. -/
def clear (items : Items) (field : Field) : Items :=
  items.filter fun item => !belongs field item

/-- The items with a text for a field. An item that is already there keeps its place and takes the
field's spelling of the key. -/
def put (items : Items) (field : Field) (text : String) : Items :=
  Keyed.put (belongs field) (key field, text) items

theorem eq_of_belongs {field other : Field} {item : String × String}
    (h : belongs field item = true) (h' : belongs other item = true) : field = other := by
  have hkeys : ∀ f ∈ Field.all, ∀ g ∈ Field.all,
      Text.lower (key f) = Text.lower (key g) → f = g := by decide +kernel
  have hkey : Text.lower (key field) = Text.lower item.1 := beq_iff_eq.mp h
  have hkey' : Text.lower (key other) = Text.lower item.1 := beq_iff_eq.mp h'
  exact hkeys field (Field.mem_all field) other (Field.mem_all other) (hkey.trans hkey'.symm)

theorem belongs_of_ne {field other : Field} (hne : other ≠ field) (item : String × String)
    (h : belongs field item = true) : belongs other item = false := by
  rw [Bool.eq_false_iff]
  intro h'
  exact hne (eq_of_belongs h' h)

theorem belongs_key (field : Field) (text : String) : belongs field (key field, text) = true := by
  simp [belongs, sameKey]

theorem get?_clear (items : Items) (field : Field) : (items.clear field).get? field = none := by
  simp [get?, clear, List.find?_filter]

theorem get?_clear_of_ne (items : Items) {field other : Field} (hne : other ≠ field) :
    (items.clear field).get? other = items.get? other := by
  have hfind := Keyed.find?_filter_other items (belongs_of_ne hne)
  simp [get?, clear, hfind]

theorem get?_put (items : Items) (field : Field) (text : String) :
    (items.put field text).get? field = some text := by
  simp [get?, put, Keyed.find?_put_same items (belongs_key field text)]

theorem get?_put_of_ne (items : Items) {field other : Field} (text : String) (hne : other ≠ field) :
    (items.put field text).get? other = items.get? other := by
  have hfind := Keyed.find?_put_other items (belongs_of_ne hne _ (belongs_key field text))
    (belongs_of_ne hne)
  simp [get?, put, hfind]

end Items

end LinerNotes
