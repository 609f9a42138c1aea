import LinerNotes.Text.Lowercase

/-!
The seven fields of a recording that the program reads and writes. A field has a name, which the tag
accessors and the long flags use, and a letter, which filename specs and the short flags use.
-/

namespace LinerNotes

/-- A field of a recording's tags. -/
inductive Field where
  | album
  | artist
  | comment
  | genre
  | title
  | track
  | year
deriving DecidableEq

namespace Field

/-- All fields in their fixed order. -/
def all : List Field :=
  [.album, .artist, .comment, .genre, .title, .track, .year]

def name : Field → String
  | .album => "album"
  | .artist => "artist"
  | .comment => "comment"
  | .genre => "genre"
  | .title => "title"
  | .track => "track"
  | .year => "year"

def letter : Field → Char
  | .album => 'l'
  | .artist => 'r'
  | .comment => 'c'
  | .genre => 'g'
  | .title => 't'
  | .track => 'n'
  | .year => 'y'

/-- Whether a field holds an integer; the other fields hold text. -/
def isNumeric : Field → Bool
  | .track => true
  | .year => true
  | _ => false

def kind (field : Field) : String :=
  if field.isNumeric then "integer" else "text"

theorem mem_all (field : Field) : field ∈ all := by
  cases field <;> decide

def withLetter? (c : Char) : Option Field :=
  all.find? fun field => field.letter == c

/-- The field that a letter stands for, in either case. -/
def ofLetter? (c : Char) : Option Field :=
  withLetter? (Text.lowerChar c)

/-- The field that a text of one letter stands for, in either case. -/
def ofCode? (code : String) : Option Field :=
  match Text.lowerChars code.toList with
  | [c] => withLetter? c
  | _ => none

def ofName? (name : String) : Option Field :=
  all.find? fun field => field.name == name

end Field

/-- A letter or a name that stands for no field. -/
inductive UnknownField where
  | letter (text : String)
  | name (text : String)
deriving DecidableEq

namespace UnknownField

def given : UnknownField → String
  | .letter text => text
  | .name text => text

def message : UnknownField → String
  | .letter text =>
      "Unknown field letter '" ++ text ++ "' (valid: " ++
        ", ".intercalate (Field.all.map fun field => String.singleton field.letter) ++ ")"
  | .name text =>
      "Unknown field '" ++ text ++ "' (valid: " ++
        ", ".intercalate (Field.all.map Field.name) ++ ")"

end UnknownField

namespace Field

/-- The field that a text of one letter stands for, or the error that names the text. -/
def ofCode (code : String) : Except UnknownField Field :=
  match ofCode? code with
  | some field => .ok field
  | none => .error (.letter code)

/-- The field with the given name, or the error that repeats the name. -/
def ofName (name : String) : Except UnknownField Field :=
  match ofName? name with
  | some field => .ok field
  | none => .error (.name name)

end Field

end LinerNotes
