import LinerNotes.Failure
import LinerNotes.Value

/-!
Edits of single fields, as the command line asks for them. They are applied to every file in the
order in which they were given.
-/

namespace LinerNotes

/-- A change of one field. -/
inductive Edit where
  | assign (field : Field) (value : Value)
  /-- an assignment of nothing, which clears the field like any empty value -/
  | assignNothing (field : Field)
  | clear (field : Field)
deriving DecidableEq

namespace Edit

/-- The edits that clear every field, in the order of the fields. -/
def clearAll : List Edit :=
  Field.all.map .clear

def entry : Edit → Field × Value
  | .assign field value => (field, value)
  | .assignNothing field => (field, .absent)
  | .clear field => (field, field.emptyValue)

def written : Value → Except Numeral.Fault String
  | .absent => .ok "None"
  | .text s => .ok (Text.quoted s)
  | .number n => Numeral.write 1 n

/-- How an edit is told, which fails for a number that is too long to be written. -/
def description : Edit → Except Numeral.Fault String
  | .assign field value => (written value).map fun text => field.name ++ "=" ++ text
  | .assignNothing field => .ok (field.name ++ "=[]")
  | .clear field => .ok ("no-" ++ field.name)

end Edit

end LinerNotes
