import LinerNotes.Field
import LinerNotes.Numeral

/-!
The values of fields: text, an integer, or nothing. Absence has one form per kind of field (nothing
for text, zero for integers), and empty text means absence as well.
-/

namespace LinerNotes

/-- What a field holds or is to hold. -/
inductive Value where
  | absent
  | text (s : String)
  | number (n : Int)
deriving DecidableEq

namespace Value

/-- Nothing, empty text and zero all mean that the field is absent. -/
def isEmpty : Value → Bool
  | .absent => true
  | .text s => s == ""
  | .number n => n == 0

def chars : Value → List Char
  | .absent => []
  | .text s => s.toList
  | .number n => Numeral.chars n

def shown (value : Value) : String :=
  String.ofList value.chars

/-- The text of a value, which a number has only up to a certain length. -/
def write : Value → Except Numeral.Fault String
  | .absent => .ok ""
  | .text s => .ok s
  | .number n => Numeral.write 1 n

/-- The text that a value is, if it is one. -/
def text? : Value → Option String
  | .text s => some s
  | _ => none

/-- The integer that a value gives; text is read as a numeral. -/
def toInt : Value → Except Numeral.Fault Int
  | .absent => .ok 0
  | .text s => Numeral.read s
  | .number n => .ok n

end Value

namespace Field

def emptyValue (field : Field) : Value :=
  if field.isNumeric then .number 0 else .absent

/-- How many characters at least a field's integer is shown with in a filename. -/
def width : Field → Nat
  | .track => 2
  | _ => 1

/-- A field's value as a filename shows it: empty text when the field is absent, and the text of the
integer for an integer field. A text field shows what it holds; a number there stays a number, which
no filename can show. -/
def format (field : Field) (value : Value) : Except Numeral.Fault Value :=
  if value.isEmpty then .ok (.text "")
  else if !field.isNumeric then .ok value
  else Value.text <$> (value.toInt >>= Numeral.write field.width)

/-- The value that a tag holds for a field, given the text stored for it, if any. A track is the
number at the front, a year the four digits at the front. -/
def valueOfTag (field : Field) (stored : Option String) : Except Numeral.Fault Value :=
  let text := stored.getD ""
  match field with
  | .track => Value.number <$> Numeral.leading text.toList
  | .year => .ok (.number (Numeral.leadingFixed 4 text.toList))
  | _ => .ok (if text == "" then .absent else .text text)

end Field

end LinerNotes
