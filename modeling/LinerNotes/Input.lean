import LinerNotes.Failure
import LinerNotes.Value

/-!
What a user types as the value of a field.
-/

namespace LinerNotes

open LinerNotes.Text

/-- Whether a text is an ASCII numeral: an optional sign and at least one digit. -/
def isPlainNumeral (s : List Char) : Bool :=
  let digits := (Numeral.splitSign s).2
  digits != [] && digits.all fun c => '0' ≤ c && c ≤ '9'

/-- The value that a text gives a field. Text fields take it as it is; integer fields take an ASCII
numeral with white space around it. -/
def Field.parse (field : Field) (raw : String) : Except Failure Value :=
  let body := trimmed isBlank raw.toList
  if !field.isNumeric then .ok (.text raw)
  else if isPlainNumeral body then
    Failure.ofNumeral (Value.number <$> Numeral.read (String.ofList body))
  else .error (.notAnInteger field raw)

end LinerNotes
