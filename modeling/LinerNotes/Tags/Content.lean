import LinerNotes.Value

/-!
What is written into a tag: text for a text field and an integer for an integer field.
-/

namespace LinerNotes

/-- The content of a tag that is being written. -/
inductive Content where
  | text (s : String)
  | number (n : Int)
deriving DecidableEq

def Content.shown : Content → String
  | .text s => s
  | .number n => Numeral.text n

/-- What a value puts into a field's tag. Integer fields take text only if it is a numeral, and no
field takes a number that is too long to be written. -/
def Field.content (field : Field) (value : Value) : Except Numeral.Fault Content :=
  if field.isNumeric then do
    let n ← value.toInt
    let _ ← Numeral.write 1 n
    return .number n
  else Content.text <$> value.write

end LinerNotes
