import LinerNotes.Numeral

/-!
Time stamps: year, month, day, hour, minute and second, of which only a front part need be known. A
stamp is read from loosely written text and always written in one form.
-/

namespace LinerNotes.Timestamp

open LinerNotes.Text

/-- Whether a character separates two parts by itself; white space separates them as a run. -/
def isSeparator (c : Char) : Bool :=
  ['-', 'T', ':', '/', '.'].contains c

/-- The pieces between separators. The first argument tells whether the piece before ended with
white space that may still go on. -/
def piecesFrom : Bool → List Char → List (List Char)
  | _, [] => [[]]
  | inBlank, c :: rest =>
      if isBlank c then
        if inBlank then piecesFrom true rest else [] :: piecesFrom true rest
      else if isSeparator c then [] :: piecesFrom false rest
      else
        match piecesFrom false rest with
        | [] => [[c]]
        | piece :: more => (c :: piece) :: more

/-- What stands in front of each part, and how many digits the part has at least. -/
def layout : List (List Char × Nat) :=
  [([], 4), (['-'], 2), (['-'], 2), ([' '], 2), ([':'], 2), ([':'], 2)]

/-- The numbers at the front of the pieces, up to the first piece that is no number. -/
def numbers : List (List Char) → List Int
  | [] => []
  | piece :: rest =>
      match Numeral.read (String.ofList piece) with
      | .ok n => n :: numbers rest
      | .error _ => []

def chars (parts : List Int) : List Char :=
  (layout.zip parts).flatMap fun ((before, width), n) => before ++ Numeral.paddedChars width n

def normalised (text : String) : String :=
  String.ofList (chars (numbers (piecesFrom false text.toList)))

end LinerNotes.Timestamp
