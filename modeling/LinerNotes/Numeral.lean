import LinerNotes.Text.Blank
import LinerNotes.Text.DecimalDigit
import LinerNotes.Text.Quoted

/-!
Integers and their decimal texts. Numerals are written with ASCII digits and read with the digits of
any script; both directions stop at the same number of digits. Besides whole numerals, a number may
be taken from the front of a text, as in `3/12` or `2004-05-01`.
-/

namespace LinerNotes.Numeral

open LinerNotes.Text

/-- The most digits that a numeral may have. -/
def digitLimit : Nat := 4300

/-- Why a text and a number do not go together. -/
inductive Fault where
  | malformed (text : String)
  | tooManyDigits (count : Nat)
  | tooLongToWrite
deriving DecidableEq

/-- The longest part of a quoted text that a message shows. -/
def shownLength : Nat := 200

def Fault.message : Fault → String
  | .malformed text =>
      "invalid literal for int() with base 10: " ++
        String.ofList ((quoted text).toList.take shownLength)
  | .tooManyDigits count =>
      "Exceeds the limit (" ++ toString digitLimit ++
        " digits) for integer string conversion: value has " ++ toString count ++
        " digits; use sys.set_int_max_str_digits() to increase the limit"
  | .tooLongToWrite =>
      "Exceeds the limit (" ++ toString digitLimit ++ " digits) for integer string conversion; " ++
        "use sys.set_int_max_str_digits() to increase the limit"

def signChars (n : Int) : List Char :=
  if n < 0 then ['-'] else []

/-- The digits of a number without its sign. -/
def digitChars (n : Int) : List Char :=
  Nat.toDigits 10 n.natAbs

/-- A number with its sign in front and zeros between them up to the given width. -/
def paddedChars (width : Nat) (n : Int) : List Char :=
  signChars n ++
    List.replicate (width - ((signChars n).length + (digitChars n).length)) '0' ++ digitChars n

def chars (n : Int) : List Char :=
  signChars n ++ digitChars n

/-- The decimal text of a number, whatever its length. -/
def text (n : Int) : String :=
  String.ofList (chars n)

/-- The decimal text of a number with at least `width` characters. -/
def write (width : Nat) (n : Int) : Except Fault String :=
  if digitLimit < (digitChars n).length then .error .tooLongToWrite
  else .ok (String.ofList (paddedChars width n))

/-- The white space that may stand around a numeral. -/
def isPadding (c : Char) : Bool :=
  isBlank c && !isSeparatorControl c

/-- The characters that a numeral's digits may be written with. -/
def isDigitOrUnderscore (c : Char) : Bool :=
  isDecimalDigit c || c == '_'

/-- Every underscore stands between two digits, and there is a digit. The first argument tells
whether a digit stands right before the row. -/
def separates : Bool → List Char → Bool
  | afterDigit, [] => afterDigit
  | afterDigit, c :: rest =>
      if c = '_' then afterDigit && separates false rest else separates true rest

/-- A sign, if there is one, and what follows it. -/
def splitSign : List Char → Bool × List Char
  | '-' :: rest => (true, rest)
  | '+' :: rest => (false, rest)
  | s => (false, s)

def signed (negative : Bool) (digits : List Char) : Int :=
  if negative then -(decimalValue digits : Int) else decimalValue digits

/-- The number that a text writes: an optional sign, digits of any script with single
underscores between them, and white space around them. The number of digits is judged before
what follows them. -/
def read (text : String) : Except Fault Int :=
  let (negative, body) := splitSign (text.toList.dropWhile isPadding)
  let run := body.takeWhile isDigitOrUnderscore
  let digits := run.filter isDecimalDigit
  if !separates false run then .error (.malformed text)
  else if digitLimit < digits.length then .error (.tooManyDigits digits.length)
  else if (body.dropWhile isDigitOrUnderscore).all isPadding then .ok (signed negative digits)
  else .error (.malformed text)

/-- The number at the front of a text, after white space, and zero if there is none. -/
def leading (s : List Char) : Except Fault Int :=
  let digits := (s.dropWhile isBlank).takeWhile isDecimalDigit
  if digitLimit < digits.length then .error (.tooManyDigits digits.length)
  else .ok (decimalValue digits)

/-- The number in the first `width` characters of a text, after white space, and zero unless all of
them are digits. -/
def leadingFixed (width : Nat) (s : List Char) : Int :=
  let digits := (s.dropWhile isBlank).take width
  if digits.length = width ∧ digits.all isDecimalDigit then decimalValue digits else 0

end LinerNotes.Numeral
