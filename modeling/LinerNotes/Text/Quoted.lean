import LinerNotes.Text.Printable

/-!
Quoted texts, as log messages and error messages show them: one line, with quotes around it, in
which every character that does not show as itself is written by its code.
-/

namespace LinerNotes.Text.Quoted

/-- The digit with the given value below sixteen. -/
def hexDigit (d : Nat) : Char :=
  Char.ofNat (if d < 10 then 0x30 + d else 0x57 + d)

/-- The last `width` digits of a number in base sixteen. -/
def hexDigits : Nat → Nat → List Char
  | 0, _ => []
  | width + 1, n => hexDigits width (n / 16) ++ [hexDigit (n % 16)]

/-- The code of a character that does not show as itself, with two, four or eight digits. -/
def code (c : Char) : List Char :=
  if c.toNat < 0x100 then '\\' :: 'x' :: hexDigits 2 c.toNat
  else if c.toNat < 0x10000 then '\\' :: 'u' :: hexDigits 4 c.toNat
  else '\\' :: 'U' :: hexDigits 8 c.toNat

def escape (mark c : Char) : List Char :=
  if c = '\\' ∨ c = mark then ['\\', c]
  else if c = '\n' then ['\\', 'n']
  else if c = '\r' then ['\\', 'r']
  else if c = '\t' then ['\\', 't']
  else if isPrintable c then [c]
  else code c

/-- The mark around a text: a single quote, unless the text has single quotes and no double one. -/
def mark (s : List Char) : Char :=
  if s.contains '\'' && !s.contains '"' then '"' else '\''

def encode (s : List Char) : List Char :=
  mark s :: (s.flatMap (escape (mark s)) ++ [mark s])

end LinerNotes.Text.Quoted

namespace LinerNotes.Text

def quoted (s : String) : String :=
  String.ofList (Quoted.encode s.toList)

end LinerNotes.Text
