import LinerNotes.Text.Casing

/-!
The lowercase form of a text. Most letters have one lowercase letter; the dotted capital I becomes
two characters, and a capital sigma at the end of a word takes its final form.
-/

namespace LinerNotes.Text

open Casing (Run)

/-- The lowercase code point that the first matching run gives; the runs ascend. -/
def lowerIn : List Run → Nat → Nat
  | [], n => n
  | run :: rest, n =>
      if n < run.first then n
      else if n ≤ run.last then
        if (n - run.first) % run.step = 0 then run.lower + (n - run.first) else n
      else lowerIn rest n

/-- The lowercase form of a character with a lowercase form of one character; any other character
stands for itself. -/
def lowerChar (c : Char) : Char :=
  Char.ofNat (lowerIn Casing.runs c.toNat)

/-- Whether the search for a neighbouring letter passes over the character. -/
def isCaseIgnorable (c : Char) : Bool :=
  covers Casing.ignorableRanges c.toNat

/-- Whether the search for a neighbouring letter ends successfully at the character. -/
def isCased (c : Char) : Bool :=
  covers Casing.casedRanges c.toNat

/-- Whether the characters next to a position, nearest first, begin with a letter once the
characters that carry no case are passed over. -/
def meetsLetter (neighbours : List Char) : Bool :=
  match neighbours.dropWhile isCaseIgnorable with
  | [] => false
  | c :: _ => isCased c

/-- The lowercase form of one character, given what stands before it (nearest first) and after it.
A sigma is final when a letter stands before it and none after it. -/
def lowerAt (before : List Char) (c : Char) (after : List Char) : List Char :=
  if c = 'Σ' then
    [if meetsLetter before && !meetsLetter after then 'ς' else 'σ']
  else if c = 'İ' then ['i', '\u0307']
  else [lowerChar c]

/-- The lowercase form of what follows the given characters, nearest first. -/
def lowerAfter (before : List Char) : List Char → List Char
  | [] => []
  | c :: after => lowerAt before c after ++ lowerAfter (c :: before) after

def lowerChars (s : List Char) : List Char :=
  lowerAfter [] s

def lower (s : String) : String :=
  String.ofList (lowerChars s.toList)

end LinerNotes.Text
