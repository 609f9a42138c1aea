import LinerNotes.Text.CodeRange

/-!
White space: the Unicode space characters together with the four ASCII separator controls, and the
removal of white space at the two ends of a text.
-/

namespace LinerNotes.Text

/-- The ASCII controls that separate files, groups, records and units. -/
def isSeparatorControl (c : Char) : Bool :=
  0x1C ≤ c.toNat && c.toNat ≤ 0x1F

/-- The code points of white space. -/
def blankRanges : List (Nat × Nat) := [
    (0x9, 0xD), (0x1C, 0x20), (0x85, 0x85), (0xA0, 0xA0), (0x1680, 0x1680), (0x2000, 0x200A),
    (0x2028, 0x2029), (0x202F, 0x202F), (0x205F, 0x205F), (0x3000, 0x3000)]

def isBlank (c : Char) : Bool :=
  covers blankRanges c.toNat

/-- A text without the characters of a class at its two ends. -/
def trimmed (drop : Char → Bool) (s : List Char) : List Char :=
  ((s.dropWhile drop).reverse.dropWhile drop).reverse

end LinerNotes.Text
