/-!
Classes of characters written as ascending lists of closed intervals of code points.
-/

namespace LinerNotes.Text

/-- Whether one of the intervals holds the code point. The intervals ascend, so the search ends at
the first one that begins beyond it. -/
def covers : List (Nat × Nat) → Nat → Bool
  | [], _ => false
  | (first, last) :: rest, n =>
      if n < first then false
      else if n ≤ last then true
      else covers rest n

end LinerNotes.Text
