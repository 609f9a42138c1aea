import LinerNotes.Field

/-!
Filename specs: the form of a file name as a row of literal texts and placeholders. The same spec
reads a name and writes one.
-/

namespace LinerNotes

/-- What a placeholder does to the case of its value. -/
inductive LetterCase where
  | preserve
  | downcase
deriving DecidableEq

/-- The place of a field's value in a name. The substitute stands for dangerous characters when a
name is written; without one they are dropped. -/
structure Placeholder where
  field : Field
  substitute : Option Char
  letterCase : LetterCase
deriving DecidableEq

/-- A piece of a spec. -/
inductive Token where
  | literal (text : List Char)
  | placeholder (p : Placeholder)
deriving DecidableEq

/-- A spec with the text it was read from. -/
structure Spec where
  source : String
  tokens : List Token
deriving DecidableEq

def Token.placeholder? : Token → Option Placeholder
  | .literal _ => none
  | .placeholder p => some p

namespace Spec

/-- The placeholders of a spec in their order. -/
def placeholders (spec : Spec) : List Placeholder :=
  spec.tokens.filterMap Token.placeholder?

/-- Whether a spec has no tokens. Such a spec counts as not given. -/
def isEmpty (spec : Spec) : Bool :=
  spec.tokens.isEmpty

end Spec

end LinerNotes
