import LinerNotes.Spec.Basic
import LinerNotes.Text.Alphanumeric

/-!
Reading a spec. A percent sign, an optional substitute and a letter make a placeholder; a percent
sign that does not begin a placeholder is literal text, like everything else.
-/

namespace LinerNotes.Spec

open LinerNotes.Text

/-- Whether a character may stand between the percent sign and the letter: anything but a letter or
a number, and in particular the underscore. -/
def isSubstitute (c : Char) : Bool :=
  !isAlphanumeric c

/-- The placeholder that a letter makes; a lowercase letter downcases the value. -/
def placeholderFor (substitute : Option Char) (letter : Char) : Except UnknownField Placeholder :=
  match Field.ofLetter? letter with
  | some field =>
      .ok ⟨field, substitute, if 'a' ≤ letter ∧ letter ≤ 'z' then .downcase else .preserve⟩
  | none => .error (.letter (String.singleton letter))

def consLiteral (c : Char) : List Token → List Token
  | .literal text :: rest => .literal (c :: text) :: rest
  | tokens => .literal [c] :: tokens

def consPlaceholder (substitute : Option Char) (letter : Char)
    (rest : Except UnknownField (List Token)) : Except UnknownField (List Token) := do
  let p ← placeholderFor substitute letter
  let tokens ← rest
  return .placeholder p :: tokens

/-- The tokens of a row of characters. The longer form of a placeholder goes first. -/
def tokensOf : List Char → Except UnknownField (List Token)
  | [] => .ok []
  | [c] => .ok [.literal [c]]
  | [c, letter] =>
      if c = '%' ∧ isEnglishLetter letter then consPlaceholder none letter (.ok [])
      else consLiteral c <$> tokensOf [letter]
  | c :: x :: y :: rest =>
      if c = '%' ∧ isSubstitute x ∧ isEnglishLetter y then
        consPlaceholder (some x) y (tokensOf rest)
      else if c = '%' ∧ isEnglishLetter x then consPlaceholder none x (tokensOf (y :: rest))
      else consLiteral c <$> tokensOf (x :: y :: rest)

def read (source : String) : Except UnknownField Spec :=
  (tokensOf source.toList).map fun tokens => ⟨source, tokens⟩

end LinerNotes.Spec
