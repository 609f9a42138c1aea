import LinerNotes.Failure
import LinerNotes.Hazard
import LinerNotes.Spec.Basic
import LinerNotes.Value

/-!
Writing a name from field values. The fields are looked up one after the other in their fixed order,
each once, and each fills all of its placeholders; the name is put together afterwards.
-/

namespace LinerNotes.Spec

open LinerNotes.Text

/-- The value of a field as a name shows it, given a way to look it up. -/
def fieldValue (lookUp : Field → Except Failure Value) (field : Field) : Except Failure Value := do
  let value ← lookUp field
  Failure.ofNumeral (field.format value)

def fieldText (lookUp : Field → Except Failure Value) (field : Field) : Except Failure String := do
  let value ← fieldValue lookUp field
  match value.text? with
  | some text => return text
  | none => throw .notText

def filled (hazard : Option Hazard) (p : Placeholder) (text : String) : List Char :=
  let cased :=
    match p.letterCase with
    | .preserve => text.toList
    | .downcase => lowerChars text.toList
  Hazard.clean hazard p.substitute.toList cased

/-- The placeholders of a field with their positions among the tokens. -/
def occurrences (field : Field) (tokens : List Token) : List (Placeholder × Nat) :=
  tokens.zipIdx.filterMap fun (token, i) =>
    match token with
    | .literal _ => none
    | .placeholder p => if p.field = field then some (p, i) else none

/-- What the placeholders of one field become, by position. A field that no placeholder names is not
looked up. -/
def fillField (hazard : Option Hazard) (lookUp : Field → Except Failure Value)
    (tokens : List Token) (field : Field) : Except Failure (List (Nat × List Char)) :=
  match occurrences field tokens with
  | [] => .ok []
  | places => do
      let text ← fieldText lookUp field
      return places.map fun (p, i) => (i, filled hazard p text)

/-- What all placeholders become, by position. -/
def fillings (hazard : Option Hazard) (lookUp : Field → Except Failure Value)
    (tokens : List Token) : Except Failure (List (Nat × List Char)) := do
  let byField ← Field.all.mapM (fillField hazard lookUp tokens)
  return byField.flatten

/-- The name that the tokens make when each placeholder is replaced by the text at its position. -/
def assemble (filling : List (Nat × List Char)) (tokens : List Token) : List Char :=
  tokens.zipIdx.flatMap fun (token, i) =>
    match token with
    | .literal text => text
    | .placeholder _ => (filling.lookup i).getD []

def render (spec : Spec) (hazard : Option Hazard) (lookUp : Field → Except Failure Value) :
    Except Failure String := do
  let filling ← fillings hazard lookUp spec.tokens
  return String.ofList (assemble filling spec.tokens)

/-- The new name of the file at a path, which keeps its extension. -/
def newName (spec : Spec) (hazard : Option Hazard) (lookUp : Field → Except Failure Value)
    (path : String) : Except Failure String := do
  let name ← spec.render hazard lookUp
  return name ++ Path.extension path

end LinerNotes.Spec
