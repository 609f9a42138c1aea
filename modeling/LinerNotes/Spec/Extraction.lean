import LinerNotes.Keyed
import LinerNotes.Spec.Basic
import LinerNotes.Value

/-!
Reading field values out of a name. Literals match themselves, a text placeholder matches one or
more characters that are no line break, and an integer placeholder one or more decimal digits. Of
all ways to match the whole name, the first placeholder takes as much as it can, then the second,
and so on.
-/

namespace LinerNotes.Spec

open LinerNotes.Text

def admits (field : Field) (c : Char) : Bool :=
  if field.isNumeric then isDecimalDigit c else c != '\n'

/-- Cuts off a front part of admitted characters, at least one and as many as can be such that the
rest goes on, and gives that part with what the rest came to. -/
def longest {α : Type} (admitted : Char → Bool) (goOn : List Char → Option α) :
    List Char → Option (List Char × α)
  | [] => none
  | c :: rest =>
      if admitted c then
        match longest admitted goOn rest with
        | some (run, result) => some (c :: run, result)
        | none => (goOn rest).map fun result => ([c], result)
      else none

/-- What follows a given text at the front of another. -/
def after? : List Char → List Char → Option (List Char)
  | [], s => some s
  | _ :: _, [] => none
  | t :: text, c :: rest => if t = c then after? text rest else none

/-- What the placeholders among the tokens match, in order, when the tokens match the whole text. -/
def capturesOf : List Token → List Char → Option (List (List Char))
  | [], [] => some []
  | [], _ :: _ => none
  | .literal text :: tokens, s => (after? text s).bind (capturesOf tokens)
  | .placeholder p :: tokens, s =>
      (longest (admits p.field) (capturesOf tokens) s).map fun (run, runs) => run :: runs

def captures? (spec : Spec) (name : String) : Option (List (List Char)) :=
  capturesOf spec.tokens name.toList

def captured (field : Field) (text : List Char) : Except Numeral.Fault Value :=
  if field.isNumeric then Value.number <$> Numeral.read (String.ofList text)
  else .ok (.text (String.ofList text))

/-- The values of the fields, each at the place of its first capture and as its last one has it. -/
def valuesOf (spec : Spec) (captures : List (List Char)) :
    Except Numeral.Fault (List (Field × Value)) := do
  let entries ← (spec.placeholders.zip captures).mapM fun (p, text) =>
    (captured p.field text).map fun value => (p.field, value)
  return Keyed.ofList (fun entry other => entry.1 == other.1) entries

/-- The values that a name gives the fields of a spec, if it matches. -/
def extract (spec : Spec) (name : String) : Except Numeral.Fault (Option (List (Field × Value))) :=
  match spec.captures? name with
  | none => .ok none
  | some captures => some <$> spec.valuesOf captures

end LinerNotes.Spec
