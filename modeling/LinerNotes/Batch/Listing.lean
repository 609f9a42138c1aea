import LinerNotes.Failure
import LinerNotes.Value

/-!
The listing of a file: its path, and a line for each field that is there.
-/

namespace LinerNotes.Listing

/-- The column, counted from the margin of two, at which values begin. -/
def column : Nat := 10

def line (field : Field) (value : Value) : String :=
  let label := field.name ++ ":"
  "  " ++ label ++ String.ofList (List.replicate (column - label.length) ' ') ++ value.shown

/-- The lines of fields that are looked up one after the other, up to the first look-up
that fails. -/
def fieldLines (lookUp : Field → Except Failure Value) : List Field → List String × Option Failure
  | [] => ([], none)
  | field :: rest =>
      match lookUp field with
      | .error failure => ([], some failure)
      | .ok value =>
          let (lines, failure?) := fieldLines lookUp rest
          (if value.isEmpty then lines else line field value :: lines, failure?)

def lines (path : String) (lookUp : Field → Except Failure Value) : List String × Option Failure :=
  let (lines, failure?) := fieldLines lookUp Field.all
  (path :: lines, failure?)

end LinerNotes.Listing
