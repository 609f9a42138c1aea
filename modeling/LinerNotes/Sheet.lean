import LinerNotes.Edit
import LinerNotes.Spec.Extraction

/-!
A sheet of values, one for each field, kept in memory. It takes every value as it is given.
-/

namespace LinerNotes

/-- A value for every field. -/
abbrev Sheet := Field → Value

namespace Sheet

def empty : Sheet :=
  Field.emptyValue

def set (sheet : Sheet) (field : Field) (value : Value) : Sheet :=
  fun other => if other = field then value else sheet other

def setAll (sheet : Sheet) (entries : List (Field × Value)) : Sheet :=
  entries.foldl (fun sheet (field, value) => sheet.set field value) sheet

/-- The sheet with the given fields, and the others without any value. -/
def ofEntries (entries : List (Field × Value)) : Sheet :=
  setAll (fun _ => .absent) entries

/-- The values in the order of the fields. -/
def values (sheet : Sheet) : List Value :=
  Field.all.map sheet

def edit (sheet : Sheet) (edits : List Edit) : Sheet :=
  sheet.setAll (edits.map Edit.entry)

/-- The look-up of a field on a sheet, which never fails. -/
def lookUp (sheet : Sheet) (field : Field) : Except Failure Value :=
  .ok (sheet field)

end Sheet

end LinerNotes
