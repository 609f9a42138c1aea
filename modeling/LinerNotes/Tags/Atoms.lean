import LinerNotes.Failure
import LinerNotes.Keyed
import LinerNotes.Tags.Content

/-!
MP4 atoms: at most one entry for each key, holding a row of texts or, for track numbers, a row of
pairs of a number and a total.
-/

namespace LinerNotes

/-- What an atom holds. -/
inductive AtomData where
  | texts (values : List String)
  | pairs (values : List (Int × Int))
deriving DecidableEq

/-- The first text of an atom, or the first number of its pairs as text. -/
def AtomData.first? : AtomData → Option String
  | .texts values => values.head?
  | .pairs values => values.head?.map fun pair => Numeral.text pair.1

/-- The total of the first pair of an atom, and zero if it has no pair. -/
def AtomData.total : AtomData → Int
  | .pairs (pair :: _) => pair.2
  | _ => 0

/-- The atoms of a file in the order in which their keys arrived. -/
abbrev Atoms := List (String × AtomData)

namespace Atoms

/-- The atoms put one after the other, of which the last with a key counts. -/
def ofList (atoms : List (String × AtomData)) : Atoms :=
  Keyed.ofList (fun atom other => atom.1 == other.1) atoms

def key : Field → String
  | .album => "\u00a9alb"
  | .artist => "\u00a9ART"
  | .comment => "\u00a9cmt"
  | .genre => "\u00a9gen"
  | .title => "\u00a9nam"
  | .track => "trkn"
  | .year => "\u00a9day"

def data? (atoms : Atoms) (field : Field) : Option AtomData :=
  (atoms.find? fun atom => atom.1 == key field).map (·.2)

/-- The first text of a field. -/
def get? (atoms : Atoms) (field : Field) : Option String :=
  (atoms.data? field).bind AtomData.first?

/-- The atoms without that of a field. -/
def clear (atoms : Atoms) (field : Field) : Atoms :=
  atoms.filter fun atom => atom.1 != key field

/-- Whether a number fits the two bytes that a pair has for it. -/
def fits (n : Int) : Bool :=
  0 ≤ n && n < 65536

/-- What is written for a field. A track keeps the total that the atoms have. -/
def dataFor (atoms : Atoms) (field : Field) (content : Content) : Except Failure AtomData :=
  match field, content with
  | .track, .number n =>
      let total := ((atoms.data? field).map AtomData.total).getD 0
      if fits n && fits total then .ok (.pairs [(n, total)]) else .error (.pairOutOfRange n total)
  | _, content => .ok (.texts [content.shown])

def put (atoms : Atoms) (field : Field) (content : Content) : Except Failure Atoms :=
  (atoms.dataFor field content).map fun data =>
    Keyed.put (fun atom => atom.1 == key field) (key field, data) atoms

theorem key_inj {field other : Field} (h : key field = key other) : field = other := by
  have hkeys : ∀ f ∈ Field.all, ∀ g ∈ Field.all, key f = key g → f = g := by decide +kernel
  exact hkeys field (Field.mem_all field) other (Field.mem_all other) h

theorem key_of_ne {field other : Field} (hne : other ≠ field) (atom : String × AtomData)
    (h : (atom.1 == key field) = true) : (atom.1 == key other) = false := by
  rw [Bool.eq_false_iff]
  intro h'
  exact hne (key_inj ((beq_iff_eq.mp h').symm.trans (beq_iff_eq.mp h)))

theorem data?_clear (atoms : Atoms) (field : Field) : (atoms.clear field).data? field = none := by
  have hfind := Keyed.find?_filter_same (fun atom : String × AtomData => atom.1 == key field) atoms
  exact congrArg (Option.map (·.2)) hfind

theorem data?_clear_of_ne (atoms : Atoms) {field other : Field} (hne : other ≠ field) :
    (atoms.clear field).data? other = atoms.data? other := by
  have hfind := Keyed.find?_filter_other atoms (key_of_ne hne)
  exact congrArg (Option.map (·.2)) hfind

theorem data?_put {atoms after : Atoms} {field : Field} {content : Content}
    (h : atoms.put field content = .ok after) :
    ∃ data, atoms.dataFor field content = .ok data ∧ after.data? field = some data ∧
      ∀ other, other ≠ field → after.data? other = atoms.data? other := by
  unfold put at h
  cases hdata : atoms.dataFor field content with
  | error failure => simp [hdata, Except.map] at h
  | ok data =>
      simp only [hdata, Except.map, Except.ok.injEq] at h
      subst h
      refine ⟨data, rfl, ?_, ?_⟩
      · have hfind : (Keyed.put (fun atom : String × AtomData => atom.1 == key field)
            (key field, data) atoms).find? (fun atom => atom.1 == key field) =
              some (key field, data) := Keyed.find?_put_same atoms (by simp)
        exact congrArg (Option.map (·.2)) hfind
      · intro other hne
        have hfind := Keyed.find?_put_other atoms (key_of_ne hne (key field, data) (by simp))
          (key_of_ne hne)
        exact congrArg (Option.map (·.2)) hfind

end Atoms

end LinerNotes
