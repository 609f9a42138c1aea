import LinerNotes.Handle
import LinerNotes.Renaming
import LinerNotes.Spec.Extraction
import LinerNotes.Spec.Rendering

/-!
Work on one opened file: the file tree around it, its tags in memory, and what has been done so far.
A job that fails keeps what was done before it failed.
-/

namespace LinerNotes

/-- The state of work on one file. -/
structure Workbench where
  tree : Tree
  handle : Handle
  events : List Event
  saves : Nat
  renames : Nat
deriving DecidableEq

/-- A piece of work on one file. -/
abbrev Job := EStateM Failure Workbench

namespace Workbench

def start (tree : Tree) (handle : Handle) (opened : Event) : Workbench :=
  ⟨tree, handle, [opened], 0, 0⟩

def record (bench : Workbench) (event : Event) : Workbench :=
  { bench with events := bench.events ++ [event] }

def close (bench : Workbench) : Workbench :=
  { bench with handle := bench.handle.close }

end Workbench

namespace Job

def log (event : Event) : Job Unit :=
  modify (·.record event)

def ofExcept {α : Type} : Except Failure α → Job α
  | .ok a => pure a
  | .error failure => throw failure

def onHandle {α : Type} (work : EStateM Failure Handle α) : Job α := fun bench =>
  match work bench.handle with
  | .ok a handle => .ok a { bench with handle := handle }
  | .error failure handle => .error failure { bench with handle := handle }

def read (field : Field) : Job Value := do
  ofExcept ((← get).handle.read field)

def write (field : Field) (value : Value) : Job Unit := do
  log (← onHandle (Handle.write field value))

def writeAll (entries : List (Field × Value)) : Job Unit :=
  entries.forM fun (field, value) => write field value

def save : Job Unit := do
  let bench ← get
  let tags ← ofExcept bench.handle.toSave
  set { bench with tree := bench.tree.store bench.handle.location tags, saves := bench.saves + 1 }
  log (.saved bench.handle.path)

def close : Job Unit :=
  modify Workbench.close

/-- Work after which the file is closed, also when it fails. -/
def thenClose {α : Type} (work : Job α) : Job α := fun bench =>
  match work bench with
  | .ok a bench => .ok a bench.close
  | .error failure bench => .error failure bench.close

/-- Writes the values that a name gives, and tells whether the name fits the spec. -/
def extract (spec : Spec) (name : String) : Job Bool := do
  match ← ofExcept (Failure.ofNumeral (spec.extract name)) with
  | some entries =>
      writeAll entries
      return true
  | none =>
      log (.noMatch name spec.source)
      return false

/-- Tells which edits the file at a path is going to get. -/
def announce (edits : List Edit) (path : String) : Job Unit := do
  let descriptions ← ofExcept (Failure.ofNumeral (edits.mapM Edit.description))
  log (.applying descriptions path)

def edit (edits : List Edit) : Job Unit :=
  writeAll (edits.map Edit.entry)

def newName (spec : Spec) (hazard : Option Hazard) : Job String := do
  let handle := (← get).handle
  ofExcept (spec.newName hazard handle.read handle.path)

def rename (name : String) (dryRun : Bool) : Job Unit := do
  let bench ← get
  let renamed ← ofExcept (bench.tree.renameFile bench.handle.path name dryRun)
  let renames := if renamed.path = bench.handle.path then bench.renames else bench.renames + 1
  set { bench with tree := renamed.tree, renames := renames }
  log renamed.event

end Job

end LinerNotes
