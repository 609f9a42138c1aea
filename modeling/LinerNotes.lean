import LinerNotes.Sheet
import LinerNotes.Main
import LinerNotes.Proofs.Cleaning
import LinerNotes.Proofs.Digits
import LinerNotes.Proofs.Entries
import LinerNotes.Proofs.Filling
import LinerNotes.Proofs.Frames
import LinerNotes.Proofs.RoundTrip
import LinerNotes.Proofs.Rendering
import LinerNotes.Proofs.Spelling
import LinerNotes.Proofs.Storing
import LinerNotes.Proofs.Containers
import LinerNotes.Proofs.Writing
import LinerNotes.Proofs.Places
import LinerNotes.Proofs.Refinement
import LinerNotes.Proofs.Naming
import LinerNotes.Proofs.Visiting
import LinerNotes.Proofs.WrittenForm
import LinerNotes.Proofs.Confinement
import LinerNotes.Proofs.Effects
import LinerNotes.Proofs.Survival
import LinerNotes.Proofs.Overflow
import LinerNotes.Proofs.Stopping
import LinerNotes.Proofs.Completion
import LinerNotes.Proofs.Lowering
import LinerNotes.Proofs.Stability
import LinerNotes.Proofs.Fitting
import LinerNotes.Proofs.Soundness
import LinerNotes.Proofs.Searching
import LinerNotes.Proofs.Waiting
import LinerNotes.Proofs.Refusal
import LinerNotes.Proofs.Others
import LinerNotes.Proofs.Counting
import LinerNotes.Proofs.Rehearsal
import LinerNotes.Proofs.Reordering
import LinerNotes.Proofs.Blocks
import LinerNotes.Proofs.Absorption
import LinerNotes.Proofs.StrayLetters
import LinerNotes.Proofs.Assembly
import LinerNotes.Proofs.Settling
import LinerNotes.Proofs.Preference
import LinerNotes.Proofs.Phrases
import LinerNotes.Proofs.Retrieval
import LinerNotes.Proofs.Mismatch
import LinerNotes.Proofs.Readback
import LinerNotes.Proofs.Untaggable
import LinerNotes.Proofs.Repetition
import LinerNotes.Proofs.Revision
import LinerNotes.Proofs.Contents
import LinerNotes.Proofs.Agreement
