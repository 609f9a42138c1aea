import LinerNotes.Proofs.Blocks

/-!
Cleaning more than once. A class takes everything for dangerous that a less strict one does, so
cleaning with the two of them, in whatever order, comes to cleaning with the stricter one.
-/

namespace LinerNotes.Hazard

/-- What cleaning leaves of a text, with a substitute that is no apostrophe; it may be nothing. -/
def remains (hazard : Option Hazard) (substitute : Option Char) (s : List Char) : List Char :=
  tidy substitute.toList
    (replaceRuns (holdsFor hazard) substitute.toList false (s.filter (· != '\'')))

theorem clean_eq_remains (hazard : Option Hazard) (substitute : Option Char) (s : List Char) :
    clean hazard substitute.toList s =
      let left := remains hazard (substitute.filter (· != '\'')) s
      if left = [] then fallback else left := by
  have hword : (if substitute.toList = ['\''] then [] else substitute.toList) =
      (substitute.filter (· != '\'')).toList := by
    cases substitute with
    | none => rfl
    | some x => by_cases hx : x = '\'' <;> simp [Option.filter, hx]
  rw [clean_eq_if, hword]
  rfl

theorem remains_none (hazard : Option Hazard) (s : List Char) :
    remains hazard none s = (s.filter (· != '\'')).filter (!holdsFor hazard ·) := by
  rw [remains, Option.toList_none, replaceRuns_nil]
  rfl

theorem remains_some (hazard : Option Hazard) (x : Char) (s : List Char) :
    remains hazard (some x) s =
      [x].intercalate (blocks (fun c => holdsFor hazard c || c == x) (s.filter (· != '\''))) :=
  tidy_replaceRuns _ x _

theorem filter_remains {substitute : Option Char} (hazard : Option Hazard)
    (hquote : '\'' ∉ substitute) (s : List Char) :
    (remains hazard substitute s).filter (· != '\'') = remains hazard substitute s := by
  rw [List.filter_eq_self]
  intro c hc
  rcases of_mem_replaceRuns (mem_of_mem_tidy hc) with hsubstitute | ⟨hmem, -⟩
  · have hne : c ≠ '\'' := fun heq => hquote (by simpa [heq] using hsubstitute)
    simpa using hne
  · exact (List.mem_filter.mp hmem).2

section

variable {weaker stronger : Option Hazard} (h : strictness weaker ≤ strictness stronger)

include h

/-- The stricter class leaves of a cleaned text what it leaves of the text itself. -/
theorem remains_remains {substitute : Option Char} (hquote : '\'' ∉ substitute) (s : List Char) :
    remains stronger substitute (remains weaker substitute s) = remains stronger substitute s := by
  cases substitute with
  | none =>
      have hkept : (fun c => !holdsFor stronger c && !holdsFor weaker c) =
          fun c => !holdsFor stronger c := by
        funext c
        cases hc : holdsFor weaker c with
        | true => simp [holdsFor_of_strictness_le h hc]
        | false => simp
      rw [remains_none stronger, filter_remains weaker hquote, remains_none, remains_none,
        List.filter_filter, hkept]
  | some x =>
      have hcut : (fun c => holdsFor weaker c || (holdsFor stronger c || c == x)) =
          fun c => holdsFor stronger c || c == x := by
        funext c
        cases hc : holdsFor weaker c with
        | true => simp [holdsFor_of_strictness_le h hc]
        | false => simp
      have hx : (holdsFor stronger x || x == x) = true := by simp
      have hblocks : blocks (fun c => holdsFor stronger c || c == x)
          (remains weaker (some x) s) =
            blocks (fun c => holdsFor stronger c || c == x) (s.filter (· != '\'')) := by
        rw [remains, Option.toList_some, blocks_tidy hx, blocks_replaceRuns hx, hcut]
      rw [remains_some stronger, filter_remains weaker hquote, hblocks, remains_some]

theorem clean_clean_of_le (substitute : Option Char) (s : List Char) :
    clean stronger substitute.toList (clean weaker substitute.toList s) =
      clean stronger substitute.toList s := by
  have hquote : '\'' ∉ substitute.filter (· != '\'') := by simp
  have hagain := remains_remains h hquote s
  by_cases hnothing : remains weaker (substitute.filter (· != '\'')) s = []
  · have hnone : remains stronger (substitute.filter (· != '\'')) s = [] := by
      rw [← hagain, hnothing]
      cases substitute.filter (· != '\'') <;> rfl
    rw [clean_eq_remains weaker, if_pos hnothing, clean_fallback, clean_eq_remains, if_pos hnone]
  · rw [clean_eq_remains weaker, if_neg hnothing, clean_eq_remains, hagain, ← clean_eq_remains]

/-- Of two cleanings with the same substitute the stricter one decides, whichever comes first. In
particular, to clean twice with one class is to clean once. -/
theorem clean_absorbs (substitute : Option Char) (s : List Char) :
    clean stronger substitute.toList (clean weaker substitute.toList s) =
        clean stronger substitute.toList s ∧
      clean weaker substitute.toList (clean stronger substitute.toList s) =
        clean stronger substitute.toList s :=
  ⟨clean_clean_of_le h substitute s, clean_of_clean h substitute s⟩

end

theorem clean_absorbs_band :
    let band := " AC/DC: '(Live)!'".toList
    strictness (some .filesystem) ≤ strictness (some .shell) ∧
      clean (some .filesystem) [' '] band = "AC DC (Live)!".toList ∧
      clean (some .shell) [' '] band = "AC DC Live".toList ∧
      clean (some .shell) [' '] "AC DC (Live)!".toList = "AC DC Live".toList ∧
      clean (some .filesystem) [' '] "AC DC Live".toList = "AC DC Live".toList := by
  intro band
  have hle : strictness (some .filesystem) ≤ strictness (some .shell) := by decide
  have hfilesystem : clean (some .filesystem) [' '] band = "AC DC (Live)!".toList := by
    decide +kernel
  have hshell : clean (some .shell) [' '] band = "AC DC Live".toList := by decide +kernel
  obtain ⟨habsorbs, hkeeps⟩ := clean_absorbs hle (some ' ') band
  rw [Option.toList_some, hfilesystem, hshell] at habsorbs
  rw [Option.toList_some, hshell] at hkeeps
  exact ⟨hle, hfilesystem, hshell, habsorbs, hkeeps⟩

end LinerNotes.Hazard
