import Mathlib.Data.List.Forall2
import LinerNotes.Spec.Extraction

/-!
Names that a spec spells. A row of tokens together with one run of characters for each placeholder
spells a name; matching finds such runs exactly when there are any.
-/

namespace LinerNotes.Spec

open LinerNotes.Text

/-- Whether a run may stand for a placeholder: digits for an integer field, and characters that are
no line break for a text field; in either case at least one. -/
def Fits (p : Placeholder) (run : List Char) : Prop :=
  run ≠ [] ∧
    if p.field.isNumeric then ∀ c ∈ run, isDecimalDigit c = true else '\n' ∉ run

/-- The placeholders among the tokens, in their order. -/
def placeholdersOf (tokens : List Token) : List Placeholder :=
  tokens.filterMap Token.placeholder?

/-- The text that tokens spell when their placeholders become the given runs, one after
the other. -/
def spell : List Token → List (List Char) → List Char
  | [], _ => []
  | .literal text :: tokens, runs => text ++ spell tokens runs
  | .placeholder _ :: tokens, run :: runs => run ++ spell tokens runs
  | .placeholder _ :: tokens, [] => spell tokens []

@[simp] theorem placeholdersOf_nil : placeholdersOf [] = [] := rfl

@[simp] theorem placeholdersOf_literal (text : List Char) (tokens : List Token) :
    placeholdersOf (.literal text :: tokens) = placeholdersOf tokens := rfl

@[simp] theorem placeholdersOf_placeholder (p : Placeholder) (tokens : List Token) :
    placeholdersOf (.placeholder p :: tokens) = p :: placeholdersOf tokens := rfl

theorem placeholdersOf_append (tokens others : List Token) :
    placeholdersOf (tokens ++ others) = placeholdersOf tokens ++ placeholdersOf others :=
  List.filterMap_append

theorem fits_iff_admits {p : Placeholder} {run : List Char} :
    Fits p run ↔ run ≠ [] ∧ ∀ c ∈ run, admits p.field c = true := by
  unfold Fits admits
  cases p.field.isNumeric with
  | true => simp
  | false =>
      simp only [Bool.false_eq_true, if_false, bne_iff_ne]
      constructor
      · rintro ⟨hne, hbreak⟩
        refine ⟨hne, fun c hc heq => hbreak ?_⟩
        rwa [← heq]
      · rintro ⟨hne, hall⟩
        exact ⟨hne, fun hmem => hall '\n' hmem rfl⟩

theorem after?_eq_some_iff {text s rest : List Char} :
    after? text s = some rest ↔ s = text ++ rest := by
  induction text generalizing s with
  | nil => simp [after?]
  | cons t text ih =>
      cases s with
      | nil => simp [after?]
      | cons c s =>
          simp only [after?, List.cons_append, List.cons.injEq]
          by_cases h : t = c
          · simp [h, ih]
          · simp [h, eq_comm (a := c)]

theorem longest_sound {α : Type} {admitted : Char → Bool} {goOn : List Char → Option α}
    {s run : List Char} {result : α} (h : longest admitted goOn s = some (run, result)) :
    run ≠ [] ∧ (∀ c ∈ run, admitted c = true) ∧
      ∃ rest, s = run ++ rest ∧ goOn rest = some result := by
  induction s generalizing run with
  | nil => simp [longest] at h
  | cons c s ih =>
      simp only [longest] at h
      split at h
      · rename_i hc
        split at h
        · rename_i inner found hinner
          simp only [Option.some.injEq, Prod.mk.injEq] at h
          obtain ⟨rfl, rfl⟩ := h
          obtain ⟨-, hall, rest, hs, hrest⟩ := ih hinner
          refine ⟨by simp, ?_, rest, by simp [hs], hrest⟩
          simpa [hc] using hall
        · obtain ⟨found, hfound, heq⟩ := Option.map_eq_some_iff.mp h
          simp only [Prod.mk.injEq] at heq
          obtain ⟨rfl, rfl⟩ := heq
          exact ⟨by simp, by simpa using hc, s, by simp, hfound⟩
      · simp at h

theorem capturesOf_sound {tokens : List Token} {s : List Char} {runs : List (List Char)}
    (h : capturesOf tokens s = some runs) :
    List.Forall₂ Fits (placeholdersOf tokens) runs ∧ spell tokens runs = s := by
  induction tokens generalizing s runs with
  | nil =>
      cases s with
      | nil =>
          simp only [capturesOf, Option.some.injEq] at h
          subst h
          exact ⟨.nil, rfl⟩
      | cons c s => simp [capturesOf] at h
  | cons token tokens ih =>
      cases token with
      | literal text =>
          obtain ⟨rest, hafter, hrest⟩ := Option.bind_eq_some_iff.mp h
          obtain ⟨hfits, hspell⟩ := ih hrest
          refine ⟨hfits, ?_⟩
          rw [after?_eq_some_iff.mp hafter, spell, hspell]
      | placeholder p =>
          obtain ⟨⟨run, others⟩, hlongest, heq⟩ := Option.map_eq_some_iff.mp h
          subst heq
          obtain ⟨hne, hall, rest, hs, hrest⟩ := longest_sound hlongest
          obtain ⟨hfits, hspell⟩ := ih hrest
          refine ⟨.cons (fits_iff_admits.mpr ⟨hne, hall⟩) hfits, ?_⟩
          rw [hs, spell, hspell]

theorem longest_isSome {α : Type} {admitted : Char → Bool} {goOn : List Char → Option α}
    {run rest : List Char} (hne : run ≠ []) (hall : ∀ c ∈ run, admitted c = true)
    (hrest : (goOn rest).isSome = true) : (longest admitted goOn (run ++ rest)).isSome = true := by
  induction run with
  | nil => exact absurd rfl hne
  | cons c run ih =>
      have hc : admitted c = true := hall c (by simp)
      simp only [List.cons_append, longest, hc, if_true]
      split
      · rfl
      · rename_i hnone
        cases run with
        | nil => simpa using hrest
        | cons d run =>
            have hfound := ih (by simp) fun e he => hall e (List.mem_cons_of_mem c he)
            rw [hnone] at hfound
            simp at hfound

theorem capturesOf_isSome {tokens : List Token} {runs : List (List Char)}
    (h : List.Forall₂ Fits (placeholdersOf tokens) runs) :
    (capturesOf tokens (spell tokens runs)).isSome = true := by
  induction tokens generalizing runs with
  | nil => rfl
  | cons token tokens ih =>
      cases token with
      | literal text =>
          have hafter : after? text (text ++ spell tokens runs) = some (spell tokens runs) :=
            after?_eq_some_iff.mpr rfl
          simpa [spell, capturesOf, hafter] using ih h
      | placeholder p =>
          rw [placeholdersOf_placeholder] at h
          obtain ⟨run, others, hrun, hothers, rfl⟩ := List.forall₂_cons_left_iff.mp h
          obtain ⟨hne, hall⟩ := fits_iff_admits.mp hrun
          have hfound := longest_isSome hne hall (ih hothers)
          simpa [spell, capturesOf] using hfound

/-- A name matches a spec exactly when it is spelled by the spec's tokens with a fitting run for
each placeholder, and then the captures are such runs, one for each placeholder in order. -/
theorem captures?_isSome_iff_spelled (spec : Spec) (name : String) :
    ((spec.captures? name).isSome = true ↔
      ∃ runs, List.Forall₂ Fits spec.placeholders runs ∧ spell spec.tokens runs = name.toList) ∧
    ∀ runs, spec.captures? name = some runs →
      runs.length = spec.placeholders.length ∧
        List.Forall₂ Fits spec.placeholders runs ∧ spell spec.tokens runs = name.toList := by
  refine ⟨⟨?_, ?_⟩, ?_⟩
  · intro h
    obtain ⟨runs, hruns⟩ := Option.isSome_iff_exists.mp h
    exact ⟨runs, capturesOf_sound hruns⟩
  · rintro ⟨runs, hfits, hspell⟩
    rw [captures?, ← hspell]
    exact capturesOf_isSome hfits
  · intro runs hruns
    have hsound := capturesOf_sound hruns
    exact ⟨hsound.1.length_eq.symm, hsound⟩

end LinerNotes.Spec
