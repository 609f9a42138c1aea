import Mathlib.Data.List.Sigma
import LinerNotes.Proofs.Rendering
import LinerNotes.Sheet
import LinerNotes.Spec.Reading

/-!
Writing a name token by token. The table that is filled field by field holds each placeholder's
position exactly once, so the name is the same as if every token had been written where it stands.
-/

namespace LinerNotes

open LinerNotes.Text

def LetterCase.apply : LetterCase → List Char → List Char
  | .preserve, s => s
  | .downcase, s => lowerChars s

/-- What a token becomes in a name, given the texts of the fields. -/
def Token.become (hazard : Option Hazard) (text : Field → String) : Token → List Char
  | .literal chars => chars
  | .placeholder p =>
      Hazard.clean hazard p.substitute.toList (p.letterCase.apply (text p.field).toList)

namespace Spec

/-- Whether every field of a spec has its value looked up and formatted as the given text. -/
def Formats (spec : Spec) (lookUp : Field → Except Failure Value) (text : Field → String) : Prop :=
  ∀ p ∈ spec.placeholders, ∃ value, lookUp p.field = .ok value ∧
    p.field.format value = .ok (.text (text p.field))

theorem formats_iff {spec : Spec} {lookUp : Field → Except Failure Value} {text : Field → String} :
    spec.Formats lookUp text ↔
      ∀ p ∈ spec.placeholders, fieldText lookUp p.field = .ok (text p.field) := by
  simp only [Formats, fieldText_eq_ok_iff]

theorem become_placeholder (hazard : Option Hazard) (text : Field → String) (p : Placeholder) :
    Token.become hazard text (.placeholder p) = filled hazard p (text p.field) := by
  obtain ⟨field, substitute, letterCase⟩ := p
  cases letterCase <;> rfl

theorem flatMap_become (hazard : Option Hazard) (text : Field → String) (tokens : List Token) :
    tokens.flatMap (Token.become hazard text) =
      spell tokens ((placeholdersOf tokens).map fun p => filled hazard p (text p.field)) := by
  induction tokens with
  | nil => rfl
  | cons token tokens ih =>
      rw [List.flatMap_cons, ih]
      cases token with
      | literal chars => rfl
      | placeholder p => rw [become_placeholder, placeholdersOf_placeholder, List.map_cons, spell]

theorem nodup_occurrences (field : Field) (tokens : List Token) :
    ((occurrences field tokens).map Prod.snd).Nodup := by
  have hpositions : tokens.zipIdx.Pairwise fun entry other => entry.2 ≠ other.2 :=
    List.pairwise_map.mp (List.nodup_zipIdx_map_snd tokens)
  refine List.pairwise_map.mpr (hpositions.filterMap _ ?_)
  rintro ⟨token, i⟩ ⟨other, j⟩ hne ⟨p, k⟩ hp ⟨q, l⟩ hq
  cases token with
  | literal text => cases hp
  | placeholder r =>
      cases other with
      | literal text => cases hq
      | placeholder s =>
          simp only [Option.ite_none_right_eq_some, Option.some.injEq, Prod.mk.injEq] at hp hq
          rw [← hp.2.2, ← hq.2.2]
          exact hne

theorem nodup_positions (tokens : List Token) :
    (Field.all.flatMap fun field => (occurrences field tokens).map Prod.snd).Nodup := by
  rw [List.nodup_flatMap]
  refine ⟨fun field _ => nodup_occurrences field tokens, ?_⟩
  have hfields : Field.all.Pairwise (· ≠ ·) := by decide
  refine hfields.imp fun {field other} hne => List.disjoint_left.mpr fun i hi hother => ?_
  obtain ⟨⟨p, j⟩, hp, rfl⟩ := List.mem_map.mp hi
  obtain ⟨⟨q, k⟩, hq, heq⟩ := List.mem_map.mp hother
  obtain ⟨rfl, htoken⟩ := mem_occurrences.mp hp
  obtain ⟨rfl, hsame⟩ := mem_occurrences.mp hq
  simp only at heq
  rw [heq, htoken, Option.some.injEq, Token.placeholder.injEq] at hsame
  exact hne (congrArg Placeholder.field hsame)

theorem mem_positions_iff {tokens : List Token} {i : Nat} :
    i ∈ Field.all.flatMap (fun field => (occurrences field tokens).map Prod.snd) ↔
      ∃ p, tokens[i]? = some (.placeholder p) := by
  simp only [List.mem_flatMap, List.mem_map]
  constructor
  · rintro ⟨field, -, ⟨p, j⟩, hp, rfl⟩
    exact ⟨p, (mem_occurrences.mp hp).2⟩
  · rintro ⟨p, hp⟩
    exact ⟨p.field, Field.mem_all p.field, (p, i), mem_occurrences.mpr ⟨rfl, hp⟩, rfl⟩

/-- A spec makes a name exactly when the value of each of its fields can be looked up and formatted,
and the name is what its tokens become, one after the other where they stand. The table from which
the name is put together has one entry for each placeholder, found under its position, and no
others. -/
theorem render_eq_flatMap (spec : Spec) (hazard : Option Hazard)
    (lookUp : Field → Except Failure Value) :
    (∀ name, spec.render hazard lookUp = .ok name ↔ ∃ text, spec.Formats lookUp text ∧
      name = String.ofList (spec.tokens.flatMap (Token.become hazard text))) ∧
    ∀ text, spec.Formats lookUp text → ∃ filling, fillings hazard lookUp spec.tokens = .ok filling ∧
      (∀ i, (filling.map Prod.fst).count i =
        if (spec.tokens[i]?.bind Token.placeholder?).isSome then 1 else 0) ∧
      ∀ i p, spec.tokens[i]? = some (.placeholder p) →
        filling.lookup i = some (Token.become hazard text (.placeholder p)) := by
  constructor
  · intro name
    constructor
    · intro hname
      obtain ⟨text, htext, rfl⟩ := render_eq_ok hname
      exact ⟨text, formats_iff.mpr htext, by rw [flatMap_become]; rfl⟩
    · rintro ⟨text, htext, rfl⟩
      rw [render_of_texts hazard (formats_iff.mp htext), flatMap_become]
      rfl
  · intro text htext
    refine ⟨_, fillings_of_texts (formats_iff.mp htext), ?_, ?_⟩
    · intro i
      rw [positions_fillings, (nodup_positions spec.tokens).count]
      refine if_congr ?_ rfl rfl
      rw [mem_positions_iff]
      cases spec.tokens[i]? with
      | none => simp
      | some token => cases token <;> simp [Token.placeholder?]
    · intro i p hp
      rw [lookup_fillings hp, become_placeholder]

theorem render_eq_flatMap_lookalike :
    let sheet := Sheet.ofEntries
      [(.artist, .text "A/B"), (.title, .text "%R %n"), (.track, .number 7)]
    ∃ spec filling, Spec.read "%n. %_t (%T) by %R" = .ok spec ∧
      spec.render (some .filesystem) sheet.lookUp = .ok "07. %r_%n (%R%n) by AB" ∧
      fillings (some .filesystem) sheet.lookUp spec.tokens = .ok filling ∧
      (filling.map Prod.fst).count 1 = 0 ∧ (filling.map Prod.fst).count 2 = 1 ∧
      filling.lookup 2 = some "%r_%n".toList ∧ filling.lookup 4 = some "%R%n".toList := by
  intro sheet
  let text : Field → String
    | .artist => "A/B"
    | .title => "%R %n"
    | .track => "07"
    | _ => ""
  let title : Placeholder := ⟨.title, some '_', .downcase⟩
  let again : Placeholder := ⟨.title, none, .preserve⟩
  let spec : Spec := ⟨"%n. %_t (%T) by %R", [.placeholder ⟨.track, none, .downcase⟩,
    .literal ". ".toList, .placeholder title, .literal " (".toList, .placeholder again,
    .literal ") by ".toList, .placeholder ⟨.artist, none, .preserve⟩]⟩
  have hspec : Spec.read "%n. %_t (%T) by %R" = .ok spec := by decide +kernel
  have hformat : ∀ p ∈ spec.placeholders,
      p.field.format (sheet p.field) = .ok (.text (text p.field)) := by decide +kernel
  have hformats : spec.Formats sheet.lookUp text := fun p hp => ⟨sheet p.field, rfl, hformat p hp⟩
  obtain ⟨hname, htable⟩ := render_eq_flatMap spec (some .filesystem) sheet.lookUp
  obtain ⟨filling, hfilling, hcount, hlookup⟩ := htable text hformats
  have hrender : spec.render (some .filesystem) sheet.lookUp = .ok "07. %r_%n (%R%n) by AB" :=
    (hname _).mpr ⟨text, hformats, by decide +kernel⟩
  have htitle : Token.become (some .filesystem) text (.placeholder title) = "%r_%n".toList := by
    decide +kernel
  have hagain : Token.become (some .filesystem) text (.placeholder again) = "%R%n".toList := by
    decide +kernel
  exact ⟨spec, filling, hspec, hrender, hfilling, hcount 1, hcount 2,
    htitle ▸ hlookup 2 title rfl, hagain ▸ hlookup 4 again rfl⟩

end Spec

end LinerNotes
