import Mathlib.Data.List.Nodup
import LinerNotes.Proofs.Lowering
import LinerNotes.Proofs.RoundTrip
import LinerNotes.Proofs.Tidiness

/-!
Names that stay. The values that a spec reads out of a name of its own make the same name again: a
text that was lowercased and cleaned for its placeholder comes through once more as it is.
-/

namespace LinerNotes

open LinerNotes.Text

theorem lastFor_of_nodup {entries : List (Field × Value)} (h : (entries.map Prod.fst).Nodup)
    (field : Field) : lastFor entries field = entries.lookup field := by
  induction entries with
  | nil => rfl
  | cons entry rest ih =>
      obtain ⟨key, value⟩ := entry
      rw [List.map_cons, List.nodup_cons] at h
      rw [lastFor_cons, ih h.2, List.lookup_cons]
      by_cases hkey : field = key
      · subst hkey
        have hrest : rest.lookup field = none := by
          rw [List.lookup_eq_none_iff]
          intro other hother
          rw [bne_iff_ne]
          rintro rfl
          have hmem : other.1 ∈ rest.map Prod.fst := List.mem_map_of_mem hother
          exact h.1 hmem
        simp [hrest]
      · simp [beq_eq_false_iff_ne.mpr hkey, Ne.symm hkey]

namespace Spec

/-- A second time nothing is left to lowercase or to clean, if the substitute is not changed by
lowercasing where the text is. -/
theorem filled_filled {hazard : Option Hazard} {p : Placeholder}
    (hlower : p.letterCase = .downcase → ∀ x ∈ p.substitute, isLowered x = true) (text : String) :
    filled hazard p (String.ofList (filled hazard p text)) = filled hazard p text := by
  obtain ⟨field, substitute, letterCase⟩ := p
  cases letterCase with
  | preserve =>
      simp only [filled, String.toList_ofList]
      exact Hazard.clean_of_clean le_rfl substitute _
  | downcase =>
      have hunder : isLowered '_' = true := by decide +kernel
      have hlowered : ∀ c ∈ Hazard.clean hazard substitute.toList (lowerChars text.toList),
          isLowered c = true := by
        intro c hc
        rcases (Hazard.of_mem_clean hc).2 with rfl | hsubstitute | ⟨hmem, -⟩
        · exact hunder
        · exact hlower rfl c hsubstitute
        · exact (of_mem_lowerChars hmem).1
      simp only [filled, String.toList_ofList, lowerChars_of_isLowered hlowered]
      exact Hazard.clean_of_clean le_rfl substitute _

section

variable {spec : Spec} {sheet : Sheet} {p : Placeholder}

theorem lastPlaceholder_of_nodup (h : (spec.placeholders.map Placeholder.field).Nodup)
    (hp : p ∈ spec.placeholders) : spec.lastPlaceholder? p.field = some p := by
  obtain ⟨q, hlast⟩ := exists_lastPlaceholder ⟨p, hp, rfl⟩
  obtain ⟨hq, hfield⟩ := mem_of_lastPlaceholder hlast
  rw [hlast, List.inj_on_of_nodup_map h hq hp hfield]

theorem replacement_of_valueBack {hazard : Option Hazard} {back : Sheet}
    (hback : back p.field = valueBack hazard sheet p)
    (hlower : p.letterCase = .downcase → ∀ x ∈ p.substitute, isLowered x = true) :
    replacement hazard back p = replacement hazard sheet p := by
  unfold valueBack at hback
  split at hback
  · simp only [replacement, hback]
  · have hne : String.ofList (replacement hazard sheet p) ≠ "" := by
      intro hempty
      have hnil := congrArg String.toList hempty
      rw [String.toList_ofList] at hnil
      exact replacement_ne_nil hazard sheet p hnil
    have htext : p.field.nameText (back p.field) = String.ofList (replacement hazard sheet p) := by
      simp [hback, Field.nameText, Value.isEmpty, hne]
    rw [replacement, htext]
    exact filled_filled hlower _

theorem fillable_of_valueBack {hazard : Option Hazard} {back : Sheet} (hfill : Fillable spec sheet)
    (hback : ∀ p ∈ spec.placeholders, back p.field = valueBack hazard sheet p) :
    Fillable spec back := by
  intro p hp
  rw [hback p hp]
  unfold valueBack
  split
  · exact hfill p hp
  · rename_i hnumeric
    simpa [Fills] using hnumeric

end

/-- A name written from a sheet is written again from the values that the spec reads out of
it, if no field has two placeholders and lowercasing leaves the substitutes of the lowercased
ones alone. -/
theorem render_extracted {source : String} {spec : Spec} (hspec : Spec.read source = .ok spec)
    (honce : (spec.placeholders.map Placeholder.field).Nodup)
    (hlower : ∀ p ∈ spec.placeholders, p.letterCase = .downcase →
      lowerChars p.substitute.toList = p.substitute.toList)
    {sheet : Sheet} (hazard : Option Hazard) (hfill : Fillable spec sheet)
    (hbreak : ∀ p ∈ spec.placeholders, '\n' ∉ replacement hazard sheet p)
    (hseparated :
      Separated (fun c => ∀ p ∈ spec.placeholders, c ∉ replacement hazard sheet p) spec.tokens) :
    ∃ name values, spec.render hazard sheet.lookUp = .ok name ∧
      spec.extract name = .ok (some values) ∧
      spec.render hazard (Sheet.ofEntries values).lookUp = .ok name := by
  have hsubstitute := isSubstitute_of_read hspec
  have hlowered : ∀ p ∈ spec.placeholders, p.letterCase = .downcase →
      ∀ x ∈ p.substitute, isLowered x = true := by
    intro p hp hcase x hx
    have hsame := hlower p hp hcase
    rw [hx] at hsame
    exact isLowered_of_lowerChars hsame
  let values := Keyed.ofList (fun entry other : Field × Value => entry.1 == other.1)
    (spec.placeholders.map fun p => (p.field, valueBack hazard sheet p))
  have hback : ∀ p ∈ spec.placeholders,
      Sheet.ofEntries values p.field = valueBack hazard sheet p := by
    intro p hp
    have hlookup : values.lookup p.field =
        (spec.lastPlaceholder? p.field).map (valueBack hazard sheet) := by
      rw [lookup_ofList, lastFor_map]
      rfl
    rw [Sheet.ofEntries, Sheet.setAll_apply, lastFor_of_nodup (nodup_keys_ofList _), hlookup,
      lastPlaceholder_of_nodup honce hp]
    rfl
  refine ⟨_, values, render_of_fillable hazard hfill,
    extract_replacements hfill hsubstitute hbreak hseparated, ?_⟩
  have hsame : spec.placeholders.map (replacement hazard (Sheet.ofEntries values)) =
      spec.placeholders.map (replacement hazard sheet) :=
    List.map_congr_left fun p hp => replacement_of_valueBack (hback p hp) (hlowered p hp)
  rw [render_of_fillable hazard (fillable_of_valueBack hfill hback), hsame]

theorem render_extracted_street :
    let sheet := Sheet.ofEntries
      [(.track, .number 7), (.title, .text "ΟΔΟΣ / ΣΑΣ İ"), (.artist, .text "O'Hara")]
    ∃ spec values, Spec.read "%n. %_t - %R" = .ok spec ∧
      spec.render (some .filesystem) sheet.lookUp = .ok "07. οδος_σας_i\u0307 - OHara" ∧
      spec.extract "07. οδος_σας_i\u0307 - OHara" = .ok (some values) ∧
      spec.render (some .filesystem) (Sheet.ofEntries values).lookUp =
        .ok "07. οδος_σας_i\u0307 - OHara" := by
  intro sheet
  let track : Placeholder := ⟨.track, none, .downcase⟩
  let title : Placeholder := ⟨.title, some '_', .downcase⟩
  let artist : Placeholder := ⟨.artist, none, .preserve⟩
  let spec : Spec := ⟨"%n. %_t - %R", [.placeholder track, .literal ['.', ' '], .placeholder title,
    .literal [' ', '-', ' '], .placeholder artist]⟩
  have hspec : Spec.read "%n. %_t - %R" = .ok spec := by decide +kernel
  have hlower : ∀ p ∈ spec.placeholders, p.letterCase = .downcase →
      lowerChars p.substitute.toList = p.substitute.toList := by decide +kernel
  have hfill : Fillable spec sheet := by decide +kernel
  have hbreak : ∀ p ∈ spec.placeholders, '\n' ∉ replacement (some .filesystem) sheet p := by
    decide +kernel
  have hspace : ∀ p ∈ spec.placeholders, ' ' ∉ replacement (some .filesystem) sheet p := by
    decide +kernel
  have hseparated : Separated
      (fun c => ∀ p ∈ spec.placeholders, c ∉ replacement (some .filesystem) sheet p) spec.tokens :=
    .step track ⟨' ', by simp, hspace⟩ (.step title ⟨' ', by simp, hspace⟩ (.last artist rfl))
  have hname : spec.render (some .filesystem) sheet.lookUp =
      .ok "07. οδος_σας_i\u0307 - OHara" := by decide +kernel
  obtain ⟨name, values, hrender, hextract, hagain⟩ :=
    render_extracted hspec (by decide +kernel) hlower (some .filesystem) hfill hbreak hseparated
  rw [hname] at hrender
  cases hrender
  exact ⟨spec, values, hspec, hname, hextract, hagain⟩

end Spec

end LinerNotes
