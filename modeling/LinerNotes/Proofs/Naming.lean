import Mathlib.Data.String.Basic
import LinerNotes.Proofs.Filling
import LinerNotes.Proofs.Paths
import LinerNotes.Proofs.Places
import LinerNotes.Proofs.Writing

/-!
Names of files that are there. Such a name is short, so what it gives a spec can always be read; and
whatever tags hold can always be written into a name.
-/

namespace LinerNotes

open LinerNotes.Text

namespace Spec

theorem length_le_spell {tokens : List Token} {runs : List (List Char)}
    (h : List.Forall₂ Fits (placeholdersOf tokens) runs) {run : List Char} (hrun : run ∈ runs) :
    run.length ≤ (spell tokens runs).length := by
  induction tokens generalizing runs with
  | nil =>
      cases h
      cases hrun
  | cons token tokens ih =>
      cases token with
      | literal text =>
          have hrest := ih h hrun
          rw [spell, List.length_append]
          omega
      | placeholder p =>
          cases h with
          | cons _ hrest =>
              rw [spell, List.length_append]
              rcases List.mem_cons.mp hrun with rfl | hmem
              · omega
              · have hlength := ih hrest hmem
                omega

/-- Whether every capture for an integer field is short enough to be read. -/
def Readable (spec : Spec) (captures : List (List Char)) : Prop :=
  ∀ pair ∈ spec.placeholders.zip captures, pair.1.field.isNumeric = true →
    pair.2.length ≤ Numeral.digitLimit

theorem Fits.read {p : Placeholder} {run : List Char} (h : Fits p run)
    (hnumeric : p.field.isNumeric = true) : Numeral.read (String.ofList run) =
      if Numeral.digitLimit < run.length then .error (.tooManyDigits run.length)
      else .ok (decimalValue run) := by
  have hdigits : ∀ c ∈ run, isDecimalDigit c = true := by
    simpa [Fits, hnumeric] using h.2
  exact Numeral.read_digits h.1 hdigits

theorem captured_cases {p : Placeholder} {run : List Char} (hfits : Fits p run) :
    (p.field.isNumeric = true → run.length ≤ Numeral.digitLimit) ∧
        (∃ value, captured p.field run = .ok value) ∨
      p.field.isNumeric = true ∧ Numeral.digitLimit < run.length ∧
        captured p.field run = .error (.tooManyDigits run.length) := by
  unfold captured
  cases hnumeric : p.field.isNumeric with
  | true =>
      have hread := hfits.read hnumeric
      by_cases hlength : Numeral.digitLimit < run.length
      · rw [if_pos hlength] at hread
        exact .inr ⟨rfl, hlength, by rw [if_pos rfl, hread]; rfl⟩
      · rw [if_neg hlength] at hread
        refine .inl ⟨fun _ => Nat.le_of_not_lt hlength, .number (decimalValue run), ?_⟩
        rw [if_pos rfl, hread]
        rfl
  | false =>
      refine .inl ⟨?_, _, rfl⟩
      rintro ⟨⟩

/-- A name that matches is read, unless an integer field has got more digits than a numeral may
have; then the first such capture is the fault. -/
theorem extract_cases {spec : Spec} {name : String} {captures : List (List Char)}
    (h : spec.captures? name = some captures) :
    spec.Readable captures ∧ (∃ values, spec.extract name = .ok (some values)) ∨
      ∃ pair ∈ spec.placeholders.zip captures, pair.1.field.isNumeric = true ∧
        Numeral.digitLimit < pair.2.length ∧
        spec.extract name = .error (.tooManyDigits pair.2.length) := by
  obtain ⟨hfits, -⟩ := capturesOf_sound h
  have hpair : ∀ pair ∈ spec.placeholders.zip captures, Fits pair.1 pair.2 :=
    fun pair hmem => List.forall₂_zip hfits hmem
  have hextract : spec.extract name = some <$> spec.valuesOf captures := by
    simp only [extract, h]
  cases hentries : (spec.placeholders.zip captures).mapM fun pair =>
      (captured pair.1.field pair.2).map fun value => (pair.1.field, value) with
  | ok entries =>
      left
      constructor
      · intro pair hmem hnumeric
        obtain ⟨entry, hentry⟩ := exists_of_mapM_eq_ok hentries hmem
        rcases captured_cases (hpair pair hmem) with ⟨hlength, -⟩ | ⟨-, -, herror⟩
        · exact hlength hnumeric
        · rw [herror] at hentry
          cases hentry
      · have hvalues : spec.valuesOf captures =
            .ok (Keyed.ofList (fun entry other => entry.1 == other.1) entries) := by
          rw [valuesOf, hentries]
          rfl
        exact ⟨_, by rw [hextract, hvalues]; rfl⟩
  | error fault =>
      right
      obtain ⟨pair, hmem, hfault⟩ := exists_of_mapM_eq_error hentries
      have hvalues : spec.valuesOf captures = .error fault := by
        rw [valuesOf, hentries]
        rfl
      rcases captured_cases (hpair pair hmem) with ⟨-, value, hvalue⟩ | ⟨hnumeric, hlength, herror⟩
      · rw [hvalue] at hfault
        cases hfault
      · rw [herror] at hfault
        cases hfault
        exact ⟨pair, hmem, hnumeric, hlength, by rw [hextract, hvalues]; rfl⟩

theorem readable_of_length_le {spec : Spec} {name : String} {captures : List (List Char)}
    (h : spec.captures? name = some captures) (hlength : name.toList.length ≤ Numeral.digitLimit) :
    spec.Readable captures := by
  obtain ⟨hfits, hspell⟩ := capturesOf_sound h
  intro pair hpair _
  have hrun := length_le_spell hfits (List.of_mem_zip hpair).2
  rw [hspell] at hrun
  exact hrun.trans hlength

theorem extract_of_short (spec : Spec) {name : String}
    (h : name.toList.length ≤ Numeral.digitLimit) :
    ∃ entries?, spec.extract name = .ok entries? ∧
      entries?.isSome = (spec.captures? name).isSome := by
  cases hcaptures : spec.captures? name with
  | none => exact ⟨none, by simp only [extract, hcaptures], rfl⟩
  | some captures =>
      rcases extract_cases hcaptures with ⟨-, values, hvalues⟩ | ⟨pair, hpair, hnumeric, hlong, -⟩
      · exact ⟨some values, hvalues, rfl⟩
      · have hlength := readable_of_length_le hcaptures h pair hpair hnumeric
        omega

end Spec

theorem length_le_utf8ByteSize (s : String) : s.toList.length ≤ s.utf8ByteSize := by
  obtain ⟨chars, rfl⟩ : ∃ chars, s = String.ofList chars := ⟨s.toList, by simp⟩
  rw [String.toList_ofList, String.utf8ByteSize_ofList]
  induction chars with
  | nil => simp
  | cons c rest ih =>
      have hsize := c.utf8Size_pos
      rw [List.length_cons, String.utf8Len_cons]
      omega

theorem stem_length_le (path : String) :
    (Path.stem path).toList.length ≤ (Path.name path).toList.length := by
  have hsplit := Path.splitExtension_append (Path.nameChars path.toList)
  have hlength := congrArg List.length hsplit
  rw [List.length_append] at hlength
  simp only [Path.stem, Path.name, String.toList_ofList]
  omega

theorem Spec.extract_stem (spec : Spec) {tree : Tree} {path : String} {file : File}
    (hfile : tree.file? path = some file) :
    ∃ entries?, spec.extract (Path.stem path) = .ok entries? ∧
      entries?.isSome = (spec.captures? (Path.stem path)).isSome := by
  apply spec.extract_of_short
  have hname := Tree.name_le_of_file? hfile
  have hchars := length_le_utf8ByteSize (Path.name path)
  have hstem := stem_length_le path
  have hlimit : Tree.nameLimit ≤ Numeral.digitLimit := by decide
  omega

namespace Numeral

theorem digitChars_length_of_decimalValue {digits : List Char} {limit : Nat} (hlimit : 0 < limit)
    (h : digits.length ≤ limit) : (digitChars (decimalValue digits)).length ≤ limit := by
  rw [digitChars_length_le_iff hlimit, Int.natAbs_natCast]
  exact (decimalValue_lt digits).trans_le (Nat.pow_le_pow_right (by decide) h)

theorem digitChars_length_of_leading {s : List Char} {n : Int} (h : leading s = .ok n) :
    (digitChars n).length ≤ digitLimit := by
  simp only [leading] at h
  split at h
  · cases h
  · rename_i hlength
    cases h
    exact digitChars_length_of_decimalValue (by decide) (Nat.le_of_not_lt hlength)

theorem digitChars_length_of_leadingFixed (s : List Char) :
    (digitChars (leadingFixed 4 s)).length ≤ digitLimit := by
  simp only [leadingFixed]
  split
  · rename_i hdigits
    exact digitChars_length_of_decimalValue (by decide) (by rw [hdigits.1]; decide)
  · decide

end Numeral

theorem Field.holds_of_valueOfTag {field : Field} {stored : Option String} {value : Value}
    (h : field.valueOfTag stored = .ok value) : field.Holds value ∧
      ∀ n, value = .number n → (Numeral.digitChars n).length ≤ Numeral.digitLimit := by
  cases hnumeric : field.isNumeric with
  | false =>
      rw [valueOfTag_text hnumeric] at h
      cases h
      split
      · exact ⟨hnumeric, fun n hn => by cases hn⟩
      · exact ⟨hnumeric, fun n hn => by cases hn⟩
  | true =>
      obtain ⟨n, rfl⟩ := valueOfTag_number hnumeric h
      refine ⟨hnumeric, fun other hother => ?_⟩
      cases hother
      cases field with
      | track =>
          simp only [valueOfTag] at h
          cases hleading : Numeral.leading (stored.getD "").toList with
          | error cause =>
              rw [hleading] at h
              cases h
          | ok number =>
              rw [hleading] at h
              cases h
              exact Numeral.digitChars_length_of_leading hleading
      | year =>
          cases h
          exact Numeral.digitChars_length_of_leadingFixed _
      | _ => cases hnumeric

theorem Spec.render_of_read {handle : Handle} {sheet : Sheet}
    (hread : ∀ field, handle.read field = .ok (sheet field)) (spec : Spec)
    (hazard : Option Hazard) :
    ∃ name, spec.render hazard sheet.lookUp = .ok name ∧
      spec.render hazard handle.read = .ok name := by
  have hholds : ∀ p ∈ spec.placeholders, p.field.Holds (sheet p.field) ∧ ∀ n,
      sheet p.field = .number n → (Numeral.digitChars n).length ≤ Numeral.digitLimit :=
    fun p _ => Field.holds_of_valueOfTag (Container.value_eq_ok (hread p.field))
  have hkind := fun p hp => (hholds p hp).1
  have hlength := fun p hp => (hholds p hp).2
  exact ⟨_, render_of_holds hazard (fun _ _ => rfl) hkind hlength,
    render_of_holds hazard (fun p _ => hread p.field) hkind hlength⟩

theorem Tree.hasNul_renamed {path name : String} (hpath : hasNul path = false)
    (hname : '\x00' ∉ name.toList) :
    hasNul (Path.join (Path.directory path) (name ++ Path.extension path)) = false := by
  simp only [hasNul, List.contains_eq_mem, decide_eq_false_iff_not] at hpath ⊢
  intro hmem
  rcases Path.mem_of_mem_join hmem with hdirectory | hslash | hrenamed
  · exact hpath (Path.mem_of_mem_directory hdirectory)
  · exact absurd hslash (by decide)
  · rw [String.toList_append] at hrenamed
    rcases List.mem_append.mp hrenamed with hnew | hextension
    · exact hname hnew
    · exact hpath (Path.mem_of_mem_extension hextension)

end LinerNotes
