import LinerNotes.Proofs.Lowering
import LinerNotes.Proofs.Naming
import LinerNotes.Proofs.RoundTrip

/-!
Names that fit the spec that made them, whatever stands between the placeholders. Every replacement
may stand for its placeholder, so matching finds some captures; they can be read unless an integer
field captures more digits than a numeral may have, which takes digits from its neighbours.
-/

namespace LinerNotes.Spec

open LinerNotes.Text

theorem not_mem_lowerChars_of_lt {c : Char} {s : List Char} (hc : c.toNat < 97) (h : c ∉ s) :
    c ∉ lowerChars s := by
  intro hmem
  rcases (of_mem_lowerChars hmem).2 with hsource | hletter
  · exact h hsource
  · omega

theorem newline_not_mem_clean {hazard : Option Hazard} {substitute : Option Char} {s : List Char}
    (hsubstitute : substitute ≠ some '\n') (hs : hazard = none → '\n' ∉ s) :
    '\n' ∉ Hazard.clean hazard substitute.toList s := by
  intro hmem
  rcases (Hazard.of_mem_clean hmem).2 with hunder | hx | ⟨hsource, hsafe⟩
  · exact absurd hunder (by decide)
  · exact hsubstitute hx
  · cases hazard with
    | none => exact hs rfl hsource
    | some kind =>
        have hblank : isBlank '\n' = true := by decide
        simp [Hazard.holdsFor, Hazard.holds, hblank] at hsafe

section

variable {spec : Spec} {sheet : Sheet} {p : Placeholder}

theorem newline_not_mem_replacement {hazard : Option Hazard} (hfill : Fillable spec sheet)
    (hp : p ∈ spec.placeholders) (hsubstitute : ∀ x ∈ p.substitute, isSubstitute x = true)
    (hbreak : p.substitute ≠ some '\n')
    (htext : hazard = none → ∀ s, sheet p.field = .text s → '\n' ∉ s.toList) :
    '\n' ∉ replacement hazard sheet p := by
  cases hnumeric : p.field.isNumeric with
  | true =>
      obtain ⟨n, hvalue, hpositive, -⟩ := hfill.number hp hnumeric
      rw [replacement_of_number hsubstitute hvalue hpositive]
      intro hmem
      have hdigit := Numeral.isDigit_of_mem_paddedChars (by omega) hmem
      contradiction
  | false =>
      have hname : hazard = none → '\n' ∉ (p.field.nameText (sheet p.field)).toList := by
        intro hnone
        have hkind := (hfill p hp).holds
        unfold Field.nameText
        cases hvalue : sheet p.field with
        | absent => exact List.not_mem_nil
        | text s =>
            split
            · exact List.not_mem_nil
            · exact htext hnone s hvalue
        | number n =>
            rw [hvalue] at hkind
            exact absurd (hkind.symm.trans hnumeric) (by decide)
      unfold replacement filled
      cases p.letterCase with
      | preserve => exact newline_not_mem_clean hbreak hname
      | downcase =>
          exact newline_not_mem_clean hbreak fun hnone =>
            not_mem_lowerChars_of_lt (by decide) (hname hnone)

end

/-- A name written from a sheet matches the spec that wrote it, although the placeholders may stand
next to each other and the values may hold what separates them. Reading the captures succeeds unless
an integer field captures more digits than a numeral may have; no capture does in a name that has no
more characters than that. -/
theorem render_fits {source : String} {spec : Spec} (hspec : Spec.read source = .ok spec)
    (hbreak : ∀ p ∈ spec.placeholders, p.substitute ≠ some '\n') {sheet : Sheet}
    (hazard : Option Hazard) (hfill : Fillable spec sheet)
    (htext : hazard = none → ∀ p ∈ spec.placeholders, ∀ s, sheet p.field = .text s →
      '\n' ∉ s.toList) :
    ∃ name captures, spec.render hazard sheet.lookUp = .ok name ∧
      spec.captures? name = some captures ∧
      ((∃ values, spec.extract name = .ok (some values)) ↔ spec.Readable captures) ∧
      (¬ spec.Readable captures → ∃ pair ∈ spec.placeholders.zip captures,
        pair.1.field.isNumeric = true ∧ Numeral.digitLimit < pair.2.length ∧
          spec.extract name = .error (.tooManyDigits pair.2.length)) ∧
      (name.toList.length ≤ Numeral.digitLimit → spec.Readable captures) := by
  have hsubstitute := isSubstitute_of_read hspec
  have hfits := fits_replacements hfill hsubstitute fun p hp =>
    newline_not_mem_replacement hfill hp (hsubstitute p hp) (hbreak p hp) fun hnone =>
      htext hnone p hp
  have hrender := render_of_fillable hazard hfill
  generalize hname : String.ofList (spell spec.tokens
    (spec.placeholders.map (replacement hazard sheet))) = name at hrender
  have hmatches : (spec.captures? name).isSome = true := by
    rw [← hname, captures?, String.toList_ofList]
    exact capturesOf_isSome hfits
  obtain ⟨captures, hcaptures⟩ := Option.isSome_iff_exists.mp hmatches
  refine ⟨name, captures, hrender, hcaptures, ?_, ?_, readable_of_length_le hcaptures⟩
  · rcases extract_cases hcaptures with ⟨hreadable, hvalues⟩ |
      ⟨pair, hpair, hnumeric, hlong, hfault⟩
    · exact ⟨fun _ => hreadable, fun _ => hvalues⟩
    · constructor
      · rintro ⟨values, hvalues⟩
        rw [hfault] at hvalues
        cases hvalues
      · intro hreadable
        have hlength := hreadable pair hpair hnumeric
        omega
  · intro hlong
    rcases extract_cases hcaptures with ⟨hreadable, -⟩ | hfault
    · exact absurd hreadable hlong
    · exact hfault

/-- The title holds what separates it from the track, and the artist takes a digit from the track's
right; the name `A-B-077 up` still matches, with the track that it was made of. -/
theorem render_fits_adjacent :
    let sheet := Sheet.ofEntries
      [(.title, .text "A-B"), (.track, .number 7), (.artist, .text "7\nup")]
    ∃ spec captures values, Spec.read "%T-%n%-R" = .ok spec ∧
      spec.render (some .shell) sheet.lookUp = .ok "A-B-077-up" ∧
      spec.captures? "A-B-077-up" = some captures ∧
      captures = [['A', '-', 'B'], ['0', '7', '7'], ['-', 'u', 'p']] ∧
      spec.extract "A-B-077-up" = .ok (some values) := by
  intro sheet
  let spec : Spec := ⟨"%T-%n%-R", [.placeholder ⟨.title, none, .preserve⟩, .literal ['-'],
    .placeholder ⟨.track, none, .downcase⟩, .placeholder ⟨.artist, some '-', .preserve⟩]⟩
  have hspec : Spec.read "%T-%n%-R" = .ok spec := by decide +kernel
  have hbreak : ∀ p ∈ spec.placeholders, p.substitute ≠ some '\n' := by decide +kernel
  have hfill : Fillable spec sheet := by decide +kernel
  have hname : spec.render (some .shell) sheet.lookUp = .ok "A-B-077-up" := by decide +kernel
  have hfound : spec.captures? "A-B-077-up" =
      some [['A', '-', 'B'], ['0', '7', '7'], ['-', 'u', 'p']] := by decide +kernel
  obtain ⟨name, captures, hrender, hcaptures, hread, -, hshort⟩ :=
    render_fits hspec hbreak (some .shell) hfill fun hnone => by cases hnone
  rw [hname] at hrender
  cases hrender
  rw [hfound] at hcaptures
  cases hcaptures
  obtain ⟨values, hvalues⟩ := hread.mpr (hshort (by decide +kernel))
  exact ⟨spec, _, values, hspec, hname, hfound, rfl, hvalues⟩

theorem capturesOf_digits {p q : Placeholder} (hp : p.field.isNumeric = true)
    (hq : q.field.isNumeric = false) {s : List Char} (hne : s ≠ [])
    (hdigits : ∀ c ∈ s, isDecimalDigit c = true) {x : Char} (hx : x ≠ '\n') :
    capturesOf [.placeholder p, .placeholder q] (s ++ [x]) = some [s, [x]] := by
  have hlast : capturesOf [.placeholder q] [x] = some [[x]] := by
    simp [capturesOf, longest, admits, hq, hx]
  have hnil : capturesOf [.placeholder q] [] = none := rfl
  have hlongest : ∀ s : List Char, (∀ c ∈ s, isDecimalDigit c = true) →
      longest (admits p.field) (capturesOf [.placeholder q]) (s ++ [x]) =
        if s = [] then none else some (s, [[x]]) := by
    intro s hs
    induction s with
    | nil => simp [longest, hnil]
    | cons c rest ih =>
        have hc : admits p.field c = true := by simp [admits, hp, hs c List.mem_cons_self]
        have hrest := ih fun d hd => hs d (List.mem_cons_of_mem c hd)
        rw [List.cons_append, longest, if_pos hc, hrest]
        by_cases h : rest = []
        · simp [h, hlast]
        · simp [h]
  rw [capturesOf, hlongest s hdigits, if_neg hne]
  rfl

/-- An integer field takes all digits of the text behind it but the last one. So a name made of a
track and a title of digits is not read back if there are more than a numeral may have, although the
track alone has few. -/
theorem extract_digits (source : String) {p q : Placeholder} (hp : p.field.isNumeric = true)
    (hq : q.field.isNumeric = false) {s : List Char}
    (hdigits : ∀ c ∈ s, isDecimalDigit c = true) (hlong : Numeral.digitLimit < s.length) {x : Char}
    (hx : x ≠ '\n') :
    extract ⟨source, [.placeholder p, .placeholder q]⟩ (String.ofList (s ++ [x])) =
      .error (.tooManyDigits s.length) := by
  have hne : s ≠ [] := by
    rintro rfl
    simp at hlong
  have hcaptures : captures? ⟨source, [.placeholder p, .placeholder q]⟩
      (String.ofList (s ++ [x])) = some [s, [x]] := by
    rw [captures?, String.toList_ofList]
    exact capturesOf_digits hp hq hne hdigits hx
  rcases extract_cases hcaptures with ⟨hreadable, -⟩ | ⟨pair, hpair, hnumeric, -, hfault⟩
  · have hlength := hreadable (p, s) (by simp [placeholders, Token.placeholder?]) hp
    exact absurd hlength (Nat.not_le.mpr hlong)
  · simp only [placeholders, Token.placeholder?, List.filterMap_cons, List.filterMap_nil,
      List.zip_cons_cons, List.zip_nil_left, List.mem_cons, List.not_mem_nil, or_false] at hpair
    rcases hpair with rfl | rfl
    · exact hfault
    · exact absurd (hnumeric.symm.trans hq) (by decide)

end LinerNotes.Spec
