import LinerNotes.Proofs.Entries
import LinerNotes.Proofs.Filling
import LinerNotes.Proofs.WrittenForm

/-!
Names that are written and then read by the same spec. Characters that stand in no replacement mark
the borders: a spec whose consecutive placeholders are separated by such a mark can be split in one
way only, so the values come back.
-/

namespace LinerNotes.Spec

open LinerNotes.Text

/-- Whether any two consecutive placeholders have a literal between them that holds a mark. -/
def Separated (mark : Char → Prop) (tokens : List Token) : Prop :=
  ∀ before p between q after,
    tokens = before ++ .placeholder p :: (between ++ .placeholder q :: after) →
    placeholdersOf between = [] →
    ∃ text, .literal text ∈ between ∧ ∃ c ∈ text, mark c

theorem Separated.tail {mark : Char → Prop} {token : Token} {tokens : List Token}
    (h : Separated mark (token :: tokens)) : Separated mark tokens := by
  intro before p between q after htokens
  exact h (token :: before) p between q after (by rw [htokens, List.cons_append])

theorem Separated.mono {mark mark' : Char → Prop} {tokens : List Token}
    (h : Separated mark tokens) (hmark : ∀ c, mark c → mark' c) : Separated mark' tokens := by
  intro before p between q after htokens hbetween
  obtain ⟨text, htext, c, hc, hc'⟩ := h before p between q after htokens hbetween
  exact ⟨text, htext, c, hc, hmark c hc'⟩

theorem Separated.last {mark : Char → Prop} (p : Placeholder) {tokens : List Token}
    (h : placeholdersOf tokens = []) : Separated mark (.placeholder p :: tokens) := by
  intro before q between r after htokens _
  have hcount := congrArg (fun l => (placeholdersOf l).length) htokens
  simp [placeholdersOf_append, h] at hcount
  omega

theorem Separated.step {mark : Char → Prop} (p : Placeholder) {q : Placeholder} {text : List Char}
    {tokens : List Token} (hmark : ∃ c ∈ text, mark c)
    (h : Separated mark (.placeholder q :: tokens)) :
    Separated mark (.placeholder p :: .literal text :: .placeholder q :: tokens) := by
  intro before r between r' after htokens hbetween
  rcases before with _ | ⟨_, _ | ⟨_, before⟩⟩
  · rcases between with _ | ⟨_, between⟩
    · simp at htokens
    · simp only [List.nil_append, List.cons_append, List.cons.injEq] at htokens
      exact ⟨text, by simp [htokens.2.1], hmark⟩
  · simp at htokens
  · simp only [List.cons_append, List.cons.injEq] at htokens
    exact h before r between r' after htokens.2.2 hbetween

theorem spell_append {between : List Token} (h : placeholdersOf between = []) (tokens : List Token)
    (runs : List (List Char)) :
    spell (between ++ tokens) runs = spell between [] ++ spell tokens runs := by
  induction between with
  | nil => rfl
  | cons token between ih =>
      cases token with
      | literal text => simp [spell, ih h]
      | placeholder p => simp at h

theorem mem_spell {tokens : List Token} {text : List Char} {c : Char}
    (htext : .literal text ∈ tokens) (hc : c ∈ text) : c ∈ spell tokens [] := by
  induction tokens with
  | nil => simp at htext
  | cons token tokens ih =>
      rcases List.mem_cons.mp htext with rfl | hrest
      · simp [spell, hc]
      · cases token with
        | literal other => simp [spell, ih hrest]
        | placeholder p => simpa [spell] using ih hrest

theorem exists_next_placeholder {tokens : List Token} (h : placeholdersOf tokens ≠ []) :
    ∃ between q after, tokens = between ++ .placeholder q :: after ∧
      placeholdersOf between = [] := by
  induction tokens with
  | nil => simp at h
  | cons token tokens ih =>
      cases token with
      | literal text =>
          obtain ⟨between, q, after, rfl, hbetween⟩ := ih h
          exact ⟨.literal text :: between, q, after, rfl, hbetween⟩
      | placeholder p => exact ⟨[], p, tokens, rfl, rfl⟩

theorem countP_spell (f : Char → Bool) {tokens : List Token} {runs : List (List Char)}
    (h : runs.length = (placeholdersOf tokens).length) :
    (spell tokens runs).countP f = (spell tokens []).countP f + runs.flatten.countP f := by
  induction tokens generalizing runs with
  | nil =>
      rw [placeholdersOf_nil, List.length_nil, List.length_eq_zero_iff] at h
      simp [h, spell]
  | cons token tokens ih =>
      cases token with
      | literal text =>
          simp only [spell, List.countP_append, ih h]
          omega
      | placeholder p =>
          cases runs with
          | nil => simp at h
          | cons run runs =>
              rw [placeholdersOf_placeholder, List.length_cons, List.length_cons] at h
              simp only [spell, List.countP_append, List.flatten_cons, ih (Nat.succ.inj h)]
              omega

theorem eq_of_append_marked {f : Char → Bool} {run other text rest rest' : List Char}
    (hrun : ∀ c ∈ run, f c = true) (hother : ∀ c ∈ other, f c = true)
    (hmark : ∃ c ∈ text, f c = false)
    (h : run ++ (text ++ rest) = other ++ (text ++ rest')) : run = other ∧ rest = rest' := by
  have htake : ∀ more, (text ++ more).takeWhile f = text.takeWhile f := by
    intro more
    rw [List.takeWhile_append]
    split
    · rename_i hall
      obtain ⟨c, hc, hfalse⟩ := hmark
      have hself : text.takeWhile f = text :=
        (List.takeWhile_sublist f).eq_of_length hall
      have := List.takeWhile_eq_self_iff.mp hself c hc
      simp [hfalse] at this
    · rfl
  have hfront := congrArg (List.takeWhile f) h
  rw [List.takeWhile_append_of_pos hrun, List.takeWhile_append_of_pos hother, htake, htake]
    at hfront
  have heq : run = other := List.append_cancel_right hfront
  subst heq
  exact ⟨rfl, List.append_cancel_left (List.append_cancel_left h)⟩

theorem eq_of_spell_eq {f : Char → Bool} {tokens : List Token} {runs others : List (List Char)}
    (hseparated : Separated (fun c => f c = false) tokens)
    (hruns : runs.length = (placeholdersOf tokens).length)
    (hothers : others.length = (placeholdersOf tokens).length)
    (hplain : ∀ run ∈ runs, ∀ c ∈ run, f c = true)
    (hplain' : ∀ run ∈ others, ∀ c ∈ run, f c = true)
    (h : spell tokens runs = spell tokens others) : runs = others := by
  induction tokens generalizing runs others with
  | nil =>
      rw [placeholdersOf_nil, List.length_nil, List.length_eq_zero_iff] at hruns hothers
      rw [hruns, hothers]
  | cons token tokens ih =>
      cases token with
      | literal text =>
          exact ih hseparated.tail hruns hothers hplain hplain' (List.append_cancel_left h)
      | placeholder p =>
          cases runs with
          | nil => simp at hruns
          | cons run runs =>
              cases others with
              | nil => simp at hothers
              | cons other others =>
                  simp only [placeholdersOf_placeholder, List.length_cons, Nat.add_right_cancel_iff]
                    at hruns hothers
                  have hrest : ∀ r ∈ runs, ∀ c ∈ r, f c = true :=
                    fun r hr => hplain r (List.mem_cons_of_mem run hr)
                  have hrest' : ∀ r ∈ others, ∀ c ∈ r, f c = true :=
                    fun r hr => hplain' r (List.mem_cons_of_mem other hr)
                  by_cases hlast : placeholdersOf tokens = []
                  · rw [hlast, List.length_nil, List.length_eq_zero_iff] at hruns hothers
                    subst hruns hothers
                    rw [List.append_cancel_right h]
                  · obtain ⟨between, q, after, htokens, hbetween⟩ := exists_next_placeholder hlast
                    obtain ⟨text, htext, c, hc, hmark⟩ :=
                      hseparated [] p between q after (by rw [htokens]; rfl) hbetween
                    simp only [spell, htokens, spell_append hbetween] at h
                    obtain ⟨hrun, hafter⟩ := eq_of_append_marked (hplain run (by simp))
                      (hplain' other (by simp)) ⟨c, mem_spell htext hc, hmark⟩ h
                    have hspell : spell tokens runs = spell tokens others := by
                      rw [htokens, spell_append hbetween, spell_append hbetween, hafter]
                    rw [hrun, ih hseparated.tail hruns hothers hrest hrest' hspell]

/-- Fitting runs are found again in the name that they spell, if a character that stands in none of
them separates any two. -/
theorem captures?_of_spell {spec : Spec} {runs : List (List Char)}
    (hfits : List.Forall₂ Fits spec.placeholders runs)
    (hseparated : Separated (fun c => ∀ run ∈ runs, c ∉ run) spec.tokens) :
    spec.captures? (String.ofList (spell spec.tokens runs)) = some runs := by
  rw [captures?, String.toList_ofList]
  obtain ⟨others, hothers⟩ := Option.isSome_iff_exists.mp (capturesOf_isSome hfits)
  obtain ⟨hfits', hspell⟩ := capturesOf_sound hothers
  have hlength : runs.length = (placeholdersOf spec.tokens).length := hfits.length_eq.symm
  have hlength' : others.length = (placeholdersOf spec.tokens).length := hfits'.length_eq.symm
  let common : Char → Bool := fun c => runs.flatten.contains c
  have hcommon : ∀ run ∈ runs, ∀ c ∈ run, common c = true := by
    intro run hrun c hc
    exact List.contains_iff_mem.mpr (List.mem_flatten.mpr ⟨run, hrun, hc⟩)
  -- the name has as many other characters as its literals, so the captures have none
  have hcount : others.flatten.countP (fun c => !common c) = 0 := by
    have hnone : runs.flatten.countP (fun c => !common c) = 0 := by
      rw [List.countP_eq_zero]
      intro c hc
      simpa [common] using hc
    have hsame := congrArg (List.countP fun c => !common c) hspell
    rw [countP_spell _ hlength, countP_spell _ hlength'] at hsame
    omega
  have hcommon' : ∀ run ∈ others, ∀ c ∈ run, common c = true := by
    intro run hrun c hc
    have := List.countP_eq_zero.mp hcount c (List.mem_flatten.mpr ⟨run, hrun, hc⟩)
    simpa using this
  have hmarks : Separated (fun c => common c = false) spec.tokens := by
    apply hseparated.mono
    intro c hmark
    simpa [common] using hmark
  rw [hothers, eq_of_spell_eq hmarks hlength hlength' hcommon hcommon' hspell.symm]

/-- Whether a value can stand for a field in a name and be read again: a positive integer that is
short enough for an integer field, and text or nothing for a text field. -/
def Fills (field : Field) : Value → Prop
  | .number n => field.isNumeric = true ∧ 0 < n ∧
      (Numeral.digitChars n).length ≤ Numeral.digitLimit
  | _ => field.isNumeric = false

instance (field : Field) (value : Value) : Decidable (Fills field value) :=
  match value with
  | .number _ => inferInstanceAs (Decidable (_ ∧ _))
  | .absent => inferInstanceAs (Decidable (_ = _))
  | .text _ => inferInstanceAs (Decidable (_ = _))

/-- Whether a sheet has such a value for every placeholder of a spec. -/
def Fillable (spec : Spec) (sheet : Sheet) : Prop :=
  ∀ p ∈ spec.placeholders, Fills p.field (sheet p.field)

instance (spec : Spec) (sheet : Sheet) : Decidable (Fillable spec sheet) :=
  inferInstanceAs (Decidable (∀ p ∈ spec.placeholders, _))

theorem Fills.holds {field : Field} {value : Value} (h : Fills field value) :
    field.Holds value := by
  cases value with
  | absent => exact h
  | text s => exact h
  | number n => exact h.1

/-- The last placeholder of a field in a spec. -/
def lastPlaceholder? (spec : Spec) (field : Field) : Option Placeholder :=
  (spec.placeholders.filter fun p => p.field == field).getLast?

/-- The value that a placeholder gives its field when a name written from a sheet is read. -/
def valueBack (hazard : Option Hazard) (sheet : Sheet) (p : Placeholder) : Value :=
  if p.field.isNumeric then sheet p.field
  else .text (String.ofList (replacement hazard sheet p))

section

variable {spec : Spec} {sheet : Sheet} {p : Placeholder}

theorem mem_of_lastPlaceholder {field : Field} (h : spec.lastPlaceholder? field = some p) :
    p ∈ spec.placeholders ∧ p.field = field := by
  simpa using List.mem_filter.mp (List.mem_of_getLast? h)

theorem exists_lastPlaceholder {field : Field} (h : ∃ p ∈ spec.placeholders, p.field = field) :
    ∃ p, spec.lastPlaceholder? field = some p := by
  obtain ⟨p, hp, rfl⟩ := h
  have hne : (spec.placeholders.filter fun q => q.field == p.field) ≠ [] := by
    rw [← List.length_pos_iff, List.length_filter_pos_iff]
    exact ⟨p, hp, by simp⟩
  exact ⟨_, List.getLast?_eq_some_getLast hne⟩

theorem Fillable.number (h : Fillable spec sheet) (hp : p ∈ spec.placeholders)
    (hnumeric : p.field.isNumeric = true) :
    ∃ n, sheet p.field = .number n ∧ 0 < n ∧
      (Numeral.digitChars n).length ≤ Numeral.digitLimit := by
  have hfills := h p hp
  cases hvalue : sheet p.field with
  | number n =>
      rw [hvalue] at hfills
      exact ⟨n, rfl, hfills.2⟩
  | absent => simp [hvalue, Fills, hnumeric] at hfills
  | text s => simp [hvalue, Fills, hnumeric] at hfills

theorem replacement_of_number {hazard : Option Hazard} {n : Int}
    (hsubstitute : ∀ x ∈ p.substitute, isSubstitute x = true) (hvalue : sheet p.field = .number n)
    (hpositive : 0 < n) :
    replacement hazard sheet p = Numeral.paddedChars p.field.width n := by
  have htext : p.field.nameText (sheet p.field) =
      String.ofList (Numeral.paddedChars p.field.width n) := by
    rw [hvalue, Field.nameText_number hpositive.ne']
  have hdigits : ∀ c ∈ (p.field.nameText (sheet p.field)).toList, c.isDigit = true := by
    intro c hc
    rw [htext, String.toList_ofList] at hc
    exact Numeral.isDigit_of_mem_paddedChars (by omega) hc
  have hne : (p.field.nameText (sheet p.field)).toList ≠ [] := by
    rw [htext, String.toList_ofList]
    exact Numeral.paddedChars_ne_nil _ _
  rw [replacement, filled_of_digits hsubstitute hne hdigits, htext, String.toList_ofList]

theorem fits_replacement {hazard : Option Hazard} (hfill : Fillable spec sheet)
    (hp : p ∈ spec.placeholders) (hsubstitute : ∀ x ∈ p.substitute, isSubstitute x = true)
    (hbreak : '\n' ∉ replacement hazard sheet p) : Fits p (replacement hazard sheet p) := by
  refine ⟨replacement_ne_nil hazard sheet p, ?_⟩
  split
  · rename_i hnumeric
    obtain ⟨n, hvalue, hpositive, -⟩ := hfill.number hp hnumeric
    rw [replacement_of_number hsubstitute hvalue hpositive]
    intro c hc
    exact isDecimalDigit_of_isDigit (Numeral.isDigit_of_mem_paddedChars (by omega) hc)
  · exact hbreak

theorem captured_replacement {hazard : Option Hazard} (hfill : Fillable spec sheet)
    (hp : p ∈ spec.placeholders) (hsubstitute : ∀ x ∈ p.substitute, isSubstitute x = true) :
    captured p.field (replacement hazard sheet p) = .ok (valueBack hazard sheet p) := by
  unfold captured valueBack
  split
  · rename_i hnumeric
    obtain ⟨n, hvalue, hpositive, hlength⟩ := hfill.number hp hnumeric
    have hback := Field.captured_paddedChars hnumeric hlength
    rw [replacement_of_number hsubstitute hvalue hpositive, hvalue, ← hback, captured,
      if_pos hnumeric]
  · rfl

theorem valueBack_of_unchanged {hazard : Option Hazard} (hfill : Fillable spec sheet)
    (hp : p ∈ spec.placeholders)
    (hunchanged : replacement hazard sheet p = (p.field.nameText (sheet p.field)).toList) :
    valueBack hazard sheet p = sheet p.field := by
  unfold valueBack
  split
  · rfl
  · rename_i hnumeric
    have hne := replacement_ne_nil hazard sheet p
    rw [hunchanged] at hne ⊢
    have hholds := (hfill p hp).holds
    cases hvalue : sheet p.field with
    | number n => simp_all [Field.Holds]
    | absent => simp [hvalue, Field.nameText, Value.isEmpty] at hne
    | text s =>
        by_cases hs : s = ""
        · simp [hvalue, hs, Field.nameText, Value.isEmpty] at hne
        · simp [hs, Field.nameText, Value.isEmpty]

theorem valuesOf_replacements {hazard : Option Hazard} (hfill : Fillable spec sheet)
    (hsubstitute : ∀ p ∈ spec.placeholders, ∀ x ∈ p.substitute, isSubstitute x = true) :
    spec.valuesOf (spec.placeholders.map (replacement hazard sheet)) =
      .ok (Keyed.ofList (fun entry other => entry.1 == other.1)
        (spec.placeholders.map fun p => (p.field, valueBack hazard sheet p))) := by
  have hpairs : spec.placeholders.zip (spec.placeholders.map (replacement hazard sheet)) =
      spec.placeholders.map fun p => (p, replacement hazard sheet p) := by
    simpa using List.zip_map' (f := id) (g := replacement hazard sheet) (l := spec.placeholders)
  have hentries : ∀ pair ∈ spec.placeholders.map fun p => (p, replacement hazard sheet p),
      (captured pair.1.field pair.2).map (fun value => (pair.1.field, value)) =
        .ok (pair.1.field, valueBack hazard sheet pair.1) := by
    intro pair hpair
    obtain ⟨p, hp, rfl⟩ := List.mem_map.mp hpair
    rw [captured_replacement hfill hp (hsubstitute p hp)]
    rfl
  rw [valuesOf, hpairs, mapM_eq_ok hentries, List.map_map]
  rfl

theorem render_of_fillable (hazard : Option Hazard) (hfill : Fillable spec sheet) :
    spec.render hazard sheet.lookUp = .ok (String.ofList (spell spec.tokens
      (spec.placeholders.map (replacement hazard sheet)))) := by
  apply render_of_holds hazard (fun _ _ => rfl)
  · exact fun p hp => (hfill p hp).holds
  · intro p hp n hn
    have hfills := hfill p hp
    rw [hn] at hfills
    exact hfills.2.2

theorem fits_replacements {hazard : Option Hazard} (hfill : Fillable spec sheet)
    (hsubstitute : ∀ p ∈ spec.placeholders, ∀ x ∈ p.substitute, isSubstitute x = true)
    (hbreak : ∀ p ∈ spec.placeholders, '\n' ∉ replacement hazard sheet p) :
    List.Forall₂ Fits spec.placeholders (spec.placeholders.map (replacement hazard sheet)) := by
  rw [List.forall₂_map_right_iff, List.forall₂_same]
  exact fun p hp => fits_replacement hfill hp (hsubstitute p hp) (hbreak p hp)

theorem extract_replacements {hazard : Option Hazard} (hfill : Fillable spec sheet)
    (hsubstitute : ∀ p ∈ spec.placeholders, ∀ x ∈ p.substitute, isSubstitute x = true)
    (hbreak : ∀ p ∈ spec.placeholders, '\n' ∉ replacement hazard sheet p)
    (hseparated :
      Separated (fun c => ∀ p ∈ spec.placeholders, c ∉ replacement hazard sheet p) spec.tokens) :
    spec.extract (String.ofList (spell spec.tokens
        (spec.placeholders.map (replacement hazard sheet)))) =
      .ok (some (Keyed.ofList (fun entry other => entry.1 == other.1)
        (spec.placeholders.map fun p => (p.field, valueBack hazard sheet p)))) := by
  have hmarks : Separated
      (fun c => ∀ run ∈ spec.placeholders.map (replacement hazard sheet), c ∉ run) spec.tokens := by
    refine hseparated.mono fun c hc run hrun => ?_
    obtain ⟨p, hp, rfl⟩ := List.mem_map.mp hrun
    exact hc p hp
  rw [extract, captures?_of_spell (fits_replacements hfill hsubstitute hbreak) hmarks]
  exact congrArg (some <$> ·) (valuesOf_replacements hfill hsubstitute)

end

/-- A name written from a sheet gives the values back: every field of the spec gets what its last
placeholder became, an integer field its integer, and no other field gets anything. If no text is
changed on the way, these are the values of the sheet. -/
theorem extract_render {source : String} {spec : Spec} (hspec : Spec.read source = .ok spec)
    {sheet : Sheet} (hazard : Option Hazard) (hfill : Fillable spec sheet)
    (hbreak : ∀ p ∈ spec.placeholders, '\n' ∉ replacement hazard sheet p)
    (hseparated :
      Separated (fun c => ∀ p ∈ spec.placeholders, c ∉ replacement hazard sheet p) spec.tokens) :
    ∃ name values, spec.render hazard sheet.lookUp = .ok name ∧
      spec.extract name = .ok (some values) ∧
      (values.map Prod.fst).Nodup ∧
      (∀ field, values.lookup field =
        (spec.lastPlaceholder? field).map (valueBack hazard sheet)) ∧
      ((∀ p ∈ spec.placeholders,
          replacement hazard sheet p = (p.field.nameText (sheet p.field)).toList) →
        ∀ field, values.lookup field =
          if ∃ p ∈ spec.placeholders, p.field = field then some (sheet field) else none) := by
  have hsubstitute := isSubstitute_of_read hspec
  let values := Keyed.ofList (fun entry other : Field × Value => entry.1 == other.1)
    (spec.placeholders.map fun p => (p.field, valueBack hazard sheet p))
  have hrender := render_of_fillable hazard hfill
  have hextract := extract_replacements hfill hsubstitute hbreak hseparated
  have hlookup : ∀ field, values.lookup field =
      (spec.lastPlaceholder? field).map (valueBack hazard sheet) := by
    intro field
    rw [lookup_ofList, lastFor_map]
    rfl
  refine ⟨_, values, hrender, hextract, nodup_keys_ofList _, hlookup, ?_⟩
  intro hunchanged field
  rw [hlookup]
  split
  · rename_i hused
    obtain ⟨p, hlast⟩ := exists_lastPlaceholder hused
    obtain ⟨hp, rfl⟩ := mem_of_lastPlaceholder hlast
    rw [hlast, Option.map_some, valueBack_of_unchanged hfill hp (hunchanged p hp)]
  · rename_i hunused
    cases hlast : spec.lastPlaceholder? field with
    | none => rfl
    | some p => exact absurd ⟨p, mem_of_lastPlaceholder hlast⟩ hunused

theorem extract_render_fire :
    ∃ spec name values,
      Spec.read "%n - %R - %_t.%n" = .ok spec ∧
      spec.render (some .shell) (Sheet.lookUp (Sheet.ofEntries
        [(.track, .number 7), (.artist, .text "AC/DC"), (.title, .text "It's a Fire")])) =
          .ok name ∧
      spec.extract name = .ok (some values) ∧
      values.lookup .track = some (.number 7) ∧
      values.lookup .artist = some (.text "ACDC") ∧
      values.lookup .title = some (.text "its_a_fire") ∧
      values.lookup .album = none := by
  let track : Placeholder := ⟨.track, none, .downcase⟩
  let artist : Placeholder := ⟨.artist, none, .preserve⟩
  let title : Placeholder := ⟨.title, some '_', .downcase⟩
  let spec : Spec := ⟨"%n - %R - %_t.%n", [.placeholder track, .literal [' ', '-', ' '],
    .placeholder artist, .literal [' ', '-', ' '], .placeholder title, .literal ['.'],
    .placeholder track]⟩
  let sheet := Sheet.ofEntries
    [(.track, .number 7), (.artist, .text "AC/DC"), (.title, .text "It's a Fire")]
  have hspec : Spec.read "%n - %R - %_t.%n" = .ok spec := by decide +kernel
  have hfill : Fillable spec sheet := by decide +kernel
  have hbreak : ∀ p ∈ spec.placeholders, '\n' ∉ replacement (some .shell) sheet p := by
    decide +kernel
  have hseparated : Separated
      (fun c => ∀ p ∈ spec.placeholders, c ∉ replacement (some .shell) sheet p) spec.tokens := by
    have hspace : ∀ p ∈ spec.placeholders, ' ' ∉ replacement (some .shell) sheet p := by
      decide +kernel
    have hdot : ∀ p ∈ spec.placeholders, '.' ∉ replacement (some .shell) sheet p := by
      decide +kernel
    have hblank : ∃ c ∈ [' ', '-', ' '], ∀ p ∈ spec.placeholders,
        c ∉ replacement (some .shell) sheet p := ⟨' ', by simp, hspace⟩
    have hpoint : ∃ c ∈ ['.'], ∀ p ∈ spec.placeholders,
        c ∉ replacement (some .shell) sheet p := ⟨'.', by simp, hdot⟩
    exact .step track hblank (.step artist hblank (.step title hpoint (.last track rfl)))
  obtain ⟨name, values, hrender, hextract, -, hlookup, -⟩ :=
    extract_render hspec (some .shell) hfill hbreak hseparated
  refine ⟨spec, name, values, hspec, hrender, hextract, ?_, ?_, ?_, ?_⟩
  all_goals
    rw [hlookup]
    decide +kernel

end LinerNotes.Spec
