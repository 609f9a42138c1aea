import Mathlib.Data.List.Lex
import LinerNotes.Proofs.Entries
import LinerNotes.Proofs.Naming

/-!
Which way of splitting a name counts. Often a name is spelled in several ways, since a run of text
may end early or late. Matching takes the split whose runs are longest, the run of the first
placeholder before that of the second and so on, and the fields get the values of that split.
-/

namespace LinerNotes.Spec

open LinerNotes.Text

/-- The runs are a way to write a name as the tokens of a spec: one for each placeholder, and each
of them may stand there. -/
structure Splits (spec : Spec) (name : String) (runs : List (List Char)) : Prop where
  fits : List.Forall₂ Fits spec.placeholders runs
  spells : spell spec.tokens runs = name.toList

/-- How long the runs of a split are. Such rows are compared by their first difference. -/
def lengths (runs : List (List Char)) : List Nat :=
  runs.map List.length

/-- What a run tells about a field. -/
def meaning (field : Field) (run : List Char) : Value :=
  if field.isNumeric then .number (decimalValue run) else .text (String.ofList run)

theorem fits_of_all {p : Placeholder} {c : Char} {run : List Char}
    (h : (c :: run).all (admits p.field) = true) : Fits p (c :: run) :=
  fits_iff_admits.mpr ⟨List.cons_ne_nil c run, List.all_eq_true.mp h⟩

theorem length_le_of_longest {α : Type} {admitted : Char → Bool} {goOn : List Char → Option α}
    {other rest run : List Char} {result : α} (hall : ∀ c ∈ other, admitted c = true)
    (hrest : (goOn rest).isSome = true)
    (h : longest admitted goOn (other ++ rest) = some (run, result)) :
    other.length ≤ run.length := by
  induction other generalizing run with
  | nil => exact Nat.zero_le _
  | cons c tail ih =>
      have hc : admitted c = true := hall c List.mem_cons_self
      have htail : ∀ d ∈ tail, admitted d = true := fun d hd => hall d (List.mem_cons_of_mem c hd)
      rw [List.cons_append, longest, if_pos hc] at h
      cases hinner : longest admitted goOn (tail ++ rest) with
      | some found =>
          rw [hinner] at h
          cases h
          exact Nat.succ_le_succ (ih htail hinner)
      | none =>
          have hend : tail = [] := by
            by_contra hmore
            have hfound := longest_isSome hmore htail hrest
            rw [hinner] at hfound
            cases hfound
          rw [hinner] at h
          obtain ⟨found, -, heq⟩ := Option.map_eq_some_iff.mp h
          cases heq
          simp [hend]

/-- Any other split differs from the captures first at a run that is shorter. -/
theorem lengths_lt_of_capturesOf {tokens : List Token} {s : List Char} {captures : List (List Char)}
    (h : capturesOf tokens s = some captures) {runs : List (List Char)}
    (hfits : List.Forall₂ Fits (placeholdersOf tokens) runs) (hspell : spell tokens runs = s) :
    runs = captures ∨ lengths runs < lengths captures := by
  induction tokens generalizing s captures runs with
  | nil =>
      left
      obtain ⟨hcaptures, -⟩ := capturesOf_sound h
      rw [placeholdersOf_nil, List.forall₂_nil_left_iff] at hfits hcaptures
      rw [hfits, hcaptures]
  | cons token tokens ih =>
      cases token with
      | literal text =>
          obtain ⟨rest, hafter, hcaptures⟩ := Option.bind_eq_some_iff.mp h
          have hrest : text ++ spell tokens runs = text ++ rest :=
            hspell.trans (after?_eq_some_iff.mp hafter)
          exact ih hcaptures hfits (List.append_cancel_left hrest)
      | placeholder p =>
          rw [placeholdersOf_placeholder] at hfits
          obtain ⟨run, others, hrun, hothers, rfl⟩ := List.forall₂_cons_left_iff.mp hfits
          obtain ⟨⟨capture, later⟩, hlongest, rfl⟩ := Option.map_eq_some_iff.mp h
          obtain ⟨-, hall⟩ := fits_iff_admits.mp hrun
          obtain ⟨-, -, rest, hs, hlater⟩ := longest_sound hlongest
          have hlength : run.length ≤ capture.length :=
            length_le_of_longest hall (capturesOf_isSome hothers) (hspell ▸ hlongest)
          rcases Nat.lt_or_eq_of_le hlength with hshorter | hequal
          · exact .inr (List.cons_lt_cons_iff.mpr (.inl hshorter))
          · obtain ⟨rfl, hrest⟩ := List.append_inj (hspell.trans hs) hequal
            rcases ih hlater hothers hrest with rfl | hlt
            · exact .inl rfl
            · exact .inr (List.cons_lt_cons_iff.mpr (.inr ⟨rfl, hlt⟩))

section

variable {spec : Spec} {name : String} {captures : List (List Char)}

theorem splits_of_captures? (h : spec.captures? name = some captures) : spec.Splits name captures :=
  have hsound := capturesOf_sound h
  ⟨hsound.1, hsound.2⟩

theorem lengths_lt_of_splits (h : spec.captures? name = some captures) {runs : List (List Char)}
    (hruns : spec.Splits name runs) (hne : runs ≠ captures) : lengths runs < lengths captures :=
  (lengths_lt_of_capturesOf h hruns.fits hruns.spells).resolve_left hne

theorem captures?_eq_some_iff : spec.captures? name = some captures ↔
    spec.Splits name captures ∧
      ∀ runs, spec.Splits name runs → runs ≠ captures → lengths runs < lengths captures := by
  constructor
  · intro h
    exact ⟨splits_of_captures? h, fun runs hruns hne => lengths_lt_of_splits h hruns hne⟩
  · rintro ⟨hsplits, hgreatest⟩
    have hfound : (spec.captures? name).isSome = true := by
      rw [captures?, ← hsplits.spells]
      exact capturesOf_isSome hsplits.fits
    obtain ⟨found, h⟩ := Option.isSome_iff_exists.mp hfound
    by_contra hother
    have hne : captures ≠ found := fun heq => hother (heq ▸ h)
    have hless : lengths captures < lengths found := lengths_lt_of_splits h hsplits hne
    exact List.lt_asymm hless (hgreatest found (splits_of_captures? h) hne.symm)

theorem captured_of_fits {p : Placeholder} {run : List Char} (hfits : Fits p run)
    (hlength : p.field.isNumeric = true → run.length ≤ Numeral.digitLimit) :
    captured p.field run = .ok (meaning p.field run) := by
  unfold captured meaning
  cases hnumeric : p.field.isNumeric with
  | true =>
      have hread := hfits.read hnumeric
      rw [if_neg (Nat.not_lt.mpr (hlength hnumeric))] at hread
      rw [if_pos rfl, hread]
      rfl
  | false => rfl

theorem extract_of_readable (h : spec.captures? name = some captures)
    (hreadable : spec.Readable captures) :
    spec.extract name = .ok (some (Keyed.ofList (fun entry other => entry.1 == other.1)
      ((spec.placeholders.zip captures).map fun pair =>
        (pair.1.field, meaning pair.1.field pair.2)))) := by
  have hentries : ∀ pair ∈ spec.placeholders.zip captures,
      ((captured pair.1.field pair.2).map fun value => (pair.1.field, value)) =
        .ok (pair.1.field, meaning pair.1.field pair.2) := by
    intro pair hpair
    have hfits : Fits pair.1 pair.2 := List.forall₂_zip (splits_of_captures? h).fits hpair
    rw [captured_of_fits hfits (hreadable pair hpair)]
    rfl
  simp only [extract, h, valuesOf, mapM_eq_ok hentries]
  rfl

/-- The captures of a name are the split with the longest runs, compared from the first placeholder
on; there are none if the name is not spelled at all. Reading them fails exactly when an integer
field has got more digits than a numeral may have. Otherwise every field of the spec has the value
of its last run, and no other field has one. -/
theorem extract_takes_longest_split (spec : Spec) (name : String) (captures : List (List Char)) :
    (spec.captures? name = some captures ↔ spec.Splits name captures ∧
      ∀ runs, spec.Splits name runs → runs ≠ captures → lengths runs < lengths captures) ∧
    (spec.captures? name = some captures →
      ((∃ cause, spec.extract name = .error cause) ↔
        ∃ pair ∈ spec.placeholders.zip captures, pair.1.field.isNumeric = true ∧
          Numeral.digitLimit < pair.2.length) ∧
      ∀ outcome, spec.extract name = .ok outcome →
        ∃ values, outcome = some values ∧ (values.map Prod.fst).Nodup ∧
          ∀ field, values.lookup field =
            lastFor ((spec.placeholders.zip captures).map fun pair =>
              (pair.1.field, meaning pair.1.field pair.2)) field) := by
  refine ⟨captures?_eq_some_iff, fun h => ?_⟩
  rcases extract_cases h with ⟨hreadable, -⟩ | ⟨pair, hpair, hnumeric, hlong, herror⟩
  · have hvalues := extract_of_readable h hreadable
    refine ⟨⟨?_, ?_⟩, ?_⟩
    · rintro ⟨cause, hcause⟩
      rw [hvalues] at hcause
      cases hcause
    · rintro ⟨pair, hpair, hnumeric, hlong⟩
      exact absurd (hreadable pair hpair hnumeric) (Nat.not_le.mpr hlong)
    · intro outcome houtcome
      rw [hvalues] at houtcome
      cases houtcome
      exact ⟨_, rfl, nodup_keys_ofList _, lookup_ofList _⟩
  · refine ⟨⟨fun _ => ⟨pair, hpair, hnumeric, hlong⟩, fun _ => ⟨_, herror⟩⟩, ?_⟩
    intro outcome houtcome
    rw [herror] at houtcome
    cases houtcome

/-- The first title of `%T-%n%T` takes `a-1` from `a-1-23b`, which leaves both digits to the track
and the last letter to the second title. A first title `a` would leave more to the second one. -/
theorem extract_takes_longest_split_again :
    ∃ spec values, Spec.read "%T-%n%T" = .ok spec ∧
      spec.Splits "a-1-23b" [['a', '-', '1'], ['2', '3'], ['b']] ∧
      (∀ runs, spec.Splits "a-1-23b" runs → runs ≠ [['a', '-', '1'], ['2', '3'], ['b']] →
        lengths runs < [3, 2, 1]) ∧
      spec.Splits "a-1-23b" [['a'], ['1'], ['-', '2', '3', 'b']] ∧
      spec.extract "a-1-23b" = .ok (some values) ∧
      values.lookup .title = some (.text "b") ∧ values.lookup .track = some (.number 23) ∧
      values.lookup .artist = none := by
  let title : Placeholder := ⟨.title, none, .preserve⟩
  let track : Placeholder := ⟨.track, none, .downcase⟩
  let spec : Spec := ⟨"%T-%n%T", [.placeholder title, .literal ['-'], .placeholder track,
    .placeholder title]⟩
  have hspec : Spec.read "%T-%n%T" = .ok spec := by decide +kernel
  have hcaptures : spec.captures? "a-1-23b" = some [['a', '-', '1'], ['2', '3'], ['b']] := by
    decide +kernel
  obtain ⟨hiff, hread⟩ := extract_takes_longest_split spec "a-1-23b"
    [['a', '-', '1'], ['2', '3'], ['b']]
  obtain ⟨hsplits, hgreatest⟩ := hiff.mp hcaptures
  have hextract : spec.extract "a-1-23b" =
      .ok (some [(.title, .text "b"), (.track, .number 23)]) := by decide +kernel
  obtain ⟨values, heq, -, hlookup⟩ := (hread hcaptures).2 _ hextract
  cases heq
  have hother : spec.Splits "a-1-23b" [['a'], ['1'], ['-', '2', '3', 'b']] := by
    have hfirst : Fits title ['a'] := fits_of_all (by decide +kernel)
    have hdigit : Fits track ['1'] := fits_of_all (by decide +kernel)
    have hlast : Fits title ['-', '2', '3', 'b'] := fits_of_all (by decide +kernel)
    exact ⟨.cons hfirst (.cons hdigit (.cons hlast .nil)), by decide +kernel⟩
  refine ⟨spec, _, hspec, hsplits, hgreatest, hother, hextract, ?_, ?_, ?_⟩
  all_goals
    rw [hlookup]
    decide +kernel

end

end LinerNotes.Spec
