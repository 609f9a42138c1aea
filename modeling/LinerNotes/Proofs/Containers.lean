import LinerNotes.Proofs.Storing

/-!
One field of the tags of a file changes at a time, in each of the four forms: a stored value is read
back, a cleared field is absent, and every other field reads as before.
-/

namespace LinerNotes

namespace Atoms

/-- The total that goes with the track number, and zero if there is none. -/
def trackTotal (atoms : Atoms) : Int :=
  ((atoms.data? .track).map AtomData.total).getD 0

theorem dataFor_of_ne_track (atoms : Atoms) {field : Field} (content : Content)
    (hne : field ≠ .track) : atoms.dataFor field content = .ok (.texts [content.shown]) := by
  cases field <;> first | exact absurd rfl hne | rfl

theorem dataFor_track {atoms : Atoms} {n : Int} (hlow : 0 ≤ n) (hhigh : n ≤ 65535)
    (htotal : 0 ≤ atoms.trackTotal ∧ atoms.trackTotal ≤ 65535) :
    atoms.dataFor .track (.number n) = .ok (.pairs [(n, atoms.trackTotal)]) := by
  have hfits : fits n = true := by
    simp only [fits, Bool.and_eq_true, decide_eq_true_eq]
    omega
  have htotal' : fits atoms.trackTotal = true := by
    simp only [fits, Bool.and_eq_true, decide_eq_true_eq]
    omega
  change (if fits n && fits atoms.trackTotal then Except.ok (AtomData.pairs [(n, atoms.trackTotal)])
    else Except.error (Failure.pairOutOfRange n atoms.trackTotal)) = _
  simp [hfits, htotal']

theorem put_of_dataFor {atoms : Atoms} {field : Field} {content : Content} {data : AtomData}
    (h : atoms.dataFor field content = .ok data) :
    ∃ after, atoms.put field content = .ok after ∧ after.data? field = some data ∧
      ∀ other, other ≠ field → after.data? other = atoms.data? other := by
  have hput : ∃ after, atoms.put field content = .ok after := by
    simp [put, h, Except.map]
  obtain ⟨after, hafter⟩ := hput
  obtain ⟨data', hdata, hsame, hother⟩ := data?_put hafter
  rw [h] at hdata
  cases hdata
  exact ⟨after, hafter, hsame, hother⟩

end Atoms

namespace Frames

theorem Proper.clear {frames : Frames} (h : frames.Proper) (field : Field) :
    (frames.clear field).Proper :=
  fun frame hframe => h frame (mem_of_mem_clear hframe)

theorem Proper.put {frames : Frames} (h : frames.Proper) (field : Field) (content : Content) :
    (frames.put field content).Proper := by
  intro frame hframe
  rw [put_eq, List.mem_append, List.mem_singleton] at hframe
  rcases hframe with hold | rfl
  · exact h.clear field frame hold
  · have hids : ∀ f ∈ Field.all, ':' ∉ (id f).toList := by decide +kernel
    exact hids field (Field.mem_all field)

theorem texts_of_ne_year {field : Field} {content : Content} (hyear : field ≠ .year)
    (hnul : '\x00' ∉ content.shown.toList) :
    (frameFor field content).texts = [content.shown] := by
  have hseparator : separator field = '\x00' := by
    cases field <;> first | exact absurd rfl hyear | rfl
  have htime : id field ≠ Frame.timeId := by
    cases field <;> first | exact absurd rfl hyear | decide
  simp [frameFor, Frame.make, htime, hseparator, Text.pieces_of_not_mem hnul]

theorem not_mem_text (n : Int) {c : Char} (hdigit : c.isDigit = false) (hsign : c ≠ '-') :
    c ∉ (Numeral.text n).toList := by
  rw [Numeral.text, String.toList_ofList, Numeral.chars, List.mem_append, not_or]
  constructor
  · unfold Numeral.signChars
    split
    · simpa using hsign
    · exact List.not_mem_nil
  · intro hmem
    simp [Numeral.isDigit_of_mem_digitChars hmem] at hdigit

theorem texts_frameFor {field : Field} {value : Value} {content : Content}
    (h : field.Stores value) (hne : value.isEmpty = false)
    (hcontent : field.content value = .ok content) :
    (frameFor field content).texts = [content.shown] := by
  rcases h.cases hne with ⟨s, rfl, -, hnumeric, hnul⟩ | ⟨n, rfl, rfl, hlow, hhigh⟩ |
    ⟨n, rfl, rfl, hlow, hhigh⟩
  · have hyear : field ≠ .year := by
      rintro rfl
      cases hnumeric
    rw [Field.content_text hnumeric] at hcontent
    cases hcontent
    exact texts_of_ne_year hyear hnul
  · have hnonneg : 0 ≤ n := by omega
    have hlength := Field.digitChars_length_of_le hnonneg hhigh
    rw [Field.content_number rfl (hlength.trans (by decide))] at hcontent
    cases hcontent
    exact texts_of_ne_year (by decide) (not_mem_text n rfl (by decide))
  · have hnonneg : 0 ≤ n := by omega
    have hlength := Timestamp.digitChars_length_of_year hlow hhigh
    rw [Field.content_number rfl (by rw [hlength]; decide)] at hcontent
    cases hcontent
    have hcomma : ',' ∉ (Numeral.text n).toList := not_mem_text n rfl (by decide)
    simp [frameFor, Frame.make, id, separator, Content.shown, Text.pieces_of_not_mem hcomma,
      Timestamp.normalised_year hlow hhigh]

end Frames

namespace Container

/-- Whether tags are as a file can have them: identifiers of frames hold no colon, and the total
that goes with a track number fits its two bytes. -/
def Regular : Container → Prop
  | .frames entries => entries.Proper
  | .atoms entries => 0 ≤ entries.trackTotal ∧ entries.trackTotal ≤ 65535
  | _ => True

/-- Whether no identifier of a frame holds a colon. -/
def Proper : Container → Prop
  | .frames entries => entries.Proper
  | _ => True

theorem Regular.proper {tags : Container} (h : tags.Regular) : tags.Proper := by
  cases tags with
  | frames entries => exact h
  | _ => trivial

theorem get?_clear {tags : Container} (hproper : tags.Proper) (field : Field) :
    (tags.clear field).get? field = none := by
  cases tags with
  | comments entries => exact entries.get?_clear field
  | frames entries => simp [clear, get?, Frames.get?, Frames.held_clear hproper field]
  | atoms entries => simp [clear, get?, Atoms.get?, Atoms.data?_clear]
  | items entries => exact entries.get?_clear field

theorem get?_clear_of_ne (tags : Container) {field other : Field} (hne : other ≠ field) :
    (tags.clear field).get? other = tags.get? other := by
  cases tags with
  | comments entries => exact entries.get?_clear_of_ne hne
  | frames entries => exact Frames.get?_of_held_eq (entries.held_clear_of_ne hne)
  | atoms entries => exact congrArg (·.bind AtomData.first?) (entries.data?_clear_of_ne hne)
  | items entries => exact entries.get?_clear_of_ne hne

theorem Regular.clear {tags : Container} (h : tags.Regular) (field : Field) :
    (tags.clear field).Regular := by
  cases tags with
  | comments entries => trivial
  | frames entries => exact Frames.Proper.clear h field
  | atoms entries =>
      by_cases hfield : field = .track
      · subst hfield
        simp [Container.clear, Regular, Atoms.trackTotal, Atoms.data?_clear]
      · simp only [Container.clear, Regular, Atoms.trackTotal,
          Atoms.data?_clear_of_ne entries (Ne.symm hfield)]
        exact h
  | items entries => trivial

theorem put_of_stores {tags : Container} (hregular : tags.Regular) {field : Field} {value : Value}
    {content : Content} (hstores : field.Stores value) (hne : value.isEmpty = false)
    (hcontent : field.content value = .ok content) :
    ∃ after, tags.put field content = .ok after ∧ after.Regular ∧
      after.get? field = some content.shown ∧
      ∀ other, other ≠ field → after.get? other = tags.get? other := by
  cases tags with
  | comments entries =>
      exact ⟨_, rfl, trivial, entries.get?_put field content.shown,
        fun other hother => entries.get?_put_of_ne content.shown hother⟩
  | frames entries =>
      refine ⟨_, rfl, Frames.Proper.put hregular field content, ?_, ?_⟩
      · simp [get?, Frames.get?_put, Frames.texts_frameFor hstores hne hcontent]
      · intro other hother
        exact Frames.get?_of_held_eq (entries.held_put_of_ne content hother)
  | atoms entries =>
      by_cases htrack : field = .track
      · subst htrack
        obtain ⟨n, rfl, hlow, hhigh⟩ := hstores.track hne
        have hlength := Field.digitChars_length_of_le (by omega) hhigh
        rw [Field.content_number rfl (hlength.trans (by decide))] at hcontent
        cases hcontent
        have hdata := Atoms.dataFor_track (by omega) hhigh hregular
        obtain ⟨after, hput, hsame, hother⟩ := Atoms.put_of_dataFor hdata
        refine ⟨.atoms after, by simp [put, hput, Except.map], ?_, ?_, ?_⟩
        · simpa [Regular, Atoms.trackTotal, hsame, AtomData.total] using hregular
        · simp [get?, Atoms.get?, hsame, AtomData.first?, Content.shown]
        · intro other hne'
          simp [get?, Atoms.get?, hother other hne']
      · have hdata := entries.dataFor_of_ne_track content htrack
        obtain ⟨after, hput, hsame, hother⟩ := Atoms.put_of_dataFor hdata
        refine ⟨.atoms after, by simp [put, hput, Except.map], ?_, ?_, ?_⟩
        · simpa [Regular, Atoms.trackTotal, hother .track (Ne.symm htrack)] using hregular
        · simp [get?, Atoms.get?, hsame, AtomData.first?]
        · intro other hne'
          simp [get?, Atoms.get?, hother other hne']
  | items entries =>
      exact ⟨_, rfl, trivial, entries.get?_put field content.shown,
        fun other hother => entries.get?_put_of_ne content.shown hother⟩

end Container

end LinerNotes
