import LinerNotes.Proofs.Others

/-!
What a field reads as after it was written. Tags keep the text of a value, except that frames turn a
recording time into a time stamp, and a number is read from the front of what they keep. So a number
below zero is lost, and of a year just what its first four digits tell is left.
-/

namespace LinerNotes

namespace Field

/-- The first text that tags keep for a field after something was written, where `stamped` tells
whether they are frames. -/
def laid (field : Field) (stamped : Bool) (content : Content) : Option String :=
  if stamped then (Frames.frameFor field content).texts.head? else some content.shown

/-- What a field reads as after a value was written. -/
def heard (field : Field) (stamped : Bool) (value : Value) : Except Failure Value :=
  if value.isEmpty then .ok field.emptyValue
  else Failure.ofNumeral do field.valueOfTag (field.laid stamped (← field.content value))

/-- The number that a numeric field reads as after a number was written. -/
def returned (field : Field) (stamped : Bool) (n : Int) : Int :=
  if n < 0 then 0
  else
    match field with
    | .year =>
        if n < 1000 ∧ stamped = false then 0 else n / 10 ^ ((Numeral.digitChars n).length - 4)
    | _ => n

end Field

namespace Container

/-- Whether the tags are frames. -/
def stamps : Container → Bool
  | .frames _ => true
  | _ => false

theorem stamps_clear (tags : Container) (field : Field) :
    (tags.clear field).stamps = tags.stamps := by
  cases tags <;> rfl

theorem Proper.clear {tags : Container} (h : tags.Proper) (field : Field) :
    (tags.clear field).Proper := by
  cases tags with
  | frames entries => exact Frames.Proper.clear h field
  | _ => trivial

theorem first?_of_dataFor {atoms : Atoms} {field : Field} {value : Value} {content : Content}
    {data : AtomData} (hcontent : field.content value = .ok content)
    (h : atoms.dataFor field content = .ok data) : data.first? = some content.shown := by
  by_cases htrack : field = .track
  · subst htrack
    obtain ⟨n, -, rfl⟩ := Field.content_track hcontent
    rw [Atoms.dataFor_track_eq] at h
    split at h
    · cases h
      rfl
    · cases h
  · rw [atoms.dataFor_of_ne_track content htrack] at h
    cases h
    rfl

theorem put_keeps {tags after : Container} {field : Field} {value : Value} {content : Content}
    (hcontent : field.content value = .ok content) (h : tags.put field content = .ok after) :
    after.stamps = tags.stamps ∧ (tags.Proper → after.Proper) ∧
      ∀ other, after.get? other =
        if other = field then field.laid tags.stamps content else tags.get? other := by
  cases tags with
  | comments entries =>
      cases h
      refine ⟨rfl, fun _ => trivial, fun other => ?_⟩
      split
      · rename_i hsame
        rw [hsame]
        exact entries.get?_put field content.shown
      · rename_i hne
        exact entries.get?_put_of_ne content.shown hne
  | frames entries =>
      cases h
      refine ⟨rfl, fun hproper => Frames.Proper.put hproper field content, fun other => ?_⟩
      split
      · rename_i hsame
        rw [hsame]
        exact entries.get?_put field content
      · rename_i hne
        exact Frames.get?_of_held_eq (entries.held_put_of_ne content hne)
  | atoms entries =>
      simp only [put] at h
      cases hput : entries.put field content with
      | error failure =>
          rw [hput] at h
          cases h
      | ok others =>
          rw [hput] at h
          cases h
          obtain ⟨data, hdata, hsame, hother⟩ := Atoms.data?_put hput
          refine ⟨rfl, fun _ => trivial, fun other => ?_⟩
          split
          · rename_i hfield
            rw [hfield, get?, Atoms.get?, hsame, Option.bind_some, first?_of_dataFor hcontent hdata]
            rfl
          · rename_i hne
            rw [get?, get?, Atoms.get?, Atoms.get?, hother other hne]
  | items entries =>
      cases h
      refine ⟨rfl, fun _ => trivial, fun other => ?_⟩
      split
      · rename_i hsame
        rw [hsame]
        exact entries.get?_put field content.shown
      · rename_i hne
        exact entries.get?_put_of_ne content.shown hne

end Container

theorem Format.proper_noTags (format : Format) : format.noTags.Proper :=
  format.regular_noTags.proper

theorem Format.value_noTags (format : Format) (field : Field) :
    Container.value (some format.noTags) field = .ok field.emptyValue := by
  rw [← Container.value_none]
  apply Container.value_congr
  cases format <;> cases field <;> rfl

namespace Handle

/-- Whether the tags in memory are frames. -/
def stamps (handle : Handle) : Bool :=
  handle.content.any Container.stamps

/-- Whether the tags in memory are as a file can have them: no identifier of a frame holds
a colon. -/
def Proper (handle : Handle) : Prop :=
  ∀ tags, handle.content = some tags → tags.Proper

theorem stamps_of_content {handle : Handle} {tags : Container} (h : handle.content = some tags) :
    handle.stamps = tags.stamps := by
  rw [stamps, h, Option.any_some]

theorem read_eq_value (handle : Handle) (field : Field) :
    handle.read field = Container.value handle.content field := by
  unfold read Handle.tags content
  cases handle.audio with
  | none => rfl
  | some audio =>
      rw [Option.bind_some, Option.map_some]
      cases audio.tags with
      | none => rw [Option.getD_none, Format.value_noTags, Container.value_none]
      | some tags => rfl

theorem read_of_content {handle : Handle} {tags : Container} (h : handle.content = some tags)
    (field : Field) : handle.read field = Container.value (some tags) field := by
  rw [read_eq_value, h]

theorem proper_of_content {handle : Handle} {tags : Container} (h : handle.content = some tags)
    (hproper : tags.Proper) : handle.Proper := by
  intro others hothers
  rw [h, Option.some.injEq] at hothers
  exact hothers ▸ hproper

variable {handle after : Handle} {field : Field} {value : Value} {event : Event}

theorem cleared_keeps (hproper : handle.Proper) (field : Field) :
    (handle.cleared field).Proper ∧ (handle.cleared field).stamps = handle.stamps ∧
      ∀ other, (handle.cleared field).read other =
        if other = field then .ok field.emptyValue else handle.read other := by
  unfold cleared
  cases htags : handle.tags with
  | none =>
      refine ⟨hproper, rfl, fun other => ?_⟩
      rw [read, htags, Container.value_none]
      split
      · rename_i hsame
        rw [hsame]
      · rfl
  | some tags =>
      have hcontent := content_of_tags htags
      have hafter := content_withTags hcontent (tags.clear field)
      refine ⟨proper_of_content hafter ((hproper tags hcontent).clear field), ?_, fun other => ?_⟩
      · rw [stamps_of_content hafter, stamps_of_content hcontent, Container.stamps_clear]
      · rw [read_of_content hafter, read_of_content hcontent]
        exact Container.value_clear (hproper tags hcontent) field other

theorem write_eq_ok (h : write field value handle = .ok event after) :
    (value.isEmpty = true ∧ after = handle.cleared field) ∨
    ∃ tags content others, value.isEmpty = false ∧ handle.tagsOrNew = .ok tags ∧
      field.content value = .ok content ∧ tags.put field content = .ok others ∧
      after = handle.withTags others := by
  unfold write at h
  cases hempty : value.isEmpty with
  | true =>
      rw [hempty, if_pos rfl] at h
      cases h
      exact .inl ⟨rfl, rfl⟩
  | false =>
      rw [hempty, if_neg Bool.false_ne_true] at h
      cases hnew : handle.tagsOrNew with
      | error failure =>
          rw [hnew] at h
          cases h
      | ok tags =>
          simp only [hnew] at h
          cases hchanged : changed tags field value with
          | error failure =>
              rw [hchanged] at h
              cases h
          | ok written =>
              rw [hchanged] at h
              cases h
              obtain ⟨content, hcontent, hput⟩ := changed_eq_ok hchanged
              exact .inr ⟨tags, content, written.1, rfl, rfl, hcontent, hput, rfl⟩

/-- After a write that went through its field reads as `heard` tells, and every other field as
before. -/
theorem write_keeps (hproper : handle.Proper) (h : write field value handle = .ok event after) :
    after.Proper ∧ after.stamps = handle.stamps ∧
      ∀ other, after.read other =
        if other = field then field.heard handle.stamps value else handle.read other := by
  rcases write_eq_ok h with ⟨hempty, rfl⟩ |
    ⟨tags, content, others, hempty, hnew, hcontent, hput, rfl⟩
  · simp only [Field.heard, hempty, if_true]
    exact cleared_keeps hproper field
  · have htags := content_of_tagsOrNew hnew
    have hothers := content_withTags htags others
    obtain ⟨hstamps, hkept, hget⟩ := Container.put_keeps hcontent hput
    refine ⟨proper_of_content hothers (hkept (hproper tags htags)), ?_, fun other => ?_⟩
    · rw [stamps_of_content hothers, stamps_of_content htags, hstamps]
    · rw [read_of_content hothers, Container.value, Option.bind_some, hget]
      split
      · rename_i hsame
        rw [hsame, Field.heard, hempty, hcontent, stamps_of_content htags]
        rfl
      · rw [read_of_content htags, Container.value, Option.bind_some]

end Handle

namespace Field

open LinerNotes.Text

theorem laid_number {field : Field} (hnumeric : field.isNumeric = true) (stamped : Bool) (n : Int) :
    field.laid stamped (.number n) =
      some (if stamped = true ∧ field = .year then Timestamp.normalised (Numeral.text n)
        else Numeral.text n) := by
  cases stamped with
  | false => rfl
  | true =>
      cases field with
      | track =>
          have hnul : '\x00' ∉ (Content.number n).shown.toList :=
            Frames.not_mem_text n rfl (by decide)
          rw [laid, if_pos rfl, Frames.texts_of_ne_year (by decide) hnul]
          rfl
      | year =>
          have hcomma : ',' ∉ (Numeral.text n).toList := Frames.not_mem_text n rfl (by decide)
          simp [laid, Frames.frameFor, Frame.make, Frames.id, Frames.separator, Content.shown,
            pieces_of_not_mem hcomma]
      | _ => cases hnumeric

theorem four_le_length_iff (n : Int) : 4 ≤ (Numeral.digitChars n).length ↔ 1000 ≤ n.natAbs := by
  have hthree : (Numeral.digitChars n).length ≤ 3 ↔ n.natAbs < 1000 :=
    Numeral.digitChars_length_le_iff (by decide)
  omega

theorem leadingFixed_paddedChars {n : Int} (hnonneg : 0 ≤ n) (width : Nat)
    (hfour : 4 ≤ max width (Numeral.digitChars n).length) (hwidth : width ≤ 4) :
    Numeral.leadingFixed 4 (Numeral.paddedChars width n) =
      n / 10 ^ ((Numeral.digitChars n).length - 4) := by
  have hdigits : ∀ c ∈ Numeral.paddedChars width n, isDecimalDigit c = true :=
    fun c hc => isDecimalDigit_of_isDigit (Numeral.isDigit_of_mem_paddedChars hnonneg hc)
  have hlength := Numeral.paddedChars_length width hnonneg
  have hrest : max width (Numeral.digitChars n).length - 4 = (Numeral.digitChars n).length - 4 := by
    omega
  rw [Numeral.leadingFixed_eq_div hdigits (by rw [hlength]; exact hfour), hlength, hrest,
    Numeral.decimalValue_paddedChars width hnonneg]
  rw [Int.natCast_ediv, Int.natAbs_of_nonneg hnonneg, Int.natCast_pow]
  rfl

theorem leadingFixed_laid {n : Int}
    (hlength : (Numeral.digitChars n).length ≤ Numeral.digitLimit) (stamped : Bool) :
    Numeral.leadingFixed 4 (if stamped then Timestamp.normalised (Numeral.text n)
      else Numeral.text n).toList = Field.year.returned stamped n := by
  by_cases hneg : n < 0
  · rw [returned, if_pos hneg]
    cases stamped with
    | true =>
        rw [if_pos rfl, Timestamp.normalised_of_neg hneg]
        rfl
    | false =>
        rw [if_neg Bool.false_ne_true, Numeral.text, String.toList_ofList]
        exact Numeral.leadingFixed_of_neg (by decide) hneg
  · have hnonneg : 0 ≤ n := Int.not_lt.mp hneg
    rw [returned, if_neg hneg]
    cases stamped with
    | true =>
        have hstamp := leadingFixed_paddedChars hnonneg 4 (le_max_left _ _) le_rfl
        simpa [Timestamp.normalised_text hnonneg hlength] using hstamp
    | false =>
        have hfour := four_le_length_iff n
        have hchars : (Numeral.text n).toList = Numeral.digitChars n := by
          rw [Numeral.text, String.toList_ofList, Numeral.chars_of_nonneg hnonneg]
        rw [if_neg Bool.false_ne_true, hchars]
        by_cases hshort : n < 1000
        · have hlength : (Numeral.digitChars n).length < 4 := by omega
          simpa [hshort] using Numeral.leadingFixed_of_short hlength
        · have hplain : Numeral.paddedChars 0 n = Numeral.digitChars n := by
            rw [Numeral.paddedChars_of_nonneg 0 hnonneg, Nat.zero_sub]
            rfl
          have hfront := leadingFixed_paddedChars hnonneg 0 (by omega) (by decide)
          rw [hplain] at hfront
          simpa [hshort] using hfront

theorem heard_number {field : Field} (hnumeric : field.isNumeric = true) (stamped : Bool) {n : Int}
    (hlength : (Numeral.digitChars n).length ≤ Numeral.digitLimit) :
    field.heard stamped (.number n) = .ok (.number (field.returned stamped n)) := by
  unfold heard
  by_cases hzero : n = 0
  · have hempty : field.emptyValue = .number 0 := by rw [emptyValue, if_pos hnumeric]
    have hreturned : field.returned stamped 0 = 0 := by
      cases stamped <;> cases field <;> simp [returned]
    rw [hzero, hreturned, hempty]
    rfl
  · have hempty : (Value.number n).isEmpty = false := beq_eq_false_iff_ne.mpr hzero
    rw [hempty, if_neg Bool.false_ne_true, content_number hnumeric hlength]
    change Failure.ofNumeral (field.valueOfTag (field.laid stamped (.number n))) = _
    rw [laid_number hnumeric]
    cases field with
    | track =>
        have hleading : Numeral.leading (Numeral.chars n) =
            .ok (Field.track.returned stamped n) := by
          by_cases hneg : n < 0
          · simp [Numeral.leading_of_neg hneg, returned, hneg]
          · have hnonneg : 0 ≤ n := Int.not_lt.mp hneg
            have hdigits : ∀ c ∈ Numeral.digitChars n, isDecimalDigit c = true :=
              fun c hc => isDecimalDigit_of_isDigit (Numeral.isDigit_of_mem_digitChars hc)
            have hreturned : Field.track.returned stamped n = n := by simp [returned, hneg]
            rw [Numeral.chars_of_nonneg hnonneg, Numeral.leading_of_digits hdigits hlength,
              Numeral.decimalValue_digitChars, Int.natAbs_of_nonneg hnonneg, hreturned]
        simp [valueOfTag, Numeral.text, hleading, Failure.ofNumeral, Except.mapError]
    | year =>
        have hyear := leadingFixed_laid hlength stamped
        simp [valueOfTag, hyear, Failure.ofNumeral, Except.mapError]
    | _ => cases hnumeric

theorem length_of_content {field : Field} (hnumeric : field.isNumeric = true) {n : Int}
    {content : Content} (h : field.content (.number n) = .ok content) :
    (Numeral.digitChars n).length ≤ Numeral.digitLimit := by
  by_contra hlong
  have hwrite : Numeral.write 1 n = .error .tooLongToWrite := if_pos (Nat.not_le.mp hlong)
  simp [Field.content, hnumeric, Value.toInt, hwrite, bind, Except.bind] at h

theorem digitChars_length_le_four_iff (n : Int) :
    (Numeral.digitChars n).length ≤ 4 ↔ n.natAbs ≤ 9999 := by
  have hfour : (Numeral.digitChars n).length ≤ 4 ↔ n.natAbs < 10000 :=
    Numeral.digitChars_length_le_iff (by decide)
  omega

/-- The numbers that come back: none below zero, and of the years those with four digits at most,
which a time stamp alone fills up. -/
theorem returned_eq_iff {field : Field} (hnumeric : field.isNumeric = true) (stamped : Bool)
    (n : Int) :
    field.returned stamped n = n ↔
      0 ≤ n ∧ (field = .year → n ≤ 9999 ∧ (n = 0 ∨ 1000 ≤ n ∨ stamped = true)) := by
  unfold returned
  by_cases hneg : n < 0
  · rw [if_pos hneg]
    omega
  rw [if_neg hneg]
  cases field with
  | track => simpa using hneg
  | year =>
      have hfour := digitChars_length_le_four_iff n
      by_cases hshort : n < 1000 ∧ stamped = false
      · obtain ⟨hlow, rfl⟩ := hshort
        simp only [hlow, and_self, if_true, forall_const, Bool.false_eq_true, or_false]
        omega
      · have hlong : 1000 ≤ n ∨ stamped = true := by
          cases stamped <;> simp_all
        simp only [hshort, if_false, hlong, or_true, and_true, forall_const]
        by_cases hhigh : n ≤ 9999
        · have hlength : (Numeral.digitChars n).length - 4 = 0 := by omega
          rw [hlength, pow_zero, Int.ediv_one]
          omega
        · obtain ⟨k, hk⟩ : ∃ k, (Numeral.digitChars n).length - 4 = k + 1 :=
            Nat.exists_eq_succ_of_ne_zero (by omega)
          have hpower : (1 : Int) < 10 ^ (k + 1) := one_lt_pow₀ (by decide) (by omega)
          have hless : n / 10 ^ (k + 1) < n :=
            Int.ediv_lt_self_of_pos_of_ne_one (by omega) (by omega)
          rw [hk]
          omega
  | _ => cases hnumeric

end Field

/-- A number that is written without complaint reads as `returned` tells from then on. It comes back
as it was, unless it is below zero, or a year that has more than four digits, or fewer where no time
stamp fills it up. -/
theorem Handle.read_written_number {handle after : Handle} {event : Event} {field : Field} {n : Int}
    (hnumeric : field.isNumeric = true) (hproper : handle.Proper)
    (h : write field (.number n) handle = .ok event after) :
    after.read field = .ok (.number (field.returned handle.stamps n)) ∧
      (after.read field = .ok (.number n) ↔
        0 ≤ n ∧ (field = .year → n ≤ 9999 ∧ (n = 0 ∨ 1000 ≤ n ∨ handle.stamps = true))) := by
  have hread : after.read field = .ok (.number (field.returned handle.stamps n)) := by
    have hlength : (Numeral.digitChars n).length ≤ Numeral.digitLimit := by
      rcases write_eq_ok h with ⟨hempty, -⟩ | ⟨_, content, _, -, -, hcontent, -⟩
      · have hzero : n = 0 := beq_iff_eq.mp hempty
        rw [hzero]
        decide
      · exact Field.length_of_content hnumeric hcontent
    obtain ⟨-, -, hread⟩ := write_keeps hproper h
    rw [hread, if_pos rfl, Field.heard_number hnumeric handle.stamps hlength]
  refine ⟨hread, ?_⟩
  rw [hread, ← Field.returned_eq_iff hnumeric]
  simp

/-- The year 476 is accepted and stands in the comments as it was given, and reads as none. -/
theorem Handle.read_written_number_early :
    ∃ handle after event, Field.year.parse "476" = .ok (.number 476) ∧
      Handle.write .year (.number 476) handle = .ok event after ∧
      after.tags = some (.comments [("DATE", "476")]) ∧
      after.read .year = .ok (.number 0) ∧ after.read .year ≠ .ok (.number 476) := by
  let handle : Handle :=
    ⟨"a.ogg", ["a.ogg"], some ⟨.oggVorbis, some (.comments []), ⟨none, none, none⟩⟩⟩
  let after : Handle :=
    ⟨"a.ogg", ["a.ogg"], some ⟨.oggVorbis, some (.comments [("DATE", "476")]), ⟨none, none, none⟩⟩⟩
  have hwrite : Handle.write .year (.number 476) handle =
      .ok (.wrote "a.ogg" .year "476") after := rfl
  have hproper : handle.Proper := by
    intro tags htags
    cases htags
    trivial
  obtain ⟨hread, hback⟩ := Handle.read_written_number rfl hproper hwrite
  have hreturned : Field.year.returned handle.stamps 476 = 0 := by decide +kernel
  rw [hreturned] at hread
  refine ⟨handle, after, _, by decide +kernel, hwrite, rfl, hread, fun h => ?_⟩
  have hlow := (hback.mp h).2 rfl
  have hstamps : handle.stamps = false := rfl
  simp [hstamps] at hlow

end LinerNotes
