import LinerNotes.Input
import LinerNotes.Proofs.Effects

/-!
Rows of writes with any values, on files with the faults that reading and writing audio files is
known to bring up. Such a row goes through, or stops with a failure that concerns the file alone,
unless a track number is to be written into atoms, which hold numbers and totals of two bytes only.
-/

namespace LinerNotes

/-- Whether a fault may come up when a file is opened or saved. -/
def Fault.OfFile : Fault → Prop
  | .codec _ => True
  | .system _ => True
  | _ => False

/-- Whether a fault may come up when a file gets its first tags. -/
def Fault.OfTagging : Fault → Prop
  | .codec _ => True
  | .unsupported _ => True
  | _ => False

/-- Whether no other faults come up than the known ones. -/
structure Faults.Known (faults : Faults) : Prop where
  opening : ∀ fault, faults.opening = some fault → fault.OfFile
  saving : ∀ fault, faults.saving = some fault → fault.OfFile
  tagging : ∀ fault, faults.tagging = some fault → fault.OfTagging

/-- Whether a handle is open and its file has known faults only. -/
def Handle.Known (handle : Handle) : Prop :=
  ∃ audio, handle.audio = some audio ∧ audio.faults.Known

/-- Whether a value can be written for a field as far as the field alone tells. -/
def Field.Takes (field : Field) (value : Value) : Prop :=
  ∃ content, field.content value = .ok content

namespace Field

theorem takes_text {field : Field} (hnumeric : field.isNumeric = false) (s : String) :
    field.Takes (.text s) :=
  ⟨.text s, content_text hnumeric s⟩

theorem takes_number {field : Field} (hnumeric : field.isNumeric = true) {n : Int}
    (h : (Numeral.digitChars n).length ≤ Numeral.digitLimit) : field.Takes (.number n) :=
  ⟨.number n, content_number hnumeric h⟩

theorem takes_emptyValue (field : Field) : field.Takes field.emptyValue := by
  cases field <;> exact ⟨_, rfl⟩

theorem takes_absent (field : Field) : field.Takes .absent := by
  cases field <;> exact ⟨_, rfl⟩

theorem Takes.written {field : Field} {value : Value} (h : field.Takes value) :
    ∃ text, Edit.written value = .ok text := by
  obtain ⟨content, hcontent⟩ := h
  cases value with
  | absent => exact ⟨_, rfl⟩
  | text s => exact ⟨_, rfl⟩
  | number n =>
      cases hwrite : Numeral.write 1 n with
      | ok text => exact ⟨text, hwrite⟩
      | error cause =>
          cases hnumeric : field.isNumeric <;>
            simp [Field.content, hnumeric, Value.toInt, Value.write, hwrite, bind, Except.bind]
              at hcontent

end Field

theorem Numeral.digitChars_length_of_read {text : String} {n : Int} (h : read text = .ok n) :
    (digitChars n).length ≤ digitLimit := by
  simp only [read] at h
  split at h
  · cases h
  split at h
  · cases h
  rename_i hlength
  split at h
  · cases h
    have hdigits := digitChars_length_of_decimalValue (by decide) (Nat.le_of_not_lt hlength)
    unfold signed
    split
    · simpa only [digitChars, Int.natAbs_neg] using hdigits
    · exact hdigits
  · cases h

theorem Field.takes_of_parse {field : Field} {raw : String} {value : Value}
    (h : field.parse raw = .ok value) : field.Takes value := by
  cases hnumeric : field.isNumeric with
  | false =>
      simp only [parse, hnumeric, Bool.not_false, if_true] at h
      cases h
      exact takes_text hnumeric raw
  | true =>
      simp only [parse, hnumeric, Bool.not_true, Bool.false_eq_true, if_false] at h
      split at h
      · cases hread : Numeral.read (String.ofList (Text.trimmed Text.isBlank raw.toList)) with
        | error cause =>
            rw [hread] at h
            cases h
        | ok n =>
            rw [hread] at h
            cases h
            exact takes_number hnumeric (Numeral.digitChars_length_of_read hread)
      · cases h

theorem Spec.takes_of_captured {field : Field} {run : List Char} {value : Value}
    (h : captured field run = .ok value) : field.Takes value := by
  unfold captured at h
  split at h
  · rename_i hnumeric
    cases hread : Numeral.read (String.ofList run) with
    | error cause =>
        rw [hread] at h
        cases h
    | ok n =>
        rw [hread] at h
        cases h
        exact Field.takes_number hnumeric (Numeral.digitChars_length_of_read hread)
  · rename_i hnumeric
    cases h
    exact Field.takes_text (Bool.eq_false_iff.mpr hnumeric) (String.ofList run)

theorem Spec.takes_of_extract {spec : Spec} {name : String} {entries : List (Field × Value)}
    (h : spec.extract name = .ok (some entries)) : ∀ entry ∈ entries, entry.1.Takes entry.2 := by
  intro entry hentry
  unfold extract at h
  split at h
  · cases h
  · rename_i runs hruns
    unfold valuesOf at h
    cases hpairs : (spec.placeholders.zip runs).mapM fun pair =>
        (captured pair.1.field pair.2).map fun value => (pair.1.field, value) with
    | error cause =>
        rw [hpairs] at h
        cases h
    | ok pairs =>
        rw [hpairs] at h
        cases h
        obtain ⟨⟨p, run⟩, -, hpair⟩ := exists_of_mem_mapM hpairs (mem_of_mem_ofList hentry)
        cases hcaptured : captured p.field run with
        | error cause =>
            rw [hcaptured] at hpair
            cases hpair
        | ok value =>
            rw [hcaptured] at hpair
            cases hpair
            exact takes_of_captured hcaptured

/-- Whether a row of writes puts a track number into atoms with the given total that does not fit,
or beside a total that does not. Clearing the track clears the total as well. -/
def Atoms.overflows : Int → List (Field × Value) → Bool
  | _, [] => false
  | total, (field, value) :: rest =>
      if field = .track then
        if value.isEmpty then overflows 0 rest
        else
          match value.toInt with
          | .ok n => !(fits n && fits total) || overflows total rest
          | .error _ => overflows total rest
      else overflows total rest

theorem Atoms.dataFor_track_eq (atoms : Atoms) (n : Int) : atoms.dataFor .track (.number n) =
    if fits n && fits atoms.trackTotal then .ok (.pairs [(n, atoms.trackTotal)])
    else .error (.pairOutOfRange n atoms.trackTotal) := rfl

namespace Container

def overflows : Container → List (Field × Value) → Bool
  | .atoms held, entries => Atoms.overflows held.trackTotal entries
  | _, _ => false

theorem overflows_clear (tags : Container) {field : Field} {value : Value}
    (hempty : value.isEmpty = true) (rest : List (Field × Value)) :
    (tags.clear field).overflows rest = tags.overflows ((field, value) :: rest) := by
  cases tags with
  | atoms held =>
      simp only [clear, overflows, Atoms.overflows, hempty, if_true]
      by_cases hfield : field = .track
      · simp [hfield, Atoms.trackTotal, Atoms.data?_clear]
      · simp [hfield, Atoms.trackTotal, Atoms.data?_clear_of_ne held (Ne.symm hfield)]
  | _ => rfl

theorem overflows_noTags (format : Format) {field : Field} {value : Value}
    (hempty : value.isEmpty = true) (rest : List (Field × Value)) :
    format.noTags.overflows rest = format.noTags.overflows ((field, value) :: rest) := by
  have hclear : format.noTags.clear field = format.noTags := by cases format <;> rfl
  rw [← overflows_clear format.noTags hempty, hclear]

end Container

theorem Field.content_track {value : Value} {written : Content}
    (h : Field.track.content value = .ok written) :
    ∃ n, value.toInt = .ok n ∧ written = .number n := by
  cases hint : value.toInt with
  | error cause => simp [content, isNumeric, hint, bind, Except.bind] at h
  | ok n =>
      refine ⟨n, rfl, ?_⟩
      cases hwrite : Numeral.write 1 n with
      | error cause => simp [content, isNumeric, hint, hwrite, bind, Except.bind] at h
      | ok text =>
          simpa [content, isNumeric, hint, hwrite, bind, Except.bind, pure, Except.pure]
            using h.symm

theorem Handle.changed_cases (tags : Container) {field : Field} {value : Value}
    (htakes : field.Takes value) (hempty : value.isEmpty = false) :
    (∃ after text, changed tags field value = .ok (after, text) ∧
      ∀ rest, after.overflows rest = tags.overflows ((field, value) :: rest)) ∨
    ∃ n total, changed tags field value = .error (.pairOutOfRange n total) ∧
      (Atoms.fits n && Atoms.fits total) = false ∧
      ∀ rest, tags.overflows ((field, value) :: rest) = true := by
  obtain ⟨content, hcontent⟩ := htakes
  have hchanged : changed tags field value =
      (tags.put field content).map fun tags => (tags, content.shown) := by
    rw [changed, hcontent]
    change (tags.put field content).bind _ = _
    cases tags.put field content <;> rfl
  rw [hchanged]
  cases tags with
  | atoms atoms =>
      simp only [Container.put, Container.overflows, Atoms.overflows, hempty, Bool.false_eq_true,
        if_false]
      by_cases hfield : field = .track
      · subst hfield
        obtain ⟨n, hn, rfl⟩ := Field.content_track hcontent
        simp only [hn, if_true]
        cases hfits : Atoms.fits n && Atoms.fits atoms.trackTotal with
        | true =>
            have hdata : atoms.dataFor .track (.number n) =
                .ok (.pairs [(n, atoms.trackTotal)]) := by
              rw [Atoms.dataFor_track_eq, if_pos hfits]
            obtain ⟨after, hput, hsame, -⟩ := Atoms.put_of_dataFor hdata
            refine .inl ⟨.atoms after, _, by rw [hput]; rfl, fun rest => ?_⟩
            simp [Atoms.trackTotal, hsame, AtomData.total]
        | false =>
            have hdata : atoms.dataFor .track (.number n) =
                .error (.pairOutOfRange n atoms.trackTotal) := by
              rw [Atoms.dataFor_track_eq, if_neg (Bool.eq_false_iff.mp hfits)]
            refine .inr ⟨n, atoms.trackTotal, ?_, hfits, fun rest => rfl⟩
            simp [Atoms.put, hdata, Except.map]
      · obtain ⟨after, hput, -, hother⟩ :=
          Atoms.put_of_dataFor (atoms.dataFor_of_ne_track content hfield)
        refine .inl ⟨.atoms after, _, by rw [hput]; rfl, fun rest => ?_⟩
        simp [Atoms.trackTotal, hother .track (Ne.symm hfield), hfield]
  | _ => exact .inl ⟨_, _, rfl, fun rest => rfl⟩

namespace Handle

/-- Whether a row of writes would put a pair into the file that its tags cannot hold. -/
def overflows (handle : Handle) (entries : List (Field × Value)) : Bool :=
  match handle.tagsOrNew with
  | .ok tags => tags.overflows entries
  | .error _ => false

theorem overflows_nil (handle : Handle) : handle.overflows [] = false := by
  unfold overflows
  split
  · rename_i tags _
    cases tags <;> rfl
  · rfl

/-- The handle after a row of writes, in which failing ones are passed over. -/
def rewritten (handle : Handle) (entries : List (Field × Value)) : Handle :=
  entries.foldl (fun handle entry => leftBy (write entry.1 entry.2) handle) handle

variable {handle : Handle} {tags : Container}

theorem rewritten_cons (handle : Handle) (entry : Field × Value) (rest : List (Field × Value)) :
    handle.rewritten (entry :: rest) = (leftBy (write entry.1 entry.2) handle).rewritten rest := rfl

theorem rewritten_append (handle : Handle) (entries others : List (Field × Value)) :
    handle.rewritten (entries ++ others) = (handle.rewritten entries).rewritten others :=
  List.foldl_append

theorem exists_rewritten_eq (handle : Handle) (entries : List (Field × Value)) :
    ∃ tags, handle.rewritten entries = handle.setTags tags := by
  induction entries generalizing handle with
  | nil => exact ⟨handle.tags, handle.setTags_tags.symm⟩
  | cons entry rest ih =>
      obtain ⟨first, hfirst⟩ := leftBy_write entry.1 entry.2 handle
      obtain ⟨last, hlast⟩ := ih (handle.setTags first)
      exact ⟨last, by rw [rewritten_cons, hfirst, hlast, setTags_setTags]⟩

@[simp] theorem rewritten_path (handle : Handle) (entries : List (Field × Value)) :
    (handle.rewritten entries).path = handle.path := by
  obtain ⟨tags, htags⟩ := handle.exists_rewritten_eq entries
  rw [htags, setTags_path]

theorem Known.setTags (h : handle.Known) (tags : Option Container) :
    (handle.setTags tags).Known := by
  obtain ⟨audio, haudio, hfaults⟩ := h
  exact ⟨{ audio with tags := tags }, by simp [Handle.setTags, haudio], hfaults⟩

theorem Known.leftBy_write (h : handle.Known) (field : Field) (value : Value) :
    (leftBy (write field value) handle).Known := by
  obtain ⟨tags, htags⟩ := Handle.leftBy_write field value handle
  rw [htags]
  exact h.setTags tags

theorem Known.rewritten (h : handle.Known) (entries : List (Field × Value)) :
    (handle.rewritten entries).Known := by
  obtain ⟨tags, htags⟩ := handle.exists_rewritten_eq entries
  rw [htags]
  exact h.setTags tags

theorem tagsOrNew_setTags (h : handle.Known) (tags : Container) :
    (handle.setTags (some tags)).tagsOrNew = .ok tags := by
  obtain ⟨audio, haudio, -⟩ := h
  simp [tagsOrNew, Handle.setTags, haudio]

theorem Known.tagsOrNew_cases (h : handle.Known) :
    (∃ tags, handle.tagsOrNew = .ok tags) ∨
      handle.tags = none ∧
        ∃ failure, handle.tagsOrNew = .error failure ∧ failure.reach = .file := by
  obtain ⟨⟨format, tags, faults⟩, haudio, hfaults⟩ := h
  have htags : handle.tags = tags := by simp [Handle.tags, haudio]
  cases tags with
  | some tags => exact .inl ⟨tags, by simp [tagsOrNew, haudio]⟩
  | none =>
      cases htagging : faults.tagging with
      | none => exact .inl ⟨format.noTags, by simp [tagsOrNew, haudio, htagging]⟩
      | some fault =>
          right
          refine ⟨htags, ?_⟩
          have hknown := hfaults.tagging fault htagging
          cases fault with
          | codec text =>
              exact ⟨.notTaggable handle.path text, by simp [tagsOrNew, haudio, htagging], rfl⟩
          | unsupported text =>
              exact ⟨.notTaggable handle.path text, by simp [tagsOrNew, haudio, htagging], rfl⟩
          | _ => exact hknown.elim

theorem tagsOrNew_cleared (h : handle.Known) (hnew : handle.tagsOrNew = .ok tags) (field : Field)
    {value : Value} (hempty : value.isEmpty = true) :
    ∃ others, (handle.cleared field).tagsOrNew = .ok others ∧
      ∀ rest, others.overflows rest = tags.overflows ((field, value) :: rest) := by
  have hknown := h
  obtain ⟨⟨format, stored, faults⟩, haudio, -⟩ := h
  cases stored with
  | some stored =>
      have htags : handle.tags = some stored := by simp [Handle.tags, haudio]
      have hsame : tags = stored := by
        simpa [tagsOrNew, haudio] using hnew.symm
      rw [hsame, cleared, htags]
      exact ⟨_, tagsOrNew_setTags hknown _, stored.overflows_clear hempty⟩
  | none =>
      have htags : handle.tags = none := by simp [Handle.tags, haudio]
      have hsame : tags = format.noTags := by
        simp only [tagsOrNew, haudio] at hnew
        cases htagging : faults.tagging with
        | none => simpa [htagging] using hnew.symm
        | some fault => cases fault <;> simp [htagging] at hnew
      rw [cleared, htags]
      refine ⟨tags, hnew, fun rest => ?_⟩
      rw [hsame]
      exact Container.overflows_noTags format hempty rest

theorem write_of_tagsOrNew (h : handle.Known) (hnew : handle.tagsOrNew = .ok tags) {field : Field}
    {value : Value} (htakes : field.Takes value) :
    (∃ event after others, write field value handle = .ok event after ∧
      after.tagsOrNew = .ok others ∧
      ∀ rest, others.overflows rest = tags.overflows ((field, value) :: rest)) ∨
    ∃ n total after, write field value handle = .error (.pairOutOfRange n total) after ∧
      (Atoms.fits n && Atoms.fits total) = false ∧
      ∀ rest, tags.overflows ((field, value) :: rest) = true := by
  cases hempty : value.isEmpty with
  | true =>
      obtain ⟨others, hothers, hsame⟩ := tagsOrNew_cleared h hnew field hempty
      exact .inl ⟨.cleared handle.path field, handle.cleared field, others,
        by simp only [write, hempty, if_true], hothers, hsame⟩
  | false =>
      rcases changed_cases tags htakes hempty with ⟨after, text, hchanged, hsame⟩ |
        ⟨n, total, hchanged, hfits, hover⟩
      · exact .inl ⟨.wrote handle.path field text, handle.withTags after, after,
          by simp [write, hempty, hnew, hchanged], tagsOrNew_setTags h after, hsame⟩
      · exact .inr ⟨n, total, handle.withTags tags, by simp [write, hempty, hnew, hchanged], hfits,
          hover⟩

theorem write_of_untaggable {failure : Failure} (htags : handle.tags = none)
    (hnew : handle.tagsOrNew = .error failure) (field : Field) (value : Value) :
    (∃ event, write field value handle = .ok event handle) ∨
      write field value handle = .error failure handle := by
  unfold write
  cases hempty : value.isEmpty with
  | true => exact .inl ⟨.cleared handle.path field, by simp [cleared, htags]⟩
  | false => exact .inr (by simp [hnew])

end Handle

/-- What can end a run: a pair that atoms cannot hold, a text with too many digits at its front, and
a path with the null character. -/
def Failure.EndsRun : Failure → Prop
  | .pairOutOfRange n total => (Atoms.fits n && Atoms.fits total) = false
  | .numeral (.tooManyDigits count) => Numeral.digitLimit < count
  | .nulInPath => True
  | _ => False

namespace Job

variable {α β : Type}

/-- Whether work goes well or fails for the file alone, and leaves the opened file as given. -/
def Passes (work : Job α) (bench : Workbench) (handle : Handle) : Prop :=
  ∃ after, after.handle = handle ∧
    ((∃ a, work bench = .ok a after) ∨
      ∃ failure, work bench = .error failure after ∧ failure.reach ≠ .run)

/-- Whether work fails with what ends a run. -/
def Stops (work : Job α) (bench : Workbench) : Prop :=
  ∃ failure after, work bench = .error failure after ∧ failure.EndsRun

/-- Whether work that writes the given values passes, unless they overflow and it stops. -/
def Writes (work : Job α) (entries : List (Field × Value)) (bench : Workbench) : Prop :=
  (bench.handle.overflows entries = false ∧
    work.Passes bench (bench.handle.rewritten entries)) ∨
  (bench.handle.overflows entries = true ∧ work.Stops bench)

theorem passes_of_ok {work : Job α} {bench after : Workbench} {handle : Handle} {a : α}
    (h : work bench = .ok a after) (hhandle : after.handle = handle) : work.Passes bench handle :=
  ⟨after, hhandle, .inl ⟨a, h⟩⟩

theorem write_eq_ok {bench : Workbench} {field : Field} {value : Value} {event : Event}
    {handle : Handle} (h : Handle.write field value bench.handle = .ok event handle) :
    write field value bench = .ok () ({ bench with handle := handle }.record event) := by
  have hhandle : onHandle (Handle.write field value) bench =
      .ok event { bench with handle := handle } := by
    simp only [onHandle, h]
  rw [write, bind_of_ok hhandle]
  rfl

theorem write_eq_error {bench : Workbench} {field : Field} {value : Value} {failure : Failure}
    {handle : Handle} (h : Handle.write field value bench.handle = .error failure handle) :
    write field value bench = .error failure { bench with handle := handle } := by
  have hhandle : onHandle (Handle.write field value) bench =
      .error failure { bench with handle := handle } := by
    simp only [onHandle, h]
  rw [write, bind_of_error hhandle]

/-- Where there are tags to write into, a row of writes goes through up to the first pair that they
cannot hold. -/
theorem writeAll_of_tagsOrNew {bench : Workbench} {tags : Container} (h : bench.handle.Known)
    (hnew : bench.handle.tagsOrNew = .ok tags) {entries : List (Field × Value)}
    (htakes : ∀ entry ∈ entries, entry.1.Takes entry.2) :
    (tags.overflows entries = false ∧ ∃ after, writeAll entries bench = .ok () after ∧
      after.handle = bench.handle.rewritten entries) ∨
    (tags.overflows entries = true ∧ (writeAll entries).Stops bench) := by
  -- on the row, for all tags: a write that goes through leaves tags that overflow with the rest of
  -- the row just when the tags before it overflow with the whole row
  induction entries generalizing bench tags with
  | nil =>
      refine .inl ⟨?_, bench, rfl, rfl⟩
      cases tags <;> rfl
  | cons entry entries ih =>
      rcases Handle.write_of_tagsOrNew h hnew (htakes entry List.mem_cons_self) with
        ⟨event, handle, others, hwrite, hothers, hsame⟩ | ⟨n, total, handle, hwrite, hfits, hover⟩
      · let middle := { bench with handle := handle }.record event
        have hleft : leftBy (Handle.write entry.1 entry.2) bench.handle = handle :=
          leftBy_of_ok hwrite
        have hknown : handle.Known := hleft ▸ h.leftBy_write entry.1 entry.2
        have hmiddle : middle.handle.Known := hknown
        have hrest := ih hmiddle hothers fun other hother =>
          htakes other (List.mem_cons_of_mem entry hother)
        have hcons : writeAll (entry :: entries) bench = writeAll entries middle := by
          rw [writeAll_cons, bind_of_ok (write_eq_ok hwrite)]
        rw [Handle.rewritten_cons, hleft, ← hsame entries]
        simp only [Stops, hcons]
        exact hrest
      · let stopped := { bench with handle := handle }
        refine .inr ⟨hover entries, .pairOutOfRange n total, stopped, ?_, hfits⟩
        rw [writeAll_cons, bind_of_error (write_eq_error hwrite)]

theorem writeAll_of_untaggable {bench : Workbench} {failure : Failure}
    (htags : bench.handle.tags = none) (hnew : bench.handle.tagsOrNew = .error failure)
    (hreach : failure.reach ≠ .run) (entries : List (Field × Value)) :
    (writeAll entries).Passes bench bench.handle := by
  induction entries generalizing bench with
  | nil => exact passes_of_ok rfl rfl
  | cons entry entries ih =>
      rcases Handle.write_of_untaggable htags hnew entry.1 entry.2 with ⟨event, hwrite⟩ | hwrite
      · let middle := bench.record event
        have hcons : writeAll (entry :: entries) bench = writeAll entries middle := by
          rw [writeAll_cons, bind_of_ok (write_eq_ok hwrite)]
        have hrest : (writeAll entries).Passes middle middle.handle := ih htags hnew
        simp only [Passes, hcons]
        exact hrest
      · refine ⟨bench, rfl, .inr ⟨failure, ?_, hreach⟩⟩
        rw [writeAll_cons, bind_of_error (write_eq_error hwrite)]

end Job

namespace Handle

variable {handle : Handle}

theorem rewritten_of_untaggable {failure : Failure} (htags : handle.tags = none)
    (hnew : handle.tagsOrNew = .error failure) (entries : List (Field × Value)) :
    handle.rewritten entries = handle := by
  induction entries with
  | nil => rfl
  | cons entry entries ih =>
      have hleft : leftBy (write entry.1 entry.2) handle = handle := by
        rcases write_of_untaggable htags hnew entry.1 entry.2 with ⟨event, hwrite⟩ | hwrite
        · exact leftBy_of_ok hwrite
        · exact leftBy_of_error hwrite
      rw [rewritten_cons, hleft, ih]

theorem overflows_append (h : handle.Known) {entries : List (Field × Value)}
    (htakes : ∀ entry ∈ entries, entry.1.Takes entry.2) (others : List (Field × Value)) :
    handle.overflows (entries ++ others) =
      (handle.overflows entries || (handle.rewritten entries).overflows others) := by
  rcases h.tagsOrNew_cases with ⟨tags, hnew⟩ | ⟨htags, failure, hnew, -⟩
  · induction entries generalizing handle tags with
    | nil =>
        rw [overflows_nil, Bool.false_or]
        rfl
    | cons entry entries ih =>
        simp only [List.cons_append, overflows, hnew]
        rcases write_of_tagsOrNew h hnew (htakes entry List.mem_cons_self) with
          ⟨event, after, written, hwrite, hwritten, hsame⟩ | ⟨n, total, after, hwrite, hfits, hover⟩
        · have hleft : leftBy (write entry.1 entry.2) handle = after := leftBy_of_ok hwrite
          have hafter : after.Known := hleft ▸ h.leftBy_write entry.1 entry.2
          have hrest := ih hafter (fun other hother =>
            htakes other (List.mem_cons_of_mem entry hother)) written hwritten
          simp only [overflows, hwritten] at hrest
          rw [rewritten_cons, hleft, ← hsame, ← hsame, hrest]
        · rw [hover, hover, Bool.true_or]
  · rw [rewritten_of_untaggable htags hnew]
    simp only [overflows, hnew, Bool.or_self]

end Handle

/-- A row of writes passes or stops, and it stops just when it overflows. -/
theorem Job.writes_writeAll {bench : Workbench} (h : bench.handle.Known)
    {entries : List (Field × Value)} (htakes : ∀ entry ∈ entries, entry.1.Takes entry.2) :
    (writeAll entries).Writes entries bench := by
  rcases h.tagsOrNew_cases with ⟨tags, hnew⟩ | ⟨htags, failure, hnew, hreach⟩
  · simp only [Writes, Handle.overflows, hnew]
    rcases writeAll_of_tagsOrNew h hnew htakes with ⟨hfits, after, hafter, hhandle⟩ | hstops
    · exact .inl ⟨hfits, passes_of_ok hafter hhandle⟩
    · exact .inr hstops
  · left
    rw [Handle.rewritten_of_untaggable htags hnew]
    exact ⟨by simp only [Handle.overflows, hnew],
      writeAll_of_untaggable htags hnew (by rw [hreach]; decide) entries⟩

end LinerNotes
