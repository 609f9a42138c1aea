import LinerNotes.Proofs.Containers
import LinerNotes.Proofs.Entries
import LinerNotes.Workbench

/-!
Writing fields of an opened file. A row of writes acts on what the fields read as, whatever form the
tags have, and saving puts the tags in memory into the file.
-/

namespace LinerNotes

/-- What a field reads as after a row of writes, given what the fields read as before. -/
def readAfter (before : Field → Except Failure Value) (entries : List (Field × Value))
    (field : Field) : Except Failure Value :=
  match lastFor entries field with
  | some value => .ok (field.kept value)
  | none => before field

theorem readAfter_cons (before : Field → Except Failure Value) (entry : Field × Value)
    (entries : List (Field × Value)) :
    readAfter before (entry :: entries) =
      readAfter (fun other => if other = entry.1 then .ok (entry.1.kept entry.2) else before other)
        entries := by
  funext field
  simp only [readAfter, lastFor_cons]
  cases lastFor entries field with
  | some value => rfl
  | none =>
      by_cases h : entry.1 = field
      · subst h
        simp
      · simp [h, Ne.symm h]

namespace Container

theorem value_congr {tags others : Option Container} {field : Field}
    (h : (tags.bind fun tags => tags.get? field) = others.bind fun tags => tags.get? field) :
    value tags field = value others field := by
  simp only [value, h]

theorem value_eq_ok {tags : Option Container} {field : Field} {v : Value}
    (h : value tags field = .ok v) :
    field.valueOfTag (tags.bind fun tags => tags.get? field) = .ok v := by
  simp only [value, Failure.ofNumeral] at h
  cases hvalue : field.valueOfTag (tags.bind fun tags => tags.get? field) with
  | error cause => simp [hvalue, Except.mapError] at h
  | ok other =>
      simp only [hvalue, Except.mapError, Except.ok.injEq] at h
      rw [h]

theorem value_none (field : Field) : value none field = .ok field.emptyValue := by
  simp [value, Field.valueOfTag_none, Failure.ofNumeral, Except.mapError]

theorem value_clear {tags : Container} (hproper : tags.Proper) (field other : Field) :
    value (some (tags.clear field)) other =
      if other = field then .ok field.emptyValue else value (some tags) other := by
  split
  · rename_i h
    subst h
    rw [← value_none]
    exact value_congr (get?_clear hproper other)
  · rename_i hne
    exact value_congr (get?_clear_of_ne tags hne)

end Container

theorem Format.regular_noTags (format : Format) : format.noTags.Regular := by
  cases format with
  | mp3 =>
      intro frame hframe
      cases hframe
  | mp4 => simp [noTags, Container.Regular, Atoms.trackTotal, Atoms.data?]
  | _ => trivial

/-- Whether an opened file can take values: its tags are as a file can have them, or it has none and
can get some. -/
def Audio.Ready (audio : Audio) : Prop :=
  match audio.tags with
  | some tags => tags.Regular
  | none => audio.faults.tagging = none

namespace Handle

/-- Whether a handle is open and its file can take values. -/
def Ready (handle : Handle) : Prop :=
  ∃ audio, handle.audio = some audio ∧ audio.Ready

/-- The handle with the given tags in memory, or without any. -/
def setTags (handle : Handle) (tags : Option Container) : Handle :=
  { handle with audio := handle.audio.map fun audio => { audio with tags := tags } }

@[simp] theorem setTags_path (handle : Handle) (tags : Option Container) :
    (handle.setTags tags).path = handle.path := rfl

@[simp] theorem setTags_location (handle : Handle) (tags : Option Container) :
    (handle.setTags tags).location = handle.location := rfl

@[simp] theorem setTags_setTags (handle : Handle) (tags others : Option Container) :
    (handle.setTags tags).setTags others = handle.setTags others := by
  simp only [setTags, Option.map_map]
  rfl

theorem setTags_tags (handle : Handle) : handle.setTags handle.tags = handle := by
  obtain ⟨path, location, audio⟩ := handle
  cases audio with
  | none => rfl
  | some audio => rfl

theorem Ready.tags_setTags {handle : Handle} (hready : handle.Ready) (tags : Option Container) :
    (handle.setTags tags).tags = tags := by
  obtain ⟨audio, haudio, -⟩ := hready
  simp [setTags, Handle.tags, haudio]

theorem Ready.setTags {handle : Handle} (hready : handle.Ready) {tags : Container}
    (hregular : tags.Regular) : (handle.setTags (some tags)).Ready := by
  obtain ⟨audio, haudio, -⟩ := hready
  exact ⟨{ audio with tags := some tags }, by simp [Handle.setTags, haudio], hregular⟩

theorem Ready.regular {handle : Handle} (hready : handle.Ready) {tags : Container}
    (htags : handle.tags = some tags) : tags.Regular := by
  obtain ⟨audio, haudio, haudio'⟩ := hready
  simp only [Handle.tags, haudio, Option.bind_some] at htags
  simpa only [Audio.Ready, htags] using haudio'

theorem tagsOrNew_of_ready {handle : Handle} (hready : handle.Ready) :
    ∃ present, handle.tagsOrNew = .ok present ∧ present.Regular ∧
      ∀ field, Container.value (some present) field = handle.read field := by
  obtain ⟨⟨format, tags, faults⟩, haudio, haudio'⟩ := hready
  have htags : handle.tags = tags := by simp [Handle.tags, haudio]
  cases tags with
  | some tags => exact ⟨tags, by simp [tagsOrNew, haudio], haudio', fun _ => by rw [read, htags]⟩
  | none =>
      refine ⟨format.noTags, ?_, format.regular_noTags, fun field => ?_⟩
      · have htagging : faults.tagging = none := haudio'
        simp [tagsOrNew, haudio, htagging]
      · rw [read, htags]
        apply Container.value_congr
        cases format <;> cases field <;> rfl

theorem changed_of_stores {present : Container} (hregular : present.Regular) {field : Field}
    {value : Value} (hstores : field.Stores value) (hne : value.isEmpty = false) :
    ∃ after text, changed present field value = .ok (after, text) ∧ after.Regular ∧
      ∀ other, Container.value (some after) other =
        if other = field then .ok value else Container.value (some present) other := by
  obtain ⟨content, hcontent, hback⟩ := hstores.content hne
  obtain ⟨after, hput, hafter, hsame, hother⟩ :=
    Container.put_of_stores hregular hstores hne hcontent
  refine ⟨after, content.shown, ?_, hafter, fun other => ?_⟩
  · simp [changed, hcontent, hput, Failure.ofNumeral, Except.mapError, bind, Except.bind, pure,
      Except.pure]
  · split
    · rename_i h
      subst h
      simp [Container.value, hsame, hback, Failure.ofNumeral, Except.mapError]
    · rename_i h
      exact Container.value_congr (hother other h)

theorem cleared_of_ready {handle : Handle} (hready : handle.Ready) (field : Field) :
    ∃ tags, handle.cleared field = handle.setTags tags ∧ (handle.setTags tags).Ready ∧
      ∀ other, (handle.setTags tags).read other =
        if other = field then .ok field.emptyValue else handle.read other := by
  cases htags : handle.tags with
  | none =>
      have hsame : handle.setTags none = handle := by rw [← htags, setTags_tags]
      refine ⟨none, by simp only [cleared, htags, hsame], by rw [hsame]; exact hready,
        fun other => ?_⟩
      simp only [read, hready.tags_setTags, htags, Container.value_none]
      split
      · rename_i h
        rw [h]
      · rfl
  | some tags =>
      have hregular := hready.regular htags
      refine ⟨some (tags.clear field), by rw [cleared, htags]; rfl,
        hready.setTags (hregular.clear field), fun other => ?_⟩
      simp only [read, hready.tags_setTags, htags]
      exact Container.value_clear hregular.proper field other

theorem write_of_stores {handle : Handle} (hready : handle.Ready) {field : Field} {value : Value}
    (hstores : field.Stores value) :
    ∃ event tags, write field value handle = .ok event (handle.setTags tags) ∧
      (handle.setTags tags).Ready ∧ ∀ other, (handle.setTags tags).read other =
        if other = field then .ok (field.kept value) else handle.read other := by
  cases hempty : value.isEmpty with
  | true =>
      obtain ⟨tags, hcleared, hafter, hread⟩ := cleared_of_ready hready field
      refine ⟨.cleared handle.path field, tags, ?_, hafter, fun other => ?_⟩
      · simp only [write, hempty, if_true, hcleared]
      · simp only [hread, Field.kept, hempty, if_true]
  | false =>
      obtain ⟨present, hpresent, hregular, hvalue⟩ := tagsOrNew_of_ready hready
      obtain ⟨after, text, hchanged, hafter, hread⟩ := changed_of_stores hregular hstores hempty
      refine ⟨.wrote handle.path field text, some after, ?_, hready.setTags hafter,
        fun other => ?_⟩
      · simp only [write, hempty, hpresent, hchanged, Bool.false_eq_true, if_false]
        rfl
      · have hvalues := hread other
        rw [hvalue] at hvalues
        rw [read, hready.tags_setTags, hvalues]
        simp only [Field.kept, hempty, Bool.false_eq_true, if_false]

end Handle

namespace Job

theorem bind_of_ok {α β : Type} {work : Job α} {next : α → Job β} {bench after : Workbench} {a : α}
    (h : work bench = .ok a after) : (work >>= next) bench = next a after := by
  simp only [bind, EStateM.bind, h]

theorem bind_of_error {α β : Type} {work : Job α} {next : α → Job β} {bench after : Workbench}
    {failure : Failure} (h : work bench = .error failure after) :
    (work >>= next) bench = .error failure after := by
  simp only [bind, EStateM.bind, h]

theorem ofExcept_eq_ok {α : Type} {result : Except Failure α} {a : α} (h : result = .ok a)
    (bench : Workbench) : ofExcept result bench = .ok a bench := by
  rw [h]
  rfl

theorem ofExcept_eq_error {α : Type} {result : Except Failure α} {failure : Failure}
    (h : result = .error failure) (bench : Workbench) :
    ofExcept result bench = .error failure bench := by
  rw [h]
  rfl

end Job

namespace Job

theorem write_of_stores {bench : Workbench} (hready : bench.handle.Ready) {field : Field}
    {value : Value} (hstores : field.Stores value) :
    ∃ event tags, write field value bench =
        .ok () { bench with
          handle := bench.handle.setTags tags, events := bench.events ++ [event] } ∧
      (bench.handle.setTags tags).Ready ∧ ∀ other, (bench.handle.setTags tags).read other =
        if other = field then .ok (field.kept value) else bench.handle.read other := by
  obtain ⟨event, tags, hwrite, hafter, hread⟩ := Handle.write_of_stores hready hstores
  refine ⟨event, tags, ?_, hafter, hread⟩
  have hhandle : onHandle (Handle.write field value) bench =
      .ok event { bench with handle := bench.handle.setTags tags } := by
    simp only [onHandle, hwrite]
  rw [write, bind_of_ok hhandle]
  rfl

/-- A row of writes goes through, and every field reads as its last write left it. -/
theorem writeAll_of_stores {bench : Workbench} (hready : bench.handle.Ready)
    {entries : List (Field × Value)} (hstores : ∀ entry ∈ entries, entry.1.Stores entry.2) :
    ∃ events tags, writeAll entries bench =
        .ok () { bench with
          handle := bench.handle.setTags tags, events := bench.events ++ events } ∧
      (bench.handle.setTags tags).Ready ∧
      ∀ field, (bench.handle.setTags tags).read field =
        readAfter bench.handle.read entries field := by
  induction entries generalizing bench with
  | nil =>
      refine ⟨[], bench.handle.tags, ?_, ?_, ?_⟩
      · simp only [Handle.setTags_tags, List.append_nil]
        rfl
      · rw [Handle.setTags_tags]
        exact hready
      · rw [Handle.setTags_tags]
        exact fun _ => rfl
  | cons entry entries ih =>
      obtain ⟨event, next, hwrite, hnext, hread⟩ :=
        write_of_stores hready (hstores entry List.mem_cons_self)
      let middle : Workbench :=
        { bench with handle := bench.handle.setTags next, events := bench.events ++ [event] }
      have hmiddle : middle.handle.Ready := hnext
      obtain ⟨more, after, hrest, hafter, hlast⟩ :=
        ih hmiddle fun other hother => hstores other (List.mem_cons_of_mem entry hother)
      simp only [middle, Handle.setTags_setTags, List.append_assoc] at hrest hafter hlast
      refine ⟨event :: more, after, ?_, hafter, fun field => ?_⟩
      · have hcons : writeAll (entry :: entries) =
            write entry.1 entry.2 >>= fun _ => writeAll entries := List.forM_cons
        rw [hcons, bind_of_ok hwrite, hrest]
        rfl
      · rw [hlast, readAfter_cons]
        congr 1
        funext other
        exact hread other

theorem save_eq {bench : Workbench} {tags : Option Container}
    (htags : bench.handle.toSave = .ok tags) :
    save bench = .ok () ⟨bench.tree.store bench.handle.location tags, bench.handle,
      bench.events ++ [.saved bench.handle.path], bench.saves + 1, bench.renames⟩ := by
  have hget : (get : Job Workbench) bench = .ok bench bench := rfl
  rw [save, bind_of_ok hget, bind_of_ok (ofExcept_eq_ok htags bench)]
  rfl

theorem save_eq_error {bench : Workbench} {failure : Failure}
    (htags : bench.handle.toSave = .error failure) : save bench = .error failure bench := by
  have hget : (get : Job Workbench) bench = .ok bench bench := rfl
  rw [save, bind_of_ok hget, bind_of_error (ofExcept_eq_error htags bench)]

theorem of_save_eq_ok {bench saved : Workbench} (h : save bench = .ok () saved) :
    ∃ tags, bench.handle.toSave = .ok tags ∧
      saved.tree = bench.tree.store bench.handle.location tags := by
  cases htags : bench.handle.toSave with
  | ok tags =>
      rw [save_eq htags] at h
      cases h
      exact ⟨tags, rfl, rfl⟩
  | error failure =>
      rw [save_eq_error htags] at h
      cases h

end Job

namespace Handle

theorem eq_of_toSave {handle : Handle} {tags : Option Container} (h : handle.toSave = .ok tags) :
    tags = handle.tags := by
  unfold toSave at h
  split at h
  · cases h
  · split at h
    · cases h
    · rename_i audio haudio
      split at h
      · cases h
        simp [Handle.tags, haudio]
      · cases h
      · cases h
      · cases h

end Handle

end LinerNotes
