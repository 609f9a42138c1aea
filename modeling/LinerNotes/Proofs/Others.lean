import LinerNotes.Proofs.Overflow

/-!
What changes of an opened file leave alone. Its tags hold entries of the fields and others that the
program knows nothing of. Changing some fields changes their own entries; all others keep their
keys, their values and their order, and a track keeps the total beside it until it is cleared.
-/

namespace LinerNotes

section Entries

variable {fields : List Field} {field : Field} (hfield : field ∈ fields)

namespace Comments

/-- Whether the key of a comment is that of none of the fields. -/
def isOther (fields : List Field) (comment : String × String) : Bool :=
  fields.all fun field => !belongs field comment

include hfield

theorem isOther_of_belongs {comment : String × String} (h : belongs field comment = true) :
    isOther fields comment = false := by
  rw [isOther, List.all_eq_false]
  exact ⟨field, hfield, by simp [h]⟩

theorem filter_clear (comments : Comments) :
    (comments.clear field).filter (isOther fields) = comments.filter (isOther fields) :=
  Keyed.filter_filter_other comments fun _ => isOther_of_belongs hfield

theorem filter_put (comments : Comments) (text : String) :
    (comments.put field text).filter (isOther fields) = comments.filter (isOther fields) := by
  have hown : isOther fields (key field, text) = false :=
    isOther_of_belongs hfield (by simp [belongs])
  rw [put, List.filter_append, filter_clear hfield comments]
  simp [hown]

end Comments

namespace Frames

/-- Whether a frame has an identifier that is none of the fields'. No identifier holds a colon. -/
def isOther (fields : List Field) (frame : Frame) : Bool :=
  !frame.id.toList.contains ':' && fields.all fun field => frame.id != id field

include hfield

theorem isOther_of_concerns {frame : Frame} (h : concerns (id field) frame = true) :
    isOther fields frame = false := by
  rw [Bool.eq_false_iff]
  intro hother
  simp only [isOther, Bool.and_eq_true, Bool.not_eq_true', List.contains_eq_mem,
    decide_eq_false_iff_not, List.all_eq_true, bne_iff_ne] at hother
  obtain ⟨hcolon, hids⟩ := hother
  apply hids field hfield
  by_cases hid : frame.id = Frame.commentId
  · rw [eq_of_concerns h (concerns_of_commentId hid)]
    exact hid
  · have hkey : frame.key = frame.id := by simp [Frame.key, hid]
    simp only [concerns, Frame.isUnder, hkey, Bool.or_eq_true, beq_iff_eq,
      List.isPrefixOf_iff_prefix] at h
    rcases h with hsame | hunder
    · exact hsame
    · exact absurd (hunder.subset (by simp [String.toList_append])) hcolon

theorem filter_clear (frames : Frames) :
    (frames.clear field).filter (isOther fields) = frames.filter (isOther fields) := by
  unfold clear without
  split
  · apply Keyed.filter_filter_other frames
    intro frame hkey
    exact isOther_of_concerns hfield (by simp [concerns, hkey])
  · apply Keyed.filter_filter_other frames
    intro frame hunder
    exact isOther_of_concerns hfield (by simp [concerns, hunder])

theorem filter_put (frames : Frames) (content : Content) :
    (frames.put field content).filter (isOther fields) = frames.filter (isOther fields) := by
  have hown := isOther_of_concerns hfield (concerns_frameFor field content)
  rw [put_eq, List.filter_append, filter_clear hfield frames]
  simp [hown]

end Frames

namespace Atoms

/-- Whether the key of an atom is that of none of the fields. -/
def isOther (fields : List Field) (atom : String × AtomData) : Bool :=
  fields.all fun field => atom.1 != key field

include hfield

theorem isOther_of_key {atom : String × AtomData} (h : (atom.1 == key field) = true) :
    isOther fields atom = false := by
  rw [isOther, List.all_eq_false]
  exact ⟨field, hfield, by simp [bne, h]⟩

theorem filter_clear (atoms : Atoms) :
    (atoms.clear field).filter (isOther fields) = atoms.filter (isOther fields) :=
  Keyed.filter_filter_other atoms fun _ => isOther_of_key hfield

theorem filter_put {atoms after : Atoms} {content : Content}
    (h : atoms.put field content = .ok after) :
    after.filter (isOther fields) = atoms.filter (isOther fields) := by
  unfold put at h
  cases hdata : atoms.dataFor field content with
  | error failure =>
      rw [hdata] at h
      cases h
  | ok data =>
      rw [hdata] at h
      cases h
      exact Keyed.filter_put_other atoms (isOther_of_key hfield (by simp))
        fun _ => isOther_of_key hfield

end Atoms

namespace Items

/-- Whether the key of an item is that of none of the fields. -/
def isOther (fields : List Field) (item : String × String) : Bool :=
  fields.all fun field => !belongs field item

include hfield

theorem isOther_of_belongs {item : String × String} (h : belongs field item = true) :
    isOther fields item = false := by
  rw [isOther, List.all_eq_false]
  exact ⟨field, hfield, by simp [h]⟩

theorem filter_clear (items : Items) :
    (items.clear field).filter (isOther fields) = items.filter (isOther fields) :=
  Keyed.filter_filter_other items fun _ => isOther_of_belongs hfield

theorem filter_put (items : Items) (text : String) :
    (items.put field text).filter (isOther fields) = items.filter (isOther fields) :=
  Keyed.filter_put_other items (isOther_of_belongs hfield (belongs_key field text))
    fun _ => isOther_of_belongs hfield

end Items

namespace Container

/-- The entries of tags that belong to none of the fields. -/
def others (fields : List Field) : Container → Container
  | .comments entries => .comments (entries.filter (Comments.isOther fields))
  | .frames entries => .frames (entries.filter (Frames.isOther fields))
  | .atoms entries => .atoms (entries.filter (Atoms.isOther fields))
  | .items entries => .items (entries.filter (Items.isOther fields))

include hfield

theorem others_clear (tags : Container) :
    (tags.clear field).others fields = tags.others fields := by
  cases tags with
  | comments entries => exact congrArg comments (Comments.filter_clear hfield entries)
  | frames entries => exact congrArg frames (Frames.filter_clear hfield entries)
  | atoms entries => exact congrArg atoms (Atoms.filter_clear hfield entries)
  | items entries => exact congrArg items (Items.filter_clear hfield entries)

theorem others_put {tags after : Container} {content : Content}
    (h : tags.put field content = .ok after) : after.others fields = tags.others fields := by
  cases tags with
  | comments entries =>
      cases h
      exact congrArg comments (Comments.filter_put hfield entries content.shown)
  | frames entries =>
      cases h
      exact congrArg frames (Frames.filter_put hfield entries content)
  | atoms entries =>
      simp only [put] at h
      cases hput : entries.put field content with
      | error failure =>
          rw [hput] at h
          cases h
      | ok others =>
          rw [hput] at h
          cases h
          exact congrArg atoms (Atoms.filter_put hfield hput)
  | items entries =>
      cases h
      exact congrArg items (Items.filter_put hfield entries content.shown)

end Container

end Entries

namespace Container

/-- The total that stands beside the track. Only atoms have one. -/
def trackTotal : Container → Int
  | .atoms entries => entries.trackTotal
  | _ => 0

theorem trackTotal_clear (tags : Container) {field : Field} (hne : field ≠ .track) :
    (tags.clear field).trackTotal = tags.trackTotal := by
  cases tags with
  | atoms entries =>
      have hdata := Atoms.data?_clear_of_ne entries hne.symm
      simp [clear, trackTotal, Atoms.trackTotal, hdata]
  | _ => rfl

theorem trackTotal_put {tags after : Container} {field : Field} {value : Value} {content : Content}
    (hcontent : field.content value = .ok content) (h : tags.put field content = .ok after) :
    after.trackTotal = tags.trackTotal := by
  cases tags with
  | atoms entries =>
      simp only [put] at h
      cases hput : entries.put field content with
      | error failure =>
          rw [hput] at h
          cases h
      | ok others =>
          rw [hput] at h
          cases h
          obtain ⟨data, hdata, hsame, hother⟩ := Atoms.data?_put hput
          by_cases hfield : field = .track
          · subst hfield
            obtain ⟨n, -, rfl⟩ := Field.content_track hcontent
            rw [Atoms.dataFor_track_eq] at hdata
            split at hdata
            · cases hdata
              simp [trackTotal, Atoms.trackTotal, hsame, AtomData.total]
            · cases hdata
          · simp [trackTotal, Atoms.trackTotal, hother .track (Ne.symm hfield)]
  | _ =>
      cases h
      rfl

end Container

namespace Handle

/-- The tags in memory, where a file that has none yet counts as one with empty tags. -/
def content (handle : Handle) : Option Container :=
  handle.audio.map fun audio => audio.tags.getD audio.format.noTags

theorem content_withTags {handle : Handle} {tags : Container} (h : handle.content = some tags)
    (others : Container) : (handle.withTags others).content = some others := by
  simp only [content, Option.map_eq_some_iff] at h
  obtain ⟨audio, haudio, -⟩ := h
  simp [content, withTags, haudio]

theorem content_of_tags {handle : Handle} {tags : Container} (h : handle.tags = some tags) :
    handle.content = some tags := by
  simp only [Handle.tags, Option.bind_eq_some_iff] at h
  obtain ⟨audio, haudio, htags⟩ := h
  simp [content, haudio, htags]

theorem content_of_tagsOrNew {handle : Handle} {tags : Container}
    (h : handle.tagsOrNew = .ok tags) : handle.content = some tags := by
  unfold tagsOrNew at h
  split at h
  · cases h
  · rename_i audio haudio
    split at h
    · rename_i htags
      cases h
      simp [content, haudio, htags]
    · rename_i htags _
      cases h
      simp [content, haudio, htags]
    · cases h
    · cases h
    · cases h

theorem changed_eq_ok {tags after : Container} {field : Field} {value : Value} {text : String}
    (h : changed tags field value = .ok (after, text)) :
    ∃ content, field.content value = .ok content ∧ tags.put field content = .ok after := by
  unfold changed at h
  cases hcontent : field.content value with
  | error cause =>
      rw [hcontent] at h
      cases h
  | ok content =>
      rw [hcontent] at h
      refine ⟨content, rfl, ?_⟩
      change (tags.put field content).bind _ = _ at h
      cases hput : tags.put field content with
      | error failure =>
          rw [hput] at h
          cases h
      | ok others =>
          rw [hput] at h
          cases h
          rfl

/-- What a write leaves in memory, also one that fails: the tags as they were, without the field, or
with a new value for it. -/
theorem content_write (field : Field) (value : Value) (handle : Handle) :
    (leftBy (write field value) handle).content = handle.content ∨
    ∃ tags after, handle.content = some tags ∧
      (leftBy (write field value) handle).content = some after ∧
      ((value.isEmpty = true ∧ after = tags.clear field) ∨
        ∃ content, field.content value = .ok content ∧ tags.put field content = .ok after) := by
  unfold leftBy write
  cases hempty : value.isEmpty with
  | true =>
      simp only [if_true, cleared]
      cases htags : handle.tags with
      | none => exact .inl rfl
      | some tags =>
          have hcontent := content_of_tags htags
          exact .inr ⟨tags, tags.clear field, hcontent, content_withTags hcontent _,
            .inl ⟨trivial, rfl⟩⟩
  | false =>
      simp only [Bool.false_eq_true, if_false]
      cases hnew : handle.tagsOrNew with
      | error failure => exact .inl rfl
      | ok tags =>
          have hcontent := content_of_tagsOrNew hnew
          simp only
          cases hchanged : changed tags field value with
          | error failure => exact .inl ((content_withTags hcontent tags).trans hcontent.symm)
          | ok written =>
              exact .inr ⟨tags, written.1, hcontent, content_withTags hcontent _,
                .inr (changed_eq_ok hchanged)⟩

/-- The entries in memory that belong to none of the fields. -/
def others (handle : Handle) (fields : List Field) : Option Container :=
  handle.content.map (Container.others fields)

/-- The total in memory that stands beside the track. -/
def trackTotal (handle : Handle) : Option Int :=
  handle.content.map Container.trackTotal

theorem others_write {fields : List Field} {field : Field} (hfield : field ∈ fields) (value : Value)
    (handle : Handle) :
    (leftBy (write field value) handle).others fields = handle.others fields := by
  rcases content_write field value handle with hsame | ⟨tags, after, htags, hafter, hchange⟩
  · rw [others, hsame, others]
  · rw [others, others, htags, hafter, Option.map_some, Option.map_some]
    rcases hchange with ⟨-, rfl⟩ | ⟨content, -, hput⟩
    · rw [Container.others_clear hfield]
    · rw [Container.others_put hfield hput]

theorem trackTotal_write {field : Field} {value : Value}
    (hkept : field = .track → value.isEmpty = false) (handle : Handle) :
    (leftBy (write field value) handle).trackTotal = handle.trackTotal := by
  rcases content_write field value handle with hsame | ⟨tags, after, htags, hafter, hchange⟩
  · rw [trackTotal, hsame, trackTotal]
  · rw [trackTotal, trackTotal, htags, hafter, Option.map_some, Option.map_some]
    rcases hchange with ⟨hempty, rfl⟩ | ⟨content, hcontent, hput⟩
    · have hne : field ≠ .track := by
        intro htrack
        rw [hkept htrack] at hempty
        cases hempty
      rw [Container.trackTotal_clear tags hne]
    · rw [Container.trackTotal_put hcontent hput]

theorem others_rewritten {fields : List Field} {entries : List (Field × Value)}
    (hfields : ∀ entry ∈ entries, entry.1 ∈ fields) (handle : Handle) :
    (handle.rewritten entries).others fields = handle.others fields := by
  induction entries generalizing handle with
  | nil => rfl
  | cons entry entries ih =>
      have hrest := fun other hother => hfields other (List.mem_cons_of_mem entry hother)
      rw [rewritten_cons, ih hrest, others_write (hfields entry List.mem_cons_self)]

theorem trackTotal_rewritten {entries : List (Field × Value)}
    (hkept : ∀ entry ∈ entries, entry.1 = .track → entry.2.isEmpty = false) (handle : Handle) :
    (handle.rewritten entries).trackTotal = handle.trackTotal := by
  induction entries generalizing handle with
  | nil => rfl
  | cons entry entries ih =>
      have hrest := fun other hother => hkept other (List.mem_cons_of_mem entry hother)
      rw [rewritten_cons, ih hrest, trackTotal_write (hkept entry List.mem_cons_self)]

end Handle

namespace Job

theorem handle_leftBy_write (field : Field) (value : Value) (bench : Workbench) :
    (leftBy (write field value) bench).handle = leftBy (Handle.write field value) bench.handle := by
  cases h : Handle.write field value bench.handle with
  | ok event handle => rw [leftBy_of_ok (write_eq_ok h), leftBy_of_ok h]; rfl
  | error failure handle => rw [leftBy_of_error (write_eq_error h), leftBy_of_error h]

theorem handle_leftBy_writeAll (entries : List (Field × Value)) (bench : Workbench) :
    ∃ done, done <+: entries ∧
      (leftBy (writeAll entries) bench).handle = bench.handle.rewritten done := by
  induction entries generalizing bench with
  | nil => exact ⟨[], List.prefix_refl [], rfl⟩
  | cons entry entries ih =>
      have hwrite := handle_leftBy_write entry.1 entry.2 bench
      rw [writeAll_cons, leftBy_bind]
      cases h : write entry.1 entry.2 bench with
      | ok _ middle =>
          obtain ⟨done, hdone, hhandle⟩ := ih middle
          refine ⟨entry :: done, List.cons_prefix_cons.mpr ⟨rfl, hdone⟩, ?_⟩
          rw [leftBy_of_ok h] at hwrite
          rw [Handle.rewritten_cons, ← hwrite]
          exact hhandle
      | error failure middle =>
          refine ⟨[entry], by simp, ?_⟩
          rw [leftBy_of_error h] at hwrite
          exact hwrite

end Job

/-- A change of an opened file. -/
inductive Change where
  | write (field : Field) (value : Value)
  /-- the values that a name gives by a spec -/
  | extract (spec : Spec) (name : String)
  | edit (edits : List Edit)
deriving DecidableEq

namespace Change

def perform : Change → Job Unit
  | .write field value => Job.write field value
  | .extract spec name => do
      let _ ← Job.extract spec name
  | .edit edits => Job.edit edits

/-- The fields that a change touches, with the values it has for them. -/
def entries : Change → List (Field × Value)
  | .write field value => [(field, value)]
  | .extract spec name =>
      match spec.extract name with
      | .ok (some entries) => entries
      | _ => []
  | .edit edits => edits.map Edit.entry

/-- The workbench after one change after the other, each from what the last one left. -/
def performAll (changes : List Change) (bench : Workbench) : Workbench :=
  changes.foldl (fun bench change => leftBy change.perform bench) bench

theorem handle_perform (change : Change) (bench : Workbench) :
    ∃ done, done <+: change.entries ∧
      (leftBy change.perform bench).handle = bench.handle.rewritten done := by
  cases change with
  | write field value =>
      exact ⟨[(field, value)], List.prefix_refl _, Job.handle_leftBy_write field value bench⟩
  | edit edits => exact Job.handle_leftBy_writeAll (edits.map Edit.entry) bench
  | extract spec name =>
      have hleft :
          leftBy (perform (extract spec name)) bench = leftBy (Job.extract spec name) bench :=
        leftBy_map _ _ bench
      rw [hleft, entries]
      cases hextract : spec.extract name with
      | error cause =>
          have hfails := Job.extract_of_error hextract bench
          exact ⟨[], List.nil_prefix, by rw [leftBy_of_error hfails]; rfl⟩
      | ok values =>
          cases values with
          | none =>
              refine ⟨[], List.nil_prefix, ?_⟩
              rw [leftBy_of_ok (Job.extract_of_none hextract bench)]
              rfl
          | some values =>
              have hwrites : leftBy (Job.extract spec name) bench =
                  leftBy (Job.writeAll values) bench := by
                rw [Job.extract, hextract]
                exact leftBy_map (Job.writeAll values) (fun _ => true) bench
              rw [hwrites]
              exact Job.handle_leftBy_writeAll values bench

theorem handle_performAll (changes : List Change) (bench : Workbench) :
    ∃ done, done.Sublist (changes.flatMap entries) ∧
      (performAll changes bench).handle = bench.handle.rewritten done := by
  induction changes generalizing bench with
  | nil => exact ⟨[], List.Sublist.refl [], rfl⟩
  | cons change changes ih =>
      obtain ⟨first, hfirst, hperform⟩ := change.handle_perform bench
      obtain ⟨rest, hrest, hlast⟩ := ih (leftBy change.perform bench)
      refine ⟨first ++ rest, hfirst.sublist.append hrest, ?_⟩
      rw [Handle.rewritten_append, ← hperform]
      exact hlast

/-- Changes one after the other, of which any may fail half-way, keep all entries of fields that
they do not touch, with their values and in their order. Unless they clear the track, its total
stays. -/
theorem performAll_keeps_others (changes : List Change) (bench : Workbench) :
    (performAll changes bench).handle.others ((changes.flatMap entries).map Prod.fst) =
      bench.handle.others ((changes.flatMap entries).map Prod.fst) ∧
    ((∀ value, (.track, value) ∈ changes.flatMap entries → value.isEmpty = false) →
      (performAll changes bench).handle.trackTotal = bench.handle.trackTotal) := by
  obtain ⟨done, hdone, hhandle⟩ := handle_performAll changes bench
  rw [hhandle]
  constructor
  · apply Handle.others_rewritten
    intro entry hentry
    exact List.mem_map_of_mem (hdone.subset hentry)
  · intro hkept
    apply Handle.trackTotal_rewritten
    rintro ⟨field, value⟩ hentry rfl
    exact hkept value (hdone.subset hentry)

theorem performAll_keeps_others_pair :
    ∃ changes bench,
      bench.handle.content = some (.atoms [("\u00a9too", .texts ["x", "y"]),
        ("trkn", .pairs [(3, 12)]), ("\u00a9alb", .texts ["A"]), ("aART", .texts ["B"]),
        ("\u00a9nam", .texts ["Water"]), ("cpil", .texts [])]) ∧
      (performAll changes bench).handle.content = some (.atoms [("\u00a9too", .texts ["x", "y"]),
        ("trkn", .pairs [(7, 12)]), ("aART", .texts ["B"]), ("\u00a9nam", .texts ["Fire"]),
        ("cpil", .texts []), ("\u00a9gen", .texts ["Folk"])]) ∧
      (performAll changes bench).handle.others
          [.track, .title, .album, .track, .title, .genre] =
        some (.atoms [("\u00a9too", .texts ["x", "y"]), ("aART", .texts ["B"]),
          ("cpil", .texts [])]) ∧
      (performAll changes bench).handle.trackTotal = some 12 := by
  let spec : Spec := ⟨"%n %T", [.placeholder ⟨.track, none, .preserve⟩, .literal [' '],
    .placeholder ⟨.title, none, .preserve⟩]⟩
  let changes : List Change := [.extract spec "07 Fire",
    .edit [.clear .album, .assign .track (.number 70000), .assign .title (.text "Ice")],
    .write .genre (.text "Folk")]
  let atoms : Atoms := [("\u00a9too", .texts ["x", "y"]), ("trkn", .pairs [(3, 12)]),
    ("\u00a9alb", .texts ["A"]), ("aART", .texts ["B"]), ("\u00a9nam", .texts ["Water"]),
    ("cpil", .texts [])]
  let handle : Handle := ⟨"a.m4a", ["a.m4a"], some ⟨.mp4, some (.atoms atoms), ⟨none, none, none⟩⟩⟩
  let bench := Workbench.start ⟨[], []⟩ handle (.opened "a.m4a" .mp4)
  obtain ⟨hothers, htotal⟩ := performAll_keeps_others changes bench
  have hkept : ∀ entry ∈ changes.flatMap entries, entry.1 = .track → entry.2.isEmpty = false := by
    decide +kernel
  refine ⟨changes, bench, rfl, by decide +kernel, hothers.trans (by decide +kernel), ?_⟩
  exact (htotal fun value hmem => hkept _ hmem rfl).trans (by decide +kernel)

end Change

end LinerNotes
