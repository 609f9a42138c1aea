import LinerNotes.Tags.Frames

/-!
Which frames a field reads and writes. The identifier of a field stands at the front of the key of
each of its frames, so no frame is read for two fields.
-/

namespace LinerNotes.Frames

open LinerNotes.Text

/-- Whether a frame can be held under an identifier. -/
def concerns (id : String) (frame : Frame) : Bool :=
  frame.key == id || Frame.isUnder id frame

/-- Whether the identifiers of all frames are free of colons, as those of a tag always are. -/
def Proper (frames : Frames) : Prop :=
  ∀ frame ∈ frames, ':' ∉ frame.id.toList

theorem id_isPrefix_of_concerns {field : Field} {frame : Frame}
    (h : concerns (id field) frame = true) : (id field).toList <+: frame.key.toList := by
  simp only [concerns, Bool.or_eq_true, beq_iff_eq, Frame.isUnder, List.isPrefixOf_iff_prefix] at h
  rcases h with heq | hunder
  · simp [heq]
  · rw [String.toList_append] at hunder
    exact (List.prefix_append _ _).trans hunder

theorem eq_of_concerns {field other : Field} {frame : Frame}
    (h : concerns (id field) frame = true) (h' : concerns (id other) frame = true) :
    field = other := by
  have hids : ∀ f ∈ Field.all, ∀ g ∈ Field.all, (id f).toList.length = (id g).toList.length ∧
      ((id f).toList = (id g).toList → f = g) := by decide +kernel
  obtain ⟨hlength, hinj⟩ := hids field (Field.mem_all field) other (Field.mem_all other)
  have hfront := List.prefix_of_prefix_length_le (id_isPrefix_of_concerns h)
    (id_isPrefix_of_concerns h') (Nat.le_of_eq hlength)
  exact hinj (hfront.eq_of_length hlength)

theorem concerns_of_ne {field other : Field} (hne : other ≠ field) (frame : Frame)
    (h : concerns (id field) frame = true) : concerns (id other) frame = false := by
  rw [Bool.eq_false_iff]
  intro h'
  exact hne (eq_of_concerns h' h)

theorem held_filter {id : String} {keep : Frame → Bool} (frames : Frames)
    (h : ∀ frame, concerns id frame = true → keep frame = true) :
    held (frames.filter keep) id = held frames id := by
  have hexact : (frames.filter keep).find? (fun frame => frame.key == id) =
      frames.find? fun frame => frame.key == id := by
    rw [List.find?_filter]
    congr 1
    funext frame
    cases hkey : frame.key == id with
    | false => simp
    | true => simp [h frame (by simp [concerns, hkey])]
  have hunder : (frames.filter keep).filter (Frame.isUnder id) =
      frames.filter (Frame.isUnder id) := by
    rw [List.filter_filter]
    congr 1
    funext frame
    cases hframe : Frame.isUnder id frame with
    | false => simp
    | true => simp [h frame (by simp [concerns, hframe])]
  simp only [held, hexact, hunder]

theorem held_concat {id : String} {frame : Frame} (frames : Frames)
    (h : concerns id frame = false) : held (frames ++ [frame]) id = held frames id := by
  simp only [concerns, Bool.or_eq_false_iff] at h
  have hexact : (frames ++ [frame]).find? (fun other => other.key == id) =
      frames.find? fun other => other.key == id := by
    simp [List.find?_append, h.1]
  have hunder : (frames ++ [frame]).filter (Frame.isUnder id) =
      frames.filter (Frame.isUnder id) := by
    simp [List.filter_append, h.2]
  simp only [held, hexact, hunder]

theorem held_clear_of_ne (frames : Frames) {field other : Field} (hne : other ≠ field) :
    held (frames.clear field) (id other) = held frames (id other) := by
  have hother : ∀ frame, concerns (id other) frame = true → concerns (id field) frame = false :=
    concerns_of_ne hne.symm
  simp only [concerns, Bool.or_eq_false_iff] at hother
  unfold clear without
  split
  · apply held_filter
    intro frame hframe
    simp [bne, (hother frame hframe).1]
  · apply held_filter
    intro frame hframe
    simp [(hother frame hframe).2]

theorem mem_of_mem_clear {frames : Frames} {field : Field} {frame : Frame}
    (h : frame ∈ frames.clear field) : frame ∈ frames := by
  unfold clear without at h
  split at h
  · exact (List.mem_filter.mp h).1
  · exact (List.mem_filter.mp h).1

theorem key_ne_commentId (frame : Frame) : frame.key ≠ Frame.commentId := by
  intro h
  unfold Frame.key at h
  split at h
  · rename_i hid
    have hlength := congrArg (fun s => s.toList.length) h
    simp only [hid, String.toList_append, List.length_append] at hlength
    have hcolon : ":".toList.length = 1 := rfl
    omega
  · rename_i hid
    exact hid h

theorem concerns_of_commentId {frame : Frame} (h : frame.id = Frame.commentId) :
    concerns (id .comment) frame = true := by
  have hkey : frame.key.toList =
      (id .comment ++ ":").toList ++ (frame.desc ++ ":" ++ frame.lang).toList := by
    simp [Frame.key, h, id, String.toList_append]
  simp [concerns, Frame.isUnder, hkey]

theorem concerns_frameFor (field : Field) (content : Content) :
    concerns (id field) (frameFor field content) = true := by
  cases field <;> simp [concerns, frameFor, Frame.make, Frame.key, Frame.isUnder, id,
    Frame.commentId, Frame.timeId]

theorem find?_commentId (frames : Frames) :
    frames.find? (fun frame => frame.key == Frame.commentId) = none := by
  rw [List.find?_eq_none]
  intro frame _
  simp [key_ne_commentId frame]

theorem clear_comment (frames : Frames) :
    frames.clear .comment = frames.filter fun frame => !Frame.isUnder Frame.commentId frame := by
  have hnone : frames.any (fun frame => frame.key == Frame.commentId) = false := by
    simp [key_ne_commentId]
  have hid : id .comment = Frame.commentId := rfl
  simp [clear, without, hid, hnone]

theorem key_frameFor {field : Field} (content : Content) (hne : field ≠ .comment) :
    (frameFor field content).key = id field := by
  cases field <;> first | exact absurd rfl hne | rfl

theorem isUnder_frameFor (content : Content) :
    Frame.isUnder Frame.commentId (frameFor .comment content) = true := by
  have hconcerns := concerns_frameFor .comment content
  have hid : id .comment = Frame.commentId := rfl
  simpa [concerns, hid, key_ne_commentId] using hconcerns

theorem find?_clear (frames : Frames) (field : Field) :
    (frames.clear field).find? (fun frame => frame.key == id field) = none := by
  rw [List.find?_eq_none]
  intro frame hframe
  unfold clear without at hframe
  split at hframe
  · simpa [bne] using (List.mem_filter.mp hframe).2
  · rename_i hnone
    simp only [List.any_eq_true, not_exists, not_and] at hnone
    exact hnone frame (List.mem_filter.mp hframe).1

theorem put_eq (frames : Frames) (field : Field) (content : Content) :
    frames.put field content = frames.clear field ++ [frameFor field content] := by
  apply Keyed.put_of_forall_not
  intro frame hframe
  by_cases hcomment : field = .comment
  · subst hcomment
    rw [clear_comment, List.mem_filter] at hframe
    rw [beq_eq_false_iff_ne]
    intro hkey
    have hunder : Frame.isUnder Frame.commentId frame = true := by
      have hnew := isUnder_frameFor content
      simpa only [Frame.isUnder, hkey] using hnew
    simp [hunder] at hframe
  · rw [key_frameFor content hcomment]
    simpa using List.find?_eq_none.mp (find?_clear frames field) frame hframe

theorem held_put_of_ne (frames : Frames) {field other : Field} (content : Content)
    (hne : other ≠ field) :
    held (frames.put field content) (id other) = held frames (id other) := by
  rw [put_eq, held_concat _ (concerns_of_ne hne _ (concerns_frameFor field content)),
    held_clear_of_ne frames hne]

theorem held_put (frames : Frames) (field : Field) (content : Content) :
    held (frames.put field content) (id field) = [frameFor field content] := by
  rw [put_eq]
  by_cases hcomment : field = .comment
  · subst hcomment
    have hid : id .comment = Frame.commentId := rfl
    have hnone : (frames.clear .comment).filter (Frame.isUnder Frame.commentId) = [] := by
      rw [clear_comment, List.filter_filter, List.filter_eq_nil_iff]
      simp
    simp only [held, hid, find?_commentId, List.filter_append, hnone]
    simp [isUnder_frameFor content]
  · simp [held, List.find?_append, find?_clear frames field, key_frameFor content hcomment]

theorem not_isUnder_of_proper {field : Field} {frame : Frame} (hcomment : field ≠ .comment)
    (hcolon : ':' ∉ frame.id.toList) : Frame.isUnder (id field) frame = false := by
  rw [Bool.eq_false_iff]
  intro hunder
  by_cases hid : frame.id = Frame.commentId
  · exact hcomment (eq_of_concerns (by simp [concerns, hunder]) (concerns_of_commentId hid))
  · have hkey : frame.key = frame.id := by simp [Frame.key, hid]
    rw [Frame.isUnder, List.isPrefixOf_iff_prefix, hkey] at hunder
    have hmem : ':' ∈ (id field ++ ":").toList := by simp [String.toList_append]
    exact hcolon (hunder.subset hmem)

/-- Once the frames of a field are cleared, none is held: identifiers hold no colon, so only comment
frames have keys that go on after the identifier. -/
theorem held_clear {frames : Frames} (hproper : frames.Proper) (field : Field) :
    held (frames.clear field) (id field) = [] := by
  by_cases hcomment : field = .comment
  · subst hcomment
    have hid : id .comment = Frame.commentId := rfl
    simp only [held, hid, find?_commentId]
    rw [clear_comment, List.filter_filter, List.filter_eq_nil_iff]
    simp
  · simp only [held, find?_clear frames field]
    rw [List.filter_eq_nil_iff]
    intro frame hframe
    simp [not_isUnder_of_proper hcomment (hproper frame (mem_of_mem_clear hframe))]

theorem get?_put (frames : Frames) (field : Field) (content : Content) :
    (frames.put field content).get? field = (frameFor field content).texts.head? := by
  have hdesc : (frameFor field content).desc = "" := rfl
  simp [get?, held_put, hdesc]

theorem get?_of_held_eq {frames others : Frames} {field : Field}
    (h : held frames (id field) = held others (id field)) :
    frames.get? field = others.get? field := by
  simp only [get?, h]

end LinerNotes.Frames
