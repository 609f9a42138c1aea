import LinerNotes.Proofs.Places
import LinerNotes.Proofs.Writing

/-!
An opened file behaves like a sheet with one entry for each field, in memory and after it has been
saved and opened again. What its fields read as does not depend on the form of its tags.
-/

namespace LinerNotes

namespace Handle

theorem openAt_eq_ok {tree : Tree} {path : String} {handle : Handle} {opened : Event}
    (h : openAt tree path = .ok (handle, opened)) :
    ∃ file format, tree.file? path = some file ∧ file.faults.opening = none ∧
      file.format = some format ∧ opened = .opened path format ∧
      handle = ⟨path, file.location, some ⟨format, file.tags, file.faults⟩⟩ := by
  unfold openAt at h
  cases hfile : tree.file? path with
  | none => simp [hfile] at h
  | some file =>
      simp only [hfile, ofFile] at h
      split at h
      · cases h
      · cases h
      · cases h
      rename_i hopening
      split at h
      · cases h
      rename_i format hformat
      simp only [Except.ok.injEq, Prod.mk.injEq] at h
      exact ⟨file, format, rfl, hopening, hformat, h.2.symm, h.1.symm⟩

theorem openAt_of_file? {tree : Tree} {path : String} {file : File} {format : Format}
    (hfile : tree.file? path = some file) (hopening : file.faults.opening = none)
    (hformat : file.format = some format) :
    openAt tree path = .ok (⟨path, file.location, some ⟨format, file.tags, file.faults⟩⟩,
      .opened path format) := by
  simp only [openAt, hfile, ofFile, hopening, hformat]

theorem kept_of_read {handle : Handle} {field : Field} {value : Value}
    (h : handle.read field = .ok value) : field.kept value = value :=
  Field.kept_of_valueOfTag (Container.value_eq_ok h)

theorem reopen_of_save {tree : Tree} {path : String} {handle : Handle} {opened : Event}
    (hopen : openAt tree path = .ok (handle, opened)) (tags : Option Container) :
    openAt (tree.store handle.location tags) path = .ok (handle.setTags tags, opened) := by
  obtain ⟨file, format, hfile, hopening, hformat, rfl, rfl⟩ := openAt_eq_ok hopen
  exact openAt_of_file? (Tree.file?_store hfile tags) hopening hformat

end Handle

theorem readAfter_eq_edit {handle : Handle} {sheet : Sheet}
    (hsheet : ∀ field, handle.read field = .ok (sheet field)) (edits : List Edit) (field : Field) :
    readAfter handle.read (edits.map Edit.entry) field =
      .ok (field.kept (sheet.edit edits field)) := by
  rw [readAfter, Sheet.edit, Sheet.setAll_apply]
  cases lastFor (edits.map Edit.entry) field with
  | some value => rfl
  | none => rw [Option.getD_none, Handle.kept_of_read (hsheet field), hsheet]

/-- Edits of an opened file act on it as on a plain map: every field reads as its last edit left it,
or as before. Saving and opening the file again changes nothing about that, a sheet in memory that
gets the same edits agrees, and so does any other file that read the same before, whatever the form
of its tags. -/
theorem Job.edit_refines_sheet {tree : Tree} {path : String} {handle : Handle} {opened : Event}
    (hopen : Handle.openAt tree path = .ok (handle, opened)) (hready : handle.Ready)
    {edits : List Edit} (hstores : ∀ edit ∈ edits, edit.entry.1.Stores edit.entry.2) :
    ∃ bench, Job.edit edits (Workbench.start tree handle opened) = .ok () bench ∧
      (∀ field, bench.handle.read field =
        readAfter handle.read (edits.map Edit.entry) field) ∧
      (∀ saved, Job.save bench = .ok () saved →
        ∃ again, Handle.openAt saved.tree path = .ok (again, opened) ∧
          ∀ field, again.read field = readAfter handle.read (edits.map Edit.entry) field) ∧
      (∀ sheet : Sheet, (∀ field, handle.read field = .ok (sheet field)) →
        ∀ field, bench.handle.read field = .ok (field.kept (sheet.edit edits field))) ∧
      (∀ tree' handle' opened', handle'.Ready → handle'.read = handle.read →
        ∃ bench', Job.edit edits (Workbench.start tree' handle' opened') = .ok () bench' ∧
          bench'.handle.read = bench.handle.read) := by
  have hentries : ∀ entry ∈ edits.map Edit.entry, entry.1.Stores entry.2 :=
    List.forall_mem_map.mpr hstores
  have hrun : ∀ (tree : Tree) (handle : Handle) (opened : Event), handle.Ready →
      ∃ events tags, Job.edit edits (Workbench.start tree handle opened) =
          .ok () ⟨tree, handle.setTags tags, opened :: events, 0, 0⟩ ∧
        ∀ field, (handle.setTags tags).read field =
          readAfter handle.read (edits.map Edit.entry) field := by
    intro tree handle opened hready
    have hstart : (Workbench.start tree handle opened).handle.Ready := hready
    obtain ⟨events, tags, hwrites, -, hread⟩ := writeAll_of_stores hstart hentries
    exact ⟨events, tags, hwrites, hread⟩
  obtain ⟨events, tags, hedit, hread⟩ := hrun tree handle opened hready
  refine ⟨_, hedit, hread, ?_, ?_, ?_⟩
  · intro saved hsaved
    obtain ⟨stored, hstored, htree⟩ := of_save_eq_ok hsaved
    have htags : stored = tags := by
      rw [Handle.eq_of_toSave hstored, hready.tags_setTags]
    rw [htree, htags]
    exact ⟨handle.setTags tags, Handle.reopen_of_save hopen tags, hread⟩
  · intro sheet hsheet field
    rw [hread, readAfter_eq_edit hsheet]
  · intro tree' handle' opened' hready' hsame
    obtain ⟨events', tags', hedit', hread'⟩ := hrun tree' handle' opened' hready'
    refine ⟨_, hedit', ?_⟩
    funext field
    rw [hread', hread, hsame]

theorem Job.edit_refines_sheet_frames :
    ∃ tree handle opened bench,
      Handle.openAt tree "a.mp3" = .ok (handle, opened) ∧
      handle.tags = some (.frames [⟨"COMM", "old", "eng", ["first"]⟩, ⟨"TRCK", "", "", ["3/12"]⟩,
        ⟨"TDRC", "", "", ["2004-05-01"]⟩]) ∧
      handle.Ready ∧
      Job.edit [.assign .comment (.text "second"), .assign .track (.number 5), .clear .title]
        (Workbench.start tree handle opened) = .ok () bench ∧
      bench.handle.read .comment = .ok (.text "second") ∧
      bench.handle.read .track = .ok (.number 5) ∧
      bench.handle.read .title = .ok .absent ∧
      bench.handle.read .year = .ok (.number 2004) := by
  let frames : Frames := [⟨"COMM", "old", "eng", ["first"]⟩, ⟨"TRCK", "", "", ["3/12"]⟩,
    ⟨"TDRC", "", "", ["2004-05-01"]⟩]
  let tree : Tree := ⟨[], [⟨["a.mp3"], some .mp3, some (.frames frames), ⟨none, none, none⟩⟩]⟩
  let handle : Handle :=
    ⟨"a.mp3", ["a.mp3"], some ⟨.mp3, some (.frames frames), ⟨none, none, none⟩⟩⟩
  let edits : List Edit :=
    [.assign .comment (.text "second"), .assign .track (.number 5), .clear .title]
  have hopen : Handle.openAt tree "a.mp3" = .ok (handle, .opened "a.mp3" .mp3) := by decide +kernel
  have hproper : frames.Proper := by
    unfold Frames.Proper
    decide +kernel
  have hready : handle.Ready := ⟨_, rfl, hproper⟩
  have hstores : ∀ edit ∈ edits, edit.entry.1.Stores edit.entry.2 := by decide +kernel
  obtain ⟨bench, hrun, hread, -⟩ := Job.edit_refines_sheet hopen hready hstores
  refine ⟨tree, handle, _, bench, hopen, rfl, hready, hrun, ?_, ?_, ?_, ?_⟩
  all_goals
    rw [hread]
    decide +kernel

end LinerNotes
