import LinerNotes.Proofs.Confinement

/-!
Renaming by the same spec again. A renamed file keeps its extension and stays in its directory, so
the spec makes the name for it that it has already, and a second renaming finds nothing to do.
-/

namespace LinerNotes

theorem Tree.renameFile_name (tree : Tree) (path : String) (dryRun : Bool) :
    tree.renameFile path (Path.name path) dryRun =
      .ok ⟨tree, .alreadyNamed (Path.name path), path⟩ := by
  rw [renameFile, if_pos rfl]

theorem Tree.name_of_renameFile {tree : Tree} {source new : String} {dryRun : Bool}
    {renamed : Tree.Renamed} (h : tree.renameFile source new dryRun = .ok renamed)
    (hslash : '/' ∉ new.toList) : Path.name renamed.path = new := by
  rcases path_of_renameFile h with ⟨hname, hpath⟩ | hpath
  · rw [hpath, hname]
  · rw [hpath, (Path.directory_join source hslash).2]

namespace Spec

/-- A file with an extension that was renamed by a spec gets the name that it has now from the same
spec and values again, exactly if the spec's part of it is not just dots; and to rename it to the
name that it has leaves it and the whole tree as they are. -/
theorem renameFile_settles {spec : Spec} {hazard : Hazard} {lookUp : Field → Except Failure Value}
    {tree : Tree} {path name new : String} {dryRun : Bool} {renamed : Tree.Renamed}
    (hspec : ¬ spec.Brings '/') (hextension : Path.extension path ≠ "")
    (hrender : spec.render (some hazard) lookUp = .ok name)
    (hnew : spec.newName (some hazard) lookUp path = .ok new)
    (hrenamed : tree.renameFile path new dryRun = .ok renamed) :
    (spec.newName (some hazard) lookUp renamed.path = .ok (Path.name renamed.path) ↔
      ∃ c ∈ name.toList, c ≠ '.') ∧
    ∀ dryRun, renamed.tree.renameFile renamed.path (Path.name renamed.path) dryRun =
      .ok ⟨renamed.tree, .alreadyNamed (Path.name renamed.path), renamed.path⟩ := by
  refine ⟨?_, renamed.tree.renameFile_name renamed.path⟩
  have hslash := not_mem_newName hspec hnew
  rw [newName_of_render hrender, Except.ok.injEq] at hnew
  subst hnew
  have hname := Tree.name_of_renameFile hrenamed hslash
  have hkept : Path.extension renamed.path =
      if name.toList.all (· == '.') then "" else Path.extension path := by
    rw [String.toList_append, List.mem_append, not_or] at hslash
    rw [← Path.extension_name, hname, Path.extension_append_extension hextension hslash.1]
  rw [newName_of_render hrender, hname, hkept, Except.ok.injEq, String.append_right_inj]
  constructor
  · intro hsame
    by_contra hdots
    have hall : name.toList.all (· == '.') = true := by simpa using hdots
    rw [if_pos hall] at hsame
    exact hextension hsame.symm
  · rintro ⟨c, hc, hne⟩
    have hall : ¬ name.toList.all (· == '.') = true := fun hdots =>
      hne (by simpa using List.all_eq_true.mp hdots c hc)
    rw [if_neg hall]

/-- A title with dots at both ends and something that asks for another directory, on a file whose
path has a slash too many. -/
theorem renameFile_settles_dots :
    let file (name : String) : File := ⟨["music", name], some .mp3, none, ⟨none, none, none⟩⟩
    let tree : Tree := ⟨[["music"]], [file "x.y.mp3"]⟩
    let spec : Spec := ⟨"%T", [.placeholder ⟨.title, none, .preserve⟩]⟩
    let sheet := Sheet.ofEntries [(.title, .text "../..b.")]
    let after : Tree.Renamed := ⟨⟨[["music"]], [file "....b..mp3"]⟩,
      .renamed "music//x.y.mp3" "....b..mp3", "music/....b..mp3"⟩
    ¬ spec.Brings '/' ∧ Path.extension "music//x.y.mp3" = ".mp3" ∧
      spec.render (some .shell) sheet.lookUp = .ok "....b." ∧
      spec.newName (some .shell) sheet.lookUp "music//x.y.mp3" = .ok "....b..mp3" ∧
      tree.renameFile "music//x.y.mp3" "....b..mp3" false = .ok after ∧
      spec.newName (some .shell) sheet.lookUp "music/....b..mp3" = .ok "....b..mp3" ∧
      after.tree.renameFile "music/....b..mp3" "....b..mp3" false =
        .ok ⟨after.tree, .alreadyNamed "....b..mp3", "music/....b..mp3"⟩ := by
  intro file tree spec sheet after
  have hspec : ¬ spec.Brings '/' := by
    rintro (⟨text, htext, -⟩ | ⟨p, hp, hsubstitute⟩)
    · simp [spec] at htext
    · obtain rfl : p = ⟨.title, none, .preserve⟩ := by
        simpa [spec, placeholders, Token.placeholder?] using hp
      cases hsubstitute
  have hextension : Path.extension "music//x.y.mp3" = ".mp3" := by decide +kernel
  have hrender : spec.render (some .shell) sheet.lookUp = .ok "....b." := by decide +kernel
  have hnew : spec.newName (some .shell) sheet.lookUp "music//x.y.mp3" = .ok "....b..mp3" := by
    decide +kernel
  have hrenamed : tree.renameFile "music//x.y.mp3" "....b..mp3" false = .ok after := by
    decide +kernel
  obtain ⟨hagain, hsame⟩ :=
    renameFile_settles hspec (by rw [hextension]; decide) hrender hnew hrenamed
  have hname : Path.name after.path = "....b..mp3" := by decide +kernel
  rw [hname] at hagain hsame
  exact ⟨hspec, hextension, hrender, hnew, hrenamed, hagain.mpr ⟨'b', by decide, by decide⟩,
    hsame false⟩

end Spec

end LinerNotes
