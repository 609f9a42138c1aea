import LinerNotes.Proofs.Overflow

/-!
How a step ends a run. With known faults, a step that reads and writes what its fields take passes,
unless it writes a pair that atoms cannot hold, reads a track with too many digits, or renames to a
name with the null character.
-/

namespace LinerNotes

namespace Handle

/-- Whether the track in memory begins with more digits than a numeral may have. -/
def Overlong (handle : Handle) : Prop :=
  ∃ text, handle.tags.bind (fun tags => tags.get? .track) = some text ∧ Numeral.digitLimit <
    ((text.toList.dropWhile Text.isBlank).takeWhile Text.isDecimalDigit).length

theorem read_of_ne_track (handle : Handle) {field : Field} (hne : field ≠ .track) :
    ∃ value, handle.read field = .ok value := by
  cases field <;> first | exact absurd rfl hne | exact ⟨_, rfl⟩

theorem read_track_cases (handle : Handle) :
    (¬ handle.Overlong ∧ ∃ value, handle.read .track = .ok value) ∨
    (handle.Overlong ∧ ∃ count, Numeral.digitLimit < count ∧
      handle.read .track = .error (.numeral (.tooManyDigits count))) := by
  unfold Overlong read Container.value
  cases handle.tags.bind fun tags => tags.get? .track with
  | none => exact .inl ⟨by simp, _, rfl⟩
  | some text =>
      simp only [Option.some.injEq, exists_eq_left', Field.valueOfTag, Option.getD_some,
        Numeral.leading]
      split
      · rename_i hlong
        exact .inr ⟨hlong, _, hlong, rfl⟩
      · rename_i hshort
        exact .inl ⟨hshort, _, rfl⟩

theorem overlong_of_read (handle : Handle) {field : Field} {failure : Failure}
    (h : handle.read field = .error failure) :
    field = .track ∧ handle.Overlong ∧ failure.EndsRun := by
  have hfield : field = .track := by
    refine Decidable.byContradiction fun hne => ?_
    obtain ⟨value, hvalue⟩ := handle.read_of_ne_track hne
    rw [hvalue] at h
    cases h
  subst hfield
  rcases handle.read_track_cases with ⟨-, value, hvalue⟩ | ⟨hlong, count, hcount, hfails⟩
  · rw [hvalue] at h
    cases h
  · rw [hfails] at h
    cases h
    exact ⟨rfl, hlong, hcount⟩

end Handle

/-- Whether a name cannot be made because of the track. -/
def Spec.Misses (spec : Spec) (handle : Handle) : Prop :=
  (∃ p ∈ spec.placeholders, p.field = .track) ∧ handle.Overlong

namespace Spec

theorem fieldText_read (handle : Handle) {field : Field} {failure : Failure}
    (h : fieldText handle.read field = .error failure) : handle.read field = .error failure := by
  cases hvalue : handle.read field with
  | error other =>
      rw [fieldText, fieldValue, hvalue] at h
      cases h
      rfl
  | ok value =>
      obtain ⟨hkind, hlength⟩ := Field.holds_of_valueOfTag (Container.value_eq_ok hvalue)
      rw [fieldText_of_holds hvalue hkind hlength] at h
      cases h

/-- Only a track with too many digits keeps a spec from making a name. -/
theorem newName_cases (spec : Spec) (hazard : Option Hazard) (handle : Handle) (path : String) :
    (¬ spec.Misses handle ∧ ∃ name, spec.newName hazard handle.read path = .ok name) ∨
    (spec.Misses handle ∧
      ∃ failure, spec.newName hazard handle.read path = .error failure ∧ failure.EndsRun) := by
  cases hrender : spec.render hazard handle.read with
  | ok name =>
      refine .inl ⟨?_, name ++ Path.extension path, newName_of_render hrender path⟩
      rintro ⟨⟨p, hp, hfield⟩, hlong⟩
      obtain ⟨text, htext, -⟩ := render_eq_ok hrender
      obtain ⟨value, hvalue, -⟩ := fieldText_eq_ok_iff.mp (htext p hp)
      rw [hfield] at hvalue
      rcases handle.read_track_cases with ⟨hshort, -⟩ | ⟨-, count, -, hfails⟩
      · exact hshort hlong
      · rw [hfails] at hvalue
        cases hvalue
  | error failure =>
      obtain ⟨p, hp, htext⟩ := exists_of_render_eq_error hrender
      obtain ⟨hfield, hlong, hends⟩ := handle.overlong_of_read (fieldText_read handle htext)
      exact .inr ⟨⟨⟨p, hp, hfield⟩, hlong⟩, failure, by rw [newName, hrender]; rfl, hends⟩

end Spec

namespace Tree

variable {tree : Tree} {source name : String}

theorem hasNul_eq_false_iff {path : String} : hasNul path = false ↔ '\x00' ∉ path.toList := by
  simp [hasNul]

theorem hasNul_join_iff (hsource : hasNul source = false) :
    hasNul (Path.join (Path.directory source) name) = false ↔ '\x00' ∉ name.toList := by
  rw [hasNul_eq_false_iff] at hsource ⊢
  constructor
  · intro htarget hmem
    exact htarget (Path.mem_join hmem)
  · intro hname hmem
    rcases Path.mem_of_mem_join hmem with hdirectory | hslash | hname'
    · exact hsource (Path.mem_of_mem_directory hdirectory)
    · exact absurd hslash (by decide)
    · exact hname hname'

theorem renameFile_of_nul (hsource : hasNul source = false) (hname : '\x00' ∈ name.toList) :
    tree.renameFile source name false = .error .nulInPath := by
  have htarget : hasNul (Path.join (Path.directory source) name) = true := by
    refine Bool.eq_true_of_not_eq_false fun hfree => ?_
    exact (hasNul_join_iff hsource).mp hfree hname
  have hne : Path.name source ≠ name := by
    rintro rfl
    exact hasNul_eq_false_iff.mp hsource (Path.mem_of_mem_name hname)
  have hexists : tree.pathExists (Path.join (Path.directory source) name) = false := by
    simp [pathExists, file?, directory?, htarget]
  simp [renameFile, hne, hexists, rename, htarget, Except.map]

theorem reach_of_renameFile {dryRun : Bool} {failure : Failure} (hsource : hasNul source = false)
    (hname : dryRun = true ∨ '\x00' ∉ name.toList)
    (h : tree.renameFile source name dryRun = .error failure) : failure.reach ≠ .run := by
  simp only [renameFile] at h
  split at h
  · cases h
  split at h
  · cases h
    simp [Failure.reach]
  split at h
  · cases h
  rename_i hdry
  have htarget := (hasNul_join_iff hsource).mpr (hname.resolve_left hdry)
  simp only [rename, hsource, htarget, Bool.or_self, Bool.false_eq_true, if_false] at h
  split at h
  · cases h
  · cases h
    simp [Failure.reach]

end Tree

theorem Failure.EndsRun.reach {failure : Failure} (h : failure.EndsRun) : failure.reach = .run := by
  cases failure <;> first | rfl | exact h.elim

namespace Job

variable {α β : Type} {work : Job α} {next : α → Job β} {bench : Workbench} {handle : Handle}
  {entries : List (Field × Value)}

theorem Passes.bind (h : work.Passes bench handle)
    (hnext : ∀ a after, after.handle = handle → (next a).Passes after handle) :
    Passes (work >>= next) bench handle := by
  obtain ⟨middle, hhandle, ⟨a, hwork⟩ | ⟨failure, hwork, hreach⟩⟩ := h
  · obtain ⟨after, hafter, hresult⟩ := hnext a middle hhandle
    have hbind : (work >>= next) bench = next a middle := bind_of_ok hwork
    exact ⟨after, hafter, by rwa [hbind]⟩
  · exact ⟨middle, hhandle, .inr ⟨failure, bind_of_error hwork, hreach⟩⟩

theorem Stops.bind (h : work.Stops bench) : Stops (work >>= next) bench := by
  obtain ⟨failure, after, hwork, hends⟩ := h
  exact ⟨failure, after, bind_of_error hwork, hends⟩

theorem Writes.bind (h : work.Writes entries bench)
    (hnext : ∀ a after, after.handle = bench.handle.rewritten entries →
      (next a).Passes after after.handle) : Writes (work >>= next) entries bench := by
  rcases h with ⟨hfits, hpasses⟩ | ⟨hover, hstops⟩
  · exact .inl ⟨hfits, hpasses.bind fun a after hhandle => hhandle ▸ hnext a after hhandle⟩
  · exact .inr ⟨hover, hstops.bind⟩

theorem Writes.of_ok {a : α} {after : Workbench} (hwork : work bench = .ok a after)
    (hhandle : after.handle = bench.handle) (h : (next a).Writes entries after) :
    Writes (work >>= next) entries bench := by
  have hbind : (work >>= next) bench = next a after := bind_of_ok hwork
  simp only [Writes, Passes, Stops, hbind, ← hhandle]
  exact h

theorem writes_nil (hpasses : work.Passes bench bench.handle) : work.Writes [] bench :=
  .inl ⟨bench.handle.overflows_nil, hpasses⟩

end Job

theorem Handle.Known.toSave_cases {handle : Handle} (h : handle.Known) :
    (∃ tags, handle.toSave = .ok tags) ∨
      ∃ failure, handle.toSave = .error failure ∧ failure.reach ≠ .run := by
  obtain ⟨⟨format, tags, faults⟩, haudio, hfaults⟩ := h
  unfold toSave
  split
  · exact .inr ⟨.saveRefused handle.path, rfl, by simp [Failure.reach]⟩
  · simp only [haudio]
    cases hsaving : faults.saving with
    | none => exact .inl ⟨tags, rfl⟩
    | some fault =>
        have hknown := hfaults.saving fault hsaving
        cases fault with
        | codec text => exact .inr ⟨_, rfl, by simp [Failure.reach]⟩
        | system text => exact .inr ⟨_, rfl, by simp [Failure.reach]⟩
        | _ => exact hknown.elim

namespace Step

variable {options : Options} {bench : Workbench} {path : String}

/-- The values that a step writes into the file at a path. -/
def entries (path : String) : Step → List (Field × Value)
  | .extract spec =>
      match spec.extract (Path.stem path) with
      | .ok (some entries) => entries
      | _ => []
  | .edit edits => edits.map Edit.entry
  | .rename _ => []

theorem saveUnlessDry_passes (h : bench.handle.Known) (dryRun : Bool) :
    (saveUnlessDry dryRun).Passes bench bench.handle := by
  cases dryRun with
  | true =>
      have hlog : saveUnlessDry true bench =
          .ok () (bench.record (.wouldSave bench.handle.path)) := rfl
      exact Job.passes_of_ok hlog rfl
  | false =>
      rcases h.toSave_cases with ⟨tags, htags⟩ | ⟨failure, hfails, hreach⟩
      · exact Job.passes_of_ok (Job.save_eq htags) rfl
      · exact ⟨bench, rfl, .inr ⟨failure, Job.save_eq_error hfails, hreach⟩⟩

theorem writes_edit (h : bench.handle.Known) {edits : List Edit}
    (htakes : ∀ entry ∈ edits.map Edit.entry, entry.1.Takes entry.2) :
    (perform options (.edit edits)).Writes (edits.map Edit.entry) bench := by
  obtain ⟨descriptions, hdescriptions⟩ := Edit.descriptions_of_written fun edit hedit =>
    (htakes edit.entry (List.mem_map_of_mem hedit)).written
  let logged := bench.record (.applying descriptions bench.handle.path)
  have hlogged : logged.handle.Known := h
  have hannounce := Job.announce_of_ok hdescriptions bench.handle.path bench
  have hwrites : (Job.edit edits).Writes (edits.map Edit.entry) logged :=
    Job.writes_writeAll hlogged htakes
  refine Job.Writes.of_ok (Job.get_eq bench) rfl ?_
  refine Job.Writes.of_ok hannounce rfl (hwrites.bind fun _ after hhandle => ?_)
  refine saveUnlessDry_passes ?_ options.dryRun
  rw [hhandle]
  exact h.rewritten (edits.map Edit.entry)

theorem writes_extract (h : bench.handle.Known) {spec : Spec}
    {entries? : Option (List (Field × Value))}
    (hextract : spec.extract (Path.stem bench.handle.path) = .ok entries?) :
    (perform options (.extract spec)).Writes (entries bench.handle.path (.extract spec)) bench := by
  let stem := Path.stem bench.handle.path
  have hread : Failure.ofNumeral (spec.extract stem) = .ok entries? := by
    rw [hextract]
    rfl
  have hextracts : (Job.extract spec stem).Writes (entries bench.handle.path (.extract spec))
      bench := by
    refine Job.Writes.of_ok (Job.ofExcept_eq_ok hread bench) rfl ?_
    simp only [entries, hextract]
    cases entries? with
    | some entries =>
        refine (Job.writes_writeAll h (Spec.takes_of_extract hextract)).bind fun _ after _ => ?_
        exact Job.passes_of_ok rfl rfl
    | none =>
        have hlog : (Job.log (.noMatch stem spec.source) >>= fun _ => pure false) bench =
            .ok false (bench.record (.noMatch stem spec.source)) := rfl
        exact Job.writes_nil (Job.passes_of_ok hlog rfl)
  refine Job.Writes.of_ok (Job.get_eq bench) rfl (hextracts.bind fun fits after hhandle => ?_)
  cases fits with
  | true =>
      refine saveUnlessDry_passes ?_ options.dryRun
      rw [hhandle]
      exact h.rewritten _
  | false =>
      exact ⟨after, rfl,
        .inr ⟨.mismatch bench.handle.path spec.source, rfl, by simp [Failure.reach]⟩⟩

theorem attempt_of_passes {step : Step} {handle : Handle}
    (h : (step.perform options).Passes bench handle) :
    ∃ fine after, step.attempt options bench = .ok fine after ∧ after.handle = handle := by
  obtain ⟨after, hhandle, ⟨_, hwork⟩ | ⟨failure, hwork, hreach⟩⟩ := h
  · exact ⟨true, after, attempt_of_ok hwork, hhandle⟩
  · obtain ⟨event, hattempt⟩ := attempt_of_error hwork hreach
    exact ⟨false, after.record event, hattempt, hhandle⟩

theorem attempt_of_stops {step : Step} (h : (step.perform options).Stops bench) :
    (step.attempt options).Stops bench := by
  obtain ⟨failure, after, hwork, hends⟩ := h
  have hreport : failure.report? after.handle.path = none := by
    simp only [Failure.report?, hends.reach]
  exact ⟨failure, after, by simp only [attempt, hwork, hreport], hends⟩

/-- Steps that write are all taken, unless what they write overflows. -/
theorem attemptAll_cases {steps : List Step} (h : bench.handle.Known)
    (hpath : bench.handle.path = path)
    (htakes : ∀ step ∈ steps, ∀ entry ∈ step.entries path, entry.1.Takes entry.2)
    (hwrites : ∀ step ∈ steps, ∀ bench : Workbench, bench.handle.Known → bench.handle.path = path →
      (step.perform options).Writes (step.entries path) bench) :
    (bench.handle.overflows (steps.flatMap (entries path)) = false ∧
      ∃ fine after, attemptAll options steps bench = .ok fine after ∧
        after.handle = bench.handle.rewritten (steps.flatMap (entries path))) ∨
    (bench.handle.overflows (steps.flatMap (entries path)) = true ∧
      (attemptAll options steps).Stops bench) := by
  -- a step that fails for the file alone does not keep the next ones from being taken, so the
  -- workbench may be any that a step leaves
  induction steps generalizing bench with
  | nil =>
      exact .inl ⟨bench.handle.overflows_nil, true, bench, rfl, rfl⟩
  | cons step steps ih =>
      have htakes' := htakes step List.mem_cons_self
      rw [List.flatMap_cons, Handle.overflows_append h htakes', Handle.rewritten_append]
      rcases hwrites step List.mem_cons_self bench h hpath with ⟨hfits, hpasses⟩ | ⟨hover, hstops⟩
      · obtain ⟨fine, middle, hattempt, hhandle⟩ := attempt_of_passes hpasses
        have hmiddle : middle.handle.Known := by
          rw [hhandle]
          exact h.rewritten _
        have hpath' : middle.handle.path = path := by
          rw [hhandle, Handle.rewritten_path, hpath]
        have hrest := ih hmiddle hpath'
          (fun other hother => htakes other (List.mem_cons_of_mem step hother))
          (fun other hother => hwrites other (List.mem_cons_of_mem step hother))
        rw [hfits, Bool.false_or, ← hhandle]
        rcases hrest with ⟨hfits', fine', after, hafter, hhandle'⟩ |
          ⟨hover', failure, after, hfails, hends⟩
        · refine .inl ⟨hfits', fine && fine', after, ?_, hhandle'⟩
          rw [attemptAll, Job.bind_of_ok hattempt, Job.bind_of_ok hafter]
          rfl
        · refine .inr ⟨hover', failure, after, ?_, hends⟩
          rw [attemptAll, Job.bind_of_ok hattempt, Job.bind_of_error hfails]
      · rw [hover, Bool.true_or]
        exact .inr ⟨rfl, (attempt_of_stops hstops).bind⟩

/-- Whether a step is a renaming that ends the run: the new name cannot be made, or it holds the
null character and is not only tried. -/
def Halts (options : Options) (handle : Handle) : Step → Prop
  | .rename spec => spec.Misses handle ∨ options.dryRun = false ∧ ∃ name,
      spec.newName (some options.hazard) handle.read handle.path = .ok name ∧ '\x00' ∈ name.toList
  | _ => False

theorem attempt_rename_cases {spec : Spec} (hnul : Tree.hasNul bench.handle.path = false) :
    (¬ Halts options bench.handle (.rename spec) ∧
      ∃ fine after, attempt options (.rename spec) bench = .ok fine after) ∨
    (Halts options bench.handle (.rename spec) ∧ (attempt options (.rename spec)).Stops bench) := by
  rcases spec.newName_cases (some options.hazard) bench.handle bench.handle.path with
    ⟨hmakes, name, hname⟩ | ⟨hmisses, failure, hfails, hends⟩
  · have hperform := perform_rename_of_ok hname
    by_cases hstops : options.dryRun = false ∧ '\x00' ∈ name.toList
    · obtain ⟨hdry, hmem⟩ := hstops
      refine .inr ⟨.inr ⟨hdry, name, hname, hmem⟩,
        attempt_of_stops ⟨.nulInPath, bench, ?_, trivial⟩⟩
      rw [hperform, hdry]
      exact Job.rename_of_error (Tree.renameFile_of_nul hnul hmem)
    · left
      constructor
      · rintro (hmisses | ⟨hdry, other, hother, hmem⟩)
        · exact hmakes hmisses
        · rw [hname] at hother
          cases hother
          exact hstops ⟨hdry, hmem⟩
      · cases hrenamed : bench.tree.renameFile bench.handle.path name options.dryRun with
        | ok renamed =>
            obtain ⟨after, hafter, -⟩ := Job.rename_of_ok hrenamed
            exact ⟨true, after, attempt_of_ok (hperform.trans hafter)⟩
        | error failure =>
            have hreach := Tree.reach_of_renameFile hnul (by
              cases hdry : options.dryRun with
              | true => exact .inl rfl
              | false => exact .inr fun hmem => hstops ⟨hdry, hmem⟩) hrenamed
            obtain ⟨event, hattempt⟩ :=
              attempt_of_error (hperform.trans (Job.rename_of_error hrenamed)) hreach
            exact ⟨false, bench.record event, hattempt⟩
  · exact .inr ⟨.inl hmisses,
      attempt_of_stops ⟨failure, bench, perform_rename_of_error hfails, hends⟩⟩

end Step

end LinerNotes
