import LinerNotes.Proofs.Refusal
import LinerNotes.Proofs.Rehearsal
import LinerNotes.Proofs.Waiting

/-!
What a search finds once a batch has renamed files. A new name goes before the old extension, but a
name that is nothing but dots there has no extension any more, and its file is not found again.
Every other renamed file is, as long as the system follows its path.
-/

namespace LinerNotes

open LinerNotes.Text

namespace Path

theorem names_dropSlashes (path : List Char) :
    names (path.reverse.dropWhile (· == '/')).reverse = names path := by
  induction path using List.reverseRecOn with
  | nil => rfl
  | append_singleton path c ih =>
      rw [List.reverse_append, List.reverse_singleton, List.singleton_append]
      by_cases hc : c = '/'
      · subst hc
        rw [List.dropWhile_cons_of_pos (by simp), ih, names_append]
        simp [names, pieces]
      · rw [List.dropWhile_cons_of_neg (by simpa using hc)]
        simp

theorem names_eq_concat {path : List Char} (hhead : path.head? ≠ some '/')
    (hname : nameChars path ≠ []) :
    names path = names (directoryChars path) ++ [String.ofList (nameChars path)] := by
  cases hcut : cutLast '/' path with
  | none =>
      have hwhole : nameChars path = path := by rw [nameChars, hcut]
      have hnone : directoryChars path = [] := by rw [directoryChars, hcut]
      rw [hwhole] at hname
      rw [hwhole, hnone, names_of_not_mem hname (not_mem_of_cutLast hcut)]
      rfl
  | some parts =>
      obtain ⟨before, name⟩ := parts
      have hpath := eq_of_cutLast hcut
      have hlast : nameChars path = name := by rw [nameChars, hcut]
      have hslashes : ¬ before.all (· == '/') = true := by
        intro hall
        cases before with
        | nil => simp [hpath] at hhead
        | cons c before =>
            simp only [List.all_cons, Bool.and_eq_true, beq_iff_eq] at hall
            simp [hpath, hall.1] at hhead
      have hbefore : directoryChars path = (before.reverse.dropWhile (· == '/')).reverse := by
        simp only [directoryChars, hcut, if_neg hslashes]
      rw [hlast] at hname
      rw [hlast, hbefore, names_dropSlashes, hpath, names_append,
        names_of_not_mem hname (not_mem_after_of_cutLast hcut)]

end Path

namespace Tree

theorem pathOf_concat {through : Location} (hne : through ≠ []) (last : String) :
    (pathOf (through ++ [last])).toList = (pathOf through).toList ++ '/' :: last.toList := by
  induction through with
  | nil => exact absurd rfl hne
  | cons name rest ih =>
      cases rest with
      | nil =>
          rw [List.singleton_append, pathOf_cons_cons, pathOf_singleton, pathOf_singleton]
      | cons other rest =>
          rw [List.cons_append, List.cons_append, pathOf_cons_cons, pathOf_cons_cons,
            ← List.cons_append, ih (List.cons_ne_nil other rest), List.append_assoc]
          rfl

theorem join_pathOf_concat (directory : String) {through : Location}
    (hthrough : ∀ name ∈ through, IsName name) (hne : through ≠ []) (last : String) :
    (Path.join directory (pathOf (through ++ [last]))).toList =
      (Path.join directory (pathOf through)).toList ++ '/' :: last.toList := by
  obtain ⟨hhead, -, -⟩ := plain_pathOf hthrough
  obtain ⟨c, rest, hchars⟩ := List.exists_cons_of_ne_nil (pathOf_ne_nil hthrough hne)
  have hc : c ≠ '/' := by simpa [hchars] using hhead
  rw [Path.join, Path.join, String.toList_ofList, String.toList_ofList, pathOf_concat hne, hchars,
    Path.joinChars, Path.joinChars]
  simp only [List.cons_append, List.head?_cons, Option.some.injEq, hc, if_false]
  split <;> simp

/-- The path of a file below a directory ends in a slash and the file's name, whatever that is. -/
theorem exists_front {directory : String} (hdirectory : directory.toList ≠ []) {through : Location}
    (hthrough : ∀ name ∈ through, IsName name) : ∃ front, ∀ last : String, '/' ∉ last.toList →
      (Path.join directory (pathOf (through ++ [last]))).toList = front ++ '/' :: last.toList := by
  by_cases hdirectly : through = []
  · subst hdirectly
    by_cases hslash : directory.toList.getLast? = some '/'
    · obtain ⟨front, hfront⟩ := List.getLast?_eq_some_iff.mp hslash
      refine ⟨front, fun last hlast => ?_⟩
      have hhead : last.toList.head? ≠ some '/' := fun hhead => hlast (List.mem_of_head? hhead)
      rw [List.nil_append, pathOf_singleton, Path.join, String.toList_ofList, Path.joinChars,
        if_neg hhead, if_pos (.inr hslash), hfront, List.append_assoc]
      rfl
    · refine ⟨directory.toList, fun last hlast => ?_⟩
      have hhead : last.toList.head? ≠ some '/' := fun hhead => hlast (List.mem_of_head? hhead)
      rw [List.nil_append, pathOf_singleton, Path.join, String.toList_ofList, Path.joinChars,
        if_neg hhead, if_neg (not_or.mpr ⟨hdirectory, hslash⟩)]
  · exact ⟨_, fun last _ => join_pathOf_concat directory hthrough hdirectly last⟩

section

variable {directory : String} (hdirectory : directory.toList ≠ []) {through : Location}
  (hthrough : ∀ name ∈ through, IsName name)

include hdirectory hthrough

theorem directory_join_pathOf {last other : String} (hlast : '/' ∉ last.toList)
    (hother : '/' ∉ other.toList) :
    Path.directory (Path.join directory (pathOf (through ++ [last]))) =
      Path.directory (Path.join directory (pathOf (through ++ [other]))) := by
  obtain ⟨front, hfront⟩ := exists_front hdirectory hthrough
  rw [Path.directory, Path.directory, hfront last hlast, hfront other hother,
    Path.directoryChars_append front hlast, Path.directoryChars_append front hother]

theorem extension_join_pathOf {last : String} (hlast : '/' ∉ last.toList) :
    Path.extension (Path.join directory (pathOf (through ++ [last]))) = Path.extension last := by
  obtain ⟨front, hfront⟩ := exists_front hdirectory hthrough
  rw [Path.extension, Path.extension, hfront last hlast, Path.nameChars_append front hlast,
    Path.nameChars_of_not_mem hlast]

end

theorem through_of_route {path : String} {r : Route} (hroute : route path = .ok r)
    (hfinal : r.toDirectory = false) : r.through = Path.names (Path.directory path).toList := by
  obtain ⟨-, hhead, hnames, hend⟩ := route_eq_ok_iff.mp hroute
  have hne : path.toList ≠ [] := by
    intro hnil
    simp [hnil, Path.names, pieces] at hnames
  have hlast : path.toList.getLast? ≠ some '/' := by simpa [hfinal] using hend
  have hparts := Path.names_eq_concat hhead (Path.nameChars_ne_nil hne hlast)
  rw [hnames] at hparts
  rw [Path.directory, String.toList_ofList]
  exact (List.append_inj' hparts rfl).1

theorem location_of_vacant? {tree : Tree} {path name : String} {file : File} {target : Location}
    (hfile : tree.file? path = some file)
    (hvacant : tree.vacant? (Path.join (Path.directory path) name) = some target)
    (hslash : '/' ∉ name.toList) : target = file.location.dropLast ++ [name] := by
  obtain ⟨-, r, place, hroute, hwalk, henter, hfinal⟩ := file?_eq_some_iff.mp hfile
  obtain ⟨-, r', place', hroute', hwalk', henter', hfinal'⟩ := vacant?_eq_some_iff.mp hvacant
  obtain ⟨hdirectory, hname⟩ := Path.directory_join path hslash
  have hlast : r'.last = name := (last_of_route hroute' hfinal').trans hname
  have hthrough : r'.through = r.through := by
    rw [through_of_route hroute hfinal, through_of_route hroute' hfinal', hdirectory]
  rw [hthrough, hwalk] at hwalk'
  cases hwalk'
  rw [(enter_eq_vacant henter').1, hlast, location_of_enter henter, List.dropLast_concat]

/-- Whether the system follows a path as far as a search needs it: to the file or, below other
directories, to the directory that the file is in. -/
def follows (recursive : Bool) (found : String) : Bool :=
  if recursive then (Path.directory found).utf8ByteSize ≤ pathLimit
  else found.utf8ByteSize ≤ pathLimit

/-- Whether a search of a directory lists a file at a place. -/
def lists (path : String) (directory : Location) (recursive : Bool) (place : Location) : Bool :=
  match seenFrom directory recursive place with
  | some rest =>
      follows recursive (Path.join path (pathOf rest)) && isAudioPath (Path.join path (pathOf rest))
  | none => false

section

variable {tree : Tree} (h : tree.Sound) {path : String} {location : Location}
  (hpath : tree.directory? path = some location)

include h hpath

theorem finds_eq_follows {recursive : Bool} {rest : Location}
    (hrest : rest ∈ tree.below location recursive) :
    tree.finds recursive (Path.join path (pathOf rest)) =
      follows recursive (Path.join path (pathOf rest)) := by
  cases recursive with
  | true => rfl
  | false =>
      obtain ⟨file, hfile, hlocation, -⟩ := mem_below_iff.mp hrest
      simp only [finds, follows, Bool.false_eq_true, if_false]
      by_cases hsize : (Path.join path (pathOf rest)).utf8ByteSize ≤ pathLimit
      · rw [h.file?_join hpath hfile hlocation hsize, decide_eq_true hsize]
        rfl
      · rw [file?_of_overlong tree (Nat.lt_of_not_le hsize), decide_eq_false hsize]
        rfl

theorem length_expand (recursive : Bool) :
    (tree.expand recursive [path]).length = tree.places.countP (lists path location recursive) := by
  rw [expand_of_directory? hpath, audioFiles, sorted, List.length_mergeSort,
    ← List.countP_eq_length_filter, List.countP_map, below_eq, List.countP_filterMap]
  refine List.countP_congr fun place hplace => ?_
  unfold lists
  cases hseen : seenFrom location recursive place with
  | none => simp
  | some rest =>
      have hrest : rest ∈ tree.below location recursive := by
        rw [below_eq, List.mem_filterMap]
        exact ⟨place, hplace, hseen⟩
      simp [finds_eq_follows h hpath hrest]

end

theorem countP_replace {α : Type} [DecidableEq α] {items : List α} (hnodup : items.Nodup) {a : α}
    (ha : a ∈ items) (b : α) (p : α → Bool) :
    (items.map fun x => if x = a then b else x).countP p + (if p a then 1 else 0) =
      items.countP p + if p b then 1 else 0 := by
  induction items with
  | nil => cases ha
  | cons first rest ih =>
      obtain ⟨hfirst, hrest⟩ := List.nodup_cons.mp hnodup
      rw [List.map_cons, List.countP_cons, List.countP_cons]
      by_cases hhere : first = a
      · subst hhere
        have hothers : rest.map (fun x => if x = first then b else x) = rest := by
          refine (List.map_congr_left fun x hx => if_neg ?_).trans (List.map_id rest)
          rintro rfl
          exact hfirst hx
        rw [hothers, if_pos rfl]
        omega
      · have hmem : a ∈ rest := (List.mem_cons.mp ha).resolve_left (Ne.symm hhere)
        have hcount := ih hrest hmem
        rw [if_neg hhere]
        omega

section

variable {tree after : Tree} (h : after.Sound) (hdirectories : after.directories = tree.directories)

include h hdirectories

theorem enter_of_directories {directory next : Location} {name : String}
    (henter : tree.enter directory name = .ok (.directory next)) :
    after.enter directory name = .ok (.directory next) := by
  rcases enter_eq_directory henter with hany | ⟨-, -, hhas, hany⟩
  · exact hany after
  · have hthere : after.hasDirectory next = true := by
      rwa [hasDirectory, hdirectories]
    exact hany after (h.fileAt?_of_hasDirectory hthere) hthere

theorem walk_of_directories {directory last : Location} {names : List String}
    (hwalk : tree.walk directory names = .ok last) : after.walk directory names = .ok last := by
  induction names generalizing directory with
  | nil => exact hwalk
  | cons name rest ih =>
      cases henter : tree.enter directory name with
      | error cause => simp [walk, henter, bind, Except.bind] at hwalk
      | ok place =>
          cases place with
          | directory next =>
              have hrest : tree.walk next rest = .ok last := by
                simpa [walk, henter, bind, Except.bind, asDirectory] using hwalk
              simp only [walk, enter_of_directories h hdirectories henter, bind, Except.bind,
                asDirectory]
              exact ih hrest
          | _ => simp [walk, henter, bind, Except.bind, asDirectory] at hwalk

theorem directory?_of_directories {path : String} {location : Location}
    (hpath : tree.directory? path = some location) : after.directory? path = some location := by
  obtain ⟨hnul, r, directory, hroute, hwalk, henter⟩ := directory?_eq_some_iff.mp hpath
  exact directory?_eq_some_iff.mpr ⟨hnul, r, directory, hroute,
    walk_of_directories h hdirectories hwalk, enter_of_directories h hdirectories henter⟩

end

end Tree

/-- Whether an entry of the log tells of a renaming after which a search of the directory at a path
does not find the file any more. -/
def Event.hides (path : String) (recursive : Bool) : Event → Bool
  | .renamed _ name =>
      Path.extension name == "" ||
        (!recursive && decide (Tree.pathLimit < (Path.join path name).utf8ByteSize))
  | _ => false

namespace Step

variable {options : Options} {spec : Spec} {bench after : Workbench}

theorem renamed_of_attempt {fine : Bool}
    (h : attempt options (.rename spec) bench = .ok fine after) : ∃ event,
      after.events = bench.events ++ [event] ∧ ∀ source name, event = .renamed source name →
        options.dryRun = false ∧ source = bench.handle.path ∧
        spec.newName (some options.hazard) bench.handle.read source = .ok name := by
  rcases attempt_eq_ok h with ⟨hperform, -⟩ | ⟨failure, last, report, hperform, -, -, rfl⟩
  · cases hname : spec.newName (some options.hazard) bench.handle.read bench.handle.path with
    | error failure =>
        rw [perform_rename_of_error hname] at hperform
        cases hperform
    | ok name =>
        rw [perform_rename_of_ok hname] at hperform
        cases hrenamed : bench.tree.renameFile bench.handle.path name options.dryRun with
        | error failure =>
            rw [Job.rename_of_error hrenamed] at hperform
            cases hperform
        | ok renamed =>
            rw [Job.rename_eq hrenamed] at hperform
            cases hperform
            refine ⟨renamed.event, rfl, ?_⟩
            rcases Tree.renameFile_eq_ok hrenamed with ⟨-, rfl⟩ | ⟨-, rfl⟩ | ⟨hwet, -, -, -, -, rfl⟩
            · rintro _ _ ⟨⟩
            · rintro _ _ ⟨⟩
            · rintro _ _ ⟨⟩
              exact ⟨hwet, rfl, hname⟩
  · rcases perform_rename_cases options spec bench with ⟨name, hother⟩ |
      ⟨-, name, renames, hother⟩ | ⟨-, name, file, location, -, -, hother⟩ | ⟨failure, hother, -⟩
    · cases hperform.symm.trans hother
    · cases hperform.symm.trans hother
    · cases hperform.symm.trans hother
    · cases hperform.symm.trans hother
      refine ⟨.failed bench.handle.path report, rfl, ?_⟩
      rintro _ _ ⟨⟩

theorem renamed_of_steps {fine : Bool}
    (h : attemptAll options options.steps bench = .ok fine after) : ∃ news,
      after.events = bench.events ++ news ∧ ∀ source name, .renamed source name ∈ news →
        options.dryRun = false ∧ source = bench.handle.path ∧
        ∃ spec lookUp, options.rename = some spec ∧ spec.isEmpty = false ∧
          spec.newName (some options.hazard) lookUp source = .ok name := by
  rw [Options.steps_eq] at h
  obtain ⟨first, middle, last, hwriting, hrename, -⟩ := attemptAll_append_eq_ok h
  have hstays := stays_writing options bench
  have hworked := options.onTags_writing bench
  rw [leftBy_of_ok hwriting] at hstays hworked
  obtain ⟨news, hnews, hstill⟩ := hstays.news
  have hnone : ∀ source name, .renamed source name ∉ news := by
    intro source name hmem
    cases hstill _ hmem
  rcases Options.specStep_cases Step.rename options.rename with hnothing |
    ⟨spec, hstep, hspec, hempty⟩
  · rw [hnothing] at hrename
    cases hrename
    exact ⟨news, hnews, fun source name hmem => absurd hmem (hnone source name)⟩
  · rw [hstep] at hrename
    obtain ⟨fine, later, rest, hattempt, hnil, -⟩ := attemptAll_cons_eq_ok hrename
    cases hnil
    obtain ⟨event, hevent, htold⟩ := renamed_of_attempt hattempt
    refine ⟨news ++ [event], by rw [hevent, hnews, List.append_assoc], fun source name hmem => ?_⟩
    rcases List.mem_append.mp hmem with hbefore | hlast
    · exact absurd hbefore (hnone source name)
    · obtain ⟨hwet, hsource, hname⟩ := htold source name (List.mem_singleton.mp hlast).symm
      exact ⟨hwet, hsource.trans hworked.path_eq, spec, _, hspec, hempty, hname⟩

end Step

theorem Options.renamed_of_visit {options : Options} {tree : Tree} {path : String} {fine : Bool}
    (h : (options.visit tree path).outcome = .ok fine) {source name : String}
    (hmem : .renamed source name ∈ (options.visit tree path).events) :
    options.dryRun = false ∧ source = path ∧
      ∃ spec lookUp, options.rename = some spec ∧ spec.isEmpty = false ∧
        spec.newName (some options.hazard) lookUp path = .ok name := by
  unfold visit at h hmem
  cases hopen : Handle.openAt tree path with
  | error failure =>
      simp only [hopen, Visit.ofRefusal] at hmem
      split at hmem <;> simp at hmem
  | ok found =>
      obtain ⟨handle, opened⟩ := found
      obtain ⟨file, format, -, -, -, rfl, rfl⟩ := Handle.openAt_eq_ok hopen
      simp only [hopen] at h hmem
      split at h
      · rename_i hediting
        rw [if_pos hediting] at hmem
        cases hattempt : Step.attemptAll options options.steps
            (Workbench.start tree ⟨path, file.location, some ⟨format, file.tags, file.faults⟩⟩
              (.opened path format)) with
        | error failure after =>
            rw [hattempt] at h
            cases h
        | ok verdict after =>
            rw [hattempt] at hmem
            obtain ⟨news, hnews, htold⟩ := Step.renamed_of_steps hattempt
            have hold : .renamed source name ∈ Event.opened path format :: news := by
              rw [← List.singleton_append]
              exact hnews ▸ hmem
            have hnew : .renamed source name ∈ news := by simpa using hold
            obtain ⟨hwet, rfl, hspec⟩ := htold source name hnew
            exact ⟨hwet, rfl, hspec⟩
      · rename_i hediting
        rw [if_neg hediting] at hmem
        simp [Visit.ofListing] at hmem

namespace Tree

theorem lists_eq {path : String} {directory rest : Location} {recursive : Bool}
    (hdepth : recursive = true ∨ rest.length = 1) :
    lists path directory recursive (directory ++ rest) =
      (follows recursive (Path.join path (pathOf rest)) &&
        isAudioPath (Path.join path (pathOf rest))) := by
  have hseen : seenFrom directory recursive (directory ++ rest) = some rest :=
    seenFrom_eq_some_iff.mpr ⟨rfl, hdepth⟩
  simp only [lists, hseen]

theorem depth_of_lists {path : String} {directory rest : Location} {recursive : Bool}
    (h : lists path directory recursive (directory ++ rest) = true) :
    recursive = true ∨ rest.length = 1 := by
  unfold lists at h
  split at h
  · rename_i others hseen
    obtain ⟨heq, hdepth⟩ := seenFrom_eq_some_iff.mp hseen
    rwa [List.append_cancel_left heq]
  · cases h

theorem extension_ne_of_isAudioPath {path : String} (h : isAudioPath path = true) :
    Path.extension path ≠ "" := by
  intro hnone
  rw [isAudioPath, hnone] at h
  revert h
  decide

theorem lists_renamed {directory : String} (hdirectory : directory.toList ≠ [])
    {location through : Location} {last name : String} (source : String) {recursive : Bool}
    (hnames : ∀ name ∈ through ++ [last], IsName name) (hname : '/' ∉ name.toList)
    (hlisted : lists directory location recursive (location ++ (through ++ [last])) = true)
    (hext : Path.extension name = "" ∨ Path.extension name = Path.extension last) :
    lists directory location recursive (location ++ (through ++ [name])) =
      !(Event.renamed source name).hides directory recursive := by
  have hthrough : ∀ name ∈ through, IsName name :=
    fun name hmem => hnames name (List.mem_append_left _ hmem)
  have hlast : '/' ∉ last.toList := (hnames last (by simp)).plain.1
  have hdepth := depth_of_lists hlisted
  have hdepth' : recursive = true ∨ (through ++ [name]).length = 1 := by simpa using hdepth
  rw [lists_eq hdepth, Bool.and_eq_true, isAudioPath,
    extension_join_pathOf hdirectory hthrough hlast] at hlisted
  obtain ⟨hfollows, haudio⟩ := hlisted
  rw [lists_eq hdepth', isAudioPath, extension_join_pathOf hdirectory hthrough hname]
  rcases hext with hnone | hsame
  · have hsilent : audioExtensions.contains (Text.lower "") = false := by decide
    simp only [Event.hides, hnone, hsilent, Bool.and_false, beq_self_eq_true, Bool.true_or,
      Bool.not_true]
  · have hsome : Path.extension name ≠ "" := by
      rw [hsame]
      exact extension_ne_of_isAudioPath haudio
    rw [hsame, haudio, Bool.and_true, Event.hides, beq_eq_false_iff_ne.mpr hsome, Bool.false_or]
    cases recursive with
    | true =>
        rw [follows, if_pos rfl] at hfollows ⊢
        rw [directory_join_pathOf hdirectory hthrough hname hlast, hfollows, Bool.not_true,
          Bool.false_and, Bool.not_false]
    | false =>
        have hdirectly : through = [] := by simpa using hdepth
        rw [hdirectly, List.nil_append, pathOf_singleton, follows, if_neg Bool.false_ne_true,
          Bool.not_false, Bool.true_and, ← decide_not]
        exact decide_eq_decide.mpr Nat.not_lt.symm

/-- Whether a path is one that the search of a directory spells for a place that it lists, and leads
there if it leads to a file. -/
def Spells (tree : Tree) (directory : String) (location : Location) (recursive : Bool)
    (path : String) : Prop :=
  ∃ through last, (∀ name ∈ through ++ [last], IsName name) ∧
    path = Path.join directory (pathOf (through ++ [last])) ∧
    lists directory location recursive (location ++ (through ++ [last])) = true ∧
    ∀ file ∈ tree.file? path, file.location = location ++ (through ++ [last])

theorem spells_of_mem_expand {tree : Tree} (h : tree.Sound) {directory : String}
    {location : Location} (hpath : tree.directory? directory = some location) {recursive : Bool}
    {found : String} (hfound : found ∈ tree.expand recursive [directory]) :
    tree.Spells directory location recursive found := by
  obtain ⟨file, hfile, rest, ⟨hlocation, hdepth⟩, rfl, hfinds, haudio⟩ :=
    (mem_expand_iff hpath).mp hfound
  have hrest : rest ∈ tree.below location recursive :=
    mem_below_iff.mpr ⟨file, hfile, hlocation, hdepth⟩
  have hlisted : lists directory location recursive (location ++ rest) = true := by
    rw [lists_eq hdepth, ← finds_eq_follows h hpath hrest, hfinds, haudio]
    rfl
  have hleads : ∀ other ∈ tree.file? (Path.join directory (pathOf rest)),
      other.location = location ++ rest :=
    fun other hother => h.location_of_file?_join hpath hrest hother
  obtain ⟨through, last, rfl, -, -⟩ := h.exists_last hpath hfile hlocation
  exact ⟨through, last, h.named_below hfile hlocation, rfl, hlisted, hleads⟩

end Tree

theorem Event.countP_hides (path : String) (recursive : Bool) (events : List Event) :
    events.countP (Event.hides path recursive) =
      (events.filter Event.isRenamed).countP (Event.hides path recursive) := by
  rw [List.countP_filter]
  congr 1
  funext event
  cases event <;> simp [Event.hides, Event.isRenamed]

namespace Options

variable {options : Options} {tree : Tree} {path : String} {fine : Bool}

theorem name_of_renamed (hwithin : options.NamesWithin)
    (h : (options.visit tree path).outcome = .ok fine) {source name : String}
    (hmem : .renamed source name ∈ (options.visit tree path).events) :
    source = path ∧ '/' ∉ name.toList ∧ ∃ stem, name = stem ++ Path.extension path ∧
      (Path.extension path ≠ "" → Path.extension name =
        if stem.toList.all (· == '.') then "" else Path.extension path) := by
  obtain ⟨-, hsource, spec, lookUp, hspec, -, hname⟩ := renamed_of_visit h hmem
  have hslash := Spec.not_mem_newName (hwithin spec hspec).2 hname
  obtain ⟨stem, -, rfl⟩ := Spec.newName_eq_ok hname
  refine ⟨hsource, hslash, stem, rfl, fun hext => ?_⟩
  rw [String.toList_append, List.mem_append] at hslash
  exact Path.extension_append_extension hext (not_or.mp hslash).1

theorem moves_of_visit (h : (options.visit tree path).outcome = .ok fine) :
    ((options.visit tree path).events.filter Event.isRenamed = [] ∧
      (options.visit tree path).tree.places = tree.places) ∨
    ∃ name, (options.visit tree path).events.filter Event.isRenamed = [.renamed path name] ∧
      tree.Moves path name (options.visit tree path).tree := by
  cases hdry : options.dryRun with
  | false => exact (visit_tells h).moves hdry
  | true =>
      refine .inl ⟨List.filter_eq_nil_iff.mpr fun event hmem hrenamed => ?_, ?_⟩
      · cases event with
        | renamed source name =>
            rw [(renamed_of_visit h hmem).1] at hdry
            cases hdry
        | _ => cases hrenamed
      · rw [(visit_spares hdry tree path).1]

/-- A visit to a file that a search lists takes as many files from the search as it hides. -/
theorem countP_lists_visit (hwithin : options.NamesWithin) (hdistinct : tree.Distinct)
    {directory : String} (hdirectory : directory.toList ≠ []) {location : Location}
    (hspells : tree.Spells directory location options.recursive path)
    (h : (options.visit tree path).outcome = .ok fine) :
    (options.visit tree path).tree.places.countP
        (Tree.lists directory location options.recursive) +
      (options.visit tree path).events.countP (Event.hides directory options.recursive) =
    tree.places.countP (Tree.lists directory location options.recursive) := by
  rw [Event.countP_hides]
  rcases moves_of_visit h with ⟨hnone, hplaces⟩ |
    ⟨name, hone, file, target, hfile, hvacant, -, hplaces⟩
  · rw [hnone, hplaces]
    rfl
  · obtain ⟨through, last, hnames, hpath, hlisted, hleads⟩ := hspells
    have hplace : file.location = location ++ (through ++ [last]) := hleads file hfile
    have htold : .renamed path name ∈ (options.visit tree path).events :=
      List.mem_of_mem_filter (hone ▸ List.mem_singleton_self _)
    obtain ⟨-, hslash, stem, -, hextension⟩ := name_of_renamed hwithin h htold
    have htarget : target = location ++ (through ++ [name]) := by
      rw [Tree.location_of_vacant? hfile hvacant hslash, hplace, ← List.append_assoc,
        List.dropLast_concat, List.append_assoc]
    have hlast : Path.extension path = Path.extension last := by
      rw [hpath]
      exact Tree.extension_join_pathOf hdirectory
        (fun name hmem => hnames name (List.mem_append_left _ hmem)) (hnames last (by simp)).plain.1
    -- the text before the old extension may be nothing but dots, and then they hide the extension
    have hext : Path.extension name = "" ∨ Path.extension name = Path.extension last := by
      have haudio := hlisted
      rw [Tree.lists_eq (Tree.depth_of_lists hlisted), Bool.and_eq_true, ← hpath] at haudio
      rw [hextension (Tree.extension_ne_of_isAudioPath haudio.2), hlast]
      split
      · exact .inl rfl
      · exact .inr rfl
    have hmem : file.location ∈ tree.places :=
      List.mem_map_of_mem (List.mem_of_find?_eq_some (Tree.fileAt?_of_file? hfile))
    have hbefore : Tree.lists directory location options.recursive file.location = true := by
      rw [hplace, hlisted]
    have hafter : Tree.lists directory location options.recursive target =
        !(Event.renamed path name).hides directory options.recursive := by
      rw [htarget]
      exact Tree.lists_renamed hdirectory path hnames hslash hlisted hext
    have hplacesNodup : tree.places.Nodup := hdistinct
    have hcount := Tree.countP_replace hplacesNodup hmem target
      (Tree.lists directory location options.recursive)
    rw [hbefore, hafter, ← hplaces] at hcount
    rw [hone, List.countP_singleton]
    cases hhides : (Event.renamed path name).hides directory options.recursive <;>
      simp only [hhides, Bool.not_true, Bool.not_false, Bool.false_eq_true, if_true,
        if_false] at hcount ⊢ <;>
      omega

end Options

namespace Session

theorem outcome_of_mem_turns {options : Options} {paths : List String} {session after : Session}
    {fine : Bool} (h : visitAll options paths session = .ok fine after) {turn : Turn}
    (hturn : turn ∈ options.turns session.tree paths) :
    ∃ fine, (turn.visit options).outcome = .ok fine := by
  induction paths generalizing session fine with
  | nil => cases hturn
  | cons path paths ih =>
      obtain ⟨first, last, houtcome, hrest, -⟩ := visitAll_cons_eq_ok h
      rcases List.mem_cons.mp hturn with rfl | hlater
      · exact ⟨first, houtcome⟩
      · exact ih hrest hlater

theorem countP_lists_visitAll {options : Options} (hwithin : options.NamesWithin)
    {directory : String} (hdirectory : directory.toList ≠ []) {location : Location}
    {paths : List String} {session after : Session} {fine : Bool}
    (h : visitAll options paths session = .ok fine after) (hsound : session.tree.Sound)
    (hawaits : session.tree.Awaits paths)
    (hspells : ∀ path ∈ paths,
      session.tree.Spells directory location options.recursive path) :
    after.tree.places.countP (Tree.lists directory location options.recursive) +
        ((options.turns session.tree paths).flatMap (Turn.told options)).countP
          (Event.hides directory options.recursive) =
      session.tree.places.countP (Tree.lists directory location options.recursive) := by
  induction paths generalizing session fine with
  | nil =>
      cases h
      rfl
  | cons path paths ih =>
      obtain ⟨first, last, houtcome, hrest, -⟩ := visitAll_cons_eq_ok h
      -- a visit leaves the files at the paths to come where they are, spelled as before
      have hsame := hawaits.visit options
      have hlater : ∀ other ∈ paths, (options.visit session.tree path).tree.Spells directory
          location options.recursive other := by
        intro other hother
        obtain ⟨through, last, hnames, hpath, hlisted, hleads⟩ :=
          hspells other (List.mem_cons_of_mem path hother)
        exact ⟨through, last, hnames, hpath, hlisted, hsame other hother ▸ hleads⟩
      have hfirst := Options.countP_lists_visit hwithin hsound.distinct hdirectory
        (hspells path List.mem_cons_self) houtcome
      have hothers : after.tree.places.countP (Tree.lists directory location options.recursive) +
          ((options.turns (options.visit session.tree path).tree paths).flatMap
            (Turn.told options)).countP (Event.hides directory options.recursive) =
          (options.visit session.tree path).tree.places.countP
            (Tree.lists directory location options.recursive) :=
        ih hrest (hsound.visit options path) (hawaits.tail.congr hsame) hlater
      rw [Options.turns, List.flatMap_cons, List.countP_append, ← hfirst, ← hothers]
      simp only [Turn.told, Turn.visit]
      omega

/-- A batch over a directory does not change how many files a search of the directory finds, but for
those that it renames out of the search's sight. The name of a renamed file ends in the extension
under which the file was found, and that is the extension of the name unless nothing but dots stands
before it. Only with such a name, or with one that the system does not follow directly in the
directory, is the file not found again. -/
theorem run_finds {options : Options} (hwithin : options.NamesWithin) {session after : Session}
    (hsound : session.tree.Sound) {directory : String} {location : Location}
    (hdirectory : session.tree.directory? directory = some location) {fine : Bool}
    (hrun : run options [directory] session = .ok fine after) :
    let told := (session.turns options [directory]).flatMap (Turn.told options)
    after.tree.directory? directory = some location ∧
    (after.tree.expand options.recursive [directory]).length +
        told.countP (Event.hides directory options.recursive) =
      (session.tree.expand options.recursive [directory]).length ∧
    ∀ source name, .renamed source name ∈ told →
      source ∈ session.tree.expand options.recursive [directory] ∧
      ∃ stem, name = stem ++ Path.extension source ∧ Path.extension name =
        if stem.toList.all (· == '.') then "" else Path.extension source := by
  intro told
  have hleft : leftBy (run options [directory]) session = after := leftBy_of_ok hrun
  have hafter : after.tree.Sound := hleft ▸ sound_run options [directory] hsound
  have hdirectories : after.tree.directories = session.tree.directories := by
    rw [← hleft]
    exact (carries_run options [directory] session hsound.distinct).directories
  have hstays := Tree.directory?_of_directories hafter hdirectories hdirectory
  have hspells : ∀ path ∈ session.tree.expand options.recursive [directory],
      session.tree.Spells directory location options.recursive path :=
    fun path hpath => Tree.spells_of_mem_expand hsound hdirectory hpath
  obtain ⟨last, hvisits, rfl⟩ := run_eq_ok hrun
  refine ⟨hstays, ?_, ?_⟩
  · have hbegun : (session.record
        (session.tree.searchEvents options.recursive [directory])).tree.Sound := hsound
    have hcount := countP_lists_visitAll hwithin (Tree.walk_of_directory? hdirectory).2.1
      hvisits hbegun (hsound.awaits_expand hdirectory options.recursive) hspells
    rw [Tree.length_expand hafter hstays, Tree.length_expand hsound hdirectory]
    exact hcount
  · intro source name hmem
    obtain ⟨turn, hturn, htold⟩ := List.mem_flatMap.mp hmem
    obtain ⟨verdict, houtcome⟩ := outcome_of_mem_turns hvisits hturn
    obtain ⟨rfl, -, stem, hname, hextension⟩ := Options.name_of_renamed hwithin houtcome htold
    have hpath : turn.path ∈ session.tree.expand options.recursive [directory] := by
      rw [← options.map_path_turns session.tree
        (session.tree.expand options.recursive [directory])]
      exact List.mem_map_of_mem hturn
    obtain ⟨-, -, -, -, -, -, haudio⟩ := (Tree.mem_expand_iff hdirectory).mp hpath
    exact ⟨hpath, stem, hname, hextension (Tree.extension_ne_of_isAudioPath haudio)⟩

/-- One of two files in a directory has three dots for a title. Both are renamed by their titles,
and after that only the other one is found. -/
theorem run_finds_one :
    let titled (name title : String) : File :=
      ⟨["m", name], some .oggVorbis, some (.comments [("TITLE", title)]), ⟨none, none, none⟩⟩
    let session := start (Tree.build [] [titled "a.ogg" "...", titled "b.ogg" "c"])
    let options : Options := ⟨[], none,
      some ⟨"%T", [.placeholder ⟨.title, none, .preserve⟩]⟩, .shell, false, false⟩
    session.tree.expand false ["m"] = ["m/a.ogg", "m/b.ogg"] ∧
      (session.turns options ["m"]).flatMap (Turn.told options) =
        [.opened "m/a.ogg" .oggVorbis, .renamed "m/a.ogg" "....ogg",
          .opened "m/b.ogg" .oggVorbis, .renamed "m/b.ogg" "c.ogg"] ∧
      ∃ after, run options ["m"] session = .ok true after ∧
        after.tree.directory? "m" = some ["m"] ∧ (after.tree.expand false ["m"]).length = 1 := by
  intro titled session options
  have hsound : session.tree.Sound :=
    Tree.sound_build (by decide +kernel) (by decide +kernel) (by decide +kernel)
  have hdirectory : session.tree.directory? "m" = some ["m"] := by decide +kernel
  have hwithin : options.NamesWithin := by
    intro spec hspec
    cases hspec
    exact ⟨⟨"%T", by decide +kernel⟩, by simp [Spec.Brings, Spec.placeholders, Token.placeholder?]⟩
  have hexpand : session.tree.expand false ["m"] = ["m/a.ogg", "m/b.ogg"] := by
    rw [Tree.expand_of_directory? hdirectory]
    have hfound : (((session.tree.below ["m"] false).map fun rest =>
        Path.join "m" (Tree.pathOf rest)).filter fun path =>
          session.tree.finds false path && Tree.isAudioPath path) = ["m/a.ogg", "m/b.ogg"] := by
      decide +kernel
    exact (congrArg Tree.sorted hfound).trans (List.mergeSort_of_pairwise (by decide +kernel))
  have htold : (session.turns options ["m"]).flatMap (Turn.told options) =
      [.opened "m/a.ogg" .oggVorbis, .renamed "m/a.ogg" "....ogg",
        .opened "m/b.ogg" .oggVorbis, .renamed "m/b.ogg" "c.ogg"] := by
    have hturns : session.turns options ["m"] =
        options.turns session.tree ["m/a.ogg", "m/b.ogg"] := congrArg _ hexpand
    rw [hturns]
    decide +kernel
  have hvisits : resultOf (visitAll options ["m/a.ogg", "m/b.ogg"])
      (session.record (session.tree.searchEvents false ["m"])) = some true := by
    decide +kernel
  have hrun : run options ["m"] session = .ok true (leftBy (run options ["m"]) session) := by
    apply eq_ok_of_resultOf
    have hinputs : session.tree.expand options.recursive ["m"] = ["m/a.ogg", "m/b.ogg"] := hexpand
    rw [resultOf, run_eq, hinputs, eq_ok_of_resultOf hvisits]
  obtain ⟨hstays, hcount, -⟩ := run_finds hwithin hsound hdirectory hrun
  have hhidden : ((session.turns options ["m"]).flatMap (Turn.told options)).countP
      (Event.hides "m" options.recursive) = 1 := by
    rw [htold]
    decide +kernel
  have hlength : (session.tree.expand options.recursive ["m"]).length = 2 :=
    congrArg List.length hexpand
  rw [hhidden, hlength] at hcount
  exact ⟨hexpand, htold, _, hrun, hstays, Nat.succ.inj hcount⟩

end Session

end LinerNotes
