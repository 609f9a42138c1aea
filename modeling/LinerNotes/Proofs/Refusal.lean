import LinerNotes.Proofs.Confinement
import LinerNotes.Proofs.Routes
import LinerNotes.Proofs.Survival
import LinerNotes.Proofs.WrittenForm

/-!
Files whose format is refused are never written, however often they are renamed. A renaming keeps
the extension of the old name, so the new name is refused like the old one. The one exception is a
name with nothing but dots before the last: it has an ending that tells a format and no extension to
keep.
-/

namespace LinerNotes

open LinerNotes.Text

namespace Spec

theorem spell_ne_nil {tokens : List Token} (hliteral : .literal [] ∉ tokens) (hne : tokens ≠ [])
    {become : Placeholder → List Char} (hbecome : ∀ p, become p ≠ []) :
    spell tokens ((placeholdersOf tokens).map become) ≠ [] := by
  obtain ⟨token, rest, rfl⟩ := List.exists_cons_of_ne_nil hne
  cases token with
  | literal text =>
      rw [placeholdersOf_literal, spell]
      intro hempty
      have htext : text = [] := (List.append_eq_nil_iff.mp hempty).1
      exact hliteral (htext ▸ List.mem_cons_self)
  | placeholder p =>
      rw [placeholdersOf_placeholder, List.map_cons, spell]
      intro hempty
      exact hbecome p (List.append_eq_nil_iff.mp hempty).1

theorem ne_empty_of_render {source : String} {spec : Spec} (hread : Spec.read source = .ok spec)
    (hne : spec.isEmpty = false) {hazard : Option Hazard} {lookUp : Field → Except Failure Value}
    {name : String} (h : spec.render hazard lookUp = .ok name) : name ≠ "" := by
  obtain ⟨tokens, htokens, rfl⟩ := read_eq_ok hread
  obtain ⟨text, -, rfl⟩ := render_eq_ok h
  have hfilled : ∀ p : Placeholder, filled hazard p (text p.field) ≠ [] :=
    fun p => Hazard.clean_ne_nil _ _ _
  have htokensne : tokens ≠ [] := by simpa [isEmpty] using hne
  intro hempty
  refine spell_ne_nil (normal_of_tokensOf htokens).1.filled htokensne hfilled ?_
  have hchars := congrArg String.toList hempty
  rwa [String.toList_ofList] at hchars

end Spec

namespace File

/-- The name of a file. -/
def name (file : File) : String :=
  file.location.getLastD ""

/-- Whether the format that a file's name tells is refused. -/
def isRefused (file : File) : Bool :=
  refusedExtensions.contains (Text.lower (Path.suffix file.name))

/-- Whether a file is still refused, with the tags that it had, if it was. -/
def StaysRefused (file later : File) : Prop :=
  file.isRefused = true → later.isRefused = true ∧ later.tags = file.tags

theorem StaysRefused.refl (file : File) : file.StaysRefused file :=
  fun hrefused => ⟨hrefused, rfl⟩

theorem StaysRefused.trans {file between later : File} (h : file.StaysRefused between)
    (h' : between.StaysRefused later) : file.StaysRefused later := by
  intro hrefused
  obtain ⟨hbetween, htags⟩ := h hrefused
  obtain ⟨hlater, htags'⟩ := h' hbetween
  exact ⟨hlater, htags'.trans htags⟩

end File

theorem File.name_of_file? {tree : Tree} {path : String} {file : File}
    (h : tree.file? path = some file) : file.name = Path.name path := by
  rw [name, List.getLastD_eq_getLast?, Tree.getLast?_of_file? h]
  rfl

theorem Handle.isRefused_eq {tree : Tree} {handle : Handle} {file : File}
    (h : tree.file? handle.path = some file) : handle.isRefused = file.isRefused := by
  rw [isRefused, extension, File.isRefused, File.name_of_file? h, Path.suffix_name]

/-- Whether the renaming, if any, goes by a spec that was read and that names no other directory. -/
def Options.NamesWithin (options : Options) : Prop :=
  ∀ spec ∈ options.rename, (∃ source, Spec.read source = .ok spec) ∧ ¬ spec.Brings '/'

/-- Whether a renaming of the opened file, if there is to be one, keeps an ending by which the file
is refused: its name has an extension, and not nothing but dots before the last. -/
def Options.Keeps (options : Options) (handle : Handle) : Prop :=
  options.rename ≠ none → options.dryRun = false → handle.isRefused = true →
    Path.extension handle.path = Path.suffix handle.path

instance (options : Options) (handle : Handle) : Decidable (options.Keeps handle) :=
  inferInstanceAs (Decidable (_ → _ → _ → _))

/-- A file whose name is refused and has an extension gets no other name than one that
is refused. -/
theorem Options.suffix_of_newName {options : Options} (hwithin : options.NamesWithin) {spec : Spec}
    (hspec : options.rename = some spec) (hempty : spec.isEmpty = false)
    {lookUp : Field → Except Failure Value} {path new : String}
    (hnew : spec.newName (some options.hazard) lookUp path = .ok new)
    (hsuffix : Path.suffix path ≠ "") (hkeeps : Path.extension path = Path.suffix path) :
    '/' ∉ new.toList ∧ Path.suffix new = Path.suffix path := by
  obtain ⟨⟨source, hread⟩, hslash⟩ := hwithin spec hspec
  have hfree := Spec.not_mem_newName hslash hnew
  obtain ⟨stem, hrender, rfl⟩ := Spec.newName_eq_ok hnew
  refine ⟨hfree, ?_⟩
  rw [hkeeps] at hfree ⊢
  exact Path.suffix_append_suffix hsuffix (Spec.ne_empty_of_render hread hempty hrender) hfree

theorem Path.suffix_ne_of_refused {path : String}
    (h : refusedExtensions.contains (Text.lower (suffix path)) = true) : suffix path ≠ "" := by
  intro hnone
  rw [hnone] at h
  revert h
  decide

theorem File.isRefused_congr {file other : File} (h : file.location = other.location) :
    file.isRefused = other.isRefused := by
  rw [isRefused, isRefused, name, name, h]

namespace Options

variable {options : Options} {tree : Tree} {path : String}

theorem carries_renames (hwithin : options.NamesWithin) (hdistinct : tree.Distinct) {file : File}
    (hfile : tree.file? path = some file)
    (hkeeps : options.rename ≠ none → options.dryRun = false → file.isRefused = true →
      Path.extension path = Path.suffix path) {after : Tree}
    (h : options.Renames tree path after) : tree.Carries File.StaysRefused after := by
  obtain ⟨spec, lookUp, new, renamed, hspec, hempty, hnew, hrenamed, rfl⟩ := h
  rcases Tree.renameFile_eq_ok hrenamed with ⟨-, rfl⟩ | ⟨-, rfl⟩ |
    ⟨hwet, other, location, hother, hvacant, rfl⟩
  · exact .refl hdistinct File.StaysRefused.refl
  · exact .refl hdistinct File.StaysRefused.refl
  · rw [hfile] at hother
    cases hother
    have hnone := Tree.fileAt?_of_vacant? hvacant
    have hfound := Tree.fileAt?_of_file? hfile
    refine ⟨⟨File.moved file.location location,
      Tree.files_move (Tree.ne_of_fileAt? hnone hfound) hnone, fun moved hmoved hrefused => ?_⟩,
      Tree.directories_move _ _ _, (Tree.carries_move hdistinct _ hnone).distinct⟩
    unfold File.moved
    split
    · rename_i hhere
      rw [File.isRefused_congr hhere] at hrefused
      have hending : refusedExtensions.contains (Text.lower (Path.suffix path)) = true := by
        rw [File.isRefused, File.name_of_file? hfile, Path.suffix_name] at hrefused
        exact hrefused
      obtain ⟨hslash, hsuffix⟩ := suffix_of_newName hwithin hspec hempty hnew
        (Path.suffix_ne_of_refused hending) (hkeeps (by simp [hspec]) hwet hrefused)
      have hname : ({ moved with location := location } : File).name = new := by
        rw [File.name, List.getLastD_eq_getLast?, Tree.getLast?_of_vacant? hvacant,
          (Path.directory_join path hslash).2]
        rfl
      refine ⟨?_, rfl⟩
      rw [File.isRefused, hname, hsuffix]
      exact hending
    · exact File.StaysRefused.refl moved hrefused

theorem carries_visit_refused (hwithin : options.NamesWithin) (hdistinct : tree.Distinct)
    (hkeeps : ∀ handle ∈ openedAt tree path, options.Keeps handle) :
    tree.Carries File.StaysRefused (options.visit tree path).tree := by
  cases hopen : Handle.openAt tree path with
  | error failure =>
      rw [tree_visit_of_error hopen]
      exact .refl hdistinct File.StaysRefused.refl
  | ok found =>
      obtain ⟨handle, opened⟩ := found
      have hkeeps' : options.Keeps handle := hkeeps handle (by simp [openedAt, hopen])
      obtain ⟨middle, hmiddle, hlast⟩ := options.tree_visit_cases hopen
      obtain ⟨file, format, hfile, -, -, -, hhandle⟩ := Handle.openAt_eq_ok hopen
      have hpath : handle.path = path := by rw [hhandle]
      have hlocation : handle.location = file.location := by rw [hhandle]
      have hrefused : handle.isRefused = file.isRefused :=
        Handle.isRefused_eq (hpath ▸ hfile)
      have hfirst : tree.Carries File.StaysRefused middle ∧
          ∃ tags, middle.file? path = some { file with tags := tags } := by
        rcases hmiddle with rfl | ⟨hallowed, tags, rfl⟩
        · exact ⟨.refl hdistinct File.StaysRefused.refl, file.tags, hfile⟩
        · rw [hlocation]
          refine ⟨(Tree.carries_store hdistinct _ tags).mono ?_, tags, Tree.file?_store hfile tags⟩
          rintro other later ⟨-, hother⟩ hrefused'
          by_cases hhere : other.location = file.location
          · rw [File.isRefused_congr hhere, ← hrefused, hallowed] at hrefused'
            cases hrefused'
          · rw [hother hhere]
            exact ⟨hrefused', rfl⟩
      obtain ⟨hcarries, tags, hfound⟩ := hfirst
      rcases hlast with hsame | hrenames
      · rw [hsame]
        exact hcarries
      · have hkept : options.rename ≠ none → options.dryRun = false →
            ({ file with tags := tags } : File).isRefused = true →
            Path.extension path = Path.suffix path := by
          intro hrename hwet hstill
          rw [← hpath]
          exact hkeeps' hrename hwet (hrefused.trans hstill)
        exact hcarries.trans (carries_renames hwithin hcarries.distinct hfound hkept hrenames)
          fun first between later => File.StaysRefused.trans

end Options

namespace Session

theorem carries_visitAll_refused {options : Options} (hwithin : options.NamesWithin)
    (paths : List String) {session : Session} (hdistinct : session.tree.Distinct)
    (hkeeps : ∀ handle ∈ options.opened session.tree paths, options.Keeps handle) :
    session.tree.Carries File.StaysRefused (leftBy (visitAll options paths) session).tree := by
  induction paths generalizing session with
  | nil => exact .refl hdistinct File.StaysRefused.refl
  | cons path rest ih =>
      have hvisit := Options.carries_visit_refused hwithin hdistinct
        fun handle hhandle => hkeeps handle (List.mem_append_left _ hhandle)
      rw [Options.opened] at hkeeps
      rw [leftBy_visitAll_cons]
      cases houtcome : (options.visit session.tree path).outcome with
      | ok fine =>
          simp only [houtcome] at hkeeps
          have hdistinct' : (session.add (options.visit session.tree path)).tree.Distinct :=
            hvisit.distinct
          have hrest := ih hdistinct' fun handle hhandle =>
            hkeeps handle (List.mem_append_right _ hhandle)
          exact hvisit.trans hrest fun file between later => File.StaysRefused.trans
      | error failure => exact hvisit

/-- The session after several batches, each with its own options. -/
def runAll (session : Session) (batches : List (Options × List String)) : Session :=
  batches.foldl (fun session batch => leftBy (run batch.1 batch.2) session) session

/-- The files that several batches open, each with the options of its batch. -/
def openedAll : Session → List (Options × List String) → List (Options × Handle)
  | _, [] => []
  | session, (options, inputs) :: rest =>
      (session.opened options inputs).map (fun handle => (options, handle)) ++
        openedAll (leftBy (run options inputs) session) rest

theorem carries_run_refused {options : Options} (hwithin : options.NamesWithin)
    (inputs : List String) {session : Session} (hdistinct : session.tree.Distinct)
    (hkeeps : ∀ handle ∈ session.opened options inputs, options.Keeps handle) :
    session.tree.Carries File.StaysRefused (leftBy (run options inputs) session).tree := by
  have hbegun : (session.record
      (session.tree.searchEvents options.recursive inputs)).tree.Distinct := hdistinct
  rw [tree_run]
  exact carries_visitAll_refused hwithin _ hbegun hkeeps

/-- Files of a refused format are never written. Through any row of batches that rename within
directories, a refused file stays refused and has the tags that it had, as long as no refused file
is renamed from a name with nothing but dots before the last. -/
theorem runAll_refused (batches : List (Options × List String)) {session : Session}
    (hdistinct : session.tree.Distinct)
    (hwithin : ∀ batch ∈ batches, batch.1.NamesWithin)
    (hkeeps : ∀ opening ∈ session.openedAll batches, opening.1.Keeps opening.2) :
    session.tree.Carries File.StaysRefused (session.runAll batches).tree := by
  induction batches generalizing session with
  | nil => exact .refl hdistinct File.StaysRefused.refl
  | cons batch rest ih =>
      obtain ⟨options, inputs⟩ := batch
      have hfirst := carries_run_refused (hwithin _ List.mem_cons_self) inputs hdistinct
        fun handle hhandle =>
          hkeeps (options, handle) (List.mem_append_left _ (List.mem_map_of_mem hhandle))
      have hrest := ih hfirst.distinct
        (fun other hother => hwithin other (List.mem_cons_of_mem _ hother))
        fun opening hopening => hkeeps opening (List.mem_append_right _ hopening)
      exact hfirst.trans hrest fun file between later => File.StaysRefused.trans

theorem runAll_refused_twice :
    let titled (name title : String) : File :=
      ⟨[name], some .monkeysAudio, some (.items [("Title", title)]), ⟨none, none, none⟩⟩
    let session := start ⟨[], [titled "a.AAC" "b", titled "c.ape" "c"]⟩
    let named (tokens : List Token) (source : String) : Options :=
      ⟨[.assign .artist (.text "X")], none, some ⟨source, tokens⟩, .shell, false, false⟩
    let title : Token := .placeholder ⟨.title, none, .preserve⟩
    let batches : List (Options × List String) := [(named [title] "%T", ["a.AAC", "c.ape"]),
      (named [title, .literal ['.', '1']] "%T.1", ["b.AAC"])]
    session.tree.Distinct ∧ (∀ batch ∈ batches, batch.1.NamesWithin) ∧
      (∀ opening ∈ session.openedAll batches, opening.1.Keeps opening.2) ∧
      session.tree.Carries File.StaysRefused (session.runAll batches).tree ∧
      (session.runAll batches).tree.files = [titled "b.1.AAC" "b",
        { titled "c.ape" "c" with tags := some (.items [("Title", "c"), ("Artist", "X")]) }] := by
  intro titled session named title batches
  have hdistinct : session.tree.Distinct := by decide +kernel
  have hkeeps : ∀ opening ∈ session.openedAll batches, opening.1.Keeps opening.2 := by
    decide +kernel
  have hwithin : ∀ batch ∈ batches, batch.1.NamesWithin := by
    intro batch hbatch spec hspec
    rcases List.mem_cons.mp hbatch with rfl | hlast
    · cases hspec
      refine ⟨⟨"%T", by decide +kernel⟩, ?_⟩
      simp [Spec.Brings, Spec.placeholders, Token.placeholder?, title]
    · rw [List.mem_singleton.mp hlast] at hspec
      cases hspec
      refine ⟨⟨"%T.1", by decide +kernel⟩, ?_⟩
      simp [Spec.Brings, Spec.placeholders, Token.placeholder?, title]
  exact ⟨hdistinct, hwithin, hkeeps, runAll_refused batches hdistinct hwithin hkeeps,
    by decide +kernel⟩

/-- Where the condition fails: the second name is not refused any more, and the file is written. -/
example :
    let file : File :=
      ⟨["..aac"], some .monkeysAudio, some (.items [("Title", "A")]), ⟨none, none, none⟩⟩
    let options : Options := ⟨[.assign .artist (.text "X")], none,
      some ⟨"%T", [.placeholder ⟨.title, none, .preserve⟩]⟩, .shell, false, false⟩
    file.isRefused = true ∧
      ((start ⟨[], [file]⟩).runAll [(options, ["..aac"]), (options, ["A"])]).tree.files =
        [⟨["A"], some .monkeysAudio, some (.items [("Title", "A"), ("Artist", "X")]),
          ⟨none, none, none⟩⟩] := by
  decide +kernel

end Session

end LinerNotes
