import LinerNotes.Proofs.Overflow
import LinerNotes.Proofs.Refusal

/-!
What the steps do in memory before anything is saved. It depends on the opened file alone, not on
the tree around it or on what was done before. Of the path it takes nothing but the name, so that
for two spellings of a path the same entries go into the log.
-/

namespace LinerNotes

namespace Text

/-- Whether a name occurs in a text. -/
def Mentions (text name : String) : Prop :=
  name.toList <:+: text.toList

instance (text name : String) : Decidable (Mentions text name) :=
  inferInstanceAs (Decidable (_ <:+: _))

theorem mentions_append (before name : String) : Mentions (before ++ name) name := by
  rw [Mentions, String.toList_append]
  exact (List.suffix_append _ _).isInfix

theorem Mentions.append {text name : String} (h : Mentions text name) (after : String) :
    Mentions (text ++ after) name := by
  rw [Mentions, String.toList_append]
  exact h.trans (List.prefix_append _ _).isInfix

theorem Mentions.prepend {text name : String} (h : Mentions text name) (before : String) :
    Mentions (before ++ text) name := by
  rw [Mentions, String.toList_append]
  exact h.trans (List.suffix_append _ _).isInfix

end Text

/-- An entry of the log as it is shown. -/
def Event.record (event : Event) : Level × String × String :=
  (event.level, event.source, event.message)

namespace Event

/-- The path that an event gives to the log. -/
def path? : Event → Option String
  | .opened path _ => some path
  | .cleared path _ => some path
  | .wrote path _ _ => some path
  | .saved path => some path
  | .renamed path _ => some path
  | .wouldRename path _ => some path
  | .applying _ path => some path
  | .wouldSave path => some path
  | _ => none

/-- The event with another path. -/
def respelled (path : String) : Event → Event
  | .opened _ format => .opened path format
  | .cleared _ field => .cleared path field
  | .wrote _ field text => .wrote path field text
  | .saved _ => .saved path
  | .renamed _ name => .renamed path name
  | .wouldRename _ name => .wouldRename path name
  | .applying descriptions _ => .applying descriptions path
  | .wouldSave _ => .wouldSave path
  | event => event

theorem record_respelled (event : Event) {name path path' : String}
    (hpath : event.path? = some path) (hname : Path.name path = name)
    (hname' : Path.name path' = name) : (event.respelled path').record = event.record := by
  have hsame : Path.name path' = Path.name path := hname'.trans hname.symm
  have hmessage : (event.respelled path').message = event.message := by
    cases event <;> cases hpath
    case opened format =>
      show _ ++ Path.name path' ++ _ ++ _ = _ ++ Path.name path ++ _ ++ _
      rw [hsame]
    case renamed new =>
      show _ ++ Path.name path' ++ _ ++ _ = _ ++ Path.name path ++ _ ++ _
      rw [hsame]
    case wouldRename new =>
      show _ ++ Path.name path' ++ _ ++ _ = _ ++ Path.name path ++ _ ++ _
      rw [hsame]
    all_goals
      show _ ++ Path.name path' = _ ++ Path.name path
      rw [hsame]
  have hlevel : (event.respelled path').level = event.level := by
    cases event <;> rfl
  have hsource : (event.respelled path').source = event.source := by
    cases event <;> rfl
  rw [record, record, hlevel, hsource, hmessage]

end Event

/-- Whether an event is about tags in memory. -/
def Event.isDraft : Event → Bool
  | .cleared _ _ => true
  | .wrote _ _ _ => true
  | .noMatch _ _ => true
  | .applying _ _ => true
  | _ => false

/-- Whether two handles are of one file and their paths both end with the given name. -/
structure Handle.Alike (name : String) (handle other : Handle) : Prop where
  path : Path.name handle.path = name
  path' : Path.name other.path = name
  location : other.location = handle.location
  audio : other.audio = handle.audio

/-- Whether two failures are told in the same words, which mention the file if they concern it
alone. -/
structure Failure.Alike (name : String) (failure other : Failure) : Prop where
  reach : other.reach = failure.reach
  message : other.message = failure.message
  mentions : failure.reach = .file → Text.Mentions failure.message name

namespace Handle.Alike

variable {name : String} {handle other : Handle}

theorem refl (handle : Handle) : handle.Alike (Path.name handle.path) handle :=
  ⟨rfl, rfl, rfl, rfl⟩

theorem name_eq (h : handle.Alike name other) : Path.name other.path = Path.name handle.path :=
  h.path'.trans h.path.symm

theorem suffix_eq (h : handle.Alike name other) :
    Path.suffix other.path = Path.suffix handle.path :=
  Path.suffix_congr h.name_eq

theorem setTags (h : handle.Alike name other) (tags : Option Container) :
    (handle.setTags tags).Alike name (other.setTags tags) := by
  refine ⟨h.path, h.path', h.location, ?_⟩
  rw [Handle.setTags, Handle.setTags, h.audio]

theorem tags (h : handle.Alike name other) : other.tags = handle.tags := by
  rw [Handle.tags, Handle.tags, h.audio]

theorem isRefused (h : handle.Alike name other) : other.isRefused = handle.isRefused := by
  rw [Handle.isRefused, Handle.isRefused, extension, extension, h.suffix_eq]

end Handle.Alike

namespace Failure

theorem alike_of_reach {name : String} {failure : Failure} (h : failure.reach ≠ .file) :
    failure.Alike name failure :=
  ⟨rfl, rfl, fun hfile => absurd hfile h⟩

/-- The path whose name a failure is told with. -/
def path? : Failure → Option String
  | .notRecognised path => some path
  | .notOpened path _ => some path
  | .notTaggable path _ => some path
  | .saveRefused path => some path
  | .saveFailed path _ => some path
  | .mismatch path _ => some path
  | .collision path _ => some path
  | _ => none

/-- The failure with another path. -/
def respelled (path : String) : Failure → Failure
  | .notRecognised _ => .notRecognised path
  | .notOpened _ reason => .notOpened path reason
  | .notTaggable _ reason => .notTaggable path reason
  | .saveRefused _ => .saveRefused path
  | .saveFailed _ reason => .saveFailed path reason
  | .mismatch _ spec => .mismatch path spec
  | .collision _ name => .collision path name
  | failure => failure

theorem mentions_of_path? {failure : Failure} {path : String} (h : failure.path? = some path) :
    Text.Mentions failure.message (Path.name path) := by
  cases failure <;> cases h
  case notRecognised => exact Text.mentions_append _ _
  case mismatch spec => exact Text.mentions_append _ _
  case saveRefused => exact (((Text.mentions_append _ _).append _).append _).append _
  all_goals exact ((Text.mentions_append _ _).append _).append _

theorem mentions_notFound (path : String) :
    Text.Mentions (notFound path).message (Path.name path) :=
  Text.Mentions.prepend (Path.name_suffix path).isInfix _

theorem alike_respelled (failure : Failure) {name path path' : String}
    (hpath : failure.path? = some path) (hname : Path.name path = name)
    (hname' : Path.name path' = name) : failure.Alike name (failure.respelled path') := by
  have hsame : Path.name path' = Path.name path := hname'.trans hname.symm
  refine ⟨by cases failure <;> rfl, ?_, fun _ => hname ▸ mentions_of_path? hpath⟩
  cases failure <;> cases hpath
  case notRecognised =>
    show _ ++ Path.name path' = _ ++ Path.name path
    rw [hsame]
  case mismatch spec =>
    show _ ++ Path.name path' = _ ++ Path.name path
    rw [hsame]
  case saveRefused =>
    show _ ++ Path.name path' ++ _ ++ Text.lower (Path.suffix path') ++ _ =
      _ ++ Path.name path ++ _ ++ Text.lower (Path.suffix path) ++ _
    rw [hsame, Path.suffix_congr hsame]
  all_goals
    show _ ++ Path.name path' ++ _ ++ _ = _ ++ Path.name path ++ _ ++ _
    rw [hsame]

end Failure

theorem Failure.mentions_of_report? {failure : Failure} {path report : String}
    (hmentions : failure.reach = .file → Text.Mentions failure.message (Path.name path))
    (h : failure.report? path = some report) : Text.Mentions report (Path.name path) := by
  unfold report? at h
  split at h
  · rename_i hreach
    cases h
    exact hmentions hreach
  · cases h
    exact ((Text.mentions_append _ _).append _).append _
  · cases h

/-- Whether a path in one tree leads to the same as a path in another: to the same file with the
same tags, or to none, and then it is the same path. -/
structure Tree.LeadsAlike (tree : Tree) (path : String) (other : Tree) (path' : String) : Prop where
  file : other.file? path' = tree.file? path
  path : tree.file? path = none → path' = path

theorem Tree.LeadsAlike.of_file?_eq {tree other : Tree} {path : String}
    (h : other.file? path = tree.file? path) : tree.LeadsAlike path other path :=
  ⟨h, fun _ => rfl⟩

namespace Handle

theorem ofFile_alike {name path path' : String} (hname : Path.name path = name)
    (hname' : Path.name path' = name) (file : File) :
    (∃ handle handle' opened opened', ofFile path file = .ok (handle, opened) ∧
      ofFile path' file = .ok (handle', opened') ∧ handle.Alike name handle' ∧
      opened'.record = opened.record) ∨
    ∃ failure failure', ofFile path file = .error failure ∧ ofFile path' file = .error failure' ∧
      failure.Alike name failure' := by
  have htold : ∀ text, (Failure.notOpened path text).Alike name (.notOpened path' text) :=
    fun text => (Failure.notOpened path text).alike_respelled rfl hname hname'
  unfold ofFile
  cases file.faults.opening with
  | some fault =>
      right
      cases fault with
      | codec text => exact ⟨_, _, rfl, rfl, htold text⟩
      | system text => exact ⟨_, _, rfl, rfl, htold text⟩
      | value text => exact ⟨_, _, rfl, rfl, Failure.alike_of_reach nofun⟩
      | unsupported text => exact ⟨_, _, rfl, rfl, Failure.alike_of_reach nofun⟩
  | none =>
      cases file.format with
      | none =>
          exact .inr ⟨_, _, rfl, rfl, (Failure.notRecognised path).alike_respelled rfl hname hname'⟩
      | some format =>
          have hrecord : (Event.opened path' format).record = (Event.opened path format).record :=
            (Event.opened path format).record_respelled rfl hname hname'
          exact .inl ⟨_, _, _, _, rfl, rfl, ⟨hname, hname', rfl, rfl⟩, hrecord⟩

theorem openAt_alike {tree tree' : Tree} {path path' : String}
    (h : tree.LeadsAlike path tree' path') :
    (∃ handle handle' opened opened', openAt tree path = .ok (handle, opened) ∧
      openAt tree' path' = .ok (handle', opened') ∧ handle.Alike (Path.name path) handle' ∧
      opened'.record = opened.record) ∨
    ∃ failure failure', openAt tree path = .error failure ∧ openAt tree' path' = .error failure' ∧
      failure.Alike (Path.name path) failure' := by
  unfold openAt
  rw [h.file]
  cases hfile : tree.file? path with
  | none =>
      cases h.path hfile
      exact .inr ⟨_, _, rfl, rfl, rfl, rfl, fun _ => Failure.mentions_notFound path⟩
  | some file =>
      have hfile' : tree'.file? path' = some file := h.file.trans hfile
      have hname' : Path.name path' = Path.name path := by
        rw [← File.name_of_file? hfile', File.name_of_file? hfile]
      exact ofFile_alike rfl hname' file

theorem mentions_of_openAt {tree : Tree} {path : String} {failure : Failure}
    (h : openAt tree path = .error failure) (hreach : failure.reach = .file) :
    Text.Mentions failure.message (Path.name path) := by
  rcases openAt_alike (.of_file?_eq rfl : tree.LeadsAlike path tree path) with
    ⟨_, _, _, _, hopen, -⟩ | ⟨failure, _, hopen, -, halike⟩
  · cases h.symm.trans hopen
  · cases h.symm.trans hopen
    exact halike.mentions hreach

end Handle

namespace Handle

variable {name : String} {handle other : Handle}

theorem Alike.tagsOrNew (h : handle.Alike name other) :
    (∃ tags, handle.tagsOrNew = .ok tags ∧ other.tagsOrNew = .ok tags) ∨
    ∃ failure failure', handle.tagsOrNew = .error failure ∧ other.tagsOrNew = .error failure' ∧
      failure.Alike name failure' := by
  have htold : ∀ text, (Failure.notTaggable handle.path text).Alike name
      (.notTaggable other.path text) :=
    fun text => (Failure.notTaggable handle.path text).alike_respelled rfl h.path h.path'
  unfold Handle.tagsOrNew
  rw [h.audio]
  cases handle.audio with
  | none => exact .inr ⟨_, _, rfl, rfl, Failure.alike_of_reach nofun⟩
  | some audio =>
      obtain ⟨format, tags, faults⟩ := audio
      cases tags with
      | some tags => exact .inl ⟨tags, rfl, rfl⟩
      | none =>
          simp only
          cases faults.tagging with
          | none => exact .inl ⟨format.noTags, rfl, rfl⟩
          | some fault =>
              cases fault with
              | codec text => exact .inr ⟨_, _, rfl, rfl, htold text⟩
              | unsupported text => exact .inr ⟨_, _, rfl, rfl, htold text⟩
              | system text => exact .inr ⟨_, _, rfl, rfl, Failure.alike_of_reach nofun⟩
              | value text => exact .inr ⟨_, _, rfl, rfl, Failure.alike_of_reach nofun⟩

theorem reach_of_changed {tags : Container} {field : Field} {value : Value} {failure : Failure}
    (h : changed tags field value = .error failure) : failure.reach = .run := by
  unfold changed at h
  cases hcontent : field.content value with
  | error cause =>
      rw [hcontent] at h
      cases h
      rfl
  | ok content =>
      rw [hcontent] at h
      change (tags.put field content).bind _ = _ at h
      cases tags with
      | atoms entries =>
          cases hdata : entries.dataFor field content with
          | ok data =>
              rw [Container.put, Atoms.put, hdata] at h
              cases h
          | error cause =>
              rw [Container.put, Atoms.put, hdata] at h
              cases h
              by_cases hfield : field = .track
              · subst hfield
                obtain ⟨n, -, rfl⟩ := Field.content_track hcontent
                rw [Atoms.dataFor_track_eq] at hdata
                split at hdata
                · cases hdata
                · cases hdata
                  rfl
              · rw [entries.dataFor_of_ne_track content hfield] at hdata
                cases hdata
      | _ => cases h

theorem Alike.write (h : handle.Alike name other) (field : Field) (value : Value) :
    (∃ event event' tags, event.isDraft = true ∧ event'.record = event.record ∧
      Handle.write field value handle = .ok event (handle.setTags tags) ∧
      Handle.write field value other = .ok event' (other.setTags tags)) ∨
    ∃ failure failure' tags, failure.Alike name failure' ∧
      Handle.write field value handle = .error failure (handle.setTags tags) ∧
      Handle.write field value other = .error failure' (other.setTags tags) := by
  unfold Handle.write
  cases hempty : value.isEmpty with
  | true =>
      left
      have hrecord : (Event.cleared other.path field).record =
          (Event.cleared handle.path field).record :=
        (Event.cleared handle.path field).record_respelled rfl h.path h.path'
      simp only [if_true, cleared, h.tags]
      cases htags : handle.tags with
      | none =>
          have hsame : handle.setTags none = handle := by rw [← htags, setTags_tags]
          have hsame' : other.setTags none = other := by rw [← htags, ← h.tags, setTags_tags]
          exact ⟨_, _, none, rfl, hrecord, by rw [hsame], by rw [hsame']⟩
      | some tags => exact ⟨_, _, some (tags.clear field), rfl, hrecord, rfl, rfl⟩
  | false =>
      simp only [Bool.false_eq_true, if_false]
      rcases h.tagsOrNew with ⟨tags, hnew, hnew'⟩ | ⟨failure, failure', hnew, hnew', halike⟩
      · simp only [hnew, hnew']
        cases hchanged : changed tags field value with
        | error failure =>
            have hrun := reach_of_changed hchanged
            have halike : failure.Alike name failure := Failure.alike_of_reach (by simp [hrun])
            exact .inr ⟨failure, failure, some tags, halike, rfl, rfl⟩
        | ok written =>
            have hrecord : (Event.wrote other.path field written.2).record =
                (Event.wrote handle.path field written.2).record :=
              (Event.wrote handle.path field written.2).record_respelled rfl h.path h.path'
            exact .inl ⟨_, _, some written.1, rfl, hrecord, rfl, rfl⟩
      · simp only [hnew, hnew']
        refine .inr ⟨failure, failure', handle.tags, halike, ?_, ?_⟩
        · rw [setTags_tags]
        · rw [← h.tags, setTags_tags]

theorem Alike.toSave (h : handle.Alike name other) :
    (∃ tags, handle.toSave = .ok tags ∧ other.toSave = .ok tags) ∨
    ∃ failure failure', handle.toSave = .error failure ∧ other.toSave = .error failure' ∧
      failure.Alike name failure' := by
  unfold Handle.toSave
  rw [h.isRefused, h.audio]
  cases handle.isRefused with
  | true =>
      exact .inr ⟨_, _, rfl, rfl,
        (Failure.saveRefused handle.path).alike_respelled rfl h.path h.path'⟩
  | false =>
      have htold : ∀ text, (Failure.saveFailed handle.path text).Alike name
          (.saveFailed other.path text) :=
        fun text => (Failure.saveFailed handle.path text).alike_respelled rfl h.path h.path'
      simp only [Bool.false_eq_true, if_false]
      cases handle.audio with
      | none => exact .inr ⟨_, _, rfl, rfl, Failure.alike_of_reach nofun⟩
      | some audio =>
          simp only
          cases audio.faults.saving with
          | none => exact .inl ⟨_, rfl, rfl⟩
          | some fault =>
              cases fault with
              | codec text => exact .inr ⟨_, _, rfl, rfl, htold text⟩
              | system text => exact .inr ⟨_, _, rfl, rfl, htold text⟩
              | unsupported text => exact .inr ⟨_, _, rfl, rfl, Failure.alike_of_reach nofun⟩
              | value text => exact .inr ⟨_, _, rfl, rfl, Failure.alike_of_reach nofun⟩

end Handle

/-- The workbench with other tags in memory and more entries in the log. -/
def Workbench.drafted (bench : Workbench) (tags : Option Container) (news : List Event) :
    Workbench :=
  { bench with handle := bench.handle.setTags tags, events := bench.events ++ news }

theorem Workbench.drafted_drafted (bench : Workbench) (tags others : Option Container)
    (news more : List Event) :
    (bench.drafted tags news).drafted others more = bench.drafted others (news ++ more) := by
  simp only [drafted, Handle.setTags_setTags, List.append_assoc]

theorem Workbench.drafted_record (bench : Workbench) (event : Event) :
    bench.drafted bench.handle.tags [event] = bench.record event := by
  rw [drafted, Handle.setTags_tags]
  rfl

theorem Workbench.drafted_nil (bench : Workbench) : bench.drafted bench.handle.tags [] = bench := by
  rw [drafted, Handle.setTags_tags, List.append_nil]

namespace Job

variable {α β : Type}

/-- Whether some work comes to a result with an opened file, whatever else is on the workbench, and
leaves the given tags in memory and the given entries in the log. -/
def Comes (work : Job α) (handle : Handle) (result : Except Failure α) (tags : Option Container)
    (news : List Event) : Prop :=
  ∀ bench, bench.handle = handle → work bench = ofExcept result (bench.drafted tags news)

/-- Whether two pieces of work come to the same with a file, opened by two paths with the
same name. -/
def Drafts (name : String) (work other : Job α) : Prop :=
  ∀ handle handle', handle.Alike name handle' → ∃ tags news news',
    (∀ event ∈ news, event.isDraft = true) ∧ news'.map Event.record = news.map Event.record ∧
    ((∃ a, work.Comes handle (.ok a) tags news ∧ other.Comes handle' (.ok a) tags news') ∨
      ∃ failure failure', failure.Alike name failure' ∧
        work.Comes handle (.error failure) tags news ∧
        other.Comes handle' (.error failure') tags news')

section

variable {handle : Handle} {tags : Option Container} {news : List Event} {work : Job α}
  {next : α → Job β}

theorem Comes.bind {a : α} {result : Except Failure β} {others : Option Container}
    {more : List Event} (h : work.Comes handle (.ok a) tags news)
    (hnext : (next a).Comes (handle.setTags tags) result others more) :
    Comes (work >>= next) handle result others (news ++ more) := by
  intro bench hhandle
  have hmiddle : (bench.drafted tags news).handle = handle.setTags tags := by
    rw [← hhandle]
    rfl
  rw [bind_of_ok (h bench hhandle), hnext _ hmiddle, Workbench.drafted_drafted]

theorem Comes.bind_error {failure : Failure} (h : work.Comes handle (.error failure) tags news) :
    Comes (work >>= next) handle (.error failure) tags news := by
  intro bench hhandle
  exact bind_of_error (h bench hhandle)

theorem comes_ofExcept (handle : Handle) (result : Except Failure α) :
    (ofExcept result).Comes handle result handle.tags [] := by
  intro bench hhandle
  rw [← hhandle, Workbench.drafted_nil]

theorem comes_log (handle : Handle) (event : Event) :
    (log event).Comes handle (.ok ()) handle.tags [event] := by
  intro bench hhandle
  rw [← hhandle, Workbench.drafted_record]
  rfl

end

variable {name : String} {work work' : Job α} {next next' : α → Job β}

theorem Drafts.bind (h : Drafts name work work') (hnext : ∀ a, Drafts name (next a) (next' a)) :
    Drafts name (work >>= next) (work' >>= next') := by
  intro handle handle' halike
  obtain ⟨tags, news, news', hdraft, hrecords, hcases⟩ := h handle handle' halike
  rcases hcases with ⟨a, hwork, hwork'⟩ | ⟨failure, failure', hfailure, hwork, hwork'⟩
  · obtain ⟨others, more, more', hdraft', hrecords', hcases'⟩ :=
      hnext a _ _ (halike.setTags tags)
    refine ⟨others, news ++ more, news' ++ more', ?_, ?_, ?_⟩
    · exact List.forall_mem_append.mpr ⟨hdraft, hdraft'⟩
    · rw [List.map_append, List.map_append, hrecords, hrecords']
    · rcases hcases' with ⟨b, hnext, hnext'⟩ | ⟨failure, failure', hfailure, hnext, hnext'⟩
      · exact .inl ⟨b, hwork.bind hnext, hwork'.bind hnext'⟩
      · exact .inr ⟨failure, failure', hfailure, hwork.bind hnext, hwork'.bind hnext'⟩
  · exact ⟨tags, news, news', hdraft, hrecords,
      .inr ⟨failure, failure', hfailure, hwork.bind_error, hwork'.bind_error⟩⟩

theorem drafts_pure (a : α) : Drafts name (pure a) (pure a) := by
  intro handle handle' halike
  refine ⟨handle.tags, [], [], nofun, rfl, .inl ⟨a, comes_ofExcept handle (.ok a), ?_⟩⟩
  rw [← halike.tags]
  exact comes_ofExcept handle' (.ok a)

theorem drafts_throw {failure failure' : Failure} (h : failure.Alike name failure') :
    Drafts name (throw failure : Job α) (throw failure') := by
  intro handle handle' halike
  refine ⟨handle.tags, [], [], nofun, rfl,
    .inr ⟨failure, failure', h, comes_ofExcept handle (.error failure), ?_⟩⟩
  rw [← halike.tags]
  exact comes_ofExcept handle' (.error failure')

theorem drafts_log {event event' : Event} (hdraft : event.isDraft = true)
    (hrecord : event'.record = event.record) : Drafts name (log event) (log event') := by
  intro handle handle' halike
  refine ⟨handle.tags, [event], [event'], by simp [hdraft], by simp [hrecord],
    .inl ⟨(), comes_log handle event, ?_⟩⟩
  rw [← halike.tags]
  exact comes_log handle' event'

theorem drafts_path (next : String → Job α)
    (h : ∀ path path', Path.name path = name → Path.name path' = name →
      Drafts name (next path) (next path')) :
    Drafts name (get >>= fun bench => next bench.handle.path)
      (get >>= fun bench => next bench.handle.path) := by
  have hlook : ∀ handle result tags news, (next handle.path).Comes handle result tags news →
      Comes (get >>= fun bench => next bench.handle.path) handle result tags news := by
    intro handle result tags news hnext bench hhandle
    rw [bind_of_ok (get_eq bench), hhandle]
    exact hnext bench hhandle
  intro handle handle' halike
  obtain ⟨tags, news, news', hdraft, hrecords, hcases⟩ :=
    h _ _ halike.path halike.path' handle handle' halike
  refine ⟨tags, news, news', hdraft, hrecords, ?_⟩
  rcases hcases with ⟨a, hnext, hnext'⟩ | ⟨failure, failure', hfailure, hnext, hnext'⟩
  · exact .inl ⟨a, hlook _ _ _ _ hnext, hlook _ _ _ _ hnext'⟩
  · exact .inr ⟨failure, failure', hfailure, hlook _ _ _ _ hnext, hlook _ _ _ _ hnext'⟩

theorem drafts_write (field : Field) (value : Value) :
    Drafts name (write field value) (write field value) := by
  intro handle handle' halike
  rcases halike.write field value with ⟨event, event', tags, hdraft, hrecord, hwrite, hwrite'⟩ |
    ⟨failure, failure', tags, hfailure, hwrite, hwrite'⟩
  · refine ⟨tags, [event], [event'], by simp [hdraft], by simp [hrecord], .inl ⟨(), ?_, ?_⟩⟩
    · rintro bench rfl
      exact write_eq_ok hwrite
    · rintro bench rfl
      exact write_eq_ok hwrite'
  · refine ⟨tags, [], [], nofun, rfl, .inr ⟨failure, failure', hfailure, ?_, ?_⟩⟩
    · rintro bench rfl
      rw [write_eq_error hwrite, Workbench.drafted, List.append_nil]
      rfl
    · rintro bench rfl
      rw [write_eq_error hwrite', Workbench.drafted, List.append_nil]
      rfl

theorem drafts_writeAll (entries : List (Field × Value)) :
    Drafts name (writeAll entries) (writeAll entries) := by
  induction entries with
  | nil => exact drafts_pure ()
  | cons entry entries ih =>
      rw [writeAll_cons]
      exact (drafts_write entry.1 entry.2).bind fun _ => ih

theorem drafts_ofNumeral (result : Except Numeral.Fault α) :
    Drafts name (ofExcept (Failure.ofNumeral result)) (ofExcept (Failure.ofNumeral result)) := by
  cases result with
  | ok a => exact drafts_pure a
  | error cause => exact drafts_throw (Failure.alike_of_reach nofun)

theorem drafts_extract (spec : Spec) (stem : String) :
    Drafts name (extract spec stem) (extract spec stem) := by
  refine (drafts_ofNumeral _).bind fun entries? => ?_
  cases entries? with
  | some entries => exact (drafts_writeAll entries).bind fun _ => drafts_pure true
  | none => exact (drafts_log rfl rfl).bind fun _ => drafts_pure false

theorem drafts_announce {path path' : String} (hname : Path.name path = name)
    (hname' : Path.name path' = name) (edits : List Edit) :
    Drafts name (announce edits path) (announce edits path') := by
  refine (drafts_ofNumeral _).bind fun descriptions => ?_
  have hrecord := (Event.applying descriptions path).record_respelled rfl hname hname'
  exact drafts_log rfl hrecord

end Job

namespace Step

/-- What a step does in memory with the file at a path, before the tags are saved. -/
def draftAt (path : String) : Step → Job Unit
  | .extract spec => do
      if ← Job.extract spec (Path.stem path) then pure () else throw (.mismatch path spec.source)
  | .edit edits => do
      Job.announce edits path
      Job.edit edits
  | .rename _ => pure ()

def draft (step : Step) : Job Unit := do
  draftAt (← get).handle.path step

theorem drafts_draftAt {name path path' : String} (hname : Path.name path = name)
    (hname' : Path.name path' = name) (step : Step) :
    Job.Drafts name (draftAt path step) (draftAt path' step) := by
  cases step with
  | extract spec =>
      have hstem : Path.stem path' = Path.stem path := by
        rw [← Path.stem_name path', hname', ← hname, Path.stem_name]
      simp only [draftAt, hstem]
      refine (Job.drafts_extract spec (Path.stem path)).bind fun fits => ?_
      split
      · exact Job.drafts_pure ()
      · have halike := (Failure.mismatch path spec.source).alike_respelled rfl hname hname'
        exact Job.drafts_throw halike
  | edit edits =>
      exact (Job.drafts_announce hname hname' edits).bind fun _ => Job.drafts_writeAll _
  | rename spec => exact Job.drafts_pure ()

theorem drafts_draft (name : String) (step : Step) : Job.Drafts name step.draft step.draft :=
  Job.drafts_path (fun path => draftAt path step) fun _ _ hname hname' =>
    drafts_draftAt hname hname' step

/-- A step that writes saves what it has done in memory. -/
theorem perform_eq_draft {options : Options} {step : Step} (h : step ∈ options.writing) :
    step.perform options = step.draft >>= fun _ => saveUnlessDry options.dryRun := by
  rcases Options.mem_writing_cases h with ⟨spec, rfl⟩ | rfl
  · simp only [perform, draft, draftAt, bind_assoc]
    congr 1
    funext bench
    congr 1
    funext fits
    cases fits <;> rfl
  · simp only [perform, draft, draftAt, bind_assoc]

end Step

/-- Whether an event is about a new name, given or only announced. -/
def Event.isRenaming : Event → Bool
  | .renamed _ _ => true
  | .wouldRename _ _ => true
  | _ => false

theorem Event.isRenaming_of_isDraft {event : Event} (h : event.isDraft = true) :
    event.isRenaming = false := by
  cases event <;> first | rfl | cases h

/-- Whether a workbench comes from another without any renaming. -/
structure Workbench.Stays (bench after : Workbench) : Prop where
  renames : after.renames = bench.renames
  news : ∃ news, after.events = bench.events ++ news ∧ ∀ event ∈ news, event.isRenaming = false

namespace Workbench.Stays

variable {bench middle after : Workbench}

theorem refl (bench : Workbench) : bench.Stays bench :=
  ⟨rfl, [], (List.append_nil _).symm, nofun⟩

theorem trans (h : bench.Stays middle) (h' : middle.Stays after) : bench.Stays after := by
  obtain ⟨news, hnews, hstill⟩ := h.news
  obtain ⟨others, hothers, hstill'⟩ := h'.news
  refine ⟨h'.renames.trans h.renames, news ++ others, ?_, ?_⟩
  · rw [hothers, hnews, List.append_assoc]
  · exact List.forall_mem_append.mpr ⟨hstill, hstill'⟩

theorem record (bench : Workbench) {event : Event} (h : event.isRenaming = false) :
    bench.Stays (bench.record event) :=
  ⟨rfl, [event], rfl, by simpa using h⟩

theorem drafted (bench : Workbench) {tags : Option Container} {news : List Event}
    (h : ∀ event ∈ news, event.isDraft = true) : bench.Stays (bench.drafted tags news) :=
  ⟨rfl, news, rfl, fun event hevent => Event.isRenaming_of_isDraft (h event hevent)⟩

end Workbench.Stays

namespace Step

variable {options : Options} {step : Step}

theorem stays_saveUnlessDry (dryRun : Bool) (bench : Workbench) :
    bench.Stays (leftBy (saveUnlessDry dryRun) bench) := by
  cases dryRun with
  | true => exact .record bench rfl
  | false =>
      have hsave : leftBy (saveUnlessDry false) bench = leftBy Job.save bench := rfl
      rw [hsave]
      cases htags : bench.handle.toSave with
      | ok tags =>
          rw [leftBy_of_ok (Job.save_eq htags)]
          exact ⟨rfl, _, rfl, by simp [Event.isRenaming]⟩
      | error failure =>
          rw [leftBy_of_error (Job.save_eq_error htags)]
          exact .refl bench

theorem stays_perform (h : step ∈ options.writing) (bench : Workbench) :
    bench.Stays (leftBy (step.perform options) bench) := by
  rw [perform_eq_draft h, leftBy_bind]
  obtain ⟨tags, news, -, hdraft, -, ⟨_, hdrafts, -⟩ | ⟨failure, _, -, hdrafts, -⟩⟩ :=
    drafts_draft _ step _ _ (Handle.Alike.refl bench.handle)
  · rw [hdrafts bench rfl]
    exact (Workbench.Stays.drafted bench hdraft).trans (stays_saveUnlessDry options.dryRun _)
  · rw [hdrafts bench rfl]
    exact .drafted bench hdraft

theorem stays_writing (options : Options) (bench : Workbench) :
    bench.Stays (leftBy (attemptAll options options.writing) bench) :=
  keeps_attemptAll Workbench.Stays.refl Workbench.Stays.trans
    (fun bench _ _ => Workbench.Stays.record bench rfl) (fun _ hstep => stays_perform hstep) bench

end Step

end LinerNotes
