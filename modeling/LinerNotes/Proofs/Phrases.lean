import Mathlib.Data.List.Induction
import LinerNotes.CommandLine.Execution

/-!
Command lines in plain form: flags in full spelling, each with its value if it takes one, and after
them the files. Such a line says what its flags ask for, one after the other, and is refused exactly
when a value makes no sense.
-/

namespace LinerNotes

/-- What one flag asks for, with its value if it takes one. -/
inductive Demand where
  | assign (field : Field) (raw : String)
  | clear (field : Field)
  | clearAll
  | extract (source : String)
  | rename (hazard : Hazard) (source : String)
  | dryRun
  | recursive
  | logging (choice : String) (level : Level) (known : (choice, level) ∈ Arguments.loggingChoices)
deriving DecidableEq

namespace Demand

def flag : Demand → Flag
  | .assign field _ => .assign field
  | .clear field => .clear field
  | .clearAll => .clearAll
  | .extract _ => .extract
  | .rename hazard _ => .rename hazard
  | .dryRun => .dryRun
  | .recursive => .recursive
  | .logging _ _ _ => .logging

def value? : Demand → Option String
  | .assign _ raw => some raw
  | .extract source => some source
  | .rename _ source => some source
  | .logging choice _ _ => some choice
  | _ => none

/-- Whether the value makes sense: an integer for an integer field, a spec that can be read. -/
def Sensible : Demand → Prop
  | .assign field raw => field.isNumeric = true → ∃ value, field.parse raw = .ok value
  | .extract source => ∃ spec, Spec.read source = .ok spec
  | .rename _ source => ∃ spec, Spec.read source = .ok spec
  | _ => True

/-- Whether a demand changes fields by itself. -/
def isEdit : Demand → Bool
  | .assign _ _ => true
  | .clear _ => true
  | .clearAll => true
  | _ => false

def edits : Demand → List Edit
  | .assign field raw => (field.parse raw).toOption.toList.map (.assign field)
  | .clear field => [.clear field]
  | .clearAll => Edit.clearAll
  | _ => []

def extraction? : Demand → Option Spec
  | .extract source => (Spec.read source).toOption
  | _ => none

def renaming? : Demand → Option (Hazard × Spec)
  | .rename hazard source => (Spec.read source).toOption.map fun spec => (hazard, spec)
  | _ => none

def level? : Demand → Option Level
  | .logging _ level _ => some level
  | _ => none

end Demand

/-- A demand as it stands on a command line: the flag in one of its spellings, and the value as an
argument of its own or attached with an equals sign. -/
structure Phrase where
  demand : Demand
  spelling : String
  attached : Bool
  spelled : spelling ∈ demand.flag.spellings
  noDash : attached = false → ∀ value ∈ demand.value?, value.toList.head? ≠ some '-'
  noDashes : attached = true → ∀ value ∈ demand.value?, value ≠ "--"

def Phrase.words (phrase : Phrase) : List String :=
  match phrase.demand.value? with
  | none => [phrase.spelling]
  | some value =>
      if phrase.attached then [phrase.spelling ++ "=" ++ value] else [phrase.spelling, value]

/-- The arguments of phrases with files after them. -/
def commandLine (phrases : List Phrase) (files : List String) : List String :=
  phrases.flatMap Phrase.words ++ files

def Setting.ofOption {α : Type} : Option α → Setting α
  | some a => .value a
  | none => .unset

/-- What demands say together with files: all the edits in their order, and of every other thing
the last word. -/
def Arguments.ofDemands (demands : List Demand) (files : List String) : Arguments :=
  let last := (demands.filterMap Demand.renaming?).getLast?
  { files := files
    edits := demands.flatMap Demand.edits
    extract := .ofOption (demands.filterMap Demand.extraction?).getLast?
    rename := .ofOption (last.map Prod.snd)
    hazard := (last.map Prod.fst).getD .shell
    dryRun := demands.contains .dryRun
    recursive := demands.contains .recursive
    logging := .ofOption (demands.filterMap Demand.level?).getLast? }

namespace Flag

theorem mem_all (flag : Flag) : flag ∈ all := by
  cases flag with
  | assign field => cases field <;> decide
  | clear field => cases field <;> decide
  | rename hazard => cases hazard <;> decide
  | _ => decide

theorem spelled?_of_mem {flag : Flag} {spelling : String} (h : spelling ∈ flag.spellings) :
    spelled? spelling = some flag := by
  have hall : ∀ flag ∈ all, ∀ spelling ∈ flag.spellings, spelled? spelling = some flag := by
    decide +kernel
  exact hall flag flag.mem_all spelling h

theorem chars_of_mem_spellings {flag : Flag} {spelling : String} (h : spelling ∈ flag.spellings) :
    (∃ c rest, spelling.toList = '-' :: c :: rest) ∧ spelling ≠ "--" ∧ '=' ∉ spelling.toList := by
  have hall : ∀ flag ∈ all, ∀ spelling ∈ flag.spellings,
      (spelling.toList.head? = some '-' ∧ 2 ≤ spelling.toList.length) ∧ spelling ≠ "--" ∧
        '=' ∉ spelling.toList := by
    decide +kernel
  obtain ⟨⟨hhead, hlength⟩, hrest⟩ := hall flag flag.mem_all spelling h
  refine ⟨?_, hrest⟩
  match hchars : spelling.toList with
  | [] => simp [hchars] at hhead
  | [_] => simp [hchars] at hlength
  | first :: c :: rest =>
      rw [hchars, List.head?_cons, Option.some.injEq] at hhead
      exact ⟨c, rest, by rw [hhead]⟩

theorem spelled?_eq_none {text : String} (h : '=' ∈ text.toList) : spelled? text = none := by
  refine List.lookup_eq_none_iff.mpr fun entry hentry => ?_
  obtain ⟨flag, -, hmem⟩ := List.mem_flatMap.mp hentry
  obtain ⟨spelling, hspelling, rfl⟩ := List.mem_map.mp hmem
  rw [bne_iff_ne]
  rintro rfl
  exact (chars_of_mem_spellings hspelling).2.2 h

end Flag

namespace Item

theorem cutAtEquals_append {before : List Char} (after : List Char) (h : '=' ∉ before) :
    cutAtEquals (before ++ '=' :: after) = some (before, after) := by
  induction before with
  | nil => rfl
  | cons c before ih =>
      obtain ⟨hc, hbefore⟩ := not_or.mp (mt List.mem_cons.mpr h)
      rw [List.cons_append, cutAtEquals, ih hbefore]
      · rfl
      · exact fun heq => hc heq.symm

theorem ofArgument_plain {text : String} (h : text.toList.head? ≠ some '-') :
    ofArgument text = .ok (.plain text) := by
  unfold ofArgument
  split
  · rename_i hchars
    simp [hchars] at h
  · rfl

section

variable {flag : Flag} {spelling : String} (h : spelling ∈ flag.spellings)

include h

theorem ofArgument_spelling : ofArgument spelling = .ok (.option spelling flag none) := by
  obtain ⟨⟨c, rest, hchars⟩, -⟩ := Flag.chars_of_mem_spellings h
  simp only [ofArgument, hchars, Flag.spelled?_of_mem h]

theorem ofArgument_attached (value : String) :
    ofArgument (spelling ++ "=" ++ value) =
      .ok (.option (spelling ++ "=" ++ value) flag (some value.toList)) := by
  obtain ⟨⟨c, rest, hchars⟩, -, hequals⟩ := Flag.chars_of_mem_spellings h
  have htext : (spelling ++ "=" ++ value).toList = spelling.toList ++ '=' :: value.toList := by
    simp
  have hlong : Flag.spelled? (spelling ++ "=" ++ value) = none := by
    apply Flag.spelled?_eq_none
    simp [htext]
  have hcut : withEquals? (spelling.toList ++ '=' :: value.toList) = some (flag, value.toList) := by
    simp only [withEquals?, cutAtEquals_append value.toList hequals, String.ofList_toList,
      Flag.spelled?_of_mem h, Option.map_some]
  rw [hchars] at htext hcut
  simp only [List.cons_append] at htext hcut
  simp only [ofArgument, htext, hlong, hcut, reduceCtorEq, if_false]

end

theorem ofArguments_cons {text : String} {rest : List String} {item : Item} {items : List Item}
    (hseparator : text ≠ "--") (hitem : ofArgument text = .ok item)
    (hitems : ofArguments rest = .ok items) : ofArguments (text :: rest) = .ok (item :: items) := by
  rw [ofArguments, if_neg hseparator, hitem, hitems]
  rfl

theorem ne_separator {text : String} (h : text.toList.head? ≠ some '-') : text ≠ "--" := by
  rintro rfl
  exact h rfl

theorem ofArguments_files {files : List String}
    (h : ∀ file ∈ files, file.toList.head? ≠ some '-') :
    ofArguments files = .ok (files.map .plain) := by
  induction files with
  | nil => rfl
  | cons file files ih =>
      have hfile := h file List.mem_cons_self
      exact ofArguments_cons (ne_separator hfile) (ofArgument_plain hfile)
        (ih fun other hother => h other (List.mem_cons_of_mem file hother))

end Item

/-- The items that the arguments of a phrase are. -/
def Phrase.items (phrase : Phrase) : List Item :=
  match phrase.demand.value? with
  | none => [.option phrase.spelling phrase.demand.flag none]
  | some value =>
      if phrase.attached then
        [.option (phrase.spelling ++ "=" ++ value) phrase.demand.flag (some value.toList)]
      else [.option phrase.spelling phrase.demand.flag none, .plain value]

theorem Phrase.ofArguments_words (phrase : Phrase) {rest : List String} {items : List Item}
    (h : Item.ofArguments rest = .ok items) :
    Item.ofArguments (phrase.words ++ rest) = .ok (phrase.items ++ items) := by
  obtain ⟨-, hspelling, hequals⟩ := Flag.chars_of_mem_spellings phrase.spelled
  have hflag := Item.ofArgument_spelling phrase.spelled
  unfold words Phrase.items
  cases hvalue : phrase.demand.value? with
  | none => exact Item.ofArguments_cons hspelling hflag h
  | some value =>
      cases hattached : phrase.attached with
      | false =>
          have hplain := phrase.noDash hattached value hvalue
          exact Item.ofArguments_cons hspelling hflag
            (Item.ofArguments_cons (Item.ne_separator hplain) (Item.ofArgument_plain hplain) h)
      | true =>
          have hseparator : phrase.spelling ++ "=" ++ value ≠ "--" := by
            intro heq
            have hmem : '=' ∈ (phrase.spelling ++ "=" ++ value).toList := by simp
            rw [heq] at hmem
            exact absurd hmem (by decide)
          exact Item.ofArguments_cons hseparator
            (Item.ofArgument_attached phrase.spelled value) h

namespace Demand

/-- The arguments once a flag is applied to its value, or by itself if it takes none. -/
def apply (demand : Demand) (arguments : Arguments) : Except Halt Arguments :=
  match demand.value? with
  | none => arguments.applyBare demand.flag
  | some value => arguments.applyValue value demand.flag

theorem takesValue_flag (demand : Demand) :
    demand.flag.takesValue = demand.value?.isSome := by
  cases demand <;> rfl

theorem exists_parse_of_sensible {field : Field} {raw : String}
    (h : (assign field raw).Sensible) : ∃ value, field.parse raw = .ok value := by
  cases hnumeric : field.isNumeric with
  | true => exact h hnumeric
  | false => exact ⟨.text raw, by simp [Field.parse, hnumeric]⟩

theorem lookup_of_known {choice : String} {level : Level}
    (h : (choice, level) ∈ Arguments.loggingChoices) :
    Arguments.loggingChoices.lookup choice = some level := by
  have hall : ∀ entry ∈ Arguments.loggingChoices,
      Arguments.loggingChoices.lookup entry.1 = some entry.2 := by
    decide
  exact hall (choice, level) h

end Demand

/-- The arguments with what a demand adds to them. -/
def Arguments.add (arguments : Arguments) (demand : Demand) : Arguments :=
  { arguments with
    edits := arguments.edits ++ demand.edits
    extract := demand.extraction?.elim arguments.extract .value
    rename := demand.renaming?.elim arguments.rename fun entry => .value entry.2
    hazard := demand.renaming?.elim arguments.hazard Prod.fst
    dryRun := .dryRun == demand || arguments.dryRun
    recursive := .recursive == demand || arguments.recursive
    logging := demand.level?.elim arguments.logging .value }

namespace Demand

theorem apply_cases (demand : Demand) (arguments : Arguments) :
    demand.Sensible ∧ demand.apply arguments = .ok (arguments.add demand) ∨
      ¬ demand.Sensible ∧ ∃ cause, demand.apply arguments =
        .error (.misuse (.wrongUse demand.flag (.badValue cause))) := by
  cases demand with
  | assign field raw =>
      cases hparse : field.parse raw with
      | ok value =>
          refine .inl ⟨fun _ => ⟨value, hparse⟩, ?_⟩
          simp only [apply, value?, flag, Arguments.applyValue, Arguments.add, edits, hparse]
          rfl
      | error cause =>
          refine .inr ⟨fun hsensible => ?_, cause, ?_⟩
          · obtain ⟨value, hvalue⟩ := exists_parse_of_sensible hsensible
            cases hparse.symm.trans hvalue
          · simp only [apply, value?, flag, Arguments.applyValue, hparse]
            rfl
  | extract source =>
      cases hread : Spec.read source with
      | ok spec =>
          refine .inl ⟨⟨spec, hread⟩, ?_⟩
          simp only [apply, value?, flag, Arguments.applyValue, Arguments.add, edits,
            List.append_nil, extraction?, hread]
          rfl
      | error cause =>
          refine .inr ⟨?_, .unknownField cause, ?_⟩
          · rintro ⟨spec, hspec⟩
            cases hread.symm.trans hspec
          · simp only [apply, value?, flag, Arguments.applyValue, hread]
            rfl
  | rename hazard source =>
      cases hread : Spec.read source with
      | ok spec =>
          refine .inl ⟨⟨spec, hread⟩, ?_⟩
          simp only [apply, value?, flag, Arguments.applyValue, Arguments.add, edits,
            List.append_nil, renaming?, hread]
          rfl
      | error cause =>
          refine .inr ⟨?_, .unknownField cause, ?_⟩
          · rintro ⟨spec, hspec⟩
            cases hread.symm.trans hspec
          · simp only [apply, value?, flag, Arguments.applyValue, hread]
            rfl
  | logging choice level known =>
      refine .inl ⟨trivial, ?_⟩
      simp only [apply, value?, flag, Arguments.applyValue, Arguments.add, edits, List.append_nil,
        lookup_of_known known]
      rfl
  | clear field => exact .inl ⟨trivial, rfl⟩
  | clearAll => exact .inl ⟨trivial, rfl⟩
  | dryRun =>
      refine .inl ⟨trivial, ?_⟩
      simp only [Arguments.add, edits, List.append_nil]
      rfl
  | recursive =>
      refine .inl ⟨trivial, ?_⟩
      simp only [Arguments.add, edits, List.append_nil]
      rfl

end Demand

namespace Arguments

theorem scan_bare (arguments : Arguments) (text : String) {flag : Flag}
    (h : flag.takesValue = false) (items : List Item) :
    scan arguments .waiting [] (.option text flag .none :: items) =
      (arguments.applyBare flag).bind fun arguments => scan arguments .waiting [] items := by
  rw [scan.eq_def]
  simp only [h, Bool.false_eq_true, if_false]
  rfl

theorem scan_items (phrase : Phrase) (arguments : Arguments) (items : List Item) :
    scan arguments .waiting [] (phrase.items ++ items) =
      (phrase.demand.apply arguments).bind fun arguments => scan arguments .waiting [] items := by
  have htakes := phrase.demand.takesValue_flag
  unfold Phrase.items Demand.apply
  cases hvalue : phrase.demand.value? with
  | none =>
      rw [hvalue, Option.isSome_none] at htakes
      exact scan_bare arguments phrase.spelling htakes items
  | some value =>
      rw [hvalue, Option.isSome_some] at htakes
      cases hattached : phrase.attached with
      | false =>
          simp only [Bool.false_eq_true, if_false, List.cons_append, List.nil_append, scan, htakes,
            if_true]
          rfl
      | true =>
          have hdashes : value.toList ≠ ['-', '-'] := fun heq =>
            phrase.noDashes hattached value hvalue (String.toList_inj.mp heq)
          simp only [if_true, List.cons_append, List.nil_append, scan, applyAttached, htakes,
            if_neg hdashes, String.ofList_toList]
          rfl

/-- The flags come to all that they ask for, or to the refusal of one of them. -/
theorem scan_phrases (phrases : List Phrase) (arguments : Arguments) (items : List Item) :
    (∀ phrase ∈ phrases, phrase.demand.Sensible) ∧
        scan arguments .waiting [] (phrases.flatMap Phrase.items ++ items) =
          scan ((phrases.map Phrase.demand).foldl add arguments) .waiting [] items ∨
      ∃ phrase ∈ phrases, ¬ phrase.demand.Sensible ∧
        ∃ cause, scan arguments .waiting [] (phrases.flatMap Phrase.items ++ items) =
          .error (.misuse (.wrongUse phrase.demand.flag (.badValue cause))) := by
  induction phrases generalizing arguments with
  | nil => exact .inl ⟨by simp, rfl⟩
  | cons phrase phrases ih =>
      rw [List.flatMap_cons, List.append_assoc, scan_items]
      rcases phrase.demand.apply_cases arguments with ⟨hsensible, happly⟩ | ⟨hnot, cause, happly⟩
      · rw [happly]
        rcases ih (arguments.add phrase.demand) with ⟨hall, hscan⟩ | ⟨other, hother, hrefused⟩
        · exact .inl ⟨List.forall_mem_cons.mpr ⟨hsensible, hall⟩, hscan⟩
        · exact .inr ⟨other, List.mem_cons_of_mem phrase hother, hrefused⟩
      · exact .inr ⟨phrase, List.mem_cons_self, hnot, cause, by rw [happly]; rfl⟩

theorem scan_files (arguments : Arguments) {intake : Intake} (hopen : intake ≠ .closed)
    (files : List String) : scan arguments intake [] (files.map .plain) =
      .ok { arguments with files := arguments.files ++ files } := by
  induction files generalizing arguments intake with
  | nil => simp [scan]
  | cons file files ih =>
      rw [List.map_cons, scan, if_neg hopen, ih _ (by decide)]
      simp

theorem getLast?_filterMap_concat {α : Type} (f : Demand → Option α) (demands : List Demand)
    (demand : Demand) : ((demands ++ [demand]).filterMap f).getLast? =
      (f demand).or (demands.filterMap f).getLast? := by
  rw [List.filterMap_append, List.getLast?_append]
  cases hf : f demand <;> simp [hf]

theorem ofDemands_concat (demands : List Demand) (demand : Demand) :
    ofDemands (demands ++ [demand]) [] = (ofDemands demands []).add demand := by
  simp only [ofDemands, add, getLast?_filterMap_concat, List.flatMap_append, List.flatMap_cons,
    List.flatMap_nil, List.append_nil, List.contains_append, List.contains_cons, List.contains_nil,
    Bool.or_false, mk.injEq, true_and]
  refine ⟨?_, ?_, ?_, Bool.or_comm _ _, Bool.or_comm _ _, ?_⟩
  · cases demand.extraction? <;> rfl
  · cases demand.renaming? <;> rfl
  · cases demand.renaming? <;> rfl
  · cases demand.level? <;> rfl

theorem foldl_add (demands : List Demand) :
    demands.foldl add none = ofDemands demands [] := by
  -- from the right, since the last demand has the last word
  induction demands using List.reverseRecOn with
  | nil => rfl
  | append_singleton demands demand ih =>
      rw [List.foldl_append, ih, ofDemands_concat]
      rfl

theorem edits_ofDemands_eq_nil {demands : List Demand} (files : List String)
    (h : ∀ demand ∈ demands, demand.Sensible) :
    (ofDemands demands files).edits = [] ↔ ∀ demand ∈ demands, demand.isEdit = false := by
  rw [ofDemands, List.flatMap_eq_nil_iff]
  refine forall₂_congr fun demand hdemand => ?_
  cases demand with
  | assign field raw =>
      obtain ⟨value, hvalue⟩ := Demand.exists_parse_of_sensible (h _ hdemand)
      simp [Demand.edits, Demand.isEdit, hvalue, Except.toOption]
  | clearAll => simp [Demand.edits, Demand.isEdit, Edit.clearAll, Field.all]
  | _ => simp [Demand.edits, Demand.isEdit]

theorem read_commandLine (phrases : List Phrase) {files : List String}
    (hfiles : ∀ file ∈ files, file.toList.head? ≠ some '-') :
    read (commandLine phrases files) =
      scan none .waiting [] (phrases.flatMap Phrase.items ++ files.map .plain) := by
  have hitems : Item.ofArguments (commandLine phrases files) =
      .ok (phrases.flatMap Phrase.items ++ files.map .plain) := by
    unfold commandLine
    induction phrases with
    | nil => exact Item.ofArguments_files hfiles
    | cons phrase phrases ih =>
        rw [List.flatMap_cons, List.flatMap_cons, List.append_assoc, List.append_assoc]
        exact phrase.ofArguments_words ih
  rw [read, hitems]

end Arguments

/-- A command line of flags in full spelling and files is understood exactly when every integer is
one and every spec can be read. Then it says what its flags ask for together, and there are no edits
without a flag for one. Otherwise a flag whose value makes no sense ends the program with status
two. -/
theorem read_eq_ok_iff_sensible (phrases : List Phrase) {files : List String}
    (hfiles : ∀ file ∈ files, file.toList.head? ≠ some '-') :
    (∀ arguments, Arguments.read (commandLine phrases files) = .ok arguments ↔
      (∀ phrase ∈ phrases, phrase.demand.Sensible) ∧
        arguments = .ofDemands (phrases.map Phrase.demand) files) ∧
    (∀ arguments, Arguments.read (commandLine phrases files) = .ok arguments →
      (arguments.edits = [] ↔ ∀ phrase ∈ phrases, phrase.demand.isEdit = false)) ∧
    ((∃ phrase ∈ phrases, ¬ phrase.demand.Sensible) →
      ∃ phrase ∈ phrases, ¬ phrase.demand.Sensible ∧
        (∃ cause, Arguments.read (commandLine phrases files) =
          .error (.misuse (.wrongUse phrase.demand.flag (.badValue cause)))) ∧
        ∀ tree, (execute (commandLine phrases files) tree).status = .ok 2) := by
  have hread := Arguments.read_commandLine phrases hfiles
  rcases Arguments.scan_phrases phrases .none (files.map .plain) with
    ⟨hall, hscan⟩ | ⟨phrase, hphrase, hsenseless, cause, hscan⟩
  · rw [hscan, Arguments.foldl_add, Arguments.scan_files _ (by decide)] at hread
    have hsaid : Arguments.read (commandLine phrases files) =
        .ok (.ofDemands (phrases.map Phrase.demand) files) := hread
    refine ⟨fun arguments => ⟨fun h => ?_, ?_⟩, fun arguments h => ?_, ?_⟩
    · rw [hsaid] at h
      cases h
      exact ⟨hall, rfl⟩
    · rintro ⟨-, rfl⟩
      exact hsaid
    · rw [hsaid] at h
      cases h
      have hdemands : ∀ demand ∈ phrases.map Phrase.demand, demand.Sensible :=
        List.forall_mem_map.mpr hall
      rw [Arguments.edits_ofDemands_eq_nil files hdemands, List.forall_mem_map]
    · rintro ⟨phrase, hphrase, hsenseless⟩
      exact absurd (hall phrase hphrase) hsenseless
  · rw [hscan] at hread
    refine ⟨fun arguments => ⟨fun h => ?_, ?_⟩, fun arguments h => ?_, fun _ => ?_⟩
    · rw [hread] at h
      cases h
    · rintro ⟨hall, -⟩
      exact absurd (hall phrase hphrase) hsenseless
    · rw [hread] at h
      cases h
    · refine ⟨phrase, hphrase, hsenseless, ⟨cause, hread⟩, fun tree => ?_⟩
      rw [execute, hread]
      rfl

theorem read_eq_ok_iff_sensible_track :
    Arguments.read
        ["-n", "3", "--artist=-x", "--clear", "--rename", "%T", "--rename-fs=%n", "a.mp3"] =
      .ok { Arguments.none with
        files := ["a.mp3"]
        edits := [.assign .track (.number 3), .assign .artist (.text "-x")] ++ Edit.clearAll
        rename := .value ⟨"%n", [.placeholder ⟨.track, none, .downcase⟩]⟩
        hazard := .filesystem } ∧
    (∃ cause, Arguments.read ["--dry-run", "-y", "late", "a.mp3"] =
      .error (.misuse (.wrongUse (.assign .year) (.badValue cause)))) ∧
    ∀ tree, (execute ["--dry-run", "-y", "late", "a.mp3"] tree).status = .ok 2 := by
  have hfiles : ∀ file ∈ ["a.mp3"], file.toList.head? ≠ some '-' := by decide +kernel
  constructor
  · let phrases : List Phrase :=
      [⟨.assign .track "3", "-n", false, by decide +kernel, by decide +kernel, by decide +kernel⟩,
        ⟨.assign .artist "-x", "--artist", true, by decide +kernel, by decide +kernel,
          by decide +kernel⟩,
        ⟨.clearAll, "--clear", false, by decide +kernel, by decide +kernel, by decide +kernel⟩,
        ⟨.rename .shell "%T", "--rename", false, by decide +kernel, by decide +kernel,
          by decide +kernel⟩,
        ⟨.rename .filesystem "%n", "--rename-fs", true, by decide +kernel, by decide +kernel,
          by decide +kernel⟩]
    have htrack : (Demand.assign .track "3").Sensible := fun _ => ⟨.number 3, by decide +kernel⟩
    have hartist : (Demand.assign .artist "-x").Sensible := fun _ => ⟨.text "-x", by decide +kernel⟩
    have htitle : (Demand.rename .shell "%T").Sensible :=
      ⟨⟨"%T", [.placeholder ⟨.title, none, .preserve⟩]⟩, by decide +kernel⟩
    have hnumber : (Demand.rename .filesystem "%n").Sensible :=
      ⟨⟨"%n", [.placeholder ⟨.track, none, .downcase⟩]⟩, by decide +kernel⟩
    have hsensible : ∀ phrase ∈ phrases, phrase.demand.Sensible := by
      simp only [phrases, List.forall_mem_cons, List.not_mem_nil, false_imp_iff, implies_true,
        and_true]
      exact ⟨htrack, hartist, trivial, htitle, hnumber⟩
    have hread := ((read_eq_ok_iff_sensible phrases hfiles).1 _).mpr ⟨hsensible, rfl⟩
    have hsaid : Arguments.ofDemands (phrases.map Phrase.demand) ["a.mp3"] =
        { Arguments.none with
          files := ["a.mp3"]
          edits := [.assign .track (.number 3), .assign .artist (.text "-x")] ++ Edit.clearAll
          rename := .value ⟨"%n", [.placeholder ⟨.track, none, .downcase⟩]⟩
          hazard := .filesystem } := by
      decide +kernel
    rw [← hsaid, ← hread]
    rfl
  · let phrases : List Phrase :=
      [⟨.dryRun, "--dry-run", false, by decide +kernel, by decide +kernel, by decide +kernel⟩,
        ⟨.assign .year "late", "-y", false,
          by decide +kernel, by decide +kernel, by decide +kernel⟩]
    have hsenseless : ¬ (Demand.assign .year "late").Sensible := by
      intro h
      obtain ⟨value, hvalue⟩ := h rfl
      rw [show Field.parse .year "late" = .error (.notAnInteger .year "late") by decide +kernel]
        at hvalue
      cases hvalue
    obtain ⟨phrase, hphrase, hnot, hcause, hstatus⟩ :=
      (read_eq_ok_iff_sensible phrases hfiles).2.2 ⟨phrases[1], by simp, hsenseless⟩
    have hyear : phrase.demand.flag = .assign .year := by
      simp only [phrases, List.mem_cons, List.not_mem_nil, or_false] at hphrase
      rcases hphrase with rfl | rfl
      · exact absurd trivial hnot
      · rfl
    rw [hyear] at hcause
    exact ⟨hcause, hstatus⟩

end LinerNotes
