import LinerNotes.Proofs.Rendering
import LinerNotes.Proofs.Cleaning
import LinerNotes.Proofs.Paths
import LinerNotes.Proofs.Places
import LinerNotes.Sheet

/-!
What a value can bring into a file name. Dangerous characters and apostrophes of a name come from
its spec, never from the values, so a spec without a slash names files within their directory only.
-/

namespace LinerNotes

open LinerNotes.Text

namespace Spec

/-- Whether a character stands in a spec: in a literal, or as the substitute of a placeholder. -/
def Brings (spec : Spec) (c : Char) : Prop :=
  (∃ text, .literal text ∈ spec.tokens ∧ c ∈ text) ∨ ∃ p ∈ spec.placeholders, p.substitute = some c

theorem of_mem_spell {tokens : List Token} {become : Placeholder → List Char} {c : Char}
    (h : c ∈ spell tokens ((placeholdersOf tokens).map become)) :
    (∃ text, .literal text ∈ tokens ∧ c ∈ text) ∨
      ∃ p ∈ placeholdersOf tokens, c ∈ become p := by
  induction tokens with
  | nil => cases h
  | cons token tokens ih =>
      cases token with
      | literal text =>
          rw [placeholdersOf_literal, spell, List.mem_append] at h
          rcases h with htext | hrest
          · exact .inl ⟨text, List.mem_cons_self, htext⟩
          · rcases ih hrest with ⟨other, hmem, hc⟩ | hplaceholder
            · exact .inl ⟨other, List.mem_cons_of_mem _ hmem, hc⟩
            · exact .inr hplaceholder
      | placeholder p =>
          rw [placeholdersOf_placeholder, List.map_cons, spell, List.mem_append] at h
          rcases h with hbecome | hrest
          · exact .inr ⟨p, List.mem_cons_self, hbecome⟩
          · rcases ih hrest with ⟨text, hmem, hc⟩ | ⟨q, hq, hc⟩
            · exact .inl ⟨text, List.mem_cons_of_mem _ hmem, hc⟩
            · exact .inr ⟨q, List.mem_cons_of_mem _ hq, hc⟩

theorem substitute_of_mem_filled {hazard : Hazard} {p : Placeholder} {text : String} {c : Char}
    (h : c ∈ filled (some hazard) p text) (hdanger : hazard.holds c = true ∨ c = '\'') :
    p.substitute = some c := by
  have hfallback : hazard.holds '_' = false := by
    cases hazard <;> decide +kernel
  obtain ⟨hquote, hunder | hsubstitute | ⟨-, hsafe⟩⟩ := Hazard.of_mem_clean h
  · subst hunder
    rcases hdanger with hholds | hquote'
    · rw [hfallback] at hholds
      cases hholds
    · exact absurd hquote' hquote
  · exact hsubstitute
  · have hsafe' : hazard.holds c = false := hsafe
    rcases hdanger with hholds | hquote'
    · rw [hsafe'] at hholds
      cases hholds
    · exact absurd hquote' hquote

theorem brings_of_mem_render {spec : Spec} {hazard : Hazard}
    {lookUp : Field → Except Failure Value} {name : String}
    (h : spec.render (some hazard) lookUp = .ok name) {c : Char} (hc : c ∈ name.toList)
    (hdanger : hazard.holds c = true ∨ c = '\'') : spec.Brings c := by
  obtain ⟨text, -, rfl⟩ := render_eq_ok h
  rw [String.toList_ofList] at hc
  rcases of_mem_spell hc with hliteral | ⟨p, hp, hfilled⟩
  · exact .inl hliteral
  · exact .inr ⟨p, hp, substitute_of_mem_filled hfilled hdanger⟩

theorem not_mem_newName {spec : Spec} {hazard : Hazard} {lookUp : Field → Except Failure Value}
    {path new : String} (hspec : ¬ spec.Brings '/')
    (h : spec.newName (some hazard) lookUp path = .ok new) : '/' ∉ new.toList := by
  obtain ⟨name, hrender, rfl⟩ := newName_eq_ok h
  have hslash : hazard.holds '/' = true := by
    cases hazard <;> decide +kernel
  rw [String.toList_append, List.mem_append]
  rintro (hname | hextension)
  · exact hspec (brings_of_mem_render hrender hname (.inl hslash))
  · exact Path.not_mem_extension path hextension

end Spec

theorem Tree.path_of_renameFile {tree : Tree} {source new : String} {dryRun : Bool}
    {renamed : Tree.Renamed} (h : tree.renameFile source new dryRun = .ok renamed) :
    Path.name source = new ∧ renamed.path = source ∨
      renamed.path = Path.join (Path.directory source) new := by
  rcases renameFile_eq_ok h with ⟨hname, rfl⟩ | ⟨-, rfl⟩ | ⟨-, file, location, -, -, rfl⟩
  · exact .inl ⟨hname, rfl⟩
  · exact .inr rfl
  · exact .inr rfl

/-- Whatever the values are, a dangerous character or an apostrophe in a name that a spec makes
stands in the spec itself. So a spec without a slash makes names without a slash, and the place of a
file under its new name has the directory of the old one and the new name as its last part. -/
theorem Spec.newName_stays (spec : Spec) (hazard : Hazard) (lookUp : Field → Except Failure Value) :
    (∀ name, spec.render (some hazard) lookUp = .ok name →
      ∀ c ∈ name.toList, hazard.holds c = true ∨ c = '\'' → spec.Brings c) ∧
    (¬ spec.Brings '/' → ∀ path new, spec.newName (some hazard) lookUp path = .ok new →
      '/' ∉ new.toList ∧
      Path.directory (Path.join (Path.directory path) new) = Path.directory path ∧
      Path.name (Path.join (Path.directory path) new) = new ∧
      ∀ (tree : Tree) dryRun renamed, tree.renameFile path new dryRun = .ok renamed →
        Path.directory renamed.path = Path.directory path ∧ Path.name renamed.path = new) := by
  constructor
  · intro name hrender c hc hdanger
    exact brings_of_mem_render hrender hc hdanger
  · intro hspec path new hnew
    have hslash := not_mem_newName hspec hnew
    obtain ⟨hdirectory, hname⟩ := Path.directory_join path hslash
    refine ⟨hslash, hdirectory, hname, ?_⟩
    intro tree dryRun renamed hrenamed
    rcases Tree.path_of_renameFile hrenamed with ⟨hsame, hpath⟩ | hpath
    · rw [hpath]
      exact ⟨rfl, hsame⟩
    · rw [hpath]
      exact ⟨hdirectory, hname⟩

/-- A value that asks for the way out of the directory and for a command. -/
example : Spec.newName ⟨"%-R.%T", [.placeholder ⟨.artist, some '-', .preserve⟩, .literal ['.'],
      .placeholder ⟨.title, none, .preserve⟩]⟩ (some .shell)
    (Sheet.ofEntries [(.artist, .text "../../etc"), (.title, .text "x'; rm -r $HOME")]).lookUp
    "music/a.mp3" = .ok "..-..-etc.xrm-rHOME.mp3" := by
  decide +kernel

end LinerNotes
