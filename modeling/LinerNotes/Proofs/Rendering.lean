import LinerNotes.Proofs.Spelling
import LinerNotes.Spec.Rendering

/-!
Names that a spec writes. The fields are filled in one after the other and the name is put together
from a table of positions; the result is what the tokens spell when each placeholder becomes its own
text.
-/

namespace LinerNotes.Spec

open LinerNotes.Text

theorem lookup_eq_some {α β : Type} [BEq α] [LawfulBEq α] {entries : List (α × β)} {key : α}
    {value : β} (hmem : (key, value) ∈ entries)
    (hunique : ∀ other, (key, other) ∈ entries → other = value) :
    entries.lookup key = some value := by
  induction entries with
  | nil => simp at hmem
  | cons entry rest ih =>
      obtain ⟨first, stored⟩ := entry
      by_cases h : key = first
      · subst h
        simp [hunique stored (by simp)]
      · have hne : (key == first) = false := beq_eq_false_iff_ne.mpr h
        rw [List.lookup_cons, hne]
        have hrest : (key, value) ∈ rest := by simpa [h] using hmem
        exact ih hrest fun other hother => hunique other (List.mem_cons_of_mem _ hother)

theorem mapM_eq_ok {ε α β : Type} {f : α → Except ε β} {g : α → β} {l : List α}
    (h : ∀ a ∈ l, f a = .ok (g a)) : l.mapM f = .ok (l.map g) := by
  induction l with
  | nil => rfl
  | cons a l ih =>
      rw [List.mapM_cons, h a (by simp), ih fun b hb => h b (List.mem_cons_of_mem a hb)]
      rfl

theorem fieldText_eq_ok_iff {lookUp : Field → Except Failure Value} {field : Field}
    {text : String} : fieldText lookUp field = .ok text ↔
      ∃ value, lookUp field = .ok value ∧ field.format value = .ok (.text text) := by
  cases hvalue : lookUp field with
  | error failure => simp [fieldText, fieldValue, hvalue, bind, Except.bind]
  | ok value =>
      cases hformat : field.format value with
      | error fault =>
          simp [fieldText, fieldValue, hvalue, hformat, Failure.ofNumeral, Except.mapError, bind,
            Except.bind]
      | ok shown =>
          cases shown <;>
            simp [fieldText, fieldValue, hvalue, hformat, Failure.ofNumeral, Except.mapError, bind,
              Except.bind, Value.text?, pure, Except.pure, throw, throwThe, MonadExceptOf.throw]

theorem mem_placeholdersOf {tokens : List Token} {p : Placeholder} :
    p ∈ placeholdersOf tokens ↔ .placeholder p ∈ tokens := by
  simp only [placeholdersOf, List.mem_filterMap]
  constructor
  · rintro ⟨token, htoken, hp⟩
    cases token with
    | literal text => simp [Token.placeholder?] at hp
    | placeholder q =>
        simp only [Token.placeholder?, Option.some.injEq] at hp
        rwa [← hp]
  · intro h
    exact ⟨_, h, rfl⟩

theorem mem_occurrences {field : Field} {tokens : List Token} {p : Placeholder} {i : Nat} :
    (p, i) ∈ occurrences field tokens ↔ p.field = field ∧ tokens[i]? = some (.placeholder p) := by
  simp only [occurrences, List.mem_filterMap, Prod.exists]
  constructor
  · rintro ⟨token, j, hmem, hfound⟩
    rw [List.mk_mem_zipIdx_iff_getElem?] at hmem
    cases token with
    | literal text => simp at hfound
    | placeholder q =>
        simp only [Option.ite_none_right_eq_some, Option.some.injEq, Prod.mk.injEq] at hfound
        obtain ⟨hfield, rfl, rfl⟩ := hfound
        exact ⟨hfield, hmem⟩
  · rintro ⟨hfield, htoken⟩
    refine ⟨.placeholder p, i, ?_, ?_⟩
    · rwa [List.mk_mem_zipIdx_iff_getElem?]
    · simp [hfield]

section

variable {hazard : Option Hazard} {lookUp : Field → Except Failure Value} {text : Field → String}
  {tokens : List Token}

theorem fillings_of_texts
    (h : ∀ p ∈ placeholdersOf tokens, fieldText lookUp p.field = .ok (text p.field)) :
    fillings hazard lookUp tokens = .ok (Field.all.flatMap fun field =>
      (occurrences field tokens).map fun (p, i) => (i, filled hazard p (text field))) := by
  have hfield : ∀ field ∈ Field.all, fillField hazard lookUp tokens field =
      .ok ((occurrences field tokens).map fun (p, i) => (i, filled hazard p (text field))) := by
    intro field _
    cases hplaces : occurrences field tokens with
    | nil => simp [fillField, hplaces]
    | cons place places =>
        obtain ⟨p, i⟩ := place
        have hplace : (p, i) ∈ occurrences field tokens := by simp [hplaces]
        obtain ⟨hfield, htoken⟩ := mem_occurrences.mp hplace
        have htext := h p (mem_placeholdersOf.mpr (List.mem_of_getElem? htoken))
        rw [hfield] at htext
        simp only [fillField, hplaces, htext]
        rfl
  simp only [fillings, mapM_eq_ok hfield]
  rfl

theorem lookup_fillings {p : Placeholder} {i : Nat} (h : tokens[i]? = some (.placeholder p)) :
    (Field.all.flatMap fun field =>
      (occurrences field tokens).map fun (p, i) => (i, filled hazard p (text field))).lookup i =
        some (filled hazard p (text p.field)) := by
  apply lookup_eq_some
  · simp only [List.mem_flatMap, List.mem_map]
    exact ⟨p.field, Field.mem_all p.field, (p, i), mem_occurrences.mpr ⟨rfl, h⟩, rfl⟩
  · intro other hother
    simp only [List.mem_flatMap, List.mem_map, Prod.exists, Prod.mk.injEq] at hother
    obtain ⟨field, -, q, j, hmem, rfl, rfl⟩ := hother
    obtain ⟨hfield, htoken⟩ := mem_occurrences.mp hmem
    rw [h] at htoken
    simp only [Option.some.injEq, Token.placeholder.injEq] at htoken
    rw [← hfield, htoken]

theorem positions_fillings (hazard : Option Hazard) (text : Field → String)
    (tokens : List Token) :
    (Field.all.flatMap fun field => (occurrences field tokens).map
      fun (p, i) => (i, filled hazard p (text field))).map Prod.fst =
        Field.all.flatMap fun field => (occurrences field tokens).map Prod.snd := by
  simp only [List.map_flatMap, List.map_map]
  rfl

theorem assemble_eq_spell {filling : List (Nat × List Char)} {become : Placeholder → List Char}
    (h : ∀ i p, tokens[i]? = some (.placeholder p) → filling.lookup i = some (become p)) :
    assemble filling tokens = spell tokens ((placeholdersOf tokens).map become) := by
  obtain ⟨piece, hassemble, hliteral, hplaceholder⟩ : ∃ piece : Token × Nat → List Char,
      assemble filling tokens = tokens.zipIdx.flatMap piece ∧
      (∀ text i, piece (.literal text, i) = text) ∧
      ∀ p i, piece (.placeholder p, i) = (filling.lookup i).getD [] :=
    ⟨_, rfl, fun _ _ => rfl, fun _ _ => rfl⟩
  -- the same for the tokens from any position on
  have hfrom : ∀ (rest : List Token) (start : Nat),
      (∀ i p, rest[i]? = some (.placeholder p) →
        filling.lookup (start + i) = some (become p)) →
      (rest.zipIdx start).flatMap piece = spell rest ((placeholdersOf rest).map become) := by
    intro rest
    induction rest with
    | nil =>
        intro start _
        rfl
    | cons token rest ih =>
        intro start hrest
        have htail := ih (start + 1) fun i p hp => by
          have := hrest (i + 1) p hp
          rwa [Nat.add_comm i 1, ← Nat.add_assoc] at this
        rw [List.zipIdx_cons, List.flatMap_cons, htail]
        cases token with
        | literal text => rw [hliteral, placeholdersOf_literal, spell]
        | placeholder p =>
            have hp : filling.lookup start = some (become p) := hrest 0 p rfl
            simp [hplaceholder, hp, spell]
  rw [hassemble]
  exact hfrom tokens 0 fun i p hp => by simpa using h i p hp

end

/-- A name is written when every field of the spec has a text, and it is what the tokens spell. -/
theorem render_of_texts {spec : Spec} {lookUp : Field → Except Failure Value}
    {text : Field → String} (hazard : Option Hazard)
    (h : ∀ p ∈ spec.placeholders, fieldText lookUp p.field = .ok (text p.field)) :
    spec.render hazard lookUp = .ok (String.ofList (spell spec.tokens
      (spec.placeholders.map fun p => filled hazard p (text p.field)))) := by
  have hassemble : assemble (Field.all.flatMap fun field => (occurrences field spec.tokens).map
      fun (p, i) => (i, filled hazard p (text field))) spec.tokens =
        spell spec.tokens (spec.placeholders.map fun p => filled hazard p (text p.field)) :=
    assemble_eq_spell fun i p hp => lookup_fillings hp
  simp only [render, fillings_of_texts h]
  exact congrArg (fun name => Except.ok (String.ofList name)) hassemble

theorem mapM_cons_eq_ok {ε α β : Type} {f : α → Except ε β} {first : α} {rest : List α}
    {bs : List β} (h : (first :: rest).mapM f = .ok bs) :
    ∃ b others, f first = .ok b ∧ rest.mapM f = .ok others ∧ bs = b :: others := by
  rw [List.mapM_cons] at h
  cases hfirst : f first with
  | error cause =>
      rw [hfirst] at h
      cases h
  | ok b =>
      cases hrest : rest.mapM f with
      | error cause =>
          rw [hfirst, hrest] at h
          cases h
      | ok others =>
          rw [hfirst, hrest] at h
          cases h
          exact ⟨b, others, rfl, rfl, rfl⟩

theorem exists_of_mapM_eq_ok {ε α β : Type} {f : α → Except ε β} {l : List α} {bs : List β}
    (h : l.mapM f = .ok bs) {a : α} (ha : a ∈ l) : ∃ b, f a = .ok b := by
  induction l generalizing bs with
  | nil => cases ha
  | cons first rest ih =>
      obtain ⟨b, others, hfirst, hrest, -⟩ := mapM_cons_eq_ok h
      rcases List.mem_cons.mp ha with rfl | hmem
      · exact ⟨b, hfirst⟩
      · exact ih hrest hmem

theorem exists_of_mem_mapM {ε α β : Type} {f : α → Except ε β} {l : List α} {bs : List β}
    (h : l.mapM f = .ok bs) {b : β} (hb : b ∈ bs) : ∃ a ∈ l, f a = .ok b := by
  induction l generalizing bs with
  | nil =>
      cases h
      cases hb
  | cons first rest ih =>
      obtain ⟨found, others, hfirst, hrest, rfl⟩ := mapM_cons_eq_ok h
      rcases List.mem_cons.mp hb with rfl | hmem
      · exact ⟨first, List.mem_cons_self, hfirst⟩
      · obtain ⟨a, ha, hfa⟩ := ih hrest hmem
        exact ⟨a, List.mem_cons_of_mem first ha, hfa⟩

theorem exists_of_mapM_eq_error {ε α β : Type} {f : α → Except ε β} {l : List α} {cause : ε}
    (h : l.mapM f = .error cause) : ∃ a ∈ l, f a = .error cause := by
  induction l with
  | nil => cases h
  | cons first rest ih =>
      rw [List.mapM_cons] at h
      cases hfirst : f first with
      | error other =>
          rw [hfirst] at h
          cases h
          exact ⟨first, List.mem_cons_self, hfirst⟩
      | ok found =>
          cases hrest : rest.mapM f with
          | error other =>
              rw [hfirst, hrest] at h
              cases h
              obtain ⟨a, ha, hfa⟩ := ih hrest
              exact ⟨a, List.mem_cons_of_mem first ha, hfa⟩
          | ok others =>
              rw [hfirst, hrest] at h
              cases h

theorem render_eq_ok {spec : Spec} {hazard : Option Hazard} {lookUp : Field → Except Failure Value}
    {name : String} (h : spec.render hazard lookUp = .ok name) :
    ∃ text : Field → String,
      (∀ p ∈ spec.placeholders, fieldText lookUp p.field = .ok (text p.field)) ∧
      name = String.ofList (spell spec.tokens
        (spec.placeholders.map fun p => filled hazard p (text p.field))) := by
  have hfield : ∀ p ∈ spec.placeholders, ∃ text, fieldText lookUp p.field = .ok text := by
    intro p hp
    cases hfillings : Field.all.mapM (fillField hazard lookUp spec.tokens) with
    | error failure =>
        rw [render, fillings, hfillings] at h
        cases h
    | ok byField =>
        obtain ⟨filling, hfilling⟩ := exists_of_mapM_eq_ok hfillings (Field.mem_all p.field)
        obtain ⟨i, hi⟩ := List.mem_iff_getElem?.mp (mem_placeholdersOf.mp hp)
        have hplace : (p, i) ∈ occurrences p.field spec.tokens := mem_occurrences.mpr ⟨rfl, hi⟩
        cases htext : fieldText lookUp p.field with
        | ok text => exact ⟨text, rfl⟩
        | error failure =>
            unfold fillField at hfilling
            split at hfilling
            · rename_i hnone
              rw [hnone] at hplace
              cases hplace
            · rw [htext] at hfilling
              cases hfilling
  let text : Field → String := fun field => ((fieldText lookUp field).toOption).getD ""
  have htext : ∀ p ∈ spec.placeholders, fieldText lookUp p.field = .ok (text p.field) := by
    intro p hp
    obtain ⟨found, hfound⟩ := hfield p hp
    simp only [text, hfound, Except.toOption, Option.getD_some]
  refine ⟨text, htext, ?_⟩
  rw [render_of_texts hazard htext] at h
  cases h
  rfl

theorem exists_of_render_eq_error {spec : Spec} {hazard : Option Hazard}
    {lookUp : Field → Except Failure Value} {failure : Failure}
    (h : spec.render hazard lookUp = .error failure) :
    ∃ p ∈ spec.placeholders, fieldText lookUp p.field = .error failure := by
  cases hfillings : Field.all.mapM (fillField hazard lookUp spec.tokens) with
  | ok byField =>
      rw [render, fillings, hfillings] at h
      cases h
  | error cause =>
      rw [render, fillings, hfillings] at h
      cases h
      obtain ⟨field, -, hfield⟩ := exists_of_mapM_eq_error hfillings
      unfold fillField at hfield
      split at hfield
      · cases hfield
      · rename_i hplaces
        obtain ⟨⟨p, i⟩, hplace⟩ := List.exists_mem_of_ne_nil _ hplaces
        obtain ⟨rfl, htoken⟩ := mem_occurrences.mp hplace
        refine ⟨p, mem_placeholdersOf.mpr (List.mem_of_getElem? htoken), ?_⟩
        cases htext : fieldText lookUp p.field with
        | error other =>
            rw [htext] at hfield
            cases hfield
            rfl
        | ok text =>
            rw [htext] at hfield
            cases hfield

theorem newName_of_render {spec : Spec} {hazard : Option Hazard}
    {lookUp : Field → Except Failure Value} {name : String}
    (h : spec.render hazard lookUp = .ok name) (path : String) :
    spec.newName hazard lookUp path = .ok (name ++ Path.extension path) := by
  rw [newName, h]
  rfl

theorem newName_eq_ok {spec : Spec} {hazard : Option Hazard}
    {lookUp : Field → Except Failure Value} {path new : String}
    (h : spec.newName hazard lookUp path = .ok new) :
    ∃ name, spec.render hazard lookUp = .ok name ∧ new = name ++ Path.extension path := by
  cases hrender : spec.render hazard lookUp with
  | error failure =>
      rw [newName, hrender] at h
      cases h
  | ok name =>
      rw [newName_of_render hrender] at h
      cases h
      exact ⟨name, rfl, rfl⟩

end LinerNotes.Spec
