import Mathlib.Data.List.Infix
import LinerNotes.Proofs.Filling

/-!
The written form of a spec. A row of tokens is in normal form if nothing in it could be read in
another way; the texts that can be read and the rows in normal form correspond to each other one to
one, by reading in one direction and by writing the tokens down in the other.
-/

namespace LinerNotes

open LinerNotes.Text

/-- The letter that stands for a field in a spec; the lowercase letter downcases the value. -/
def LetterCase.letterFor (letterCase : LetterCase) (field : Field) : Char :=
  match letterCase with
  | .downcase => field.letter
  | .preserve => field.letter.toUpper

def Token.written : Token → List Char
  | .literal text => text
  | .placeholder p => '%' :: (p.substitute.toList ++ [p.letterCase.letterFor p.field])

namespace Spec

/-- The text that tokens are written as, one after the other. -/
def written (tokens : List Token) : List Char :=
  tokens.flatMap Token.written

/-- The texts that read as a placeholder: a percent sign, at most one substitute, and a letter. -/
inductive IsMark : List Char → Prop
  | mk (substitute : Option Char) (letter : Char)
      (hsubstitute : ∀ x ∈ substitute, isSubstitute x = true)
      (hletter : isEnglishLetter letter = true) : IsMark ('%' :: (substitute.toList ++ [letter]))

/-- Whether the tokens are as reading leaves them: no literal is empty or stands next to another, no
substitute is a letter or a number, no literal holds a placeholder, and no percent sign at the end
of a literal could take the percent sign of a placeholder as its substitute. -/
structure Normal (tokens : List Token) : Prop where
  filled : .literal [] ∉ tokens
  apart : ∀ text other, ¬ [.literal text, .literal other] <:+: tokens
  substitutes : ∀ p, .placeholder p ∈ tokens → ∀ x ∈ p.substitute, isSubstitute x = true
  plain : ∀ text, .literal text ∈ tokens → ∀ mark, IsMark mark → ¬ mark <:+: text
  closed : ∀ text p, p.substitute = none →
    ¬ [.literal (text ++ ['%']), .placeholder p] <:+: tokens

theorem of_isEnglishLetter (holds : Char → Bool)
    (hall : "abcdefghijklmnopqrstuvwxyzABCDEFGHIJKLMNOPQRSTUVWXYZ".toList.all holds = true)
    {c : Char} (h : isEnglishLetter c = true) : holds c = true := by
  apply List.all_eq_true.mp hall
  have hrange : (97 ≤ c.toNat ∧ c.toNat ≤ 122) ∨ (65 ≤ c.toNat ∧ c.toNat ≤ 90) := by
    simpa [isEnglishLetter, Char.le_def, UInt32.le_iff_toNat_le] using h
  rw [← Char.ofNat_toNat c]
  generalize c.toNat = n at hrange
  rcases hrange with ⟨hlow, hhigh⟩ | ⟨hlow, hhigh⟩
  all_goals interval_cases n <;> decide

theorem isAlphanumeric_of_isEnglishLetter {c : Char} (h : isEnglishLetter c = true) :
    isAlphanumeric c = true :=
  of_isEnglishLetter isAlphanumeric (by decide +kernel) h

theorem isEnglishLetter_letterFor (letterCase : LetterCase) (field : Field) :
    isEnglishLetter (letterCase.letterFor field) = true := by
  cases letterCase <;> cases field <;> decide +kernel

theorem placeholderFor_letterFor (p : Placeholder) :
    placeholderFor p.substitute (p.letterCase.letterFor p.field) = .ok p := by
  have hfield : Field.ofLetter? (p.letterCase.letterFor p.field) = some p.field := by
    cases p.letterCase <;> cases p.field <;> decide +kernel
  have hcase : (if 'a' ≤ p.letterCase.letterFor p.field ∧ p.letterCase.letterFor p.field ≤ 'z'
      then LetterCase.downcase else .preserve) = p.letterCase := by
    cases p.letterCase <;> cases p.field <;> decide +kernel
  simp only [placeholderFor, hfield, hcase]

theorem of_placeholderFor {substitute : Option Char} {letter : Char} {p : Placeholder}
    (hletter : isEnglishLetter letter = true) (h : placeholderFor substitute letter = .ok p) :
    p.substitute = substitute ∧ p.letterCase.letterFor p.field = letter := by
  have hback : ∀ c, isEnglishLetter c = true → ∀ field ∈ Field.ofLetter? c,
      (if 'a' ≤ c ∧ c ≤ 'z' then LetterCase.downcase else .preserve).letterFor field = c := by
    intro c hc
    have hdecide := of_isEnglishLetter (fun c => decide (∀ field ∈ Field.ofLetter? c,
      (if 'a' ≤ c ∧ c ≤ 'z' then LetterCase.downcase else .preserve).letterFor field = c))
      (by decide +kernel) hc
    exact of_decide_eq_true hdecide
  unfold placeholderFor at h
  split at h
  · rename_i field hfield
    cases h
    exact ⟨rfl, hback letter hletter field hfield⟩
  · cases h

/-- Whether a text begins with what reads as a placeholder. -/
def Opens (s : List Char) : Prop :=
  ∃ mark, IsMark mark ∧ mark <+: s

theorem opens_mark (substitute : Option Char) {letter : Char}
    (hsubstitute : ∀ x ∈ substitute, isSubstitute x = true)
    (hletter : isEnglishLetter letter = true) (rest : List Char) :
    Opens ('%' :: (substitute.toList ++ letter :: rest)) :=
  ⟨_, .mk substitute letter hsubstitute hletter, rest, by simp⟩

theorem opens_iff {s : List Char} :
    Opens s ↔ ∃ substitute letter rest, (∀ x ∈ substitute, isSubstitute x = true) ∧
      isEnglishLetter letter = true ∧ s = '%' :: (Option.toList substitute ++ letter :: rest) := by
  constructor
  · rintro ⟨_, ⟨substitute, letter, hsubstitute, hletter⟩, rest, rfl⟩
    exact ⟨substitute, letter, rest, hsubstitute, hletter, by simp⟩
  · rintro ⟨substitute, letter, rest, hsubstitute, hletter, rfl⟩
    exact opens_mark substitute hsubstitute hletter rest

theorem Opens.append {s : List Char} (h : Opens s) (rest : List Char) : Opens (s ++ rest) := by
  obtain ⟨mark, hmark, hfront⟩ := h
  exact ⟨mark, hmark, hfront.trans (List.prefix_append s rest)⟩

theorem Opens.of_append {s rest : List Char} (h : Opens (s ++ rest)) (hlength : 3 ≤ s.length) :
    Opens s := by
  obtain ⟨mark, hmark, hfront⟩ := h
  refine ⟨mark, hmark, List.prefix_of_prefix_length_le hfront (List.prefix_append s rest) ?_⟩
  obtain ⟨substitute, letter, -, -⟩ := hmark
  cases substitute <;> simp <;> omega

theorem not_isSubstitute_of_isEnglishLetter {c : Char} (h : isEnglishLetter c = true) :
    isSubstitute c = false := by
  simp [isSubstitute, isAlphanumeric_of_isEnglishLetter h]

theorem tokensOf_mark {substitute : Option Char} {letter : Char}
    (hsubstitute : ∀ x ∈ substitute, isSubstitute x = true)
    (hletter : isEnglishLetter letter = true) (rest : List Char) :
    tokensOf ('%' :: (substitute.toList ++ letter :: rest)) =
      consPlaceholder substitute letter (tokensOf rest) := by
  cases substitute with
  | some x =>
      have hx : isSubstitute x = true := hsubstitute x rfl
      simp [tokensOf, hx, hletter]
  | none =>
      have hx := not_isSubstitute_of_isEnglishLetter hletter
      cases rest with
      | nil => simp [tokensOf, hletter]
      | cons c rest => simp [tokensOf, hx, hletter]

theorem tokensOf_of_not_opens {c : Char} {rest : List Char} (h : ¬ Opens (c :: rest)) :
    tokensOf (c :: rest) = consLiteral c <$> tokensOf rest := by
  have hshort : ∀ letter more, rest = letter :: more →
      ¬ (c = '%' ∧ isEnglishLetter letter = true) := by
    rintro letter more rfl ⟨rfl, hletter⟩
    exact h (opens_mark none (by simp) hletter more)
  have hlong : ∀ x letter more, rest = x :: letter :: more →
      ¬ (c = '%' ∧ isSubstitute x = true ∧ isEnglishLetter letter = true) := by
    rintro x letter more rfl ⟨rfl, hx, hletter⟩
    exact h (opens_mark (some x) (by simpa using hx) hletter more)
  match rest with
  | [] => rfl
  | [letter] => simp only [tokensOf, hshort letter [] rfl, if_false]
  | x :: letter :: more =>
      rw [tokensOf, if_neg (hlong x letter more rfl), if_neg (hshort x (letter :: more) rfl)]

/-- A text is empty, begins with a placeholder, or begins with a literal character; reading goes on
behind that. -/
theorem reading_induction {motive : List Char → Prop} (nil : motive [])
    (mark : ∀ (substitute : Option Char) (letter : Char) (rest : List Char),
      (∀ x ∈ substitute, isSubstitute x = true) → isEnglishLetter letter = true → motive rest →
        motive ('%' :: (substitute.toList ++ letter :: rest)))
    (literal : ∀ c rest, ¬ Opens (c :: rest) → motive rest → motive (c :: rest))
    (s : List Char) : motive s := by
  induction hlength : s.length using Nat.strong_induction_on generalizing s with
  | _ n ih =>
      subst hlength
      by_cases hopens : Opens s
      · obtain ⟨_, ⟨substitute, letter, hsubstitute, hletter⟩, rest, rfl⟩ := hopens
        simp only [List.cons_append, List.append_assoc, List.nil_append] at ih ⊢
        refine mark substitute letter rest hsubstitute hletter (ih rest.length ?_ rest rfl)
        simp only [List.length_cons, List.length_append]
        omega
      · cases s with
        | nil => exact nil
        | cons c rest => exact literal c rest hopens (ih rest.length (by simp) rest rfl)

theorem normal_nil : Normal [] where
  filled := by simp
  apart := by simp
  substitutes := by simp
  plain := by simp
  closed := by simp

theorem normal_placeholder_cons {p : Placeholder} {tokens : List Token} :
    Normal (.placeholder p :: tokens) ↔
      (∀ x ∈ p.substitute, isSubstitute x = true) ∧ Normal tokens := by
  constructor
  · intro h
    refine ⟨h.substitutes p List.mem_cons_self, ?_, ?_, ?_, ?_, ?_⟩
    · exact fun hmem => h.filled (List.mem_cons_of_mem _ hmem)
    · exact fun text other hpart => h.apart text other (List.infix_cons hpart)
    · exact fun q hmem => h.substitutes q (List.mem_cons_of_mem _ hmem)
    · exact fun text hmem => h.plain text (List.mem_cons_of_mem _ hmem)
    · exact fun text q hq hpart => h.closed text q hq (List.infix_cons hpart)
  · rintro ⟨hp, h⟩
    refine ⟨?_, ?_, ?_, ?_, ?_⟩
    · simpa using h.filled
    · intro text other hpart
      rw [List.infix_cons_iff] at hpart
      rcases hpart with hfront | hpart
      · simp at hfront
      · exact h.apart text other hpart
    · intro q hmem
      rcases List.mem_cons.mp hmem with heq | hmem
      · cases heq
        exact hp
      · exact h.substitutes q hmem
    · intro text hmem
      exact h.plain text (by simpa using hmem)
    · intro text q hq hpart
      rw [List.infix_cons_iff] at hpart
      rcases hpart with hfront | hpart
      · simp at hfront
      · exact h.closed text q hq hpart

theorem normal_literal_cons {text : List Char} {tokens : List Token} :
    Normal (.literal text :: tokens) ↔
      text ≠ [] ∧ (∀ mark, IsMark mark → ¬ mark <:+: text) ∧
        (∀ other, ¬ [.literal other] <+: tokens) ∧
        (∀ p, p.substitute = none → [.placeholder p] <+: tokens → text.getLast? ≠ some '%') ∧
        Normal tokens := by
  constructor
  · intro h
    refine ⟨?_, h.plain text List.mem_cons_self, ?_, ?_, ?_, ?_, ?_, ?_, ?_⟩
    · rintro rfl
      exact h.filled List.mem_cons_self
    · intro other hfront
      exact h.apart text other (List.cons_prefix_cons.mpr ⟨rfl, hfront⟩).isInfix
    · intro p hp hfront hlast
      obtain ⟨before, rfl⟩ := List.getLast?_eq_some_iff.mp hlast
      exact h.closed before p hp (List.cons_prefix_cons.mpr ⟨rfl, hfront⟩).isInfix
    · exact fun hmem => h.filled (List.mem_cons_of_mem _ hmem)
    · exact fun first other hpart => h.apart first other (List.infix_cons hpart)
    · exact fun p hmem => h.substitutes p (List.mem_cons_of_mem _ hmem)
    · exact fun other hmem => h.plain other (List.mem_cons_of_mem _ hmem)
    · exact fun other p hp hpart => h.closed other p hp (List.infix_cons hpart)
  · rintro ⟨hne, hplain, hapart, hclosed, h⟩
    refine ⟨?_, ?_, ?_, ?_, ?_⟩
    · intro hmem
      rcases List.mem_cons.mp hmem with heq | hmem
      · cases heq
        exact hne rfl
      · exact h.filled hmem
    · intro first other hpart
      rw [List.infix_cons_iff] at hpart
      rcases hpart with hfront | hpart
      · exact hapart other (List.cons_prefix_cons.mp hfront).2
      · exact h.apart first other hpart
    · intro p hmem
      exact h.substitutes p (by simpa using hmem)
    · intro other hmem
      rcases List.mem_cons.mp hmem with heq | hmem
      · cases heq
        exact hplain
      · exact h.plain other hmem
    · intro other p hp hpart
      rw [List.infix_cons_iff] at hpart
      rcases hpart with hfront | hpart
      · obtain ⟨heq, hnext⟩ := List.cons_prefix_cons.mp hfront
        cases heq
        exact hclosed p hp hnext (by simp)
      · exact h.closed other p hp hpart

theorem not_infix_singleton {mark : List Char} (hmark : IsMark mark) (c : Char) :
    ¬ mark <:+: [c] := by
  intro hpart
  obtain ⟨substitute, letter, -, -⟩ := hmark
  have hlength := hpart.length_le
  simp at hlength

theorem normal_consLiteral {c : Char} {tokens : List Token} (h : Normal tokens)
    (hopens : ¬ Opens (c :: written tokens)) : Normal (consLiteral c tokens) := by
  cases tokens with
  | nil =>
      refine normal_literal_cons.mpr ⟨by simp, ?_, by simp, by simp, h⟩
      exact fun mark hmark => not_infix_singleton hmark c
  | cons token rest =>
      cases token with
      | placeholder p =>
          refine normal_literal_cons.mpr ⟨by simp, ?_, by simp, ?_, h⟩
          · exact fun mark hmark => not_infix_singleton hmark c
          · intro q hq hfront hlast
            simp only [List.cons_prefix_cons, Token.placeholder.injEq, List.nil_prefix,
              and_true] at hfront
            subst hfront
            simp only [List.getLast?_singleton, Option.some.injEq] at hlast
            subst hlast
            apply hopens
            have hwritten : written (.placeholder q :: rest) =
                '%' :: q.letterCase.letterFor q.field :: written rest := by
              simp [written, Token.written, hq]
            have hpercent : isSubstitute '%' = true := by decide +kernel
            rw [hwritten]
            exact opens_mark (some '%') (by simpa using hpercent) (isEnglishLetter_letterFor _ _)
              (written rest)
      | literal text =>
          obtain ⟨hne, hplain, hapart, hclosed, hrest⟩ := normal_literal_cons.mp h
          refine normal_literal_cons.mpr ⟨by simp, ?_, hapart, ?_, hrest⟩
          · intro mark hmark hpart
            rw [List.infix_cons_iff] at hpart
            rcases hpart with hfront | hpart
            · have hfound : Opens (c :: text) := ⟨mark, hmark, hfront⟩
              exact hopens (hfound.append (written rest))
            · exact hplain mark hmark hpart
          · intro p hp hfront hlast
            apply hclosed p hp hfront
            rwa [List.getLast?_cons_of_ne_nil hne] at hlast

theorem written_consLiteral (c : Char) (tokens : List Token) :
    written (consLiteral c tokens) = c :: written tokens := by
  cases tokens with
  | nil => rfl
  | cons token rest => cases token <;> rfl

theorem consPlaceholder_eq_ok {substitute : Option Char} {letter : Char}
    {rest : Except UnknownField (List Token)} {tokens : List Token}
    (h : consPlaceholder substitute letter rest = .ok tokens) :
    ∃ p others, placeholderFor substitute letter = .ok p ∧ rest = .ok others ∧
      tokens = .placeholder p :: others := by
  unfold consPlaceholder at h
  cases hp : placeholderFor substitute letter with
  | error cause => simp [hp, bind, Except.bind] at h
  | ok p =>
      cases rest with
      | error cause => simp [hp, bind, Except.bind] at h
      | ok others =>
          simp only [hp, bind, Except.bind, pure, Except.pure, Except.ok.injEq] at h
          exact ⟨p, others, rfl, rfl, h.symm⟩

theorem eq_consLiteral_of_map {c : Char} {result : Except UnknownField (List Token)}
    {tokens : List Token} (h : consLiteral c <$> result = .ok tokens) :
    ∃ others, result = .ok others ∧ tokens = consLiteral c others := by
  cases result with
  | error cause => cases h
  | ok others =>
      cases h
      exact ⟨others, rfl, rfl⟩

theorem normal_of_tokensOf {s : List Char} {tokens : List Token} (h : tokensOf s = .ok tokens) :
    Normal tokens ∧ written tokens = s := by
  induction s using reading_induction generalizing tokens with
  | nil =>
      cases h
      exact ⟨normal_nil, rfl⟩
  | mark substitute letter rest hsubstitute hletter ih =>
      rw [tokensOf_mark hsubstitute hletter] at h
      obtain ⟨p, others, hp, hothers, rfl⟩ := consPlaceholder_eq_ok h
      obtain ⟨hnormal, hwritten⟩ := ih hothers
      obtain ⟨rfl, rfl⟩ := of_placeholderFor hletter hp
      refine ⟨normal_placeholder_cons.mpr ⟨hsubstitute, hnormal⟩, ?_⟩
      rw [← hwritten]
      simp [written, Token.written]
  | literal c rest hopens ih =>
      rw [tokensOf_of_not_opens hopens] at h
      obtain ⟨others, hothers, rfl⟩ := eq_consLiteral_of_map h
      obtain ⟨hnormal, rfl⟩ := ih hothers
      exact ⟨normal_consLiteral hnormal hopens, written_consLiteral c others⟩

theorem Normal.not_opens {c : Char} {text : List Char} {tokens : List Token}
    (h : Normal (.literal (c :: text) :: tokens)) : ¬ Opens (c :: (text ++ written tokens)) := by
  obtain ⟨-, hplain, hapart, hclosed, hrest⟩ := normal_literal_cons.mp h
  have hinside : ¬ Opens (c :: text) := by
    rintro ⟨mark, hmark, hfront⟩
    exact hplain mark hmark hfront.isInfix
  cases tokens with
  | nil => simpa [written] using hinside
  | cons token rest =>
      cases token with
      | literal other => exact absurd ⟨rest, rfl⟩ (hapart other)
      | placeholder p =>
          intro hopens
          obtain ⟨hsubstitute, -⟩ := normal_placeholder_cons.mp hrest
          have hwritten : written (.placeholder p :: rest) = '%' :: (p.substitute.toList ++
              p.letterCase.letterFor p.field :: written rest) := by
            simp [written, Token.written]
          have hpercent : isEnglishLetter '%' = false := by decide +kernel
          rw [hwritten] at hopens
          match text with
          | [] =>
              -- the mark would be two percent signs and the letter of the placeholder
              obtain ⟨substitute, letter, more, -, hletter, heq⟩ := opens_iff.mp hopens
              cases substitute with
              | none =>
                  simp only [List.nil_append, Option.toList_none, List.cons.injEq] at heq
                  rw [← heq.2.1, hpercent] at hletter
                  cases hletter
              | some x =>
                  simp only [List.nil_append, Option.toList_some, List.cons_append,
                    List.cons.injEq] at heq
                  obtain ⟨rfl, -, heq⟩ := heq
                  cases hp : p.substitute with
                  | none => exact hclosed p hp ⟨rest, rfl⟩ rfl
                  | some y =>
                      simp only [hp, Option.toList_some, List.cons_append, List.cons.injEq] at heq
                      have hy := hsubstitute y hp
                      rw [heq.1, not_isSubstitute_of_isEnglishLetter hletter] at hy
                      cases hy
          | [d] =>
              obtain ⟨substitute, letter, more, -, hletter, heq⟩ := opens_iff.mp hopens
              cases substitute with
              | none =>
                  simp only [List.cons_append, Option.toList_none, List.nil_append,
                    List.cons.injEq] at heq
                  obtain ⟨rfl, rfl, -⟩ := heq
                  exact hinside (opens_mark none (by simp) hletter [])
              | some x =>
                  simp only [List.cons_append, Option.toList_some, List.nil_append,
                    List.cons.injEq] at heq
                  rw [← heq.2.2.1, hpercent] at hletter
                  cases hletter
          | d :: e :: text =>
              have hlong : 3 ≤ (c :: d :: e :: text).length := by simp
              rw [← List.cons_append] at hopens
              exact hinside (hopens.of_append hlong)

theorem Normal.of_literal_cons {c d : Char} {text : List Char} {tokens : List Token}
    (h : Normal (.literal (c :: d :: text) :: tokens)) :
    Normal (.literal (d :: text) :: tokens) := by
  obtain ⟨-, hplain, hapart, hclosed, hrest⟩ := normal_literal_cons.mp h
  refine normal_literal_cons.mpr ⟨by simp, ?_, hapart, ?_, hrest⟩
  · exact fun mark hmark hpart => hplain mark hmark (List.infix_cons hpart)
  · intro p hp hfront hlast
    exact hclosed p hp hfront (by rwa [List.getLast?_cons_cons])

theorem tokensOf_literal {text : List Char} {tokens : List Token}
    (h : Normal (.literal text :: tokens)) (hrest : tokensOf (written tokens) = .ok tokens) :
    tokensOf (text ++ written tokens) = .ok (.literal text :: tokens) := by
  induction text with
  | nil => exact absurd rfl (normal_literal_cons.mp h).1
  | cons c text ih =>
      rw [List.cons_append, tokensOf_of_not_opens h.not_opens]
      cases text with
      | nil =>
          have hapart := (normal_literal_cons.mp h).2.2.1
          rw [List.nil_append, hrest]
          cases tokens with
          | nil => rfl
          | cons token rest =>
              cases token with
              | placeholder p => rfl
              | literal other => exact absurd ⟨rest, rfl⟩ (hapart other)
      | cons d text =>
          rw [ih h.of_literal_cons]
          rfl

theorem tokensOf_written {tokens : List Token} (h : Normal tokens) :
    tokensOf (written tokens) = .ok tokens := by
  induction tokens with
  | nil => rfl
  | cons token rest ih =>
      cases token with
      | literal text =>
          have hrest := ih (normal_literal_cons.mp h).2.2.2.2
          exact tokensOf_literal h hrest
      | placeholder p =>
          obtain ⟨hsubstitute, hnormal⟩ := normal_placeholder_cons.mp h
          have hwritten : written (.placeholder p :: rest) = '%' :: (p.substitute.toList ++
              p.letterCase.letterFor p.field :: written rest) := by
            simp [written, Token.written]
          rw [hwritten, tokensOf_mark hsubstitute (isEnglishLetter_letterFor _ _), ih hnormal,
            consPlaceholder, placeholderFor_letterFor]
          rfl

theorem read_eq_ok {source : String} {spec : Spec} (h : Spec.read source = .ok spec) :
    ∃ tokens, tokensOf source.toList = .ok tokens ∧ spec = ⟨source, tokens⟩ := by
  unfold Spec.read at h
  cases htokens : tokensOf source.toList with
  | error cause => simp [htokens, Except.map] at h
  | ok tokens =>
      simp only [htokens, Except.map, Except.ok.injEq] at h
      exact ⟨tokens, rfl, h.symm⟩

theorem isSubstitute_of_read {source : String} {spec : Spec} (h : Spec.read source = .ok spec) :
    ∀ p ∈ spec.placeholders, ∀ x ∈ p.substitute, isSubstitute x = true := by
  obtain ⟨tokens, htokens, rfl⟩ := read_eq_ok h
  exact fun p hp => (normal_of_tokensOf htokens).1.substitutes p (mem_placeholdersOf.mp hp)

/-- A text is read as tokens exactly when they are in normal form and the text is what they are
written as. So every spec that can be read is written by its tokens, every row of tokens in normal
form is read back from its text, and no other tokens come from reading. -/
theorem read_eq_ok_iff (source : String) (spec : Spec) :
    Spec.read source = .ok spec ↔
      spec.source = source ∧ Normal spec.tokens ∧ String.ofList (written spec.tokens) = source := by
  constructor
  · intro h
    obtain ⟨tokens, htokens, rfl⟩ := read_eq_ok h
    obtain ⟨hnormal, hwritten⟩ := normal_of_tokensOf htokens
    exact ⟨rfl, hnormal, by rw [hwritten, String.ofList_toList]⟩
  · rintro ⟨rfl, hnormal, hwritten⟩
    have htokens : tokensOf spec.source.toList = .ok spec.tokens := by
      rw [← hwritten, String.toList_ofList]
      exact tokensOf_written hnormal
    rw [Spec.read, htokens]
    rfl

/-- Of three percent signs the first is a literal, because the second finds a letter behind its
substitute. -/
example : Spec.read "%%%t" =
    .ok ⟨"%%%t", [.literal ['%'], .placeholder ⟨.title, some '%', .downcase⟩]⟩ := by
  decide +kernel

end Spec

end LinerNotes
