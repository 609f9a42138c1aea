import Mathlib.Data.List.Infix
import LinerNotes.Proofs.Cleaning

/-!
Text that cleaning leaves alone. It holds no apostrophe and nothing dangerous but the substitute,
and the substitute stands in it neither twice in a row nor at an end. Cleaning makes every text so,
unless only the fallback is left; hence cleaning again changes nothing, with the same class or a
less strict one.
-/

namespace LinerNotes.Hazard

/-- Whether there is nothing in a text that cleaning would take away or put in another form. -/
structure Tidy (hazard : Option Hazard) (substitute : Option Char) (s : List Char) : Prop where
  unquoted : '\'' ∉ s
  safe : ∀ c ∈ s, holdsFor hazard c = true → substitute = some c
  single : ∀ x ∈ substitute, ¬ [x, x] <:+: s
  front : ∀ x ∈ substitute, s.head? ≠ some x
  back : ∀ x ∈ substitute, s.getLast? ≠ some x

variable {x c : Char} {s : List Char}

theorem pair_infix_cons : [x, x] <:+: c :: s ↔ (c = x ∧ s.head? = some x) ∨ [x, x] <:+: s := by
  rw [List.infix_cons_iff]
  cases s with
  | nil => simp
  | cons d rest => simp [eq_comm]

theorem copies_singleton_cons (bound : Nat) (c : Char) (s : List Char) :
    copies [x] (bound + 1) (c :: s) = if x = c then copies [x] bound s + 1 else 0 := by
  by_cases h : x = c <;> simp [copies, List.isPrefixOf, h]

theorem collapseFrom_pair (x : Char) (s : List Char) :
    collapseFrom [x] 0 (x :: x :: s) = collapseFrom [x] 0 (x :: s) := by
  have hpair : ∀ rest, collapseFrom [x] 0 (x :: x :: rest) =
      x :: collapseFrom [x] (copies [x] rest.length rest) rest := by
    intro rest
    have hfront : ([x] ++ [x]).isPrefixOf (x :: x :: rest) = true := by simp [List.isPrefixOf]
    rw [collapseFrom, hfront, if_pos rfl, List.length_cons, copies_singleton_cons, if_pos rfl,
      copies_singleton_cons, if_pos rfl, List.length_singleton, Nat.mul_one, Nat.add_sub_cancel,
      collapseFrom]
    rfl
  rw [hpair]
  cases s with
  | nil => simp [collapseFrom, List.isPrefixOf]
  | cons c rest =>
      rw [List.length_cons, copies_singleton_cons]
      by_cases h : x = c
      · subst h
        rw [if_pos rfl, hpair, collapseFrom]
      · have hfront : ([x] ++ [x]).isPrefixOf (x :: c :: rest) = false := by
          simp [List.isPrefixOf, h]
        rw [if_neg h]
        conv => rhs; rw [collapseFrom, hfront]
        rfl

theorem collapseFrom_cons (h : ¬ (c = x ∧ s.head? = some x)) :
    collapseFrom [x] 0 (c :: s) = c :: collapseFrom [x] 0 s := by
  have hfront : ([x] ++ [x]).isPrefixOf (c :: s) = false := by
    cases s with
    | nil => simp [List.isPrefixOf]
    | cons d rest =>
        rw [Bool.eq_false_iff]
        intro hpair
        simp only [List.cons_append, List.nil_append, List.isPrefixOf, Bool.and_eq_true,
          beq_iff_eq] at hpair
        exact h ⟨hpair.1.symm, by rw [hpair.2.1]; rfl⟩
  rw [collapseFrom, hfront]
  rfl

theorem head?_collapseFrom (x : Char) (s : List Char) :
    (collapseFrom [x] 0 s).head? = s.head? := by
  cases s with
  | nil => rfl
  | cons c rest =>
      rw [collapseFrom]
      split
      · rename_i hfront
        have hc : x = c := by
          simp only [List.cons_append, List.isPrefixOf, Bool.and_eq_true, beq_iff_eq] at hfront
          exact hfront.1
        rw [hc]
        rfl
      · rfl

theorem not_infix_collapseFrom (x : Char) (s : List Char) :
    ¬ [x, x] <:+: collapseFrom [x] 0 s := by
  induction s with
  | nil => simp [collapseFrom]
  | cons c rest ih =>
      by_cases h : c = x ∧ rest.head? = some x
      · obtain ⟨rfl, hhead⟩ := h
        obtain ⟨more, rfl⟩ := List.head?_eq_some_iff.mp hhead
        rwa [collapseFrom_pair]
      · rw [collapseFrom_cons h, pair_infix_cons, head?_collapseFrom]
        rintro (hpair | hrest)
        · exact h hpair
        · exact ih hrest

theorem collapseFrom_of_not_infix (h : ¬ [x, x] <:+: s) : collapseFrom [x] 0 s = s := by
  induction s with
  | nil => rfl
  | cons c rest ih =>
      rw [pair_infix_cons, not_or] at h
      rw [collapseFrom_cons h.1, ih h.2]

theorem dropFront_of_head? (h : s.head? ≠ some x) : dropFront [x] s = s := by
  cases s with
  | nil => rfl
  | cons c rest =>
      have hne : ¬ x = c := fun heq => h (by rw [heq]; rfl)
      simp [dropFront, List.isPrefixOf, hne]

theorem dropBack_of_getLast? (h : s.getLast? ≠ some x) : dropBack [x] s = s := by
  have hback : [x].isSuffixOf s = false := by
    rw [Bool.eq_false_iff]
    intro hsuffix
    obtain ⟨before, rfl⟩ := List.isSuffixOf_iff_suffix.mp hsuffix
    exact h (by simp)
  rw [dropBack, hback]
  rfl

theorem head?_dropFront (h : ¬ [x, x] <:+: s) : (dropFront [x] s).head? ≠ some x := by
  cases s with
  | nil => simp [dropFront, List.isPrefixOf]
  | cons c rest =>
      rw [pair_infix_cons, not_or, not_and] at h
      by_cases hc : c = x
      · subst hc
        simpa [dropFront, List.isPrefixOf] using h.1 rfl
      · rw [dropFront_of_head? (by simpa using hc)]
        simpa using hc

theorem dropFront_suffix (x : Char) (s : List Char) : dropFront [x] s <:+ s := by
  unfold dropFront
  split
  · exact List.drop_suffix _ _
  · exact List.suffix_rfl

theorem dropBack_cases (x : Char) (s : List Char) :
    dropBack [x] s = s ∧ s.getLast? ≠ some x ∨ s = dropBack [x] s ++ [x] := by
  by_cases h : s.getLast? = some x
  · obtain ⟨before, rfl⟩ := List.getLast?_eq_some_iff.mp h
    have hback : [x].isSuffixOf (before ++ [x]) = true :=
      List.isSuffixOf_iff_suffix.mpr (List.suffix_append before [x])
    right
    simp [dropBack, hback]
  · exact .inl ⟨dropBack_of_getLast? h, h⟩

theorem tidy_singleton (x : Char) (s : List Char) :
    ¬ [x, x] <:+: tidy [x] s ∧ (tidy [x] s).head? ≠ some x ∧
      (tidy [x] s).getLast? ≠ some x := by
  have hcollapsed := not_infix_collapseFrom x s
  have hfront := head?_dropFront hcollapsed
  have hsingle : ¬ [x, x] <:+: dropFront [x] (collapseFrom [x] 0 s) :=
    fun hpair => hcollapsed (hpair.trans (dropFront_suffix x _).isInfix)
  have htidy : tidy [x] s = dropBack [x] (dropFront [x] (collapseFrom [x] 0 s)) := by simp [tidy]
  rw [htidy]
  generalize dropFront [x] (collapseFrom [x] 0 s) = t at hfront hsingle
  rcases dropBack_cases x t with ⟨hsame, hlast⟩ | hback
  · rw [hsame]
    exact ⟨hsingle, hfront, hlast⟩
  generalize dropBack [x] t = kept at hback
  subst hback
  refine ⟨fun hpair => hsingle (hpair.trans (List.prefix_append kept [x]).isInfix), ?_, ?_⟩
  · intro hhead
    obtain ⟨rest, rfl⟩ := List.head?_eq_some_iff.mp hhead
    exact hfront rfl
  · intro hlast
    obtain ⟨before, rfl⟩ := List.getLast?_eq_some_iff.mp hlast
    exact hsingle ⟨before, [], by simp⟩

theorem tidy_of_single (hsingle : ¬ [x, x] <:+: s) (hfront : s.head? ≠ some x)
    (hback : s.getLast? ≠ some x) : tidy [x] s = s := by
  have htidy : tidy [x] s = dropBack [x] (dropFront [x] (collapseFrom [x] 0 s)) := by simp [tidy]
  rw [htidy, collapseFrom_of_not_infix hsingle, dropFront_of_head? hfront,
    dropBack_of_getLast? hback]

theorem replaceRuns_of_single {dangerous : Char → Bool} {inRun : Bool}
    (hsafe : ∀ c ∈ s, dangerous c = true → c = x) (hsingle : ¬ [x, x] <:+: s)
    (hrun : inRun = true → s.head? ≠ some x) :
    replaceRuns dangerous [x] inRun s = s := by
  induction s generalizing inRun with
  | nil => rfl
  | cons c rest ih =>
      rw [pair_infix_cons, not_or, not_and] at hsingle
      have hrest : ∀ inRun, (inRun = true → rest.head? ≠ some x) →
          replaceRuns dangerous [x] inRun rest = rest :=
        fun _ => ih (fun d hd => hsafe d (List.mem_cons_of_mem c hd)) hsingle.2
      rw [replaceRuns]
      split
      · rename_i hdanger
        have hc : c = x := hsafe c List.mem_cons_self hdanger
        subst hc
        have hfresh : inRun = false := by
          rw [Bool.eq_false_iff]
          exact fun hin => hrun hin rfl
        rw [hrest true fun _ => hsingle.1 rfl, hfresh]
        rfl
      · rw [hrest false fun hfalse => by cases hfalse]

variable {hazard : Option Hazard} {substitute : Option Char}

theorem clean_eq_tidy (hazard : Option Hazard) (hx : x ≠ '\'') (s : List Char) :
    clean hazard [x] s = fallback ∨ ∃ runs, clean hazard [x] s = tidy [x] runs := by
  have hword : ¬ [x] = ['\''] := by simpa using hx
  rw [clean, if_neg hword]
  split
  · exact .inl rfl
  · exact .inr ⟨_, rfl⟩

theorem clean_of_tidy (hne : s ≠ []) (h : Tidy hazard substitute s) :
    clean hazard substitute.toList s = s := by
  have hfilter : s.filter (· != '\'') = s := by
    rw [List.filter_eq_self]
    intro c hc
    simpa using ne_of_mem_of_not_mem hc h.unquoted
  have hclean : ∀ word, word = (if substitute.toList = ['\''] then [] else substitute.toList) →
      tidy word (replaceRuns (holdsFor hazard) word false s) = s := by
    rintro word rfl
    split
    · rename_i hquote
      have hharmless : ∀ c ∈ s, holdsFor hazard c = false := by
        intro c hc
        rw [Bool.eq_false_iff]
        intro hholds
        rw [h.safe c hc hholds] at hquote
        cases hquote
        exact h.unquoted hc
      rw [replaceRuns_of_harmless [] false hharmless]
      simp [tidy]
    · cases hsubstitute : substitute with
      | none =>
          have hharmless : ∀ c ∈ s, holdsFor hazard c = false := by
            intro c hc
            rw [Bool.eq_false_iff]
            intro hholds
            have hsome := h.safe c hc hholds
            rw [hsubstitute] at hsome
            cases hsome
          simp [replaceRuns_of_harmless [] false hharmless, tidy]
      | some x =>
          have hsafe : ∀ c ∈ s, holdsFor hazard c = true → c = x := by
            intro c hc hholds
            have hsome := h.safe c hc hholds
            rw [hsubstitute] at hsome
            cases hsome
            rfl
          have hsingle := h.single x hsubstitute
          rw [Option.toList_some, replaceRuns_of_single hsafe hsingle fun hfalse => by cases hfalse]
          exact tidy_of_single hsingle (h.front x hsubstitute) (h.back x hsubstitute)
  simp only [clean, hfilter, hclean _ rfl]

/-- Cleaning leaves a tidy text, or the fallback alone. -/
theorem clean_cases (hazard : Option Hazard) (substitute : Option Char) (s : List Char) :
    clean hazard substitute.toList s = fallback ∨
      Tidy hazard substitute (clean hazard substitute.toList s) := by
  by_cases hfallback : clean hazard substitute.toList s = fallback
  · exact .inl hfallback
  right
  have hquote : '\'' ∉ clean hazard substitute.toList s := fun hmem => (of_mem_clean hmem).1 rfl
  have hends : ∀ x ∈ substitute, ¬ [x, x] <:+: clean hazard substitute.toList s ∧
      (clean hazard substitute.toList s).head? ≠ some x ∧
      (clean hazard substitute.toList s).getLast? ≠ some x := by
    rintro x rfl
    by_cases hx : x = '\''
    · subst hx
      refine ⟨?_, ?_, ?_⟩
      · exact fun hpair => hquote (hpair.subset (by simp))
      · exact fun hhead => hquote (List.mem_of_head? hhead)
      · exact fun hlast => hquote (List.mem_of_getLast? hlast)
    · rcases clean_eq_tidy hazard hx s with hnothing | ⟨runs, hruns⟩
      · exact absurd hnothing hfallback
      · rw [Option.toList_some, hruns]
        exact tidy_singleton x runs
  refine ⟨hquote, ?_, ?_, ?_, ?_⟩
  · intro c hc hholds
    have hunder : holdsFor hazard '_' = false := by
      rcases hazard with _ | _ | _ <;> decide +kernel
    rcases (of_mem_clean hc).2 with rfl | hsubstitute | ⟨-, hsafe⟩
    · rw [hunder] at hholds
      cases hholds
    · exact hsubstitute
    · rw [hsafe] at hholds
      cases hholds
  · exact fun x hx => (hends x hx).1
  · exact fun x hx => (hends x hx).2.1
  · exact fun x hx => (hends x hx).2.2

theorem clean_fallback (hazard : Option Hazard) (substitute : Option Char) :
    clean hazard substitute.toList fallback = fallback := by
  have hholds : holdsFor hazard '_' = false := by
    rcases hazard with _ | _ | _ <;> decide +kernel
  by_cases hunder : substitute = some '_'
  · subst hunder
    simp [clean, fallback, replaceRuns, hholds, tidy, collapseFrom, dropFront, dropBack,
      List.isPrefixOf]
  · refine clean_of_tidy (by simp [fallback]) ⟨by decide, ?_, ?_, ?_, ?_⟩
    · intro c hc hdanger
      rw [List.mem_singleton.mp hc, hholds] at hdanger
      cases hdanger
    · intro x _ hpair
      simpa [fallback] using hpair.length_le
    · rintro x rfl hhead
      simp only [fallback, List.head?_cons, Option.some.injEq] at hhead
      exact hunder (by rw [hhead])
    · rintro x rfl hlast
      simp only [fallback, List.getLast?_singleton, Option.some.injEq] at hlast
      exact hunder (by rw [hlast])

/-- The place of a class in the order of strictness, which begins with no class at all. -/
def strictness : Option Hazard → Nat
  | none => 0
  | some .filesystem => 1
  | some .shell => 2

section

variable {weaker stronger : Option Hazard} (h : strictness weaker ≤ strictness stronger)

include h

theorem holdsFor_of_strictness_le {c : Char} (hc : holdsFor weaker c = true) :
    holdsFor stronger c = true := by
  have hsymbols : (symbols .filesystem).all (symbols .shell).contains = true := by decide
  cases weaker with
  | none => cases hc
  | some kind =>
      cases stronger with
      | none => cases kind <;> cases h
      | some other =>
          cases kind <;> cases other
          · exact hc
          · exact absurd h (by decide)
          · simp only [holdsFor, Option.any_some, holds, Bool.or_eq_true] at hc ⊢
            exact hc.imp_right fun hmem =>
              List.all_eq_true.mp hsymbols c (List.contains_iff_mem.mp hmem)
          · exact hc

theorem Tidy.of_strictness_le {substitute : Option Char} {s : List Char}
    (htidy : Tidy stronger substitute s) : Tidy weaker substitute s :=
  { htidy with safe := fun c hc hdanger => htidy.safe c hc (holdsFor_of_strictness_le h hdanger) }

theorem clean_of_clean (substitute : Option Char) (s : List Char) :
    clean weaker substitute.toList (clean stronger substitute.toList s) =
      clean stronger substitute.toList s := by
  rcases clean_cases stronger substitute s with hfallback | htidy
  · rw [hfallback, clean_fallback]
  · exact clean_of_tidy (clean_ne_nil _ _ _) (htidy.of_strictness_le h)

end

end LinerNotes.Hazard
