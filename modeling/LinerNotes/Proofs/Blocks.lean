import LinerNotes.Proofs.Tidiness

/-!
What cleaning comes to. The apostrophes are dropped, the rest is cut at the dangerous characters and
at the copies of the substitute that stand in it already, and the blocks that are left are joined by
one substitute each.
-/

namespace LinerNotes.Hazard

/-- The blocks of a text: the longest runs in it without a character at which it is cut. -/
def blocks (cut : Char → Bool) (s : List Char) : List (List Char) :=
  (s.splitOnP cut).filter (· ≠ [])

section

variable {cut : Char → Bool} {c : Char} {s : List Char}

theorem blocks_nil (cut : Char → Bool) : blocks cut [] = [] := by
  simp [blocks]

theorem blocks_append_cut (before : List Char) (hc : cut c = true) (after : List Char) :
    blocks cut (before ++ c :: after) = blocks cut before ++ blocks cut after := by
  rw [blocks, List.splitOnP_append_cons before after hc, List.filter_append]
  rfl

theorem blocks_cons_cut (hc : cut c = true) (s : List Char) :
    blocks cut (c :: s) = blocks cut s := by
  simpa [blocks_nil] using blocks_append_cut [] hc s

theorem blocks_concat_cut (s : List Char) (hc : cut c = true) :
    blocks cut (s ++ [c]) = blocks cut s := by
  simpa [blocks_nil] using blocks_append_cut s hc []

theorem blocks_cons_free (hc : cut c = false) (s : List Char) :
    blocks cut (c :: s) =
      if s.head?.all cut then [c] :: blocks cut s else (blocks cut s).modifyHead (c :: ·) := by
  cases s with
  | nil => simp [blocks, List.splitOnP_cons_eq_if_modifyHead, hc]
  | cons d rest =>
      cases hd : cut d with
      | true => simp [blocks, List.splitOnP_cons_eq_if_modifyHead, hc, hd]
      | false =>
          obtain ⟨first, more, hpieces⟩ :=
            List.exists_cons_of_ne_nil (List.splitOnP_ne_nil cut rest)
          simp [blocks, List.splitOnP_cons_eq_if_modifyHead, hc, hd, hpieces]

theorem ne_nil_of_mem_blocks {block : List Char} (h : block ∈ blocks cut s) : block ≠ [] := by
  simpa using (List.mem_filter.mp h).2

end

section

variable {cut : Char → Bool} {x : Char} (hx : cut x = true)

include hx

/-- Where dangerous characters become the substitute, the text is cut at the same places. -/
theorem blocks_replaceRuns (dangerous : Char → Bool) (inRun : Bool) (s : List Char) :
    blocks cut (replaceRuns dangerous [x] inRun s) = blocks (fun c => dangerous c || cut c) s := by
  induction s generalizing inRun with
  | nil => rfl
  | cons c rest ih =>
      rw [replaceRuns]
      cases hc : dangerous c with
      | true =>
          rw [if_pos rfl, blocks_cons_cut (by simp [hc]), ← ih true]
          cases inRun with
          | true => rfl
          | false => exact blocks_cons_cut hx _
      | false =>
          rw [if_neg Bool.false_ne_true]
          cases hcut : cut c with
          | true => rw [blocks_cons_cut hcut, blocks_cons_cut (by simp [hcut]), ih]
          | false =>
              have hhead : (replaceRuns dangerous [x] false rest).head?.all cut =
                  rest.head?.all fun c => dangerous c || cut c := by
                cases rest with
                | nil => rfl
                | cons d more =>
                    rw [replaceRuns]
                    cases hd : dangerous d <;> simp [hd, hx]
              rw [blocks_cons_free hcut, blocks_cons_free (by simp [hc, hcut]), ih, hhead]

theorem blocks_collapseFrom (s : List Char) :
    blocks cut (collapseFrom [x] 0 s) = blocks cut s := by
  induction s with
  | nil => rfl
  | cons c rest ih =>
      by_cases h : c = x ∧ rest.head? = some x
      · obtain ⟨rfl, hhead⟩ := h
        obtain ⟨more, rfl⟩ := List.head?_eq_some_iff.mp hhead
        rw [collapseFrom_pair, ih, blocks_cons_cut hx (c :: more)]
      · rw [collapseFrom_cons h]
        cases hc : cut c with
        | true => rw [blocks_cons_cut hc, blocks_cons_cut hc, ih]
        | false => rw [blocks_cons_free hc, blocks_cons_free hc, ih, head?_collapseFrom]

theorem blocks_dropFront (s : List Char) : blocks cut (dropFront [x] s) = blocks cut s := by
  by_cases h : s.head? = some x
  · obtain ⟨rest, rfl⟩ := List.head?_eq_some_iff.mp h
    have hdrop : dropFront [x] (x :: rest) = rest := by simp [dropFront, List.isPrefixOf]
    rw [hdrop, blocks_cons_cut hx]
  · rw [dropFront_of_head? h]

theorem blocks_dropBack (s : List Char) : blocks cut (dropBack [x] s) = blocks cut s := by
  rcases dropBack_cases x s with ⟨hsame, -⟩ | hback
  · rw [hsame]
  · conv => rhs; rw [hback]
    exact (blocks_concat_cut _ hx).symm

theorem blocks_tidy (s : List Char) : blocks cut (tidy [x] s) = blocks cut s := by
  have htidy : tidy [x] s = dropBack [x] (dropFront [x] (collapseFrom [x] 0 s)) := by simp [tidy]
  rw [htidy, blocks_dropBack hx, blocks_dropFront hx, blocks_collapseFrom hx]

end

section

variable {x : Char} {s : List Char}

theorem nil_not_mem_tail_splitOnP (hsingle : ¬ [x, x] <:+: s) (hback : s.getLast? ≠ some x) :
    [] ∉ (s.splitOnP (· == x)).tail := by
  -- only of the tail: in the induction the rest of the text may begin with the substitute
  induction s with
  | nil => simp
  | cons c rest ih =>
      rw [pair_infix_cons, not_or, not_and] at hsingle
      rw [List.splitOnP_cons_eq_if_modifyHead]
      cases rest with
      | nil =>
          have hc : c ≠ x := by simpa using hback
          simp [hc]
      | cons d more =>
          have hrest := ih hsingle.2 (by simpa using hback)
          by_cases hc : c = x
          · have hd : d ≠ x := by simpa using hsingle.1 hc
            obtain ⟨first, others, hpieces⟩ :=
              List.exists_cons_of_ne_nil (List.splitOnP_ne_nil (· == x) more)
            rw [List.splitOnP_cons_eq_if_modifyHead, hpieces] at hrest ⊢
            simpa [hc, hd] using hrest
          · simpa [hc] using hrest

/-- A text in which the substitute stands neither twice in a row nor at an end is its blocks, joined
by it. -/
theorem intercalate_blocks (hsingle : ¬ [x, x] <:+: s) (hfront : s.head? ≠ some x)
    (hback : s.getLast? ≠ some x) : [x].intercalate (blocks (· == x) s) = s := by
  cases s with
  | nil => simp [blocks_nil, List.intercalate]
  | cons c rest =>
      have hc : c ≠ x := by simpa using hfront
      have htail := nil_not_mem_tail_splitOnP hsingle hback
      obtain ⟨first, others, hpieces⟩ :=
        List.exists_cons_of_ne_nil (List.splitOnP_ne_nil (· == x) rest)
      have hwhole : (c :: rest).splitOn x = (c :: first) :: others := by
        simp [List.splitOn, List.splitOnP_cons_eq_if_modifyHead, hpieces, hc]
      rw [← List.splitOn, hwhole, List.tail_cons] at htail
      have hblocks : blocks (· == x) (c :: rest) = (c :: rest).splitOn x := by
        rw [blocks, ← List.splitOn, List.filter_eq_self, hwhole]
        intro block hblock
        rcases List.mem_cons.mp hblock with rfl | hother
        · rfl
        · simpa using ne_of_mem_of_not_mem hother htail
      rw [hblocks, List.intercalate_splitOn]

theorem intercalate_eq_nil_iff {parts : List (List Char)} (h : ∀ part ∈ parts, part ≠ []) :
    [x].intercalate parts = [] ↔ parts = [] := by
  cases parts with
  | nil => simp [List.intercalate]
  | cons first others =>
      have hfirst := h first List.mem_cons_self
      cases others <;> simp [List.intercalate, hfirst]

end

theorem replaceRuns_nil (dangerous : Char → Bool) (inRun : Bool) (s : List Char) :
    replaceRuns dangerous [] inRun s = s.filter (!dangerous ·) := by
  induction s generalizing inRun with
  | nil => rfl
  | cons c rest ih =>
      rw [replaceRuns]
      cases hc : dangerous c with
      | true => simp [hc, ih]
      | false => simp [hc, ih]

theorem tidy_replaceRuns (dangerous : Char → Bool) (x : Char) (s : List Char) :
    tidy [x] (replaceRuns dangerous [x] false s) =
      [x].intercalate (blocks (fun c => dangerous c || c == x) s) := by
  obtain ⟨hsingle, hfront, hback⟩ := tidy_singleton x (replaceRuns dangerous [x] false s)
  have hblocks : blocks (· == x) (tidy [x] (replaceRuns dangerous [x] false s)) =
      blocks (fun c => dangerous c || c == x) s :=
    (blocks_tidy (by simp) _).trans (blocks_replaceRuns (by simp) dangerous false s)
  rw [← hblocks, intercalate_blocks hsingle hfront hback]

theorem clean_eq_if (hazard : Option Hazard) (word s : List Char) :
    clean hazard word s =
      let substitute := if word = ['\''] then [] else word
      let kept := tidy substitute
        (replaceRuns (holdsFor hazard) substitute false (s.filter (· != '\'')))
      if kept = [] then fallback else kept := by
  simp only [clean]
  split
  · rename_i hnothing
    rw [if_pos hnothing]
  · rename_i hkept
    rw [if_neg hkept]

theorem clean_dropping (hazard : Option Hazard) {word : List Char}
    (hword : word = [] ∨ word = ['\'']) (s : List Char) :
    clean hazard word s =
      let kept := (s.filter (· != '\'')).filter (!holdsFor hazard ·)
      if kept = [] then fallback else kept := by
  have hnone : (if word = ['\''] then [] else word) = [] := by
    rcases hword with rfl | rfl <;> rfl
  simp only [clean_eq_if, hnone, tidy, replaceRuns_nil, if_true]

theorem clean_joining (hazard : Option Hazard) {x : Char} (hx : x ≠ '\'') (s : List Char) :
    clean hazard [x] s =
      let parts := blocks (fun c => holdsFor hazard c || c == x) (s.filter (· != '\''))
      if parts = [] then fallback else [x].intercalate parts := by
  have hword : ¬ [x] = ['\''] := by simpa using hx
  simp only [clean_eq_if, if_neg hword, tidy_replaceRuns,
    intercalate_eq_nil_iff fun _ => ne_nil_of_mem_blocks]

/-- What cleaning computes. Without a substitute, which an apostrophe is not, it leaves the
characters that are neither apostrophes nor dangerous. With one it cuts the text without its
apostrophes into the blocks between dangerous characters and copies of the substitute, and joins
them by one substitute each. If nothing is left there is the fallback; if anything is, then no
substitute is at an end, none is doubled, and no other dangerous character is left. -/
theorem clean_eq_blocks (hazard : Option Hazard) (substitute : Option Char) (s : List Char) :
    let unquoted := s.filter (· != '\'')
    clean hazard substitute.toList s =
      (match substitute.filter (· != '\'') with
      | none =>
          let kept := unquoted.filter (!holdsFor hazard ·)
          if kept = [] then fallback else kept
      | some x =>
          let parts := blocks (fun c => holdsFor hazard c || c == x) unquoted
          if parts = [] then fallback else [x].intercalate parts) ∧
    (clean hazard substitute.toList s = fallback ∨
      Tidy hazard substitute (clean hazard substitute.toList s)) := by
  intro unquoted
  refine ⟨?_, clean_cases hazard substitute s⟩
  cases substitute with
  | none => exact clean_dropping hazard (.inl rfl) s
  | some x =>
      by_cases hx : x = '\''
      · subst hx
        exact clean_dropping hazard (.inr rfl) s
      · have hword : (some x).filter (· != '\'') = some x := by simp [hx]
        rw [hword]
        exact clean_joining hazard hx s

example : clean (some .filesystem) ['_'] "_AC/DC:'__' Live!?".toList = "AC_DC_Live!".toList := by
  decide +kernel

end LinerNotes.Hazard
