/-!
Lists of entries with at most one entry per key, in the order in which the keys first arrived.
-/

namespace LinerNotes.Keyed

universe u

/-- Puts an entry where the first entry of the same key stands, or at the end if there is none. -/
def put {α : Type u} (same : α → Bool) (entry : α) : List α → List α
  | [] => [entry]
  | x :: rest => if same x then entry :: rest else x :: put same entry rest

/-- The entries put one after the other, where `same` compares the keys of two entries. -/
def ofList {α : Type u} (same : α → α → Bool) (entries : List α) : List α :=
  entries.foldl (fun kept entry => put (same entry) entry kept) []

theorem put_of_forall_not {α : Type u} {same : α → Bool} (entry : α) {entries : List α}
    (h : ∀ x ∈ entries, same x = false) : put same entry entries = entries ++ [entry] := by
  induction entries with
  | nil => rfl
  | cons x rest ih =>
      have hrest := ih fun y hy => h y (List.mem_cons_of_mem x hy)
      simp [put, h x (by simp), hrest]

theorem find?_put_same {α : Type u} {same : α → Bool} {entry : α} (entries : List α)
    (h : same entry = true) : (put same entry entries).find? same = some entry := by
  induction entries with
  | nil => simp [put, h]
  | cons x rest ih =>
      simp only [put]
      split
      · simp [h]
      · rename_i hx
        simp [hx, ih]

theorem find?_put_other {α : Type u} {same p : α → Bool} {entry : α} (entries : List α)
    (hentry : p entry = false) (hsame : ∀ x, same x = true → p x = false) :
    (put same entry entries).find? p = entries.find? p := by
  induction entries with
  | nil => simp [put, hentry]
  | cons x rest ih =>
      simp only [put]
      split
      · rename_i hx
        simp [hentry, hsame x hx]
      · simp [List.find?_cons, ih]

theorem find?_filter_other {α : Type u} {same p : α → Bool} (entries : List α)
    (hsame : ∀ x, same x = true → p x = false) :
    (entries.filter fun x => !same x).find? p = entries.find? p := by
  have hkept : (fun x => !same x && p x) = p := by
    funext x
    cases hx : same x with
    | true => simp [hsame x hx]
    | false => simp
  simp [List.find?_filter, hkept]

theorem filter_put_other {α : Type u} {same keep : α → Bool} {entry : α} (entries : List α)
    (hentry : keep entry = false) (hsame : ∀ x, same x = true → keep x = false) :
    (put same entry entries).filter keep = entries.filter keep := by
  induction entries with
  | nil => simp [put, hentry]
  | cons x rest ih =>
      simp only [put]
      split
      · rename_i hx
        simp [hentry, hsame x hx]
      · simp [List.filter_cons, ih]

theorem filter_filter_other {α : Type u} {same keep : α → Bool} (entries : List α)
    (hsame : ∀ x, same x = true → keep x = false) :
    (entries.filter fun x => !same x).filter keep = entries.filter keep := by
  rw [List.filter_filter]
  apply List.filter_congr
  intro x _
  cases hx : same x with
  | true => simp [hsame x hx]
  | false => simp

theorem find?_filter_same {α : Type u} (same : α → Bool) (entries : List α) :
    (entries.filter fun x => !same x).find? same = none := by
  simp [List.find?_filter]

end LinerNotes.Keyed
