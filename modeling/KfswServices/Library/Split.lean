/-
# Lines read as far as a limit reaches

`List.splitOn` cuts a list at a separator.  `splitWithin` is what a reader makes of it that may
take `limit` items: all pieces, when the list is no longer, and else the pieces whose separator it
has still seen.  The lemmas take the first piece off, which is what such a reader does at a time,
and `splitOn_filter` says that items other than the separator may as well be deleted before.
-/

import Mathlib.Data.List.Basic

namespace KfswServices.Library

variable {α : Type*} [DecidableEq α] {sep : α} {limit : ℕ} {pre xs : List α}

/-- The pieces that `limit` items hold, and whether the list goes on behind them. -/
def splitWithin (sep : α) (limit : ℕ) (xs : List α) : List (List α) × Bool :=
  if xs.length ≤ limit then (xs.splitOn sep, false)
  else (((xs.take limit).splitOn sep).dropLast, true)

/-- A piece with its separator, inside the limit. -/
theorem splitWithin_cons (hpre : sep ∉ pre) (hlen : pre.length < limit) (post : List α) :
    splitWithin sep limit (pre ++ sep :: post) =
      (pre :: (splitWithin sep (limit - (pre.length + 1)) post).1,
        (splitWithin sep (limit - (pre.length + 1)) post).2) := by
  by_cases h : post.length ≤ limit - (pre.length + 1)
  · have h' : (pre ++ sep :: post).length ≤ limit := by
      rw [List.length_append, List.length_cons]
      omega
    rw [splitWithin, if_pos h', splitWithin, if_pos h,
      List.splitOn_append_cons_self_of_not_mem hpre]
  · have h' : ¬ (pre ++ sep :: post).length ≤ limit := by
      rw [List.length_append, List.length_cons]
      omega
    have htake : (pre ++ sep :: post).take limit =
        pre ++ sep :: post.take (limit - (pre.length + 1)) := by
      rw [List.take_append, List.take_of_length_le (by omega),
        show limit - pre.length = limit - (pre.length + 1) + 1 by omega, List.take_succ_cons]
    rw [splitWithin, if_neg h', splitWithin, if_neg h, htake,
      List.splitOn_append_cons_self_of_not_mem hpre, List.dropLast_cons_of_ne_nil (by simp)]

/-- The last piece, inside the limit. -/
theorem splitWithin_last (hxs : sep ∉ xs) (hlen : xs.length ≤ limit) :
    splitWithin sep limit xs = ([xs], false) := by
  rw [splitWithin, if_pos hlen, List.splitOn_eq_singleton hxs]

/-- A piece that the limit cuts. -/
theorem splitWithin_cut (hxs : sep ∉ xs.take limit) (hlen : limit < xs.length) :
    splitWithin sep limit xs = ([], true) := by
  rw [splitWithin, if_neg (by omega), List.splitOn_eq_singleton hxs]
  rfl

/-- What comes first: a separator inside the limit, the end of the list, or the limit. -/
theorem splitWithin_cases (sep : α) (limit : ℕ) (xs : List α) :
    (∃ pre post, xs = pre ++ sep :: post ∧ sep ∉ pre ∧ pre.length < limit) ∨
      (sep ∉ xs ∧ xs.length ≤ limit) ∨ (sep ∉ xs.take limit ∧ limit < xs.length) := by
  by_cases hsep : sep ∈ xs.take limit
  · obtain ⟨pre, post, htake, hpre⟩ := List.eq_append_cons_of_mem hsep
    have hlen := congrArg List.length htake
    rw [List.length_take, List.length_append, List.length_cons] at hlen
    refine Or.inl ⟨pre, post ++ xs.drop limit, ?_, hpre, by omega⟩
    rw [← List.cons_append, ← List.append_assoc, ← htake, List.take_append_drop]
  · by_cases hlen : xs.length ≤ limit
    · rw [List.take_of_length_le hlen] at hsep
      exact Or.inr (Or.inl ⟨hsep, hlen⟩)
    · exact Or.inr (Or.inr ⟨hsep, by omega⟩)

/-- **Deleting before the cut or in each piece** is the same, for other items than the
separator. -/
theorem splitOn_filter {p : α → Bool} (hp : p sep = true) (xs : List α) :
    (xs.filter p).splitOn sep = (xs.splitOn sep).map (List.filter p) := by
  induction xs with
  | nil => simp
  | cons x xs ih =>
    rw [List.splitOn_cons_eq_if_modifyHead]
    by_cases hx : x = sep
    · subst hx
      simp [hp, List.splitOn_cons_eq_if_modifyHead, ih]
    · obtain ⟨y, ys, hy⟩ := List.exists_cons_of_ne_nil (List.splitOn_ne_nil sep xs)
      rw [hy] at ih ⊢
      by_cases hpx : p x
      · rw [List.filter_cons_of_pos hpx, List.splitOn_cons_eq_if_modifyHead, ih]
        simp [hx, hpx]
      · rw [List.filter_cons_of_neg hpx, ih]
        simp [hx, hpx]

example : splitWithin 0 4 [1, 0, 2] = ([[1], [2]], false) ∧
    splitWithin 0 4 [1, 0, 2, 3, 4] = ([[1]], true) := by
  decide

end KfswServices.Library
