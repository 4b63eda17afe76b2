/-
# A list sorted by a key, kept by insertion and searched by bisection

`insertByKey` puts an item before the first one with a greater key; a list whose keys increase
strictly stays such a list when the key is new (`pairwise_insertByKey`).  `bisect` halves the part
of the list that may still hold a key; on such a list it finds what is there
(`bisect_eq_some_iff`).
-/

import Mathlib.Data.List.Basic
import Mathlib.Order.Lattice

namespace KfswServices.Library

variable {α κ : Type*} [LinearOrder κ] {key : α → κ} {k : κ} {a : α} {xs : List α}

/-- Insert before the first item with a greater key, at the end if there is none. -/
def insertByKey (key : α → κ) (a : α) (xs : List α) : List α :=
  xs.insertIdx (xs.findIdx fun x => key a < key x) a

theorem insertByKey_cons (x : α) (xs : List α) :
    insertByKey key a (x :: xs) =
      if key a < key x then a :: x :: xs else x :: insertByKey key a xs := by
  by_cases h : key a < key x <;> simp [insertByKey, List.findIdx_cons, h]

/-- Nothing is lost and nothing else comes in. -/
theorem insertByKey_perm (key : α → κ) (a : α) (xs : List α) :
    (insertByKey key a xs).Perm (a :: xs) := by
  induction xs with
  | nil => exact List.Perm.refl _
  | cons x xs ih =>
    rw [insertByKey_cons]
    split_ifs
    · exact List.Perm.refl _
    · exact (ih.cons x).trans (List.Perm.swap a x xs)

/-- **A new key keeps the order.** -/
theorem pairwise_insertByKey (hxs : xs.Pairwise fun x y => key x < key y)
    (hnew : ∀ x ∈ xs, key x ≠ key a) :
    (insertByKey key a xs).Pairwise fun x y => key x < key y := by
  induction xs with
  | nil => exact List.pairwise_singleton _ a
  | cons x xs ih =>
    obtain ⟨hx, hxs⟩ := List.pairwise_cons.1 hxs
    obtain ⟨hne, hnew⟩ := List.forall_mem_cons.1 hnew
    rw [insertByKey_cons]
    split_ifs with hlt
    · refine List.pairwise_cons.2 ⟨fun y hy => ?_, List.pairwise_cons.2 ⟨hx, hxs⟩⟩
      rcases List.mem_cons.1 hy with rfl | hy
      · exact hlt
      · exact lt_trans hlt (hx y hy)
    · refine List.pairwise_cons.2 ⟨fun y hy => ?_, ih hxs hnew⟩
      rcases List.mem_cons.1 ((insertByKey_perm key a xs).mem_iff.1 hy) with rfl | hy
      · exact lt_of_le_of_ne (not_lt.1 hlt) hne
      · exact hx y hy

/-- Binary search for a key in the items from `low` up to `high`. -/
def bisect (key : α → κ) (k : κ) (xs : List α) : ℕ → ℕ → ℕ → Option α
  | 0, _, _ => none
  | fuel + 1, low, high =>
    if low < high then
      let middle := low + (high - low) / 2
      match xs[middle]? with
      | none => none
      | some x =>
        if key x = k then some x
        else if key x < k then bisect key k xs fuel (middle + 1) high
        else bisect key k xs fuel low middle
    else none

section

variable (hxs : xs.Pairwise fun x y => key x < key y)
include hxs

/-- In the sorted list a smaller key stands before. -/
theorem getElem?_key_lt {i j : ℕ} {x y : α}
    (hx : xs[i]? = some x) (hy : xs[j]? = some y) (h : i < j) : key x < key y := by
  obtain ⟨hi, rfl⟩ := List.getElem?_eq_some_iff.1 hx
  obtain ⟨hj, rfl⟩ := List.getElem?_eq_some_iff.1 hy
  exact List.pairwise_iff_getElem.1 hxs i j hi hj h

/-- The search finds a key that stands between its bounds, and nothing else. -/
theorem bisect_between {fuel low high : ℕ}
    (hfuel : high - low ≤ fuel) (hhigh : high ≤ xs.length) (x : α) :
    bisect key k xs fuel low high = some x ↔
      ∃ i, low ≤ i ∧ i < high ∧ xs[i]? = some x ∧ key x = k := by
  induction fuel generalizing low high with
  | zero =>
    simp only [bisect, reduceCtorEq, false_iff, not_exists]
    rintro i ⟨hlow, hi, -⟩
    omega
  | succ fuel ih =>
    unfold bisect
    by_cases hlt : low < high
    · have hmiddle : low + (high - low) / 2 < high := by omega
      obtain ⟨m, hm⟩ : ∃ m, xs[low + (high - low) / 2]? = some m :=
        ⟨_, List.getElem?_eq_getElem (by omega)⟩
      rw [if_pos hlt]
      simp only [hm]
      split_ifs with heq hless
      · constructor
        · rintro ⟨rfl⟩
          exact ⟨_, by omega, hmiddle, hm, heq⟩
        · rintro ⟨i, -, -, hi, hk⟩
          -- two items of one key are one item
          rcases Nat.lt_trichotomy i (low + (high - low) / 2) with h | rfl | h
          · exact absurd (getElem?_key_lt hxs hi hm h) (by rw [hk, heq]; exact lt_irrefl k)
          · rw [← hi, hm]
          · exact absurd (getElem?_key_lt hxs hm hi h) (by rw [hk, heq]; exact lt_irrefl k)
      · rw [ih (by omega) hhigh]
        constructor
        · rintro ⟨i, hlow, hi, hx, hk⟩
          exact ⟨i, by omega, hi, hx, hk⟩
        · rintro ⟨i, hlow, hi, hx, hk⟩
          refine ⟨i, ?_, hi, hx, hk⟩
          by_contra hbefore
          rcases Nat.lt_or_eq_of_le (show i ≤ low + (high - low) / 2 by omega) with h | rfl
          · exact lt_asymm hless (hk ▸ getElem?_key_lt hxs hx hm h)
          · rw [hm] at hx
            exact heq (Option.some.inj hx ▸ hk)
      · rw [ih (by omega) (by omega)]
        constructor
        · rintro ⟨i, hlow, hi, hx, hk⟩
          exact ⟨i, hlow, by omega, hx, hk⟩
        · rintro ⟨i, hlow, hi, hx, hk⟩
          refine ⟨i, hlow, ?_, hx, hk⟩
          by_contra hbehind
          rcases Nat.lt_or_eq_of_le (show low + (high - low) / 2 ≤ i by omega) with h | rfl
          · exact hless (hk ▸ getElem?_key_lt hxs hm hx h)
          · rw [hm] at hx
            exact heq (Option.some.inj hx ▸ hk)
    · simp only [if_neg hlt, reduceCtorEq, false_iff, not_exists]
      rintro i ⟨hlow, hi, -⟩
      omega

/-- **Bisection finds what is there.** -/
theorem bisect_eq_some_iff (x : α) :
    bisect key k xs xs.length 0 xs.length = some x ↔ x ∈ xs ∧ key x = k := by
  rw [bisect_between hxs (by omega) (Nat.le_refl _), List.mem_iff_getElem?]
  constructor
  · rintro ⟨i, -, -, hx, hk⟩
    exact ⟨⟨i, hx⟩, hk⟩
  · rintro ⟨⟨i, hx⟩, hk⟩
    obtain ⟨hi, -⟩ := List.getElem?_eq_some_iff.1 hx
    exact ⟨i, Nat.zero_le i, hi, hx, hk⟩

end

end KfswServices.Library
