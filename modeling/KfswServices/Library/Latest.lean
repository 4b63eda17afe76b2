/-
# The last item of each key

Items are written one after the other, each into the place that its key names, over what was there.
`latest` are the items that are left, in the order they were written: an item that is written is
left, and those of its key are not (`latest_concat`).  With places that are taken in turn, it is the
last items (`latest_ring`).
-/

import Mathlib.Data.List.Induction
import Mathlib.Data.List.Nodup
import Mathlib.Data.Nat.ModEq

namespace KfswServices.Library

variable {α κ : Type*} [DecidableEq κ] {key : α → κ}

/-- The items with no later one of the same key. -/
def latest (key : α → κ) : List α → List α
  | [] => []
  | x :: xs => if xs.any fun y => key y = key x then latest key xs else x :: latest key xs

/-- **An item is written** over those of its key. -/
theorem latest_concat (xs : List α) (x : α) :
    latest key (xs ++ [x]) = (latest key xs).filter (fun y => key y ≠ key x) ++ [x] := by
  induction xs with
  | nil => simp [latest]
  | cons a xs ih =>
    rw [List.cons_append, latest, latest, ih]
    by_cases hlater : (xs.any fun y => key y = key a) = true
    · have hlater' : ((xs ++ [x]).any fun y => key y = key a) = true := by
        rw [List.any_append, hlater, Bool.true_or]
      rw [if_pos hlater, if_pos hlater']
    · by_cases hx : key x = key a
      · have hlater' : ((xs ++ [x]).any fun y => key y = key a) = true := by
          simp [hx]
        rw [if_neg hlater, if_pos hlater', List.filter_cons_of_neg (by simp [hx])]
      · have hlater' : ¬ ((xs ++ [x]).any fun y => key y = key a) = true := by
          rw [List.any_append, Bool.eq_false_iff.2 hlater]
          simp [hx]
        rw [if_neg hlater, if_neg hlater', List.filter_cons_of_pos (by simp [Ne.symm hx]),
          List.cons_append]

/-- The items that are left are among those written, in their order. -/
theorem latest_sublist (xs : List α) : (latest key xs).Sublist xs := by
  induction xs with
  | nil => exact .slnil
  | cons x xs ih =>
    rw [latest]
    split_ifs
    · exact .cons x ih
    · exact .cons_cons x ih

/-- Of items with a key each, that of a key is found. -/
theorem find?_of_nodup (key : α → κ) {xs : List α} (h : (xs.map key).Nodup) {x : α} (hx : x ∈ xs) :
    xs.find? (fun y => key y = key x) = some x := by
  cases hfind : xs.find? fun y => key y = key x with
  | none => exact absurd (List.find?_eq_none.1 hfind x hx) (by simp)
  | some y =>
    have hkey : key y = key x := by simpa using List.find?_some hfind
    rw [List.inj_on_of_nodup_map h (List.mem_of_find?_eq_some hfind) hx hkey]

/-- **Places taken in turn** hold the last items. -/
theorem latest_ring {key : α → ℕ} {cap first : ℕ} (hcap : 0 < cap) {xs : List α}
    (h : ∀ i x, xs[i]? = some x → key x = (first + i) % cap) :
    latest key xs = xs.drop (xs.length - cap) := by
  induction xs using List.reverseRecOn with
  | nil => rw [latest, List.drop_nil]
  | append_singleton xs x ih =>
    have hxs : ∀ i y, xs[i]? = some y → key y = (first + i) % cap := by
      intro i y hy
      have hi := (List.getElem?_eq_some_iff.1 hy).1
      exact h i y (by rw [List.getElem?_append_left hi]; exact hy)
    have hx : key x = (first + xs.length) % cap := h xs.length x (by simp)
    -- an item of the same place is a round behind
    have hsame : ∀ i < xs.length, xs.length - cap ≤ i →
        ((first + i) % cap = (first + xs.length) % cap ↔ i + cap = xs.length) := by
      intro i hi hle
      constructor
      · intro heq
        have hdvd := (Nat.modEq_iff_dvd' (by omega)).1 (show first + i ≡ first + xs.length [MOD cap]
          from heq)
        have hsub : first + xs.length - (first + i) = xs.length - i := by omega
        rw [hsub] at hdvd
        obtain ⟨k, hk⟩ := hdvd
        have hk1 : k = 1 := by
          rcases k with _ | _ | k
          · omega
          · rfl
          · have hmul : cap * 2 ≤ cap * (k + 2) := Nat.mul_le_mul_left cap (Nat.le_add_left 2 k)
            rw [show k + 1 + 1 = k + 2 from rfl] at hk
            omega
        subst hk1
        omega
      · intro heq
        rw [← heq, ← Nat.add_assoc, Nat.add_mod_right]
    rw [latest_concat, ih hxs, List.length_append, List.length_singleton]
    rcases Nat.lt_or_ge xs.length cap with hlt | hge
    · have hall : ∀ y ∈ xs.drop (xs.length - cap), decide (key y ≠ key x) = true := by
        intro y hy
        obtain ⟨i, hi, rfl⟩ := List.mem_iff_getElem.1 (List.mem_of_mem_drop hy)
        rw [hxs i _ (List.getElem?_eq_getElem hi), hx]
        exact decide_eq_true fun heq => by
          have := (hsame i hi (by omega)).1 heq
          omega
      rw [List.filter_eq_self.2 hall, show xs.length - cap = 0 by omega,
        show xs.length + 1 - cap = 0 by omega]
      rfl
    · have hfirst : xs.drop (xs.length - cap) =
          xs[xs.length - cap] :: xs.drop (xs.length - cap + 1) :=
        List.drop_eq_getElem_cons (by omega)
      have hrest : ∀ y ∈ xs.drop (xs.length - cap + 1), decide (key y ≠ key x) = true := by
        intro y hy
        obtain ⟨i, hi, rfl⟩ := List.mem_iff_getElem.1 hy
        rw [List.length_drop] at hi
        rw [List.getElem_drop, hxs _ _ (List.getElem?_eq_getElem (by omega)), hx]
        exact decide_eq_true fun heq => by
          have := (hsame (xs.length - cap + 1 + i) (by omega) (by omega)).1 heq
          omega
      have hgone : ¬ decide (key xs[xs.length - cap] ≠ key x) = true := by
        rw [hxs _ _ (List.getElem?_eq_getElem (by omega)), hx,
          (hsame (xs.length - cap) (by omega) le_rfl).2 (by omega)]
        simp
      rw [hfirst, List.filter_cons, if_neg hgone, List.filter_eq_self.2 hrest,
        show xs.length + 1 - cap = xs.length - cap + 1 by omega,
        List.drop_append_of_le_length (by omega)]

end KfswServices.Library
