/-
# A ring of the newest items

A ring of `cap` slots with the place of the next item and the number of items held.  `Holds` says
which items these are, the newest first; a push puts one in front and, if the ring is full, drops
the last (`Holds.push`).  So a ring is a list that is cut off at `cap`, and what is said about an
item of some age is said about its place in that list.
-/

import Mathlib.Data.List.Basic
import Mathlib.Logic.Function.Basic

namespace KfswServices.Library

variable {α : Type*}

/-- The slot of the item of an age, counted from the newest. -/
def ageSlot (cap next age : ℕ) : ℕ := (next + cap - 1 - age) % cap

/-- The newest item is the one that was pushed last. -/
theorem ageSlot_push_zero {cap next : ℕ} (h : next < cap) :
    ageSlot cap ((next + 1) % cap) 0 = next := by
  unfold ageSlot
  rcases Nat.lt_or_ge (next + 1) cap with hlt | hge
  · rw [Nat.mod_eq_of_lt hlt, show next + 1 + cap - 1 - 0 = next + cap by omega,
      Nat.add_mod_right, Nat.mod_eq_of_lt h]
  · have heq : next + 1 = cap := by omega
    rw [heq, Nat.mod_self, show 0 + cap - 1 - 0 = next by omega, Nat.mod_eq_of_lt h]

/-- The others are one older. -/
theorem ageSlot_push_succ {cap next age : ℕ} (h : next < cap) (hage : age + 1 < cap) :
    ageSlot cap ((next + 1) % cap) (age + 1) = ageSlot cap next age := by
  unfold ageSlot
  rcases Nat.lt_or_ge (next + 1) cap with hlt | hge
  · rw [Nat.mod_eq_of_lt hlt]
    congr 1
    omega
  · have heq : next + 1 = cap := by omega
    rw [heq, Nat.mod_self, show next + cap - 1 - age = cap + (0 + cap - 1 - (age + 1)) by omega,
      Nat.add_mod_left]

/-- The next item goes into none of their slots. -/
theorem ageSlot_ne {cap next age : ℕ} (h : next < cap) (hage : age + 1 < cap) :
    ageSlot cap next age ≠ next := by
  unfold ageSlot
  rcases Nat.lt_or_ge age next with hlt | hge
  · rw [show next + cap - 1 - age = next - 1 - age + cap by omega, Nat.add_mod_right,
      Nat.mod_eq_of_lt (by omega)]
    omega
  · rw [Nat.mod_eq_of_lt (by omega)]
    omega

/-- A ring holds some items, the newest first. -/
structure Holds (cap : ℕ) (ring : ℕ → α) (held next : ℕ) (items : List α) : Prop where
  next_lt : next < cap
  length : items.length = held
  held_le : held ≤ cap
  get : ∀ age x, items[age]? = some x → ring (ageSlot cap next age) = x

namespace Holds

variable {cap held next : ℕ} {ring : ℕ → α} {items : List α}

/-- An empty ring. -/
theorem nil (hcap : 0 < cap) (ring : ℕ → α) : Holds cap ring 0 0 [] :=
  ⟨hcap, rfl, Nat.zero_le cap, by simp⟩

/-- **A push** puts an item in front; a full ring drops the last one. -/
theorem push (h : Holds cap ring held next items) (x : α) :
    Holds cap (Function.update ring next x) (if held = cap then held else held + 1)
      ((next + 1) % cap) ((x :: items).take cap) := by
  have hnext := h.next_lt
  have hlen := h.length
  have hheld := h.held_le
  refine ⟨Nat.mod_lt _ (by omega), ?_, ?_, fun age y hy => ?_⟩
  · rw [List.length_take, List.length_cons]
    split_ifs <;> omega
  · split_ifs <;> omega
  · have hage : age < cap := by
      have hlt := (List.getElem?_eq_some_iff.1 hy).1
      rw [List.length_take] at hlt
      omega
    rw [List.getElem?_take_of_lt hage] at hy
    cases age with
    | zero =>
      rw [ageSlot_push_zero hnext, Function.update_self]
      exact Option.some.inj hy
    | succ age =>
      rw [ageSlot_push_succ hnext hage, Function.update_of_ne (ageSlot_ne hnext hage)]
      exact h.get age y hy

end Holds

end KfswServices.Library
