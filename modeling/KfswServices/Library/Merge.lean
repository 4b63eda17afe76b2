/-
# Merging sequences from their heads

Some sequences have their items in descending order of a key, and a merge takes, one at a time, the
greatest of their heads.  However the greatest head is found, what comes out is every item once, in
descending order over all sequences (`mem_merged`, `pairwise_merged`).

A sequence is named by its index; how far each has been taken is a function of the index.
-/

import Mathlib.Algebra.Ring.Nat
import Mathlib.Data.List.Nodup
import Mathlib.Logic.Function.Basic
import Mathlib.Order.Lattice

namespace KfswServices.Library

variable {ι κ : Type*}

/-- Sequences: which ones there are, how long each is, and the keys of their items. -/
structure Sequences (ι κ : Type*) where
  indices : List ι
  length : ι → ℕ
  key : ι → ℕ → κ

namespace Sequences

/-- The items that are left, when so many of each sequence have been taken. -/
def left (q : Sequences ι κ) (taken : ι → ℕ) : ℕ :=
  (q.indices.map fun i => q.length i - taken i).sum

/-- The sequence still has an item. -/
def More (q : Sequences ι κ) (taken : ι → ℕ) (i : ι) : Prop := i ∈ q.indices ∧ taken i < q.length i

variable {taken : ι → ℕ}

/-- Something is left as long as a sequence has an item. -/
theorem left_pos_iff {q : Sequences ι κ} : 0 < q.left taken ↔ ∃ i, q.More taken i := by
  unfold left
  rw [List.sum_pos_iff_exists_pos_nat]
  constructor
  · rintro ⟨n, hn, hpos⟩
    obtain ⟨i, hi, rfl⟩ := List.mem_map.1 hn
    exact ⟨i, hi, by omega⟩
  · rintro ⟨i, hi, hlt⟩
    exact ⟨_, List.mem_map_of_mem hi, by omega⟩

variable [DecidableEq ι]

/-- An item of a sequence is taken. -/
def take (taken : ι → ℕ) (i : ι) : ι → ℕ := Function.update taken i (taken i + 1)

/-- The items in the order in which they are taken. -/
def merged (choose : (ι → ℕ) → ι) : ℕ → (ι → ℕ) → List (ι × ℕ)
  | 0, _ => []
  | n + 1, taken =>
    (choose taken, taken (choose taken)) :: merged choose n (take taken (choose taken))

theorem length_merged (choose : (ι → ℕ) → ι) (n : ℕ) (taken : ι → ℕ) :
    (merged choose n taken).length = n := by
  induction n generalizing taken with
  | zero => rfl
  | succ n ih => rw [merged, List.length_cons, ih]

/-- One item less is left. -/
theorem left_take {q : Sequences ι κ} (hnodup : q.indices.Nodup) {i : ι} (h : q.More taken i) :
    q.left (take taken i) + 1 = q.left taken := by
  obtain ⟨indices, length, key⟩ := q
  obtain ⟨hi, hlt⟩ := h
  unfold left
  dsimp only at hnodup hi hlt ⊢
  induction indices with
  | nil => cases hi
  | cons j indices ih =>
    obtain ⟨hj, hnodup⟩ := List.nodup_cons.1 hnodup
    rw [List.map_cons, List.map_cons, List.sum_cons, List.sum_cons]
    rcases List.mem_cons.1 hi with rfl | hi
    · have hrest : (indices.map fun j => length j - take taken i j) =
          indices.map fun j => length j - taken j := by
        refine List.map_congr_left fun k hk => ?_
        rw [take, Function.update_of_ne (fun heq : k = i => hj (heq ▸ hk))]
      rw [hrest, take, Function.update_self]
      omega
    · have hne : j ≠ i := fun heq : j = i => hj (heq ▸ hi)
      rw [take, Function.update_of_ne hne]
      have := ih hnodup hi
      rw [take] at this
      omega

variable [LinearOrder κ]

/-- Each sequence is in descending order, and no two have a key in common. -/
structure Descending (q : Sequences ι κ) : Prop where
  nodup : q.indices.Nodup
  desc : ∀ i ∈ q.indices, ∀ a a', a < a' → a' < q.length i → q.key i a' < q.key i a
  apart : ∀ i ∈ q.indices, ∀ j ∈ q.indices, i ≠ j → ∀ a a', a < q.length i → a' < q.length j →
    q.key i a ≠ q.key j a'

/-- The choice is a sequence whose head is the greatest, as long as there is one. -/
def Chooses (q : Sequences ι κ) (choose : (ι → ℕ) → ι) : Prop :=
  ∀ taken, (∃ i, q.More taken i) → q.More taken (choose taken) ∧
    ∀ i, q.More taken i → q.key i (taken i) ≤ q.key (choose taken) (taken (choose taken))

variable {q : Sequences ι κ} {choose : (ι → ℕ) → ι}

/-- **Every item once.** -/
theorem mem_merged (hq : q.Descending) (hchoose : q.Chooses choose) {n : ℕ}
    (hn : q.left taken = n) (i : ι) (a : ℕ) :
    (i, a) ∈ merged choose n taken ↔ i ∈ q.indices ∧ taken i ≤ a ∧ a < q.length i := by
  induction n generalizing taken with
  | zero =>
    have hnone : ¬ ∃ i, q.More taken i := fun h => by
      have := left_pos_iff.2 h
      omega
    refine iff_of_false (fun h => by cases h) fun ⟨hi, hle, hlt⟩ => ?_
    exact hnone ⟨i, hi, by omega⟩
  | succ n ih =>
    obtain ⟨hmore, -⟩ := hchoose taken (left_pos_iff.1 (by omega))
    have hleft := left_take hq.nodup hmore
    rw [merged, List.mem_cons, ih (by omega), Prod.mk.injEq]
    obtain ⟨hc, hclt⟩ := hmore
    by_cases hi : i = choose taken
    · subst hi
      rw [take, Function.update_self]
      constructor
      · rintro (⟨-, rfl⟩ | ⟨-, hle, hlt⟩)
        · exact ⟨hc, Nat.le_refl _, hclt⟩
        · exact ⟨hc, by omega, hlt⟩
      · rintro ⟨-, hle, hlt⟩
        rcases Nat.eq_or_lt_of_le hle with heq | hlt'
        · exact Or.inl ⟨rfl, heq.symm⟩
        · exact Or.inr ⟨hc, hlt', hlt⟩
    · rw [take, Function.update_of_ne hi]
      exact ⟨fun h => h.resolve_left fun h => hi h.1, Or.inr⟩

/-- **In descending order over all sequences.** -/
theorem pairwise_merged (hq : q.Descending) (hchoose : q.Chooses choose) {n : ℕ}
    (hn : q.left taken = n) :
    (merged choose n taken).Pairwise fun x y => q.key y.1 y.2 < q.key x.1 x.2 := by
  induction n generalizing taken with
  | zero => exact .nil
  | succ n ih =>
    obtain ⟨hmore, hgreatest⟩ := hchoose taken (left_pos_iff.1 (by omega))
    have hleft := left_take hq.nodup hmore
    refine .cons (fun y hy => ?_) (ih (by omega))
    obtain ⟨i, a⟩ := y
    obtain ⟨hi, hle, hlt⟩ := (mem_merged hq hchoose (by omega) i a).1 hy
    dsimp only
    by_cases heq : i = choose taken
    · subst heq
      rw [take, Function.update_self] at hle
      exact hq.desc _ hi _ _ (by omega) hlt
    · -- behind its own head, which is below the one that was taken
      rw [take, Function.update_of_ne heq] at hle
      have hhead := hgreatest i ⟨hi, by omega⟩
      have hbelow : q.key i a ≤ q.key i (taken i) := by
        rcases Nat.eq_or_lt_of_le hle with h | h
        · rw [h]
        · exact (hq.desc i hi _ _ h hlt).le
      exact lt_of_le_of_ne (hbelow.trans hhead) (hq.apart i hi _ hmore.1 heq a _ hlt hmore.2)

end Sequences

example : Sequences.merged (fun taken => if taken true ≤ taken false then true else false) 3
    (fun _ => 0) = [(true, 0), (false, 0), (true, 1)] := by
  decide

end KfswServices.Library
