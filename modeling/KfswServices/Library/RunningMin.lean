/-
# A running minimum that begins with zero

`runningMin` takes the smaller of two values, except that zero stands for nothing yet.  Over values
none of which is zero it gives the least of them.  A zero is forgotten with the next value, unless
that one is negative; so it gives the least of them exactly if zero is not the least, or is the last
(`leastOrZero_foldl_iff`).
-/

import Mathlib.Data.List.Basic
import Mathlib.Data.List.Induction
import Mathlib.Order.Lattice

namespace KfswServices.Library

variable {α : Type*} [LinearOrder α] [Zero α]

/-- The smaller one, where zero is nothing yet. -/
def runningMin (acc x : α) : α := if acc = 0 ∨ x < acc then x else acc

/-- The least of some values, or zero if there are none. -/
def LeastOrZero (xs : List α) (m : α) : Prop :=
  (xs = [] ∧ m = 0) ∨ (m ∈ xs ∧ ∀ x ∈ xs, m ≤ x)

/-- If zero is the least of some values, it is the last of them. -/
def ZeroLast (xs : List α) : Prop := 0 ∈ xs → (∀ x ∈ xs, 0 ≤ x) → xs.getLast? = some 0

theorem foldl_runningMin_concat (xs : List α) (x : α) :
    (xs ++ [x]).foldl runningMin 0 = runningMin (xs.foldl runningMin 0) x := by
  rw [List.foldl_append]
  rfl

/-- What it comes to is one of the values. -/
theorem foldl_runningMin_mem (xs : List α) :
    (xs = [] ∧ xs.foldl runningMin 0 = 0) ∨ xs.foldl runningMin 0 ∈ xs := by
  induction xs using List.reverseRecOn with
  | nil => exact .inl ⟨rfl, rfl⟩
  | append_singleton xs x ih =>
    right
    rw [foldl_runningMin_concat, List.mem_append, List.mem_singleton]
    by_cases h : xs.foldl runningMin 0 = 0 ∨ x < xs.foldl runningMin 0
    · exact .inr (if_pos h)
    · rw [not_or] at h
      rw [runningMin, if_neg (not_or.2 h)]
      exact .inl (ih.resolve_left fun hnil => h.1 hnil.2)

/-- It is no more than any value, or zero is the least of them. -/
theorem foldl_runningMin_le (xs : List α) :
    (∀ x ∈ xs, xs.foldl runningMin 0 ≤ x) ∨ (0 ∈ xs ∧ ∀ x ∈ xs, 0 ≤ x) := by
  induction xs using List.reverseRecOn with
  | nil => exact .inl (by simp)
  | append_singleton xs x ih =>
    have hmem := foldl_runningMin_mem xs
    rw [foldl_runningMin_concat]
    generalize xs.foldl runningMin 0 = m at ih hmem ⊢
    simp only [List.forall_mem_append, List.forall_mem_singleton]
    rw [List.mem_append]
    rcases ih with hle | ⟨hzero, hnonneg⟩
    · by_cases hm : m = 0
      · rw [runningMin, if_pos (.inl hm)]
        subst hm
        rcases hmem with ⟨rfl, -⟩ | hmem
        · exact .inl ⟨by simp, le_rfl⟩
        · rcases le_total x 0 with hx | hx
          · exact .inl ⟨fun y hy => hx.trans (hle y hy), le_rfl⟩
          · exact .inr ⟨.inl hmem, hle, hx⟩
      · left
        by_cases hx : x < m
        · rw [runningMin, if_pos (.inr hx)]
          exact ⟨fun y hy => hx.le.trans (hle y hy), le_rfl⟩
        · rw [runningMin, if_neg (not_or.2 ⟨hm, hx⟩)]
          exact ⟨hle, not_lt.1 hx⟩
    · rcases lt_or_ge x 0 with hx | hx
      · -- a negative value is taken, whatever there was
        have hm : 0 ≤ m := by
          rcases hmem with ⟨rfl, -⟩ | hmem
          · cases hzero
          · exact hnonneg m hmem
        rw [runningMin, if_pos (.inr (hx.trans_le hm))]
        exact .inl ⟨fun y hy => hx.le.trans (hnonneg y hy), le_rfl⟩
      · exact .inr ⟨.inl hzero, hnonneg, hx⟩

/-- Over values of which none is negative, it comes to zero exactly with a zero at the end. -/
theorem foldl_runningMin_eq_zero_iff {xs : List α} (hne : xs ≠ []) (hnonneg : ∀ x ∈ xs, 0 ≤ x) :
    xs.foldl runningMin 0 = 0 ↔ xs.getLast? = some 0 := by
  rcases List.eq_nil_or_concat' xs with rfl | ⟨ys, x, rfl⟩
  · exact absurd rfl hne
  · have hmem := foldl_runningMin_mem ys
    rw [foldl_runningMin_concat, List.getLast?_concat, Option.some.injEq]
    generalize ys.foldl runningMin 0 = m at hmem
    have hm : 0 ≤ m := by
      rcases hmem with ⟨-, rfl⟩ | hmem
      · exact le_rfl
      · exact hnonneg m (List.mem_append_left _ hmem)
    by_cases h : m = 0 ∨ x < m
    · rw [runningMin, if_pos h]
    · rw [runningMin, if_neg h]
      rw [not_or, not_lt] at h
      refine iff_of_false h.1 fun hx => h.1 (le_antisymm ?_ hm)
      exact hx ▸ h.2

/-- **The running minimum is the least value** exactly if zero is not, or comes last. -/
theorem leastOrZero_foldl_iff (xs : List α) :
    LeastOrZero xs (xs.foldl runningMin 0) ↔ ZeroLast xs := by
  constructor
  · rintro (⟨rfl, -⟩ | ⟨hmem, hle⟩) hzero hnonneg
    · cases hzero
    · rw [← foldl_runningMin_eq_zero_iff (List.ne_nil_of_mem hzero) hnonneg]
      exact le_antisymm (hle 0 hzero) (hnonneg _ hmem)
  · intro h
    rcases foldl_runningMin_mem xs with hnil | hmem
    · exact .inl hnil
    · refine .inr ⟨hmem, ?_⟩
      rcases foldl_runningMin_le xs with hle | ⟨hzero, hnonneg⟩
      · exact hle
      · have hlast := h hzero hnonneg
        rw [(foldl_runningMin_eq_zero_iff (List.ne_nil_of_mem hzero) hnonneg).2 hlast]
        exact hnonneg

/-- Without a zero there is nothing to forget. -/
theorem ZeroLast.of_not_mem {xs : List α} (h : 0 ∉ xs) : ZeroLast xs := fun hz => absurd hz h

/-! ### Loops over records -/

variable {σ β γ : Type*} {visit : σ → β → σ} {p : β → Bool}

/-- A field that a loop folds some of its values into. -/
theorem foldl_field {field : σ → γ} {f : β → γ} {op : γ → γ → γ}
    (h : ∀ st b, field (visit st b) = if p b then op (field st) (f b) else field st)
    (bs : List β) (st : σ) :
    field (bs.foldl visit st) = ((bs.filter p).map f).foldl op (field st) := by
  induction bs generalizing st with
  | nil => rfl
  | cons b bs ih =>
    rw [List.foldl_cons, ih, h]
    cases hp : p b with
    | true => simp [hp]
    | false => simp [hp]

/-- A field in which a loop counts. -/
theorem foldl_counter {field : σ → UInt16}
    (h : ∀ st b, field (visit st b) = if p b then field st + 1 else field st)
    (bs : List β) (st : σ) :
    field (bs.foldl visit st) = field st + UInt16.ofNat (bs.countP p) := by
  induction bs generalizing st with
  | nil => simp
  | cons b bs ih =>
    rw [List.foldl_cons, ih, h, List.countP_cons]
    cases p b with
    | true => simp [UInt16.add_assoc, UInt16.add_comm]
    | false => simp

end KfswServices.Library
