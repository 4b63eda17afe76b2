/-
# Bytes at an address

`Cells` are the bytes from an address on.  `load n` copies the first `n` of them, and `poke` writes
bytes over them; what is loaded after a write is what was written, and behind it what was there
(`load_poke_of_le`).
-/

import Mathlib.Data.List.GetD

namespace KfswServices.Library

/-- The bytes from an address on. -/
abbrev Cells := ℕ → UInt8

/-- The first `n` bytes. -/
def load (n : ℕ) (cells : Cells) : List UInt8 := (List.range n).map cells

/-- `data` written there. -/
def poke (data : List UInt8) (cells : Cells) : Cells := fun i => data.getD i (cells i)

@[simp] theorem length_load (n : ℕ) (cells : Cells) : (load n cells).length = n := by
  simp [load]

theorem poke_of_lt {data : List UInt8} {i : ℕ} (h : i < data.length) (cells : Cells) :
    poke data cells i = data[i] := by
  rw [poke, List.getD_eq_getElem _ _ h]

/-- **What was written is read back**, and behind it what was there. -/
theorem load_poke_of_le {data : List UInt8} {n : ℕ} (h : data.length ≤ n) (cells : Cells) :
    load n (poke data cells) = data ++ (load n cells).drop data.length := by
  refine List.ext_getElem (by simp; omega) fun i hi _ => ?_
  rw [length_load] at hi
  rcases Nat.lt_or_ge i data.length with hlt | hge
  · rw [List.getElem_append_left hlt]
    simp [load, poke_of_lt hlt]
  · rw [List.getElem_append_right hge]
    simp [load, poke, List.getElem?_eq_none hge, Nat.add_sub_cancel' hge]

theorem load_poke {data : List UInt8} {n : ℕ} (h : data.length = n) (cells : Cells) :
    load n (poke data cells) = data := by
  rw [load_poke_of_le (Nat.le_of_eq h), List.drop_of_length_le (by simp [h]), List.append_nil]

/-- What is written twice is written once. -/
@[simp] theorem poke_poke (data : List UInt8) (cells : Cells) :
    poke data (poke data cells) = poke data cells := by
  funext i
  rcases Nat.lt_or_ge i data.length with hlt | hge
  · rw [poke_of_lt hlt, poke_of_lt hlt]
  · rw [poke, List.getD_eq_default _ _ hge]

end KfswServices.Library
