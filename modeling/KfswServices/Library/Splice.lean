/-
# Writing into the middle of a list

`region xs offset len` are the items `[offset, offset + len)` of a list, as far as it
has them, and `splice` writes items over it at an offset, past the end if need be, with a
filler in the gap.  What was written is read back (`region_splice_self`), and a region
beside the items written is as before (`region_splice_before`, `region_splice_behind`).  In a list
made of parts, a part is written over by another one of its size (`splice_flatten`).
-/

import Mathlib.Algebra.Ring.Nat
import Mathlib.Data.List.Basic

namespace KfswServices.Library

variable {α : Type*}

/-- The items `[offset, offset + len)`, as far as there are any. -/
def region (xs : List α) (offset len : ℕ) : List α := (xs.drop offset).take len

/-- `data` written over `xs` at `offset`. -/
def splice (fill : α) (xs : List α) (offset : ℕ) (data : List α) : List α :=
  xs.take offset ++ (List.replicate (offset - xs.length) fill ++
    (data ++ xs.drop (offset + data.length)))

@[simp] theorem length_region (xs : List α) (offset len : ℕ) :
    (region xs offset len).length = min len (xs.length - offset) := by
  simp [region]

@[simp] theorem length_splice (fill : α) (xs : List α) (offset : ℕ) (data : List α) :
    (splice fill xs offset data).length = max xs.length (offset + data.length) := by
  simp only [splice, List.length_append, List.length_take, List.length_replicate, List.length_drop]
  omega

/-- The items in front of a splice, with the gap. -/
theorem length_splice_front (fill : α) (xs : List α) (offset : ℕ) :
    (xs.take offset ++ List.replicate (offset - xs.length) fill).length = offset := by
  simp only [List.length_append, List.length_take, List.length_replicate]
  omega

/-- **What was written is read back.** -/
theorem region_splice_self (fill : α) (xs : List α) (offset : ℕ) (data : List α) :
    region (splice fill xs offset data) offset data.length = data := by
  rw [region, splice, ← List.append_assoc, List.drop_left' (length_splice_front fill xs offset),
    List.take_left]

/-- **A region in front is as before**, as far as it lies in the list. -/
theorem region_splice_before (fill : α) {xs : List α} {offset : ℕ} (data : List α) {o len : ℕ}
    (hin : o + len ≤ xs.length) (h : o + len ≤ offset) :
    region (splice fill xs offset data) o len = region xs o len := by
  have hlen : (xs.take offset).length = min offset xs.length := List.length_take
  rw [region, region, splice, List.drop_append_of_le_length (by omega),
    List.take_append_of_le_length (by rw [List.length_drop]; omega), List.drop_take, List.take_take,
    Nat.min_eq_left (by omega)]

/-- **A region behind is as before.** -/
theorem region_splice_behind (fill : α) (xs : List α) {offset : ℕ} {data : List α} {o len : ℕ}
    (h : offset + data.length ≤ o) :
    region (splice fill xs offset data) o len = region xs o len := by
  have hfront := length_splice_front fill xs offset
  have hdrop : (splice fill xs offset data).drop o = xs.drop o := by
    rw [splice, ← List.append_assoc, ← List.append_assoc, List.drop_append,
      List.drop_eq_nil_of_le (by rw [List.length_append, hfront]; exact h), List.nil_append,
      List.drop_drop, List.length_append, hfront]
    congr 1
    omega
  rw [region, region, hdrop]

/-- What is read in two goes is what is read in one. -/
theorem region_add (xs : List α) (offset m n : ℕ) :
    region xs offset (m + n) = region xs offset m ++ region xs (offset + m) n := by
  unfold region
  rw [List.take_add, List.drop_drop]

/-- A region behind the front of a list is one of what follows. -/
theorem region_append (pre xs : List α) (k len : ℕ) :
    region (pre ++ xs) (pre.length + k) len = region xs k len := by
  rw [region, region, ← List.drop_drop, List.drop_left]

/-- A gap is filled. -/
theorem region_splice_gap (fill : α) {xs : List α} {offset : ℕ} (data : List α) {o len : ℕ}
    (hout : xs.length ≤ o) (h : o + len ≤ offset) :
    region (splice fill xs offset data) o len = List.replicate len fill := by
  rw [region, splice, List.take_of_length_le (show xs.length ≤ offset by omega), List.drop_append,
    List.drop_eq_nil_of_le hout, List.nil_append,
    List.drop_append_of_le_length (by rw [List.length_replicate]; omega), List.drop_replicate,
    List.take_append_of_le_length (by rw [List.length_replicate]; omega), List.take_replicate,
    Nat.min_eq_left (by omega)]

/-- Two writes, one behind the other, are one. -/
theorem splice_splice_append (fill : α) (xs : List α) (offset : ℕ) (data more : List α) :
    splice fill (splice fill xs offset data) (offset + data.length) more =
      splice fill xs offset (data ++ more) := by
  have hfront : (xs.take offset ++ List.replicate (offset - xs.length) fill ++ data).length =
      offset + data.length := by
    rw [List.length_append, length_splice_front]
  have hlen : offset + data.length - (splice fill xs offset data).length = 0 := by
    rw [length_splice]
    omega
  have hsplit : splice fill xs offset data =
      xs.take offset ++ List.replicate (offset - xs.length) fill ++ data ++
        xs.drop (offset + data.length) := by
    simp only [splice, List.append_assoc]
  rw [splice, hlen, List.replicate_zero, List.nil_append, hsplit, List.take_left' hfront,
    List.drop_append, List.drop_eq_nil_of_le (by rw [hfront]; omega), List.nil_append, hfront,
    List.drop_drop, splice, List.length_append]
  simp only [List.append_assoc]
  congr 5
  omega

/-- A write over a part of the same length. -/
theorem splice_append_append (fill : α) (front back : List α) {old data : List α}
    (h : data.length = old.length) :
    splice fill (front ++ (old ++ back)) front.length data = front ++ (data ++ back) := by
  unfold splice
  rw [List.take_left, Nat.sub_eq_zero_of_le (by rw [List.length_append]; omega),
    List.replicate_zero, List.nil_append, ← List.drop_drop, List.drop_left, h, List.drop_left]

/-- A write at the end. -/
theorem splice_length (fill : α) (xs data : List α) :
    splice fill xs xs.length data = xs ++ data := by
  simp [splice]

/-! ### Lists in parts -/

variable {parts : List (List α)} {sizes : List ℕ}

/-- What is in front of a part. -/
theorem length_flatten_take (h : parts.map List.length = sizes) (k : ℕ) :
    (parts.take k).flatten.length = (sizes.take k).sum := by
  rw [List.length_flatten, List.map_take, h]

/-- From a part on. -/
theorem drop_flatten (h : parts.map List.length = sizes) (k : ℕ) :
    parts.flatten.drop (sizes.take k).sum = (parts.drop k).flatten := by
  have hsplit : parts.flatten = (parts.take k).flatten ++ (parts.drop k).flatten := by
    rw [← List.flatten_append, List.take_append_drop]
  rw [hsplit, List.drop_left' (length_flatten_take h k)]

/-- A write over one part. -/
theorem splice_flatten (fill : α) (h : parts.map List.length = sizes) {k : ℕ} {data : List α}
    (hk : sizes[k]? = some data.length) :
    splice fill parts.flatten (sizes.take k).sum data = (parts.set k data).flatten := by
  subst h
  rw [List.getElem?_map, Option.map_eq_some_iff] at hk
  obtain ⟨old, hold, hlen⟩ := hk
  obtain ⟨hlt, rfl⟩ := List.getElem?_eq_some_iff.1 hold
  have hsplit : parts = parts.take k ++ parts[k] :: parts.drop (k + 1) := by
    rw [← List.drop_eq_getElem_cons hlt, List.take_append_drop]
  have hflat : parts.flatten =
      (parts.take k).flatten ++ (parts[k] ++ (parts.drop (k + 1)).flatten) := by
    conv_lhs => rw [hsplit]
    rw [List.flatten_append, List.flatten_cons]
  rw [← length_flatten_take rfl k, hflat, splice_append_append fill _ _ hlen.symm,
    List.set_eq_take_append_cons_drop, if_pos hlt, List.flatten_append, List.flatten_cons]

/-- The sizes of the parts stay. -/
theorem map_length_set (h : parts.map List.length = sizes) {k : ℕ} {data : List α}
    (hk : sizes[k]? = some data.length) : (parts.set k data).map List.length = sizes := by
  rw [List.map_set, h]
  obtain ⟨hlt, hget⟩ := List.getElem?_eq_some_iff.1 hk
  rw [← hget, List.set_getElem_self]
example : splice 0 [1, 2, 3, 4] 1 [9, 9] = [1, 9, 9, 4] ∧ splice 0 [1] 3 [9] = [1, 0, 0, 9] ∧
    region [1, 2, 3] 2 4 = [3] := by
  decide

end KfswServices.Library
