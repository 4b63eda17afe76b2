/-
# Reading and writing inside a buffer

Reading a byte, some bytes or a big-endian word of a buffer, and writing some bytes over it, where
an access that is not inside is a failure (`none`).  A decoder that is written with these and never
fails reads nothing outside; an encoder that never fails writes nothing outside.

An encoder writes its fields one behind the other, which is one write (`storeAt_then`).
-/

import KfswServices.Library.BigEndian
import KfswServices.Library.Splice

namespace KfswServices.Library

/-- The byte at an offset. -/
def byteAt (buffer : List UInt8) (offset : ℕ) : Option UInt8 := buffer[offset]?

/-- The `size` bytes from an offset on. -/
def bytesAt (buffer : List UInt8) (offset size : ℕ) : Option (List UInt8) :=
  if offset + size ≤ buffer.length then some ((buffer.drop offset).take size) else none

/-- The words at an offset. -/
def be16At (buffer : List UInt8) (offset : ℕ) : Option UInt16 :=
  (bytesAt buffer offset 2).map getBe16

def be32At (buffer : List UInt8) (offset : ℕ) : Option UInt32 :=
  (bytesAt buffer offset 4).map getBe32

def be64At (buffer : List UInt8) (offset : ℕ) : Option UInt64 :=
  (bytesAt buffer offset 8).map getBe64

/-- The buffer with `data` written over it at an offset. -/
def storeAt (buffer : List UInt8) (offset : ℕ) (data : List UInt8) : Option (List UInt8) :=
  if offset + data.length ≤ buffer.length then some (splice 0 buffer offset data) else none

variable {buffer : List UInt8} {offset size : ℕ}

theorem byteAt_eq (h : offset < buffer.length) :
    byteAt buffer offset = some (buffer.getD offset 0) := by
  rw [byteAt, List.getD_eq_getElem?_getD, List.getElem?_eq_getElem h, Option.getD_some]

/-- A byte that is read only where there is one. -/
theorem byteAt_guarded {β : Type*} {q : Prop} [Decidable q] (h : q → offset < buffer.length)
    (f : UInt8 → β) (b : β) : (if q then (byteAt buffer offset).map f else some b) =
      some (if q then f (buffer.getD offset 0) else b) := by
  by_cases hq : q
  · rw [if_pos hq, if_pos hq, byteAt_eq (h hq), Option.map_some]
  · rw [if_neg hq, if_neg hq]

theorem bytesAt_eq (h : offset + size ≤ buffer.length) :
    bytesAt buffer offset size = some ((buffer.drop offset).take size) := if_pos h

/-- The bytes in front, as far as there are any. -/
theorem bytesAt_min (buffer : List UInt8) (size : ℕ) :
    bytesAt buffer 0 (min buffer.length size) = some (buffer.take size) := by
  rw [bytesAt_eq (by omega), List.drop_zero, min_comm, ← List.take_eq_take_min]

theorem be16At_eq (h : offset + 2 ≤ buffer.length) :
    be16At buffer offset = some (getBe16 (buffer.drop offset)) := by
  rw [be16At, bytesAt_eq h, Option.map_some, getBe16, getBe16, List.take_take, min_self]

theorem be32At_eq (h : offset + 4 ≤ buffer.length) :
    be32At buffer offset = some (getBe32 (buffer.drop offset)) := by
  rw [be32At, bytesAt_eq h, Option.map_some, getBe32, getBe32, List.take_take, min_self]

theorem be64At_eq (h : offset + 8 ≤ buffer.length) :
    be64At buffer offset = some (getBe64 (buffer.drop offset)) := by
  rw [be64At, bytesAt_eq h, Option.map_some, getBe64, getBe64, List.take_take, min_self]

/-! ### Writing -/

variable {data : List UInt8}

/-- A write in front: what is behind stays. -/
theorem storeAt_zero (h : data.length ≤ buffer.length) :
    storeAt buffer 0 data = some (data ++ buffer.drop data.length) := by
  rw [storeAt, if_pos (by omega), splice, List.take_zero, Nat.zero_sub, List.replicate_zero,
    List.nil_append, List.nil_append, Nat.zero_add]

/-- **A write over the whole buffer** leaves nothing of it. -/
theorem storeAt_whole (h : data.length = buffer.length) : storeAt buffer 0 data = some data := by
  rw [storeAt_zero h.le, List.drop_of_length_le h.ge, List.append_nil]

/-- **Two writes, one behind the other, are one**; both are inside when the one is. -/
theorem storeAt_append {next : ℕ} {more : List UInt8} (h : next = offset + data.length) :
    ((storeAt buffer offset data).bind fun b => storeAt b next more) =
      storeAt buffer offset (data ++ more) := by
  subst h
  unfold storeAt
  rw [List.length_append]
  by_cases hfirst : offset + data.length ≤ buffer.length
  · have hlen : (splice 0 buffer offset data).length = buffer.length := by
      rw [length_splice, max_eq_left hfirst]
    rw [if_pos hfirst, Option.bind_some, hlen, splice_splice_append, Nat.add_assoc]
  · rw [if_neg hfirst, Option.bind_none, if_neg (by omega)]

/-- The same with what follows. -/
theorem storeAt_then {β : Type*} {next : ℕ} {more : List UInt8} (h : next = offset + data.length)
    (k : List UInt8 → Option β) :
    ((storeAt buffer offset data).bind fun b => (storeAt b next more).bind k) =
      (storeAt buffer offset (data ++ more)).bind k := by
  rw [← storeAt_append h, Option.bind_assoc]

/-- A write into an array that is clear. -/
theorem storeAt_clear (h : data.length ≤ size) : storeAt (List.replicate size 0) 0 data =
      some (data ++ List.replicate (size - data.length) 0) := by
  rw [storeAt_zero (by rwa [List.length_replicate]), List.drop_replicate]

/-- A terminator behind it changes nothing. -/
theorem storeAt_terminator (h : data.length < size) :
    storeAt (data ++ List.replicate (size - data.length) 0) data.length [0] =
      some (data ++ List.replicate (size - data.length) 0) := by
  have hzeros : List.replicate (size - data.length) (0 : UInt8) =
      [0] ++ List.replicate (size - data.length - 1) 0 := by
    rw [show size - data.length = size - data.length - 1 + 1 by omega, List.replicate_succ]
    rfl
  rw [hzeros, storeAt, splice_append_append 0 data _ rfl, if_pos]
  simp only [List.length_append, List.length_cons, List.length_nil]
  omega

/-! ### Words -/

/-- A buffer that is long enough begins with a word. -/
theorem exists_eq_putBe16 {bs : List UInt8} (h : 2 ≤ bs.length) :
    ∃ v rest, bs = putBe16 v ++ rest ∧ bs.length = 2 + rest.length := by
  match bs, h with
  | a :: b :: rest, _ =>
    refine ⟨getBe16 [a, b], rest, ?_, by simp only [List.length_cons]; omega⟩
    rw [putBe16_getBe16]
    rfl

theorem exists_eq_putBe32 {bs : List UInt8} (h : 4 ≤ bs.length) :
    ∃ v rest, bs = putBe32 v ++ rest ∧ bs.length = 4 + rest.length := by
  match bs, h with
  | a :: b :: c :: d :: rest, _ =>
    refine ⟨getBe32 [a, b, c, d], rest, ?_, by simp only [List.length_cons]; omega⟩
    rw [putBe32_getBe32]
    rfl

end KfswServices.Library
