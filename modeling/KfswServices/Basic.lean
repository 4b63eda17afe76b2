/-
# Error codes and C strings

The services return `0` or a negative `errno`.  `Errno` lists the codes the
sources name; a code that only a driver or a library can return is `other`.
A return value `int` is `Option Errno`, with `none` for `0`.

Text is a C string: the bytes before the terminator (`CString`).
-/

import Mathlib.Algebra.Ring.Nat
import Mathlib.Data.Int.Basic
import Mathlib.Data.List.Basic
import Mathlib.Data.List.TakeWhile

namespace KfswServices

/-- The `errno` values the services name, and any other one. -/
inductive Errno
  | EINVAL | EBADMSG | ENOENT | ENOTSUP | EACCES | ERANGE | ETIMEDOUT | EIO | EMSGSIZE | EEXIST
  | ENODEV | ENOSPC | ENAMETOOLONG | EFBIG | EBUSY | E2BIG | EALREADY | ECONNREFUSED | ENOMEM
  | EILSEQ | EAGAIN | EADDRINUSE | EROFS | EPROTONOSUPPORT | ENODATA | ECANCELED | EISDIR
  | ETIME | ENOTCONN | ESPIPE | EOVERFLOW | ENOBUFS | EPERM | EMFILE | ESTALE | ENOTDIR
  | ECONNRESET | ENXIO
  | other (code : ℕ)
  deriving DecidableEq, Repr

/-- A check that refuses: what is left when the function succeeds. -/
theorem ite_error_eq_ok {α ε : Type*} {c : Prop} [Decidable c] {e : ε} {x : Except ε α} {a : α} :
    (if c then .error e else x) = .ok a ↔ ¬ c ∧ x = .ok a := by
  by_cases h : c
  · simp [h]
  · simp [h]

/-- Two steps that both succeed. -/
theorem bind_eq_ok {α β ε : Type} {x : Except ε α} {f : α → Except ε β} {c : β} :
    x >>= f = .ok c ↔ ∃ a, x = .ok a ∧ f a = .ok c := by
  cases x with
  | error e => exact iff_of_false (fun h => by cases h) (by rintro ⟨_, h, -⟩; cases h)
  | ok a => exact ⟨fun h => ⟨a, rfl, h⟩, by rintro ⟨_, ⟨⟩, h⟩; exact h⟩

/-- A sum stored in an `int64_t`, which wraps as the build's compiler flags say. -/
def int64 (x : ℤ) : ℤ := Int.bmod x (2 ^ 64)

/-- Bytes that may be missing are compared by what they are. -/
instance lawfulBEqByte : LawfulBEq (Option UInt8) := inferInstance

/-- There is no terminator in front of the first one. -/
theorem zero_notMem_takeWhile (bytes : List UInt8) : 0 ∉ bytes.takeWhile (· ≠ 0) := by
  intro h
  simpa using List.mem_takeWhile_imp h

/-- A NUL-terminated string, as the bytes before its terminator. -/
structure CString where
  bytes : List UInt8
  noNul : 0 ∉ bytes
  deriving DecidableEq

namespace CString

/-- `strlen`. -/
def length (s : CString) : ℕ := s.bytes.length

/-- The empty string. -/
def empty : CString := ⟨[], by simp⟩

/-- A string literal of the sources; the bytes of its characters. -/
def ofString (s : String) : CString :=
  ⟨(s.toList.map fun c => UInt8.ofNat c.toNat).filter (· ≠ 0), by simp⟩

/-- The first `n` bytes, as `snprintf` keeps them. -/
def take (n : ℕ) (s : CString) : CString :=
  ⟨s.bytes.take n, fun h => s.noNul (List.mem_of_mem_take h)⟩

/-- The string from its byte `n` on. -/
def drop (n : ℕ) (s : CString) : CString :=
  ⟨s.bytes.drop n, fun h => s.noNul (List.mem_of_mem_drop h)⟩

/-- The bytes before the first one that fails the test. -/
def takeWhile (p : UInt8 → Bool) (s : CString) : CString :=
  ⟨s.bytes.takeWhile p, fun h => s.noNul (List.takeWhile_subset p h)⟩

/-- The string from the first byte on that fails the test. -/
def dropWhile (p : UInt8 → Bool) (s : CString) : CString :=
  ⟨s.bytes.dropWhile p, fun h => s.noNul (List.dropWhile_subset p h)⟩

/-- The string that begins at some bytes. -/
def scan (bytes : List UInt8) : CString :=
  ⟨bytes.takeWhile (· ≠ 0), zero_notMem_takeWhile bytes⟩

/-- Concatenation, as a format of `%s` directives produces it. -/
def append (s t : CString) : CString :=
  ⟨s.bytes ++ t.bytes, by simp [s.noNul, t.noNul]⟩

instance : Append CString := ⟨append⟩

@[simp] theorem scan_append (s : CString) (bytes : List UInt8) :
    scan (s.bytes ++ 0 :: bytes) = s := by
  have hpos : ∀ b ∈ s.bytes, decide (b ≠ 0) = true := fun b hb =>
    decide_eq_true fun h => s.noNul (h ▸ hb)
  unfold scan
  congr 1
  rw [List.takeWhile_append_of_pos hpos, List.takeWhile_cons_of_neg (by simp), List.append_nil]

@[simp] theorem scan_bytes (s : CString) : scan s.bytes = s := by
  have hpos : ∀ b ∈ s.bytes, decide (b ≠ 0) = true := fun b hb =>
    decide_eq_true fun h => s.noNul (h ▸ hb)
  unfold scan
  congr 1
  exact List.takeWhile_eq_self_iff.2 hpos

theorem length_scan_le (bytes : List UInt8) : (scan bytes).length ≤ bytes.length :=
  (List.takeWhile_prefix _).length_le

/-- A terminator ends the string in front of it. -/
theorem length_scan_lt {bytes : List UInt8} (h : 0 ∈ bytes) :
    (scan bytes).length < bytes.length := by
  refine lt_of_le_of_ne (length_scan_le bytes) fun heq => ?_
  have hall : (scan bytes).bytes = bytes := (List.takeWhile_prefix _).eq_of_length heq
  exact (scan bytes).noNul (hall.symm ▸ h)

theorem take_of_length_le {n : ℕ} {s : CString} (h : s.length ≤ n) : s.take n = s := by
  unfold take
  congr 1
  exact List.take_of_length_le h

theorem length_take_le (n : ℕ) (s : CString) : (s.take n).length ≤ n :=
  List.length_take_le n s.bytes

end CString

end KfswServices
