/-
# CRC-32

The reflected CRC with polynomial `0xEDB88320`, initial value and final
exclusive-or all ones, as an update over a running value: `crc32Update c data`
continues the checksum `c` of what came before, and `crc32Update_append` says so.
For fixed data the update is injective in the running value
(`crc32Update_injective`): two messages that end alike collide only if their heads
do.

The division is linear in exclusive-or (`foldl_crc32Byte_xor`), so whether two messages of one
length collide is decided by their difference alone (`crc32Update_eq_iff`).
-/

import Mathlib.Data.List.Basic
import Mathlib.Logic.Function.Iterate

namespace KfswServices.Library

/-- One bit of the division. -/
def crc32Bit (c : UInt32) : UInt32 :=
  if c &&& 1 = 1 then (c >>> 1) ^^^ 0xEDB88320 else c >>> 1

/-- One byte of the division: eight bits, least significant first. -/
def crc32Byte (c : UInt32) (b : UInt8) : UInt32 :=
  Nat.iterate crc32Bit 8 (c ^^^ b.toUInt32)

/-- The checksum of what `c` is the checksum of, followed by `data`. -/
def crc32Update (c : UInt32) (data : List UInt8) : UInt32 :=
  ~~~ (data.foldl crc32Byte (~~~ c))

/-- The checksum of `data`. -/
def crc32 (data : List UInt8) : UInt32 := crc32Update 0 data

@[simp] theorem crc32Update_nil (c : UInt32) : crc32Update c [] = c := by
  simp [crc32Update]

/-- **The checksum of a concatenation is taken in two goes.** -/
theorem crc32Update_append (c : UInt32) (a b : List UInt8) :
    crc32Update c (a ++ b) = crc32Update (crc32Update c a) b := by
  simp [crc32Update]

/-- The check value of the algorithm: the checksum of the digits `1` to `9`. -/
example : crc32 [0x31, 0x32, 0x33, 0x34, 0x35, 0x36, 0x37, 0x38, 0x39] = 0xCBF43926 := by
  decide +kernel

/-! ### Nothing of the running value is lost -/

theorem low_bit_eq_one_iff (c : UInt32) : c &&& 1 = 1 ↔ c.toBitVec.getLsbD 0 = true := by
  rw [← UInt32.toBitVec_inj]
  constructor
  · intro h
    have := congrArg (·.getLsbD 0) h
    simpa using this
  · intro h
    ext i hi
    rcases i with _ | i
    · simpa using h
    · simp

/-- The bit shifted out comes back as the highest: the polynomial has it. -/
theorem crc32Bit_high (c : UInt32) : (crc32Bit c).toBitVec.getLsbD 31 = c.toBitVec.getLsbD 0 := by
  unfold crc32Bit
  split_ifs with h
  · rw [(low_bit_eq_one_iff c).1 h]
    simp
  · have hlow : c.toBitVec.getLsbD 0 = false := by
      simpa using mt (low_bit_eq_one_iff c).2 h
    rw [hlow]
    simp

theorem crc32Bit_injective : Function.Injective crc32Bit := by
  intro x y h
  have hbit : x.toBitVec.getLsbD 0 = y.toBitVec.getLsbD 0 := by
    rw [← crc32Bit_high x, h, crc32Bit_high y]
  have hlow : x &&& 1 = 1 ↔ y &&& 1 = 1 := by
    rw [low_bit_eq_one_iff, low_bit_eq_one_iff, hbit]
  have hshift : x >>> 1 = y >>> 1 := by
    unfold crc32Bit at h
    by_cases hx : x &&& 1 = 1
    · rw [if_pos hx, if_pos (hlow.1 hx)] at h
      exact (UInt32.xor_left_inj _).1 h
    · rwa [if_neg hx, if_neg (mt hlow.2 hx)] at h
  rw [← UInt32.toBitVec_inj] at hshift ⊢
  refine BitVec.eq_of_getLsbD_eq fun i hi => ?_
  rcases i with _ | i
  · exact hbit
  · have := congrArg (·.getLsbD i) hshift
    simpa [Nat.add_comm] using this

theorem foldl_crc32Byte_injective (data : List UInt8) :
    Function.Injective fun c => data.foldl crc32Byte c := by
  induction data with
  | nil => exact fun _ _ h => h
  | cons b data ih =>
    intro x y h
    have hbyte : crc32Byte x b = crc32Byte y b := ih h
    exact (UInt32.xor_left_inj _).1 (crc32Bit_injective.iterate 8 hbyte)

/-- **The update is injective in the running value.** -/
theorem crc32Update_injective (data : List UInt8) :
    Function.Injective fun c => crc32Update c data := by
  intro x y h
  have hfold := foldl_crc32Byte_injective data (UInt32.not_inj.1 h)
  exact UInt32.not_inj.1 hfold

/-! ### Linearity -/

theorem crc32Bit_xor (x y : UInt32) : crc32Bit (x ^^^ y) = crc32Bit x ^^^ crc32Bit y := by
  have hlow : (x ^^^ y) &&& 1 = 1 ↔ ((x &&& 1 = 1) ↔ ¬ y &&& 1 = 1) := by
    rw [low_bit_eq_one_iff, low_bit_eq_one_iff, low_bit_eq_one_iff]
    simp only [UInt32.toBitVec_xor, BitVec.getLsbD_xor]
    cases x.toBitVec.getLsbD 0 <;> cases y.toBitVec.getLsbD 0 <;> decide
  have hcancel : ∀ a b p : UInt32, (a ^^^ p) ^^^ (b ^^^ p) = a ^^^ b := by
    intro a b p
    rw [UInt32.xor_comm b p, UInt32.xor_assoc, ← UInt32.xor_assoc p p b, UInt32.xor_self,
      UInt32.zero_xor]
  unfold crc32Bit
  by_cases hx : x &&& 1 = 1
  · by_cases hy : y &&& 1 = 1
    · rw [if_neg (by rw [hlow]; simp [hx, hy]), if_pos hx, if_pos hy, hcancel,
        UInt32.shiftRight_xor]
    · rw [if_pos (hlow.2 (by simp [hx, hy])), if_pos hx, if_neg hy, UInt32.shiftRight_xor,
        UInt32.xor_assoc, UInt32.xor_assoc, UInt32.xor_comm (y >>> 1)]
  · by_cases hy : y &&& 1 = 1
    · rw [if_pos (hlow.2 (by simp [hx, hy])), if_neg hx, if_pos hy, UInt32.shiftRight_xor,
        UInt32.xor_assoc]
    · rw [if_neg (by rw [hlow]; simp [hx, hy]), if_neg hx, if_neg hy, UInt32.shiftRight_xor]

theorem iterate_crc32Bit_xor (n : ℕ) (x y : UInt32) :
    crc32Bit^[n] (x ^^^ y) = crc32Bit^[n] x ^^^ crc32Bit^[n] y := by
  induction n generalizing x y with
  | zero => rfl
  | succ n ih =>
    rw [Function.iterate_succ_apply, crc32Bit_xor, ih]
    rfl

theorem crc32Byte_xor (c d : UInt32) (a b : UInt8) :
    crc32Byte (c ^^^ d) (a ^^^ b) = crc32Byte c a ^^^ crc32Byte d b := by
  have hswap : (c ^^^ d) ^^^ (a ^^^ b).toUInt32 = (c ^^^ a.toUInt32) ^^^ (d ^^^ b.toUInt32) := by
    rw [UInt8.toUInt32_xor, UInt32.xor_assoc, UInt32.xor_assoc, ← UInt32.xor_assoc d,
      UInt32.xor_comm d, UInt32.xor_assoc]
  unfold crc32Byte
  rw [hswap]
  exact iterate_crc32Bit_xor 8 _ _

/-- **The division of a difference** is the difference of the divisions. -/
theorem foldl_crc32Byte_xor {as bs : List UInt8} (h : as.length = bs.length) (c d : UInt32) :
    (List.zipWith (· ^^^ ·) as bs).foldl crc32Byte (c ^^^ d) =
      as.foldl crc32Byte c ^^^ bs.foldl crc32Byte d := by
  induction as generalizing bs c d with
  | nil =>
    obtain rfl := List.length_eq_zero_iff.1 h.symm
    rfl
  | cons a as ih =>
    obtain ⟨b, bs, rfl⟩ := List.exists_cons_of_length_eq_add_one (h.symm.trans List.length_cons)
    rw [List.zipWith_cons_cons, List.foldl_cons, crc32Byte_xor,
      ih (by simpa using h)]
    rfl

/-- Two messages of one length collide when their difference divides to zero. -/
theorem crc32Update_eq_iff {as bs : List UInt8} (h : as.length = bs.length) (c : UInt32) :
    crc32Update c as = crc32Update c bs ↔ (List.zipWith (· ^^^ ·) as bs).foldl crc32Byte 0 = 0 := by
  have hxor := foldl_crc32Byte_xor h (~~~ c) (~~~ c)
  rw [UInt32.xor_self] at hxor
  unfold crc32Update
  rw [UInt32.not_inj, hxor, UInt32.xor_eq_zero_iff]

end KfswServices.Library
