/-
# Little-endian words

`putLe w v` are the `w` low octets of `v`, lowest first, and `getLe` reads octets back.

`putLe32` and `putLe64` are the octets of a word as it lies in memory, lowest first.  Two words
that follow each other differ in their lowest bits only (`xor_succ`), so a checksum tells them
apart (`crc32_putLe64_succ`).
-/

import KfswServices.Library.Crc32
import Mathlib.Data.Nat.Bitwise

namespace KfswServices.Library

/-- The `w` low octets of `v`, lowest first. -/
def putLe : ℕ → ℕ → List UInt8
  | 0, _ => []
  | w + 1, v => UInt8.ofNat v :: putLe w (v / 256)

/-- The integer of octets, lowest first. -/
def getLe : List UInt8 → ℕ
  | [] => 0
  | b :: bs => b.toNat + 256 * getLe bs

@[simp] theorem length_putLe (w v : ℕ) : (putLe w v).length = w := by
  induction w generalizing v with
  | zero => rfl
  | succ w ih => rw [putLe, List.length_cons, ih]

theorem getLe_lt (bs : List UInt8) : getLe bs < 256 ^ bs.length := by
  induction bs with
  | nil => simp [getLe]
  | cons b bs ih =>
    have hb := b.toNat_lt
    rw [getLe, List.length_cons, pow_succ]
    omega

/-- **Reading what was put** gives the integer modulo the width. -/
theorem getLe_putLe (w v : ℕ) : getLe (putLe w v) = v % 256 ^ w := by
  induction w generalizing v with
  | zero => simp [putLe, getLe, Nat.mod_one]
  | succ w ih =>
    rw [putLe, getLe, ih, UInt8.toNat_ofNat']
    show v % 256 + 256 * (v / 256 % 256 ^ w) = v % 256 ^ (w + 1)
    rw [pow_succ', Nat.mod_mul]

def putLe32 (x : UInt32) : List UInt8 :=
  [x.toUInt8, (x >>> 8).toUInt8, (x >>> 16).toUInt8, (x >>> 24).toUInt8]

def putLe64 (x : UInt64) : List UInt8 :=
  [x.toUInt8, (x >>> 8).toUInt8, (x >>> 16).toUInt8, (x >>> 24).toUInt8, (x >>> 32).toUInt8,
    (x >>> 40).toUInt8, (x >>> 48).toUInt8, (x >>> 56).toUInt8]

/-- The word of four octets, lowest first. -/
def getLe32 (bs : List UInt8) : UInt32 :=
  UInt32.ofNat ((bs.getD 0 0).toNat + 256 * (bs.getD 1 0).toNat + 65536 * (bs.getD 2 0).toNat +
    16777216 * (bs.getD 3 0).toNat)

@[simp] theorem getLe32_putLe32 (x : UInt32) (bs : List UInt8) : getLe32 (putLe32 x ++ bs) = x := by
  have hx := x.toNat_lt
  refine UInt32.toNat_inj.1 ?_
  simp only [getLe32, putLe32, List.cons_append, List.nil_append, List.getD_cons_zero,
    List.getD_cons_succ, UInt32.toNat_ofNat', UInt32.toNat_toUInt8, UInt32.toNat_shiftRight,
    Nat.shiftRight_eq_div_pow]
  have h8 : 2 ^ (UInt32.toNat 8 % 32) = 256 := by decide
  have h16 : 2 ^ (UInt32.toNat 16 % 32) = 65536 := by decide
  have h24 : 2 ^ (UInt32.toNat 24 % 32) = 16777216 := by decide
  rw [h8, h16, h24]
  omega

theorem zipWith_xor_putLe64 (x y : UInt64) :
    List.zipWith (· ^^^ ·) (putLe64 x) (putLe64 y) = putLe64 (x ^^^ y) := by
  simp [putLe64, UInt64.shiftRight_xor]

/-- A number and its successor differ in a run of low bits. -/
theorem nat_xor_succ (n : ℕ) : ∃ k, n ^^^ (n + 1) = 2 ^ (k + 1) - 1 := by
  induction n using Nat.binaryRec with
  | zero => exact ⟨0, rfl⟩
  | bit b n ih =>
    cases b with
    | false =>
      have hsucc : Nat.bit false n + 1 = Nat.bit true n := by simp [Nat.bit_val]
      rw [hsucc, Nat.xor_bit, Nat.xor_self]
      exact ⟨0, rfl⟩
    | true =>
      obtain ⟨k, hk⟩ := ih
      have hsucc : Nat.bit true n + 1 = Nat.bit false (n + 1) := by
        simp only [Nat.bit_val]
        simp
        omega
      refine ⟨k + 1, ?_⟩
      rw [hsucc, Nat.xor_bit, hk, Nat.bit_val, pow_succ 2 (k + 1)]
      have := Nat.one_le_two_pow (n := k + 1)
      simp
      omega

/-- **A word and the next differ in their low bits only**, all of them at the end of the range. -/
theorem xor_succ (x : UInt64) : ∃ k < 64, x ^^^ (x + 1) = UInt64.ofNat (2 ^ (k + 1) - 1) := by
  by_cases hlast : x = UInt64.ofNat (2 ^ 64 - 1)
  · exact ⟨63, by decide, by rw [hlast]; decide⟩
  · have hlt : x.toNat + 1 < 2 ^ 64 := by
      have hx := x.toNat_lt
      by_contra hge
      exact hlast (UInt64.toNat_inj.1 (by rw [UInt64.toNat_ofNat']; omega))
    have hsucc : (x + 1).toNat = x.toNat + 1 := by
      rw [UInt64.toNat_add]
      exact Nat.mod_eq_of_lt hlt
    obtain ⟨k, hk⟩ := nat_xor_succ x.toNat
    have hbound : 2 ^ (k + 1) - 1 < 2 ^ 64 := by
      rw [← hk]
      exact Nat.xor_lt_two_pow x.toNat_lt hlt
    have hk64 : k + 1 ≤ 64 := by
      by_contra h
      have := Nat.pow_le_pow_right (n := 2) (by decide) (show 65 ≤ k + 1 by omega)
      omega
    refine ⟨k, by omega, UInt64.toNat_inj.1 ?_⟩
    rw [UInt64.toNat_xor, hsucc, hk, UInt64.toNat_ofNat', Nat.mod_eq_of_lt hbound]

/-- No run of low bits divides to zero. -/
theorem foldl_crc32Byte_low_bits : ∀ k < 64,
    (putLe64 (UInt64.ofNat (2 ^ (k + 1) - 1))).foldl crc32Byte 0 ≠ 0 := by
  decide +kernel

/-- **A checksum that ends with a word changes with the next word.** -/
theorem crc32_putLe64_succ (front : List UInt8) (x : UInt64) :
    crc32 (front ++ putLe64 x) ≠ crc32 (front ++ putLe64 (x + 1)) := by
  have hlen : (putLe64 x).length = (putLe64 (x + 1)).length := rfl
  unfold crc32
  rw [crc32Update_append, crc32Update_append, Ne, crc32Update_eq_iff hlen, zipWith_xor_putLe64]
  obtain ⟨k, hk, heq⟩ := xor_succ x
  rw [heq]
  exact foldl_crc32Byte_low_bits k hk

end KfswServices.Library
