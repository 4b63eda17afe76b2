/-
# Big-endian integers

`putBe w v` are the `w` low octets of `v`, most significant first, and `getBe`
reads octets back.  Reading what was put gives the integer modulo `256 ^ w`
(`getBe_putBe`), and putting what was read gives the octets back
(`putBe_getBe`); the fixed-width instances at the end are what a codec uses.
-/

import Mathlib.Data.List.Basic
import Mathlib.Tactic.Linarith
import Mathlib.Tactic.Positivity
import Mathlib.Tactic.Ring

namespace KfswServices.Library

/-- The `w` low octets of `v`, most significant first. -/
def putBe : ℕ → ℕ → List UInt8
  | 0, _ => []
  | w + 1, v => UInt8.ofNat (v / 256 ^ w) :: putBe w v

/-- The integer of octets, most significant first. -/
def getBe : List UInt8 → ℕ
  | [] => 0
  | b :: bs => b.toNat * 256 ^ bs.length + getBe bs

@[simp] theorem length_putBe (w v : ℕ) : (putBe w v).length = w := by
  induction w with
  | zero => rfl
  | succ w ih => rw [putBe, List.length_cons, ih]

theorem getBe_lt (bs : List UInt8) : getBe bs < 256 ^ bs.length := by
  induction bs with
  | nil => simp [getBe]
  | cons b bs ih =>
    have hb : b.toNat + 1 ≤ 256 := b.toNat_lt
    have := Nat.mul_le_mul_right (256 ^ bs.length) hb
    rw [getBe, List.length_cons, pow_succ]
    linarith

/-- **Reading what was put** gives the integer modulo the width. -/
theorem getBe_putBe (w v : ℕ) : getBe (putBe w v) = v % 256 ^ w := by
  induction w with
  | zero => simp [putBe, getBe, Nat.mod_one]
  | succ w ih =>
    rw [putBe, getBe, ih, length_putBe, UInt8.toNat_ofNat', pow_succ 256 w, Nat.mod_mul,
      mul_comm, add_comm]

/-- Only the octets below the width are put. -/
theorem putBe_add_mul (w v k : ℕ) : putBe w (k * 256 ^ w + v) = putBe w v := by
  induction w generalizing k with
  | zero => rfl
  | succ w ih =>
    have h : k * 256 ^ (w + 1) + v = (k * 256) * 256 ^ w + v := by ring
    have hdiv : (k * 256 * 256 ^ w + v) / 256 ^ w = k * 256 + v / 256 ^ w := by
      rw [add_comm, Nat.add_mul_div_right _ _ (by positivity), add_comm]
    rw [putBe, putBe, h, ih, hdiv]
    congr 1
    rw [← UInt8.toNat_inj, UInt8.toNat_ofNat', UInt8.toNat_ofNat', Nat.mul_add_mod_self_right]

/-- **Putting what was read** gives the octets back. -/
theorem putBe_getBe (bs : List UInt8) : putBe bs.length (getBe bs) = bs := by
  induction bs with
  | nil => rfl
  | cons b bs ih =>
    rw [List.length_cons, putBe, getBe, putBe_add_mul, ih, add_comm,
      Nat.add_mul_div_right _ _ (by positivity), Nat.div_eq_of_lt (getBe_lt bs), zero_add,
      UInt8.ofNat_toNat]

/-- `sys_put_be16` and `sys_get_be16`. -/
def putBe16 (v : UInt16) : List UInt8 := putBe 2 v.toNat

def getBe16 (bs : List UInt8) : UInt16 := UInt16.ofNat (getBe (bs.take 2))

/-- `sys_put_be32` and `sys_get_be32`. -/
def putBe32 (v : UInt32) : List UInt8 := putBe 4 v.toNat

def getBe32 (bs : List UInt8) : UInt32 := UInt32.ofNat (getBe (bs.take 4))

/-- `sys_put_be64` and `sys_get_be64`. -/
def putBe64 (v : UInt64) : List UInt8 := putBe 8 v.toNat

def getBe64 (bs : List UInt8) : UInt64 := UInt64.ofNat (getBe (bs.take 8))

@[simp] theorem length_putBe16 (v : UInt16) : (putBe16 v).length = 2 := length_putBe _ _

@[simp] theorem length_putBe32 (v : UInt32) : (putBe32 v).length = 4 := length_putBe _ _

@[simp] theorem length_putBe64 (v : UInt64) : (putBe64 v).length = 8 := length_putBe _ _

@[simp] theorem getBe16_putBe16 (v : UInt16) (bs : List UInt8) : getBe16 (putBe16 v ++ bs) = v := by
  rw [getBe16, List.take_left' (length_putBe16 v), putBe16, getBe_putBe,
    Nat.mod_eq_of_lt (by simpa using v.toNat_lt), UInt16.ofNat_toNat]

@[simp] theorem getBe32_putBe32 (v : UInt32) (bs : List UInt8) : getBe32 (putBe32 v ++ bs) = v := by
  rw [getBe32, List.take_left' (length_putBe32 v), putBe32, getBe_putBe,
    Nat.mod_eq_of_lt (by simpa using v.toNat_lt), UInt32.ofNat_toNat]

@[simp] theorem getBe64_putBe64 (v : UInt64) (bs : List UInt8) : getBe64 (putBe64 v ++ bs) = v := by
  rw [getBe64, List.take_left' (length_putBe64 v), putBe64, getBe_putBe,
    Nat.mod_eq_of_lt (by simpa using v.toNat_lt), UInt64.ofNat_toNat]

theorem putBe16_injective : Function.Injective putBe16 := by
  intro v w h
  rw [← getBe16_putBe16 v [], h, getBe16_putBe16]

theorem putBe32_injective : Function.Injective putBe32 := by
  intro v w h
  rw [← getBe32_putBe32 v [], h, getBe32_putBe32]

/-- What an integer was read from is what it is put as. -/
theorem putBe16_getBe16 (a b : UInt8) (bs : List UInt8) :
    putBe16 (getBe16 (a :: b :: bs)) = [a, b] := by
  have hlt : getBe [a, b] < 2 ^ 16 :=
    (getBe_lt [a, b]).trans_eq (by norm_num)
  show putBe 2 (UInt16.ofNat (getBe [a, b])).toNat = [a, b]
  rw [UInt16.toNat_ofNat', Nat.mod_eq_of_lt hlt]
  exact putBe_getBe [a, b]

theorem putBe32_getBe32 (a b c d : UInt8) (bs : List UInt8) :
    putBe32 (getBe32 (a :: b :: c :: d :: bs)) = [a, b, c, d] := by
  have hlt : getBe [a, b, c, d] < 2 ^ 32 :=
    (getBe_lt [a, b, c, d]).trans_eq (by norm_num)
  show putBe 4 (UInt32.ofNat (getBe [a, b, c, d])).toNat = [a, b, c, d]
  rw [UInt32.toNat_ofNat', Nat.mod_eq_of_lt hlt]
  exact putBe_getBe [a, b, c, d]

theorem putBe64_getBe64 (a b c d e f g h : UInt8) (bs : List UInt8) :
    putBe64 (getBe64 (a :: b :: c :: d :: e :: f :: g :: h :: bs)) = [a, b, c, d, e, f, g, h] := by
  have hlt : getBe [a, b, c, d, e, f, g, h] < 2 ^ 64 :=
    (getBe_lt [a, b, c, d, e, f, g, h]).trans_eq (by norm_num)
  show putBe 8 (UInt64.ofNat (getBe [a, b, c, d, e, f, g, h])).toNat = [a, b, c, d, e, f, g, h]
  rw [UInt64.toNat_ofNat', Nat.mod_eq_of_lt hlt]
  exact putBe_getBe [a, b, c, d, e, f, g, h]

/-- The octets of an integer by name, for a codec that reads at fixed offsets. -/
theorem exists_putBe16 (v : UInt16) :
    ∃ a b, putBe16 v = [a, b] ∧ ∀ bs, getBe16 (a :: b :: bs) = v :=
  ⟨_, _, rfl, fun bs => getBe16_putBe16 v bs⟩

theorem exists_putBe32 (v : UInt32) :
    ∃ a b c d, putBe32 v = [a, b, c, d] ∧ ∀ bs, getBe32 (a :: b :: c :: d :: bs) = v :=
  ⟨_, _, _, _, rfl, fun bs => getBe32_putBe32 v bs⟩

theorem exists_putBe64 (v : UInt64) : ∃ a b c d e f g h, putBe64 v = [a, b, c, d, e, f, g, h] ∧
    ∀ bs, getBe64 (a :: b :: c :: d :: e :: f :: g :: h :: bs) = v :=
  ⟨_, _, _, _, _, _, _, _, rfl, fun bs => getBe64_putBe64 v bs⟩

example : putBe16 0x0102 = [1, 2] ∧ getBe32 [0, 0, 1, 4, 9] = 260 := by decide

end KfswServices.Library
