/-
# Limit rules and their comparison

The data of `include/kfsw/services/limits.h`, and of `src/limits/limits.c` the part that compares
a reading with the bound of a rule: both are widened to 64 bits, and put in order.  For a parameter
of an integer type that is the order of the integers (`holds_iff`); a float is left to the machine.

The static `state` is here without `running`, which belongs to the work queue; the payloads of the
events that were emitted stand beside it.
-/

import KfswServices.Library.BigEndian
import KfswServices.Library.Count
import KfswServices.Param.Number

namespace KfswServices.Limits

open Library
open Param (ParamType Scalar intValue)

/-- `KFSW_LIMITS_NO_RULE`. -/
abbrev noRule : UInt8 := 255

/-- `KFSW_LIMITS_DWELL_MAX`. -/
abbrev dwellMax : ℕ := 255

/-- `KFSW_LIMITS_BOUND_TEXT_MAX`, the terminator included. -/
abbrev boundTextMax : ℕ := 24

/-- `enum kfsw_limits_cmp`. -/
inductive Cmp
  | GT | GE | LT | LE | EQ | NE
  deriving DecidableEq, Repr

/-- `struct kfsw_limits_rule`. -/
structure Rule where
  index : UInt8
  parameter : CString
  type : ParamType
  cmp : Cmp
  bound : Scalar
  boundText : CString
  dwell : UInt8
  streak : UInt8
  latched : Bool
  node : UInt16
  action : CString
  deriving DecidableEq

/-- The static `state`, and the payloads of the events. -/
structure State where
  rules : UInt8
  sweeps : UInt32
  fires : UInt32
  failures : UInt32
  parseErrors : UInt32
  lastFiredIndex : UInt8
  lastFiredMs : UInt32
  errorLine : UInt16
  error : CString
  emitted : List (List UInt8)
  deriving DecidableEq

/-- The static `rules`, as far as `rule_count`, and `state`. -/
structure Service where
  rules : List Rule
  state : State
  deriving DecidableEq

/-- The state after a reset. -/
def Service.reset : Service := ⟨[], ⟨0, 0, 0, 0, 0, noRule, 0, 0, .empty, []⟩⟩

/-- `note_failure`. -/
def State.noteFailure (st : State) : State :=
  { st with failures := saturatingInc st.failures }

/-! ### The comparison -/

/-- `struct wide`. -/
inductive Wide
  | unsigned (u : UInt64)
  | signed (i : Int64)
  | float (f : Float)

/-- `ORDER_NONE`. -/
abbrev orderNone : ℤ := 2

/-- `is_float`. -/
def isFloat (type : ParamType) : Bool := type = .FLOAT || type = .DOUBLE

/-- `is_numeric`. -/
def isNumeric (type : ParamType) : Bool := type ∉ [.STRING, .DATA, .INVALID]

/-- `widen`. -/
def widen (type : ParamType) (scalar : Scalar) : Wide :=
  match type with
  | .U8 | .X8 => .unsigned scalar.toUInt8.toUInt64
  | .U16 | .X16 => .unsigned scalar.toUInt16.toUInt64
  | .U32 | .X32 => .unsigned scalar.toUInt32.toUInt64
  | .U64 | .X64 => .unsigned scalar
  | .I8 => .signed scalar.toUInt8.toInt8.toInt64
  | .I16 => .signed scalar.toUInt16.toInt16.toInt64
  | .I32 => .signed scalar.toUInt32.toInt32.toInt64
  | .I64 => .signed scalar.toInt64
  | .FLOAT => .float (Float32.ofBits scalar.toUInt32).toFloat
  | .DOUBLE => .float (Float.ofBits scalar)
  | .STRING | .DATA | .INVALID => .unsigned 0

/-- `(a > b) - (a < b)`. -/
def sign (greater less : Bool) : ℤ := greater.toInt - less.toInt

/-- `order`; both values are of one type, and so of one kind. -/
def order : Wide → Wide → ℤ
  | .signed a, .signed b => sign (a > b) (a < b)
  | .float a, .float b => if a.isNaN || b.isNaN then orderNone else sign (a > b) (a < b)
  | .unsigned a, .unsigned b => sign (a > b) (a < b)
  | _, _ => orderNone

/-- `holds`. -/
def holds (cmp : Cmp) (ordering : ℤ) : Bool :=
  if ordering = orderNone then false
  else
    match cmp with
    | .GT => ordering > 0
    | .GE => ordering ≥ 0
    | .LT => ordering < 0
    | .LE => ordering ≤ 0
    | .EQ => ordering = 0
    | .NE => ordering ≠ 0

/-! ### What a comparison means -/

/-- A comparison of integers. -/
def Cmp.Holds : Cmp → ℤ → ℤ → Prop
  | .GT, a, b => a > b
  | .GE, a, b => a ≥ b
  | .LT, a, b => a < b
  | .LE, a, b => a ≤ b
  | .EQ, a, b => a = b
  | .NE, a, b => a ≠ b

instance (cmp : Cmp) (a b : ℤ) : Decidable (cmp.Holds a b) :=
  match cmp with
  | .GT => inferInstanceAs (Decidable (a > b))
  | .GE => inferInstanceAs (Decidable (a ≥ b))
  | .LT => inferInstanceAs (Decidable (a < b))
  | .LE => inferInstanceAs (Decidable (a ≤ b))
  | .EQ => inferInstanceAs (Decidable (a = b))
  | .NE => inferInstanceAs (Decidable (a ≠ b))

/-- A reading satisfies the comparison of a rule: as integers, but for a float. -/
def Rule.Satisfied (rule : Rule) (reading : Scalar) : Prop :=
  if isFloat rule.type then
    holds rule.cmp (order (widen rule.type reading) (widen rule.type rule.bound)) = true
  else rule.cmp.Holds (intValue rule.type reading) (intValue rule.type rule.bound)

/-- The order of two integers, as `holds` reads it. -/
theorem holds_sign {cmp : Cmp} {greater less : Bool} {a b : ℤ} (hgreater : greater = true ↔ a > b)
    (hless : less = true ↔ a < b) : holds cmp (sign greater less) = true ↔ cmp.Holds a b := by
  rcases lt_trichotomy a b with h | rfl | h
  · have hs : sign greater less = -1 := by
      rw [hless.2 h, Bool.eq_false_iff.2 (mt hgreater.1 (by omega))]
      rfl
    rw [hs]
    cases cmp <;> simp [holds, Cmp.Holds] <;> omega
  · have hs : sign greater less = 0 := by
      rw [Bool.eq_false_iff.2 (mt hgreater.1 (by omega)),
        Bool.eq_false_iff.2 (mt hless.1 (by omega))]
      rfl
    rw [hs]
    cases cmp <;> simp [holds, Cmp.Holds]
  · have hs : sign greater less = 1 := by
      rw [hgreater.2 h, Bool.eq_false_iff.2 (mt hless.1 (by omega))]
      rfl
    rw [hs]
    cases cmp <;> simp [holds, Cmp.Holds] <;> omega

/-- The order of unsigned values. -/
theorem holds_unsigned (cmp : Cmp) (a b : UInt64) :
    holds cmp (order (.unsigned a) (.unsigned b)) = true ↔ cmp.Holds a.toNat b.toNat :=
  holds_sign (by simp [UInt64.lt_iff_toNat_lt]) (by simp [UInt64.lt_iff_toNat_lt])

/-- The order of signed values. -/
theorem holds_signed (cmp : Cmp) (a b : Int64) :
    holds cmp (order (.signed a) (.signed b)) = true ↔ cmp.Holds a.toInt b.toInt :=
  holds_sign (by simp [Int64.lt_iff_toInt_lt]) (by simp [Int64.lt_iff_toInt_lt])

/-- The value of the low byte, with a sign. -/
theorem toInt_toInt8 (a : UInt64) : a.toUInt8.toInt8.toInt = Int.bmod a.toNat (2 ^ 8) := by
  show a.toUInt8.toBitVec.toInt = _
  rw [BitVec.toInt_eq_toNat_bmod, UInt8.toNat_toBitVec, UInt64.toNat_toUInt8, Int.natCast_emod]
  exact Int.emod_bmod _ _

/-- The value of the low two bytes, with a sign. -/
theorem toInt_toInt16 (a : UInt64) : a.toUInt16.toInt16.toInt = Int.bmod a.toNat (2 ^ 16) := by
  show a.toUInt16.toBitVec.toInt = _
  rw [BitVec.toInt_eq_toNat_bmod, UInt16.toNat_toBitVec, UInt64.toNat_toUInt16, Int.natCast_emod]
  exact Int.emod_bmod _ _

/-- The value of the low four bytes, with a sign. -/
theorem toInt_toInt32 (a : UInt64) : a.toUInt32.toInt32.toInt = Int.bmod a.toNat (2 ^ 32) := by
  show a.toUInt32.toBitVec.toInt = _
  rw [BitVec.toInt_eq_toNat_bmod, UInt32.toNat_toBitVec, UInt64.toNat_toUInt32, Int.natCast_emod]
  exact Int.emod_bmod _ _

/-- The value of all eight, with a sign. -/
theorem toInt_toInt64 (a : UInt64) : a.toInt64.toInt = Int.bmod a.toNat (2 ^ 64) :=
  BitVec.toInt_eq_toNat_bmod a.toBitVec

/-- The value of a widened integer. -/
def Wide.toInt : Wide → ℤ
  | .unsigned u => u.toNat
  | .signed i => i.toInt
  | .float _ => 0

/-- **Widening keeps the value.** -/
theorem toInt_widen {type : ParamType} (h : isFloat type = false) (a : Scalar) :
    (widen type a).toInt = intValue type a := by
  have h8 : ((a.toUInt8.toUInt64.toNat : ℕ) : ℤ) = ((a.toNat : ℕ) : ℤ) % 2 ^ 8 := by simp
  have h16 : ((a.toUInt16.toUInt64.toNat : ℕ) : ℤ) = ((a.toNat : ℕ) : ℤ) % 2 ^ 16 := by simp
  have h32 : ((a.toUInt32.toUInt64.toNat : ℕ) : ℤ) = ((a.toNat : ℕ) : ℤ) % 2 ^ 32 := by simp
  cases type
  case FLOAT => cases h
  case DOUBLE => cases h
  case I8 => exact (Int8.toInt_toInt64 _).trans (toInt_toInt8 a)
  case I16 => exact (Int16.toInt_toInt64 _).trans (toInt_toInt16 a)
  case I32 => exact (Int32.toInt_toInt64 _).trans (toInt_toInt32 a)
  case I64 => exact toInt_toInt64 a
  case U8 => exact h8
  case X8 => exact h8
  case U16 => exact h16
  case X16 => exact h16
  case U32 => exact h32
  case X32 => exact h32
  all_goals rfl

/-- Two integers of one type are of one kind. -/
theorem widen_kind {type : ParamType} (h : isFloat type = false) (a b : Scalar) :
    (∃ x y, widen type a = .unsigned x ∧ widen type b = .unsigned y) ∨
      ∃ x y, widen type a = .signed x ∧ widen type b = .signed y := by
  cases type
  case FLOAT => cases h
  case DOUBLE => cases h
  case I8 => exact .inr ⟨_, _, rfl, rfl⟩
  case I16 => exact .inr ⟨_, _, rfl, rfl⟩
  case I32 => exact .inr ⟨_, _, rfl, rfl⟩
  case I64 => exact .inr ⟨_, _, rfl, rfl⟩
  all_goals exact .inl ⟨_, _, rfl, rfl⟩

/-- **What `holds` decides** of a widened reading and a widened bound. -/
theorem holds_iff (rule : Rule) (reading : Scalar) :
    holds rule.cmp (order (widen rule.type reading) (widen rule.type rule.bound)) = true ↔
      rule.Satisfied reading := by
  unfold Rule.Satisfied
  by_cases h : isFloat rule.type = true
  · rw [if_pos h]
  · rw [Bool.not_eq_true] at h
    rw [if_neg (Bool.eq_false_iff.1 h), ← toInt_widen h reading, ← toInt_widen h rule.bound]
    rcases widen_kind h reading rule.bound with ⟨x, y, hx, hy⟩ | ⟨x, y, hx, hy⟩
    · rw [hx, hy]
      exact holds_unsigned rule.cmp x y
    · rw [hx, hy]
      exact holds_signed rule.cmp x y

end KfswServices.Limits
