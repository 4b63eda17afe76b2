/-
# Parameters in packets

`src/parameter/parameter_csp.c` reads the values of a packet with the mpack readers and with
libparam's `param_deserialize_id`.  Both libraries are outside this repository: `Mpack` is what the
adapter calls of them, with what it relies on.  A number is one of the type that was expected, and
bytes are as many as were asked for.  A call never gives bytes back to the reader, and an identifier
takes at least one (or the reader has failed, and is at its end).

`decodeValue` reads one value as the type of its parameter says.
-/

import KfswServices.Param.Store

namespace KfswServices.Param

open Library

/-- What the adapter looks at in a `param_t`. -/
structure Descriptor where
  node : UInt16
  id : UInt16
  type : ParamType
  arraySize : ℕ
  mask : UInt32
  name : CString
  unit : Option CString

/-- What `mpack_peek_tag` tells the adapter. -/
inductive Tag
  | array | float | double | other
  deriving DecidableEq

/-- What `param_deserialize_id` gives of an item: all of it is 0 or, for the offset, -1 where the
packet says nothing. -/
structure ItemId where
  id : ℤ
  node : ℤ
  offset : ℤ

/-- The mpack readers and `param_deserialize_id`, for a reader `ρ` and a queue `κ`. -/
structure Mpack (ρ κ : Type) where
  /-- `mpack_reader_init_data`. -/
  reader : List UInt8 → ρ
  /-- `param_queue_init` of a cleared queue, with the version and the buffer. -/
  queue : ℕ → List UInt8 → κ
  /-- `end - data`. -/
  remaining : ρ → ℕ
  /-- `mpack_reader_error(reader) != mpack_ok`. -/
  failed : ρ → Bool
  peekTag : ρ → Tag × ρ
  expectU16 : ρ → UInt16 × ρ
  /-- `mpack_expect_u8`, ..., `mpack_expect_double`, by the type of the member. -/
  expect : ParamType → ρ → Scalar × ρ
  expectArray : ρ → ℕ × ρ
  doneArray : ρ → ρ
  expectStr : ρ → ℕ × ρ
  doneStr : ρ → ρ
  expectBin : ρ → ℕ × ρ
  doneBin : ρ → ρ
  readBytes : ℕ → ρ → List UInt8 × ρ
  deserializeId : κ → ρ → ItemId × κ × ρ
  length_readBytes : ∀ n r, (readBytes n r).1.length = n
  expect_lt : ∀ t r, 0 < scalarSize t → (expect t r).1.toNat < 256 ^ scalarSize t
  deserializeId_lt : ∀ q r, 0 < remaining r → remaining (deserializeId q r).2.2 < remaining r
  peekTag_le : ∀ r, remaining (peekTag r).2 ≤ remaining r
  expect_le : ∀ t r, remaining (expect t r).2 ≤ remaining r
  expectArray_le : ∀ r, remaining (expectArray r).2 ≤ remaining r
  doneArray_le : ∀ r, remaining (doneArray r) ≤ remaining r
  expectStr_le : ∀ r, remaining (expectStr r).2 ≤ remaining r
  doneStr_le : ∀ r, remaining (doneStr r) ≤ remaining r
  expectBin_le : ∀ r, remaining (expectBin r).2 ≤ remaining r
  doneBin_le : ∀ r, remaining (doneBin r) ≤ remaining r
  readBytes_le : ∀ n r, remaining (readBytes n r).2 ≤ remaining r

/-- `be16toh`, on a target that stores the low byte first. -/
def be16toh (x : UInt16) : UInt16 := (x <<< 8) ||| (x >>> 8)

/-- `BIT`. -/
def bit (x : UInt16) (n : ℕ) : Bool := x.toNat.testBit n

namespace Mpack

variable {ρ κ : Type} (m : Mpack ρ κ) (cfg : Config)

/-- The string of `decode_value`. -/
def decodeText (param : Descriptor) (r : ρ) : Except Errno Value × ρ :=
  let (size, r) := m.expectStr r
  if size ≥ param.arraySize ∨ size ≥ cfg.stringMax then (.error .EBADMSG, r)
  else
    let (text, r) := m.readBytes size r
    let r := m.doneStr r
    if h : 0 ∈ text then (.error .EBADMSG, r)
    else (.ok { Value.blank cfg .STRING (size + 1) with text := ⟨text, h⟩ }, r)

/-- The array of `decode_value`. -/
def decodeData (param : Descriptor) (r : ρ) : Except Errno Value × ρ :=
  let (size, r) := m.expectBin r
  if size ≠ param.arraySize ∨ size > cfg.stringMax then (.error .EBADMSG, r)
  else
    let (bytes, r) := m.readBytes size r
    (.ok { Value.blank cfg .DATA size with
      bytes := bytes ++ List.replicate (cfg.stringMax - size) 0 }, m.doneBin r)

/-- A number of `decode_value`. -/
def decodeNumber (param : Descriptor) (r : ρ) : Except Errno Value × ρ :=
  let (scalar, r) := m.expect param.type r
  (.ok { Value.blank cfg param.type (scalarSize param.type) with scalar := scalar }, r)

/-- A float or a double of `decode_value`. -/
def decodeFloat (tag : Tag) (param : Descriptor) (r : ρ) : Except Errno Value × ρ :=
  let (found, r) := m.peekTag r
  if found ≠ tag then (.error .EBADMSG, r) else m.decodeNumber cfg param r

/-- `decode_value`. -/
def decodeValue (param : Descriptor) (r : ρ) : Except Errno Value × ρ :=
  if scalarSize param.type ≠ 0 ∧ param.arraySize ≠ 1 then (.error .ENOTSUP, r)
  else
    let (value, r) :=
      match param.type with
      | .FLOAT => m.decodeFloat cfg .float param r
      | .DOUBLE => m.decodeFloat cfg .double param r
      | .STRING => m.decodeText cfg param r
      | .DATA => m.decodeData cfg param r
      | .INVALID => (.error .ENOTSUP, r)
      | _ => m.decodeNumber cfg param r
    match value with
    | .error e => (.error e, r)
    | .ok value => if m.failed r then (.error .EBADMSG, r) else (.ok value, r)

end Mpack

/-- A value of the type and of the size of a parameter. -/
def Descriptor.Holds (param : Descriptor) (value : Value) : Prop :=
  value.type = param.type ∧
    if param.type = .STRING then
      value.size = value.text.length + 1 ∧ value.size ≤ param.arraySize
    else if param.type = .DATA then value.size = param.arraySize
    else param.arraySize = 1 ∧ value.size = scalarSize param.type ∧ value.size ≠ 0

namespace Mpack

variable {ρ κ : Type} {m : Mpack ρ κ} {cfg : Config} {param : Descriptor} {r : ρ} {value : Value}

theorem decodeNumber_le : m.remaining (m.decodeNumber cfg param r).2 ≤ m.remaining r :=
  m.expect_le _ _

theorem decodeFloat_le {tag : Tag} :
    m.remaining (m.decodeFloat cfg tag param r).2 ≤ m.remaining r := by
  unfold decodeFloat
  dsimp only
  split_ifs
  · exact m.peekTag_le r
  · exact decodeNumber_le.trans (m.peekTag_le r)

theorem decodeText_le : m.remaining (m.decodeText cfg param r).2 ≤ m.remaining r := by
  have hread : ∀ n, m.remaining (m.doneStr (m.readBytes n (m.expectStr r).2).2) ≤ m.remaining r :=
    fun n => (m.doneStr_le _).trans ((m.readBytes_le _ _).trans (m.expectStr_le r))
  unfold decodeText
  dsimp only
  split_ifs
  · exact m.expectStr_le r
  · exact hread _
  · exact hread _

theorem decodeData_le : m.remaining (m.decodeData cfg param r).2 ≤ m.remaining r := by
  unfold decodeData
  dsimp only
  split_ifs
  · exact m.expectBin_le r
  · exact (m.doneBin_le _).trans ((m.readBytes_le _ _).trans (m.expectBin_le r))

/-- The reader after the switch of `decode_value`. -/
theorem decodeValue_le : m.remaining (m.decodeValue cfg param r).2 ≤ m.remaining r := by
  have hswitch : ∀ x : Except Errno Value × ρ, m.remaining x.2 ≤ m.remaining r →
      m.remaining (match x.1 with
        | .error e => (.error e, x.2)
        | .ok value =>
          if m.failed x.2 then (.error .EBADMSG, x.2) else (.ok value, x.2) :
            Except Errno Value × ρ).2 ≤ m.remaining r := by
    rintro ⟨_ | value, r'⟩ h
    · exact h
    · dsimp only
      split_ifs <;> exact h
  unfold decodeValue
  split_ifs
  · exact le_rfl
  · refine hswitch _ ?_
    cases param.type
    case FLOAT => exact decodeFloat_le
    case DOUBLE => exact decodeFloat_le
    case STRING => exact decodeText_le
    case DATA => exact decodeData_le
    case INVALID => exact le_rfl
    all_goals exact decodeNumber_le

theorem decodeNumber_holds (harray : ¬ (scalarSize param.type ≠ 0 ∧ param.arraySize ≠ 1))
    (hsize : scalarSize param.type ≠ 0) (h : (m.decodeNumber cfg param r).1 = .ok value) :
    param.Holds value := by
  obtain rfl := Except.ok.inj h
  have htext : param.type ≠ .STRING := fun heq => hsize (by rw [heq]; rfl)
  have hdata : param.type ≠ .DATA := fun heq => hsize (by rw [heq]; rfl)
  refine ⟨rfl, ?_⟩
  rw [if_neg htext, if_neg hdata]
  exact ⟨not_not.1 fun hne => harray ⟨hsize, hne⟩, rfl, hsize⟩

theorem decodeFloat_holds {tag : Tag} (harray : ¬ (scalarSize param.type ≠ 0 ∧ param.arraySize ≠ 1))
    (hsize : scalarSize param.type ≠ 0) (h : (m.decodeFloat cfg tag param r).1 = .ok value) :
    param.Holds value := by
  unfold decodeFloat at h
  dsimp only at h
  split_ifs at h
  exact decodeNumber_holds harray hsize h

/-- A string that has been read. -/
theorem decodeText_ok (h : (m.decodeText cfg param r).1 = .ok value) :
    ∃ text : CString, text.length < param.arraySize ∧
      value = { Value.blank cfg .STRING (text.length + 1) with text := text } := by
  unfold decodeText at h
  dsimp only at h
  split_ifs at h with hlong hnul
  obtain rfl := Except.ok.inj h
  have hlen := m.length_readBytes (m.expectStr r).1 (m.expectStr r).2
  refine ⟨⟨_, hnul⟩, ?_, by rw [CString.length, hlen]⟩
  rw [CString.length, hlen]
  exact not_le.1 (not_or.1 hlong).1

theorem decodeText_holds (htype : param.type = .STRING)
    (h : (m.decodeText cfg param r).1 = .ok value) : param.Holds value := by
  obtain ⟨text, hlen, rfl⟩ := decodeText_ok h
  refine ⟨htype.symm, ?_⟩
  rw [if_pos htype]
  exact ⟨rfl, hlen⟩

/-- An array that has been read. -/
theorem decodeData_ok (h : (m.decodeData cfg param r).1 = .ok value) :
    ∃ bytes : List UInt8, bytes.length = param.arraySize ∧
      value = { Value.blank cfg .DATA param.arraySize with
        bytes := bytes ++ List.replicate (cfg.stringMax - param.arraySize) 0 } := by
  unfold decodeData at h
  dsimp only at h
  split_ifs at h with hsize
  obtain rfl := Except.ok.inj h
  have heq := not_not.1 (not_or.1 hsize).1
  have hlen := m.length_readBytes (m.expectBin r).1 (m.expectBin r).2
  exact ⟨_, hlen.trans heq, by rw [heq]⟩

theorem decodeData_holds (htype : param.type = .DATA)
    (h : (m.decodeData cfg param r).1 = .ok value) : param.Holds value := by
  have hne : param.type ≠ .STRING := by rw [htype]; decide
  obtain ⟨bytes, hlen, rfl⟩ := decodeData_ok h
  refine ⟨htype.symm, ?_⟩
  rw [if_neg hne, if_pos htype]
  rfl

/-- The switch of `decode_value`. -/
theorem decodeValue_switch {r' : ρ} (h : m.decodeValue cfg param r = (.ok value, r')) :
    ¬ (scalarSize param.type ≠ 0 ∧ param.arraySize ≠ 1) ∧ m.failed r' = false ∧
      (match param.type with
        | .FLOAT => m.decodeFloat cfg .float param r
        | .DOUBLE => m.decodeFloat cfg .double param r
        | .STRING => m.decodeText cfg param r
        | .DATA => m.decodeData cfg param r
        | .INVALID => (.error .ENOTSUP, r)
        | _ => m.decodeNumber cfg param r).1 = .ok value := by
  have hswitch : ∀ x : Except Errno Value × ρ,
      (match x.1 with
        | .error e => (.error e, x.2)
        | .ok value =>
          if m.failed x.2 then (.error .EBADMSG, x.2) else (.ok value, x.2) :
            Except Errno Value × ρ) = (.ok value, r') →
        m.failed r' = false ∧ x.1 = .ok value := by
    rintro ⟨_ | read, r''⟩ hread
    · cases hread
    · dsimp only at hread
      split_ifs at hread with hfailed
      · cases hread
      · cases hread
        exact ⟨Bool.eq_false_iff.2 hfailed, rfl⟩
  unfold decodeValue at h
  split_ifs at h with harray
  · cases h
  · exact ⟨harray, hswitch _ h⟩

/-- **What is read** has the type and the size of the parameter. -/
theorem decodeValue_ok {r' : ρ} (h : m.decodeValue cfg param r = (.ok value, r')) :
    param.Holds value ∧ m.failed r' = false := by
  obtain ⟨harray, hfailed, hread⟩ := decodeValue_switch h
  refine ⟨?_, hfailed⟩
  cases htype : param.type <;> rw [htype] at hread
  case FLOAT => exact decodeFloat_holds harray (by rw [htype]; decide) hread
  case DOUBLE => exact decodeFloat_holds harray (by rw [htype]; decide) hread
  case STRING => exact decodeText_holds htype hread
  case DATA => exact decodeData_holds htype hread
  case INVALID => cases hread
  all_goals exact decodeNumber_holds harray (by rw [htype]; decide) hread

/-- A number that has been read. -/
theorem decodeNumber_ok (hsize : scalarSize param.type ≠ 0)
    (h : (m.decodeNumber cfg param r).1 = .ok value) :
    ∃ scalar : UInt64, scalar.toNat < 256 ^ scalarSize param.type ∧
      value = { Value.blank cfg param.type (scalarSize param.type) with scalar := scalar } := by
  obtain rfl := Except.ok.inj h
  exact ⟨_, m.expect_lt param.type r (Nat.pos_of_ne_zero hsize), rfl⟩

theorem decodeFloat_ok {tag : Tag} (h : (m.decodeFloat cfg tag param r).1 = .ok value) :
    ∃ r, (m.decodeNumber cfg param r).1 = .ok value := by
  unfold decodeFloat at h
  dsimp only at h
  split_ifs at h
  exact ⟨_, h⟩

/-- What is read of a number is no wider than its type. -/
theorem decodeValue_number (hsize : scalarSize param.type ≠ 0)
    {r' : ρ} (h : m.decodeValue cfg param r = (.ok value, r')) :
    ∃ scalar : UInt64, scalar.toNat < 256 ^ scalarSize param.type ∧
      value = { Value.blank cfg param.type (scalarSize param.type) with scalar := scalar } := by
  obtain ⟨-, -, hswitch⟩ := decodeValue_switch h
  have hnumber : ∃ r, (m.decodeNumber cfg param r).1 = .ok value := by
    cases htype : param.type <;> rw [htype] at hswitch
    case FLOAT => exact decodeFloat_ok hswitch
    case DOUBLE => exact decodeFloat_ok hswitch
    case STRING => exact absurd (by rw [htype]; rfl) hsize
    case DATA => exact absurd (by rw [htype]; rfl) hsize
    case INVALID => cases hswitch
    all_goals exact ⟨r, hswitch⟩
  obtain ⟨r, hread⟩ := hnumber
  exact decodeNumber_ok hsize hread

end Mpack

end KfswServices.Param
