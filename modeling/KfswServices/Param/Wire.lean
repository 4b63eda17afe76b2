/-
# Values in a file

`src/parameter/param_wire.c`: the type code and the octets of a value, as the snapshot and a table
file carry them.  Integers are big-endian, a string carries its terminator, an array its whole
length.  `wireDecode` checks the value against the parameter before anything is written.

What has been read of a parameter is decoded to itself (`wireDecode_encodeValue`), and what has
been decoded is stored as it is (`stored_of_decode`).
-/

import KfswServices.Library.BigEndian
import KfswServices.Param.Store

namespace KfswServices.Param

open Library

/-- `KFSW_PARAM_WIRE_U8`. -/
abbrev wireU8 : UInt8 := 1

/-- `KFSW_PARAM_WIRE_U32`. -/
abbrev wireU32 : UInt8 := 2

/-- `KFSW_PARAM_WIRE_I32`. -/
abbrev wireI32 : UInt8 := 3

/-- `KFSW_PARAM_WIRE_FLOAT`. -/
abbrev wireFloat : UInt8 := 4

/-- `KFSW_PARAM_WIRE_U16`. -/
abbrev wireU16 : UInt8 := 5

/-- `KFSW_PARAM_WIRE_I16`. -/
abbrev wireI16 : UInt8 := 6

/-- `KFSW_PARAM_WIRE_STRING`. -/
abbrev wireString : UInt8 := 7

/-- `KFSW_PARAM_WIRE_DATA`. -/
abbrev wireData : UInt8 := 8

/-- `kfsw_param_wire_type_of`: the code, and the size of the value, which is 0 for a string. -/
def wireTypeOf (entry : Entry) : Except Errno (UInt8 × UInt16) :=
  match entry.info.type with
  | .U8 | .X8 => .ok (wireU8, 1)
  | .U16 | .X16 => .ok (wireU16, 2)
  | .I16 => .ok (wireI16, 2)
  | .U32 | .X32 => .ok (wireU32, 4)
  | .I32 => .ok (wireI32, 4)
  | .FLOAT => .ok (wireFloat, 4)
  | .DATA => .ok (wireData, entry.info.arraySize)
  | .STRING => .ok (wireString, 0)
  | _ => .error .ENOTSUP

/-- The octets that `kfsw_param_wire_encode` writes of a value, `size` of them for a block. -/
def encodeValue (type : UInt8) (value : Value) (size : UInt16) : Except Errno (List UInt8) :=
  if type = wireU8 then .ok [value.scalar.toUInt8]
  else if type = wireU16 ∨ type = wireI16 then .ok (putBe16 value.scalar.toUInt16)
  else if type = wireU32 ∨ type = wireI32 ∨ type = wireFloat then
    .ok (putBe32 value.scalar.toUInt32)
  else if type = wireString then .ok ((value.text.bytes ++ [0]).take size.toNat)
  else if type = wireData then .ok (value.bytes.take size.toNat)
  else .error .ENOTSUP

/-- The size of a value in a file, as `kfsw_param_wire_encode` finds it. -/
def wireSize (type : UInt8) (size : UInt16) (value : Value) : UInt16 :=
  if type = wireString then UInt16.ofNat value.size else size

/-- `kfsw_param_wire_encode`. -/
def Node.wireEncode {ω : Type} (cfg : Config) (owner : Owner ω) (entry : Entry) (outputSize : ℕ)
    (n : Node ω) : Except Errno (List UInt8) × Node ω :=
  match wireTypeOf entry with
  | .error e => (.error e, n)
  | .ok (type, valueSize) =>
    match n.readEntry cfg owner entry with
    | (.error e, n) => (.error e, n)
    | (.ok value, n) =>
      let valueSize := wireSize type valueSize value
      if outputSize < valueSize.toNat then (.error .ENOSPC, n)
      else (encodeValue type value valueSize, n)

/-- What `kfsw_param_wire_decode` makes of the octets, before it asks the parameter. -/
def decodeValue (cfg : Config) (entry : Entry) (type : UInt8) (value : List UInt8) :
    Except Errno Value :=
  let decoded := Value.blank cfg entry.info.type value.length
  if type = wireU8 then .ok { decoded with scalar := (value.headD 0).toUInt64 }
  else if type = wireU16 ∨ type = wireI16 then
    .ok { decoded with scalar := (getBe16 value).toUInt64 }
  else if type = wireU32 ∨ type = wireI32 ∨ type = wireFloat then
    .ok { decoded with scalar := (getBe32 value).toUInt64 }
  else if type = wireData then
    if value = [] ∨ value.length ≠ entry.info.arraySize.toNat ∨ cfg.stringMax < value.length then
      .error .EBADMSG
    else .ok { decoded with bytes := value }
  else if type = wireString then
    if value = [] ∨ cfg.stringMax < value.length ∨ value.getLast? ≠ some 0 then .error .EBADMSG
    else .ok { decoded with text := CString.scan value }
  else .error .ENOTSUP

/-- `kfsw_param_wire_decode`, of the octets of one value. -/
def wireDecode (cfg : Config) (entry : Entry) (type : UInt8) (value : List UInt8) :
    Except Errno Value :=
  match wireTypeOf entry with
  | .error e => .error e
  | .ok (expectedType, expectedSize) =>
    if type ≠ expectedType then .error .EBADMSG
    else if expectedSize ≠ 0 ∧ value.length ≠ expectedSize.toNat then .error .EBADMSG
    else
      match decodeValue cfg entry type value with
      | .error e => .error e
      | .ok decoded =>
        match validateEntry entry decoded with
        | some e => .error e
        | none => .ok decoded

/-! ### What is decoded -/

variable {entry : Entry} {type : UInt8}

/-- The types that a file carries. -/
theorem wireTypeOf_cases {size : UInt16} (h : wireTypeOf entry = .ok (type, size)) :
    entry.info.type = .STRING ∧ type = wireString ∧ size = 0 ∨
      entry.info.type = .DATA ∧ type = wireData ∧ size = entry.info.arraySize ∨
      (entry.info.type ≠ .STRING ∧ entry.info.type ≠ .DATA) ∧
        scalarSize entry.info.type = size.toNat ∧
        (type = wireU8 ∧ size = 1 ∨ (type = wireU16 ∨ type = wireI16) ∧ size = 2 ∨
          (type = wireU32 ∨ type = wireI32 ∨ type = wireFloat) ∧ size = 4) := by
  unfold wireTypeOf at h
  cases htype : entry.info.type <;> rw [htype] at h <;>
    simp only [Except.ok.injEq, Prod.mk.injEq, reduceCtorEq] at h <;>
    obtain ⟨rfl, rfl⟩ := h <;> simp [scalarSize]

/-- A decoded string may have octets behind its first terminator; what is stored has none. -/
def Value.settled (value : Value) : Value :=
  if value.type = .STRING then { value with size := value.text.length + 1 } else value

/-- What is read is settled. -/
@[simp] theorem settled_readCells (cfg : Config) (entry : Entry) (cells : Cells) :
    (readCells cfg entry cells).settled = readCells cfg entry cells := by
  unfold readCells Value.settled
  split_ifs <;> simp_all [Value.blank]

/-- A scalar that is not wider than its type is stored whole. -/
theorem scalar_cut {x : UInt64} {m : ℕ} (h : x.toNat < m) : UInt64.ofNat (x.toNat % m) = x := by
  rw [Nat.mod_eq_of_lt h, UInt64.ofNat_toNat]

/-- The integers of a file are not wider than their types. -/
theorem decodeValue_scalar {cfg : Config} {size : UInt16} {octets : List UInt8} {value : Value}
    (htype : type = wireU8 ∧ size = 1 ∨ (type = wireU16 ∨ type = wireI16) ∧ size = 2 ∨
      (type = wireU32 ∨ type = wireI32 ∨ type = wireFloat) ∧ size = 4)
    (h : decodeValue cfg entry type octets = .ok value) :
    value.scalar.toNat < 256 ^ size.toNat ∧
      value = { Value.blank cfg entry.info.type octets.length with scalar := value.scalar } := by
  unfold decodeValue at h
  rcases htype with ⟨rfl, rfl⟩ | ⟨htype, rfl⟩ | ⟨htype, rfl⟩
  · rw [if_pos rfl] at h
    obtain rfl := Except.ok.inj h
    refine ⟨?_, rfl⟩
    show ((octets.headD 0).toUInt64).toNat < 256 ^ 1
    rw [UInt8.toNat_toUInt64]
    exact (octets.headD 0).toNat_lt
  · have hne : type ≠ wireU8 := by rcases htype with rfl | rfl <;> decide
    rw [if_neg hne, if_pos htype] at h
    obtain rfl := Except.ok.inj h
    refine ⟨?_, rfl⟩
    show (getBe16 octets).toUInt64.toNat < 256 ^ 2
    rw [UInt16.toNat_toUInt64]
    exact (getBe16 octets).toNat_lt
  · have hne : type ≠ wireU8 ∧ ¬(type = wireU16 ∨ type = wireI16) := by
      rcases htype with rfl | rfl | rfl <;> decide
    rw [if_neg hne.1, if_neg hne.2, if_pos htype] at h
    obtain rfl := Except.ok.inj h
    refine ⟨?_, rfl⟩
    show (getBe32 octets).toUInt64.toNat < 256 ^ 4
    rw [UInt32.toNat_toUInt64]
    exact (getBe32 octets).toNat_lt

/-- **What `kfsw_param_wire_decode` checks.** -/
theorem wireDecode_eq_ok {cfg : Config} {octets : List UInt8} {value : Value} :
    wireDecode cfg entry type octets = .ok value ↔
      ∃ size, wireTypeOf entry = .ok (type, size) ∧ (size ≠ 0 → octets.length = size.toNat) ∧
        decodeValue cfg entry type octets = .ok value ∧ validateEntry entry value = none := by
  unfold wireDecode
  cases hwire : wireTypeOf entry with
  | error e => simp
  | ok expected =>
    obtain ⟨expectedType, size⟩ := expected
    simp only [ite_error_eq_ok, Except.ok.injEq, Prod.mk.injEq, not_not, not_and]
    cases hdecode : decodeValue cfg entry type octets with
    | error e => simp
    | ok decoded =>
      dsimp only
      cases hvalid : validateEntry entry decoded with
      | some e =>
        simp only [reduceCtorEq, and_false, Except.ok.injEq, false_iff, not_exists]
        rintro size' ⟨-, -, rfl, hnone⟩
        rw [hvalid] at hnone
        cases hnone
      | none =>
        constructor
        · rintro ⟨rfl, hsize, heq⟩
          obtain rfl := Except.ok.inj heq
          exact ⟨size, ⟨rfl, rfl⟩, hsize, rfl, hvalid⟩
        · rintro ⟨size', ⟨rfl, rfl⟩, hsize, heq, -⟩
          exact ⟨rfl, hsize, heq⟩

/-- **A decoded value** is one the parameter accepts, it fits, and it is stored as it is. -/
theorem wireDecode_ok {cfg : Config} {octets : List UInt8} {value : Value}
    (hadm : Admitted cfg entry) (h : wireDecode cfg entry type octets = .ok value) :
    validateEntry entry value = none ∧ Fits entry value ∧
      stored cfg entry value = value.settled := by
  obtain ⟨size, hwire, hsize, hdecode, hvalid⟩ := wireDecode_eq_ok.1 h
  obtain ⟨-, hsame, hlen, -⟩ := validateEntry_eq_none.1 hvalid
  refine ⟨hvalid, ?_⟩
  rcases wireTypeOf_cases hwire with ⟨htext, rfl, -⟩ | ⟨hdata, rfl, rfl⟩ |
    ⟨⟨htext, hdata⟩, hscalar, hcode⟩
  · have hne : entry.info.type ≠ .DATA := by rw [htext]; decide
    simp only [decodeValue, ite_error_eq_ok, reduceIte, Except.ok.injEq, not_or, not_not,
      show wireString ≠ wireU8 by decide, show wireString ≠ wireData by decide,
      show ¬(wireString = wireU16 ∨ wireString = wireI16) by decide,
      show ¬(wireString = wireU32 ∨ wireString = wireI32 ∨ wireString = wireFloat) by decide]
      at hdecode
    obtain ⟨⟨-, -, hlast⟩, rfl⟩ := hdecode
    have hlt := CString.length_scan_lt (List.mem_of_getLast? hlast)
    obtain ⟨hcap, -, -⟩ := hadm.capacity_text htext
    rw [if_pos htext] at hlen
    have hle : octets.length ≤ entryCapacity entry := hlen.2
    refine ⟨⟨fun _ => by show (CString.scan octets).length < _; omega, fun h => absurd h hne,
      fun h => absurd htext h⟩, ?_⟩
    have htake : (CString.scan octets).take (entry.info.arraySize.toNat - 1) =
        CString.scan octets := CString.take_of_length_le (by omega)
    rw [Value.settled, if_pos (hsame.trans htext), stored, if_pos htext]
    simp only [htake]
    rw [htext]
    rfl
  · have hne : entry.info.type ≠ .STRING := by rw [hdata]; decide
    simp only [decodeValue, ite_error_eq_ok, reduceIte, Except.ok.injEq, not_or, not_not,
      show wireData ≠ wireU8 by decide,
      show ¬(wireData = wireU16 ∨ wireData = wireI16) by decide,
      show ¬(wireData = wireU32 ∨ wireData = wireI32 ∨ wireData = wireFloat) by decide]
      at hdecode
    obtain ⟨-, rfl⟩ := hdecode
    rw [if_neg hne] at hlen
    have hlen' : octets.length = entryCapacity entry := hlen
    refine ⟨⟨fun h => absurd h hne, fun _ => le_refl _, fun _ h => absurd hdata h⟩, ?_⟩
    rw [Value.settled, if_neg (hsame ▸ hne), stored, if_neg hne, if_pos hdata, ← hlen',
      List.take_length, hdata]
  · obtain ⟨hlt, heq⟩ := decodeValue_scalar hcode hdecode
    have hcap : entryCapacity entry = size.toNat := by
      rw [← hscalar]
      exact if_neg (not_or.2 ⟨htext, hdata⟩)
    refine ⟨⟨fun h => absurd h htext, fun h => absurd h hdata, fun _ _ validate _ hv => ?_⟩, ?_⟩
    · rw [hcap, scalar_cut hlt]
      exact hv
    · rw [if_neg htext] at hlen
      have hlen' : octets.length = entryCapacity entry := by rw [← hlen, heq]; rfl
      rw [Value.settled, if_neg (hsame ▸ htext), stored, if_neg htext, if_neg hdata, hcap,
        scalar_cut hlt, ← hcap, ← hlen', ← heq]

/-! ### What is written of a parameter -/

/-- The octets of a scalar are read back. -/
theorem decodeValue_encodeValue_scalar (cfg : Config) (entry : Entry) {size : UInt16}
    {value : Value}
    (htype : type = wireU8 ∧ size = 1 ∨ (type = wireU16 ∨ type = wireI16) ∧ size = 2 ∨
      (type = wireU32 ∨ type = wireI32 ∨ type = wireFloat) ∧ size = 4)
    (hlt : value.scalar.toNat < 256 ^ size.toNat) :
    ∃ octets, encodeValue type value size = .ok octets ∧ octets.length = size.toNat ∧
      decodeValue cfg entry type octets = .ok
        { Value.blank cfg entry.info.type size.toNat with scalar := value.scalar } := by
  unfold encodeValue decodeValue
  rcases htype with ⟨rfl, rfl⟩ | ⟨htype, rfl⟩ | ⟨htype, rfl⟩
  · have hback : value.scalar.toUInt8.toUInt64 = value.scalar := by
      refine UInt64.toNat_inj.1 ?_
      rw [UInt8.toNat_toUInt64, UInt64.toNat_toUInt8]
      exact Nat.mod_eq_of_lt hlt
    refine ⟨[value.scalar.toUInt8], if_pos rfl, rfl, ?_⟩
    rw [if_pos rfl, List.headD_cons, hback]
    rfl
  · have hne : type ≠ wireU8 := by rcases htype with rfl | rfl <;> decide
    have hback : (getBe16 (putBe16 value.scalar.toUInt16)).toUInt64 = value.scalar := by
      have := getBe16_putBe16 value.scalar.toUInt16 []
      rw [List.append_nil] at this
      refine UInt64.toNat_inj.1 ?_
      rw [this, UInt16.toNat_toUInt64, UInt64.toNat_toUInt16]
      exact Nat.mod_eq_of_lt hlt
    refine ⟨putBe16 value.scalar.toUInt16, by rw [if_neg hne, if_pos htype],
      length_putBe16 _, ?_⟩
    rw [if_neg hne, if_pos htype, hback, length_putBe16]
    rfl
  · have hne : type ≠ wireU8 ∧ ¬(type = wireU16 ∨ type = wireI16) := by
      rcases htype with rfl | rfl | rfl <;> decide
    have hback : (getBe32 (putBe32 value.scalar.toUInt32)).toUInt64 = value.scalar := by
      have := getBe32_putBe32 value.scalar.toUInt32 []
      rw [List.append_nil] at this
      refine UInt64.toNat_inj.1 ?_
      rw [this, UInt32.toNat_toUInt64, UInt64.toNat_toUInt32]
      exact Nat.mod_eq_of_lt hlt
    refine ⟨putBe32 value.scalar.toUInt32, by rw [if_neg hne.1, if_neg hne.2, if_pos htype],
      length_putBe32 _, ?_⟩
    rw [if_neg hne.1, if_neg hne.2, if_pos htype, hback, length_putBe32]
    rfl

/-- **What has been read of a parameter is decoded to itself.** -/
theorem wireDecode_encodeValue {cfg : Config} {size : UInt16} {cells : Cells}
    (hadm : Admitted cfg entry) (hwire : wireTypeOf entry = .ok (type, size))
    (hvalid : validateEntry entry (readCells cfg entry cells) = none) :
    ∃ octets, encodeValue type (readCells cfg entry cells)
        (wireSize type size (readCells cfg entry cells)) = .ok octets ∧
      octets.length = (wireSize type size (readCells cfg entry cells)).toNat ∧
      0 < octets.length ∧ octets.length ≤ entryCapacity entry ∧
      wireDecode cfg entry type octets = .ok (readCells cfg entry cells) := by
  obtain ⟨-, -, hlen, -⟩ := validateEntry_eq_none.1 hvalid
  rcases wireTypeOf_cases hwire with ⟨htext, rfl, rfl⟩ | ⟨hdata, rfl, rfl⟩ |
    ⟨⟨htext, hdata⟩, hscalar, hcode⟩
  · obtain ⟨hcap, hpos, hmax⟩ := hadm.capacity_text htext
    rw [if_pos htext] at hlen
    generalize hvalue : readCells cfg entry cells = value at *
    have hshape : value = { Value.blank cfg .STRING (value.text.length + 1) with
        text := value.text } := by
      rw [← hvalue, readCells, if_pos htext]
    have hsize : value.size = value.text.length + 1 := by rw [hshape]; rfl
    have hfit : (UInt16.ofNat value.size).toNat = value.size := by
      rw [UInt16.toNat_ofNat']
      have := entry.info.arraySize.toNat_lt
      exact Nat.mod_eq_of_lt (by omega)
    have hoctets : (value.text.bytes ++ [0]).length = value.size := by
      rw [List.length_append, hsize]
      rfl
    refine ⟨value.text.bytes ++ [0], ?_, ?_, ?_, ?_, ?_⟩
    · have htake : (value.text.bytes ++ [0]).take (UInt16.ofNat value.size).toNat =
          value.text.bytes ++ [0] := List.take_of_length_le (by omega)
      rw [wireSize, if_pos rfl, encodeValue, if_neg (by decide), if_neg (by decide),
        if_neg (by decide), if_pos rfl, htake]
    · rw [wireSize, if_pos rfl, hfit, hoctets]
    · omega
    · omega
    · refine wireDecode_eq_ok.2 ⟨0, hwire, fun h => absurd rfl h, ?_, hvalid⟩
      rw [decodeValue, if_neg (by decide), if_neg (by decide), if_neg (by decide),
        if_neg (by decide), if_pos rfl, if_neg ?_, CString.scan_append, hoctets, htext, hsize,
        ← hshape]
      rintro (hnil | hlong | hlast)
      · simp at hnil
      · omega
      · simp at hlast
  · obtain ⟨hcap, hpos, hmax⟩ := hadm.capacity_data hdata
    have hne : entry.info.type ≠ .STRING := by rw [hdata]; decide
    generalize hvalue : readCells cfg entry cells = value at *
    have hshape : value = { Value.blank cfg .DATA (entryCapacity entry) with
        bytes := load (entryCapacity entry) cells } := by
      rw [← hvalue, readCells, if_neg hne, if_pos hdata]
    have hbytes : value.bytes.length = entryCapacity entry := by rw [hshape]; exact length_load _ _
    refine ⟨value.bytes, ?_, ?_, by omega, by omega, ?_⟩
    · rw [wireSize, if_neg (by decide), encodeValue, if_neg (by decide), if_neg (by decide),
        if_neg (by decide), if_neg (by decide), if_pos rfl, List.take_of_length_le (by omega)]
    · rw [wireSize, if_neg (by decide), hbytes, hcap]
    · refine wireDecode_eq_ok.2 ⟨_, hwire, fun _ => by omega, ?_, hvalid⟩
      rw [decodeValue, if_neg (by decide), if_neg (by decide), if_neg (by decide), if_pos rfl,
        if_neg ?_, hbytes, hdata, hshape]
      rintro (hnil | hshort | hlong)
      · rw [hnil, List.length_nil] at hbytes
        omega
      · omega
      · omega
  · have hcap : entryCapacity entry = size.toNat := by
      rw [← hscalar]
      exact if_neg (not_or.2 ⟨htext, hdata⟩)
    have hpos := hadm.capacity_pos
    generalize hvalue : readCells cfg entry cells = value at *
    have hshape : value = { Value.blank cfg entry.info.type (entryCapacity entry) with
        scalar := UInt64.ofNat (getLe (load (entryCapacity entry) cells)) } := by
      rw [← hvalue, readCells, if_neg htext, if_neg hdata]
    have hlt : value.scalar.toNat < 256 ^ size.toNat := by
      have hget := getLe_lt (load (entryCapacity entry) cells)
      rw [length_load, hcap] at hget
      rw [hshape, hcap]
      exact Nat.lt_of_le_of_lt (by rw [UInt64.toNat_ofNat']; exact Nat.mod_le _ _) hget
    have hne : type ≠ wireString ∧ size ≠ 0 := by
      rcases hcode with ⟨rfl, rfl⟩ | ⟨rfl | rfl, rfl⟩ | ⟨rfl | rfl | rfl, rfl⟩ <;> decide
    obtain ⟨octets, hencode, hoctets, hdecode⟩ :=
      decodeValue_encodeValue_scalar cfg entry hcode hlt
    refine ⟨octets, by rw [wireSize, if_neg hne.1, hencode],
      by rw [wireSize, if_neg hne.1, hoctets], by omega, by omega,
      wireDecode_eq_ok.2 ⟨size, hwire, fun _ => hoctets, ?_, hvalid⟩⟩
    rw [hdecode, ← hcap, hshape]

/-- All that `kfsw_param_wire_encode` does to the node is to take a sample. -/
theorem Node.refreshed_wireEncode {ω : Type} (cfg : Config) (owner : Owner ω) {n : Node ω}
    (h : entry ∈ n.service.entries) (outputSize : ℕ) :
    n.Refreshed owner (n.wireEncode cfg owner entry outputSize).2 := by
  have hread : n.Refreshed owner (n.readEntry cfg owner entry).2 := refreshed_readEntry h
  unfold wireEncode
  rcases wireTypeOf entry with e | ⟨type, size⟩
  · exact .refl owner n
  · rcases hcase : n.readEntry cfg owner entry with ⟨e | value, m⟩
    · rwa [hcase] at hread
    · rw [hcase] at hread
      dsimp only
      split_ifs <;> exact hread

end KfswServices.Param
