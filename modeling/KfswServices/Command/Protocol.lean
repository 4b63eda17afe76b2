/-
# The command wire codec

`src/command/command_protocol.c`.  A message is a fixed header, big-endian,
and its payload:

| offset | size | field |
| ---: | ---: | --- |
| 0 | 1 | version |
| 1 | 1 | opcode |
| 2 | 1 | status |
| 3 | 1 | argument count |
| 4 | 2 | command identifier |
| 6 | 2 | request identifier |
| 8 | 2 | payload size |
| 10 | 2 | reserved, zero |
| 12 | 8 | token, version 2 only |

The payload of a request holds one `[type:1][size:2][bytes]` entry for each
argument.  Decoding what was encoded gives the message back
(`protocolDecode_encode`), and the arguments back (`decodeArgs_encodeArgs`).
-/

import KfswServices.Command.Basic
import KfswServices.Library.BigEndian

namespace KfswServices.Command

open Library

/-- `KFSW_COMMAND_PROTOCOL_VERSION`. -/
def protocolVersion : UInt8 := 1

/-- `KFSW_COMMAND_HEADER_SIZE`. -/
abbrev headerSize : ℕ := 12

/-- `KFSW_COMMAND_RETRY_HEADER_SIZE`. -/
abbrev retryHeaderSize : ℕ := 20

/-- The header size of a version. -/
def headerOf (version : UInt8) : ℕ := if version = 2 then retryHeaderSize else headerSize

/-- The version a message is sent with; zero selects the legacy version. -/
def Message.wireVersion (m : Message) : UInt8 :=
  if m.version ≠ 0 then m.version else protocolVersion

/-- The token field, which only version 2 carries. -/
def Message.tokenBytes (m : Message) : List UInt8 :=
  if m.wireVersion = 2 then putBe64 m.token else []

/-- `kfsw_command_protocol_encode` into a buffer of `capacity` bytes. -/
def protocolEncode (capacity : ℕ) (m : Message) : Except Errno (List UInt8) :=
  if m.payload.length > maxPayloadSize ∨ m.argCount.toNat > maxArgs then .error .EINVAL
  else if m.wireVersion ≠ 1 ∧ m.wireVersion ≠ 2 then .error .EPROTONOSUPPORT
  else if headerOf m.wireVersion + m.payload.length > capacity then .error .EMSGSIZE
  else .ok ([m.wireVersion, m.opcode, m.status, m.argCount] ++ (putBe16 m.commandId ++
    (putBe16 m.requestId ++ (putBe16 (UInt16.ofNat m.payload.length) ++ ([0, 0] ++
      (m.tokenBytes ++ m.payload))))))

/-- The header fields, as `kfsw_command_protocol_decode` reads them. -/
def readHeader (buffer : List UInt8) : Message where
  version := buffer.getD 0 0
  token := if buffer.getD 0 0 = 2 then getBe64 (buffer.drop 12) else 0
  opcode := buffer.getD 1 0
  status := buffer.getD 2 0
  argCount := buffer.getD 3 0
  commandId := getBe16 (buffer.drop 4)
  requestId := getBe16 (buffer.drop 6)
  payload := []

/-- `kfsw_command_protocol_decode`. -/
def protocolDecode (buffer : List UInt8) : Except Errno Message :=
  if buffer.length < headerSize then .error .EMSGSIZE
  else if buffer.getD 0 0 ≠ 1 ∧ buffer.getD 0 0 ≠ 2 then .error .EPROTONOSUPPORT
  else
    let header := headerOf (buffer.getD 0 0)
    if buffer.length < header then .error .EMSGSIZE
    else if buffer.getD 10 0 ≠ 0 ∨ buffer.getD 11 0 ≠ 0 then .error .EBADMSG
    else if buffer.getD 1 0 < Opcode.REQUEST.toByte ∨ buffer.getD 1 0 >
        (if buffer.getD 0 0 = 2 then Opcode.EXECUTE.toByte else Opcode.RESULT.toByte) then
      .error .ENOTSUP
    else
      let payloadSize := (getBe16 (buffer.drop 8)).toNat
      if (readHeader buffer).argCount.toNat > maxArgs then .error .E2BIG
      else if payloadSize > maxPayloadSize then .error .EMSGSIZE
      else if header + payloadSize ≠ buffer.length then .error .EMSGSIZE
      else .ok { readHeader buffer with payload := buffer.drop header }

/-- The value bytes of one argument; the checks of `kfsw_command_encode_args`. -/
def Arg.valueBytes : Arg → Except Errno (List UInt8)
  | .u32 v => .ok (putBe32 v)
  | .i32 v => .ok (putBe32 v.toUInt32)
  | .text none => .error .EINVAL
  | .text (some s) => if s.length > maxTextSize then .error .ENAMETOOLONG else .ok s.bytes

/-- The entry of one argument: type, size, value bytes. -/
def entryBytes (a : Arg) (v : List UInt8) : List UInt8 :=
  a.type.toByte :: (putBe16 (UInt16.ofNat v.length) ++ v)

/-- The loop of `kfsw_command_encode_args`, with `out` written so far. -/
def encodeArgsFrom (capacity : ℕ) : List Arg → List UInt8 → Except Errno (List UInt8)
  | [], out => .ok out
  | a :: as, out =>
    match a.valueBytes with
    | .error e => .error e
    | .ok v =>
      if out.length + 3 + v.length > capacity then .error .EMSGSIZE
      else encodeArgsFrom capacity as (out ++ entryBytes a v)

/-- `kfsw_command_encode_args` into a payload buffer of `capacity` bytes. -/
def encodeArgs (capacity : ℕ) (args : List Arg) : Except Errno (List UInt8) :=
  if args.length > maxArgs then .error .E2BIG else encodeArgsFrom capacity args []

/-- One value of `kfsw_command_decode_args`, from its type byte and its bytes. -/
def decodeValue (type : UInt8) (value : List UInt8) : Except Errno Arg :=
  if type = ArgType.u32.toByte then
    if value.length ≠ 4 then .error .EBADMSG else .ok (.u32 (getBe32 value))
  else if type = ArgType.i32.toByte then
    if value.length ≠ 4 then .error .EBADMSG else .ok (.i32 (getBe32 value).toInt32)
  else if type = ArgType.text.toByte then
    if value.length > maxTextSize then .error .EMSGSIZE
    else if h : 0 ∈ value then .error .EBADMSG
    else .ok (.text (some ⟨value, h⟩))
  else .error .ENOTSUP

/-- The loop of `kfsw_command_decode_args`: `count` entries still to read from
the payload bytes `rest`, which must then be used up. -/
def decodeArgsFrom : ℕ → List UInt8 → Except Errno (List Arg)
  | 0, rest => if rest ≠ [] then .error .EMSGSIZE else .ok []
  | count + 1, rest =>
    if rest.length < 3 then .error .EMSGSIZE
    else
      let size := (getBe16 (rest.drop 1)).toNat
      if (rest.drop 3).length < size then .error .EMSGSIZE
      else
        match decodeValue (rest.getD 0 0) ((rest.drop 3).take size) with
        | .error e => .error e
        | .ok a => (decodeArgsFrom count ((rest.drop 3).drop size)).map (a :: ·)

/-- `kfsw_command_decode_args` with room for `KFSW_COMMAND_MAX_ARGS`. -/
def decodeArgs (m : Message) : Except Errno (List Arg) :=
  if m.argCount.toNat > maxArgs then .error .E2BIG
  else decodeArgsFrom m.argCount.toNat m.payload

/-! ### Round trips -/

/-- What `kfsw_command_protocol_encode` checks, and the bytes it then writes. -/
theorem protocolEncode_eq_ok {capacity : ℕ} {m : Message} {bytes : List UInt8}
    (h : protocolEncode capacity m = .ok bytes) :
    m.payload.length ≤ maxPayloadSize ∧ m.argCount.toNat ≤ maxArgs ∧
      (m.wireVersion = 1 ∨ m.wireVersion = 2) ∧
      bytes = [m.wireVersion, m.opcode, m.status, m.argCount] ++ (putBe16 m.commandId ++
        (putBe16 m.requestId ++ (putBe16 (UInt16.ofNat m.payload.length) ++ ([0, 0] ++
          (m.tokenBytes ++ m.payload))))) := by
  unfold protocolEncode at h
  split_ifs at h with h₁ h₂ h₃
  rw [not_or, not_lt, not_lt] at h₁
  refine ⟨h₁.1, h₁.2, ?_, (Except.ok.inj h).symm⟩
  by_contra hv
  exact h₂ (not_or.1 hv)

/-- The opcodes a version may carry. -/
def legalOpcode (version opcode : UInt8) : Prop :=
  Opcode.REQUEST.toByte ≤ opcode ∧
    opcode ≤ if version = 2 then Opcode.EXECUTE.toByte else Opcode.RESULT.toByte

instance (version opcode : UInt8) : Decidable (legalOpcode version opcode) :=
  inferInstanceAs (Decidable (_ ∧ _))

/-- The buffers `kfsw_command_protocol_decode` accepts, and what it reads. -/
theorem protocolDecode_eq_ok {buffer : List UInt8}
    (hv : buffer.getD 0 0 = 1 ∨ buffer.getD 0 0 = 2)
    (hr : buffer.getD 10 0 = 0 ∧ buffer.getD 11 0 = 0)
    (hop : legalOpcode (buffer.getD 0 0) (buffer.getD 1 0))
    (ha : (buffer.getD 3 0).toNat ≤ maxArgs)
    (hp : (getBe16 (buffer.drop 8)).toNat ≤ maxPayloadSize)
    (hl : headerOf (buffer.getD 0 0) + (getBe16 (buffer.drop 8)).toNat = buffer.length) :
    protocolDecode buffer =
      .ok { readHeader buffer with payload := buffer.drop (headerOf (buffer.getD 0 0)) } := by
  have hh : headerSize ≤ headerOf (buffer.getD 0 0) := by
    rcases hv with hv | hv <;> rw [hv] <;> decide
  have h₁ : ¬ buffer.length < headerSize := by omega
  have h₂ : ¬ (buffer.getD 0 0 ≠ 1 ∧ buffer.getD 0 0 ≠ 2) := not_and_or.2 (by simpa using hv)
  have h₃ : ¬ buffer.length < headerOf (buffer.getD 0 0) := by omega
  have h₄ : ¬ (buffer.getD 10 0 ≠ 0 ∨ buffer.getD 11 0 ≠ 0) :=
    not_or.2 ⟨not_not.2 hr.1, not_not.2 hr.2⟩
  have h₅ : ¬ (buffer.getD 1 0 < Opcode.REQUEST.toByte ∨ buffer.getD 1 0 >
      (if buffer.getD 0 0 = 2 then Opcode.EXECUTE.toByte else Opcode.RESULT.toByte)) :=
    not_or.2 ⟨UInt8.not_lt.2 hop.1, UInt8.not_lt.2 hop.2⟩
  have h₆ : ¬ (readHeader buffer).argCount.toNat > maxArgs := not_lt.2 ha
  simp only [protocolDecode]
  rw [if_neg h₁, if_neg h₂, if_neg h₃, if_neg h₄, if_neg h₅, if_neg h₆,
    if_neg (not_lt.2 hp), if_neg (not_not.2 hl)]

/-- **A message survives the wire.**  What is decoded is the message encoded,
with the version it was sent as. -/
theorem protocolDecode_encode {capacity : ℕ} {m : Message} {bytes : List UInt8}
    (h : protocolEncode capacity m = .ok bytes) (hop : legalOpcode m.wireVersion m.opcode)
    (htoken : m.wireVersion ≠ 2 → m.token = 0) :
    protocolDecode bytes = .ok { m with version := m.wireVersion } := by
  obtain ⟨hp, ha, hv, rfl⟩ := protocolEncode_eq_ok h
  obtain ⟨c₀, c₁, hc, gc⟩ := exists_putBe16 m.commandId
  obtain ⟨r₀, r₁, hr, gr⟩ := exists_putBe16 m.requestId
  obtain ⟨s₀, s₁, hs, gs⟩ := exists_putBe16 (UInt16.ofNat m.payload.length)
  obtain ⟨t₀, t₁, t₂, t₃, t₄, t₅, t₆, t₇, ht, gt⟩ := exists_putBe64 m.token
  have hsize : (UInt16.ofNat m.payload.length).toNat = m.payload.length := by
    rw [UInt16.toNat_ofNat']
    exact Nat.mod_eq_of_lt (lt_of_le_of_lt hp (by decide))
  rw [hc, hr, hs]
  have hg := congrArg UInt16.toNat (gs ([0, 0] ++ (m.tokenBytes ++ m.payload)))
  rw [hsize] at hg
  refine (protocolDecode_eq_ok ?_ ⟨rfl, rfl⟩ ?_ ?_ ?_ ?_).trans ?_
  · exact hv
  · exact hop
  · exact ha
  · exact hg.trans_le hp
  · refine (congrArg _ hg).trans ?_
    rcases hv with hv | hv <;> simp [headerOf, headerSize, retryHeaderSize, Message.tokenBytes, hv] <;>
      omega
  · rcases hv with hv | hv
    · simp [readHeader, headerOf, Message.tokenBytes, hv, gc, gr, htoken (by rw [hv]; decide)]
    · simp [readHeader, headerOf, Message.tokenBytes, hv, gc, gr, ht, gt]

/-- A value that encodes is short and decodes to itself. -/
theorem decodeValue_valueBytes {a : Arg} {v : List UInt8} (h : a.valueBytes = .ok v) :
    v.length ≤ maxTextSize ∧ decodeValue a.type.toByte v = .ok a := by
  cases a with
  | u32 x =>
    obtain rfl := Except.ok.inj h
    have hx : getBe32 (putBe32 x) = x := by simpa using getBe32_putBe32 x []
    simp [decodeValue, Arg.type, hx, maxTextSize]
  | i32 x =>
    obtain rfl := Except.ok.inj h
    have hx : getBe32 (putBe32 x.toUInt32) = x.toUInt32 := by
      simpa using getBe32_putBe32 x.toUInt32 []
    simp [decodeValue, Arg.type, ArgType.toByte, hx, maxTextSize]
  | text s =>
    cases s with
    | none => cases h
    | some s =>
      rw [Arg.valueBytes] at h
      split_ifs at h with hs
      obtain rfl := Except.ok.inj h
      have hs' : s.bytes.length ≤ maxTextSize := not_lt.1 hs
      exact ⟨hs', by simp [decodeValue, Arg.type, ArgType.toByte, s.noNul, hs']⟩

/-- One entry is read back, and reading goes on behind it. -/
theorem decodeArgsFrom_entry {a : Arg} {v : List UInt8} (h : a.valueBytes = .ok v) (count : ℕ)
    (rest : List UInt8) : decodeArgsFrom (count + 1) (entryBytes a v ++ rest) =
      (decodeArgsFrom count rest).map (a :: ·) := by
  obtain ⟨hv, hd⟩ := decodeValue_valueBytes h
  obtain ⟨s₀, s₁, hs, gs⟩ := exists_putBe16 (UInt16.ofNat v.length)
  have hsize : (UInt16.ofNat v.length).toNat = v.length := by
    rw [UInt16.toNat_ofNat']
    exact Nat.mod_eq_of_lt (lt_of_le_of_lt hv (by decide))
  simp [decodeArgsFrom, entryBytes, hs, gs, hsize, hd]

/-- The loop appends the entries of the arguments to what it wrote before. -/
theorem encodeArgsFrom_eq_ok {capacity : ℕ} {args : List Arg} {out bytes : List UInt8}
    (h : encodeArgsFrom capacity args out = .ok bytes) :
    ∃ tail, bytes = out ++ tail ∧ decodeArgsFrom args.length tail = .ok args ∧
      (tail = [] ∨ bytes.length ≤ capacity) := by
  induction args generalizing out with
  | nil =>
    obtain rfl := Except.ok.inj h
    exact ⟨[], by simp, rfl, .inl rfl⟩
  | cons a as ih =>
    rw [encodeArgsFrom] at h
    cases hv : a.valueBytes with
    | error e => simp [hv] at h
    | ok v =>
      simp only [hv] at h
      split_ifs at h with hc
      obtain ⟨tail, rfl, hd, hl⟩ := ih h
      refine ⟨entryBytes a v ++ tail, by simp, ?_, ?_⟩
      · rw [List.length_cons, decodeArgsFrom_entry hv, hd]
        rfl
      · rcases hl with rfl | hl
        · right
          simp only [entryBytes, List.append_nil, List.length_append, List.length_cons,
            length_putBe16]
          omega
        · exact .inr hl

/-- **Arguments survive the wire**: values, types and order. -/
theorem decodeArgs_encodeArgs {capacity : ℕ} {args : List Arg} {payload : List UInt8}
    (h : encodeArgs capacity args = .ok payload) (m : Message) (hp : m.payload = payload)
    (hc : m.argCount = UInt8.ofNat args.length) :
    args.length ≤ maxArgs ∧ payload.length ≤ capacity ∧ decodeArgs m = .ok args := by
  unfold encodeArgs at h
  split_ifs at h with ha
  have ha' : args.length ≤ maxArgs := not_lt.1 ha
  obtain ⟨tail, rfl, hd, hl⟩ := encodeArgsFrom_eq_ok h
  have hcount : m.argCount.toNat = args.length := by
    rw [hc, UInt8.toNat_ofNat']
    exact Nat.mod_eq_of_lt (lt_of_le_of_lt ha' (by decide))
  refine ⟨ha', ?_, ?_⟩
  · rcases hl with rfl | hl
    · simp
    · exact hl
  · rw [decodeArgs, hcount, if_neg ha, hp]
    exact hd

end KfswServices.Command
