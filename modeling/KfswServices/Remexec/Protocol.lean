/-
# The remote execution wire format

`src/remexec/remexec_protocol.c`.  A request is a version, an opcode, a big-endian text length and
the text; a reply carries a status, the result of the command, what the command printed and how
much of it was dropped.

| offset | size | request | reply |
| ---: | ---: | --- | --- |
| 0 | 1 | version | version |
| 1 | 1 | opcode | opcode |
| 2 | 2 | text length | status, flags |
| 4 | 4 | text | command result |
| 8 | 4 | | bytes produced |
| 12 | 4 | | bytes dropped |
| 16 | 2 | | text length, then the text |

The text of a request is counted, not terminated: `decodeRequest_eq_ok` says that any bytes of the
declared length come out, a terminator among them included.
-/

import KfswServices.Basic
import KfswServices.Library.BigEndian

namespace KfswServices.Remexec

open Library

/-- `CONFIG_KFSW_REMEXEC_OUTPUT_MAX`, `CONFIG_KFSW_REMEXEC_MAX_ENTRIES` and
`CONFIG_KFSW_REMEXEC_TIMEOUT_MS`, in the ranges of `Kconfig`. -/
structure Build where
  outputMax : ℕ
  maxEntries : ℕ
  timeoutMs : ℕ
  outputMax_ge : 64 ≤ outputMax
  outputMax_le : outputMax ≤ 1024
  maxEntries_le : maxEntries ≤ 64

/-- `KFSW_REMEXEC_PROTOCOL_VERSION`. -/
def protocolVersion : UInt8 := 1

/-- `KFSW_REMEXEC_COMMAND_MAX`. -/
abbrev commandMax : ℕ := 64

/-- `KFSW_REMEXEC_REQUEST_HEADER_SIZE`. -/
abbrev requestHeaderSize : ℕ := 4

/-- `KFSW_REMEXEC_REPLY_HEADER_SIZE`. -/
abbrev replyHeaderSize : ℕ := 18

/-- `enum kfsw_remexec_opcode`. -/
inductive Opcode
  | LIST | RUN
  deriving DecidableEq, Repr

def Opcode.toByte : Opcode → UInt8
  | .LIST => 1
  | .RUN => 2

/-- `known_opcode`, and the opcode it knows. -/
def knownOpcode (byte : UInt8) : Option Opcode :=
  if byte = Opcode.LIST.toByte then some .LIST
  else if byte = Opcode.RUN.toByte then some .RUN
  else none

@[simp] theorem knownOpcode_toByte (opcode : Opcode) : knownOpcode opcode.toByte = some opcode := by
  cases opcode with
  | LIST => rfl
  | RUN => rfl

theorem knownOpcode_eq_some {byte : UInt8} {opcode : Opcode} :
    knownOpcode byte = some opcode ↔ byte = opcode.toByte := by
  constructor
  · intro h
    unfold knownOpcode at h
    split_ifs at h with hl hr
    · obtain rfl := Option.some.inj h
      exact hl
    · obtain rfl := Option.some.inj h
      exact hr
  · rintro rfl
    exact knownOpcode_toByte opcode

/-- `kfsw_remexec_encode_request` into a buffer of `capacity` bytes. -/
def encodeRequest (capacity : ℕ) (opcode : Opcode) (text : CString) : Except Errno (List UInt8) :=
  if commandMax < text.length then .error .ENAMETOOLONG
  else if capacity < requestHeaderSize + text.length then .error .ENOSPC
  else .ok ([protocolVersion, opcode.toByte] ++ putBe16 (UInt16.ofNat text.length) ++ text.bytes)

/-- `kfsw_remexec_decode_request`: the opcode, and the bytes in front of the terminator it writes
into a text of `textCapacity` bytes. -/
def decodeRequest (data : List UInt8) (textCapacity : ℕ) : Except Errno (Opcode × List UInt8) :=
  if textCapacity = 0 then .error .EINVAL
  else if data.length < requestHeaderSize then .error .EBADMSG
  else
    match knownOpcode (data.getD 1 0) with
    | none => .error .EBADMSG
    | some opcode =>
      if data.getD 0 0 ≠ protocolVersion then .error .EBADMSG
      else if (getBe16 (data.drop 2)).toNat ≠ data.length - requestHeaderSize then .error .EBADMSG
      else if textCapacity ≤ (getBe16 (data.drop 2)).toNat then .error .ENAMETOOLONG
      else .ok (opcode, data.drop requestHeaderSize)

/-- A packet that is not short has its four header bytes. -/
theorem exists_header {data : List UInt8} (h : ¬ data.length < requestHeaderSize) :
    ∃ v o l₁ l₂ rest, data = v :: o :: l₁ :: l₂ :: rest := by
  rcases data with _ | ⟨v, _ | ⟨o, _ | ⟨l₁, _ | ⟨l₂, rest⟩⟩⟩⟩
  · simp [requestHeaderSize] at h
  · simp [requestHeaderSize] at h
  · simp [requestHeaderSize] at h
  · simp [requestHeaderSize] at h
  · exact ⟨v, o, l₁, l₂, rest, rfl⟩

/-- **What a request decodes to.**  Exactly the packets that declare the text they carry are
accepted, whatever bytes the text is made of. -/
theorem decodeRequest_eq_ok {data text : List UInt8} {textCapacity : ℕ} {opcode : Opcode} :
    decodeRequest data textCapacity = .ok (opcode, text) ↔
      text.length < textCapacity ∧ text.length < 2 ^ 16 ∧
        data = [protocolVersion, opcode.toByte] ++ putBe16 (UInt16.ofNat text.length) ++ text := by
  constructor
  · intro h
    unfold decodeRequest at h
    obtain ⟨hcap, h⟩ := ite_error_eq_ok.1 h
    obtain ⟨hlen, h⟩ := ite_error_eq_ok.1 h
    obtain ⟨v, o, l₁, l₂, rest, rfl⟩ := exists_header hlen
    cases hop : knownOpcode o with
    | none =>
      simp only [List.getD_cons_succ, List.getD_cons_zero, hop] at h
      cases h
    | some op =>
      simp only [List.getD_cons_succ, List.getD_cons_zero, hop, List.drop_succ_cons,
        List.drop_zero] at h
      obtain ⟨hv, h⟩ := ite_error_eq_ok.1 h
      obtain ⟨hdecl, h⟩ := ite_error_eq_ok.1 h
      obtain ⟨hfit, h⟩ := ite_error_eq_ok.1 h
      obtain ⟨rfl, rfl⟩ := Prod.mk.inj (Except.ok.inj h)
      have hdecl' : (getBe16 (l₁ :: l₂ :: rest)).toNat = rest.length := by
        simpa [requestHeaderSize] using hdecl
      have hlt := (getBe16 (l₁ :: l₂ :: rest)).toNat_lt
      refine ⟨by omega, by omega, ?_⟩
      rw [← hdecl', UInt16.ofNat_toNat, putBe16_getBe16, not_not.1 hv, knownOpcode_eq_some.1 hop]
      rfl
  · rintro ⟨hcap, hlen, rfl⟩
    obtain ⟨x, y, hput, -⟩ := exists_putBe16 (UInt16.ofNat text.length)
    have hget : getBe16 ([x, y] ++ text) = UInt16.ofNat text.length := by
      rw [← hput]
      exact getBe16_putBe16 _ _
    have hnat : (UInt16.ofNat text.length).toNat = text.length := by
      rw [UInt16.toNat_ofNat']
      exact Nat.mod_eq_of_lt hlen
    rw [hput]
    unfold decodeRequest
    rw [if_neg (by omega), if_neg (by simp [requestHeaderSize])]
    simp only [List.cons_append, List.nil_append, List.getD_cons_succ, List.getD_cons_zero,
      knownOpcode_toByte, List.drop_succ_cons, List.drop_zero] at hget ⊢
    rw [hget, hnat, if_neg (by simp), if_neg (by simp [requestHeaderSize]), if_neg (by omega)]

/-- `enum kfsw_remexec_status`. -/
inductive Status
  | OK | NOT_OFFERED | TOO_LONG | INVALID | BUSY | TIMEOUT | FAILED | UNAVAILABLE
  deriving DecidableEq, Repr

namespace Status

def toByte : Status → UInt8
  | OK => 0
  | NOT_OFFERED => 1
  | TOO_LONG => 2
  | INVALID => 3
  | BUSY => 4
  | TIMEOUT => 5
  | FAILED => 6
  | UNAVAILABLE => 7

/-- The status of a byte no greater than `KFSW_REMEXEC_UNAVAILABLE`. -/
def ofByte (byte : UInt8) : Option Status :=
  [OK, NOT_OFFERED, TOO_LONG, INVALID, BUSY, TIMEOUT, FAILED, UNAVAILABLE][byte.toNat]?

@[simp] theorem ofByte_toByte (status : Status) : ofByte status.toByte = some status := by
  cases status <;> rfl

/-- The statuses that say that no command ran. -/
def refuses : Status → Bool
  | NOT_OFFERED | TOO_LONG | INVALID | BUSY | UNAVAILABLE => true
  | OK | TIMEOUT | FAILED => false

end Status

/-- `struct kfsw_remexec_reply`; `text` is the bytes it holds, and their number is `size`. -/
structure Reply (b : Build) where
  status : Status
  commandResult : Int32
  produced : UInt32
  dropped : UInt32
  truncated : Bool
  text : List UInt8
  fits : text.length ≤ b.outputMax
  deriving DecidableEq

/-- The bytes of a reply. -/
def replyBytes {b : Build} (opcode : Opcode) (reply : Reply b) : List UInt8 :=
  [protocolVersion, opcode.toByte, reply.status.toByte, if reply.truncated then 1 else 0] ++
    (putBe32 reply.commandResult.toUInt32 ++ (putBe32 reply.produced ++ (putBe32 reply.dropped ++
      (putBe16 (UInt16.ofNat reply.text.length) ++ reply.text))))

/-- `kfsw_remexec_encode_reply`, into a buffer of that capacity. -/
def encodeReply {b : Build} (capacity : ℕ) (opcode : Opcode) (reply : Reply b) :
    Except Errno (List UInt8) :=
  if capacity < replyHeaderSize + reply.text.length then .error .ENOSPC
  else .ok (replyBytes opcode reply)

/-- `kfsw_remexec_decode_reply`, of the answer to a request with that opcode. -/
def decodeReply (b : Build) (data : List UInt8) (opcode : Opcode) : Except Errno (Reply b) :=
  if data.length < replyHeaderSize then .error .EBADMSG
  else if data.getD 0 0 ≠ protocolVersion ∨ data.getD 1 0 ≠ opcode.toByte then .error .EBADMSG
  else
    match Status.ofByte (data.getD 2 0) with
    | none => .error .EBADMSG
    | some status =>
      if (getBe16 (data.drop 16)).toNat ≠ data.length - replyHeaderSize then .error .EBADMSG
      else if h : b.outputMax < data.length - replyHeaderSize then .error .EBADMSG
      else .ok {
        status := status
        commandResult := (getBe32 (data.drop 4)).toInt32
        produced := getBe32 (data.drop 8)
        dropped := getBe32 (data.drop 12)
        truncated := data.getD 3 0 &&& 1 ≠ 0
        text := data.drop replyHeaderSize
        fits := by rw [List.length_drop]; exact not_lt.1 h }

/-- The requester reads the reply the node sent. -/
theorem decodeReply_replyBytes {b : Build} (opcode : Opcode) (reply : Reply b) :
    decodeReply b (replyBytes opcode reply) opcode = .ok reply := by
  obtain ⟨status, result, produced, dropped, truncated, text, fits⟩ := reply
  have hfit : text.length < 2 ^ 16 := by
    have := b.outputMax_le
    omega
  have hnat : (UInt16.ofNat text.length).toNat = text.length := by
    rw [UInt16.toNat_ofNat']
    exact Nat.mod_eq_of_lt hfit
  obtain ⟨a₀, a₁, a₂, a₃, ha, hga⟩ := exists_putBe32 result.toUInt32
  obtain ⟨b₀, b₁, b₂, b₃, hb, hgb⟩ := exists_putBe32 produced
  obtain ⟨c₀, c₁, c₂, c₃, hc, hgc⟩ := exists_putBe32 dropped
  obtain ⟨d₀, d₁, hd, hgd⟩ := exists_putBe16 (UInt16.ofNat text.length)
  unfold replyBytes decodeReply
  simp only [ha, hb, hc, hd]
  simp only [List.cons_append, List.nil_append, List.getD_cons_succ, List.getD_cons_zero,
    List.drop_succ_cons, List.drop_zero, List.length_cons, Status.ofByte_toByte, hga, hgb, hgc,
    hgd, hnat]
  rw [if_neg (by unfold replyHeaderSize; omega), if_neg (by simp),
    if_neg (by unfold replyHeaderSize; omega), dif_neg (by unfold replyHeaderSize; omega)]
  cases truncated with
  | false => simp
  | true => simp

end KfswServices.Remexec
