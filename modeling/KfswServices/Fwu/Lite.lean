/-
# The block upload protocol

`src/fwu/fwu_lite_protocol.c`.  A message is twelve bytes, big-endian, and its
payload:

| offset | size | field |
| ---: | ---: | --- |
| 0 | 1 | opcode |
| 1 | 1 | status, zero in a request |
| 2 | 2 | block index |
| 4 | 4 | argument: the image size of a BEGIN, the checksum of a BLOCK |
| 8 | 4 | extra: the image checksum of a BEGIN, the bytes held in a reply |
| 12 | | payload of a BLOCK |

A request is turned into one call of the update service, and every reply describes
the state after it.  Decoding what was encoded gives the message back
(`decode_encode`), so what is served of a packet is the request that was sent
(`servePacket_eq`) and what is read of the reply is what was answered
(`decode_reply`).
-/

import KfswServices.Fwu.Update
import KfswServices.Library.BigEndian

namespace KfswServices.Fwu.Lite

open Library

/-- `enum kfsw_fwu_lite_opcode`. -/
inductive Opcode
  | BEGIN
  | BLOCK
  | STATUS
  | VERIFY
  | START_FLASHING
  | ABORT
  deriving DecidableEq, Repr

/-- The wire value of an opcode. -/
def Opcode.toByte : Opcode → UInt8
  | BEGIN => 1
  | BLOCK => 2
  | STATUS => 3
  | VERIFY => 4
  | START_FLASHING => 5
  | ABORT => 6

/-- The opcode of a wire value, `opcode_is_known`. -/
def Opcode.ofByte? (b : UInt8) : Option Opcode :=
  if b = 1 then some .BEGIN
  else if b = 2 then some .BLOCK
  else if b = 3 then some .STATUS
  else if b = 4 then some .VERIFY
  else if b = 5 then some .START_FLASHING
  else if b = 6 then some .ABORT
  else none

/-- `enum kfsw_fwu_lite_status`. -/
inductive Status
  | OK
  | INVALID
  | OUT_OF_ORDER
  | BAD_BLOCK
  | BAD_IMAGE
  | TOO_LARGE
  | BUSY
  | FAILED
  deriving DecidableEq, Repr

/-- The wire value of a status. -/
def Status.toByte : Status → UInt8
  | OK => 0
  | INVALID => 1
  | OUT_OF_ORDER => 2
  | BAD_BLOCK => 3
  | BAD_IMAGE => 4
  | TOO_LARGE => 5
  | BUSY => 6
  | FAILED => 7

theorem Status.toByte_inj {a b : Status} : a.toByte = b.toByte ↔ a = b := by
  cases a <;> cases b <;> decide

/-- What the build fixes, `KFSW_FWU_LITE_MAX_BLOCK_SIZE`, `CSP_BUFFER_SIZE` and
`KFSW_CSP_BROADCAST_ADDRESS`, and the retry count that was last set.  The block size
is in its Kconfig range, and one block message fits a CSP buffer. -/
structure Settings where
  blockSize : ℕ
  bufferSize : ℕ
  broadcast : ℕ
  retries : UInt8
  block_ge : 16 ≤ blockSize
  block_le : blockSize ≤ 512
  buffer_ge : 12 + blockSize ≤ bufferSize

/-- `struct kfsw_fwu_lite_message`; `data` holds `data_size` bytes. -/
structure Message where
  opcode : UInt8
  status : UInt8
  blockIndex : UInt16
  argument : UInt32
  extra : UInt32
  data : List UInt8
  deriving DecidableEq, Repr

/-- `KFSW_FWU_LITE_HEADER_SIZE`. -/
abbrev headerSize : ℕ := 12

/-- The bytes of a message on the wire. -/
def Message.bytes (m : Message) : List UInt8 :=
  [m.opcode, m.status] ++ (putBe16 m.blockIndex ++ (putBe32 m.argument ++ (putBe32 m.extra ++ m.data)))

/-- `kfsw_fwu_lite_encode` into a buffer of `capacity` bytes. -/
def encode (lite : Settings) (capacity : ℕ) (m : Message) : Except Errno (List UInt8) :=
  if m.data.length > lite.blockSize then .error .EMSGSIZE
  else if headerSize + m.data.length > capacity then .error .EMSGSIZE
  else .ok m.bytes

/-- `kfsw_fwu_lite_decode`; the payload size is stored in 16 bits. -/
def decode (lite : Settings) (buffer : List UInt8) : Except Errno Message :=
  if buffer.length < headerSize then .error .EBADMSG
  else
    let dataSize := (buffer.length - headerSize) % 2 ^ 16
    if Opcode.ofByte? (buffer.getD 0 0) = none then .error .EBADMSG
    else if dataSize > lite.blockSize then .error .EMSGSIZE
    else .ok {
      opcode := buffer.getD 0 0
      status := buffer.getD 1 0
      blockIndex := getBe16 (buffer.drop 2)
      argument := getBe32 (buffer.drop 4)
      extra := getBe32 (buffer.drop 8)
      data := (buffer.drop headerSize).take dataSize }

variable {m : Message}

/-- A message with a payload of at most one block is encoded into a CSP buffer. -/
theorem encode_eq_ok (lite : Settings) (h : m.data.length ≤ lite.blockSize) :
    encode lite lite.bufferSize m = .ok m.bytes := by
  have hbuffer : headerSize + m.data.length ≤ lite.bufferSize := by
    have := lite.buffer_ge
    show 12 + m.data.length ≤ lite.bufferSize
    omega
  rw [encode, if_neg (not_lt.2 h), if_neg (not_lt.2 hbuffer)]

variable {lite : Settings}

/-- **Decoding what was encoded** gives the message back. -/
theorem decode_encode {capacity : ℕ} {bytes : List UInt8} (h : encode lite capacity m = .ok bytes)
    (hop : Opcode.ofByte? m.opcode ≠ none) : decode lite bytes = .ok m := by
  unfold encode at h
  split_ifs at h with hblock hcap
  obtain rfl := Except.ok.inj h
  obtain ⟨i₀, i₁, hi, gi⟩ := exists_putBe16 m.blockIndex
  obtain ⟨a₀, a₁, a₂, a₃, ha, ga⟩ := exists_putBe32 m.argument
  obtain ⟨x₀, x₁, x₂, x₃, hx, gx⟩ := exists_putBe32 m.extra
  have hsize : m.data.length % 2 ^ 16 = m.data.length := by
    have := lite.block_le
    exact Nat.mod_eq_of_lt (by omega)
  rw [Message.bytes, hi, ha, hx]
  simp only [decode, List.cons_append, List.nil_append, List.length_cons, headerSize]
  rw [if_neg (by omega), show m.data.length + 1 + 1 + 1 + 1 + 1 + 1 + 1 + 1 + 1 + 1 + 1 + 1 - 12 =
    m.data.length by omega, hsize, if_neg (by simpa using hop), if_neg hblock]
  simp [gi, ga, gx]

/-- `status_for_errno`. -/
def statusForErrno : Option Errno → Status
  | none => .OK
  | some .EBUSY => .BUSY
  | some .EFBIG => .TOO_LARGE
  | some .ESPIPE => .OUT_OF_ORDER
  | some .EILSEQ => .BAD_IMAGE
  | some .EINVAL => .INVALID
  | some .EAGAIN => .INVALID
  | some _ => .FAILED

/-- Only a call that returned 0 is answered with OK. -/
theorem statusForErrno_eq_ok {result : Option Errno} : statusForErrno result = .OK ↔ result = none := by
  constructor
  · intro h
    unfold statusForErrno at h
    split at h <;> first | rfl | cases h
  · rintro rfl
    rfl

/-- What came of a request: the service, the status of the reply, and the call that was
made with its return value. -/
structure Handled where
  service : Service
  status : Status
  call : Option (Call × Option Errno)

/-- A request answered without a call. -/
def reject (s : Service) (status : Status) : Handled := ⟨s, status, none⟩

/-- A request answered with the status of a call. -/
def perform (cfg : Config) (env : Env) (s : Service) (c : Call) : Handled :=
  let o := s.exec cfg env c
  ⟨o.service, statusForErrno o.result, some (c, o.result)⟩

/-- `handle_begin`. -/
def handleBegin (cfg : Config) (env : Env) (s : Service) (request : Message) : Handled :=
  perform cfg env s (.begin request.argument.toNat request.extra)

/-- The checks of `handle_block`, on the status it read: the status it answers with,
or `none` when it goes on to write. -/
def checkBlock (lite : Settings) (status : Fwu.Status) (request : Message) : Option Status :=
  if request.data.length = 0 then some .INVALID
  else if status.state ≠ .RECEIVING then some .INVALID
  else if request.blockIndex.toNat ≠ status.received / lite.blockSize then some .OUT_OF_ORDER
  else if (status.received + request.data.length) % 2 ^ 32 < status.totalSize ∧
      request.data.length ≠ lite.blockSize then some .INVALID
  else if crc32 request.data ≠ request.argument then some .BAD_BLOCK
  else none

/-- `handle_block`. -/
def handleBlock (lite : Settings) (cfg : Config) (env : Env) (s : Service) (request : Message) :
    Handled :=
  match checkBlock lite s.status request with
  | some status => reject s status
  | none => perform cfg env s (.write s.status.received (some request.data))

/-- `handle_verify`. -/
def handleVerify (cfg : Config) (env : Env) (s : Service) : Handled :=
  perform cfg env s .verify

/-- `handle_start_flashing`. -/
def handleStartFlashing (cfg : Config) (env : Env) (s : Service) : Handled :=
  perform cfg env s .finish

/-- `kfsw_fwu_lite_handle`, up to the reply. -/
def handle (lite : Settings) (cfg : Config) (env : Env) (s : Service) (request : Message) : Handled :=
  match Opcode.ofByte? request.opcode with
  | some .BEGIN => handleBegin cfg env s request
  | some .BLOCK => handleBlock lite cfg env s request
  | some .STATUS => reject s .OK
  | some .VERIFY => handleVerify cfg env s
  | some .START_FLASHING => handleStartFlashing cfg env s
  | some .ABORT => perform cfg env s .abort
  | none => reject s .INVALID

theorem handle_of_begin (h : m.opcode = Opcode.BEGIN.toByte) (cfg : Config) (env : Env)
    (s : Service) :
    handle lite cfg env s m = perform cfg env s (.begin m.argument.toNat m.extra) := by
  unfold handle
  rw [h]
  rfl

theorem handle_of_block (h : m.opcode = Opcode.BLOCK.toByte) (cfg : Config) (env : Env)
    (s : Service) : handle lite cfg env s m = handleBlock lite cfg env s m := by
  unfold handle
  rw [h]
  rfl

theorem handle_of_verify (h : m.opcode = Opcode.VERIFY.toByte) (cfg : Config) (env : Env)
    (s : Service) : handle lite cfg env s m = perform cfg env s .verify := by
  unfold handle
  rw [h]
  rfl

/-- The reply of `kfsw_fwu_lite_handle`, with what `describe_state` fills in. -/
def Handled.reply (lite : Settings) (h : Handled) (request : Message) : Message where
  opcode := request.opcode
  status := h.status.toByte
  blockIndex := UInt16.ofNat (h.service.status.received / lite.blockSize)
  argument := h.service.status.actualCrc32
  extra := UInt32.ofNat h.service.status.received
  data := []

/-- What `serve_packet` does with a packet: what came of its request, if it has one,
and the packet sent back, if there was a buffer for it. -/
structure Served where
  handled : Option Handled
  reply : Option (List UInt8)

/-- `serve_packet`; `buffer` says whether `csp_buffer_get` returned one. -/
def servePacket (lite : Settings) (cfg : Config) (env : Env) (buffer : Bool) (s : Service)
    (packet : List UInt8) : Served :=
  match decode lite packet with
  | .error _ => ⟨none, none⟩
  | .ok request =>
    let h := handle lite cfg env s request
    if !buffer then ⟨some h, none⟩
    else
      match encode lite lite.bufferSize (h.reply lite request) with
      | .error _ => ⟨some h, none⟩
      | .ok reply => ⟨some h, some reply⟩

/-- The service after a packet. -/
def Served.service (served : Served) (s : Service) : Service :=
  match served.handled with
  | none => s
  | some h => h.service

section

variable {packet : List UInt8} {request : Message} (h : decode lite packet = .ok request)
include h

/-- **What is served of a packet that decodes.** -/
theorem servePacket_eq (cfg : Config) (env : Env) (buffer : Bool)
    (s : Service) :
    servePacket lite cfg env buffer s packet =
      ⟨some (handle lite cfg env s request),
        if buffer then some ((handle lite cfg env s request).reply lite request).bytes
        else none⟩ := by
  have hreply := encode_eq_ok lite (m := (handle lite cfg env s request).reply lite request)
    (Nat.zero_le _)
  unfold servePacket
  simp only [h, hreply]
  cases buffer <;> rfl

/-- A request that decodes has a known opcode. -/
theorem opcode_of_decode : Opcode.ofByte? request.opcode ≠ none := by
  unfold decode at h
  simp only at h
  split_ifs at h with hshort hop hlong
  obtain rfl := Except.ok.inj h
  exact hop

end

/-- The sender reads a reply as it was written. -/
theorem decode_reply {request : Message} (h : Handled)
    (hop : Opcode.ofByte? request.opcode ≠ none) :
    decode lite (h.reply lite request).bytes = .ok (h.reply lite request) :=
  decode_encode (encode_eq_ok lite (Nat.zero_le _)) hop

/-- Blocks of 16 bytes, sent again up to four times. -/
def smallSettings : Settings := ⟨16, 256, 16383, 4, by decide, by decide, by decide⟩

end KfswServices.Fwu.Lite
