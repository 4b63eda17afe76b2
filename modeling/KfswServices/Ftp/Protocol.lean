/-
# The messages of a file transfer

`struct kfsw_ftp_message`, the codec and the status values of `src/ftp/ftp_protocol.c`.  A decoded
path and a decoded payload are copies here: the list holds the bytes the pointer reaches.
-/

import KfswServices.Ftp.Path
import KfswServices.Library.BigEndian
import Mathlib.Data.List.TakeWhile

namespace KfswServices.Ftp

open Library

/-- `KFSW_FTP_PROTOCOL_VERSION`. -/
abbrev protocolVersion : UInt8 := 1

/-- `KFSW_FTP_FLAG_RESUME`. -/
abbrev flagResume : UInt8 := 0x01

/-- `KFSW_FTP_PROTOCOL_HEADER_SIZE`. -/
abbrev protocolHeaderSize : ℕ := 24

/-- `KFSW_FTP_CHUNK_SIZE`. -/
abbrev chunkSize : ℕ := 192

/-- `enum kfsw_ftp_opcode`, by its wire value. -/
abbrev opMkdirRequest : UInt8 := 1
abbrev opMkdirResponse : UInt8 := 2
abbrev opListRequest : UInt8 := 3
abbrev opListEntry : UInt8 := 4
abbrev opListEnd : UInt8 := 5
abbrev opStatRequest : UInt8 := 6
abbrev opStatResponse : UInt8 := 7
abbrev opPutRequest : UInt8 := 8
abbrev opPutReady : UInt8 := 9
abbrev opPutData : UInt8 := 10
abbrev opPutResult : UInt8 := 11
abbrev opGetRequest : UInt8 := 12
abbrev opGetInfo : UInt8 := 13
abbrev opGetData : UInt8 := 14
abbrev opGetResult : UInt8 := 15

/-- `enum kfsw_ftp_wire_status`, by its wire value. -/
abbrev statusOk : UInt8 := 0
abbrev statusInvalidRequest : UInt8 := 1
abbrev statusInvalidPath : UInt8 := 2
abbrev statusNotFound : UInt8 := 3
abbrev statusAlreadyExists : UInt8 := 4
abbrev statusNoSpace : UInt8 := 5
abbrev statusIoError : UInt8 := 6
abbrev statusIntegrityError : UInt8 := 7
abbrev statusBusy : UInt8 := 8
abbrev statusUnsupported : UInt8 := 9
abbrev statusTimeout : UInt8 := 10
abbrev statusConnectionError : UInt8 := 11
abbrev statusNotDirectory : UInt8 := 12
abbrev statusReadOnly : UInt8 := 13

/-- `struct kfsw_ftp_message`. -/
structure Message where
  opcode : UInt8
  flags : UInt8
  status : UInt8
  requestId : UInt32
  offset : UInt32
  totalSize : UInt32
  crc32 : UInt32
  path : List UInt8
  data : List UInt8
  deriving DecidableEq

/-- A message with nothing in it but what is given. -/
def Message.plain (opcode status : UInt8) (requestId : UInt32) : Message :=
  ⟨opcode, 0, status, requestId, 0, 0, 0, [], []⟩

/-- `kfsw_ftp_protocol_encode`, into a buffer of `capacity` bytes. -/
def protocolEncode (capacity : ℕ) (m : Message) : Except Errno (List UInt8) :=
  if m.opcode < opMkdirRequest ∨ opGetResult < m.opcode ∨ maxPathSize < m.path.length ∨
      chunkSize < m.data.length then .error .EINVAL
  else if capacity < protocolHeaderSize + m.path.length + m.data.length then .error .EMSGSIZE
  else
    .ok ([protocolVersion, m.opcode, m.flags, m.status] ++ (putBe32 m.requestId ++
      (putBe32 m.offset ++ (putBe32 m.totalSize ++ (putBe32 m.crc32 ++
        (putBe16 (UInt16.ofNat m.path.length) ++ (putBe16 (UInt16.ofNat m.data.length) ++
          (m.path ++ m.data))))))))

/-- `kfsw_ftp_protocol_decode`. -/
def protocolDecode (buffer : List UInt8) : Except Errno Message :=
  if buffer.length < protocolHeaderSize then .error .EMSGSIZE
  else if buffer.getD 0 0 ≠ protocolVersion then .error .EPROTONOSUPPORT
  else if buffer.getD 1 0 < opMkdirRequest ∨ opGetResult < buffer.getD 1 0 then .error .ENOTSUP
  else
    let pathSize := (getBe16 (buffer.drop 20)).toNat
    let dataSize := (getBe16 (buffer.drop 22)).toNat
    if maxPathSize < pathSize ∨ chunkSize < dataSize then .error .EMSGSIZE
    else if protocolHeaderSize + pathSize + dataSize ≠ buffer.length then .error .EMSGSIZE
    else
      let path := (buffer.drop protocolHeaderSize).take pathSize
      let data := (buffer.drop (protocolHeaderSize + pathSize)).take dataSize
      if 0 ∈ path then .error .EBADMSG
      else
        .ok ⟨buffer.getD 1 0, buffer.getD 2 0, buffer.getD 3 0, getBe32 (buffer.drop 4),
          getBe32 (buffer.drop 8), getBe32 (buffer.drop 12), getBe32 (buffer.drop 16), path, data⟩

/-- The messages that `kfsw_ftp_protocol_encode` takes into any buffer of the largest size. -/
structure Message.Fits (m : Message) : Prop where
  opcode : opMkdirRequest ≤ m.opcode ∧ m.opcode ≤ opGetResult
  path : m.path.length ≤ maxPathSize
  data : m.data.length ≤ chunkSize
  noNul : 0 ∉ m.path

/-- The bytes of a message. -/
def Message.bytes (m : Message) : List UInt8 :=
  [protocolVersion, m.opcode, m.flags, m.status] ++ (putBe32 m.requestId ++
    (putBe32 m.offset ++ (putBe32 m.totalSize ++ (putBe32 m.crc32 ++
      (putBe16 (UInt16.ofNat m.path.length) ++ (putBe16 (UInt16.ofNat m.data.length) ++
        (m.path ++ m.data)))))))

/-- **What the bytes of a message are decoded as**: the message, if its path has no terminator. -/
theorem protocolDecode_bytes {m : Message}
    (hop : ¬ (m.opcode < opMkdirRequest ∨ opGetResult < m.opcode))
    (hpath : m.path.length ≤ maxPathSize) (hdata : m.data.length ≤ chunkSize) :
    protocolDecode m.bytes = if 0 ∈ m.path then .error .EBADMSG else .ok m := by
  obtain ⟨i₀, i₁, i₂, i₃, hi, gi⟩ := exists_putBe32 m.requestId
  obtain ⟨o₀, o₁, o₂, o₃, ho, go⟩ := exists_putBe32 m.offset
  obtain ⟨t₀, t₁, t₂, t₃, ht, gt⟩ := exists_putBe32 m.totalSize
  obtain ⟨c₀, c₁, c₂, c₃, hc, gc⟩ := exists_putBe32 m.crc32
  obtain ⟨p₀, p₁, hp, gp⟩ := exists_putBe16 (UInt16.ofNat m.path.length)
  obtain ⟨d₀, d₁, hd, gd⟩ := exists_putBe16 (UInt16.ofNat m.data.length)
  have hlong : protocolHeaderSize = 24 := rfl
  have hpathMax : maxPathSize = 96 := rfl
  have hdataMax : chunkSize = 192 := rfl
  have hpathSize : m.path.length % 2 ^ 16 = m.path.length := Nat.mod_eq_of_lt (by omega)
  have hdataSize : m.data.length % 2 ^ 16 = m.data.length := Nat.mod_eq_of_lt (by omega)
  rw [Message.bytes, hi, ho, ht, hc, hp, hd]
  simp only [protocolDecode, List.cons_append, List.nil_append, List.length_cons,
    List.length_append, List.getD_cons_zero, List.getD_cons_succ, List.drop_succ_cons,
    List.drop_zero, gp, gd, gi, go, gt, gc, UInt16.toNat_ofNat', hpathSize, hdataSize]
  rw [if_neg (by omega), if_neg (by simp), if_neg hop,
    if_neg (not_or.2 ⟨not_lt.2 hpath, not_lt.2 hdata⟩), if_neg (by omega)]
  simp only [← List.drop_drop, hlong, List.drop_succ_cons, List.drop_zero, List.take_left,
    List.drop_left, List.take_length]

/-- **A message survives the wire.** -/
theorem protocolDecode_protocolEncode {capacity : ℕ} {m : Message} (h : m.Fits)
    (hcapacity : protocolHeaderSize + m.path.length + m.data.length ≤ capacity) :
    ∃ bytes, protocolEncode capacity m = .ok bytes ∧ protocolDecode bytes = .ok m := by
  have hopcode : ¬ (m.opcode < opMkdirRequest ∨ opGetResult < m.opcode) :=
    not_or.2 ⟨UInt8.not_lt.2 h.opcode.1, UInt8.not_lt.2 h.opcode.2⟩
  have hlegal : ¬ (m.opcode < opMkdirRequest ∨ opGetResult < m.opcode ∨
      maxPathSize < m.path.length ∨ chunkSize < m.data.length) := by
    rw [← or_assoc, not_or]
    exact ⟨hopcode, not_or.2 ⟨not_lt.2 h.path, not_lt.2 h.data⟩⟩
  refine ⟨m.bytes, ?_, ?_⟩
  · rw [protocolEncode, if_neg hlegal, if_neg (not_lt.2 hcapacity)]
    rfl
  · rw [protocolDecode_bytes hopcode h.path h.data, if_neg h.noNul]

/-- A buffer read as a string: up to its first terminator. -/
def cstring (bytes : List UInt8) : CString :=
  ⟨bytes.takeWhile (· ≠ 0), zero_notMem_takeWhile bytes⟩

/-- A string is what its bytes read as. -/
theorem cstring_bytes (s : CString) : cstring s.bytes = s := by
  have hall : s.bytes.takeWhile (· ≠ 0) = s.bytes :=
    List.takeWhile_eq_self_iff.2 fun b hb => decide_eq_true fun h => s.noNul (h ▸ hb)
  cases s
  simp only [cstring, CString.mk.injEq]
  exact hall

/-- `kfsw_ftp_copy_message_path`, into a buffer of `pathSize` bytes. -/
def copyMessagePath (m : Message) (pathSize : ℕ) : Except Errno CString :=
  if m.path = [] ∨ pathSize ≤ m.path.length then .error .EINVAL else .ok (cstring m.path)

/-- `kfsw_ftp_wire_status_to_errno`. -/
def wireStatusToErrno (status : UInt8) : Option Errno :=
  if status = statusOk then none
  else if status = statusInvalidRequest then some .EBADMSG
  else if status = statusInvalidPath then some .EINVAL
  else if status = statusNotFound then some .ENOENT
  else if status = statusAlreadyExists then some .EEXIST
  else if status = statusNoSpace then some .ENOSPC
  else if status = statusIntegrityError then some .EILSEQ
  else if status = statusBusy then some .EBUSY
  else if status = statusUnsupported then some .ENOTSUP
  else if status = statusTimeout then some .ETIMEDOUT
  else if status = statusConnectionError then some .ECONNREFUSED
  else if status = statusNotDirectory then some .ENOTDIR
  else if status = statusReadOnly then some .EROFS
  else some Errno.EIO

/-- `kfsw_ftp_errno_to_wire_status`. -/
def errnoToWireStatus (error : Option Errno) : UInt8 :=
  match error with
  | none => statusOk
  | some .EINVAL | some .ENAMETOOLONG => statusInvalidPath
  | some .ENOENT => statusNotFound
  | some .EEXIST => statusAlreadyExists
  | some .EROFS => statusReadOnly
  | some .ENOSPC => statusNoSpace
  | some .EILSEQ | some .EBADMSG => statusIntegrityError
  | some .EBUSY => statusBusy
  | some .ENOTSUP | some .EPROTONOSUPPORT => statusUnsupported
  | some .ETIMEDOUT => statusTimeout
  | some .ECONNREFUSED | some .ECONNRESET => statusConnectionError
  | some .EISDIR | some .ENOTDIR => statusNotDirectory
  | some _ => statusIoError

/-- Only the status OK is read as a success. -/
theorem wireStatusToErrno_eq_none {status : UInt8} (h : wireStatusToErrno status = none) :
    status = statusOk := by
  have hall : ∀ n < 256, wireStatusToErrno (UInt8.ofNat n) = none → n = 0 := by decide +kernel
  have hzero := hall status.toNat status.toNat_lt (by rwa [UInt8.ofNat_toNat])
  exact UInt8.toNat_inj.1 hzero

/-- No error is sent as the status OK. -/
theorem errnoToWireStatus_some (e : Errno) : errnoToWireStatus (some e) ≠ statusOk := by
  unfold errnoToWireStatus
  split <;> first | decide | contradiction

end KfswServices.Ftp
