/-
# The transfer engine

The send and receive loops of `src/ftp/ftp_transfer.c`, which the client and the server share, with
what opens and finishes a transfer on each side.
-/

import KfswServices.Ftp.Store

namespace KfswServices.Ftp

open Library

/-- `struct kfsw_ftp_transfer`; the file is only valid between an open and its close. -/
structure Transfer where
  requestId : UInt32
  totalSize : UInt32
  crc32 : UInt32
  offset : ℕ
  actualCrc32 : UInt32
  dataOpcode : UInt8
  firmware : Bool
  file : Handle
  deriving DecidableEq

/-- What the transfer is to leave. -/
def Transfer.note (t : Transfer) : Note := ⟨t.totalSize, t.crc32⟩

/-- The loop of `write_all`; a turn that goes on has written a byte at least. -/
def writeAllLoop : ℕ → Handle → List UInt8 → Program (Except Errno Handle)
  | 0, file, _ => pure (.ok file)
  | turns + 1, file, data =>
    if data = [] then pure (.ok file)
    else do
      match ← fsWrite file data with
      | .error e => pure (.error e)
      | .ok (written, file) =>
        if written = 0 then pure (.error Errno.EIO)
        else writeAllLoop turns file (data.drop written)

/-- `write_all`. -/
def writeAll (file : Handle) (data : List UInt8) : Program (Except Errno Handle) :=
  writeAllLoop data.length file data

/-- `data_message_is_valid`. -/
def dataMessageIsValid (t : Transfer) (m : Message) : Bool :=
  m.opcode = t.dataOpcode && m.requestId = t.requestId && m.status = 0 && m.flags = 0 &&
    m.path = [] && m.data ≠ [] && m.offset.toNat = t.offset && m.totalSize = t.totalSize &&
    m.crc32 = t.crc32 && m.data.length ≤ t.totalSize.toNat - t.offset

/-- `kfsw_ftp_transfer_open_source`. -/
def transferOpenSource (t : Transfer) (sourcePath : CString) : Program (Except Errno Transfer) := do
  match ← fsOpen sourcePath .READ with
  | .error e => pure (.error e)
  | .ok file =>
    if t.offset = 0 then pure (.ok { t with file := file })
    else
      match ← fsSeek file t.offset with
      | .error e =>
        let _ ← fsClose file
        pure (.error e)
      | .ok file => pure (.ok { t with file := file })

/-- The data message of a turn of `kfsw_ftp_transfer_send`. -/
def dataMessage (t : Transfer) (bytes : List UInt8) : Message :=
  ⟨t.dataOpcode, 0, 0, t.requestId, UInt32.ofNat t.offset, t.totalSize, t.crc32, [], bytes⟩

/-- The loop of `kfsw_ftp_transfer_send`, for as many turns; a growing file can keep it going.  The
offset is a 32-bit sum. -/
def transferSendLoop (chunk : ℕ) : ℕ → Transfer → Program (Option Errno × Transfer)
  | 0, t => pure (none, t)
  | turns + 1, t =>
    if t.offset < t.totalSize.toNat then do
      match ← fsRead t.file (min chunk chunkSize) with
      | .error e => pure (some e, t)
      | .ok (bytes, file) =>
        if bytes = [] then pure (some Errno.EIO, t)
        else
          match ← linkSend (dataMessage t bytes) with
          | some e => pure (some e, { t with file := file })
          | none =>
            transferSendLoop chunk turns
              { t with file := file, offset := (t.offset + bytes.length) % 2 ^ 32 }
    else pure (none, t)

/-- `kfsw_ftp_transfer_send`. -/
def transferSend (chunk turns : ℕ) (t : Transfer) : Program (Option Errno × Transfer) := do
  let (result, t) ← transferSendLoop chunk turns t
  let closeResult ← fsClose t.file
  pure (firstError result closeResult, t)

/-- `kfsw_ftp_transfer_open_sink`. -/
def transferOpenSink (t : Transfer) (temporary : CString) : Program (Except Errno Transfer) :=
  if t.offset = 0 then do
    let _ ← fsUnlink temporary
    match ← fsOpen temporary .CREATE_TRUNC with
    | .error e => pure (.error e)
    | .ok file => pure (.ok { t with file := file })
  else do
    match ← fsOpen temporary .WRITE with
    | .error e => pure (.error e)
    | .ok file =>
      match ← fsSeek file t.offset with
      | .error e =>
        let _ ← fsClose file
        pure (.error e)
      | .ok file => pure (.ok { t with file := file })

/-- `kfsw_ftp_path_is_firmware`. -/
def pathIsFirmware (cfg : Config) (path : List UInt8) : Bool :=
  match cfg.firmwarePath with
  | none => false
  | some reserved => path ≠ [] && dropSlash path = reserved.bytes

/-- `kfsw_ftp_transfer_open_firmware_sink`. -/
def transferOpenFirmwareSink (t : Transfer) : Program (Except Errno Transfer) := do
  match ← fwuBegin t.totalSize t.crc32 with
  | some e => pure (.error e)
  | none => pure (.ok { t with firmware := true })

/-- What a turn of `kfsw_ftp_transfer_receive` does with the data of a message. -/
def receiveData (t : Transfer) (m : Message) : Program (Except Errno Transfer) :=
  if !dataMessageIsValid t m then pure (.error .EBADMSG)
  else do
    let result ← if t.firmware then do
        match ← fwuWrite t.offset m.data with
        | some e => pure (.error e)
        | none => pure (.ok t.file)
      else writeAll t.file m.data
    match result with
    | .error e => pure (.error e)
    | .ok file =>
      pure (.ok { t with
        file := file
        actualCrc32 := crc32Update t.actualCrc32 m.data
        offset := t.offset + m.data.length })

/-- The loop of `kfsw_ftp_transfer_receive`.  A turn that goes on has got a byte at least. -/
def transferReceiveLoop : ℕ → Transfer → Program (Option Errno × Transfer)
  | 0, t => pure (none, t)
  | turns + 1, t =>
    if t.offset < t.totalSize.toNat then do
      match ← linkReceive with
      | .error e => pure (some e, t)
      | .ok m =>
        match ← receiveData t m with
        | .error e => pure (some e, t)
        | .ok t => transferReceiveLoop turns t
    else pure (none, t)

/-- `kfsw_ftp_transfer_receive`. -/
def transferReceive (t : Transfer) : Program (Option Errno × Transfer) :=
  transferReceiveLoop (t.totalSize.toNat - t.offset) t

/-- `kfsw_ftp_transfer_finish`. -/
def transferFinish (t : Transfer) (target temporary : CString) (result : Option Errno) :
    Program (Option Errno) :=
  if t.firmware then do
    let result ← if result = none then fwuFinish else pure result
    if result ≠ none then
      let _ ← fwuAbort
      pure result
    else pure result
  else do
    let syncResult ← fsSync t.file
    let result := firstError result syncResult
    let closeResult ← fsClose t.file
    let result := firstError result closeResult
    if result = none then
      commitTemporary target temporary t.offset t.actualCrc32 t.totalSize.toNat t.crc32
    else pure result

end KfswServices.Ftp
