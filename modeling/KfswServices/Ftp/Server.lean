/-
# The server

What `src/ftp/ftp_server.c` does with one connection.
-/

import KfswServices.Ftp.Transfer

namespace KfswServices.Ftp

open Library

/-- `response_opcode`. -/
def responseOpcode (requestOpcode : UInt8) : UInt8 :=
  if requestOpcode = opMkdirRequest then opMkdirResponse
  else if requestOpcode = opListRequest then opListEnd
  else if requestOpcode = opStatRequest then opStatResponse
  else if requestOpcode = opPutRequest then opPutResult
  else opGetResult

/-- `wire_status`. -/
def wireStatus (result : Option Errno) : UInt8 :=
  if result = some .EBADMSG then statusInvalidRequest else errnoToWireStatus result

/-- The status of a failure is not OK. -/
theorem wireStatus_some (e : Errno) : wireStatus (some e) ≠ statusOk := by
  unfold wireStatus
  split_ifs
  · decide
  · exact errnoToWireStatus_some e

/-- Success and failure survive this way too. -/
theorem wireStatus_errno_eq_none_iff (result : Option Errno) :
    wireStatusToErrno (wireStatus result) = none ↔ result = none := by
  rcases result with _ | e
  · exact iff_of_true (by decide) rfl
  · exact iff_of_false (fun h => wireStatus_some e (wireStatusToErrno_eq_none h)) (by simp)

/-- `send_status`. -/
def sendStatus (opcode : UInt8) (requestId : UInt32) (status : UInt8) (totalSize crc32 : UInt32) :
    Program (Option Errno) :=
  linkSend ⟨opcode, 0, status, requestId, 0, totalSize, crc32, [], []⟩

/-- `send_ready`. -/
def sendReady (opcode : UInt8) (requestId : UInt32) (offset : ℕ) (totalSize crc32 : UInt32) :
    Program (Option Errno) :=
  linkSend ⟨opcode, 0, statusOk, requestId, UInt32.ofNat offset, totalSize, crc32, [], []⟩

/-- `path_request_is_valid`. -/
def pathRequestIsValid (request : Message) : Bool :=
  request.data = [] && request.status = 0 && request.flags = 0 && request.offset = 0 &&
    request.totalSize = 0 && request.crc32 = 0

/-- `copy_request_path`. -/
def copyRequestPath (request : Message) : Except Errno CString :=
  if !pathRequestIsValid request then .error .EBADMSG
  else copyMessagePath request (maxPathSize + 1)

/-- `resolve_message_path`. -/
def resolveMessagePath (cfg : Config) (request : Message) (allowRoot : Bool) :
    Except Errno CString :=
  match copyMessagePath request (maxPathSize + 1) with
  | .error e => .error e
  | .ok virtualPath => resolvePath cfg virtualPath allowRoot fullPathSize

/-- `serve_mkdir`. -/
def serveMkdir (cfg : Config) (request : Message) : Program (Option Errno) := do
  let result ← match copyRequestPath request with
    | .error e => pure (some e)
    | .ok virtualPath => localMkdir cfg virtualPath
  sendStatus opMkdirResponse request.requestId (wireStatus result) 0 0

/-- `enum kfsw_ftp_entry_type`, by its wire value. -/
def EntryType.toByte : EntryType → UInt8
  | FILE => 1
  | DIR => 2

/-- The return value in a result. -/
def errorOf {α : Type} (result : Except Errno α) : Option Errno :=
  match result with
  | .error e => some e
  | .ok _ => none

/-- `serve_stat`; the fields of a stat that was not filled in are zero. -/
def serveStat (cfg : Config) (request : Message) : Program (Option Errno) := do
  let result ← match copyRequestPath request with
    | .error e => pure (.error e)
    | .ok virtualPath => localStat cfg virtualPath
  linkSend
    { opcode := opStatResponse
      flags := match result with
        | .ok info => info.type.toByte
        | .error _ => 0
      status := wireStatus (errorOf result)
      requestId := request.requestId
      offset := 0
      totalSize := match result with
        | .ok info => UInt32.ofNat info.size
        | .error _ => 0
      crc32 := match result with
        | .ok info => info.crc32
        | .error _ => 0
      path := []
      data := [] }

/-- `send_list_entry`; its context is the result of the last send. -/
def sendListEntry (requestId : UInt32) : Visitor (Option Errno) := fun entry _ => do
  let result ← linkSend
    { opcode := opListEntry
      flags := entry.type.toByte
      status := 0
      requestId := requestId
      offset := 0
      totalSize := UInt32.ofNat entry.size
      crc32 := 0
      path := entry.name.bytes.take maxPathSize
      data := [] }
  pure (result = none, result)

/-- `serve_list`. -/
def serveList (cfg : Config) (turns : ℕ) (request : Message) : Program (Option Errno) := do
  let (result, sent) ← match copyRequestPath request with
    | .error e => pure (some e, none)
    | .ok virtualPath => localList cfg turns virtualPath (sendListEntry request.requestId) none
  let result := if sent ≠ none then sent else result
  sendStatus opListEnd request.requestId (wireStatus result) 0 0

/-- Why a path that is to be written may not be: `fs_stat` found a directory there, or failed for
another reason than that there is nothing. -/
def statRefusal (stat : Except Errno EntryType) : Option Errno :=
  match stat with
  | .ok .DIR => some .EISDIR
  | .ok .FILE => none
  | .error e => if e = .ENOENT then none else some e

/-- The end of `prepare_upload_target`: the space, and the note of a transfer that starts afresh. -/
def reserveUpload (cfg : Config) (path : CString) (t : Transfer) :
    Program (Except Errno Transfer) := do
  match ← checkSpace cfg path (t.totalSize.toNat - t.offset) with
  | some e => pure (.error e)
  | none =>
    if t.offset = 0 then
      match ← partialNoteWrite path t.note with
      | some e => pure (.error e)
      | none => pure (.ok t)
    else pure (.ok t)

/-- `prepare_upload_target`, for the target that has been resolved. -/
def prepareUploadTarget (cfg : Config) (path : CString) (t : Transfer) (mayResume : Bool) :
    Program (Except Errno Transfer) :=
  match makeTemporaryPath path fullPathSize with
  | .error e => pure (.error e)
  | .ok _ => do
    match statRefusal (← fsStat path) with
    | some e => pure (.error e)
    | none =>
      if mayResume then
        let (offset, actualCrc32) ← partialResumePoint path t.note
        reserveUpload cfg path { t with offset := offset, actualCrc32 := actualCrc32 }
      else reserveUpload cfg path t

/-- What `serve_put` opens for its request: a file or the firmware slot. -/
def openUpload (cfg : Config) (request : Message) : Program (Except Errno (Transfer × CString)) :=
  let transfer : Transfer :=
    ⟨request.requestId, request.totalSize, request.crc32, 0, 0, opPutData, false, ⟨0, 0⟩⟩
  if request.data ≠ [] ∨ request.status ≠ 0 ∨ request.flags &&& ~~~flagResume ≠ 0 ∨
      request.offset ≠ 0 then pure (.error .EBADMSG)
  else
    match resolveMessagePath cfg request false with
    | .error e => pure (.error e)
    | .ok path =>
      if pathIsFirmware cfg request.path then do
        match ← transferOpenFirmwareSink transfer with
        | .error e => pure (.error e)
        | .ok t => pure (.ok (t, path))
      else do
        match ← prepareUploadTarget cfg path transfer (request.flags &&& flagResume ≠ 0) with
        | .error e => pure (.error e)
        | .ok t =>
          match ← transferOpenSink t (temporaryPath path) with
          | .error e => pure (.error e)
          | .ok t => pure (.ok (t, path))

/-- The end of `serve_put`, after what was received: the commit and the report. -/
def reportUpload (request : Message) (path : CString) (t : Transfer) (result : Option Errno) :
    Program (Option Errno) := do
  let result ← transferFinish t path (temporaryPath path) result
  sendStatus opPutResult request.requestId (wireStatus result) (UInt32.ofNat t.offset) t.actualCrc32

/-- `serve_put`. -/
def servePut (cfg : Config) (request : Message) : Program (Option Errno) := do
  match ← openUpload cfg request with
  | .error e => sendStatus opPutResult request.requestId (wireStatus (some e)) 0 0
  | .ok (t, path) =>
    match ← sendReady opPutReady request.requestId t.offset request.totalSize request.crc32 with
    | some e => reportUpload request path t (some e)
    | none =>
      let (result, t) ← transferReceive t
      reportUpload request path t result

/-- `accepted_resume_offset`. -/
def acceptedResumeOffset (request : Message) (t : Transfer) : ℕ :=
  if request.flags &&& flagResume = 0 ∨ request.offset = 0 then 0
  else if request.totalSize ≠ t.totalSize ∨ request.crc32 ≠ t.crc32 then 0
  else if t.totalSize ≤ request.offset then 0
  else request.offset.toNat

/-- What `serve_get` opens for its request. -/
def openDownload (cfg : Config) (request : Message) : Program (Except Errno Transfer) :=
  if request.data ≠ [] ∨ request.status ≠ 0 ∨ request.flags &&& ~~~flagResume ≠ 0 then
    pure (.error .EBADMSG)
  else
    match resolveMessagePath cfg request false with
    | .error e => pure (.error e)
    | .ok path => do
      match ← fsStat path with
      | .error e => pure (.error e)
      | .ok .DIR => pure (.error .EISDIR)
      | .ok .FILE =>
        match ← fileCrc path with
        | .error e => pure (.error e)
        | .ok (size, crc) =>
          let t : Transfer :=
            ⟨request.requestId, UInt32.ofNat size, crc, 0, 0, opGetData, false, ⟨0, 0⟩⟩
          transferOpenSource { t with offset := acceptedResumeOffset request t } path

/-- `serve_get`. -/
def serveGet (cfg : Config) (chunk turns : ℕ) (request : Message) : Program (Option Errno) := do
  match ← openDownload cfg request with
  | .error e => sendStatus opGetResult request.requestId (wireStatus (some e)) 0 0
  | .ok t =>
    let ready ← sendReady opGetInfo request.requestId t.offset t.totalSize t.crc32
    let (result, t) ← match ready with
      | some e => do
        let _ ← fsClose t.file
        pure (some e, t)
      | none => transferSend chunk turns t
    sendStatus opGetResult request.requestId (errnoToWireStatus result) (UInt32.ofNat t.offset)
      t.crc32

/-- The check of `kfsw_ftp_serve_connection` that stands before anything opens a file. -/
def requestIsReadOnly (cfg : Config) (request : Message) : Bool :=
  (request.opcode = opMkdirRequest || request.opcode = opPutRequest) &&
    match copyMessagePath request (maxPathSize + 1) with
    | .error _ => false
    | .ok path => pathIsReadOnly cfg path

/-- `kfsw_ftp_serve_connection`, for a message that has been received. -/
def serveMessage (cfg : Config) (chunk turns : ℕ) (request : Message) : Program (Option Errno) :=
  if requestIsReadOnly cfg request then
    sendStatus (responseOpcode request.opcode) request.requestId (errnoToWireStatus (some .EROFS))
      0 0
  else if request.opcode = opMkdirRequest then serveMkdir cfg request
  else if request.opcode = opListRequest then serveList cfg turns request
  else if request.opcode = opStatRequest then serveStat cfg request
  else if request.opcode = opPutRequest then servePut cfg request
  else if request.opcode = opGetRequest then serveGet cfg chunk turns request
  else sendStatus (responseOpcode request.opcode) request.requestId statusInvalidRequest 0 0

/-- `kfsw_ftp_serve_connection`. -/
def serveConnection (cfg : Config) (chunk turns : ℕ) : Program (Option Errno) := do
  match ← linkReceive with
  | .error e =>
    sendStatus opGetResult 0
      (if e = .EPROTONOSUPPORT ∨ e = .ENOTSUP then statusUnsupported else statusInvalidRequest) 0 0
  | .ok request => serveMessage cfg chunk turns request

end KfswServices.Ftp
