/-
# The client

The requests of `src/ftp/ftp_client.c`.  A request to the node's own address is carried out on its
store; any other goes over the link.  The counters and the events of a finished transfer are left
out.
-/

import KfswServices.Ftp.Server

namespace KfswServices.Ftp

open Library

/-- What the client finds of its node: the storage and the link are ready, the service is started,
and the addresses. -/
structure Station where
  storageReady : Bool
  linkReady : Bool
  started : Bool
  maxNode : UInt16
  localNode : UInt16

/-- `validate_client`. -/
def validateClient (st : Station) (node : UInt16) : Option Errno :=
  if !st.storageReady || !st.linkReady then some .EACCES
  else if node ≤ st.maxNode then none
  else some .EINVAL

/-- `validate_local`. -/
def validateLocal (st : Station) : Option Errno :=
  if st.storageReady && st.started then none else some .EACCES

/-- `validate_virtual_path`: the resolved path.  The size on the wire is that of the path. -/
def validateVirtualPath (cfg : Config) (path : CString) (allowRoot : Bool) :
    Except Errno CString :=
  resolvePath cfg path allowRoot fullPathSize

/-- A request that carries a path and nothing else. -/
def pathRequest (opcode : UInt8) (requestId : UInt32) (path : CString) : Message :=
  ⟨opcode, 0, 0, requestId, 0, 0, 0, path.bytes, []⟩

/-- `receive_response`. -/
def receiveResponse (expectedOpcode : UInt8) (requestId : UInt32) :
    Program (Except Errno Message) := do
  match ← linkReceive with
  | .error e => pure (.error e)
  | .ok m =>
    if m.opcode ≠ expectedOpcode ∨ m.requestId ≠ requestId then pure (.error .EBADMSG)
    else
      match wireStatusToErrno m.status with
      | some e => pure (.error e)
      | none => pure (.ok m)

/-- `simple_path_request`. -/
def simplePathRequest (cfg : Config) (st : Station) (node : UInt16) (path : CString)
    (allowRoot : Bool) (requestOpcode responseOpcode : UInt8) (requestId : UInt32) :
    Program (Except Errno Message) :=
  match validateClient st node, validateVirtualPath cfg path allowRoot with
  | some e, _ => pure (.error e)
  | none, .error e => pure (.error e)
  | none, .ok _ => do
    match ← linkConnect node with
    | some e => pure (.error e)
    | none =>
      match ← linkSend (pathRequest requestOpcode requestId path) with
      | some e => pure (.error e)
      | none => receiveResponse responseOpcode requestId

/-- `kfsw_ftp_mkdir`. -/
def mkdir (cfg : Config) (st : Station) (node : UInt16) (path : CString) (requestId : UInt32) :
    Program (Option Errno) :=
  if node = st.localNode then
    match validateLocal st with
    | some e => pure (some e)
    | none => localMkdir cfg path
  else do
    let result ←
      simplePathRequest cfg st node path false opMkdirRequest opMkdirResponse requestId
    pure (errorOf result)

/-- The type a wire value stands for. -/
def EntryType.ofByte (b : UInt8) : Option EntryType :=
  if b = 1 then some .FILE else if b = 2 then some .DIR else none

/-- `remote_stat`. -/
def remoteStat (cfg : Config) (st : Station) (node : UInt16) (path : CString)
    (requestId : UInt32) : Program (Except Errno Stat) := do
  match ← simplePathRequest cfg st node path true opStatRequest opStatResponse requestId with
  | .error e => pure (.error e)
  | .ok response =>
    if response.path ≠ [] ∨ response.data ≠ [] then pure (.error .EBADMSG)
    else
      match EntryType.ofByte response.flags with
      | none => pure (.error .EBADMSG)
      | some type => pure (.ok ⟨type, response.totalSize.toNat, response.crc32⟩)

/-- `kfsw_ftp_stat`. -/
def stat (cfg : Config) (st : Station) (node : UInt16) (path : CString) (requestId : UInt32) :
    Program (Except Errno Stat) :=
  if node = st.localNode then
    match validateLocal st with
    | some e => pure (.error e)
    | none => localStat cfg path
  else remoteStat cfg st node path requestId

/-- `visit_list_entry`: whether to keep visiting, and the context. -/
def visitListEntry {γ : Type} (visitor : Visitor γ) (response : Message) (context : γ) :
    Program (Except Errno (Bool × γ)) :=
  if response.opcode ≠ opListEntry ∨ response.status ≠ statusOk ∨ response.path = [] ∨
      response.data ≠ [] then pure (.error .EBADMSG)
  else
    match EntryType.ofByte response.flags with
    | none => pure (.error .EBADMSG)
    | some type => do
      let visited ←
        visitor ⟨cstring response.path, type, response.totalSize.toNat⟩ context
      pure (.ok visited)

/-- The loop of `remote_list`, for as many turns. -/
def remoteListLoop {γ : Type} (visitor : Visitor γ) (requestId : UInt32) :
    ℕ → Bool → γ → Program (Option Errno × γ)
  | 0, _, context => pure (none, context)
  | turns + 1, keepVisiting, context => do
    match ← linkReceive with
    | .error e => pure (some e, context)
    | .ok m =>
      if m.requestId ≠ requestId then pure (some .EBADMSG, context)
      else if m.opcode = opListEnd then pure (wireStatusToErrno m.status, context)
      else if keepVisiting then
        match ← visitListEntry visitor m context with
        | .error e => pure (some e, context)
        | .ok (keepVisiting, context) =>
          remoteListLoop visitor requestId turns keepVisiting context
      else remoteListLoop visitor requestId turns keepVisiting context

/-- `remote_list`. -/
def remoteList {γ : Type} (cfg : Config) (turns : ℕ) (st : Station) (node : UInt16)
    (path : CString) (requestId : UInt32) (visitor : Visitor γ) (context : γ) :
    Program (Option Errno × γ) :=
  match validateClient st node, validateVirtualPath cfg path true with
  | some e, _ => pure (some e, context)
  | none, .error e => pure (some e, context)
  | none, .ok _ => do
    match ← linkConnect node with
    | some e => pure (some e, context)
    | none =>
      match ← linkSend (pathRequest opListRequest requestId path) with
      | some e => pure (some e, context)
      | none => remoteListLoop visitor requestId turns true context

/-- `kfsw_ftp_list`. -/
def list {γ : Type} (cfg : Config) (turns : ℕ) (st : Station) (node : UInt16) (path : CString)
    (requestId : UInt32) (visitor : Visitor γ) (context : γ) : Program (Option Errno × γ) :=
  if node = st.localNode then
    match validateLocal st with
    | some e => pure (some e, context)
    | none => localList cfg turns path visitor context
  else remoteList cfg turns st node path requestId visitor context

/-- `prepare_upload`: the local file, its size and its checksum. -/
def prepareUpload (cfg : Config) (localPath remotePath : CString) :
    Program (Except Errno (CString × ℕ × UInt32)) :=
  match validateVirtualPath cfg localPath false, validateVirtualPath cfg remotePath false with
  | .error e, _ => pure (.error e)
  | .ok _, .error e => pure (.error e)
  | .ok path, .ok _ => do
    match ← fileCrc path with
    | .error e => pure (.error e)
    | .ok (size, crc) => pure (.ok (path, size, crc))

/-- `await_put_ready`: where to start. -/
def awaitPutReady (requestId totalSize : UInt32) : Program (Except Errno ℕ) := do
  match ← linkReceive with
  | .error e => pure (.error e)
  | .ok m =>
    if m.requestId ≠ requestId ∨ (m.opcode ≠ opPutReady ∧ m.opcode ≠ opPutResult) then
      pure (.error .EBADMSG)
    else
      match wireStatusToErrno m.status with
      | some e => pure (.error e)
      | none =>
        if m.opcode ≠ opPutReady then pure (.error .EBADMSG)
        else if totalSize < m.offset then pure (.error .EBADMSG)
        else pure (.ok m.offset.toNat)

/-- `await_transfer_result`. -/
def awaitTransferResult (resultOpcode : UInt8) (t : Transfer) : Program (Option Errno) := do
  match ← receiveResponse resultOpcode t.requestId with
  | .error e => pure (some e)
  | .ok m =>
    if m.totalSize ≠ t.totalSize ∨ m.crc32 ≠ t.crc32 then pure (some .EILSEQ) else pure none

/-- `kfsw_ftp_put`. -/
def put (cfg : Config) (st : Station) (chunk turns : ℕ) (node : UInt16)
    (localPath remotePath : CString) (requestId : UInt32) : Program (Option Errno) :=
  if node = st.localNode then pure (some .ENOTSUP)
  else
    match validateClient st node with
    | some e => pure (some e)
    | none => do
      match ← prepareUpload cfg localPath remotePath with
      | .error e => pure (some e)
      | .ok (path, size, crc) =>
        let t : Transfer :=
          ⟨requestId, UInt32.ofNat size, crc, 0, 0, opPutData, false, ⟨0, 0⟩⟩
        match ← linkConnect node with
        | some e => pure (some e)
        | none =>
          let request : Message := ⟨opPutRequest, flagResume, 0, requestId, 0, t.totalSize, t.crc32,
            remotePath.bytes, []⟩
          match ← linkSend request with
          | some e => pure (some e)
          | none =>
            match ← awaitPutReady requestId t.totalSize with
            | .error e => pure (some e)
            | .ok offset =>
              match ← transferOpenSource { t with offset := offset } path with
              | .error e => pure (some e)
              | .ok t =>
                match ← transferSend chunk turns t with
                | (some e, _) => pure (some e)
                | (none, t) => awaitTransferResult opPutResult t

/-- `prepare_download`: the resolved local path, what the partial file there was to become, how
much of it is there and the checksum of that. -/
def prepareDownload (cfg : Config) (remotePath localPath : CString) :
    Program (Except Errno (CString × Note × ℕ × UInt32)) :=
  match validateVirtualPath cfg remotePath false, validateVirtualPath cfg localPath false with
  | .error e, _ => pure (.error e)
  | .ok _, .error e => pure (.error e)
  | .ok _, .ok path => do
    match statRefusal (← fsStat path) with
    | some e => pure (.error e)
    | none =>
      match makeTemporaryPath path fullPathSize with
      | .error e => pure (.error e)
      | .ok _ =>
        match ← partialNoteRead path with
        | .error _ => pure (.ok (path, ⟨0, 0⟩, 0, 0))
        | .ok noted =>
          let (offset, crc) ← partialResumePoint path noted
          pure (.ok (path, noted, offset, crc))

/-- The request of a download, with the claim to what is there already. -/
def getRequest (requestId : UInt32) (remotePath : CString) (noted : Note) (offset : ℕ) : Message :=
  if offset ≠ 0 then
    ⟨opGetRequest, flagResume, 0, requestId, UInt32.ofNat offset, noted.totalSize, noted.crc32,
      remotePath.bytes, []⟩
  else ⟨opGetRequest, 0, 0, requestId, 0, 0, 0, remotePath.bytes, []⟩

/-- `await_get_info`: the size, the checksum and the start of what comes. -/
def awaitGetInfo (requestId : UInt32) (claimedOffset : ℕ) : Program (Except Errno (Note × ℕ)) := do
  match ← linkReceive with
  | .error e => pure (.error e)
  | .ok m =>
    if m.requestId ≠ requestId ∨ (m.opcode ≠ opGetInfo ∧ m.opcode ≠ opGetResult) then
      pure (.error .EBADMSG)
    else
      match wireStatusToErrno m.status with
      | some e => pure (.error e)
      | none =>
        if m.opcode ≠ opGetInfo then pure (.error .EBADMSG)
        else if m.offset ≠ 0 ∧ m.offset.toNat ≠ claimedOffset then pure (.error .EBADMSG)
        else pure (.ok (⟨m.totalSize, m.crc32⟩, m.offset.toNat))

/-- `prepare_partial`. -/
def preparePartial (path : CString) (t : Transfer) (partialCrc32 : UInt32) :
    Program (Except Errno Transfer) :=
  if t.offset ≠ 0 then pure (.ok { t with actualCrc32 := partialCrc32 })
  else do
    match ← partialNoteWrite path t.note with
    | some e => pure (.error e)
    | none => pure (.ok t)

/-- What `kfsw_ftp_get` opens, once it knows what comes. -/
def openPartial (cfg : Config) (path : CString) (t : Transfer) (partialCrc32 : UInt32) :
    Program (Except Errno Transfer) := do
  match ← checkSpace cfg path ((t.totalSize - UInt32.ofNat t.offset).toNat) with
  | some e => pure (.error e)
  | none =>
    match ← preparePartial path t partialCrc32 with
    | .error e => pure (.error e)
    | .ok t => transferOpenSink t (temporaryPath path)

/-- The server's result, once everything has been received. -/
def awaitDownload (t : Transfer) (result : Option Errno) : Program (Option Errno) :=
  if result = none then awaitTransferResult opGetResult t else pure result

/-- `kfsw_ftp_get`. -/
def get (cfg : Config) (st : Station) (node : UInt16) (remotePath localPath : CString)
    (requestId : UInt32) : Program (Option Errno) :=
  if node = st.localNode then pure (some .ENOTSUP)
  else
    match validateClient st node with
    | some e => pure (some e)
    | none => do
      match ← prepareDownload cfg remotePath localPath with
      | .error e => pure (some e)
      | .ok (path, noted, offset, partialCrc32) =>
        match ← linkConnect node with
        | some e => pure (some e)
        | none =>
          match ← linkSend (getRequest requestId remotePath noted offset) with
          | some e => pure (some e)
          | none =>
            match ← awaitGetInfo requestId offset with
            | .error e => pure (some e)
            | .ok (note, start) =>
              let t : Transfer := ⟨requestId, note.totalSize, note.crc32, start, 0, opGetData,
                false, ⟨0, 0⟩⟩
              match ← openPartial cfg path t partialCrc32 with
              | .error e => pure (some e)
              | .ok t =>
                let (result, t) ← transferReceive t
                let result ← awaitDownload t result
                transferFinish t path (temporaryPath path) result

end KfswServices.Ftp
