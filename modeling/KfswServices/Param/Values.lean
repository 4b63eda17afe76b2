/-
# The values of other nodes

`get_many` and `set_remote` of `src/parameter/parameter_csp.c`.  A read takes up to sixteen names
at a time: it finds all of their descriptors first, asks the node for the values in as many packets
as it takes, and copies them out of the pool.

`decodeReply` returns, beside what `decode_reply` stages, what the node has reported in the packet:
identifiers and values.
-/

import KfswServices.Param.Remote

namespace KfswServices.Param

open Library

/-- `KFSW_PARAM_REMOTE_BATCH_MAX`. -/
abbrev remoteBatchMax : ℕ := 16

/-- `KFSW_PARAM_REPLY_MAX_PACKETS`. -/
abbrev replyMaxPackets : ℕ := 64

/-- What a node has reported: identifiers and values. -/
abbrev Reports := List (ℤ × Value)

/-- The bytes that `store_remote_value` leaves behind a descriptor. -/
def storeRemoteValue (param : Descriptor) (value : Value) : Cells → Cells :=
  if value.type = .STRING then poke ((value.text.bytes ++ [0]).take value.size)
  else if value.type = .DATA then poke (value.bytes.take value.size)
  else poke (putLe (scalarSize param.type) value.scalar.toNat)

/-- `read_scalar`. -/
def readScalar (cfg : Config) (slot : Slot) : Except Errno Value :=
  let param := slot.param
  if param.type = .DATA then
    if param.arraySize = 0 ∨ param.arraySize > cfg.stringMax then .error .ENOTSUP
    else
      .ok { Value.blank cfg .DATA param.arraySize with
        bytes := load param.arraySize slot.cells ++
          List.replicate (cfg.stringMax - param.arraySize) 0 }
  else if param.type = .STRING then
    if param.arraySize = 0 ∨ param.arraySize > cfg.stringMax then .error .ENOTSUP
    else
      let text := CString.scan (load (param.arraySize - 1) slot.cells)
      .ok { Value.blank cfg .STRING (text.length + 1) with text := text }
  else if scalarSize param.type = 0 ∨ param.arraySize ≠ 1 then .error .ENOTSUP
  else
    .ok { Value.blank cfg param.type (scalarSize param.type) with
      scalar := UInt64.ofNat (getLe (load (scalarSize param.type) slot.cells)) }

/-- `validate_scalar`. -/
def validateScalar (param : Descriptor) (value : Value) : Option Errno :=
  if param.type = .DATA then
    if value.type ≠ .DATA ∨ value.size ≠ param.arraySize then some .EMSGSIZE else none
  else if param.type = .STRING then
    if value.type ≠ .STRING then some .EMSGSIZE
    else if value.size = 0 ∨ value.size > param.arraySize then some .EMSGSIZE
    else none
  else if scalarSize param.type = 0 ∨ param.arraySize ≠ 1 then some .ENOTSUP
  else if value.type ≠ param.type ∨ value.size ≠ scalarSize param.type then some .EMSGSIZE
  else none

/-- A value, to all the parameters with its identifier; `none` if one of them has another value. -/
def stageValue (id : ℤ) (value : Value) :
    List Descriptor → List (Option Value) → Option (List (Option Value))
  | param :: params, staged :: rest =>
    if (param.id.toNat : ℤ) = id then
      if staged.isSome ∧ staged ≠ some value then none
      else (stageValue id value params rest).map (some value :: ·)
    else (stageValue id value params rest).map (staged :: ·)
  | _, staged => some staged

namespace Client

variable {ρ κ : Type} (cl : Client ρ κ)

/-- The look at the header of an item of a reply. -/
def replyHeaderAccepted (r : ρ) : Bool :=
  let (word, peek) := cl.mpack.expectU16 r
  let header := be16toh word
  !(cl.mpack.failed peek || bit header 10 || (bit header 11 && !bit header 13))

/-- The next item of a reply: its identifier and its value. -/
def replyItem (node : UInt16) (params : List Descriptor) (q : κ) (r : ρ) :
    Option (ℤ × Value × κ × ρ) :=
  if !cl.replyHeaderAccepted r then none
  else
    let (item, q, r) := cl.mpack.deserializeId q r
    if cl.mpack.failed r ∨ item.offset > 0 ∨ item.offset < -1 ∨
        (item.node ≠ 0 ∧ item.node ≠ node.toNat) then none
    else
      match params.find? fun param => (param.id.toNat : ℤ) = item.id with
      | none => none
      | some param =>
        match cl.mpack.decodeValue cl.cfg param r with
        | (.error _, _) => none
        | (.ok value, r) => some (item.id, value, q, r)

variable {cl} in
theorem replyItem_lt {node : UInt16} {params : List Descriptor} {q q' : κ} {r r' : ρ} {id : ℤ}
    {value : Value} (hr : 0 < cl.mpack.remaining r)
    (h : cl.replyItem node params q r = some (id, value, q', r')) :
    cl.mpack.remaining r' < cl.mpack.remaining r := by
  have hlt := cl.mpack.deserializeId_lt q r hr
  unfold replyItem at h
  by_cases hheader : (!cl.replyHeaderAccepted r) = true
  · rw [if_pos hheader] at h
    cases h
  rw [if_neg hheader] at h
  rcases hid : cl.mpack.deserializeId q r with ⟨item, q₁, r₁⟩
  rw [hid] at h hlt
  dsimp only at h hlt
  by_cases hrefused : cl.mpack.failed r₁ = true ∨ item.offset > 0 ∨ item.offset < -1 ∨
      (item.node ≠ 0 ∧ item.node ≠ node.toNat)
  · rw [if_pos hrefused] at h
    cases h
  rw [if_neg hrefused] at h
  cases hfind : params.find? fun param => (param.id.toNat : ℤ) = item.id with
  | none => rw [hfind] at h; cases h
  | some param =>
    rw [hfind] at h
    dsimp only at h
    have hle : cl.mpack.remaining (cl.mpack.decodeValue cl.cfg param r₁).2 ≤ cl.mpack.remaining r₁ :=
      Mpack.decodeValue_le
    rcases hvalue : cl.mpack.decodeValue cl.cfg param r₁ with ⟨_ | v, r₂⟩
    · rw [hvalue] at h
      cases h
    · rw [hvalue] at h hle
      cases h
      exact lt_of_le_of_lt hle hlt

/-- The loop of `decode_reply`, with what has been reported so far. -/
def replyItems (node : UInt16) (params : List Descriptor) (staged : List (Option Value))
    (reports : Reports) (q : κ) (r : ρ) : Option (List (Option Value) × Reports) :=
  if _hr : 0 < cl.mpack.remaining r then
    match _hitem : cl.replyItem node params q r with
    | none => none
    | some (id, value, q', r') =>
      match stageValue id value params staged with
      | none => none
      | some staged => replyItems node params staged ((id, value) :: reports) q' r'
  else if cl.mpack.failed r then none
  else some (staged, reports)
termination_by cl.mpack.remaining r
decreasing_by exact replyItem_lt ‹_› ‹_›

/-- `decode_reply`; `none` is `-EBADMSG`. -/
def decodeReply (node : UInt16) (params : List Descriptor) (packet : List UInt8)
    (staged : List (Option Value)) (reports : Reports) :
    Option (List (Option Value) × Reports) :=
  cl.replyItems node params staged reports (cl.mpack.queue 2 (packet.drop 2))
    (cl.mpack.reader (packet.drop 2))

/-- The replies to a pull, for as many packets. -/
def pullReplies (node : UInt16) (params : List Descriptor) :
    ℕ → List (Option Value) → Reports → Program (Except Errno (List (Option Value)) × Reports)
  | 0, _, reports => pure (.error .ETIMEDOUT, reports)
  | packets + 1, staged, reports => do
    if ← perform .time then
      match ← perform .read with
      | none => pure (.error .ETIMEDOUT, reports)
      | some packet =>
        if packet.length < 2 ∨ cl.kind (packet.getD 0 0) ≠ .pullResponseV2 ∨
            packet.getD 1 0 &&& ~~~cl.flagEnd ≠ 0 then pure (.error .EBADMSG, reports)
        else
          match cl.decodeReply node params packet staged reports with
          | none => pure (.error .EBADMSG, reports)
          | some (staged, reports) =>
            if packet.getD 1 0 &&& cl.flagEnd ≠ 0 then pure (.ok staged, reports)
            else pullReplies node params packets staged reports
    else pure (.error .ETIMEDOUT, reports)

/-- How many of the parameters a packet asks for. -/
def added (params : List Descriptor) : ℕ :=
  ((List.range (min params.length remoteBatchMax)).takeWhile fun k =>
    (cl.pull (params.take (k + 1))).isSome).length

/-- The descriptors of some slots. -/
def slotParams (c : Cache) (slots : List ℕ) : List Descriptor :=
  slots.map fun slot => (c.pool slot).param

/-- The values of a batch are put into their slots. -/
def storeBatch : List ℕ → List (Option Value) → Cache → Cache
  | slot :: slots, some value :: staged, c =>
    storeBatch slots staged
      (c.store slot (storeRemoteValue (c.pool slot).param value (c.pool slot).cells))
  | _, _, c => c

/-- `pull_remote_batch`: how many values it has read, and what has been reported. -/
def pullRemoteBatch (node : UInt16) (slots : List ℕ) (c : Cache) (reports : Reports) :
    Program (Except Errno { consumed : ℕ // 0 < consumed } × Cache × Reports) := do
  if !(← perform .buffer) then pure (.error .ENOMEM, c, reports)
  else
    let count := cl.added (slotParams c slots)
    if h : 0 < count then
      if !(← perform .time) then pure (.error .ETIMEDOUT, c, reports)
      else if !(← perform (.connect node .values)) then pure (.error .ECONNREFUSED, c, reports)
      else
        let batch := slots.take count
        let params := slotParams c batch
        perform (.send (cl.code .pullRequestV2 :: 0 :: (cl.pull params).getD []))
        match ← cl.pullReplies node params replyMaxPackets (batch.map fun _ => none) reports with
        | (.error e, reports) => pure (.error e, c, reports)
        | (.ok staged, reports) =>
          if staged.any Option.isNone then pure (.error .EBADMSG, c, reports)
          else if ← perform .tableLock then
            pure (.ok ⟨count, h⟩, storeBatch batch staged c, reports)
          else pure (.error .ETIMEDOUT, c, reports)
    else pure (.error .EMSGSIZE, c, reports)

/-- The batches of a window. -/
def pullWindow (node : UInt16) (slots : List ℕ) (c : Cache) (reports : Reports) :
    Program (Option Errno × Cache × Reports) :=
  if _h : slots = [] then pure (none, c, reports)
  else do
    match ← cl.pullRemoteBatch node slots c reports with
    | (.error e, c, reports) => pure (some e, c, reports)
    | (.ok consumed, c, reports) => pullWindow node (slots.drop consumed.1) c reports
termination_by slots.length
decreasing_by
  have hpos := List.length_pos_of_ne_nil ‹_›
  rw [List.length_drop]
  exact Nat.sub_lt hpos consumed.2

/-- The names of a window, one after the other. -/
def resolveNames (node : UInt16) :
    List (Option CString) → Cache → Program (Except Errno (List ℕ) × Cache)
  | [], c => pure (.ok [], c)
  | none :: _, c => pure (.error .EINVAL, c)
  | some name :: names, c => do
    match ← cl.findRemote node name c with
    | (.error e, c) => pure (.error e, c)
    | (.ok slot, c) =>
      match ← resolveNames node names c with
      | (.error e, c) => pure (.error e, c)
      | (.ok slots, c) => pure (.ok (slot :: slots), c)

/-- The values of some slots, up to one that cannot be read. -/
def readSlots (c : Cache) : List ℕ → List Value × Option Errno
  | [] => ([], none)
  | slot :: slots =>
    match readScalar cl.cfg (c.pool slot) with
    | .error e => ([], some e)
    | .ok value => (value :: (readSlots c slots).1, (readSlots c slots).2)

/-- One turn of the loop of `get_many`. -/
def getWindow (node : UInt16) (names : List (Option CString)) (c : Cache) (reports : Reports) :
    Program (Option Errno × List Value × Cache × Reports) := do
  match ← cl.resolveNames node names c with
  | (.error e, c) => pure (some e, [], c, reports)
  | (.ok slots, c) =>
    match ← cl.pullWindow node slots c reports with
    | (some e, c, reports) => pure (some e, [], c, reports)
    | (none, c, reports) =>
      if ← perform .tableLock then
        let (values, result) := cl.readSlots c slots
        pure (result, values, c, reports)
      else pure (some .ETIMEDOUT, [], c, reports)

/-- The loop of `get_many`. -/
def getWindows (node : UInt16) (names : List (Option CString)) (values : List Value) (c : Cache)
    (reports : Reports) : Program (Option Errno × List Value × Cache × Reports) :=
  if _h : names = [] then pure (none, values, c, reports)
  else do
    match ← cl.getWindow node (names.take remoteBatchMax) c reports with
    | (some e, read, c, reports) => pure (some e, values ++ read, c, reports)
    | (none, read, c, reports) =>
      getWindows node (names.drop remoteBatchMax) (values ++ read) c reports
termination_by names.length
decreasing_by
  have hpos := List.length_pos_of_ne_nil ‹_›
  rw [List.length_drop]
  exact Nat.sub_lt hpos (by decide)

/-- `get_many`; `values` says that the array is not NULL. -/
def getMany (node : UInt16) (names : Option (List (Option CString))) (values : Bool)
    (c : Cache) : Program (Option Errno × List Value × Cache × Reports) :=
  match names, values with
  | some names, true => cl.getWindows node names [] c []
  | _, _ => pure (some .EINVAL, [], c, [])

/-- `push_remote`. -/
def pushRemote (node : UInt16) (param : Descriptor) (value : Value) : Program (Option Errno) := do
  if !(← perform .buffer) then pure (some .ENOMEM)
  else
    match cl.push param value with
    | none => pure (some .EMSGSIZE)
    | some queue =>
      if !(← perform (.connect node .values)) then pure (some .ECONNREFUSED)
      else
        perform (.send (cl.code .pushRequestV2 :: 0 :: queue))
        if ← perform .time then
          match ← perform .read with
          | none => pure (some .ETIMEDOUT)
          | some packet =>
            if packet.length ≥ 2 ∧ cl.kind (packet.getD 0 0) = .pushResponse ∧
                packet.getD 1 0 &&& cl.flagEnd ≠ 0 then pure none
            else pure (some .EBADMSG)
        else pure (some .ETIMEDOUT)

/-- `set_remote`. -/
def setRemote (node : UInt16) (name : Option CString) (value : Option Value) (c : Cache) :
    Program (Option Errno × Cache) :=
  match name, value with
  | some name, some value => do
    match ← cl.findRemote node name c with
    | (.error e, c) => pure (some e, c)
    | (.ok slot, c) =>
      let param := (c.pool slot).param
      if !(← perform .tableLock) then pure (some .ETIMEDOUT, c)
      else if param.mask &&& cl.transfer.readOnly ≠ 0 then pure (some .EACCES, c)
      else
        match validateScalar param value with
        | some e => pure (some e, c)
        | none =>
          match ← cl.pushRemote node param value with
          | some e => pure (some e, c)
          | none =>
            if ← perform .tableLock then
              pure (none, c.store slot (storeRemoteValue param value (c.pool slot).cells))
            else pure (some .ETIMEDOUT, c)
  | _, _ => pure (some .EINVAL, c)

/-! ### The calls of the interface -/

/-- `kfsw_param_remote_get_many`. -/
def remoteGetMany (node : UInt16) (names : Option (List (Option CString))) (values : Bool)
    (c : Cache) : Program (Option Errno × List Value × Cache × Reports) := do
  if !(← perform .time) then pure (some .ETIMEDOUT, [], c, [])
  else if ← perform .remoteLock then cl.getMany node names values c
  else pure (some .ETIMEDOUT, [], c, [])

/-- `kfsw_param_remote_get`. -/
def remoteGet (node : UInt16) (name : Option CString) (value : Bool) (c : Cache) :
    Program (Option Errno × List Value × Cache × Reports) :=
  cl.remoteGetMany node (some [name]) value c

/-- `kfsw_param_remote_set`. -/
def remoteSet (node : UInt16) (name : Option CString) (value : Option Value) (c : Cache) :
    Program (Option Errno × Cache) := do
  if ← perform .remoteLock then cl.setRemote node name value c
  else pure (some .ETIMEDOUT, c)

/-- `kfsw_param_remote_refresh`. -/
def remoteRefresh (node : UInt16) (c : Cache) : Program (Option Errno × Cache) := do
  if ← perform .remoteLock then cl.refreshTable node 0 true c
  else pure (some .ETIMEDOUT, c)

end Client

end KfswServices.Param
