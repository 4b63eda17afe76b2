/-
# The parameters of other nodes

The client side of `src/parameter/parameter_csp.c`: a cache of descriptors of one remote node, which
is filled with the node's list (`refreshTable`) or one name at a time (`lookupRemote`), and the
calls that read and write values with it.  What a function asks of the link, of the locks and of the
clock is a call of its program; what it does to the cache is passed on.

The descriptors are in libparam's pool, whose slots are handed out in order and, after
`param_list_destroy`, again from the first: `cached[i]` is the slot `i`, and a pointer into the pool
is the number of its slot.  A slot keeps what it holds until it is handed out again.
-/

import KfswServices.Library.Program
import KfswServices.Param.List
import KfswServices.Param.Push

namespace KfswServices.Param

open Library

deriving instance DecidableEq for Value

/-- What `validate_remote_node` looks at. -/
structure LinkInfo where
  paramInitialized : Bool
  cspInitialized : Bool
  routerRunning : Bool
  address : UInt16
  hostBits : ℕ

/-- `CONFIG_KFSW_PARAM_LIST_PORT` and `CONFIG_KFSW_PARAM_PORT`. -/
inductive Port
  | list | values

/-- What the client asks of its surroundings: the state of CSP, the two locks, whether there is time
left, and the link. -/
inductive Call
  | info
  | remoteLock
  | tableLock
  | time
  | connect (node : UInt16) (port : Port)
  | buffer
  | send (data : List UInt8)
  | read

/-- What it is answered. -/
abbrev Answer : Call → Type
  | .info => LinkInfo
  | .remoteLock => Bool
  | .tableLock => Bool
  | .time => Bool
  | .connect _ _ => Bool
  | .buffer => Bool
  | .send _ => Unit
  | .read => Option (List UInt8)

abbrev Program (α : Type) := Prog Answer α

abbrev perform (c : Call) : Program (Answer c) := Prog.perform c

/-- A slot of the pool: a descriptor and its value. -/
structure Slot where
  param : Descriptor
  cells : Cells

/-- `cached_node`, `cache_complete`, the pool behind `cached`, `cached_count`, `cached_linked`. -/
structure Cache where
  node : UInt16
  complete : Bool
  pool : ℕ → Slot
  count : ℕ
  linked : ℕ

/-- The build of the client, and what it uses of libparam. -/
structure Client (ρ κ : Type) where
  mpack : Mpack ρ κ
  transfer : Transfer
  cfg : Config
  /-- `CONFIG_KFSW_PARAM_REMOTE_POOL_SIZE`. -/
  poolSize : ℕ
  poolSize_range : 5 ≤ poolSize ∧ poolSize ≤ 512
  kind : UInt8 → PacketKind
  code : PacketKind → UInt8
  /-- `PARAM_FLAG_END`. -/
  flagEnd : UInt8
  /-- The value of a parameter that `param_list_create_remote` has made. -/
  blank : Descriptor → Cells
  /-- The queue after `param_queue_add` of some parameters to read, while they fit. -/
  pull : List Descriptor → Option (List UInt8)
  /-- The queue after `param_queue_add` of a parameter to write. -/
  push : Descriptor → Value → Option (List UInt8)

/-! ### The cache -/

namespace Cache

/-- The descriptors that are cached. -/
def params (c : Cache) : List Descriptor := (List.range c.count).map fun i => (c.pool i).param

/-- `clear_remote_cache`. -/
def clear (c : Cache) : Cache := { c with node := 0, complete := false, count := 0, linked := 0 }

/-- A descriptor with that name. -/
def findName (c : Cache) (name : CString) : Option ℕ :=
  (List.range c.count).find? fun i => (c.pool i).param.name = name

/-- Whether the identifier or the name of a descriptor is cached. -/
def duplicate (c : Cache) (param : Descriptor) : Bool :=
  c.params.any fun p => p.id = param.id || p.name = param.name

/-- A value is put into a slot. -/
def store (c : Cache) (slot : ℕ) (cells : Cells) : Cache :=
  { c with pool := Function.update c.pool slot { c.pool slot with cells := cells } }

end Cache

namespace Client

variable {ρ κ : Type} (cl : Client ρ κ)

/-- `param_list_create_remote`, and the entry in `cached`. -/
def create (param : Descriptor) (c : Cache) : Option Cache :=
  if c.count < cl.poolSize then
    some { c with
      pool := Function.update c.pool c.count ⟨param, cl.blank param⟩
      count := c.count + 1 }
  else none

/-! ### The list -/

/-- `validate_remote_node`. -/
def validateRemoteNode (node : UInt16) : Program (Option Errno) := do
  let info ← perform .info
  if !info.paramInitialized || !info.cspInitialized || !info.routerRunning then
    pure (some .EACCES)
  else if node = info.address ∨ node.toNat ≥ 2 ^ info.hostBits then pure (some .EINVAL)
  else pure none

/-- A request on a connection of its own, and the first packet that comes back. -/
def exchange (node : UInt16) (request : List UInt8) :
    Program (Except Errno (Option (List UInt8))) := do
  if !(← perform .time) then pure (.error .ETIMEDOUT)
  else if !(← perform (.connect node .list)) then pure (.error .ECONNREFUSED)
  else if !(← perform .buffer) then pure (.error .ENOMEM)
  else
    perform (.send request)
    if ← perform .time then
      let packet ← perform .read
      pure (.ok packet)
    else pure (.ok none)

/-- What `refresh_table` makes of a reply. -/
inductive Turn
  | stop (e : Errno)
  | done
  | next (total : UInt16) (crc receivedCrc : UInt32) (c : Cache)

/-- A reply, in the loop of `refresh_table`. -/
def takeReply (node : UInt16) (table : UInt8) (index : ℕ) (total : UInt16)
    (crc receivedCrc : UInt32) (c : Cache) (packet : List UInt8) : Turn :=
  if packet.length < listReplyHeader ∨ packet.getD 0 0 ≠ listVersion table then .stop .EBADMSG
  else
    let offered := getBe16 (packet.drop 4)
    let fingerprint := getBe32 (packet.drop 6)
    let status := packet.getD 1 0
    let total := if index = 0 then offered else total
    let crc := if index = 0 then fingerprint else crc
    if getBe16 (packet.drop 2) ≠ UInt16.ofNat index ∨ offered ≠ total ∨ fingerprint ≠ crc ∨
        total.toNat > cl.poolSize then .stop .EBADMSG
    else if status = listEnd ∧ index = total.toNat ∧ packet.length = listReplyHeader ∧
        receivedCrc = crc then .done
    else
      let data := packet.drop listReplyHeader
      if status ≠ listItem ∨ index ≥ total.toNat ∨ cl.transfer.validateDescriptor data ≠ none then
        .stop .EBADMSG
      else
        let receivedCrc := crc32Update receivedCrc data
        let param := cl.transfer.descriptor node data
        if c.duplicate param then .stop .EBADMSG
        else
          match cl.create param c with
          | none => .stop .ENOSPC
          | some c => .next total crc receivedCrc c

/-- The loop of `refresh_table`, for as many turns. -/
def refreshLoop (node : UInt16) (table : UInt8) :
    ℕ → ℕ → UInt16 → UInt32 → UInt32 → Cache → Program (Option Errno × Cache)
  | 0, _, _, _, _, c => pure (some .EBADMSG, c.clear)
  | turns + 1, index, total, crc, receivedCrc, c => do
    match ← exchange node (listRequest table (UInt16.ofNat index) crc) with
    | .error e => pure (some e, c.clear)
    | .ok none => pure (some .ETIMEDOUT, c.clear)
    | .ok (some packet) =>
      match cl.takeReply node table index total crc receivedCrc c packet with
      | .stop e => pure (some e, c.clear)
      | .done =>
        if ← perform .tableLock then
          pure (none, { c with linked := c.count, complete := table = 0 })
        else pure (some .ETIMEDOUT, c.clear)
      | .next total crc receivedCrc c =>
        refreshLoop node table turns (index + 1) total crc receivedCrc c

/-- `refresh_table`. -/
def refreshTable (node : UInt16) (table : UInt8) (force : Bool) (c : Cache) :
    Program (Option Errno × Cache) := do
  match ← validateRemoteNode node with
  | some e => pure (some e, c)
  | none =>
    if node = 0 then pure (some .EINVAL, c)
    else if force = false ∧ table = 0 ∧ c.complete = true ∧ c.node = node then pure (none, c)
    else if ← perform .tableLock then
      cl.refreshLoop node table (cl.poolSize + 1) 0 0 0 0 { c.clear with node := node }
    else pure (some .ETIMEDOUT, c)

/-! ### One name -/

/-- `stage_remote_descriptor`. -/
def stageRemoteDescriptor (node : UInt16) (data : List UInt8) (c : Cache) :
    Program (Option Errno × Cache) := do
  if c.count ≥ cl.poolSize then pure (some .ENOSPC, c)
  else if ← perform .tableLock then
    let c := if c.node ≠ node then { c.clear with node := node } else c
    let param := cl.transfer.descriptor node data
    if c.duplicate param then pure (some .EEXIST, c)
    else
      match cl.create param c with
      | none => pure (some .ENOSPC, c)
      | some c => pure (none, { c with linked := c.count })
  else pure (some .ETIMEDOUT, c)

/-- A reply, in `lookup_remote`: why it does not help, or the descriptor in it. -/
def lookupReply (name : CString) (packet : List UInt8) : Except Errno (List UInt8) :=
  if packet.length ≥ 2 ∧ packet.getD 0 0 = listLookupVersion then
    if packet.getD 1 0 = listEnd then .error .ENOENT
    else if packet.getD 1 0 = listItem then
      let data := packet.drop 2
      match cl.transfer.validateDescriptor data with
      | some e => .error e
      | none =>
        if CString.scan (cl.transfer.fields data).name ≠ name then .error .EBADMSG else .ok data
    else .error .EBADMSG
  else .error .EBADMSG

/-- `lookup_remote`. -/
def lookupRemote (node : UInt16) (name : CString) (c : Cache) :
    Program (Option Errno × Cache) := do
  if name.length = 0 ∨ name.length > nameMax then pure (some .EINVAL, c)
  else
    match ← validateRemoteNode node with
    | some e => pure (some e, c)
    | none =>
      if node = 0 then pure (some .EINVAL, c)
      else if c.count ≥ cl.poolSize then pure (some .ENOSPC, c)
      else
        match ← exchange node (listLookupVersion :: name.bytes) with
        | .error e => pure (some e, c)
        | .ok none => pure (some .ENOTSUP, c)
        | .ok (some packet) =>
          match cl.lookupReply name packet with
          | .error e => pure (some e, c)
          | .ok data => cl.stageRemoteDescriptor node data c

/-- What `find_remote` finds in the cache. -/
def findCached (name : CString) (c : Cache) : Except Errno ℕ :=
  match c.findName name with
  | some slot => .ok slot
  | none => .error .ENOENT

/-- `find_remote`. -/
def findRemote (node : UInt16) (name : CString) (c : Cache) :
    Program (Except Errno ℕ × Cache) := do
  if c.node = node ∧ ((c.findName name).isSome ∨ c.complete = true) then
    pure (findCached name c, c)
  else
    match ← cl.lookupRemote node name c with
    | (none, c) => pure (.ok (c.count - 1), c)
    | (some .ENOTSUP, c) =>
      match ← cl.refreshTable node 0 false c with
      | (some e, c) => pure (.error e, c)
      | (none, c) => pure (findCached name c, c)
    | (some e, c) => pure (.error e, c)

/-! ### A node that answers -/

/-- A link on which everything is there in time, to a node that answers requests as `serve` says.
The state is the last request. -/
def answering (info : LinkInfo) (serve : List UInt8 → Option (List UInt8)) :
    (o : Call) → List UInt8 → Answer o × List UInt8
  | .info, request => (info, request)
  | .remoteLock, request | .tableLock, request | .time, request | .connect _ _, request
  | .buffer, request => (true, request)
  | .send data, _ => ((), data)
  | .read, request => (serve request, request)

theorem exchange_answering (info : LinkInfo) (serve : List UInt8 → Option (List UInt8))
    (node : UInt16) (request last : List UInt8) :
    ((exchange node request).exec (answering info serve) last).2 =
      (.ok (serve request), request) := rfl

end Client

/-! ### A client for packets of small integers -/

/-- A client that has room for five descriptors. -/
def smallClient : Client (List UInt8 × Bool) Unit where
  mpack := smallMpack
  transfer := packedTransfer
  cfg := smallBuild
  poolSize := 5
  poolSize_range := by decide
  kind b := if b = 7 then .pullResponseV2 else .other
  code _ := 6
  flagEnd := 0x80
  blank _ _ := 0
  pull params := some (params.flatMap fun param => putBe16 param.id)
  push param value := some (putBe16 param.id ++ value.bytes)

/-- A parameter of one byte. -/
def byteParam (id : UInt16) (name : String) : Descriptor :=
  ⟨0, id, .U8, 1, 0, CString.ofString name, none⟩

/-- A link to other nodes. -/
def farLink : LinkInfo := ⟨true, true, true, 1, 5⟩

/-- The cache at the start. -/
def Cache.start : Cache := ⟨0, false, fun _ => ⟨byteDescriptor, fun _ => 0⟩, 0, 0⟩

end KfswServices.Param
