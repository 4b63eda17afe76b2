/-
# Commands over CSP

`src/command/command_csp.c`: the server's `serve_request` and the client's
`invoke_remote`, on packet bytes.

The client's two nested loops, phases outside and attempts inside, are cut at
each `exchange`: `Pending` is a call between two of them, and `Pending.settle`
is what the loops do with the outcome of one.  The network between the two
sides is in `KfswServices.Command.RemoteRun`.
-/

import KfswServices.Command.Retry

namespace KfswServices.Command

variable {ω : Type*}

/-- The buffer one encoded message is written to. -/
abbrev bufferSize : ℕ := retryHeaderSize + maxPayloadSize

/-- `send_result`, up to the packet it sends; an error sends none. -/
def sendResult (request : Message) (token : UInt64) (result : Result) :
    Except Errno (List UInt8) :=
  protocolEncode bufferSize
    { version := request.version
      token := token
      opcode := if request.opcode = Opcode.PREPARE.toByte then Opcode.TICKET.toByte
        else Opcode.RESULT.toByte
      status := result.status.toByte
      argCount := 0
      commandId := request.commandId
      requestId := request.requestId
      payload := result.detail.text.bytes }

/-- What `serve_request` leaves: the cache, the node, the packet it sends, and
its call of `kfsw_command_invoke_id`. -/
structure Reply (ω : Type*) where
  cache : RetryCache
  node : Node ω
  packet : Except Errno (List UInt8)
  invoked : Option (Invocation ω)

/-- `serve_request` on the packet `bytes` from `source`, built with
`CONFIG_KFSW_COMMAND_RETRY`.  `fresh` is what `kfsw_command_retry_random` leaves,
0 when it fails. -/
def serveRequest (self : Tid) (window : ℕ) (cache : RetryCache) (source : UInt16)
    (bytes : List UInt8) (fresh : UInt64) (now : ℤ) (node : Node ω) : Reply ω :=
  let invalid : Result := { Result.zero with status := .INVALID_ARGUMENT }
  match protocolDecode bytes with
  | .error _ => ⟨cache, node, sendResult Message.zero 0 invalid, none⟩
  | .ok request =>
    if request.version = 2 then
      let reply := retryDispatch self window cache source request
        (if request.opcode = Opcode.PREPARE.toByte then fresh else 0) now node
      ⟨reply.cache, reply.node, sendResult request reply.ticket reply.result, reply.invoked⟩
    else if request.opcode ≠ Opcode.REQUEST.toByte ∨ request.status ≠ 0 then
      ⟨cache, node, sendResult request request.token invalid, none⟩
    else
      match decodeArgs request with
      | .error _ => ⟨cache, node, sendResult request request.token invalid, none⟩
      | .ok args =>
        let d := invokeId self request.commandId args ⟨source, false, true⟩ node
        ⟨cache, d.node, sendResult request request.token d.result,
          some ⟨request.commandId, args, d⟩⟩

/-- The detail `receive_result` copies out of a payload, read as a string. -/
def Detail.receive (payload : List UInt8) : Detail where
  text := ⟨(payload.take (maxDetailSize - 1)).takeWhile (· ≠ 0), fun h => by
    simpa using List.mem_takeWhile_imp h⟩
  fits := by
    refine Nat.lt_of_le_of_lt (List.IsPrefix.length_le (List.takeWhile_prefix _)) ?_
    exact Nat.lt_of_le_of_lt (List.length_take_le _ _) (by decide)

/-- The opcode and version `receive_result` waits for. -/
def Message.answerOpcode (request : Message) : UInt8 :=
  if request.opcode = Opcode.PREPARE.toByte then Opcode.TICKET.toByte else Opcode.RESULT.toByte

/-- The reply is one `receive_result` takes for an answer to the request. -/
def Answers (request response : Message) : Prop :=
  response.version = request.wireVersion ∧ response.opcode = request.answerOpcode ∧
    response.commandId = request.commandId ∧ response.requestId = request.requestId ∧
    response.argCount = 0 ∧
    (request.wireVersion = 2 → response.token ≠ 0 ∧
      (request.opcode = Opcode.EXECUTE.toByte → response.token = request.token))

instance (request response : Message) : Decidable (Answers request response) :=
  inferInstanceAs (Decidable (_ ∧ _))

/-- `receive_result` on the packet it read: the token and the result. -/
def receiveResult (request : Message) (bytes : List UInt8) : Except Errno (UInt64 × Result) :=
  match protocolDecode bytes with
  | .error _ => .error .EBADMSG
  | .ok response =>
    if Answers request response then
      match Status.ofByte response.status with
      | none => .error .EBADMSG
      | some status => .ok (response.token, ⟨status, .receive response.payload⟩)
    else .error .EBADMSG

/-- `struct kfsw_csp_info`, as `invoke_remote` reads it, and the first address
that is no node's, `KFSW_CSP_BROADCAST_ADDRESS`. -/
structure CspInfo where
  address : UInt16
  broadcast : UInt16
  initialized : Bool
  routerRunning : Bool

/-- The arguments of `invoke_remote`; the name may be NULL. -/
structure RemoteCall where
  node : UInt16
  name : Option CString
  args : List Arg
  retry : Bool

/-- A call of `invoke_remote` inside its loops: the request, its encoding, the
attempts of this phase made so far, and the locals `token` and `*result`. -/
structure Pending where
  node : UInt16
  retry : Bool
  request : Message
  buffer : List UInt8
  attempt : ℕ
  token : UInt64
  result : Result

/-- Where a step of `invoke_remote` leaves the call. -/
inductive Progress
  /-- Before the next `exchange`. -/
  | pending (p : Pending)
  /-- Returned, with what `*result` then holds. -/
  | returned (outcome : Option Errno) (result : Result)

/-- Enter a phase: encode the request. -/
def enterPhase (p : Pending) : Progress :=
  match protocolEncode bufferSize p.request with
  | .error e => .returned (some e) p.result
  | .ok buffer => .pending { p with buffer := buffer, attempt := 0 }

/-- `invoke_remote` up to its first phase, once it holds `command_client_lock`.
`random` is the outcome of `kfsw_command_retry_random`.  The request id moves on
as soon as the arguments are encoded, also when the call then ends. -/
def openCall (home : Node ω) (nextRequestId : UInt16) (name : CString) (c : RemoteCall)
    (random : Except Errno UInt64) : UInt16 × Progress :=
  let unavailable : Result := ⟨.UNAVAILABLE, .empty⟩
  match lookupId home name with
  | .error e => (nextRequestId, .returned (some e) unavailable)
  | .ok commandId =>
    match encodeArgs maxPayloadSize c.args with
    | .error e => (nextRequestId, .returned (some e) unavailable)
    | .ok payload =>
      let requestId := nextRequestId + 1
      let request : Message :=
        ⟨0, 0, Opcode.REQUEST.toByte, 0, UInt8.ofNat c.args.length, commandId, requestId, payload⟩
      if c.retry then
        match random with
        | .error e => (requestId, .returned (some e) unavailable)
        | .ok nonce =>
          (requestId, enterPhase ⟨c.node, true,
            { request with version := 2, opcode := Opcode.PREPARE.toByte, token := nonce }, [], 0,
            0, unavailable⟩)
      else (requestId, enterPhase ⟨c.node, false, request, [], 0, 0, unavailable⟩)

/-- `invoke_remote` before it takes the lock: an error it returns at once.  A call
to the own address is a local one and is not looked at here. -/
def refuseCall (csp : CspInfo) (c : RemoteCall) : Option Errno :=
  if c.name = none ∨ c.node = 0 ∨ csp.broadcast ≤ c.node then some .EINVAL
  else if !csp.initialized || !csp.routerRunning then some .EACCES
  else none

/-- The attempts a phase makes. -/
def Pending.attempts (p : Pending) : ℕ := if p.retry then 3 else 1

/-- The request of the next phase. -/
def Pending.executePhase (p : Pending) : Pending :=
  { p with request := { p.request with opcode := Opcode.EXECUTE.toByte, token := p.token } }

/-- What the loops do with an `exchange` that failed. -/
def Pending.failed (p : Pending) (e : Errno) : Progress :=
  if (e = .ETIMEDOUT ∨ e = .ECONNREFUSED) ∧ p.attempt + 1 < p.attempts then
    .pending { p with attempt := p.attempt + 1 }
  else .returned (some e) p.result

/-- What the loops do with an `exchange` that returned 0. -/
def Pending.answered (p : Pending) (token : UInt64) (result : Result) : Progress :=
  let p := { p with token := token, result := result }
  if result.status ≠ .OK then .returned none result
  else if p.retry ∧ p.request.opcode = Opcode.PREPARE.toByte then enterPhase p.executePhase
  else .returned none result

/-- An `exchange` whose connection was made, with the packet read on it, none
when the read timed out. -/
def Pending.settle (p : Pending) (packet : Option (List UInt8)) : Progress :=
  match packet with
  | none => p.failed .ETIMEDOUT
  | some bytes =>
    match receiveResult p.request bytes with
    | .error e => p.failed e
    | .ok (token, result) => p.answered token result

/-! ### What crosses the wire -/

/-- A detail survives the wire. -/
@[simp] theorem Detail.receive_bytes (d : Detail) : Detail.receive d.text.bytes = d := by
  obtain ⟨⟨bytes, hz⟩, hfits⟩ := d
  have htake : bytes.take (maxDetailSize - 1) = bytes :=
    List.take_of_length_le (Nat.le_sub_one_of_lt hfits)
  have hwhile : bytes.takeWhile (· ≠ 0) = bytes :=
    List.takeWhile_eq_self_iff.2 fun x hx => by
      simp only [ne_eq, decide_not, Bool.not_eq_true', decide_eq_false_iff_not]
      rintro rfl
      exact hz hx
  rw [Detail.receive, Detail.mk.injEq, CString.mk.injEq]
  change (bytes.take (maxDetailSize - 1)).takeWhile (· ≠ 0) = bytes
  rw [htake, hwhile]

variable {result : Result} {bytes : List UInt8}

/-- What `send_result` answers a version 2 request with, as it is decoded. -/
theorem protocolDecode_sendResult {request : Message} {token : UInt64}
    (h : sendResult request token result = .ok bytes) (hv : request.version = 2) :
    protocolDecode bytes = .ok ⟨2, token, request.answerOpcode, result.status.toByte, 0,
      request.commandId, request.requestId, result.detail.text.bytes⟩ := by
  have hlegal : legalOpcode 2 request.answerOpcode := by
    unfold Message.answerOpcode
    split_ifs <;> decide
  have hwire : ∀ t o st a c r p, Message.wireVersion ⟨2, t, o, st, a, c, r, p⟩ = 2 := by
    intros
    rfl
  unfold sendResult at h
  rw [hv] at h
  rw [protocolDecode_encode h (by rw [hwire]; exact hlegal) (by rw [hwire]; simp)]
  rfl

/-- A request of version 2 survives the wire. -/
theorem protocolDecode_request {m : Message} (h : protocolEncode bufferSize m = .ok bytes)
    (hv : m.version = 2) (hop : legalOpcode 2 m.opcode) : protocolDecode bytes = .ok m := by
  have hwire : m.wireVersion = 2 := by rw [Message.wireVersion, hv]; rfl
  rw [protocolDecode_encode h (hwire ▸ hop) (by simp [hwire]), hwire, ← hv]

/-- What `receive_result` accepts, and what it takes out of it. -/
theorem receiveResult_eq_ok {request : Message} {token : UInt64}
    (h : receiveResult request bytes = .ok (token, result)) :
    ∃ response, protocolDecode bytes = .ok response ∧ Answers request response ∧
      response.token = token ∧ Status.ofByte response.status = some result.status ∧
      Detail.receive response.payload = result.detail := by
  unfold receiveResult at h
  split at h
  · cases h
  · next response hdec =>
    split at h
    · next hans =>
      split at h
      · cases h
      · next status hst =>
        cases h
        exact ⟨response, hdec, hans, rfl, hst, rfl⟩
    · cases h

/-- An answer of the server, read by the client that waits for it. -/
theorem receiveResult_sendResult {request sent : Message} {token ticket : UInt64}
    {answer : Result} (hs : sendResult sent ticket answer = .ok bytes) (hv : sent.version = 2)
    (hr : receiveResult request bytes = .ok (token, result)) :
    result = answer ∧ token = ticket ∧ request.answerOpcode = sent.answerOpcode ∧
      request.commandId = sent.commandId ∧ request.requestId = sent.requestId ∧
      (request.wireVersion = 2 → token ≠ 0 ∧
        (request.opcode = Opcode.EXECUTE.toByte → token = request.token)) := by
  obtain ⟨response, hdec, ⟨-, hop, hcmd, hreq, -, htok⟩, rfl, hst, hdet⟩ := receiveResult_eq_ok hr
  rw [protocolDecode_sendResult hs hv] at hdec
  obtain rfl := Except.ok.inj hdec
  simp only [Status.ofByte_toByte, Option.some.injEq, Detail.receive_bytes] at hst hdet
  refine ⟨?_, rfl, hop.symm, hcmd.symm, hreq.symm, htok⟩
  cases result
  cases answer
  simp_all

/-- A phase is entered with the request encoded and no attempt made. -/
theorem enterPhase_eq_pending {p q : Pending} (h : enterPhase p = .pending q) :
    ∃ buffer, protocolEncode bufferSize p.request = .ok buffer ∧
      q = { p with buffer := buffer, attempt := 0 } := by
  unfold enterPhase at h
  split at h
  · cases h
  · next buffer hb =>
    cases h
    exact ⟨buffer, hb, rfl⟩

theorem enterPhase_eq_returned {p : Pending} {outcome : Option Errno}
    (h : enterPhase p = .returned outcome result) : outcome ≠ none := by
  unfold enterPhase at h
  split at h
  · cases h
    simp
  · cases h

end KfswServices.Command
