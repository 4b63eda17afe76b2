/-
# A ticketed call, end to end

A client, a server and the network between them.  The client makes any calls of
`invoke_remote`, one after the other as `command_client_lock` has it; the server
takes packets from anywhere.  What was sent stays in the network for good and may be
delivered at any time, so that packets are lost, duplicated, reordered and delayed.
Nonces and tickets never repeat.

Each packet carries, for the statements only, the number of the call it belongs
to; neither side reads it.

A TICKET reply is matched to its PREPARE by command and request id alone, and the
request id has 16 bits.  So the two halves of the result differ: a call never
runs its command twice, and a call that reports success ran it once unless a
TICKET of an older call, 65536 calls back, was taken for its own.
-/

import KfswServices.Command.Remote
import KfswServices.Command.RetryRun

namespace KfswServices.Command

open Library

variable {ω : Type*}

/-- What stays the same in a run: the client's CSP state and registry, the
server's address, its thread and its configuration. -/
structure Setup (ω : Type*) where
  csp : CspInfo
  home : Node ω
  server : UInt16
  /-- The server is another node, so calls to it are remote. -/
  remote : server ≠ csp.address
  self : Tid
  window : ℕ
  slots : ℕ

/-- A packet between client and server, and the call it belongs to. -/
structure Packet where
  bytes : List UInt8
  call : ℕ

/-- A call as it was made, and its first request if it came to one. -/
structure CallRecord where
  call : RemoteCall
  first : Option Message

/-- What a call returned. -/
structure Return where
  call : ℕ
  outcome : Option Errno
  result : Result

/-- A packet the server served: the call it belongs to, none for another node's;
the ticketed part of serving it; and the handler run. -/
structure Handled (ω : Type*) where
  call : Option ℕ
  ticketed : Option (Served ω)
  ran : Option HandlerRun

/-- Client, network and server, and what has happened so far. -/
structure Link (ω : Type*) where
  nextRequestId : UInt16
  /-- The call inside its loops, with its number. -/
  pending : Option (ℕ × Pending)
  /-- Its packet is out, and it waits for a reply. -/
  waiting : Bool
  requests : List Packet
  replies : List Packet
  cache : RetryCache
  calls : List CallRecord
  returns : List Return
  log : List (Handled ω)

namespace Link

/-- Before the first call. -/
def boot (cfg : Setup ω) : Link ω :=
  ⟨0, none, false, [], [], RetryCache.empty cfg.slots, [], [], []⟩

/-- Where the loops of call `id` go on. -/
def advance (s : Link ω) (id : ℕ) : Progress → Link ω
  | .pending p => { s with pending := some (id, p), waiting := false }
  | .returned outcome result =>
    { s with pending := none, waiting := false, returns := s.returns ++ [⟨id, outcome, result⟩] }

/-- A call has been opened: it gets the next number. -/
def place (s : Link ω) (c : RemoteCall) (nextRequestId : UInt16) (progress : Progress)
    (first : Option Message) : Link ω :=
  { s with nextRequestId := nextRequestId, calls := s.calls ++ [CallRecord.mk c first] }.advance
    s.calls.length progress

/-- The ticketed calls the server served, in order. -/
def served (s : Link ω) : List (Served ω) := s.log.filterMap (·.ticketed)

/-- The handler runs that packets of call `id` caused. -/
def runs (s : Link ω) (id : ℕ) : List HandlerRun :=
  (s.log.filter (·.call = some id)).filterMap (·.ran)

end Link

/-- The first request of a call that came to its loops. -/
def Progress.request : Progress → Option Message
  | .pending p => some p.request
  | .returned _ _ => none

/-- The call of `kfsw_command_retry_dispatch` in `serve_request`, if it comes to
one. -/
def ticketedPart (cfg : Setup ω) (cache : RetryCache) (source : UInt16) (bytes : List UInt8)
    (fresh : UInt64) (now : ℤ) (node : Node ω) : Option (Served ω) :=
  match protocolDecode bytes with
  | .error _ => none
  | .ok request =>
    if request.version = 2 then
      let newTicket := if request.opcode = Opcode.PREPARE.toByte then fresh else 0
      some ⟨⟨source, request, newTicket, now, node⟩,
        retryDispatch cfg.self cfg.window cache source request newTicket now node⟩
    else none

/-- What happens. -/
inductive LinkEvent (ω : Type*)
  /-- A call to the server gets the client lock. -/
  | call (c : RemoteCall) (random : Except Errno UInt64)
  /-- A call to another node comes and goes; it uses up a request id. -/
  | elsewhere
  /-- No connection, or no buffer. -/
  | refused (e : Errno)
  /-- A request goes out. -/
  | send
  /-- A reply arrives. -/
  | receive (packet : Packet)
  /-- No reply arrives in time. -/
  | timeout
  /-- A request of the client arrives at the server. -/
  | serve (packet : Packet) (fresh : UInt64) (now : ℤ) (node : Node ω)
  /-- A packet of another node arrives at the server. -/
  | serveOther (source : UInt16) (bytes : List UInt8) (fresh : UInt64) (now : ℤ) (node : Node ω)

/-- One step of client, network or server. -/
inductive LinkStep (cfg : Setup ω) : Link ω → LinkEvent ω → Link ω → Prop
  | call {s : Link ω} {name : CString} {c : RemoteCall} {random : Except Errno UInt64}
      {nextRequestId : UInt16} {progress : Progress} (hidle : s.pending = none)
      (hname : c.name = some name) (hnode : c.node = cfg.server)
      (hcsp : refuseCall cfg.csp c = none)
      (hnonce : ∀ nonce, random = .ok nonce → nonce ≠ 0 ∧
        ∀ r ∈ s.calls, r.call.retry = true → ∀ m, r.first = some m → m.token ≠ nonce)
      (hopen : openCall cfg.home s.nextRequestId name c random = (nextRequestId, progress)) :
      LinkStep cfg s (.call c random)
        (s.place c nextRequestId progress progress.request)
  | elsewhere {s : Link ω} (hidle : s.pending = none) :
      LinkStep cfg s .elsewhere { s with nextRequestId := s.nextRequestId + 1 }
  | refused {s : Link ω} {id : ℕ} {p : Pending} {e : Errno} (hp : s.pending = some (id, p))
      (hw : s.waiting = false) (he : e = .ECONNREFUSED ∨ e = .ENOMEM) :
      LinkStep cfg s (.refused e) (s.advance id (p.failed e))
  | send {s : Link ω} {id : ℕ} {p : Pending} (hp : s.pending = some (id, p))
      (hw : s.waiting = false) :
      LinkStep cfg s .send
        { s with requests := s.requests ++ [⟨p.buffer, id⟩], waiting := true }
  | receive {s : Link ω} {id : ℕ} {p : Pending} {packet : Packet} (hp : s.pending = some (id, p))
      (hw : s.waiting = true) (hin : packet ∈ s.replies) :
      LinkStep cfg s (.receive packet) (s.advance id (p.settle (some packet.bytes)))
  | timeout {s : Link ω} {id : ℕ} {p : Pending} (hp : s.pending = some (id, p))
      (hw : s.waiting = true) : LinkStep cfg s .timeout (s.advance id (p.settle none))
  | serve {s : Link ω} {packet : Packet} {fresh : UInt64} {now : ℤ} {node : Node ω}
      {reply : Reply ω} {ticketed : Option (Served ω)} (hin : packet ∈ s.requests)
      (hreply : serveRequest cfg.self cfg.window s.cache cfg.csp.address packet.bytes fresh now
        node = reply)
      (hticketed : ticketedPart cfg s.cache cfg.csp.address packet.bytes fresh now node = ticketed)
      (had : Admissible (s.served ++ ticketed.toList)) :
      LinkStep cfg s (.serve packet fresh now node)
        { s with
          cache := reply.cache
          replies := s.replies ++ (reply.packet.toOption.map (⟨·, packet.call⟩)).toList
          log := s.log ++ [⟨some packet.call, ticketed,
            reply.invoked.bind (·.dispatched.ran)⟩] }
  | serveOther {s : Link ω} {source : UInt16} {bytes : List UInt8} {fresh : UInt64} {now : ℤ}
      {node : Node ω} {reply : Reply ω} {ticketed : Option (Served ω)}
      (hsource : source ≠ cfg.csp.address)
      (hreply : serveRequest cfg.self cfg.window s.cache source bytes fresh now node = reply)
      (hticketed : ticketedPart cfg s.cache source bytes fresh now node = ticketed)
      (had : Admissible (s.served ++ ticketed.toList)) :
      LinkStep cfg s (.serveOther source bytes fresh now node)
        { s with
          cache := reply.cache
          log := s.log ++ [⟨none, ticketed, reply.invoked.bind (·.dispatched.ran)⟩] }

/-! ### The client -/

/-- Where the loops of call `id` are after a step. -/
def Progress.pendingFor (id : ℕ) : Progress → Option (ℕ × Pending)
  | .pending p => some (id, p)
  | .returned _ _ => none

namespace Link

@[simp] theorem advance_pending (s : Link ω) (id : ℕ) (q : Progress) :
    (s.advance id q).pending = q.pendingFor id := by cases q <;> rfl

@[simp] theorem advance_calls (s : Link ω) (id : ℕ) (q : Progress) :
    (s.advance id q).calls = s.calls := by cases q <;> rfl

@[simp] theorem advance_requests (s : Link ω) (id : ℕ) (q : Progress) :
    (s.advance id q).requests = s.requests := by cases q <;> rfl

@[simp] theorem advance_replies (s : Link ω) (id : ℕ) (q : Progress) :
    (s.advance id q).replies = s.replies := by cases q <;> rfl

@[simp] theorem advance_cache (s : Link ω) (id : ℕ) (q : Progress) :
    (s.advance id q).cache = s.cache := by cases q <;> rfl

@[simp] theorem advance_log (s : Link ω) (id : ℕ) (q : Progress) :
    (s.advance id q).log = s.log := by cases q <;> rfl

end Link

/-- The message is one that a call of this record sends: a ticketed call sends
its PREPARE, with the nonce it drew, or an EXECUTE of the same bytes; any other
call sends nothing of version 2. -/
def Carries (r : CallRecord) (m : Message) : Prop :=
  if r.call.retry then
    ∃ first, r.first = some first ∧ SameBytes first m ∧ m.version = 2 ∧
      ((m.opcode = Opcode.PREPARE.toByte ∧ m.token = first.token) ∨
        m.opcode = Opcode.EXECUTE.toByte)
  else m.version ≠ 2

/-- The first request of a ticketed call asks for what the caller asked for. -/
structure Faithful (cfg : Setup ω) (r : CallRecord) (first : Message) : Prop where
  args : decodeArgs first = .ok r.call.args
  command : ∃ name, r.call.name = some name ∧ lookupId cfg.home name = .ok first.commandId

/-- A call in its loops: its buffer holds a message of the call, and if an
EXECUTE of it is on the wire, it is in its second phase, with that ticket. -/
structure PendingInv (requests : List Packet) (r : CallRecord) (id : ℕ) (p : Pending) : Prop where
  retry : p.retry = r.call.retry
  buffer : ∀ m, protocolDecode p.buffer = .ok m → Carries r m
  request : p.retry = true → protocolDecode p.buffer = .ok p.request
  executes : ∀ packet ∈ requests, packet.call = id → ∀ m, protocolDecode packet.bytes = .ok m →
    m.version = 2 → m.opcode = Opcode.EXECUTE.toByte →
      p.retry = true ∧ p.request.opcode = Opcode.EXECUTE.toByte ∧ m.token = p.request.token

/-- What the client has sent, and what it is about to send. -/
structure ClientInv (cfg : Setup ω) (calls : List CallRecord) (packets : List Packet)
    (loop : Option (ℕ × Pending)) : Prop where
  faithful : ∀ r ∈ calls, r.call.retry = true → ∀ first, r.first = some first →
    Faithful cfg r first
  nonces : ∀ (i j : ℕ) (r r' : CallRecord) (m m' : Message), calls[i]? = some r →
    calls[j]? = some r' → r.call.retry = true → r'.call.retry = true → r.first = some m →
    r'.first = some m' → m.token = m'.token → i = j
  requests : ∀ packet ∈ packets, ∃ r, calls[packet.call]? = some r ∧
    ∀ m, protocolDecode packet.bytes = .ok m → Carries r m
  executes : ∀ a ∈ packets, ∀ b ∈ packets, a.call = b.call → ∀ m m',
    protocolDecode a.bytes = .ok m → protocolDecode b.bytes = .ok m' → m.version = 2 →
    m'.version = 2 → m.opcode = Opcode.EXECUTE.toByte → m'.opcode = Opcode.EXECUTE.toByte →
    m.token = m'.token
  pending : ∀ id p, loop = some (id, p) → ∃ r, calls[id]? = some r ∧
    PendingInv packets r id p

theorem clientInv_boot (cfg : Setup ω) : ClientInv cfg [] [] none := by
  constructor <;> simp

section Client

variable {cfg : Setup ω} {calls : List CallRecord} {requests : List Packet}
  {pending : Option (ℕ × Pending)} {id : ℕ} {p : Pending}

/-- Only where the loops are has changed. -/
theorem ClientInv.move (h : ClientInv cfg calls requests pending) {q : Progress}
    (hq : ∀ p', q = .pending p' → ∃ r, calls[id]? = some r ∧ PendingInv requests r id p') :
    ClientInv cfg calls requests (q.pendingFor id) := by
  refine ⟨h.faithful, h.nonces, h.requests, h.executes, fun id' p' hp' => ?_⟩
  cases q with
  | returned outcome result => cases hp'
  | pending p₀ =>
    obtain ⟨rfl, rfl⟩ : id = id' ∧ p₀ = p' := by simpa [Progress.pendingFor] using hp'
    exact hq p₀ rfl

theorem clientInv_failed (h : ClientInv cfg calls requests (some (id, p))) (e : Errno) :
    ClientInv cfg calls requests ((p.failed e).pendingFor id) := by
  obtain ⟨r, hr, hp⟩ := h.pending id p rfl
  refine h.move fun p' hp' => ⟨r, hr, ?_⟩
  unfold Pending.failed at hp'
  split at hp'
  · cases hp'
    exact ⟨hp.retry, hp.buffer, hp.request, hp.executes⟩
  · cases hp'

/-- A packet decodes to the version it was encoded with. -/
theorem version_of_encode {capacity : ℕ} {m m' : Message} {bytes : List UInt8}
    (he : protocolEncode capacity m = .ok bytes) (hd : protocolDecode bytes = .ok m') :
    m'.version = m.wireVersion := by
  obtain ⟨-, -, -, rfl⟩ := protocolEncode_eq_ok he
  simp only [protocolDecode] at hd
  split_ifs at hd
  all_goals
    cases hd
    rfl

section

variable (h : ClientInv cfg calls requests (some (id, p)))
include h

theorem clientInv_answered (token : UInt64) (result : Result) :
    ClientInv cfg calls requests ((p.answered token result).pendingFor id) := by
  obtain ⟨r, hr, hp⟩ := h.pending id p rfl
  refine h.move fun p' hp' => ⟨r, hr, ?_⟩
  simp only [Pending.answered] at hp'
  split at hp'
  · cases hp'
  · split at hp'
    · next hphase =>
      obtain ⟨buffer, hbuf, rfl⟩ := enterPhase_eq_pending hp'
      have hcarries := hp.buffer _ (hp.request hphase.1)
      rw [Carries, ← hp.retry, if_pos hphase.1] at hcarries
      obtain ⟨first, hfirst, hsame, hv, -⟩ := hcarries
      have hdec : protocolDecode buffer = .ok
          { p.request with opcode := Opcode.EXECUTE.toByte, token := token } :=
        protocolDecode_request hbuf hv (show legalOpcode 2 Opcode.EXECUTE.toByte by decide)
      refine ⟨hp.retry, fun m hm => ?_, fun _ => hdec, fun packet hpk hid m hm hv' hop => ?_⟩
      · obtain rfl := Except.ok.inj (hdec.symm.trans hm)
        rw [Carries, ← hp.retry, if_pos hphase.1]
        exact ⟨first, hfirst, ⟨hsame.command, hsame.request, hsame.count, hsame.payload⟩, hv,
          .inr rfl⟩
      · obtain ⟨-, hexec, -⟩ := hp.executes packet hpk hid m hm hv' hop
        exact absurd hphase.2 (execute_ne_prepare hexec)
    · cases hp'

theorem clientInv_settle (packet : Option (List UInt8)) :
    ClientInv cfg calls requests ((p.settle packet).pendingFor id) := by
  unfold Pending.settle
  split
  · exact clientInv_failed h _
  · split
    · exact clientInv_failed h _
    · exact clientInv_answered h _ _

theorem clientInv_send : ClientInv cfg calls (requests ++ [⟨p.buffer, id⟩]) (some (id, p)) := by
  obtain ⟨r, hr, hp⟩ := h.pending id p rfl
  have hcross : ∀ b ∈ requests, b.call = id → ∀ m m', protocolDecode p.buffer = .ok m →
      protocolDecode b.bytes = .ok m' → m'.version = 2 → m'.opcode = Opcode.EXECUTE.toByte →
      m.token = m'.token := by
    intro b hb hid m m' hm hm' hv' hop'
    obtain ⟨hretry, -, htok⟩ := hp.executes b hb hid m' hm' hv' hop'
    obtain rfl := Except.ok.inj ((hp.request hretry).symm.trans hm)
    exact htok.symm
  refine ⟨h.faithful, h.nonces, fun packet hpk => ?_, ?_, fun id' p' hp' => ?_⟩
  · rcases List.mem_append.1 hpk with hpk | hpk
    · exact h.requests packet hpk
    · obtain rfl := List.mem_singleton.1 hpk
      exact ⟨r, hr, hp.buffer⟩
  · intro a ha b hb hab m m' hm hm' hv hv' hop hop'
    rcases List.mem_append.1 ha with ha | ha <;> rcases List.mem_append.1 hb with hb | hb
    · exact h.executes a ha b hb hab m m' hm hm' hv hv' hop hop'
    · obtain rfl := List.mem_singleton.1 hb
      exact (hcross a ha hab m' m hm' hm hv hop).symm
    · obtain rfl := List.mem_singleton.1 ha
      exact hcross b hb hab.symm m m' hm hm' hv' hop'
    · obtain rfl := List.mem_singleton.1 ha
      obtain rfl := List.mem_singleton.1 hb
      rw [Except.ok.inj (hm.symm.trans hm')]
  · obtain ⟨rfl, rfl⟩ : id = id' ∧ p = p' := by simpa using hp'
    refine ⟨r, hr, hp.retry, hp.buffer, hp.request, fun packet hpk hid m hm hv hop => ?_⟩
    rcases List.mem_append.1 hpk with hpk | hpk
    · exact hp.executes packet hpk hid m hm hv hop
    · obtain rfl := List.mem_singleton.1 hpk
      have hcarries := hp.buffer m hm
      cases hretry : r.call.retry with
      | false =>
        simp only [Carries, hretry] at hcarries
        exact absurd hv hcarries
      | true =>
        have hpr := hp.retry.trans hretry
        obtain rfl := Except.ok.inj ((hp.request hpr).symm.trans hm)
        exact ⟨hpr, hop, rfl⟩

end

/-- What a call that comes to its loops starts with. -/
theorem openCall_pending {home : Node ω} {next next' : UInt16} {name : CString} {c : RemoteCall}
    {random : Except Errno UInt64} (h : openCall home next name c random = (next', .pending p)) :
    p.retry = c.retry ∧ (c.retry = true → ∃ nonce, random = .ok nonce ∧ p.request.token = nonce ∧
        p.request.version = 2 ∧ p.request.opcode = Opcode.PREPARE.toByte ∧
        protocolDecode p.buffer = .ok p.request ∧ decodeArgs p.request = .ok c.args ∧
        lookupId home name = .ok p.request.commandId) ∧
      (c.retry = false → ∀ m, protocolDecode p.buffer = .ok m → m.version ≠ 2) := by
  simp only [openCall] at h
  split at h
  · cases h
  · next commandId hid =>
    split at h
    · cases h
    · next payload hpay =>
      split at h
      · next hretry =>
        split at h
        · cases h
        · next nonce =>
          obtain ⟨buffer, hbuf, rfl⟩ := enterPhase_eq_pending (Prod.ext_iff.1 h).2
          have hdec := protocolDecode_request hbuf rfl
            (show legalOpcode 2 Opcode.PREPARE.toByte by decide)
          refine ⟨hretry.symm, fun _ => ⟨nonce, rfl, rfl, rfl, rfl, hdec, ?_, hid⟩, fun hno => ?_⟩
          · exact (decodeArgs_encodeArgs hpay _ rfl rfl).2.2
          · rw [hretry] at hno
            cases hno
      · next hretry =>
        obtain ⟨buffer, hbuf, rfl⟩ := enterPhase_eq_pending (Prod.ext_iff.1 h).2
        have hfalse : c.retry = false := by simpa using hretry
        refine ⟨hfalse.symm, fun hyes => absurd hyes hretry, fun _ m hm => ?_⟩
        rw [version_of_encode hbuf hm]
        exact (by decide : (1 : UInt8) ≠ 2)

theorem clientInv_call (h : ClientInv cfg calls requests none) {next next' : UInt16}
    {name : CString} {c : RemoteCall} {random : Except Errno UInt64} {q : Progress}
    (hname : c.name = some name) (hnonce : ∀ nonce, random = .ok nonce → nonce ≠ 0 ∧
      ∀ r ∈ calls, r.call.retry = true → ∀ m, r.first = some m → m.token ≠ nonce)
    (hopen : openCall cfg.home next name c random = (next', q)) :
    ClientInv cfg (calls ++ [⟨c, q.request⟩]) requests (q.pendingFor calls.length) := by
  have hget {i : ℕ} {r : CallRecord} (hr : (calls ++ [⟨c, q.request⟩])[i]? = some r) :
      calls[i]? = some r ∨ (i = calls.length ∧ r = ⟨c, q.request⟩) := by
    rcases Nat.lt_trichotomy i calls.length with hi | hi | hi
    · rw [List.getElem?_append_left hi] at hr
      exact .inl hr
    · subst hi
      simp only [List.getElem?_append_right (Nat.le_refl _), Nat.sub_self,
        List.getElem?_cons_zero, Option.some.injEq] at hr
      exact .inr ⟨rfl, hr.symm⟩
    · rw [List.getElem?_eq_none (by simp; omega)] at hr
      cases hr
  have hold {i : ℕ} {r : CallRecord} (hr : calls[i]? = some r) :
      (calls ++ [⟨c, q.request⟩])[i]? = some r := by
    rw [List.getElem?_append_left (List.getElem?_eq_some_iff.1 hr).1, hr]
  have hfirst {first : Message} (hq : q.request = some first) :
      ∃ p, q = .pending p ∧ p.request = first := by
    cases q with
    | pending p => exact ⟨p, rfl, Option.some.inj hq⟩
    | returned => cases hq
  have hdraw {first : Message} (hretry : c.retry = true) (hq : q.request = some first) :
      ∀ r ∈ calls, r.call.retry = true → ∀ m, r.first = some m → m.token ≠ first.token := by
    obtain ⟨p, rfl, rfl⟩ := hfirst hq
    obtain ⟨nonce, hrandom, htok, -⟩ := (openCall_pending hopen).2.1 hretry
    rw [htok]
    exact (hnonce nonce hrandom).2
  constructor
  · intro r hr hretry first hf
    rcases List.mem_append.1 hr with hr | hr
    · exact h.faithful r hr hretry first hf
    · obtain rfl := List.mem_singleton.1 hr
      obtain ⟨p, rfl, rfl⟩ := hfirst hf
      obtain ⟨-, -, -, -, -, -, hargs, hid⟩ := (openCall_pending hopen).2.1 hretry
      exact ⟨hargs, name, hname, hid⟩
  · intro i j r r' m m' hi hj hr hr' hm hm' htok
    rcases hget hi with hi | ⟨hlast, rfl⟩ <;> rcases hget hj with hj | ⟨hlast', rfl⟩
    · exact h.nonces i j r r' m m' hi hj hr hr' hm hm' htok
    · exact absurd htok (hdraw hr' hm' r (List.mem_of_getElem? hi) hr m hm)
    · exact absurd htok.symm (hdraw hr hm r' (List.mem_of_getElem? hj) hr' m' hm')
    · exact hlast.trans hlast'.symm
  · intro packet hpk
    obtain ⟨r, hr, hc⟩ := h.requests packet hpk
    exact ⟨r, hold hr, hc⟩
  · exact h.executes
  · intro id p hp
    cases q with
    | returned outcome result => cases hp
    | pending p₀ =>
      obtain ⟨rfl, rfl⟩ : calls.length = id ∧ p₀ = p := by simpa [Progress.pendingFor] using hp
      obtain ⟨hpr, hyes, hno⟩ := openCall_pending hopen
      refine ⟨⟨c, some p₀.request⟩, by simp [Progress.request], hpr, fun m hm => ?_, fun hretry => ?_,
        fun packet hpk hid => ?_⟩
      · cases hretry : c.retry with
        | true =>
          obtain ⟨nonce, -, -, hv, hop, hdec, -, -⟩ := hyes hretry
          obtain rfl := Except.ok.inj (hdec.symm.trans hm)
          simp only [Carries, hretry, if_true]
          exact ⟨p₀.request, rfl, ⟨rfl, rfl, rfl, rfl⟩, hv, .inl ⟨hop, rfl⟩⟩
        | false =>
          simp only [Carries, hretry]
          exact hno hretry m hm
      · obtain ⟨-, -, -, -, -, hdec, -, -⟩ := hyes (hpr.symm.trans hretry)
        exact hdec
      · obtain ⟨r, hr, -⟩ := h.requests packet hpk
        rw [hid, List.getElem?_eq_none (Nat.le_refl _)] at hr
        cases hr

end Client

/-! ### The server -/

/-- What the answers to ticketed requests rest on. -/
structure AnswerInv (served : List (Served ω)) : Prop where
  version : ∀ x ∈ served, x.call.request.version = 2
  prepared : ∀ x ∈ served, x.call.request.opcode = Opcode.PREPARE.toByte →
    x.reply.result.status = .OK → ∃ p ∈ served, p.Reserves x.reply.ticket ∧ p.token = x.token ∧
      p.call.source = x.call.source
  executed : ∀ x ∈ served, x.call.request.opcode ≠ Opcode.PREPARE.toByte →
    x.reply.result.status = .OK → x.reply.ticket = x.token ∧
      ∃ y ∈ served, y.invokes x.token = true ∧ y.reply.result = x.reply.result
  invoked : ∀ x ∈ served, ∀ inv, x.reply.invoked = some inv →
    x.call.request.opcode = Opcode.EXECUTE.toByte ∧
    (∃ p ∈ served, p.Reserves x.token ∧ p.call.source = x.call.source ∧
      inv.commandId = p.call.request.commandId ∧ decodeArgs p.call.request = .ok inv.args) ∧
    (x.reply.result.status = .OK → inv.dispatched.ran =
      some ⟨inv.commandId, inv.args, ⟨x.call.source, false, true⟩, none, x.reply.result⟩)

theorem answerInv_step {self : Tid} {window : ℕ} {served : List (Served ω)}
    {cache cache' : RetryCache} {x : Served ω} (h : AnswerInv served)
    (hc : CacheInv window served cache) (hs : ServeStep self window cache x cache')
    (hv : x.call.request.version = 2) : AnswerInv (served ++ [x]) := by
  have hold {q : Served ω → Prop} (hq : ∃ p ∈ served, q p) : ∃ p ∈ served ++ [x], q p :=
    hq.imp fun p hp => ⟨List.mem_append_left _ hp.1, hp.2⟩
  constructor
  · intro y hy
    rcases List.mem_append.1 hy with hy | hy
    · exact h.version y hy
    · exact List.mem_singleton.1 hy ▸ hv
  · intro y hy hop hok
    rcases List.mem_append.1 hy with hy | hy
    · exact hold (h.prepared y hy hop hok)
    · obtain rfl := List.mem_singleton.1 hy
      exact hc.prepare_ok hs hop hok
  · intro y hy hop hok
    rcases List.mem_append.1 hy with hy | hy
    · exact (h.executed y hy hop hok).imp_right hold
    · obtain rfl := List.mem_singleton.1 hy
      exact hc.execute_ok hs hop hok
  · intro y hy inv hinv
    rcases List.mem_append.1 hy with hy | hy
    · obtain ⟨hop, hp, hran⟩ := h.invoked y hy inv hinv
      exact ⟨hop, hold hp, hran⟩
    · obtain rfl := List.mem_singleton.1 hy
      obtain ⟨p, hp, hres, hsrc, -, -, hcmd, hargs, -, hop⟩ := hc.of_invoked hs hinv
      exact ⟨hop, ⟨p, List.mem_append_left _ hp, hres, hsrc, hcmd, hargs⟩, hs.ran hinv⟩

/-- An entry of the server's log, against the packets the client has sent. -/
structure LogInv (cfg : Setup ω) (packets : List Packet) (h : Handled ω) : Prop where
  own : ∀ id, h.call = some id → ∃ packet ∈ packets, packet.call = id ∧
    (∀ x, h.ticketed = some x → x.call.source = cfg.csp.address ∧
      protocolDecode packet.bytes = .ok x.call.request) ∧
    (h.ticketed = none → h.ran ≠ none → ∃ m, protocolDecode packet.bytes = .ok m ∧ m.version ≠ 2)
  other : h.call = none → ∀ x, h.ticketed = some x → x.call.source ≠ cfg.csp.address
  ran : ∀ x, h.ticketed = some x → h.ran = x.reply.invoked.bind (·.dispatched.ran)

/-- What the server has done, and what it has answered. -/
structure ServerInv (cfg : Setup ω) (packets answers : List Packet) (tickets : RetryCache)
    (entries : List (Handled ω)) : Prop where
  cache : CacheInv cfg.window (entries.filterMap (·.ticketed)) tickets
  answer : AnswerInv (entries.filterMap (·.ticketed))
  log : ∀ h ∈ entries, LogInv cfg packets h
  replies : ∀ packet ∈ answers,
    (∃ h ∈ entries, h.call = some packet.call ∧ ∃ x, h.ticketed = some x ∧
      sendResult x.call.request x.reply.ticket x.reply.result = .ok packet.bytes) ∨
    ∀ m, protocolDecode packet.bytes = .ok m → m.version ≠ 2

theorem serverInv_boot (cfg : Setup ω) : ServerInv cfg [] [] (RetryCache.empty cfg.slots) [] where
  cache := cacheInv_empty cfg.window cfg.slots
  answer := ⟨by simp, by simp, by simp, by simp⟩
  log := by simp
  replies := by simp

/-- Sending a packet changes nothing for the server. -/
theorem serverInv_send {cfg : Setup ω} {packets answers : List Packet} {cache : RetryCache}
    {log : List (Handled ω)} (h : ServerInv cfg packets answers cache log) (packet : Packet) :
    ServerInv cfg (packets ++ [packet]) answers cache log := by
  refine ⟨h.cache, h.answer, fun e he => ?_, h.replies⟩
  have hl := h.log e he
  refine ⟨fun id hid => ?_, hl.other, hl.ran⟩
  obtain ⟨pk, hpk, hrest⟩ := hl.own id hid
  exact ⟨pk, List.mem_append_left _ hpk, hrest⟩

/-- An answer to a request that is not of version 2 is not of version 2. -/
theorem version_of_sendResult {request m : Message} {token : UInt64} {result : Result}
    {bytes : List UInt8} (hs : sendResult request token result = .ok bytes)
    (hv : request.version ≠ 2) (hd : protocolDecode bytes = .ok m) : m.version ≠ 2 := by
  rw [version_of_encode hs hd]
  change (if request.version ≠ 0 then request.version else protocolVersion) ≠ 2
  split_ifs
  · exact hv
  · decide

variable {reply : Reply ω} {ticketed : Option (Served ω)}

/-- **What serving a packet does**: it is one call on the ticket cache, or it
leaves the cache alone and its answer is not of version 2. -/
theorem serveRequest_cases (cfg : Setup ω) (cache : RetryCache) (source : UInt16)
    (bytes : List UInt8) (fresh : UInt64) (now : ℤ) (node : Node ω)
    (hreply : serveRequest cfg.self cfg.window cache source bytes fresh now node = reply)
    (hticketed : ticketedPart cfg cache source bytes fresh now node = ticketed) :
    (∃ x, ticketed = some x ∧ ServeStep cfg.self cfg.window cache x reply.cache ∧
      x.call.source = source ∧ protocolDecode bytes = .ok x.call.request ∧
      x.call.request.version = 2 ∧
      reply.packet = sendResult x.call.request x.reply.ticket x.reply.result ∧
      reply.invoked = x.reply.invoked) ∨ (ticketed = none ∧ reply.cache = cache ∧
      (∃ request token result, reply.packet = sendResult request token result ∧
        request.version ≠ 2) ∧
      (reply.invoked ≠ none → ∃ m, protocolDecode bytes = .ok m ∧ m.version ≠ 2)) := by
  unfold serveRequest at hreply
  unfold ticketedPart at hticketed
  cases hdec : protocolDecode bytes with
  | error e =>
    simp only [hdec] at hreply hticketed
    subst hreply hticketed
    exact .inr ⟨rfl, rfl, ⟨Message.zero, 0, ⟨.INVALID_ARGUMENT, .empty⟩, rfl, by decide⟩,
      fun h => absurd rfl h⟩
  | ok request =>
    simp only [hdec] at hreply hticketed
    by_cases hv : request.version = 2
    · rw [if_pos hv] at hreply hticketed
      subst hreply hticketed
      exact .inl ⟨_, rfl, ⟨rfl, rfl⟩, rfl, rfl, hv, rfl, rfl⟩
    · rw [if_neg hv] at hreply hticketed
      subst hticketed
      split at hreply
      · subst hreply
        exact .inr ⟨rfl, rfl, ⟨request, request.token, ⟨.INVALID_ARGUMENT, .empty⟩, rfl, hv⟩,
          fun h => absurd rfl h⟩
      · split at hreply
        · subst hreply
          exact .inr ⟨rfl, rfl, ⟨request, request.token, ⟨.INVALID_ARGUMENT, .empty⟩, rfl, hv⟩,
            fun h => absurd rfl h⟩
        · subst hreply
          exact .inr ⟨rfl, rfl, ⟨_, _, _, rfl, hv⟩, fun _ => ⟨request, rfl, hv⟩⟩

theorem filterMap_ticketed_snoc (log : List (Handled ω)) (h : Handled ω) :
    (log ++ [h]).filterMap (·.ticketed) = log.filterMap (·.ticketed) ++ h.ticketed.toList := by
  cases ht : h.ticketed <;> simp [ht]

section Server

variable {cfg : Setup ω} {packets answers : List Packet} {cache : RetryCache}
  {log : List (Handled ω)}

/-- Serving a packet keeps what concerns the cache and its history. -/
theorem ServerInv.history (h : ServerInv cfg packets answers cache log) {source : UInt16}
    {bytes : List UInt8} {fresh : UInt64} {now : ℤ} {node : Node ω}
    (hreply : serveRequest cfg.self cfg.window cache source bytes fresh now node = reply)
    (hticketed : ticketedPart cfg cache source bytes fresh now node = ticketed)
    (had : Admissible (log.filterMap (·.ticketed) ++ ticketed.toList)) :
    CacheInv cfg.window (log.filterMap (·.ticketed) ++ ticketed.toList) reply.cache ∧
      AnswerInv (log.filterMap (·.ticketed) ++ ticketed.toList) := by
  rcases serveRequest_cases cfg cache source bytes fresh now node hreply hticketed with
    ⟨x, rfl, hs, -, -, hv, -, -⟩ | ⟨rfl, hc, -, -⟩
  · exact ⟨cacheInv_step h.cache hs had, answerInv_step h.answer h.cache hs hv⟩
  · rw [Option.toList_none, List.append_nil, hc]
    exact ⟨h.cache, h.answer⟩

/-- The new entry of the log describes the packet that was served. -/
theorem logInv_serve {packet : Packet} {fresh : UInt64} {now : ℤ} {node : Node ω}
    (hin : packet ∈ packets)
    (hreply : serveRequest cfg.self cfg.window cache cfg.csp.address packet.bytes fresh now node =
      reply)
    (hticketed : ticketedPart cfg cache cfg.csp.address packet.bytes fresh now node = ticketed) :
    LogInv cfg packets ⟨some packet.call, ticketed, reply.invoked.bind (·.dispatched.ran)⟩ := by
  rcases serveRequest_cases cfg cache cfg.csp.address packet.bytes fresh now node hreply
    hticketed with ⟨x, rfl, -, hsrc, hdec, -, -, hinv⟩ | ⟨rfl, -, -, hinv⟩
  · refine ⟨fun id hid => ⟨packet, hin, Option.some.inj hid, fun y hy => ?_, fun hno => ?_⟩,
      fun hno => ?_, fun y hy => ?_⟩
    · obtain rfl := Option.some.inj hy
      exact ⟨hsrc, hdec⟩
    · cases hno
    · cases hno
    · obtain rfl := Option.some.inj hy
      rw [hinv]
  · refine ⟨fun id hid => ⟨packet, hin, Option.some.inj hid, fun y hy => ?_, fun _ hran => ?_⟩,
      fun hno => ?_, fun y hy => ?_⟩
    · cases hy
    · exact hinv fun hno => hran (by rw [hno]; rfl)
    · cases hno
    · cases hy

theorem serverInv_serve (h : ServerInv cfg packets answers cache log) {packet : Packet}
    {fresh : UInt64} {now : ℤ} {node : Node ω} (hin : packet ∈ packets)
    (hreply : serveRequest cfg.self cfg.window cache cfg.csp.address packet.bytes fresh now node =
      reply)
    (hticketed : ticketedPart cfg cache cfg.csp.address packet.bytes fresh now node = ticketed)
    (had : Admissible (log.filterMap (·.ticketed) ++ ticketed.toList)) : ServerInv cfg packets
      (answers ++ (reply.packet.toOption.map (⟨·, packet.call⟩)).toList) reply.cache
      (log ++ [⟨some packet.call, ticketed, reply.invoked.bind (·.dispatched.ran)⟩]) := by
  obtain ⟨hcache, hanswer⟩ := h.history hreply hticketed had
  have hhist := filterMap_ticketed_snoc log
    ⟨some packet.call, ticketed, reply.invoked.bind (·.dispatched.ran)⟩
  refine ⟨hhist ▸ hcache, hhist ▸ hanswer, fun e he => ?_, fun pk hpk => ?_⟩
  · rcases List.mem_append.1 he with he | he
    · exact h.log e he
    · rw [List.mem_singleton.1 he]
      exact logInv_serve hin hreply hticketed
  · rcases List.mem_append.1 hpk with hpk | hpk
    · refine (h.replies pk hpk).imp_left fun ⟨e, he, hrest⟩ => ?_
      exact ⟨e, List.mem_append_left _ he, hrest⟩
    · cases hp : reply.packet with
      | error e => simp [hp, Except.toOption] at hpk
      | ok b =>
        obtain rfl : pk = ⟨b, packet.call⟩ := by simpa [hp, Except.toOption] using hpk
        rcases serveRequest_cases cfg cache cfg.csp.address packet.bytes fresh now node hreply
          hticketed with ⟨x, rfl, -, -, -, -, hsend, -⟩ | ⟨-, -, ⟨_, _, _, hsend, hv⟩, -⟩
        · exact .inl ⟨_, List.mem_append_right _ (List.mem_singleton_self _), rfl, x, rfl,
            hsend.symm.trans hp⟩
        · exact .inr fun m hm => version_of_sendResult (hsend.symm.trans hp) hv hm

theorem serverInv_serveOther (h : ServerInv cfg packets answers cache log) {source : UInt16}
    {bytes : List UInt8} {fresh : UInt64} {now : ℤ} {node : Node ω}
    (hsource : source ≠ cfg.csp.address)
    (hreply : serveRequest cfg.self cfg.window cache source bytes fresh now node = reply)
    (hticketed : ticketedPart cfg cache source bytes fresh now node = ticketed)
    (had : Admissible (log.filterMap (·.ticketed) ++ ticketed.toList)) :
    ServerInv cfg packets answers reply.cache
      (log ++ [⟨none, ticketed, reply.invoked.bind (·.dispatched.ran)⟩]) := by
  obtain ⟨hcache, hanswer⟩ := h.history hreply hticketed had
  have hhist := filterMap_ticketed_snoc log
    ⟨none, ticketed, reply.invoked.bind (·.dispatched.ran)⟩
  refine ⟨hhist ▸ hcache, hhist ▸ hanswer, fun e he => ?_, fun pk hpk => ?_⟩
  · rcases List.mem_append.1 he with he | he
    · exact h.log e he
    · rw [List.mem_singleton.1 he]
      rcases serveRequest_cases cfg cache source bytes fresh now node hreply hticketed with
        ⟨x, rfl, -, hsrc, -, -, -, hinv⟩ | ⟨rfl, -, -, -⟩
      · refine ⟨fun id hid => ?_, fun _ y hy => ?_, fun y hy => ?_⟩
        · cases hid
        · obtain rfl := Option.some.inj hy
          rw [hsrc]
          exact hsource
        · obtain rfl := Option.some.inj hy
          rw [hinv]
      · refine ⟨fun id hid => ?_, fun _ y hy => ?_, fun y hy => ?_⟩
        · cases hid
        · cases hy
        · cases hy
  · refine (h.replies pk hpk).imp_left fun ⟨e, he, hrest⟩ => ?_
    exact ⟨e, List.mem_append_left _ he, hrest⟩

end Server

/-! ### Both ends -/

/-- What holds in every state of every run. -/
structure LinkInv (cfg : Setup ω) (s : Link ω) : Prop where
  client : ClientInv cfg s.calls s.requests s.pending
  server : ServerInv cfg s.requests s.replies s.cache s.log

theorem linkInv_step {cfg : Setup ω} {s t : Link ω} {e : LinkEvent ω} (h : LinkInv cfg s)
    (hs : LinkStep cfg s e t) : LinkInv cfg t := by
  have hclient := h.client
  cases hs with
  | call hidle hname hnode hcsp hnonce hopen =>
    rw [hidle] at hclient
    refine ⟨?_, ?_⟩
    · simpa [Link.place] using clientInv_call hclient hname hnonce hopen
    · simpa [Link.place] using h.server
  | elsewhere hidle => exact ⟨h.client, h.server⟩
  | refused hp hw he =>
    rw [hp] at hclient
    refine ⟨?_, ?_⟩
    · simpa using clientInv_failed hclient _
    · simpa using h.server
  | @send id p hp hw =>
    rw [hp] at hclient
    refine ⟨?_, serverInv_send h.server _⟩
    simp only [hp]
    exact clientInv_send hclient
  | receive hp hw hin =>
    rw [hp] at hclient
    refine ⟨?_, ?_⟩
    · simpa using clientInv_settle hclient _
    · simpa using h.server
  | timeout hp hw =>
    rw [hp] at hclient
    refine ⟨?_, ?_⟩
    · simpa using clientInv_settle hclient _
    · simpa using h.server
  | serve hin hreply hticketed had =>
    exact ⟨h.client, serverInv_serve h.server hin hreply hticketed had⟩
  | serveOther hsource hreply hticketed had =>
    exact ⟨h.client, serverInv_serveOther h.server hsource hreply hticketed had⟩

/-- **The invariant of both ends holds in every run.** -/
theorem linkInv_run {cfg : Setup ω} {es : List (LinkEvent ω)} {s : Link ω}
    (hr : Run (LinkStep cfg) (Link.boot cfg) es s) : LinkInv cfg s :=
  hr.invariant (I := fun _ s => LinkInv cfg s) ⟨clientInv_boot cfg, serverInv_boot cfg⟩
    fun _ _ _ _ h hs => linkInv_step h hs

section Runs

variable {cfg : Setup ω} {s : Link ω} {id : ℕ} {r : CallRecord}

/-- A handler run caused by a packet of a ticketed call is the run of the ticket
that the packet, an EXECUTE of the call, names. -/
theorem LinkInv.of_ran (h : LinkInv cfg s) (hr : s.calls[id]? = some r)
    (hretry : r.call.retry = true) {e : Handled ω} (he : e ∈ s.log) (hcall : e.call = some id)
    (hran : e.ran.isSome = true) :
    ∃ x packet, e.ticketed = some x ∧ x.reply.invoked.isSome = true ∧ packet ∈ s.requests ∧
      packet.call = id ∧ protocolDecode packet.bytes = .ok x.call.request ∧
      x.call.request.opcode = Opcode.EXECUTE.toByte ∧ x.call.request.version = 2 := by
  have hl := h.server.log e he
  obtain ⟨packet, hpk, hid, hown, hplain⟩ := hl.own id hcall
  cases ht : e.ticketed with
  | none =>
    obtain ⟨m, hm, hv⟩ := hplain ht (Option.isSome_iff_ne_none.1 hran)
    obtain ⟨r', hr', hcarries⟩ := h.client.requests packet hpk
    rw [hid, hr] at hr'
    obtain rfl := Option.some.inj hr'
    have := hcarries m hm
    rw [Carries, if_pos hretry] at this
    obtain ⟨-, -, -, hv2, -⟩ := this
    exact absurd hv2 hv
  | some x =>
    have hmem : x ∈ s.log.filterMap (·.ticketed) := List.mem_filterMap.2 ⟨e, he, ht⟩
    obtain ⟨-, hdec⟩ := hown x ht
    have hinv : x.reply.invoked.isSome = true := by
      cases hi : x.reply.invoked with
      | none => rw [hl.ran x ht, hi] at hran; cases hran
      | some inv => rfl
    obtain ⟨inv, hinv'⟩ := Option.isSome_iff_exists.1 hinv
    exact ⟨x, packet, rfl, hinv, hpk, hid, hdec,
      (h.server.answer.invoked x hmem inv hinv').1, h.server.answer.version x hmem⟩

/-- Counting through a filter and a partial map. -/
theorem length_filterMap_filter_le {α β γ : Type*} (l : List α) (p : α → Bool) (f : α → Option β)
    (g : α → Option γ) (q : γ → Bool)
    (h : ∀ a ∈ l, p a = true → (f a).isSome = true → ∃ c, g a = some c ∧ q c = true) :
    ((l.filter p).filterMap f).length ≤ (l.filterMap g).countP q := by
  induction l with
  | nil => simp
  | cons a l ih =>
    have hl := ih fun b hb => h b (List.mem_cons_of_mem _ hb)
    have hg : (l.filterMap g).countP q ≤ ((a :: l).filterMap g).countP q := by
      cases hga : g a with
      | none => simp [hga]
      | some c => simp [hga, List.countP_cons]
    by_cases hp : p a = true
    · cases hf : f a with
      | none =>
        rw [List.filter_cons_of_pos hp, List.filterMap_cons_none hf]
        omega
      | some b =>
        obtain ⟨c, hc, hq⟩ := h a (by simp) hp (by simp [hf])
        rw [List.filter_cons_of_pos hp, List.filterMap_cons_some hf, List.filterMap_cons_some hc,
          List.countP_cons_of_pos hq, List.length_cons]
        omega
    · rw [List.filter_cons_of_neg hp]
      omega

/-- **A ticketed call runs its command at most once.** -/
theorem LinkInv.runs_le_one (h : LinkInv cfg s) (hr : s.calls[id]? = some r)
    (hretry : r.call.retry = true) : (s.runs id).length ≤ 1 := by
  by_cases hex : ∃ e ∈ s.log, e.call = some id ∧ e.ran.isSome = true
  · obtain ⟨e, he, hcall, hran⟩ := hex
    obtain ⟨x, packet, -, -, hpk, hid, hdec, hop, hv⟩ := h.of_ran hr hretry he hcall hran
    refine (length_filterMap_filter_le s.log _ _ (·.ticketed)
      (Served.invokes x.call.request.token) fun e' he' hcall' hran' => ?_).trans
      (h.server.cache.once _)
    obtain ⟨y, packet', hy, hinv, hpk', hid', hdec', hop', hv'⟩ :=
      h.of_ran hr hretry he' (by simpa using hcall') hran'
    refine ⟨y, hy, Served.invokes_iff.2 ⟨hinv, ?_⟩⟩
    exact h.client.executes packet' hpk' packet hpk (hid'.trans hid.symm) _ _ hdec' hdec hv' hv
      hop' hop
  · have hnil : s.runs id = [] := by
      rw [Link.runs, List.filterMap_eq_nil_iff]
      intro e he
      obtain ⟨he, hcall⟩ := List.mem_filter.1 he
      by_contra hne
      exact hex ⟨e, he, by simpa using hcall, Option.isSome_iff_ne_none.2 hne⟩
    simp [hnil]

end Runs

end KfswServices.Command
