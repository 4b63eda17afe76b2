/-
# Success of a ticketed call means one run

Over the client, server and network of `KfswServices.Command.RemoteRun`.  A
ticketed call never runs its command twice (`LinkInv.runs_le_one`).  That it ran
at all when it reports success needs its ticket to be its own: `OwnInv` says that
a call executes the ticket its own PREPARE reserved, and that every call that
returned 0 with OK left a run of its own behind.

Nothing in a TICKET reply names the PREPARE it answers but the command and the
16-bit request id.  `stale_ticket_replayed` is the run in which that is not
enough.
-/

import KfswServices.Command.RemoteRun

namespace KfswServices.Command

open Library

variable {ω : Type*}

/-- A call that is waiting for its TICKET is handed one that answers another
call's PREPARE and carries its command id and its request id. -/
def Strays (s : Link ω) : LinkEvent ω → Prop
  | .receive packet => ∃ id p m, s.pending = some (id, p) ∧
      p.request.opcode = Opcode.PREPARE.toByte ∧ packet.call ≠ id ∧
      protocolDecode packet.bytes = .ok m ∧ m.opcode = Opcode.TICKET.toByte ∧
      m.commandId = p.request.commandId ∧ m.requestId = p.request.requestId
  | _ => False

/-- A step that does not stray. -/
def OwnStep (cfg : Setup ω) (s : Link ω) (e : LinkEvent ω) (t : Link ω) : Prop :=
  LinkStep cfg s e t ∧ ¬ Strays s e

/-- The ticket was reserved for the client, with the nonce of the call. -/
def Owned (cfg : Setup ω) (s : Link ω) (id : ℕ) (ticket : UInt64) : Prop :=
  ∃ r first q, s.calls[id]? = some r ∧ r.call.retry = true ∧ r.first = some first ∧
    q ∈ s.served ∧ q.Reserves ticket ∧ q.call.source = cfg.csp.address ∧ q.token = first.token

/-- The server has run, for this call, what its caller asked for, and the result
of that run is this one. -/
def RanFor (cfg : Setup ω) (s : Link ω) (id : ℕ) (r : CallRecord) (result : Result) : Prop :=
  ∃ first, r.first = some first ∧ ∃ e ∈ s.log, e.call = some id ∧
    e.ran = some ⟨first.commandId, r.call.args, ⟨cfg.csp.address, false, true⟩, none, result⟩

/-- Calls execute their own tickets, and success means a run. -/
structure OwnInv (cfg : Setup ω) (s : Link ω) : Prop where
  requests : ∀ packet ∈ s.requests, ∀ m, protocolDecode packet.bytes = .ok m → m.version = 2 →
    m.opcode = Opcode.EXECUTE.toByte → Owned cfg s packet.call m.token
  pending : ∀ id p, s.pending = some (id, p) → p.retry = true →
    p.request.opcode = Opcode.EXECUTE.toByte → Owned cfg s id p.request.token
  returns : ∀ ret ∈ s.returns, ∃ r, s.calls[ret.call]? = some r ∧
    (r.call.retry = true → ret.outcome = none → ret.result.status = .OK →
      RanFor cfg s ret.call r ret.result)

theorem ownInv_boot (cfg : Setup ω) : OwnInv cfg (Link.boot cfg) := by
  constructor <;> simp [Link.boot]

section Own

variable {cfg : Setup ω} {s t : Link ω} {id : ℕ} {p : Pending} {packet : Packet} {token : UInt64}
  {result : Result}

/-- A ticketed call in its loops, as both invariants have it. -/
theorem LinkInv.pending_retry (h : LinkInv cfg s) (hp : s.pending = some (id, p))
    (hretry : p.retry = true) :
    ∃ r first, s.calls[id]? = some r ∧ r.call.retry = true ∧ r.first = some first ∧
      SameBytes first p.request ∧ p.request.version = 2 ∧
      ((p.request.opcode = Opcode.PREPARE.toByte ∧ p.request.token = first.token) ∨
        p.request.opcode = Opcode.EXECUTE.toByte) := by
  obtain ⟨r, hr, hinv⟩ := h.client.pending id p hp
  have hretry' := hinv.retry.symm.trans hretry
  have hcarries := hinv.buffer _ (hinv.request hretry)
  rw [Carries, if_pos hretry'] at hcarries
  obtain ⟨first, hfirst, hrest⟩ := hcarries
  exact ⟨r, first, hr, hretry', hfirst, hrest⟩

/-- A reply that a ticketed call accepts is an answer to a ticketed request. -/
theorem LinkInv.accepted (h : LinkInv cfg s) (hv : p.request.version = 2)
    (hin : packet ∈ s.replies) (hrecv : receiveResult p.request packet.bytes = .ok (token, result)) :
    ∃ e ∈ s.log, e.call = some packet.call ∧ ∃ x, e.ticketed = some x ∧
      result = x.reply.result ∧ token = x.reply.ticket ∧
      p.request.answerOpcode = x.call.request.answerOpcode ∧
      (p.request.opcode = Opcode.EXECUTE.toByte → token = p.request.token) := by
  have hwire : p.request.wireVersion = 2 := by rw [Message.wireVersion, hv]; rfl
  rcases h.server.replies packet hin with ⟨e, he, hcall, x, hx, hsend⟩ | hplain
  · have hmem : x ∈ s.log.filterMap (·.ticketed) := List.mem_filterMap.2 ⟨e, he, hx⟩
    obtain ⟨hres, htok, hop, -, -, htok'⟩ :=
      receiveResult_sendResult hsend (h.server.answer.version x hmem) hrecv
    exact ⟨e, he, hcall, x, hx, hres, htok, hop, (htok' hwire).2⟩
  · obtain ⟨response, hdec, hans, -⟩ := receiveResult_eq_ok hrecv
    exact absurd (hans.1.trans hwire) (hplain response hdec)

theorem answerOpcode_eq_ticket_iff (m : Message) :
    m.answerOpcode = Opcode.TICKET.toByte ↔ m.opcode = Opcode.PREPARE.toByte := by
  unfold Message.answerOpcode
  split_ifs with h
  · simp [h]
  · exact ⟨fun h' => absurd h' (by decide), fun h' => absurd h' h⟩

/-- **A TICKET that answers the call's own PREPARE** hands it a ticket reserved
for its nonce. -/
theorem LinkInv.owned_of_ticket (h : LinkInv cfg s) (hp : s.pending = some (id, p))
    (hretry : p.retry = true) (hop : p.request.opcode = Opcode.PREPARE.toByte)
    (hin : packet ∈ s.replies) (hcall : packet.call = id)
    (hrecv : receiveResult p.request packet.bytes = .ok (token, result))
    (hok : result.status = .OK) : Owned cfg s id token := by
  obtain ⟨r, first, hr, hr', hfirst, -, hv, -⟩ := h.pending_retry hp hretry
  obtain ⟨e, he, hecall, x, hx, rfl, rfl, hans, -⟩ := h.accepted hv hin hrecv
  have hmem : x ∈ s.log.filterMap (·.ticketed) := List.mem_filterMap.2 ⟨e, he, hx⟩
  have hxop : x.call.request.opcode = Opcode.PREPARE.toByte :=
    (answerOpcode_eq_ticket_iff _).1 (hans.symm.trans ((answerOpcode_eq_ticket_iff _).2 hop))
  obtain ⟨q, hq, hres, htok, hsrc⟩ := h.server.answer.prepared x hmem hxop hok
  obtain ⟨packet', hpk, hid, hown, -⟩ := (h.server.log e he).own _ hecall
  obtain ⟨r', hr'', hcarries⟩ := h.client.requests packet' hpk
  rw [hid, hcall, hr] at hr''
  obtain rfl := Option.some.inj hr''
  have hx' := hcarries _ (hown x hx).2
  rw [Carries, if_pos hr'] at hx'
  obtain ⟨first', hfirst', -, -, hnonce | hexec⟩ := hx'
  · obtain rfl := Option.some.inj (hfirst.symm.trans hfirst')
    exact ⟨r, first, q, hr, hr', hfirst, hq, hres, hsrc.trans (hown x hx).1, htok.trans hnonce.2⟩
  · exact absurd hxop (execute_ne_prepare hexec)

/-- Two calls that own a ticket are one call. -/
theorem LinkInv.owned_unique (h : LinkInv cfg s) {i j : ℕ} {ticket : UInt64}
    (hi : Owned cfg s i ticket) (hj : Owned cfg s j ticket) : i = j := by
  obtain ⟨r, first, q, hr, hretry, hfirst, hq, hres, -, htok⟩ := hi
  obtain ⟨r', first', q', hr', hretry', hfirst', hq', hres', -, htok'⟩ := hj
  obtain rfl := h.server.cache.unique q hq q' hq' ticket hres hres'
  exact h.client.nonces i j r r' first first' hr hr' hretry hretry' hfirst hfirst'
    (htok.symm.trans htok')

/-- A ticketed request of the client is a packet of one of its ticketed calls. -/
theorem LinkInv.client_packet (h : LinkInv cfg s) {x : Served ω} (hx : x ∈ s.served)
    (hsrc : x.call.source = cfg.csp.address) :
    ∃ e ∈ s.log, ∃ i packet r first, e.ticketed = some x ∧ e.call = some i ∧
      packet ∈ s.requests ∧ packet.call = i ∧ protocolDecode packet.bytes = .ok x.call.request ∧
      s.calls[i]? = some r ∧ r.call.retry = true ∧ r.first = some first ∧
      SameBytes first x.call.request ∧
      ((x.call.request.opcode = Opcode.PREPARE.toByte ∧ x.call.request.token = first.token) ∨
        x.call.request.opcode = Opcode.EXECUTE.toByte) := by
  obtain ⟨e, he, ht⟩ := List.mem_filterMap.1 hx
  have hl := h.server.log e he
  cases hc : e.call with
  | none => exact absurd hsrc (hl.other hc x ht)
  | some i =>
    obtain ⟨packet, hpk, hid, hown, -⟩ := hl.own i hc
    obtain ⟨r, hr, hcarries⟩ := h.client.requests packet hpk
    have hm := hcarries _ (hown x ht).2
    cases hretry : r.call.retry with
    | false =>
      simp only [Carries, hretry] at hm
      exact absurd (h.server.answer.version x hx) hm
    | true =>
      rw [Carries, if_pos hretry] at hm
      obtain ⟨first, hfirst, hsame, -, hcase⟩ := hm
      exact ⟨e, he, i, packet, r, first, ht, hc, hpk, hid, (hown x ht).2, hid ▸ hr, hretry, hfirst,
        hsame, hcase⟩

/-- **A RESULT that a call accepts for its own ticket** is the result of a run
that the call itself caused, on the caller's arguments. -/
theorem LinkInv.ran_of_result (h : LinkInv cfg s) (ho : OwnInv cfg s)
    (hp : s.pending = some (id, p)) (hretry : p.retry = true)
    (hop : p.request.opcode = Opcode.EXECUTE.toByte) (hin : packet ∈ s.replies)
    (hrecv : receiveResult p.request packet.bytes = .ok (token, result))
    (hok : result.status = .OK) : ∃ r, s.calls[id]? = some r ∧ RanFor cfg s id r result := by
  obtain ⟨-, -, -, -, -, -, hv, -⟩ := h.pending_retry hp hretry
  obtain ⟨e, he, hecall, x, hx, rfl, rfl, hans, htok⟩ := h.accepted hv hin hrecv
  have hmem : x ∈ s.served := List.mem_filterMap.2 ⟨e, he, hx⟩
  have hxop : x.call.request.opcode ≠ Opcode.PREPARE.toByte := fun hx' =>
    execute_ne_prepare hop ((answerOpcode_eq_ticket_iff _).1
      (hans.trans ((answerOpcode_eq_ticket_iff _).2 hx')))
  obtain ⟨hticket, y, hy, hyinvokes, hyres⟩ := h.server.answer.executed x hmem hxop hok
  obtain ⟨hysome, hytok⟩ := Served.invokes_iff.1 hyinvokes
  have hytok' : y.call.request.token = p.request.token :=
    hytok.trans (hticket.symm.trans (htok hop))
  obtain ⟨inv, hinv⟩ := Option.isSome_iff_exists.1 hysome
  obtain ⟨hyop, ⟨q, hq, hres, hsrc, hcmd, hargs⟩, hran⟩ := h.server.answer.invoked y hy inv hinv
  have howned := ho.pending id p hp hretry hop
  obtain ⟨r, first, q', hr, hr', hfirst, hq', hres', hsrc', htok'⟩ := howned
  obtain rfl := h.server.cache.unique q hq q' hq' y.token hres
    (by rw [Served.token, hytok']; exact hres')
  have hysrc : y.call.source = cfg.csp.address := hsrc.symm.trans hsrc'
  -- the run came from a packet of a call that owns the same ticket
  obtain ⟨ey, hey, i, packet', -, -, hyt, hyc, hpk', hid', hdec', -, -, -, -, -⟩ :=
    h.client_packet hy hysrc
  have hi : i = id := h.owned_unique
    (hid' ▸ ho.requests packet' hpk' _ hdec' (h.server.answer.version y hy) hyop)
    (hytok' ▸ ho.pending id p hp hretry hop)
  subst hi
  -- the reservation came from a packet of the call itself
  obtain ⟨-, -, j, -, r', first', -, -, -, -, -, hr'', hretry', hfirst', hsame, hcase⟩ :=
    h.client_packet hq hsrc'
  have hnonce : q.token = first'.token :=
    (hcase.resolve_right fun hexec => execute_ne_prepare hexec hres.prepare).2
  have hj : j = i := h.client.nonces j i r' r first' first hr'' hr hretry' hr' hfirst' hfirst
    (hnonce.symm.trans htok')
  subst hj
  obtain rfl := Option.some.inj (hr.symm.trans hr'')
  obtain rfl := Option.some.inj (hfirst.symm.trans hfirst')
  have hfaithful := h.client.faithful r (List.mem_of_getElem? hr) hr' first hfirst
  have hargs' : inv.args = r.call.args := by
    rw [← hsame.decodeArgs_eq, hfaithful.args] at hargs
    exact (Except.ok.inj hargs).symm
  refine ⟨r, hr, first, hfirst, ey, hey, hyc, ?_⟩
  rw [(h.server.log ey hey).ran y hyt, hinv, Option.bind_some, hran (hyres ▸ hok), hysrc, hargs',
    hcmd, hsame.command, hyres]

/-- What a call owns, and what was run for it, stays so. -/
theorem Owned.mono (hcalls : s.calls <+: t.calls) (hlog : s.log <+: t.log) {ticket : UInt64}
    (h : Owned cfg s id ticket) : Owned cfg t id ticket := by
  obtain ⟨r, first, q, hr, hretry, hfirst, hq, hrest⟩ := h
  obtain ⟨l, hl⟩ := hcalls
  obtain ⟨e, he, ht⟩ := List.mem_filterMap.1 hq
  refine ⟨r, first, q, ?_, hretry, hfirst, List.mem_filterMap.2 ⟨e, hlog.subset he, ht⟩, hrest⟩
  rw [← hl, List.getElem?_append_left (List.getElem?_eq_some_iff.1 hr).1, hr]

theorem OwnInv.mono (h : OwnInv cfg s) (hcalls : s.calls <+: t.calls) (hlog : s.log <+: t.log)
    (hrequests : ∀ packet ∈ t.requests, packet ∈ s.requests ∨ ∀ m,
      protocolDecode packet.bytes = .ok m → m.version = 2 →
        m.opcode = Opcode.EXECUTE.toByte → Owned cfg t packet.call m.token)
    (hpending : ∀ id p, t.pending = some (id, p) → p.retry = true →
      p.request.opcode = Opcode.EXECUTE.toByte → Owned cfg t id p.request.token)
    (hreturns : ∀ ret ∈ t.returns, ret ∈ s.returns ∨ ∃ r, t.calls[ret.call]? = some r ∧
      (r.call.retry = true → ret.outcome = none → ret.result.status = .OK →
        RanFor cfg t ret.call r ret.result)) : OwnInv cfg t := by
  refine ⟨fun packet hpk m hm hv hop => ?_, hpending, fun ret hret => ?_⟩
  · rcases hrequests packet hpk with hold | hnew
    · exact (h.requests packet hold m hm hv hop).mono hcalls hlog
    · exact hnew m hm hv hop
  · rcases hreturns ret hret with hold | hnew
    · obtain ⟨r, hr, hran⟩ := h.returns ret hold
      obtain ⟨l, hl⟩ := hcalls
      refine ⟨r, ?_, fun hretry hout hok => ?_⟩
      · rw [← hl, List.getElem?_append_left (List.getElem?_eq_some_iff.1 hr).1, hr]
      · obtain ⟨first, hfirst, e, he, hrest⟩ := hran hretry hout hok
        exact ⟨first, hfirst, e, hlog.subset he, hrest⟩
    · exact hnew

/-- The loops of call `id` go on to `q`. -/
theorem OwnInv.advance (h : OwnInv cfg s) {r : CallRecord} (hr : s.calls[id]? = some r)
    {q : Progress} (hpending : ∀ p', q = .pending p' → p'.retry = true →
      p'.request.opcode = Opcode.EXECUTE.toByte → Owned cfg s id p'.request.token)
    (hreturned : ∀ result, q = .returned none result → result.status = .OK →
      r.call.retry = true → RanFor cfg s id r result) : OwnInv cfg (s.advance id q) := by
  refine h.mono (by simp) (by simp) (fun packet hpk => .inl (by simpa using hpk))
    (fun i p' hp' hretry hop => ?_) (fun ret hret => ?_)
  · cases q with
    | returned => cases hp'
    | pending p₀ =>
      obtain ⟨rfl, rfl⟩ : id = i ∧ p₀ = p' := by simpa [Progress.pendingFor] using hp'
      refine (hpending p₀ rfl hretry hop).mono ?_ ?_
      · exact List.prefix_refl _
      · exact List.prefix_refl _
  · cases q with
    | pending => exact .inl hret
    | returned outcome result =>
      rcases List.mem_append.1 hret with hret | hret
      · exact .inl hret
      · obtain rfl := List.mem_singleton.1 hret
        refine .inr ⟨r, hr, fun hretry hout hok => ?_⟩
        cases hout
        exact hreturned result rfl hok hretry

/-- An exchange that fails moves on to the same request, or reports the failure. -/
theorem OwnInv.failed (h : OwnInv cfg s) (hl : LinkInv cfg s) (hp : s.pending = some (id, p))
    (e : Errno) : OwnInv cfg (s.advance id (p.failed e)) := by
  obtain ⟨r, hr, -⟩ := hl.client.pending id p hp
  refine h.advance hr (fun p' hp' hretry hop => ?_) fun result hres => ?_
  · unfold Pending.failed at hp'
    split at hp'
    · cases hp'
      exact h.pending id p hp hretry hop
    · cases hp'
  · unfold Pending.failed at hres
    split at hres <;> cases hres

/-- An exchange that is answered: a TICKET of the call's own gives it its ticket,
and a RESULT its run. -/
theorem OwnInv.answered (h : OwnInv cfg s) (hl : LinkInv cfg s) (hp : s.pending = some (id, p))
    (hin : packet ∈ s.replies) (hstray : ¬ Strays s (.receive packet))
    (hrecv : receiveResult p.request packet.bytes = .ok (token, result)) :
    OwnInv cfg (s.advance id (p.answered token result)) := by
  obtain ⟨r, hr, hpinv⟩ := hl.client.pending id p hp
  have hown : p.request.opcode = Opcode.PREPARE.toByte → packet.call = id := by
    intro hop
    by_contra hne
    obtain ⟨m, hdec, ⟨-, hm, hcmd, hreq, -, -⟩, -⟩ := receiveResult_eq_ok hrecv
    exact hstray ⟨id, p, m, hp, hop, hne, hdec,
      hm.trans ((answerOpcode_eq_ticket_iff _).2 hop), hcmd, hreq⟩
  refine h.advance hr (fun p' hp' hretry hop => ?_) fun result' hres hok hretry => ?_
  · simp only [Pending.answered] at hp'
    split at hp'
    · cases hp'
    · next hok =>
      split at hp'
      · next hphase =>
        obtain ⟨buffer, -, rfl⟩ := enterPhase_eq_pending hp'
        exact hl.owned_of_ticket hp hphase.1 hphase.2 hin (hown hphase.2) hrecv (not_not.1 hok)
      · cases hp'
  · simp only [Pending.answered] at hres
    split at hres
    · next hbad =>
      cases hres
      exact absurd hok hbad
    · split at hres
      · exact absurd rfl (enterPhase_eq_returned hres)
      · next hphase =>
        cases hres
        have hpr : p.retry = true := hpinv.retry.trans hretry
        obtain ⟨_, _, _, _, _, _, _, hprep | hexec⟩ := hl.pending_retry hp hpr
        · exact absurd ⟨hpr, hprep.1⟩ hphase
        · obtain ⟨r', hr', hran⟩ := hl.ran_of_result h hp hpr hexec hin hrecv hok
          obtain rfl := Option.some.inj (hr.symm.trans hr')
          exact hran

/-- A call that is over before its loops reports an error. -/
theorem openCall_returned {home : Node ω} {next next' : UInt16} {name : CString} {c : RemoteCall}
    {random : Except Errno UInt64} {outcome : Option Errno}
    (h : openCall home next name c random = (next', .returned outcome result)) :
    outcome ≠ none := by
  simp only [openCall] at h
  split at h
  · cases h
    simp
  · split at h
    · cases h
      simp
    · split at h
      · split at h
        · cases h
          simp
        · exact enterPhase_eq_returned (Prod.ext_iff.1 h).2
      · exact enterPhase_eq_returned (Prod.ext_iff.1 h).2

theorem OwnInv.call (h : OwnInv cfg s) (hidle : s.pending = none) {next : UInt16}
    {name : CString} {c : RemoteCall} {random : Except Errno UInt64} {q : Progress}
    (hopen : openCall cfg.home s.nextRequestId name c random = (next, q)) :
    OwnInv cfg (s.place c next q q.request) := by
  have hbase : OwnInv cfg
      { s with nextRequestId := next, calls := s.calls ++ [CallRecord.mk c q.request] } := by
    refine h.mono (List.prefix_append _ _) (List.prefix_refl _) (fun packet hpk => .inl hpk)
      (fun i p hp => ?_) (fun ret hret => .inl hret)
    rw [show _ = s.pending from rfl, hidle] at hp
    cases hp
  refine hbase.advance (r := ⟨c, q.request⟩) (by simp) (fun p' hp' hretry hop => ?_)
    fun result hres => ?_
  · subst hp'
    obtain ⟨hpr, hyes, -⟩ := openCall_pending hopen
    obtain ⟨-, -, -, -, hprep, -⟩ := hyes (hpr.symm.trans hretry)
    exact absurd hprep (execute_ne_prepare hop)
  · subst hres
    exact absurd rfl (openCall_returned hopen)

theorem ownInv_step {e : LinkEvent ω} (hl : LinkInv cfg s) (h : OwnInv cfg s)
    (hs : OwnStep cfg s e t) : OwnInv cfg t := by
  obtain ⟨hs, hstray⟩ := hs
  cases hs with
  | call hidle hname hnode hcsp hnonce hopen => exact h.call hidle hopen
  | elsewhere hidle => exact ⟨h.requests, h.pending, h.returns⟩
  | refused hp hw he => exact h.failed hl hp _
  | @send id p hp hw =>
    refine h.mono (List.prefix_refl _) (List.prefix_refl _) (fun packet hpk => ?_)
      (fun i p' hp' hretry hop => h.pending i p' hp' hretry hop) (fun ret hret => .inl hret)
    rcases List.mem_append.1 hpk with hpk | hpk
    · exact .inl hpk
    · obtain rfl := List.mem_singleton.1 hpk
      refine .inr fun m hm hv hop => ?_
      obtain ⟨r, hr, hinv⟩ := hl.client.pending id p hp
      have hretry : p.retry = true := by
        by_contra hno
        have hcarries := hinv.buffer m hm
        rw [Carries, ← hinv.retry, if_neg hno] at hcarries
        exact hcarries hv
      obtain rfl := Except.ok.inj ((hinv.request hretry).symm.trans hm)
      exact h.pending id p hp hretry hop
  | receive hp hw hin =>
    unfold Pending.settle
    split
    · exact h.failed hl hp _
    · next bytes hbytes =>
      cases hbytes
      split
      · exact h.failed hl hp _
      · next hrecv => exact h.answered hl hp hin hstray hrecv
  | timeout hp hw => exact h.failed hl hp _
  | serve _ _ _ _ | serveOther _ _ _ _ =>
    refine h.mono (List.prefix_refl _) (List.prefix_append _ _) (fun packet hpk => .inl hpk)
      (fun i p hp hretry hop => ?_) (fun ret hret => .inl hret)
    refine Owned.mono (s := s) ?_ ?_ (h.pending i p hp hretry hop)
    · exact List.prefix_refl _
    · exact List.prefix_append _ _

end Own

/-- **A ticketed call, end to end.**  In every run, a ticketed call makes the server run
its command at most once.  In every run in which no call is handed a TICKET of another
call under its own command and request id, one that returned 0 with OK made the server
run the command of its name exactly once, on the caller's arguments, and reports the
status and the detail of that run. -/
theorem ticketed_call_runs_once (cfg : Setup ω) :
    (∀ es s, Run (LinkStep cfg) (Link.boot cfg) es s → ∀ id r, s.calls[id]? = some r →
      r.call.retry = true → (s.runs id).length ≤ 1) ∧
    (∀ es s, Run (OwnStep cfg) (Link.boot cfg) es s → ∀ ret ∈ s.returns, ∀ r,
      s.calls[ret.call]? = some r → r.call.retry = true → ret.outcome = none →
      ret.result.status = .OK → ∃ run name, s.runs ret.call = [run] ∧ r.call.name = some name ∧
        lookupId cfg.home name = .ok run.commandId ∧ run.args = r.call.args ∧
        run.outcome = none ∧ run.result = ret.result) := by
  refine ⟨fun es s hr id r hid hretry => (linkInv_run hr).runs_le_one hid hretry, ?_⟩
  intro es s hr ret hret r hid hretry hout hok
  obtain ⟨hl, ho⟩ : LinkInv cfg s ∧ OwnInv cfg s :=
    hr.invariant (I := fun _ s => LinkInv cfg s ∧ OwnInv cfg s)
      ⟨⟨clientInv_boot cfg, serverInv_boot cfg⟩, ownInv_boot cfg⟩
      fun _ _ _ _ h hs => ⟨linkInv_step h.1 hs.1, ownInv_step h.1 h.2 hs⟩
  obtain ⟨r', hid', hran⟩ := ho.returns ret hret
  obtain rfl := Option.some.inj (hid.symm.trans hid')
  obtain ⟨first, hfirst, e, he, hcall, hrun⟩ := hran hretry hout hok
  obtain ⟨name, hname, hlookup⟩ :=
    (hl.client.faithful r (List.mem_of_getElem? hid) hretry first hfirst).command
  have hmem : (⟨first.commandId, r.call.args, ⟨cfg.csp.address, false, true⟩, none,
      ret.result⟩ : HandlerRun) ∈ s.runs ret.call :=
    List.mem_filterMap.2 ⟨e, List.mem_filter.2 ⟨he, by simp [hcall]⟩, hrun⟩
  obtain ⟨run, hruns⟩ := List.length_eq_one_iff.1
    (Nat.le_antisymm (hl.runs_le_one hid hretry) (List.length_pos_of_mem hmem))
  rw [hruns, List.mem_singleton] at hmem
  subst hmem
  exact ⟨_, name, hruns, hname, hlookup, rfl, rfl, rfl⟩

/-- A client at address 5, and the counting node at address 9. -/
def countingSetup : Setup ℕ :=
  ⟨⟨5, 16383, true, true⟩, countingNode, 9, by decide, 0, 60000, 2⟩

/-- A ticketed call of `count`. -/
def countCall : RemoteCall := ⟨9, some (.ofString "count"), [], true⟩

/-- The messages of such a call that differ in their opcode and token only. -/
def countMessage (opcode : Opcode) (token : UInt64) : Message :=
  ⟨2, token, opcode.toByte, 0, 0, 1, 1, []⟩

/-- A message of `count` on the wire. -/
def countBytes (opcode : Opcode) (token : UInt8) : List UInt8 :=
  [2, opcode.toByte, 0, 0, 0, 1, 0, 1, 0, 0, 0, 0, 0, 0, 0, 0, 0, 0, 0, token]

/-- The loops of a call of `count`, before they send this message. -/
def countPending (opcode : Opcode) (token : UInt8) (result : Result) (t : UInt64) : Pending :=
  ⟨9, true, countMessage opcode token.toUInt64, countBytes opcode token, 0, t, result⟩

/-- How a message of `count` is served. -/
def countServed (cache : RetryCache) (opcode : Opcode) (token newTicket : UInt64) (now : ℤ) :
    Served ℕ :=
  ⟨⟨5, countMessage opcode token, newTicket, now, countingNode⟩,
    retryDispatch 0 60000 cache 5 (countMessage opcode token) newTicket now countingNode⟩

/-- The cache with ticket 9 reserved. -/
def countCache (complete : Bool) : RetryCache :=
  [⟨7, 9, 60000, 5, 1, 1, 0, complete, [], Result.zero⟩, Ticket.zero]

/-- The link during call 0 of `count`: how many of its packets are out each way,
and whether the command has run. -/
def countLink (pending : Option Pending) (waiting : Bool) (sent answered : ℕ) (complete : Bool)
    (returns : List Return) : Link ℕ where
  nextRequestId := 1
  pending := pending.map (0, ·)
  waiting := waiting
  requests := [⟨countBytes .PREPARE 7, 0⟩, ⟨countBytes .EXECUTE 9, 0⟩].take sent
  replies := [⟨countBytes .TICKET 9, 0⟩, ⟨countBytes .RESULT 9, 0⟩].take answered
  cache := if answered = 0 then RetryCache.empty 2 else countCache complete
  calls := [⟨countCall, some (countMessage .PREPARE 7)⟩]
  returns := returns
  log := [⟨some 0, some (countServed (RetryCache.empty 2) .PREPARE 7 9 0), none⟩,
    ⟨some 0, some (countServed (countCache false) .EXECUTE 9 0 10),
      some ⟨1, [], ⟨5, false, true⟩, none, Result.zero⟩⟩].take answered

/-- The link with call 0 of `count` done. -/
def countDone : Link ℕ := countLink none false 2 2 true [⟨0, none, Result.zero⟩]

/-- Admissibility is about the times and the offered tickets only. -/
theorem admissible_of_map {hist : List (Served ω)} {l : List (ℤ × UInt64)}
    (h : hist.map (fun x => (x.call.now, x.call.newTicket)) = l)
    (ht : l.Pairwise fun a b => a.1 ≤ b.1)
    (hf : l.Pairwise fun a b => b.2 ≠ 0 → a.2 ≠ b.2) : Admissible hist := by
  subst h
  rw [List.pairwise_map] at ht hf
  exact ⟨ht, hf⟩

/-- A step other than a reception does not stray. -/
theorem LinkStep.own {cfg : Setup ω} {s t : Link ω} {e : LinkEvent ω} (h : LinkStep cfg s e t)
    (hne : ∀ packet, e ≠ .receive packet) : OwnStep cfg s e t := by
  refine ⟨h, fun hs => ?_⟩
  cases e with
  | receive packet => exact hne packet rfl
  | _ => exact hs

/-- Nor does the reception of a packet of the call itself. -/
theorem LinkStep.own_receive {cfg : Setup ω} {s t : Link ω} {id : ℕ} {p : Pending}
    {packet : Packet} (h : LinkStep cfg s (.receive packet) t) (hp : s.pending = some (id, p))
    (hid : packet.call = id) : OwnStep cfg s (.receive packet) t := by
  refine ⟨h, ?_⟩
  rintro ⟨id', p', -, hp', -, hne, -⟩
  rw [hp] at hp'
  cases hp'
  exact hne hid

/-- A PREPARE of `count`, served by an empty cache. -/
theorem count_reserved : serveRequest 0 60000 (RetryCache.empty 2) 5 (countBytes .PREPARE 7) 9 0
    countingNode = ⟨countCache false, countingNode, .ok (countBytes .TICKET 9), none⟩ := rfl

/-- An EXECUTE of `count` whose ticket has not run. -/
theorem count_executed : serveRequest 0 60000 (countCache false) 5 (countBytes .EXECUTE 9) 0 10
    countingNode = ⟨countCache true, (invokeId 0 1 [] ⟨5, false, true⟩ countingNode).node,
      .ok (countBytes .RESULT 9),
      some ⟨1, [], invokeId 0 1 [] ⟨5, false, true⟩ countingNode⟩⟩ := rfl

/-- A TICKET of `count`, taken for the answer to either call's PREPARE. -/
theorem count_ticketed {nonce : UInt8} (h : nonce = 7 ∨ nonce = 8) :
    (countPending .PREPARE nonce ⟨.UNAVAILABLE, .empty⟩ 0).settle (some (countBytes .TICKET 9)) =
      .pending (countPending .EXECUTE 9 Result.zero 9) := by
  rcases h with rfl | rfl <;> rfl

/-- A reception whose outcome is known. -/
theorem LinkStep.receive_eq {cfg : Setup ω} {s : Link ω} {id : ℕ} {p : Pending} {packet : Packet}
    {q : Progress} (hp : s.pending = some (id, p)) (hw : s.waiting = true)
    (hin : packet ∈ s.replies) (hq : p.settle (some packet.bytes) = q) :
    LinkStep cfg s (.receive packet) (s.advance id q) :=
  hq ▸ .receive hp hw hin

/-- An EXECUTE of `count` whose ticket has run. -/
theorem count_replayed : serveRequest 0 60000 (countCache true) 5 (countBytes .EXECUTE 9) 0 20
    countingNode = ⟨countCache true, countingNode, .ok (countBytes .RESULT 9), none⟩ := rfl

/-- Call 0 of `count`, undisturbed. -/
theorem countDone_run :
    ∃ es, Run (OwnStep countingSetup) (Link.boot countingSetup) es countDone := by
  let prepare := countPending .PREPARE 7 ⟨.UNAVAILABLE, .empty⟩ 0
  let execute := countPending .EXECUTE 9 Result.zero 9
  have h₁ : LinkStep countingSetup (Link.boot countingSetup) (.call countCall (.ok 7))
      (countLink (some prepare) false 0 0 false []) :=
    @LinkStep.call _ _ _ (.ofString "count") _ _ 1 (.pending prepare) rfl rfl rfl
      (by decide) (by rintro nonce ⟨⟩; exact ⟨by decide, by simp [Link.boot]⟩) rfl
  have h₂ : LinkStep countingSetup (countLink (some prepare) false 0 0 false []) .send
      (countLink (some prepare) true 1 0 false []) := @LinkStep.send _ _ _ 0 prepare rfl rfl
  have h₃ : LinkStep countingSetup (countLink (some prepare) true 1 0 false [])
      (.serve ⟨countBytes .PREPARE 7, 0⟩ 9 0 countingNode)
      (countLink (some prepare) true 1 1 false []) :=
    @LinkStep.serve _ countingSetup (countLink (some prepare) true 1 0 false [])
      ⟨countBytes .PREPARE 7, 0⟩ 9 0 countingNode _
      (some (countServed (RetryCache.empty 2) .PREPARE 7 9 0)) (by simp [countLink])
      count_reserved rfl (admissible_of_map (l := [(0, 9)]) rfl (by simp) (by simp))
  have h₄ : LinkStep countingSetup (countLink (some prepare) true 1 1 false [])
      (.receive ⟨countBytes .TICKET 9, 0⟩) (countLink (some execute) false 1 1 false []) :=
    @LinkStep.receive_eq _ countingSetup (countLink (some prepare) true 1 1 false []) 0 prepare
      ⟨countBytes .TICKET 9, 0⟩ _ rfl rfl (by simp [countLink]) (count_ticketed (.inl rfl))
  have h₅ : LinkStep countingSetup (countLink (some execute) false 1 1 false []) .send
      (countLink (some execute) true 2 1 false []) := @LinkStep.send _ _ _ 0 execute rfl rfl
  have h₆ : LinkStep countingSetup (countLink (some execute) true 2 1 false [])
      (.serve ⟨countBytes .EXECUTE 9, 0⟩ 0 10 countingNode)
      (countLink (some execute) true 2 2 true []) :=
    @LinkStep.serve _ countingSetup (countLink (some execute) true 2 1 false [])
      ⟨countBytes .EXECUTE 9, 0⟩ 0 10 countingNode _
      (some (countServed (countCache false) .EXECUTE 9 0 10)) (by simp [countLink])
      count_executed rfl (admissible_of_map (l := [(0, 9), (10, 0)]) rfl (by simp) (by simp))
  have h₇ : LinkStep countingSetup (countLink (some execute) true 2 2 true [])
      (.receive ⟨countBytes .RESULT 9, 0⟩) countDone :=
    @LinkStep.receive _ countingSetup (countLink (some execute) true 2 2 true []) 0 execute
      ⟨countBytes .RESULT 9, 0⟩ rfl rfl (by simp [countLink])
  exact ⟨_, .cons (h₁.own nofun) (.cons (h₂.own nofun) (.cons (h₃.own nofun)
    (.cons (h₄.own_receive rfl rfl) (.cons (h₅.own nofun) (.cons (h₆.own nofun)
      (.single (h₇.own_receive rfl rfl)))))))⟩

/-- A call that reports success, in a run where nothing strays: it ran `count`
once. -/
theorem ticketed_call_runs_once_counting :
    ∃ es s, Run (OwnStep countingSetup) (Link.boot countingSetup) es s ∧
      (⟨0, none, Result.zero⟩ : Return) ∈ s.returns ∧ ∃ run, s.runs 0 = [run] ∧
        run.args = [] ∧ run.result = Result.zero := by
  obtain ⟨es, hr⟩ := countDone_run
  have hret : (⟨0, none, Result.zero⟩ : Return) ∈ countDone.returns := List.mem_singleton_self _
  obtain ⟨run, -, hruns, -, -, hargs, -, hres⟩ := (ticketed_call_runs_once countingSetup).2 es
    countDone hr _ hret ⟨countCall, some (countMessage .PREPARE 7)⟩ rfl rfl rfl rfl
  exact ⟨es, countDone, hr, hret, run, hruns, hargs, hres⟩

/-- Calls to another node move the request id on. -/
theorem run_elsewhere (cfg : Setup ω) {s : Link ω} (hidle : s.pending = none) (n : ℕ) :
    ∃ es, Run (LinkStep cfg) s es { s with nextRequestId := s.nextRequestId + UInt16.ofNat n } := by
  induction n with
  | zero =>
    refine ⟨[], ?_⟩
    rw [show s.nextRequestId + UInt16.ofNat 0 = s.nextRequestId by simp]
    exact .nil s
  | succ n ih =>
    obtain ⟨es, hr⟩ := ih
    have hs := @LinkStep.elsewhere _ cfg
      { s with nextRequestId := s.nextRequestId + UInt16.ofNat n } hidle
    have hnext : s.nextRequestId + UInt16.ofNat n + 1 = s.nextRequestId + UInt16.ofNat (n + 1) := by
      rw [UInt16.ofNat_add, UInt16.add_assoc]
      rfl
    simp only [hnext] at hs
    exact ⟨_, hr.snoc hs⟩

/-- The link during call 1 of `count`, whose request id is that of call 0. -/
def staleLink (pending : Option Pending) (waiting : Bool) (sent answered : ℕ)
    (returns : List Return) : Link ℕ :=
  { countDone with
    pending := pending.map (1, ·)
    waiting := waiting
    requests := countDone.requests ++
      [⟨countBytes .PREPARE 8, 1⟩, ⟨countBytes .EXECUTE 9, 1⟩].take sent
    replies := countDone.replies ++ [⟨countBytes .RESULT 9, 1⟩].take answered
    calls := countDone.calls ++ [⟨countCall, some (countMessage .PREPARE 8)⟩]
    returns := countDone.returns ++ returns
    log := countDone.log ++
      [⟨some 1, some (countServed (countCache true) .EXECUTE 9 0 20), none⟩].take answered }

/-- Call 1 comes 65536 calls after call 0.  Its PREPARE is lost, and a duplicate of
call 0's TICKET arrives in its place. -/
theorem staleLink_run : ∃ es, Run (LinkStep countingSetup) countDone es
    (staleLink none false 2 1 [⟨1, none, Result.zero⟩]) := by
  let prepare := countPending .PREPARE 8 ⟨.UNAVAILABLE, .empty⟩ 0
  let execute := countPending .EXECUTE 9 Result.zero 9
  obtain ⟨es, hr⟩ := run_elsewhere countingSetup (s := countDone) rfl 65535
  rw [show countDone.nextRequestId + UInt16.ofNat 65535 = 0 by decide] at hr
  have h₁ : LinkStep countingSetup { countDone with nextRequestId := 0 } (.call countCall (.ok 8))
      (staleLink (some prepare) false 0 0 []) :=
    @LinkStep.call _ _ _ (.ofString "count") _ _ 1 (.pending prepare) rfl rfl rfl
      (by decide) (by
        rintro nonce ⟨⟩
        refine ⟨by decide, fun r hr _ m hm => ?_⟩
        obtain rfl := List.mem_singleton.1 hr
        obtain rfl := Option.some.inj hm
        decide) rfl
  have h₂ : LinkStep countingSetup (staleLink (some prepare) false 0 0 []) .send
      (staleLink (some prepare) true 1 0 []) := @LinkStep.send _ _ _ 1 prepare rfl rfl
  have h₃ : LinkStep countingSetup (staleLink (some prepare) true 1 0 [])
      (.receive ⟨countBytes .TICKET 9, 0⟩) (staleLink (some execute) false 1 0 []) :=
    @LinkStep.receive_eq _ countingSetup (staleLink (some prepare) true 1 0 []) 1 prepare
      ⟨countBytes .TICKET 9, 0⟩ _ rfl rfl (by simp [staleLink, countDone, countLink])
      (count_ticketed (.inr rfl))
  have h₄ : LinkStep countingSetup (staleLink (some execute) false 1 0 []) .send
      (staleLink (some execute) true 2 0 []) := @LinkStep.send _ _ _ 1 execute rfl rfl
  have h₅ : LinkStep countingSetup (staleLink (some execute) true 2 0 [])
      (.serve ⟨countBytes .EXECUTE 9, 1⟩ 0 20 countingNode)
      (staleLink (some execute) true 2 1 []) :=
    @LinkStep.serve _ countingSetup (staleLink (some execute) true 2 0 [])
      ⟨countBytes .EXECUTE 9, 1⟩ 0 20 countingNode _
      (some (countServed (countCache true) .EXECUTE 9 0 20))
      (by simp [staleLink, countDone, countLink]) count_replayed rfl
      (admissible_of_map (l := [(0, 9), (10, 0), (20, 0)]) rfl (by simp) (by simp))
  have h₆ : LinkStep countingSetup (staleLink (some execute) true 2 1 [])
      (.receive ⟨countBytes .RESULT 9, 1⟩) (staleLink none false 2 1 [⟨1, none, Result.zero⟩]) :=
    @LinkStep.receive _ countingSetup (staleLink (some execute) true 2 1 []) 1 execute
      ⟨countBytes .RESULT 9, 1⟩ rfl rfl (by simp [staleLink, countDone, countLink])
  exact ⟨_, hr.append (.cons h₁ (.cons h₂ (.cons h₃ (.cons h₄ (.cons h₅ (.single h₆))))))⟩

/-- A call that reports success and ran nothing: it took the duplicate of an old
TICKET for its own, and was answered with the old result. -/
theorem stale_ticket_replayed : ¬ ∀ (cfg : Setup ℕ) (es : List (LinkEvent ℕ)) (s : Link ℕ),
    Run (LinkStep cfg) (Link.boot cfg) es s → ∀ ret ∈ s.returns, ∀ r,
      s.calls[ret.call]? = some r → r.call.retry = true → ret.outcome = none →
      ret.result.status = .OK → (s.runs ret.call).length = 1 := by
  intro h
  obtain ⟨es, hr⟩ := countDone_run
  obtain ⟨fs, hr'⟩ := staleLink_run
  have hrun := (hr.mono fun _ _ _ hs => hs.1).append hr'
  have hone := h countingSetup _ _ hrun ⟨1, none, Result.zero⟩
    (by simp [staleLink]) ⟨countCall, some (countMessage .PREPARE 8)⟩ rfl rfl rfl rfl
  exact absurd hone (by decide)

end KfswServices.Command
