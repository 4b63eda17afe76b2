/-
# A ticket runs its command at most once

Whole runs of `kfsw_command_retry_dispatch` on one cache: any sources, any
requests in any order, non-decreasing times, and nonzero `new_ticket` values
that never repeat (`Admissible`).  A call is seen with the reply it got
(`Served`), and the rest of the node may be anything at each call.

`CacheInv` ties the cache to the history.  A used slot is the reservation of one
earlier PREPARE, its completion flag says whether the history holds a run of its
ticket, and a reservation that is no longer in the cache has expired.  Expiry
cannot be undone, because time does not go back; so a ticket that ran is either
still there, marked complete, or never served again (`cacheInv_step`).
-/

import KfswServices.Command.Retry
import KfswServices.Library.Run

namespace KfswServices.Command

open Library

variable {ω : Type*}

/-- The arguments of one call, and the rest of the node at that moment. -/
structure Call (ω : Type*) where
  source : UInt16
  request : Message
  newTicket : UInt64
  now : ℤ
  node : Node ω

/-- A call and its reply. -/
structure Served (ω : Type*) where
  call : Call ω
  reply : RetryReply ω

/-- One call on the cache. -/
def ServeStep (self : Tid) (window : ℕ) (cache : RetryCache) (s : Served ω)
    (cache' : RetryCache) : Prop :=
  s.reply = retryDispatch self window cache s.call.source s.call.request s.call.newTicket
    s.call.now s.call.node ∧ cache' = s.reply.cache

namespace Served

/-- The token the request carries: a nonce, or the ticket to execute. -/
def token (s : Served ω) : UInt64 := s.call.request.token

/-- A PREPARE that was handed the ticket `t`, made for it. -/
structure Reserves (s : Served ω) (t : UInt64) : Prop where
  prepare : s.call.request.opcode = Opcode.PREPARE.toByte
  ok : s.reply.result.status = .OK
  ticket : s.reply.ticket = t
  fresh : s.call.newTicket = t
  nonzero : t ≠ 0

/-- The call ran `kfsw_command_invoke_id` for the ticket `t`. -/
def invokes (t : UInt64) (s : Served ω) : Bool := s.reply.invoked.isSome && s.token = t

theorem invokes_iff {t : UInt64} {s : Served ω} :
    s.invokes t = true ↔ s.reply.invoked.isSome = true ∧ s.token = t := by
  simp [invokes]

/-- When a ticket reserved by this call expires. -/
def expiry (window : ℕ) (s : Served ω) : ℤ := int64 (s.call.now + window)

end Served

/-- Two requests for the same command with the same bytes. -/
structure SameBytes (a b : Message) : Prop where
  command : a.commandId = b.commandId
  request : a.requestId = b.requestId
  count : a.argCount = b.argCount
  payload : a.payload = b.payload

theorem SameBytes.decodeArgs_eq {a b : Message} (h : SameBytes a b) :
    decodeArgs a = decodeArgs b := by
  simp only [decodeArgs, h.count, h.payload]

/-- Time does not go back, and a nonzero `new_ticket` is offered once. -/
structure Admissible (hist : List (Served ω)) : Prop where
  time : hist.Pairwise fun a b => a.call.now ≤ b.call.now
  fresh : hist.Pairwise fun a b => b.call.newTicket ≠ 0 → a.call.newTicket ≠ b.call.newTicket

theorem admissible_snoc_iff {hist : List (Served ω)} {s : Served ω} :
    Admissible (hist ++ [s]) ↔ Admissible hist ∧ (∀ p ∈ hist, p.call.now ≤ s.call.now) ∧
      (s.call.newTicket ≠ 0 → ∀ p ∈ hist, p.call.newTicket ≠ s.call.newTicket) := by
  constructor
  · intro h
    obtain ⟨ht, _, ht'⟩ := List.pairwise_append.1 h.time
    obtain ⟨hf, _, hf'⟩ := List.pairwise_append.1 h.fresh
    exact ⟨⟨ht, hf⟩, fun p hp => ht' p hp s (by simp), fun hn p hp => hf' p hp s (by simp) hn⟩
  · rintro ⟨h, ht, hf⟩
    refine ⟨List.pairwise_append.2 ⟨h.time, by simp, fun p hp b hb => ?_⟩,
      List.pairwise_append.2 ⟨h.fresh, by simp, fun p hp b hb hn => ?_⟩⟩
    · exact List.mem_singleton.1 hb ▸ ht p hp
    · obtain rfl := List.mem_singleton.1 hb
      exact hf hn p hp

/-- The entry `e` is what the PREPARE `p` reserved. -/
structure ReservedBy (window : ℕ) (p : Served ω) (e : Ticket) : Prop where
  reserves : p.Reserves e.ticket
  nonce : e.nonce = p.token
  expires : e.expires = p.expiry window
  source : e.source = p.call.source
  command : e.command = p.call.request.commandId
  request : e.request = p.call.request.requestId
  count : e.count = p.call.request.argCount
  payload : e.payload = p.call.request.payload
  args : ∃ args, decodeArgs p.call.request = .ok args

variable {e : Ticket}

/-- A request that matches an entry repeats the bytes of its reservation. -/
theorem ReservedBy.sameBytes {window : ℕ} {p : Served ω} {request : Message}
    (h : ReservedBy window p e) (hm : e.Matches request) : SameBytes p.call.request request :=
  ⟨h.command ▸ hm.1, h.request ▸ hm.2.1, h.count ▸ hm.2.2.2.1, h.payload ▸ hm.2.2.2.2⟩

/-- The cache as its history left it. -/
structure CacheInv (window : ℕ) (hist : List (Served ω)) (cache : RetryCache) : Prop where
  reserved : ∀ e ∈ cache, e.ticket ≠ 0 → ∃ p ∈ hist, ReservedBy window p e
  idle : ∀ e ∈ cache, e.ticket ≠ 0 → e.complete = false →
    ∀ s ∈ hist, s.invokes e.ticket = false
  stored : ∀ e ∈ cache, e.ticket ≠ 0 → e.complete = true →
    ∃ s ∈ hist, s.invokes e.ticket = true ∧ s.reply.result = e.result
  distinct : ∀ (i j : ℕ) (a b : Ticket), cache[i]? = some a → cache[j]? = some b →
    a.ticket ≠ 0 → a.ticket = b.ticket → i = j
  kept : ∀ p ∈ hist, ∀ t, p.Reserves t →
    (∃ e ∈ cache, e.ticket = t) ∨ ∃ s ∈ hist, p.expiry window ≤ s.call.now
  unique : ∀ p ∈ hist, ∀ p' ∈ hist, ∀ t, p.Reserves t → p'.Reserves t → p = p'
  ran : ∀ s ∈ hist, ∀ t, s.invokes t = true → ∃ p ∈ hist, p.Reserves t
  once : ∀ t, hist.countP (Served.invokes t) ≤ 1

theorem cacheInv_empty (window slots : ℕ) :
    CacheInv window ([] : List (Served ω)) (RetryCache.empty slots) := by
  have hz : ∀ e ∈ RetryCache.empty slots, e.ticket = 0 := fun e he => by
    rw [List.eq_of_mem_replicate he]; rfl
  constructor
  · exact fun e he h => absurd (hz e he) h
  · exact fun e he h => absurd (hz e he) h
  · exact fun e he h => absurd (hz e he) h
  · exact fun i j a b ha _ h => absurd (hz a (List.mem_of_getElem? ha)) h
  · simp
  · simp
  · simp
  · simp

section Step

variable {window : ℕ} {hist : List (Served ω)} {cache : RetryCache} {s : Served ω}

/-- A call that changes nothing and reserves nothing keeps the invariant. -/
theorem CacheInv.unchanged (h : CacheInv window hist cache) (hinv : s.reply.invoked = none)
    (hres : ∀ t, ¬ s.Reserves t) : CacheInv window (hist ++ [s]) cache := by
  have hno : ∀ t, s.invokes t = false := fun t => by simp [Served.invokes, hinv]
  constructor
  · intro e he ht
    obtain ⟨p, hp, h'⟩ := h.reserved e he ht
    exact ⟨p, List.mem_append_left _ hp, h'⟩
  · intro e he ht hc x hx
    rcases List.mem_append.1 hx with hx | hx
    · exact h.idle e he ht hc x hx
    · exact List.mem_singleton.1 hx ▸ hno _
  · intro e he ht hc
    obtain ⟨x, hx, h'⟩ := h.stored e he ht hc
    exact ⟨x, List.mem_append_left _ hx, h'⟩
  · exact h.distinct
  · intro p hp t ht
    rcases List.mem_append.1 hp with hp | hp
    · rcases h.kept p hp t ht with h' | ⟨x, hx, h'⟩
      · exact .inl h'
      · exact .inr ⟨x, List.mem_append_left _ hx, h'⟩
    · exact absurd (List.mem_singleton.1 hp ▸ ht) (hres t)
  · intro p hp p' hp' t ht ht'
    rcases List.mem_append.1 hp with hp | hp
    · rcases List.mem_append.1 hp' with hp' | hp'
      · exact h.unique p hp p' hp' t ht ht'
      · exact absurd (List.mem_singleton.1 hp' ▸ ht') (hres t)
    · exact absurd (List.mem_singleton.1 hp ▸ ht) (hres t)
  · intro x hx t ht
    rcases List.mem_append.1 hx with hx | hx
    · obtain ⟨p, hp, h'⟩ := h.ran x hx t ht
      exact ⟨p, List.mem_append_left _ hp, h'⟩
    · rw [List.mem_singleton.1 hx, hno] at ht
      cases ht
  · intro t
    rw [List.countP_append, List.countP_singleton, hno t]
    exact h.once t

/-- What is in a slot after another entry was written to slot `i`. -/
theorem getElem?_set_cases {cache : RetryCache} {i j : ℕ} {a : Ticket}
    (h : (cache.set i e)[j]? = some a) : (j = i ∧ a = e) ∨ (j ≠ i ∧ cache[j]? = some a) := by
  by_cases hij : i = j
  · subst hij
    have hlt : i < cache.length := by
      have := (List.getElem?_eq_some_iff.1 h).1
      rwa [List.length_set] at this
    rw [List.getElem?_set_self hlt] at h
    exact .inl ⟨rfl, (Option.some.inj h).symm⟩
  · rw [List.getElem?_set_ne hij] at h
    exact .inr ⟨Ne.symm hij, h⟩

theorem mem_set_cases {cache : RetryCache} {i : ℕ} {a : Ticket} (h : a ∈ cache.set i e) :
    a = e ∨ ∃ j, j ≠ i ∧ cache[j]? = some a := by
  obtain ⟨j, hj⟩ := List.mem_iff_getElem?.1 h
  rcases getElem?_set_cases hj with ⟨_, rfl⟩ | ⟨hji, hj⟩
  · exact .inl rfl
  · exact .inr ⟨j, hji, hj⟩

/-- An entry stays in the cache when another slot is written. -/
theorem mem_set_of_ne {cache : RetryCache} {i j : ℕ} {a : Ticket} (hj : cache[j]? = some a)
    (h : j ≠ i) : a ∈ cache.set i e :=
  List.mem_of_getElem? ((List.getElem?_set_ne (Ne.symm h)).trans hj)

section

variable (h : CacheInv window hist cache)
include h

/-- A ticket that is new to the history is in no slot and was never run. -/
theorem CacheInv.ticket_ne {t : UInt64} (hnew : ∀ p ∈ hist, p.call.newTicket ≠ t) :
    (∀ e ∈ cache, e.ticket ≠ 0 → e.ticket ≠ t) ∧ ∀ x ∈ hist, x.invokes t = false := by
  refine ⟨fun e he hz ht => ?_, fun x hx => ?_⟩
  · obtain ⟨p, hp, hr⟩ := h.reserved e he hz
    exact hnew p hp (hr.reserves.fresh.trans ht)
  · by_contra hne
    obtain ⟨p, hp, hr⟩ := h.ran x hx t (by simpa using hne)
    exact hnew p hp hr.fresh

/-- **Reserving a ticket** in a free slot keeps the invariant: the slot's old
ticket, if any, has expired. -/
theorem CacheInv.reserve {i : ℕ} {args : List Arg}
    (hprep : s.call.request.opcode = Opcode.PREPARE.toByte) (hslot : cache[i]? = some e)
    (hvac : e.Vacant s.call.now) (hz : s.call.newTicket ≠ 0)
    (hargs : decodeArgs s.call.request = .ok args)
    (hnew : ∀ p ∈ hist, p.call.newTicket ≠ s.call.newTicket) (hok : s.reply.result.status = .OK)
    (hticket : s.reply.ticket = s.call.newTicket) (hinv : s.reply.invoked = none) :
    CacheInv window (hist ++ [s]) (cache.set i
      (Command.reserve window s.call.source s.call.request s.call.newTicket s.call.now)) := by
  obtain ⟨hnone, hnorun⟩ := h.ticket_ne hnew
  have hno : ∀ t, s.invokes t = false := fun t => by simp [Served.invokes, hinv]
  have hres : s.Reserves s.call.newTicket := ⟨hprep, hok, hticket, rfl, hz⟩
  have hlen : i < cache.length := (List.getElem?_eq_some_iff.1 hslot).1
  constructor
  · intro a ha hat
    rcases mem_set_cases ha with rfl | ⟨j, _, hj⟩
    · exact ⟨s, by simp, hres, rfl, rfl, rfl, rfl, rfl, rfl, rfl, args, hargs⟩
    · obtain ⟨p, hp, h'⟩ := h.reserved a (List.mem_of_getElem? hj) hat
      exact ⟨p, List.mem_append_left _ hp, h'⟩
  · intro a ha hat hc x hx
    rcases List.mem_append.1 hx with hx | hx
    · rcases mem_set_cases ha with rfl | ⟨j, _, hj⟩
      · exact hnorun x hx
      · exact h.idle a (List.mem_of_getElem? hj) hat hc x hx
    · exact List.mem_singleton.1 hx ▸ hno _
  · intro a ha hat hc
    rcases mem_set_cases ha with rfl | ⟨j, _, hj⟩
    · cases hc
    · obtain ⟨x, hx, h'⟩ := h.stored a (List.mem_of_getElem? hj) hat hc
      exact ⟨x, List.mem_append_left _ hx, h'⟩
  · intro j k a b ha hb hat hab
    rcases getElem?_set_cases ha with ⟨hji, rfl⟩ | ⟨_, ha'⟩ <;>
      rcases getElem?_set_cases hb with ⟨hki, rfl⟩ | ⟨_, hb'⟩
    · exact hji.trans hki.symm
    · exact absurd hab.symm (hnone b (List.mem_of_getElem? hb') (hab ▸ hat))
    · exact absurd hab (hnone a (List.mem_of_getElem? ha') hat)
    · exact h.distinct j k a b ha' hb' hat hab
  · intro p hp t ht
    rcases List.mem_append.1 hp with hp | hp
    · rcases h.kept p hp t ht with ⟨a, ha, hat⟩ | ⟨x, hx, h'⟩
      · obtain ⟨j, hj⟩ := List.mem_iff_getElem?.1 ha
        by_cases hji : j = i
        · subst hji
          obtain rfl : a = e := Option.some.inj (hj.symm.trans hslot)
          have haz : a.ticket ≠ 0 := hat ▸ ht.nonzero
          obtain ⟨q, hq, hr⟩ := h.reserved a ha haz
          obtain rfl := h.unique q hq p hp t (hat ▸ hr.reserves) ht
          refine .inr ⟨s, by simp, ?_⟩
          exact hr.expires ▸ hvac.resolve_left haz
        · exact .inl ⟨a, mem_set_of_ne hj hji, hat⟩
      · exact .inr ⟨x, List.mem_append_left _ hx, h'⟩
    · obtain rfl := List.mem_singleton.1 hp
      exact .inl ⟨_, List.mem_set hlen _, ht.fresh⟩
  · intro p hp p' hp' t ht ht'
    rcases List.mem_append.1 hp with hq | hq <;> rcases List.mem_append.1 hp' with hq' | hq'
    · exact h.unique p hq p' hq' t ht ht'
    · obtain rfl := List.mem_singleton.1 hq'
      exact absurd (ht.fresh.trans ht'.fresh.symm) (hnew p hq)
    · obtain rfl := List.mem_singleton.1 hq
      exact absurd (ht'.fresh.trans ht.fresh.symm) (hnew p' hq')
    · rw [List.mem_singleton.1 hq, List.mem_singleton.1 hq']
  · intro x hx t ht
    rcases List.mem_append.1 hx with hx | hx
    · obtain ⟨p, hp, h'⟩ := h.ran x hx t ht
      exact ⟨p, List.mem_append_left _ hp, h'⟩
    · rw [List.mem_singleton.1 hx, hno] at ht
      cases ht
  · intro t
    rw [List.countP_append, List.countP_singleton, hno t]
    exact h.once t

/-- **Running a ticket** keeps the invariant: it was idle, and is complete now. -/
theorem CacheInv.execute {i : ℕ} {r : Result}
    (hslot : cache[i]? = some e) (hz : e.ticket ≠ 0) (hidle : e.complete = false)
    (hopcode : s.call.request.opcode ≠ Opcode.PREPARE.toByte) (hinv : s.invokes e.ticket = true)
    (hr : s.reply.result = r) :
    CacheInv window (hist ++ [s]) (cache.set i { e with result := r, complete := true }) := by
  have hmem : e ∈ cache := List.mem_of_getElem? hslot
  have hlen : i < cache.length := (List.getElem?_eq_some_iff.1 hslot).1
  have htok : ∀ t, s.invokes t = true → t = e.ticket := fun t ht =>
    (Served.invokes_iff.1 ht).2.symm.trans (Served.invokes_iff.1 hinv).2
  have hother {j : ℕ} {a : Ticket} (hji : j ≠ i) (hj : cache[j]? = some a) :
      s.invokes a.ticket = false := by
    by_contra hne
    have hae := htok a.ticket (by simpa using hne)
    exact hji (h.distinct j i a e hj hslot (hae ▸ hz) hae)
  have hres : ∀ t, ¬ s.Reserves t := fun t ht => hopcode ht.prepare
  constructor
  · intro a ha hat
    rcases mem_set_cases ha with rfl | ⟨j, _, hj⟩
    · obtain ⟨p, hp, h'⟩ := h.reserved e hmem hz
      exact ⟨p, List.mem_append_left _ hp, h'.reserves, h'.nonce, h'.expires, h'.source,
        h'.command, h'.request, h'.count, h'.payload, h'.args⟩
    · obtain ⟨p, hp, h'⟩ := h.reserved a (List.mem_of_getElem? hj) hat
      exact ⟨p, List.mem_append_left _ hp, h'⟩
  · intro a ha hat hc x hx
    rcases mem_set_cases ha with rfl | ⟨j, hji, hj⟩
    · cases hc
    · rcases List.mem_append.1 hx with hx | hx
      · exact h.idle a (List.mem_of_getElem? hj) hat hc x hx
      · exact List.mem_singleton.1 hx ▸ hother hji hj
  · intro a ha hat hc
    rcases mem_set_cases ha with rfl | ⟨j, _, hj⟩
    · exact ⟨s, by simp, hinv, hr⟩
    · obtain ⟨x, hx, h'⟩ := h.stored a (List.mem_of_getElem? hj) hat hc
      exact ⟨x, List.mem_append_left _ hx, h'⟩
  · intro j k a b ha hb hat hab
    have hold {j : ℕ} {a : Ticket}
        (ha : (cache.set i { e with result := r, complete := true })[j]? = some a) :
        ∃ a', cache[j]? = some a' ∧ a'.ticket = a.ticket := by
      rcases getElem?_set_cases ha with ⟨rfl, rfl⟩ | ⟨_, ha'⟩
      · exact ⟨e, hslot, rfl⟩
      · exact ⟨a, ha', rfl⟩
    obtain ⟨a', ha', hat'⟩ := hold ha
    obtain ⟨b', hb', hbt'⟩ := hold hb
    exact h.distinct j k a' b' ha' hb' (hat' ▸ hat) (hat'.trans (hab.trans hbt'.symm))
  · intro p hp t ht
    rcases List.mem_append.1 hp with hp | hp
    · rcases h.kept p hp t ht with ⟨a, ha, hat⟩ | ⟨x, hx, h'⟩
      · obtain ⟨j, hj⟩ := List.mem_iff_getElem?.1 ha
        by_cases hji : j = i
        · subst hji
          obtain rfl : a = e := Option.some.inj (hj.symm.trans hslot)
          exact .inl ⟨_, List.mem_set hlen _, hat⟩
        · exact .inl ⟨a, mem_set_of_ne hj hji, hat⟩
      · exact .inr ⟨x, List.mem_append_left _ hx, h'⟩
    · exact absurd (List.mem_singleton.1 hp ▸ ht) (hres t)
  · intro p hp p' hp' t ht ht'
    rcases List.mem_append.1 hp with hq | hq
    · rcases List.mem_append.1 hp' with hq' | hq'
      · exact h.unique p hq p' hq' t ht ht'
      · exact absurd (List.mem_singleton.1 hq' ▸ ht') (hres t)
    · exact absurd (List.mem_singleton.1 hq ▸ ht) (hres t)
  · intro x hx t ht
    rcases List.mem_append.1 hx with hx | hx
    · obtain ⟨p, hp, h'⟩ := h.ran x hx t ht
      exact ⟨p, List.mem_append_left _ hp, h'⟩
    · obtain ⟨p, hp, h'⟩ := h.reserved e hmem hz
      rw [htok t (List.mem_singleton.1 hx ▸ ht)]
      exact ⟨p, List.mem_append_left _ hp, h'.reserves⟩
  · intro t
    rw [List.countP_append, List.countP_singleton]
    by_cases ht : s.invokes t = true
    · have h0 : hist.countP (Served.invokes t) = 0 := by
        rw [List.countP_eq_zero, htok t ht]
        intro x hx
        simp [h.idle e hmem hz hidle x hx]
      rw [h0, if_pos ht]
    · rw [if_neg ht]
      exact h.once t

/-- **Every call keeps the invariant.** -/
theorem cacheInv_step {self : Tid} {cache' : RetryCache}
    (hs : ServeStep self window cache s cache') (had : Admissible (hist ++ [s])) :
    CacheInv window (hist ++ [s]) cache' := by
  obtain ⟨_, _, hfresh⟩ := admissible_snoc_iff.1 had
  obtain ⟨hreply, rfl⟩ := hs
  have heff := hreply ▸ retryDispatch_effect self window cache s.call.source s.call.request
    s.call.newTicket s.call.now s.call.node
  obtain ⟨call, reply⟩ := s
  simp only at heff hfresh ⊢
  cases heff with
  | malformed => exact h.unchanged rfl fun t ht => by cases ht.ok
  | mismatch => exact h.unchanged rfl fun t ht => by cases ht.ok
  | refused hst => exact h.unchanged rfl fun t ht => hst ht.ok
  | @repeated i e hwf hlive =>
    refine h.unchanged rfl fun t ht => ?_
    have hez : e.ticket ≠ 0 := fun hz => hlive.unexpired (.inl hz)
    obtain ⟨p, hp, hr⟩ := h.reserved e (List.mem_of_getElem? hlive.slot) hez
    have hnew : call.newTicket = e.ticket := ht.fresh.trans ht.ticket.symm
    exact hfresh (hnew ▸ hez) p hp (hr.reserves.fresh.trans hnew.symm)
  | reserved hwf hop hslot hvac hz _ hargs =>
    exact h.reserve hop hslot hvac hz hargs (hfresh hz) rfl rfl rfl
  | replayed _ _ hop =>
    refine h.unchanged rfl fun t ht => ?_
    have := hop.symm.trans ht.prepare
    cases this
  | @executed i e hwf hlive hm hop hc =>
    have hez : e.ticket ≠ 0 := fun hz => hlive.unexpired (.inl hz)
    obtain ⟨p, hp, hr⟩ := h.reserved e (List.mem_of_getElem? hlive.slot) hez
    obtain ⟨args, hargs⟩ := hr.args
    have hdec : decodeArgs call.request = .ok args := (hr.sameBytes hm).decodeArgs_eq ▸ hargs
    have hne : call.request.opcode ≠ Opcode.PREPARE.toByte := by rw [hop]; decide
    have htoken : e.ticket = call.request.token :=
      (hlive.named.2.resolve_left fun hp => hne hp.1).2
    simp only [Command.execute, hdec]
    exact h.execute hlive.slot hez hc hne (by simp [Served.invokes, Served.token, htoken]) rfl
  | unknown hop =>
    refine h.unchanged rfl fun t ht => ?_
    have := hop.symm.trans ht.prepare
    cases this

end

end Step

/-- The invariant holds of every admissible run from the empty cache. -/
theorem cacheInv_run {self : Tid} {window slots : ℕ} {hist : List (Served ω)} {cache : RetryCache}
    (hr : Run (ServeStep self window) (RetryCache.empty slots) hist cache)
    (had : Admissible hist) : CacheInv window hist cache := by
  refine hr.invariant (I := fun hist cache => Admissible hist → CacheInv window hist cache)
    (fun _ => cacheInv_empty window slots) (fun _ _ _ _ ih hs had => ?_) had
  exact cacheInv_step (ih (admissible_snoc_iff.1 had).1) hs had

section Observe

variable {self : Tid} {window : ℕ} {hist : List (Served ω)} {cache cache' : RetryCache}
  {s : Served ω}

theorem execute_ne_prepare {m : Message} (h : m.opcode = Opcode.EXECUTE.toByte) :
    m.opcode ≠ Opcode.PREPARE.toByte := by rw [h]; decide

/-- An EXECUTE names an entry by its source and its ticket. -/
theorem named_execute_iff {source : UInt16} {m : Message} (h : m.opcode = Opcode.EXECUTE.toByte) :
    e.Named source m ↔ e.source = source ∧ e.ticket = m.token := by
  refine and_congr_right fun _ => ⟨fun h' => ?_, fun h' => .inr ⟨h, h'⟩⟩
  exact (h'.resolve_left fun hp => execute_ne_prepare h hp.1).2

section

variable (h : CacheInv window hist cache)
include h

/-- **What a run rests on**: an unexpired reservation of the same source with
the same bytes, whose arguments are the ones that run. -/
theorem CacheInv.of_invoked (hs : ServeStep self window cache s cache') {inv : Invocation ω}
    (hinv : s.reply.invoked = some inv) :
    ∃ p ∈ hist, p.Reserves s.token ∧ p.call.source = s.call.source ∧
      SameBytes p.call.request s.call.request ∧ s.call.now < p.expiry window ∧
      inv.commandId = p.call.request.commandId ∧ decodeArgs p.call.request = .ok inv.args ∧
      WellFormed s.call.request ∧ s.call.request.opcode = Opcode.EXECUTE.toByte := by
  obtain ⟨hreply, rfl⟩ := hs
  have heff := hreply ▸ retryDispatch_effect self window cache s.call.source s.call.request
    s.call.newTicket s.call.now s.call.node
  obtain ⟨call, reply⟩ := s
  simp only at heff hinv ⊢
  cases heff with
  | @executed i e hwf hlive hm hop hc =>
    have hez : e.ticket ≠ 0 := fun hz => hlive.unexpired (.inl hz)
    obtain ⟨p, hp, hr⟩ := h.reserved e (List.mem_of_getElem? hlive.slot) hez
    obtain ⟨args, hargs⟩ := hr.args
    have hsame := hr.sameBytes hm
    have hdec : decodeArgs call.request = .ok args := hsame.decodeArgs_eq ▸ hargs
    obtain ⟨hsrc, htok⟩ := (named_execute_iff hop).1 hlive.named
    have hunexp : call.now < p.expiry window :=
      hr.expires ▸ not_le.1 fun hle => hlive.unexpired (.inr hle)
    simp only [Command.execute, hdec, Option.some.injEq] at hinv
    subst hinv
    have hres : p.Reserves call.request.token := htok ▸ hr.reserves
    exact ⟨p, hp, hres, hr.source ▸ hsrc, hsame, hunexp, hsame.command.symm, hargs, hwf, hop⟩
  | malformed => cases hinv
  | mismatch => cases hinv
  | repeated => cases hinv
  | refused => cases hinv
  | reserved => cases hinv
  | replayed => cases hinv
  | unknown => cases hinv

/-- Two runs of one ticket are the same call. -/
theorem CacheInv.invokes_unique {t : UInt64} {x y : Served ω}
    (hx : x ∈ hist) (hy : y ∈ hist) (hxt : x.invokes t = true) (hyt : y.invokes t = true) :
    x = y := by
  have hlen : (hist.filter (Served.invokes t)).length ≤ 1 := by
    rw [← List.countP_eq_length_filter]
    exact h.once t
  have hx' := List.mem_filter.2 ⟨hx, hxt⟩
  have hy' := List.mem_filter.2 ⟨hy, hyt⟩
  obtain ⟨z, hz⟩ := List.length_eq_one_iff.1 (Nat.le_antisymm hlen (List.length_pos_of_mem hx'))
  rw [hz, List.mem_singleton] at hx' hy'
  exact hx'.trans hy'.symm

section

variable (hs : ServeStep self window cache s cache')
include hs

/-- **A ticket that ran is replayed**: an unexpired EXECUTE of it, with the
bytes of its reservation, gets the stored result and runs nothing. -/
theorem CacheInv.replay {p x : Served ω} (hp : p ∈ hist)
    (hres : p.Reserves s.token) (hsrc : p.call.source = s.call.source)
    (hsame : SameBytes p.call.request s.call.request) (hwf : WellFormed s.call.request)
    (hop : s.call.request.opcode = Opcode.EXECUTE.toByte)
    (htime : ∀ y ∈ hist, y.call.now ≤ s.call.now) (hexp : s.call.now < p.expiry window)
    (hx : x ∈ hist) (hxt : x.invokes s.token = true) :
    s.reply.result = x.reply.result ∧ s.reply.ticket = s.token ∧ s.reply.invoked = none := by
  obtain ⟨e, he, het⟩ := (h.kept p hp _ hres).resolve_right fun ⟨y, hy, hle⟩ =>
    absurd ((hle.trans (htime y hy)).trans_lt hexp) (lt_irrefl _)
  have hez : e.ticket ≠ 0 := het ▸ hres.nonzero
  obtain ⟨q, hq, hr⟩ := h.reserved e he hez
  obtain rfl := h.unique q hq p hp _ (het ▸ hr.reserves) hres
  have hmatch : e.Matches s.call.request :=
    ⟨hr.command.trans hsame.command, hr.request.trans hsame.request,
      congrArg _ (hr.payload.trans hsame.payload), hr.count.trans hsame.count,
      hr.payload.trans hsame.payload⟩
  have hunexp : ¬ e.Vacant s.call.now := fun hv =>
    hv.elim hez fun hle => absurd (hr.expires ▸ hle) (not_le.2 hexp)
  have hnamed : e.Named s.call.source s.call.request :=
    (named_execute_iff hop).2 ⟨hr.source.trans hsrc, het⟩
  have hcomplete : e.complete = true := by
    by_contra hne
    have := h.idle e he hez (by simpa using hne) x hx
    rw [het, hxt] at this
    cases this
  obtain ⟨k, hk⟩ := List.mem_iff_getElem?.1 he
  have hsame_slot {i : ℕ} {e' : Ticket}
      (hlive : Live cache s.call.source s.call.request s.call.now i e') : e' = e := by
    have ht : e'.ticket = e.ticket := ((named_execute_iff hop).1 hlive.named).2.trans het.symm
    have := h.distinct i k e' e hlive.slot hk (ht ▸ hez) ht
    subst this
    exact Option.some.inj (hlive.slot.symm.trans hk)
  obtain ⟨hreply, rfl⟩ := hs
  have heff := hreply ▸ retryDispatch_effect self window cache s.call.source s.call.request
    s.call.newTicket s.call.now s.call.node
  obtain ⟨call, reply⟩ := s
  simp only at heff hunexp hnamed hsame_slot hmatch hwf hop ⊢
  cases heff with
  | replayed hlive =>
    obtain rfl := hsame_slot hlive
    obtain ⟨y, hy, hyt, hyr⟩ := h.stored _ he hez hcomplete
    obtain rfl := h.invokes_unique hx hy hxt (het ▸ hyt)
    exact ⟨hyr.symm, het, rfl⟩
  | malformed hno => exact absurd hwf hno
  | mismatch hlive hno => exact absurd (hsame_slot hlive ▸ hmatch) hno
  | repeated _ _ _ hop' => exact absurd hop' (execute_ne_prepare hop)
  | refused _ hop' => exact absurd hop' (execute_ne_prepare hop)
  | reserved _ hop' => exact absurd hop' (execute_ne_prepare hop)
  | executed _ hlive _ _ hc =>
    rw [hsame_slot hlive, hcomplete] at hc
    cases hc
  | unknown _ hno => exact absurd hnamed (hno e he hunexp)

/-- **A PREPARE that is answered OK** is handed the ticket reserved for its nonce
and its source. -/
theorem CacheInv.prepare_ok
    (hop : s.call.request.opcode = Opcode.PREPARE.toByte) (hok : s.reply.result.status = .OK) :
    ∃ p ∈ hist ++ [s], p.Reserves s.reply.ticket ∧ p.token = s.token ∧
      p.call.source = s.call.source := by
  obtain ⟨hreply, rfl⟩ := hs
  have heff := hreply ▸ retryDispatch_effect self window cache s.call.source s.call.request
    s.call.newTicket s.call.now s.call.node
  obtain ⟨call, reply⟩ := s
  simp only at heff hop hok ⊢
  cases heff with
  | malformed => cases hok
  | mismatch => cases hok
  | refused hst => exact absurd hok hst
  | @repeated i e hwf hlive =>
    have hez : e.ticket ≠ 0 := fun hz => hlive.unexpired (.inl hz)
    obtain ⟨p, hp, hr⟩ := h.reserved e (List.mem_of_getElem? hlive.slot) hez
    have hnonce : e.nonce = call.request.token :=
      (hlive.named.2.resolve_right fun hx => execute_ne_prepare hx.1 hop).2
    exact ⟨p, List.mem_append_left _ hp, hr.reserves, hr.nonce.symm.trans hnonce,
      hr.source.symm.trans hlive.named.1⟩
  | reserved _ _ _ _ hz =>
    exact ⟨_, List.mem_append_right _ (List.mem_singleton_self _), ⟨hop, rfl, rfl, rfl, hz⟩, rfl,
      rfl⟩
  | replayed _ _ hop' => exact absurd hop (execute_ne_prepare hop')
  | executed _ _ _ hop' => exact absurd hop (execute_ne_prepare hop')
  | unknown hop' => exact absurd hop (execute_ne_prepare hop')

/-- **An EXECUTE that is answered OK** is answered with the result of a run of
its ticket. -/
theorem CacheInv.execute_ok
    (hop : s.call.request.opcode ≠ Opcode.PREPARE.toByte) (hok : s.reply.result.status = .OK) :
    s.reply.ticket = s.token ∧
      ∃ x ∈ hist ++ [s], x.invokes s.token = true ∧ x.reply.result = s.reply.result := by
  obtain ⟨hreply, rfl⟩ := hs
  have heff := hreply ▸ retryDispatch_effect self window cache s.call.source s.call.request
    s.call.newTicket s.call.now s.call.node
  obtain ⟨call, reply⟩ := s
  simp only at heff hop hok ⊢
  cases heff with
  | malformed => cases hok
  | mismatch => cases hok
  | refused hst => exact absurd hok hst
  | repeated _ _ _ hop' => exact absurd hop' hop
  | reserved _ hop' => exact absurd hop' hop
  | unknown => cases hok
  | @replayed i e hlive hm hop' hc =>
    have hez : e.ticket ≠ 0 := fun hz => hlive.unexpired (.inl hz)
    have htok := ((named_execute_iff hop').1 hlive.named).2
    obtain ⟨x, hx, hinv, hres⟩ := h.stored e (List.mem_of_getElem? hlive.slot) hez hc
    exact ⟨htok, x, List.mem_append_left _ hx, htok ▸ hinv, hres⟩
  | @executed i e hwf hlive hm hop' hc =>
    have hez : e.ticket ≠ 0 := fun hz => hlive.unexpired (.inl hz)
    obtain ⟨p, hp, hr⟩ := h.reserved e (List.mem_of_getElem? hlive.slot) hez
    obtain ⟨args, hargs⟩ := hr.args
    have hdec : decodeArgs call.request = .ok args := (hr.sameBytes hm).decodeArgs_eq ▸ hargs
    have htok := ((named_execute_iff hop').1 hlive.named).2
    refine ⟨by simpa only [Command.execute, hdec, Served.token] using htok, _,
      List.mem_append_right _ (List.mem_singleton_self _), ?_, rfl⟩
    simp only [Served.invokes, Served.token, Command.execute, hdec]
    simp

end

end

/-- A run answered OK is a run of the handler, and its result is the answer. -/
theorem ServeStep.ran (hs : ServeStep self window cache s cache') {inv : Invocation ω}
    (hinv : s.reply.invoked = some inv) (hok : s.reply.result.status = .OK) :
    inv.dispatched.ran = some ⟨inv.commandId, inv.args, ⟨s.call.source, false, true⟩, none,
      s.reply.result⟩ := by
  obtain ⟨hreply, rfl⟩ := hs
  have heff := hreply ▸ retryDispatch_effect self window cache s.call.source s.call.request
    s.call.newTicket s.call.now s.call.node
  obtain ⟨call, reply⟩ := s
  simp only at heff hinv hok ⊢
  cases heff with
  | malformed => cases hinv
  | mismatch => cases hinv
  | repeated => cases hinv
  | refused => cases hinv
  | reserved => cases hinv
  | replayed => cases hinv
  | unknown => cases hinv
  | executed =>
    cases hdec : decodeArgs call.request with
    | error e => simp [Command.execute, hdec] at hinv
    | ok args =>
      simp only [Command.execute, hdec, Option.some.injEq] at hinv hok ⊢
      subst hinv
      obtain ⟨d, hd, hran⟩ := dispatch_ok hok
      have hid : d.id = call.request.commandId := by simpa using List.find?_some hd
      rw [invokeId, hran, hid]

end Observe

/-- **A ticket runs its command at most once.**  In every admissible run from the
empty cache: no ticket is passed to `kfsw_command_invoke_id` twice; a run has the
command and the arguments of the PREPARE that reserved its ticket for the same
source; a later unexpired EXECUTE with the same request gets the first result and
runs nothing; and an EXECUTE whose ticket was never reserved, or by a PREPARE that
expired, came from elsewhere or carried other bytes, runs nothing. -/
theorem ticket_runs_at_most_once (self : Tid) (window slots : ℕ) (hist : List (Served ω))
    (cache : RetryCache) (hr : Run (ServeStep self window) (RetryCache.empty slots) hist cache)
    (had : Admissible hist) : (∀ t, hist.countP (Served.invokes t) ≤ 1) ∧
    (∀ pre s post inv, hist = pre ++ s :: post → s.reply.invoked = some inv →
      ∃ p ∈ pre, p.Reserves s.token ∧ p.call.source = s.call.source ∧
        inv.commandId = p.call.request.commandId ∧ decodeArgs p.call.request = .ok inv.args) ∧
    (∀ pre s mid s' post, hist = pre ++ s :: (mid ++ s' :: post) →
      s.reply.invoked.isSome = true → s'.call.source = s.call.source →
      s'.call.request = s.call.request →
      (∀ p ∈ pre, p.Reserves s.token → s'.call.now < p.expiry window) →
      s'.reply.result = s.reply.result ∧ s'.reply.ticket = s.token ∧ s'.reply.invoked = none) ∧
    (∀ pre s post, hist = pre ++ s :: post → s.call.request.opcode = Opcode.EXECUTE.toByte →
      (∀ p ∈ pre, p.Reserves s.token → p.expiry window ≤ s.call.now ∨
        p.call.source ≠ s.call.source ∨ ¬ SameBytes p.call.request s.call.request) →
      s.reply.invoked = none) := by
  have hpre {pre post : List (Served ω)} (h : hist = pre ++ post) : Admissible pre :=
    ⟨(List.pairwise_append.1 (h ▸ had.time)).1, (List.pairwise_append.1 (h ▸ had.fresh)).1⟩
  have hat {pre post : List (Served ω)} {s : Served ω} (h : hist = pre ++ s :: post) :
      ∃ c c', CacheInv window pre c ∧ ServeStep self window c s c' := by
    obtain ⟨c, c', h₁, h₂, -⟩ := run_split_iff.1 (h ▸ hr)
    exact ⟨c, c', cacheInv_run h₁ (hpre h), h₂⟩
  refine ⟨(cacheInv_run hr had).once, ?_, ?_, ?_⟩
  · intro pre s post inv h hinv
    obtain ⟨c, c', hc, hs⟩ := hat h
    obtain ⟨p, hp, hres, hsrc, -, -, hcmd, hargs, -, -⟩ := hc.of_invoked hs hinv
    exact ⟨p, hp, hres, hsrc, hcmd, hargs⟩
  · intro pre s mid s' post h hinv hsrc hreq hexp
    obtain ⟨c, c', hc, hs⟩ := hat h
    obtain ⟨inv, hinv'⟩ := Option.isSome_iff_exists.1 hinv
    obtain ⟨p, hp, hres, hpsrc, hsame, -, -, -, hwf, hop⟩ := hc.of_invoked hs hinv'
    have h' : hist = (pre ++ s :: mid) ++ s' :: post := by simp [h]
    obtain ⟨d, d', hd, hs'⟩ := hat h'
    have htok : s'.token = s.token := congrArg Message.token hreq
    have htime := (List.pairwise_append.1 (h' ▸ had.time)).2.2
    have hrep := hd.replay hs' (List.mem_append_left _ hp) (htok ▸ hres)
      (hpsrc.trans hsrc.symm) (hreq ▸ hsame) (hreq ▸ hwf) (hreq ▸ hop)
      (fun y hy => htime y hy s' (by simp)) (hexp p hp hres)
      (show s ∈ pre ++ s :: mid by simp) (Served.invokes_iff.2 ⟨hinv, htok.symm⟩)
    exact ⟨hrep.1, hrep.2.1.trans htok, hrep.2.2⟩
  · intro pre s post h _ hbad
    by_contra hne
    obtain ⟨inv, hinv⟩ := Option.ne_none_iff_exists'.1 hne
    obtain ⟨c, c', hc, hs⟩ := hat h
    obtain ⟨p, hp, hres, hsrc, hsame, hlt, -, -, -, -⟩ := hc.of_invoked hs hinv
    rcases hbad p hp hres with hexp | hother | hbytes
    · exact absurd hlt (not_lt.2 hexp)
    · exact hother hsrc
    · exact hbytes hsame

/-- The calls in order, each on the cache the one before left. -/
def serveAll (self : Tid) (window : ℕ) (cache : RetryCache) : List (Call ω) → List (Served ω)
  | [] => []
  | c :: cs =>
    let reply := retryDispatch self window cache c.source c.request c.newTicket c.now c.node
    ⟨c, reply⟩ :: serveAll self window reply.cache cs

theorem run_serveAll (self : Tid) (window : ℕ) (cache : RetryCache) (calls : List (Call ω)) :
    ∃ cache', Run (ServeStep self window) cache (serveAll self window cache calls) cache' := by
  induction calls generalizing cache with
  | nil => exact ⟨cache, .nil cache⟩
  | cons c cs ih =>
    obtain ⟨cache', h⟩ := ih (retryDispatch self window cache c.source c.request c.newTicket c.now
      c.node).cache
    exact ⟨cache', h.cons ⟨rfl, rfl⟩⟩

/-- A node with one command, `count`, that takes no argument and counts its runs. -/
def countingNode : Node ℕ where
  registry := [⟨1, CString.ofString "count", [], fun _ _ n => (none, Result.zero, n + 1)⟩]
  ready := true
  claim := Claim.free
  totals := ⟨0, 0, 0, 0⟩
  events := []
  world := 0

/-- A PREPARE with nonce 7, and two EXECUTEs of the ticket 9 it is handed. -/
def countingCalls : List (Call ℕ) :=
  [⟨5, ⟨2, 7, 3, 0, 0, 1, 1, []⟩, 9, 0, countingNode⟩,
    ⟨5, ⟨2, 9, 5, 0, 0, 1, 1, []⟩, 0, 10, countingNode⟩,
    ⟨5, ⟨2, 9, 5, 0, 0, 1, 1, []⟩, 0, 20, countingNode⟩]

/-- The hypotheses of `ticket_runs_at_most_once` are satisfiable by a run in
which a ticket does run: of two EXECUTEs the first one runs the command. -/
theorem ticket_runs_at_most_once_counting :
    Admissible (serveAll 0 60000 (RetryCache.empty 2) countingCalls) ∧
    (serveAll 0 60000 (RetryCache.empty 2) countingCalls).countP (Served.invokes 9) = 1 ∧
    ∀ t, (serveAll 0 60000 (RetryCache.empty 2) countingCalls).countP (Served.invokes t) ≤ 1 := by
  have had : Admissible (serveAll 0 60000 (RetryCache.empty 2) countingCalls) :=
    ⟨by simp [serveAll, countingCalls], by simp [serveAll, countingCalls]⟩
  obtain ⟨cache, hr⟩ := run_serveAll 0 60000 (RetryCache.empty 2) countingCalls
  exact ⟨had, by decide, (ticket_runs_at_most_once 0 60000 2 _ cache hr had).1⟩

end KfswServices.Command
