/-
# Ticketed commands

`src/command/command_retry.c`.  A PREPARE reserves a ticket for its source, its
command and its bytes; an EXECUTE naming the ticket runs the command once, and a
repeated EXECUTE gets the stored result.  The cache has a fixed number of slots,
and a slot whose ticket expired is free again.

`retryDispatch` is `kfsw_command_retry_dispatch`, which the one command server
thread calls.  `retryDispatch_effect` says once everything a call can do; the
invariant of the cache and what it means for whole runs are in
`KfswServices.Command.RetryRun`.
-/

import KfswServices.Command.Dispatch
import KfswServices.Command.Protocol

namespace KfswServices.Command

/-- `struct kfsw_command_ticket`; `payload` holds its `size` bytes. -/
structure Ticket where
  nonce : UInt64
  ticket : UInt64
  expires : ℤ
  source : UInt16
  command : UInt16
  request : UInt16
  count : UInt8
  complete : Bool
  payload : List UInt8
  result : Result
  deriving DecidableEq

/-- A slot as `memset` leaves it. -/
def Ticket.zero : Ticket := ⟨0, 0, 0, 0, 0, 0, 0, false, [], Result.zero⟩

/-- `struct kfsw_command_retry_cache`: `CONFIG_KFSW_COMMAND_RETRY_SLOTS` entries. -/
abbrev RetryCache := List Ticket

/-- The static cache at startup. -/
def RetryCache.empty (slots : ℕ) : RetryCache := List.replicate slots Ticket.zero

/-- `matches`: the request repeats what the ticket was reserved for. -/
def Ticket.Matches (entry : Ticket) (request : Message) : Prop :=
  entry.command = request.commandId ∧ entry.request = request.requestId ∧
    entry.payload.length = request.payload.length ∧ entry.count = request.argCount ∧
    entry.payload = request.payload

instance (entry : Ticket) (request : Message) : Decidable (entry.Matches request) :=
  inferInstanceAs (Decidable (_ ∧ _))

/-- A slot the scan takes for free: never used, or expired at `now`. -/
def Ticket.Vacant (now : ℤ) (entry : Ticket) : Prop := entry.ticket = 0 ∨ entry.expires ≤ now

instance (now : ℤ) (entry : Ticket) : Decidable (entry.Vacant now) :=
  inferInstanceAs (Decidable (_ ∨ _))

/-- The entry a request names: by nonce for a PREPARE, by ticket for an EXECUTE. -/
def Ticket.Named (source : UInt16) (request : Message) (entry : Ticket) : Prop :=
  entry.source = source ∧
    ((request.opcode = Opcode.PREPARE.toByte ∧ entry.nonce = request.token) ∨
      (request.opcode = Opcode.EXECUTE.toByte ∧ entry.ticket = request.token))

instance (source : UInt16) (request : Message) (entry : Ticket) :
    Decidable (entry.Named source request) :=
  inferInstanceAs (Decidable (_ ∧ _))

/-- What the scan over the cache has found: `entry`, `free_entry`, `collision`. -/
structure Scan where
  entry : Option ℕ
  free : Option ℕ
  collision : Bool

/-- One iteration of the scan, at the candidate in slot `i`. -/
def Scan.visit (source : UInt16) (request : Message) (newTicket : UInt64) (now : ℤ) (s : Scan)
    (candidate : Ticket × ℕ) : Scan :=
  if candidate.1.Vacant now then { s with free := s.free.or (some candidate.2) }
  else
    { s with
      collision := s.collision || candidate.1.ticket = newTicket
      entry := if candidate.1.Named source request then some candidate.2 else s.entry }

/-- The scan of `kfsw_command_retry_dispatch`. -/
def scan (cache : RetryCache) (source : UInt16) (request : Message) (newTicket : UInt64)
    (now : ℤ) : Scan :=
  cache.zipIdx.foldl (Scan.visit source request newTicket now) ⟨none, none, false⟩

/-- The call of `kfsw_command_invoke_id` an EXECUTE makes. -/
structure Invocation (ω : Type*) where
  commandId : UInt16
  args : List Arg
  dispatched : Dispatched ω

/-- What one call of `kfsw_command_retry_dispatch` leaves: the cache, the node,
`*ticket`, `*result`, and its call of `kfsw_command_invoke_id`. -/
structure RetryReply (ω : Type*) where
  cache : RetryCache
  node : Node ω
  ticket : UInt64
  result : Result
  invoked : Option (Invocation ω)

variable {ω : Type*}

/-- The entry a PREPARE writes. -/
def reserve (window : ℕ) (source : UInt16) (request : Message) (newTicket : UInt64) (now : ℤ) :
    Ticket where
  nonce := request.token
  ticket := newTicket
  expires := int64 (now + window)
  source := source
  command := request.commandId
  request := request.requestId
  count := request.argCount
  complete := false
  payload := request.payload
  result := Result.zero

/-- The end of `kfsw_command_retry_dispatch`: run the command of slot `i`. -/
def execute (self : Tid) (cache : RetryCache) (i : ℕ) (entry : Ticket) (source : UInt16)
    (request : Message) (node : Node ω) : RetryReply ω :=
  match decodeArgs request with
  | .error _ =>
    let result : Result := { Result.zero with status := .INVALID_ARGUMENT }
    ⟨cache.set i { entry with result := result, complete := true }, node, entry.ticket, result,
      none⟩
  | .ok args =>
    let d := invokeId self request.commandId args ⟨source, false, true⟩ node
    ⟨cache.set i { entry with result := d.result, complete := true }, d.node, entry.ticket,
      d.result, some ⟨request.commandId, args, d⟩⟩

/-- `kfsw_command_retry_dispatch` on the thread `self`, with
`CONFIG_KFSW_COMMAND_RETRY_WINDOW_MS = window`. -/
def retryDispatch (self : Tid) (window : ℕ) (cache : RetryCache) (source : UInt16)
    (request : Message) (newTicket : UInt64) (now : ℤ) (node : Node ω) : RetryReply ω :=
  let refuse (status : Status) (ticket : UInt64) : RetryReply ω :=
    ⟨cache, node, ticket, { Result.zero with status := status }, none⟩
  if request.version ≠ 2 ∨ request.token = 0 ∨ request.status ≠ 0 ∨
      request.payload.length > maxPayloadSize ∨
      (request.opcode ≠ Opcode.PREPARE.toByte ∧ request.opcode ≠ Opcode.EXECUTE.toByte) then
    refuse .INVALID_ARGUMENT request.token
  else
    let found := scan cache source request newTicket now
    match found.entry with
    | some i =>
      let entry := cache.getD i Ticket.zero
      if ¬ entry.Matches request then refuse .INVALID_ARGUMENT request.token
      else if request.opcode = Opcode.PREPARE.toByte then refuse .OK entry.ticket
      else if entry.complete then ⟨cache, node, entry.ticket, entry.result, none⟩
      else execute self cache i entry source request node
    | none =>
      if request.opcode = Opcode.PREPARE.toByte then
        match found.free with
        | none => refuse .BUSY request.token
        | some i =>
          if newTicket = 0 ∨ found.collision then refuse .UNAVAILABLE request.token
          else
            match decodeArgs request with
            | .error _ => refuse .INVALID_ARGUMENT request.token
            | .ok _ =>
              ⟨cache.set i (reserve window source request newTicket now), node, newTicket,
                Result.zero, none⟩
      else
        ⟨cache, node, request.token, ⟨.UNAVAILABLE,
          .print (.ofString "ticket expired or unknown; outcome may be unknown")⟩, none⟩

/-! ### The scan -/

section Scan

variable {cache : RetryCache} {source : UInt16} {request : Message} {newTicket : UInt64} {now : ℤ}

/-- What the scan's result says about the cache. -/
structure ScanSpec (cache : RetryCache) (source : UInt16) (request : Message) (newTicket : UInt64)
    (now : ℤ) (s : Scan) : Prop where
  entry : ∀ i, s.entry = some i →
    ∃ e, cache[i]? = some e ∧ ¬ e.Vacant now ∧ e.Named source request
  absent : s.entry = none → ∀ e ∈ cache, ¬ e.Vacant now → ¬ e.Named source request
  free : ∀ i, s.free = some i → ∃ e, cache[i]? = some e ∧ e.Vacant now
  fresh : s.collision = false → ∀ e ∈ cache, ¬ e.Vacant now → e.ticket ≠ newTicket

theorem scan_append (cache : RetryCache) (c : Ticket) :
    scan (cache ++ [c]) source request newTicket now =
      (scan cache source request newTicket now).visit source request newTicket now
        (c, cache.length) := by
  simp [scan, List.zipIdx_append]

theorem scan_spec (cache : RetryCache) (source : UInt16) (request : Message) (newTicket : UInt64)
    (now : ℤ) :
    ScanSpec cache source request newTicket now (scan cache source request newTicket now) := by
  induction cache using List.reverseRecOn with
  | nil => constructor <;> simp [scan]
  | append_singleton cache c ih =>
    rw [scan_append]
    generalize scan cache source request newTicket now = s at ih
    have hold {i : ℕ} {e : Ticket} (h : cache[i]? = some e) : (cache ++ [c])[i]? = some e := by
      rw [List.getElem?_append_left (List.getElem?_eq_some_iff.1 h).1, h]
    have hnew : (cache ++ [c])[cache.length]? = some c := by simp
    unfold Scan.visit
    split_ifs with hv hn
    · refine ⟨fun i hi => ?_, fun h e he hev => ?_, fun i hi => ?_, fun h e he hev => ?_⟩
      · obtain ⟨e, he, h⟩ := ih.entry i hi
        exact ⟨e, hold he, h⟩
      · rcases List.mem_append.1 he with he | he
        · exact ih.absent h e he hev
        · exact absurd (List.mem_singleton.1 he ▸ hv) hev
      · cases hf : s.free with
        | none =>
          obtain rfl : cache.length = i := by simpa [hf] using hi
          exact ⟨c, hnew, hv⟩
        | some j =>
          obtain rfl : j = i := by simpa [hf] using hi
          obtain ⟨e, he, h⟩ := ih.free j hf
          exact ⟨e, hold he, h⟩
      · rcases List.mem_append.1 he with he | he
        · exact ih.fresh h e he hev
        · exact absurd (List.mem_singleton.1 he ▸ hv) hev
    · refine ⟨fun i hi => ?_, fun h => by simp at h, fun i hi => ?_, fun h e he hev => ?_⟩
      · obtain rfl : cache.length = i := by simpa using hi
        exact ⟨c, hnew, hv, hn⟩
      · obtain ⟨e, he, h⟩ := ih.free i hi
        exact ⟨e, hold he, h⟩
      · simp only [Bool.or_eq_false_iff, decide_eq_false_iff_not] at h
        rcases List.mem_append.1 he with he | he
        · exact ih.fresh h.1 e he hev
        · exact List.mem_singleton.1 he ▸ h.2
    · refine ⟨fun i hi => ?_, fun h e he hev => ?_, fun i hi => ?_, fun h e he hev => ?_⟩
      · obtain ⟨e, he, h⟩ := ih.entry i hi
        exact ⟨e, hold he, h⟩
      · rcases List.mem_append.1 he with he | he
        · exact ih.absent h e he hev
        · exact List.mem_singleton.1 he ▸ hn
      · obtain ⟨e, he, h⟩ := ih.free i hi
        exact ⟨e, hold he, h⟩
      · simp only [Bool.or_eq_false_iff, decide_eq_false_iff_not] at h
        rcases List.mem_append.1 he with he | he
        · exact ih.fresh h.1 e he hev
        · exact List.mem_singleton.1 he ▸ h.2

end Scan

/-! ### What a call does -/

/-- The header checks of `kfsw_command_retry_dispatch`. -/
structure WellFormed (request : Message) : Prop where
  version : request.version = 2
  token : request.token ≠ 0
  status : request.status = 0
  size : request.payload.length ≤ maxPayloadSize
  opcode : request.opcode = Opcode.PREPARE.toByte ∨ request.opcode = Opcode.EXECUTE.toByte

/-- Slot `i` holds `e`, unexpired, and the request names it. -/
structure Live (cache : RetryCache) (source : UInt16) (request : Message) (now : ℤ) (i : ℕ)
    (e : Ticket) : Prop where
  slot : cache[i]? = some e
  unexpired : ¬ e.Vacant now
  named : e.Named source request

/-- Everything one call can do, with the reply it then gives. -/
inductive Effect (self : Tid) (window : ℕ) (cache : RetryCache) (source : UInt16)
    (request : Message) (newTicket : UInt64) (now : ℤ) (node : Node ω) : RetryReply ω → Prop
  | malformed : ¬ WellFormed request → Effect self window cache source request newTicket now node
      ⟨cache, node, request.token, ⟨.INVALID_ARGUMENT, .empty⟩, none⟩
  | mismatch {i : ℕ} {e : Ticket} : Live cache source request now i e → ¬ e.Matches request →
      Effect self window cache source request newTicket now node
        ⟨cache, node, request.token, ⟨.INVALID_ARGUMENT, .empty⟩, none⟩
  | repeated {i : ℕ} {e : Ticket} : WellFormed request → Live cache source request now i e →
      e.Matches request → request.opcode = Opcode.PREPARE.toByte →
      Effect self window cache source request newTicket now node
        ⟨cache, node, e.ticket, Result.zero, none⟩
  | refused {status : Status} : status ≠ .OK → request.opcode = Opcode.PREPARE.toByte →
      Effect self window cache source request newTicket now node
        ⟨cache, node, request.token, ⟨status, .empty⟩, none⟩
  | reserved {i : ℕ} {e : Ticket} {args : List Arg} : WellFormed request →
      request.opcode = Opcode.PREPARE.toByte → cache[i]? = some e → e.Vacant now →
      newTicket ≠ 0 → (∀ e ∈ cache, ¬ e.Vacant now → e.ticket ≠ newTicket) →
      decodeArgs request = .ok args →
      Effect self window cache source request newTicket now node
        ⟨cache.set i (reserve window source request newTicket now), node, newTicket, Result.zero,
          none⟩
  | replayed {i : ℕ} {e : Ticket} : Live cache source request now i e → e.Matches request →
      request.opcode = Opcode.EXECUTE.toByte → e.complete = true →
      Effect self window cache source request newTicket now node
        ⟨cache, node, e.ticket, e.result, none⟩
  | executed {i : ℕ} {e : Ticket} : WellFormed request → Live cache source request now i e →
      e.Matches request → request.opcode = Opcode.EXECUTE.toByte → e.complete = false →
      Effect self window cache source request newTicket now node
        (execute self cache i e source request node)
  | unknown : request.opcode = Opcode.EXECUTE.toByte →
      (∀ e ∈ cache, ¬ e.Vacant now → ¬ e.Named source request) →
      Effect self window cache source request newTicket now node
        ⟨cache, node, request.token, ⟨.UNAVAILABLE,
          .print (.ofString "ticket expired or unknown; outcome may be unknown")⟩, none⟩

/-- **One call, in full.** -/
theorem retryDispatch_effect (self : Tid) (window : ℕ) (cache : RetryCache) (source : UInt16)
    (request : Message) (newTicket : UInt64) (now : ℤ) (node : Node ω) :
    Effect self window cache source request newTicket now node
      (retryDispatch self window cache source request newTicket now node) := by
  have hs := scan_spec cache source request newTicket now
  unfold retryDispatch
  simp only
  split
  next hw =>
    refine .malformed fun h => ?_
    rcases hw with hw | hw | hw | hw | hw
    · exact hw h.version
    · exact h.token hw
    · exact hw h.status
    · exact not_lt.2 h.size hw
    · exact h.opcode.elim hw.1 hw.2
  next hw =>
    have hwf : WellFormed request := by
      simp only [not_or, not_not, not_and, not_lt] at hw
      obtain ⟨hv, ht, hst, hsz, hop⟩ := hw
      exact ⟨hv, ht, hst, hsz, Classical.or_iff_not_imp_left.2 hop⟩
    split
    next i hf =>
      obtain ⟨e, he, hv, hn⟩ := hs.entry i hf
      have hlive : Live cache source request now i e := ⟨he, hv, hn⟩
      have hget : cache.getD i Ticket.zero = e := by rw [List.getD_eq_getElem?_getD, he]; rfl
      rw [hget]
      by_cases hm : e.Matches request
      · rw [if_neg (not_not.2 hm)]
        split_ifs with hp hc
        · exact .repeated hwf hlive hm hp
        · exact .replayed hlive hm (hwf.opcode.resolve_left hp) hc
        · exact .executed hwf hlive hm (hwf.opcode.resolve_left hp) (by simpa using hc)
      · rw [if_pos hm]
        exact .mismatch hlive hm
    next hf =>
      split
      next hp =>
        split
        next => exact .refused (by decide) hp
        next i hfree =>
          obtain ⟨e, he, hv⟩ := hs.free i hfree
          split
          next => exact .refused (by decide) hp
          next hnew =>
            rw [not_or] at hnew
            split
            next => exact .refused (by decide) hp
            next args hargs =>
              exact .reserved hwf hp he hv hnew.1 (hs.fresh (by simpa using hnew.2)) hargs
      next hp => exact .unknown (hwf.opcode.resolve_left hp) (hs.absent hf)

end KfswServices.Command
