/-
# Remote reads, as the requester sees them

`kfsw_log_remote_read` of `src/log_remote.c`.  It sends one request and takes the replies that
carry its nonce, until an end, a callback that answers false, a packet it cannot read, or a
timeout.  The link may lose any of the replies and bring packets of other reads in between.

An end says how many records were sent; the reader does not look at it.  `read_complete_iff` says
exactly when a read that returns 0, with no callback answering false, has given the visitor every
record the server sent: a lost record goes unnoticed whenever the end arrives.

`KFSW_CSP_BROADCAST_ADDRESS` is outside the repository.
-/

import KfswServices.Log.Retained
import KfswServices.Log.Serve

namespace KfswServices.Log

/-! ### The reader -/

/-- `struct kfsw_log_remote_visitor` with its context: which callbacks there are, and what they
answer, given what they were called with before. -/
structure Visitor where
  start : Bool
  message : Option (List Received → Message → Bool)
  event : Option (List Received → Journal.Record → Bool)

/-- The call a reply makes, after those of `calls`: the calls made by then, and whether to go
on. -/
def Visitor.visit (v : Visitor) (calls : List Received) : Received → List Received × Bool
  | .start s => (if v.start then calls ++ [.start s] else calls, true)
  | .message m =>
    match v.message with
    | none => (calls, true)
    | some f => (calls ++ [.message m], f calls m)
  | .event r =>
    match v.event with
    | none => (calls, true)
    | some f => (calls ++ [.event r], f calls r)
  | .ended _ => (calls, true)

/-- What `handle_reply` returns: 0, 1 after a callback or at the end, or an error. -/
inductive Handled
  | more
  | refused
  | complete
  | failed (e : Errno)
  deriving DecidableEq, Repr

/-- What a reply that could be read makes of the read. -/
def Received.handle (go : Bool) : Received → Handled
  | .ended status =>
    if status = Status.COMPLETE.toByte then .complete
    else if status = Status.NOT_SERVED.toByte then .failed .ENOTSUP
    else .failed Errno.EIO
  | _ => if go then .more else .refused

/-- `handle_reply`. -/
def handleReply (v : Visitor) (calls : List Received) (p : List UInt8) :
    List Received × Handled :=
  match parseReply p with
  | none => (calls, .failed .EBADMSG)
  | some x => ((v.visit calls x).1, x.handle (v.visit calls x).2)

/-- A read: the callbacks made, whether one answered false, and the value returned. -/
structure Read where
  calls : List Received
  refused : Bool
  result : Option Errno

/-- The loop of `kfsw_log_remote_read` over the packets that arrive before a timeout. -/
def readLoop (v : Visitor) (nonce : UInt64) :
    Bool → List Received → List (List UInt8) → Read
  | answered, calls, [] => ⟨calls, false, some (if answered then Errno.EIO else .ETIMEDOUT)⟩
  | answered, calls, p :: ps =>
    if Ours nonce p then
      match handleReply v calls p with
      | (calls, .more) => readLoop v nonce true calls ps
      | (calls, .refused) => ⟨calls, true, none⟩
      | (calls, .complete) => ⟨calls, false, none⟩
      | (calls, .failed e) => ⟨calls, false, some e⟩
    else readLoop v nonce answered calls ps

/-- The arguments of a read. -/
structure ReadArgs where
  node : UInt16
  stream : UInt32
  count : UInt16
  minLevel : UInt8
  visitor : Option Visitor

/-- The broadcast address, whether there is a connection and a buffer, the cycles the nonce is
made of, and the packets that arrive before a timeout. -/
structure ReadEnv where
  broadcast : UInt16
  connects : Bool
  buffer : Bool
  cycles : UInt64
  arrivals : List (List UInt8)

/-- The nonce of a read. -/
def ReadArgs.nonce (a : ReadArgs) (cycles : UInt64) : UInt64 := cycles ^^^ (a.node.toUInt64 <<< 48)

/-- The checks of `kfsw_log_remote_read`, and the request it sends. -/
def ReadArgs.request (a : ReadArgs) (env : ReadEnv) : Except Errno (Visitor × Request) :=
  match a.visitor with
  | none => .error .EINVAL
  | some v =>
    if a.node = 0 ∨ env.broadcast ≤ a.node ∨ a.stream > 1 ∨ a.count = 0 ∨
        a.count.toNat > maxRead ∨ a.minLevel > 3 then .error .EINVAL
    else if !env.connects then .error .ENOTCONN
    else if !env.buffer then .error .ENOBUFS
    else .ok (v, ⟨if a.stream = 1 then .JOURNAL else .LOG, a.minLevel, a.count,
      a.nonce env.cycles⟩)

/-- `kfsw_log_remote_read`. -/
def remoteRead (a : ReadArgs) (env : ReadEnv) : Read :=
  match a.request env with
  | .error e => ⟨[], false, some e⟩
  | .ok (v, r) => readLoop v r.nonce false [] env.arrivals

/-! ### The server and the link -/

/-- A journal that is served. -/
structure JournalNode where
  cfg : Journal.Config
  env : JournalEnv cfg
  service : Journal.Service

/-- A node that serves: its log, and its journal unless it is built without one; the buffers are
those of a node without a journal. -/
structure Node where
  cfg : Config
  print : Printer
  env : LogEnv
  log : Ring
  journal : Option JournalNode
  startBuffer : Bool
  endBuffer : Bool

/-- `serve`. -/
def Node.serve (n : Node) (p : List UInt8) : Option Served :=
  match parseRequest p with
  | none => none
  | some r =>
    match r.stream with
    | .LOG => serveLog n.cfg n.print n.env n.log r.minimum r.count
    | .JOURNAL =>
      match n.journal with
      | some j => serveJournal j.env j.service r.count
      | none => serveNoJournal n.startBuffer n.endBuffer

/-- What the server does for a read. -/
def Node.served (n : Node) (a : ReadArgs) (env : ReadEnv) : Option Served :=
  match a.request env with
  | .error _ => none
  | .ok (_, r) => n.serve r.bytes

/-- The records the server sends for a read. -/
def Node.sent (n : Node) (a : ReadArgs) (env : ReadEnv) : List Reply :=
  ((n.served a env).map Served.sent).getD []

/-- The replies the server sends for a read. -/
def Node.replies (n : Node) (a : ReadArgs) (env : ReadEnv) : List Reply :=
  ((n.served a env).map Served.replies).getD []

/-- **The link**: of the replies those in `arrived` get through, in their order, and between them
anything that is not for this read. -/
def Node.Link (n : Node) (a : ReadArgs) (env : ReadEnv) (arrived : List Reply) : Prop :=
  arrived.Sublist (n.replies a env) ∧
    (env.arrivals.filter fun p => Ours (a.nonce env.cycles) p) =
      arrived.map (Reply.bytes (a.nonce env.cycles))

/-! ### Completeness -/

/-- A callback of a record, or a record that is sent. -/
def Received.isRecord : Received → Bool
  | .message _ => true
  | .event _ => true
  | _ => false

/-- **The visitor has every record**, each once and in the order sent, if the read returns 0 and
no callback answered false. -/
def Read.Complete (r : Read) (sent : List Reply) : Prop :=
  r.result = none → r.refused = false →
    r.calls.filter Received.isRecord = sent.map Reply.received

/-- There is a callback for the record. -/
def Visitor.takes (v : Visitor) : Reply → Bool
  | .message _ => v.message.isSome
  | .event _ => v.event.isSome
  | _ => false

/-- A callback answers false to one of the replies, after the calls of `calls`. -/
def Visitor.Refuses (v : Visitor) : List Received → List Reply → Prop
  | _, [] => False
  | calls, r :: rs =>
    (v.visit calls r.received).2 = false ∨ v.Refuses (v.visit calls r.received).1 rs

/-- Every record sent arrives, and there is a callback for it. -/
def ReadArgs.Delivered (a : ReadArgs) (sent arrived : List Reply) : Prop :=
  sent.Sublist arrived ∧ ∀ v, a.visitor = some v → ∀ r ∈ sent, v.takes r = true

/-! ### The loop over replies -/

/-- The loop over the replies that are for this read. -/
def readReplies (v : Visitor) : Bool → List Received → List Reply → Read
  | answered, calls, [] => ⟨calls, false, some (if answered then Errno.EIO else .ETIMEDOUT)⟩
  | _, calls, r :: rs =>
    match r.received.handle (v.visit calls r.received).2 with
    | .more => readReplies v true (v.visit calls r.received).1 rs
    | .refused => ⟨(v.visit calls r.received).1, true, none⟩
    | .complete => ⟨(v.visit calls r.received).1, false, none⟩
    | .failed e => ⟨(v.visit calls r.received).1, false, some e⟩

/-- What is not for this read is passed over. -/
theorem readLoop_eq (v : Visitor) {nonce : UInt64} {arrivals : List (List UInt8)}
    {arrived : List Reply} (hfits : ∀ r ∈ arrived, r.Fits)
    (h : (arrivals.filter fun p => Ours nonce p) = arrived.map (Reply.bytes nonce))
    (answered : Bool) (calls : List Received) :
    readLoop v nonce answered calls arrivals = readReplies v answered calls arrived := by
  induction arrivals generalizing arrived answered calls with
  | nil =>
    obtain rfl : arrived = [] := List.map_eq_nil_iff.1 h.symm
    rfl
  | cons p ps ih =>
    rw [readLoop]
    by_cases hours : Ours nonce p
    · rw [List.filter_cons_of_pos (by simpa using hours)] at h
      cases arrived with
      | nil => cases h
      | cons r rs =>
        obtain ⟨rfl, hrest⟩ := List.cons.inj h
        obtain ⟨hr, hrs⟩ := List.forall_mem_cons.1 hfits
        rw [if_pos hours, handleReply, parseReply_bytes nonce hr, readReplies]
        simp only
        cases r.received.handle (v.visit calls r.received).2 with
        | more => exact ih hrs hrest _ _
        | refused => rfl
        | complete => rfl
        | failed e => rfl
    · rw [List.filter_cons_of_neg (by simpa using hours)] at h
      rw [if_neg hours]
      exact ih hfits h _ _

/-- The calls the replies make. -/
def Visitor.visits (v : Visitor) (calls : List Received) (rs : List Reply) : List Received :=
  rs.foldl (fun calls r => (v.visit calls r.received).1) calls

/-- The records among the calls are those the visitor takes. -/
theorem filter_visits (v : Visitor) (calls : List Received) (rs : List Reply) :
    (v.visits calls rs).filter Received.isRecord =
      calls.filter Received.isRecord ++ (rs.filter v.takes).map Reply.received := by
  induction rs generalizing calls with
  | nil => simp [Visitor.visits]
  | cons r rs ih =>
    have hone : (v.visit calls r.received).1.filter Received.isRecord =
        calls.filter Received.isRecord ++ ([r].filter v.takes).map Reply.received := by
      cases r with
      | start s =>
        cases hs : v.start <;> simp [Visitor.visit, Reply.received, hs, Received.isRecord, Visitor.takes]
      | message m =>
        cases hm : v.message <;>
          simp [Visitor.visit, Reply.received, hm, Received.isRecord, Visitor.takes]
      | event r =>
        cases he : v.event <;>
          simp [Visitor.visit, Reply.received, he, Received.isRecord, Visitor.takes]
      | ended s n => simp [Visitor.visit, Reply.received, Visitor.takes]
    show (v.visits (v.visit calls r.received).1 rs).filter _ = _
    rw [ih, hone, List.append_assoc, ← List.map_append, ← List.filter_append]
    rfl

/-- A reply before the end. -/
def Reply.IsEnded : Reply → Prop
  | ended _ _ => True
  | _ => False

/-- The loop up to the end: a callback answers false, or the loop comes to `tail`. -/
theorem readReplies_body (v : Visitor) {body : List Reply} (hbody : ∀ r ∈ body, ¬ r.IsEnded)
    (tail : List Reply) (answered : Bool) (calls : List Received) :
    v.Refuses calls body ∧ (readReplies v answered calls (body ++ tail)).refused = true ∨
      ¬ v.Refuses calls body ∧ ∃ answered', readReplies v answered calls (body ++ tail) =
        readReplies v answered' (v.visits calls body) tail := by
  induction body generalizing answered calls with
  | nil => exact .inr ⟨id, answered, rfl⟩
  | cons r body ih =>
    obtain ⟨hr, hrest⟩ := List.forall_mem_cons.1 hbody
    have hhandle : ∀ go, r.received.handle go = if go then .more else .refused := by
      intro go
      cases r with
      | ended s n => exact absurd trivial hr
      | start s => rfl
      | message m => rfl
      | event q => rfl
    rw [List.cons_append, readReplies, hhandle]
    cases hgo : (v.visit calls r.received).2 with
    | false => exact .inl ⟨.inl hgo, rfl⟩
    | true =>
      simp only [if_true]
      rcases ih hrest true (v.visit calls r.received).1 with ⟨h, hres⟩ | ⟨h, hres⟩
      · exact .inl ⟨.inr h, hres⟩
      · refine .inr ⟨?_, hres⟩
        rintro (h' | h')
        · rw [hgo] at h'
          cases h'
        · exact h h'

theorem refuses_append_ended (v : Visitor) (calls : List Received) (body : List Reply)
    (s : Status) (n : UInt16) : v.Refuses calls (body ++ [.ended s n]) ↔ v.Refuses calls body := by
  induction body generalizing calls with
  | nil => simp [Visitor.Refuses, Visitor.visit, Reply.received]
  | cons r body ih =>
    show _ ∨ v.Refuses _ (body ++ [.ended s n]) ↔ _ ∨ _
    rw [ih]

/-- **What a read that returns 0 has seen**, when no callback answered false: the end. -/
theorem readReplies_complete (v : Visitor) {body tail : List Reply}
    (hbody : ∀ r ∈ body, ¬ r.IsEnded) (htail : tail = [] ∨ ∃ s n, tail = [.ended s n]) :
    ((readReplies v false [] (body ++ tail)).result = none ∧
        (readReplies v false [] (body ++ tail)).refused = false ↔
      ¬ v.Refuses [] (body ++ tail) ∧ ∃ n, .ended .COMPLETE n ∈ body ++ tail) ∧
    ((readReplies v false [] (body ++ tail)).result = none →
      (readReplies v false [] (body ++ tail)).refused = false →
      (readReplies v false [] (body ++ tail)).calls = v.visits [] body) := by
  have hmem : ∀ n, .ended .COMPLETE n ∈ body ++ tail ↔ Reply.ended .COMPLETE n ∈ tail := by
    intro n
    have hnot : Reply.ended .COMPLETE n ∉ body := fun h => hbody _ h trivial
    rw [List.mem_append, or_iff_right hnot]
  have hrefuses : v.Refuses [] (body ++ tail) ↔ v.Refuses [] body := by
    rcases htail with rfl | ⟨s, n, rfl⟩
    · rw [List.append_nil]
    · exact refuses_append_ended v [] body s n
  simp only [hmem, hrefuses]
  rcases readReplies_body v hbody tail false [] with ⟨h, hres⟩ | ⟨h, answered, heq⟩
  · rw [hres]
    exact ⟨by simp [h], fun _ hfalse => absurd hfalse nofun⟩
  · rw [heq]
    rcases htail with rfl | ⟨s, n, rfl⟩
    · simp [readReplies]
    · have hvisit : v.visit (v.visits [] body) (Reply.ended s n).received =
          (v.visits [] body, true) := rfl
      rw [readReplies, hvisit]
      cases s <;> simp [Reply.received, Received.handle, Status.toByte, h]

/-! ### What the server sends -/

/-- A record is sent as a message or as an event, and fits. -/
theorem Node.sent_records {n : Node} {a : ReadArgs} {env : ReadEnv} {v : Served}
    (h : n.served a env = some v) : ∀ r ∈ v.sent, r.Fits ∧ ¬ r.IsEnded := by
  have hjournal : ∀ {cfg : Journal.Config} {jenv : JournalEnv cfg} {s : Journal.Service}
      {count : UInt16}, serveJournal jenv s count = some v →
      ∀ r ∈ v.sent, r.Fits ∧ ¬ r.IsEnded := by
    intro cfg jenv s count hv r hr
    unfold serveJournal at hv
    split_ifs at hv
    obtain rfl := Option.some.inj hv
    obtain ⟨q, -, rfl⟩ := List.mem_map.1 hr
    exact ⟨trivial, id⟩
  have hlog : ∀ {s : Ring} {minimum : UInt8} {count : UInt16},
      serveLog n.cfg n.print n.env s minimum count = some v →
      ∀ r ∈ v.sent, r.Fits ∧ ¬ r.IsEnded := by
    intro s minimum count hv r hr
    unfold serveLog at hv
    cases hw : (s.appends n.cfg (n.env.appends 0)).window n.cfg count with
    | error e => simp [hw] at hv
    | ok w =>
      simp only [hw] at hv
      split_ifs at hv
      obtain rfl := Option.some.inj hv
      obtain ⟨m, hm, rfl⟩ := List.mem_map.1 hr
      exact ⟨serveLogLoop_fits _ _ _ _ m hm, id⟩
  unfold Node.served at h
  cases hreq : a.request env with
  | error e => simp [hreq] at h
  | ok vr =>
    simp only [hreq] at h
    unfold Node.serve at h
    cases hparse : parseRequest vr.2.bytes with
    | none => simp [hparse] at h
    | some r =>
      simp only [hparse] at h
      cases hstream : r.stream with
      | LOG =>
        simp only [hstream] at h
        exact hlog h
      | JOURNAL =>
        simp only [hstream] at h
        cases hj : n.journal with
        | some j =>
          simp only [hj] at h
          exact hjournal h
        | none =>
          simp only [hj, serveNoJournal] at h
          split_ifs at h
          obtain rfl := Option.some.inj h
          exact nofun

/-- The replies that get through: those of the start and the records, and perhaps the end. -/
theorem Served.sublist_replies {v : Served} {arrived : List Reply} (h : arrived.Sublist v.replies) :
    ∃ body tail, arrived = body ++ tail ∧ body.Sublist (.start v.start :: v.sent) ∧
      (tail = [] ∨ ∃ s n, tail = [.ended s n]) := by
  have hcons : v.replies = (.start v.start :: v.sent) ++
      if v.endBuffer then [.ended v.status (UInt16.ofNat v.sent.length)] else [] := rfl
  rw [hcons] at h
  obtain ⟨body, tail, rfl, hbody, htail⟩ := List.sublist_append_iff.1 h
  refine ⟨body, tail, rfl, hbody, ?_⟩
  split_ifs at htail
  · rcases List.sublist_singleton.1 htail with htail | htail
    · exact .inl htail
    · exact .inr ⟨_, _, htail⟩
  · exact .inl (List.sublist_nil.1 htail)

/-- Of the replies that got through the visitor takes every record sent. -/
theorem takes_iff (v : Visitor) {sent body tail : List Reply} {s : Start}
    (hbody : body.Sublist (.start s :: sent)) (htail : tail = [] ∨ ∃ s n, tail = [.ended s n]) :
    (body.filter v.takes).map Reply.received = sent.map Reply.received ↔
      sent.Sublist (body ++ tail) ∧ ∀ r ∈ sent, v.takes r = true := by
  have hsub : (body.filter v.takes).Sublist (sent.filter v.takes) := by
    have h := hbody.filter v.takes
    rwa [List.filter_cons_of_neg (by simp [Visitor.takes])] at h
  constructor
  · intro h
    have hlen := congrArg List.length h
    rw [List.length_map, List.length_map] at hlen
    have hle := hsub.length_le
    have hall : sent.filter v.takes = sent :=
      (List.filter_sublist (l := sent)).eq_of_length_le (by omega)
    rw [hall] at hsub
    have heq := hsub.eq_of_length hlen
    exact ⟨heq ▸ (List.filter_sublist.trans (List.sublist_append_left body tail)),
      List.filter_eq_self.1 hall⟩
  · rintro ⟨hsent, hall⟩
    have htakes : tail.filter v.takes = [] := by
      rcases htail with rfl | ⟨s, n, rfl⟩
      · rfl
      · simp [Visitor.takes]
    have h := hsent.filter v.takes
    rw [List.filter_append, htakes, List.append_nil] at h
    rw [hsub.antisymm h, List.filter_eq_self.2 hall]

/-- The request that is sent. -/
theorem ReadArgs.request_eq_ok {a : ReadArgs} {env : ReadEnv} {v : Visitor} {r : Request}
    (h : a.request env = .ok (v, r)) : a.visitor = some v ∧ r.nonce = a.nonce env.cycles := by
  unfold ReadArgs.request at h
  cases hv : a.visitor with
  | none => simp [hv] at h
  | some w =>
    simp only [hv] at h
    split_ifs at h <;> (obtain ⟨rfl, rfl⟩ := Prod.mk.inj (Except.ok.inj h); exact ⟨rfl, rfl⟩)

/-- **When a read is complete.**  A read that returns 0 with no callback answering false has given
the visitor every record sent, each once and in order, exactly when the end of a complete read
does not arrive, or a callback answers false, or every record arrives and has a callback. -/
theorem read_complete_iff (n : Node) (a : ReadArgs) (env : ReadEnv) (arrived : List Reply)
    (h : n.Link a env arrived) : (remoteRead a env).Complete (n.sent a env) ↔
      (∀ k, .ended .COMPLETE k ∉ arrived) ∨ (∃ v, a.visitor = some v ∧ v.Refuses [] arrived) ∨
        a.Delivered (n.sent a env) arrived := by
  obtain ⟨hsub, hours⟩ := h
  unfold remoteRead Node.sent
  unfold Node.replies at hsub
  cases hserved : n.served a env with
  | none =>
    -- the server sends nothing, and the read does not return 0
    rw [hserved] at hsub
    obtain rfl := List.sublist_nil.1 hsub
    refine iff_of_true ?_ (.inl fun k => List.not_mem_nil)
    cases hreq : a.request env with
    | error e => exact fun hres => absurd hres nofun
    | ok vr =>
      obtain ⟨-, hnonce⟩ := ReadArgs.request_eq_ok hreq
      rw [← hnonce] at hours
      show (readLoop vr.1 vr.2.nonce false [] env.arrivals).Complete _
      have hfits : ∀ r ∈ ([] : List Reply), r.Fits := fun _ hr => absurd hr List.not_mem_nil
      rw [readLoop_eq vr.1 hfits hours]
      exact fun hres => absurd hres nofun
  | some served =>
    have hrecords := Node.sent_records hserved
    rw [hserved] at hsub
    change arrived.Sublist served.replies at hsub
    show Read.Complete _ served.sent ↔ _ ∨ _ ∨ a.Delivered served.sent arrived
    obtain ⟨body, tail, rfl, hbody, htail⟩ := Served.sublist_replies hsub
    have hin : ∀ r ∈ body, r.Fits ∧ ¬ r.IsEnded := by
      intro r hr
      rcases List.mem_cons.1 (hbody.subset hr) with rfl | hr
      · exact ⟨trivial, id⟩
      · exact hrecords r hr
    have hfits : ∀ r ∈ body ++ tail, r.Fits := by
      intro r hr
      rcases List.mem_append.1 hr with hr | hr
      · exact (hin r hr).1
      · rcases htail with rfl | ⟨s, k, rfl⟩
        · cases hr
        · obtain rfl := List.mem_singleton.1 hr
          trivial
    cases hreq : a.request env with
    | error e => simp [Node.served, hreq] at hserved
    | ok vr =>
      obtain ⟨v, r⟩ := vr
      obtain ⟨hvisitor, hnonce⟩ := ReadArgs.request_eq_ok hreq
      rw [← hnonce] at hours
      simp only
      rw [readLoop_eq v hfits hours]
      obtain ⟨hiff, hcalls⟩ := readReplies_complete v (fun r hr => (hin r hr).2) htail
      have htakes := takes_iff v hbody htail
      have hdelivered : a.Delivered served.sent (body ++ tail) ↔
          served.sent.Sublist (body ++ tail) ∧ ∀ r ∈ served.sent, v.takes r = true := by
        unfold ReadArgs.Delivered
        rw [hvisitor]
        simp
      have hrefuses : (∃ w, a.visitor = some w ∧ w.Refuses [] (body ++ tail)) ↔
          v.Refuses [] (body ++ tail) := by
        rw [hvisitor]
        simp
      rw [hdelivered, hrefuses, ← htakes]
      by_cases hzero : (readReplies v false [] (body ++ tail)).result = none ∧
          (readReplies v false [] (body ++ tail)).refused = false
      · obtain ⟨hgoes, k, hk⟩ := hiff.1 hzero
        have hrec := filter_visits v [] body
        rw [List.filter_nil, List.nil_append] at hrec
        unfold Read.Complete
        rw [hcalls hzero.1 hzero.2, hrec]
        constructor
        · exact fun hc => .inr (.inr (hc hzero.1 hzero.2))
        · rintro (hend | href | hall)
          · exact absurd hk (hend k)
          · exact absurd href hgoes
          · exact fun _ _ => hall
      · refine iff_of_true (fun hres href => absurd ⟨hres, href⟩ hzero) ?_
        rw [hiff, not_and_or, not_not, not_exists] at hzero
        rcases hzero with href | hend
        · exact .inr (.inl href)
        · exact .inl hend

/-- A node that holds one message and sends text. -/
def sampleNode : Node where
  cfg := smallConfig
  print := fun _ => []
  env := ⟨formatText, fun _ => [], true, fun _ => true, true⟩
  log := zeroed.appends smallConfig [sampleCall]
  journal := none
  startBuffer := true
  endBuffer := true

/-- A read of it, by a visitor that takes messages and goes on. -/
def sampleArgs : ReadArgs := ⟨1, 0, 1, 0, some ⟨false, some fun _ _ => true, none⟩⟩

/-- What the node sends. -/
def sampleStart : Reply := .start ⟨formatText, 1, 2, 0⟩
def sampleMessage : Reply := .message ⟨1, 0, 0, 1, false, false, none, [0x41]⟩
def sampleEnd : Reply := .ended .COMPLETE 1

/-- All goes well but for the link, which lets `arrived` through. -/
def sampleEnv (arrived : List Reply) : ReadEnv :=
  ⟨0x3FFF, true, true, 0, arrived.map (Reply.bytes (sampleArgs.nonce 0))⟩

theorem sample_replies (arrived : List Reply) :
    sampleNode.replies sampleArgs (sampleEnv arrived) = [sampleStart, sampleMessage, sampleEnd] ∧
      sampleNode.sent sampleArgs (sampleEnv arrived) = [sampleMessage] := by
  -- the server does not see what arrives
  show sampleNode.replies sampleArgs (sampleEnv []) = _ ∧ sampleNode.sent sampleArgs (sampleEnv []) = _
  constructor <;> decide +kernel

theorem sample_link {arrived : List Reply}
    (h : arrived.Sublist [sampleStart, sampleMessage, sampleEnd]) :
    sampleNode.Link sampleArgs (sampleEnv arrived) arrived := by
  refine ⟨by rw [(sample_replies arrived).1]; exact h, List.filter_eq_self.2 fun p hp => ?_⟩
  obtain ⟨r, -, rfl⟩ := List.mem_map.1 hp
  exact decide_eq_true (ours_bytes _ r)

theorem read_complete_iff_sample :
    let arrived := [sampleStart, sampleMessage, sampleEnd]
    (remoteRead sampleArgs (sampleEnv arrived)).Complete
      (sampleNode.sent sampleArgs (sampleEnv arrived)) := by
  intro arrived
  refine (read_complete_iff sampleNode sampleArgs _ arrived (sample_link (.refl _))).2
    (.inr (.inr ?_))
  rw [(sample_replies arrived).2]
  refine ⟨List.singleton_sublist.2 (by decide), fun v hv r hr => ?_⟩
  obtain rfl := Option.some.inj hv
  obtain rfl := List.mem_singleton.1 hr
  rfl

/-- **A lost record goes unnoticed.**  The message is lost, the end arrives, and the read
returns 0. -/
theorem lost_record_unnoticed :
    let arrived := [sampleStart, sampleEnd]
    let r := remoteRead sampleArgs (sampleEnv arrived)
    sampleNode.Link sampleArgs (sampleEnv arrived) arrived ∧ r.result = none ∧
      r.refused = false ∧ ¬ r.Complete (sampleNode.sent sampleArgs (sampleEnv arrived)) := by
  intro arrived r
  have hresult : r.result = none ∧ r.refused = false := by decide +kernel
  have hcalls : r.calls = [] := by decide +kernel
  refine ⟨sample_link (by decide), hresult.1, hresult.2, fun h => ?_⟩
  have hrecords := h hresult.1 hresult.2
  rw [hcalls, (sample_replies arrived).2] at hrecords
  cases hrecords

end KfswServices.Log
