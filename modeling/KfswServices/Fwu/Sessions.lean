/-
# Uploaders that share the update service

An FTP upload to the reserved path (`src/ftp/ftp_transfer.c`, `serve_put`), the installation of
the recovery image (`src/golden/golden.c`) and the block upload protocol call the service one
after the other, in any order of their single calls.

No call names who began a transfer: each is judged by the state it finds.  An abort acts on whatever
transfer there is, and one begun after it can take the next write of the uploader that was cut off.
`Entry.Acts` says when a call is carried out: a write is when the caller has sent as many bytes as
the transfer has received.  Any other fails and changes nothing (`Entry.Contained`), and what
becomes VERIFIED has the declared size and checksum whoever sent it.
-/

import KfswServices.Fwu.Accounting
import KfswServices.Fwu.Integrity
import KfswServices.Fwu.Lite

namespace KfswServices.Fwu.Sessions

open Library
open Function (update update_of_ne update_self)

/-! ### The uploaders -/

/-- The uploaders that keep a position of their own. -/
inductive Sender
  | ftp
  | golden
  deriving DecidableEq, Repr

/-- Who calls the service. -/
inductive Uploader
  | sender (s : Sender)
  | lite
  deriving DecidableEq, Repr

/-- An FTP upload, or an installation, between two of its calls.  `sending` is the loop of
`kfsw_ftp_transfer_receive`, or the second of `kfsw_golden_install`; `aborting` is before the
`kfsw_fwu_abort` that follows a failure. -/
inductive Task
  | idle
  | sending (total offset : ℕ)
  | aborting

/-- What a task does next.  `lost` is a frame that does not come or is refused, or a chunk that
cannot be read. -/
inductive TaskMove
  | begin (total : ℕ) (crc : UInt32)
  | send (data : List UInt8)
  | lost
  | finish
  | abort

/-- `GOLDEN_CHUNK`. -/
abbrev goldenChunk : ℕ := 256

/-- The spans a task sends: of a data message that `data_message_is_valid` lets through, or a
chunk. -/
def Sender.Sends (total offset : ℕ) (data : List UInt8) : Sender → Prop
  | .ftp => data.length ≠ 0 ∧ data.length ≤ total - offset
  | .golden => data.length = goldenChunk

instance (total offset : ℕ) (data : List UInt8) (s : Sender) :
    Decidable (s.Sends total offset data) := by
  cases s <;> unfold Sender.Sends <;> infer_instance

/-- The size a task begins with: that of the request, or `GOLDEN_SIZE`. -/
def Sender.Begins (goldenSize total : ℕ) : Sender → Prop
  | .ftp => True
  | .golden => total = goldenSize

instance (goldenSize total : ℕ) (s : Sender) : Decidable (s.Begins goldenSize total) := by
  cases s <;> unfold Sender.Begins <;> infer_instance

/-- The call of a move, if the task is where it makes it. -/
def Sender.call (goldenSize : ℕ) (s : Sender) : Task → TaskMove → Option Call
  | .idle, .begin total crc => if s.Begins goldenSize total then some (.begin total crc) else none
  | .sending total offset, .send data =>
    if offset < total ∧ s.Sends total offset data then some (.write offset (some data)) else none
  | .sending total offset, .finish => if offset < total then none else some .finish
  | .aborting, .abort => some .abort
  | _, _ => none

/-- The task after a call that returned `result`.  A begin that fails is answered at once; after
any other failure comes an abort. -/
def Task.after (t : Task) (c : Call) (result : Option Errno) : Task :=
  match t, c, result with
  | .idle, .begin total _, none => .sending total 0
  | .sending total offset, .write _ (some data), none => .sending total (offset + data.length)
  | .sending _ _, .write _ _, some _ => .aborting
  | .sending _ _, .finish, some _ => .aborting
  | _, _, _ => .idle

/-- The call of a request other than a block. -/
def liteCall (m : Lite.Message) : Option Call :=
  match Lite.Opcode.ofByte? m.opcode with
  | some .BEGIN => some (.begin m.argument.toNat m.extra)
  | some .VERIFY => some .verify
  | some .START_FLASHING => some .finish
  | some .ABORT => some .abort
  | _ => none

/-! ### The node -/

/-- A call as it was made: who had begun the transfer, and the service before it. -/
structure Entry where
  uploader : Uploader
  call : Call
  owner : Option Uploader
  before : Service
  outcome : Outcome

/-- What is seen of the uploaders: their calls, and the looks at the status with which a block is
checked. -/
inductive Event
  | look
  | call (e : Entry)

/-- The service, who began its transfer, the tasks, and the block that is checked and not yet
written; with everything that was seen. -/
structure Node where
  service : Service
  owner : Option Uploader
  tasks : Sender → Task
  block : Option (ℕ × List UInt8)
  log : List Event

/-- After a reset. -/
def Node.boot (slot : ℕ → UInt8) (swapType : SwapType) : Node :=
  ⟨.boot slot swapType, none, fun _ => .idle, none, []⟩

/-- Who began the transfer, after a call. -/
def ownerAfter (owner : Option Uploader) (u : Uploader) : Call → Option Errno → Option Uploader
  | .begin _ _, none => some u
  | .abort, none => none
  | _, _ => owner

/-- One call of the service. -/
def Node.call (cfg : Config) (env : Env) (n : Node) (u : Uploader) (c : Call) : Node :=
  let o := n.service.exec cfg env c
  { n with
    service := o.service
    owner := ownerAfter n.owner u c o.result
    log := n.log ++ [.call ⟨u, c, n.owner, n.service, o⟩] }

/-- What happens next: a move of a task; a request to `kfsw_fwu_lite_handle`, up to its first
call; the second call of a block; a reader of the secondary slot comes or goes. -/
inductive Step
  | task (s : Sender) (m : TaskMove) (env : Env)
  | lite (m : Lite.Message) (env : Env)
  | liteWrite (env : Env)
  | acquire
  | release

/-- One step; one that is not to be taken in this state does nothing. -/
def Node.exec (cfg : Config) (lite : Lite.Settings) (goldenSize : ℕ) (n : Node) : Step → Node
  | .task s m env =>
    match n.tasks s, m with
    | .sending total offset, .lost =>
      if offset < total then { n with tasks := update n.tasks s .aborting } else n
    | t, m =>
      match s.call goldenSize t m with
      | none => n
      | some c =>
        let result := (n.service.exec cfg env c).result
        { n.call cfg env (.sender s) c with tasks := update n.tasks s (t.after c result) }
  | .lite m env =>
    if n.block ≠ none then n
    else if Lite.Opcode.ofByte? m.opcode = some .BLOCK then
      if m.data.length = 0 then n
      else
        { n with
          log := n.log ++ [.look]
          block :=
            if Lite.checkBlock lite n.service.status m = none then
              some (n.service.status.received, m.data)
            else none }
    else
      match liteCall m with
      | none => n
      | some c => n.call cfg env .lite c
  | .liteWrite env =>
    match n.block with
    | none => n
    | some (offset, data) =>
      { n.call cfg env .lite (.write offset (some data)) with block := none }
  | .acquire => { n with service := n.service.acquire.service }
  | .release => if n.service.readers = 0 then n else { n with service := n.service.release.service }

/-- The steps, one after the other. -/
def Node.run (cfg : Config) (lite : Lite.Settings) (goldenSize : ℕ) (n : Node)
    (steps : List Step) : Node := steps.foldl (.exec cfg lite goldenSize) n

/-- **A request without interruption** is what `kfsw_fwu_lite_handle` makes of it. -/
theorem lite_uninterrupted (cfg : Config) (lite : Lite.Settings) (goldenSize : ℕ) (n : Node)
    (hblock : n.block = none) (m : Lite.Message) (env : Env) :
    (n.run cfg lite goldenSize [.lite m env, .liteWrite env]).service =
      (Lite.handle lite cfg env n.service m).service := by
  have hwrite : ∀ t : Node, t.block = none → t.exec cfg lite goldenSize (.liteWrite env) = t := by
    intro t ht
    simp only [Node.exec, ht]
  have hcall : ∀ c, (n.call cfg env .lite c).block = none := fun _ => hblock
  show ((n.exec cfg lite goldenSize (.lite m env)).exec cfg lite goldenSize
    (.liteWrite env)).service = _
  unfold Lite.handle
  cases hop : Lite.Opcode.ofByte? m.opcode with
  | none =>
    have hstep : n.exec cfg lite goldenSize (.lite m env) = n := by
      simp [Node.exec, hblock, hop, liteCall]
    rw [hstep, hwrite n hblock]
    rfl
  | some op =>
    cases op with
    | BLOCK =>
      simp only [Node.exec, hblock, hop, ne_eq, not_true_eq_false, if_false, if_true,
        Lite.handleBlock]
      by_cases hempty : m.data.length = 0
      · have hcheck : Lite.checkBlock lite n.service.status m = some .INVALID := by
          simp [Lite.checkBlock, hempty]
        simp only [hempty, if_true, hblock, hcheck]
        rfl
      · cases hcheck : Lite.checkBlock lite n.service.status m with
        | none => simp [hempty, Lite.perform, Node.call, Service.exec]
        | some e => simp [hempty, Lite.reject]
    | STATUS =>
      have hstep : n.exec cfg lite goldenSize (.lite m env) = n := by
        simp [Node.exec, hblock, hop, liteCall]
      rw [hstep, hwrite n hblock]
      rfl
    | _ =>
      -- a request that is one call
      simp only [Node.exec, hblock, hop, liteCall, ne_eq, not_true_eq_false, if_false,
        Option.some.injEq, reduceCtorEq, hcall]
      rfl

/-! ### What the history says -/

/-- What the calls have come to: the bytes accepted since the last begin, how many of those of
each sender were accepted since its own last begin, and how many bytes were held when a block was
last checked. -/
structure Tally where
  image : List UInt8
  sent : Sender → ℕ
  looked : ℕ

/-- The count of a sender after one of its calls. -/
def sentAfter (sent : ℕ) : Call → Option Errno → ℕ
  | .begin _ _, none => 0
  | .write _ (some data), none => sent + data.length
  | _, _ => sent

def Tally.after (t : Tally) : Event → Tally
  | .look => { t with looked := t.image.length }
  | .call e =>
    { t with
      image := imageAfter t.image (.call e.call e.outcome.result e.outcome.effects)
      sent :=
        match e.uploader with
        | .lite => t.sent
        | .sender s => update t.sent s (sentAfter (t.sent s) e.call e.outcome.result) }

/-- The tally of a history. -/
def tally (history : List Event) : Tally := history.foldl .after ⟨[], fun _ => 0, 0⟩

theorem tally_snoc (history : List Event) (e : Event) :
    tally (history ++ [e]) = (tally history).after e := by
  simp [tally]

/-- Where an uploader goes on: at what was accepted from it, or at what was held when its block was
checked. -/
def Tally.position (t : Tally) : Uploader → ℕ
  | .sender s => t.sent s
  | .lite => t.looked

/-- A verification goes through: the transfer is verified, or complete. -/
def Settled (s : Service) (received : ℕ) : Prop :=
  s.status.state = .VERIFIED ∨ s.status.state = .RECEIVING ∧ received = s.status.totalSize

/-- **When a call is carried out**, after a history with the tally `t`. -/
def Entry.Acts (cfg : Config) (t : Tally) (e : Entry) : Prop :=
  match e.call with
  | .begin total _ => e.before.BeginAdmitted cfg total
  | .write _ data => ∃ span, data = some span ∧ span.length ≠ 0 ∧
      e.before.status.state = .RECEIVING ∧ t.position e.uploader = t.image.length ∧
      t.image.length + span.length ≤ e.before.status.totalSize
  | .verify => Settled e.before t.image.length
  | .finish => e.before.readers = 0 ∧ Settled e.before t.image.length
  | .abort => e.before.Free cfg
  | .acquire | .release => True

/-- The call returned an error, and changed nothing. -/
def Entry.Refused (e : Entry) : Prop := ∃ err, e.outcome = e.before.refuse err

/-- The transfer was begun by another uploader. -/
def Entry.Foreign (e : Entry) : Prop := ∃ w, e.owner = some w ∧ w ≠ e.uploader

/-- **A call is contained**: it is refused if it is not to be carried out, and only then; but an
abort of a failed transfer may find that the flash cannot be erased. -/
structure Entry.Contained (cfg : Config) (t : Tally) (e : Entry) : Prop where
  refused : ¬ e.Acts cfg t → e.Refused
  acts : e.Refused → e.Acts cfg t → e.call = .abort ∧ e.before.status.state = .FAILED

/-! ### The transfer against the bytes accepted -/

/-- While it is received the transfer counts the bytes accepted; once it is verified they are those
declared. -/
def Declared (image : List UInt8) (s : Service) : Prop :=
  match s.status.state with
  | .RECEIVING => s.status.received = image.length ∧ s.status.actualCrc32 = crc32 image
  | .VERIFIED | .READY =>
    s.status.totalSize = image.length ∧ s.status.expectedCrc32 = crc32 image
  | .IDLE | .FAILED => True

variable {image : List UInt8} {s : Service}

theorem declared_of_failed (h : s.status.state = .FAILED) : Declared image s := by
  unfold Declared
  rw [h]
  trivial

theorem Declared.congr {t : Service} (h : Declared image s) (hstatus : t.status = s.status) :
    Declared image t := by
  unfold Declared at *
  rwa [hstatus]

theorem declared_verify (env : Env) (h : Declared image s) : Declared image (s.verify env).service ∧
      ((s.verify env).result = none → (s.verify env).service.status.state = .VERIFIED) := by
  rcases s.verify_cases env with ⟨hst, he⟩ | ⟨-, e, he⟩ | ⟨-, e, slot, effects, he, -⟩ |
      ⟨hst, hlen, hcrc, -, he⟩
  · rw [he]
    exact ⟨h, fun _ => hst⟩
  · rw [he]
    exact ⟨h, nofun⟩
  · rw [he]
    exact ⟨declared_of_failed rfl, nofun⟩
  · unfold Declared at h
    rw [hst] at h
    rw [he]
    exact ⟨⟨hlen.symm.trans h.1, hcrc.symm.trans h.2⟩, fun _ => rfl⟩

variable {cfg : Config}

theorem declared_finish (env : Env) (h : Declared image s) :
    Declared image (s.finish cfg env).service := by
  obtain ⟨hverify, hverified⟩ := declared_verify env h
  rcases s.finish_cases cfg env with ⟨e, he⟩ | ⟨-, e, v, effects, hv, he⟩ |
      ⟨-, v, effects, hv, hend⟩
  · rw [he]
    exact h
  · rw [hv] at hverify
    rw [he]
    exact hverify
  · rw [hv] at hverify hverified
    unfold Declared at hverify
    rw [hverified rfl] at hverify
    rcases hend with ⟨-, he⟩ | ⟨-, e, he⟩ | ⟨-, -, he⟩ <;> rw [he]
    · exact hverify
    · exact declared_of_failed rfl
    · exact hverify

/-- **A call keeps it.** -/
theorem declared_exec (cfg : Config) (env : Env) (c : Call) (h : Declared image s) : Declared
      (imageAfter image (.call c (s.exec cfg env c).result (s.exec cfg env c).effects))
      (s.exec cfg env c).service := by
  cases c with
  | begin total crc =>
    simp only [Service.exec]
    rcases s.begin_cases cfg env total crc with ⟨e, he⟩ | ⟨-, -, e, slot, effects, he, -⟩ |
        ⟨-, -, -, -, he⟩ <;> rw [he]
    · exact h
    · exact declared_of_failed rfl
    · exact ⟨rfl, by simp [crc32, imageAfter]⟩
  | write offset data =>
    simp only [Service.exec]
    rcases s.write_cases env offset data with ⟨e, he⟩ | ⟨-, e, he⟩ |
        ⟨hst, span, rfl, -, -, -, he⟩ <;> rw [he]
    · cases data <;> exact h
    · exact declared_of_failed rfl
    · unfold Declared at h ⊢
      rw [hst] at h
      simp only [hst, imageAfter]
      rw [List.length_append, h.1, h.2, crc32, crc32, crc32Update_append]
      exact ⟨rfl, rfl⟩
  | verify => exact (declared_verify env h).1
  | finish => exact declared_finish env h
  | abort =>
    simp only [Service.exec]
    rcases s.abort_cases cfg env with ⟨e, he⟩ | ⟨-, e, slot, effects, he, -⟩ |
        ⟨-, effects, he, -⟩ <;> rw [he]
    · exact h
    · exact declared_of_failed rfl
    · trivial
  | acquire =>
    simp only [Service.exec, Service.acquire]
    split_ifs
    · exact h
    · exact h.congr rfl
  | release => exact h.congr rfl

/-! ### When a call is refused -/

/-- A failure is counted, so it is seen. -/
theorem not_refuse_of_failed {o : Outcome} (h : o.service.status = s.fail.status) :
    ¬ ∃ e, o = s.refuse e := by
  rintro ⟨e, rfl⟩
  have hcount : s.status.failed = s.status.failed + 1 := congrArg Status.failed h
  rw [eq_comm, add_eq_left] at hcount
  exact absurd hcount (by decide)

theorem not_refuse_of_ok {o : Outcome} (h : o.result = none) : ¬ ∃ e, o = s.refuse e := by
  rintro ⟨e, rfl⟩
  cases h

theorem begin_refused_iff (cfg : Config) (env : Env) (s : Service) (total : ℕ) (crc : UInt32) :
    (∃ e, s.begin cfg env total crc = s.refuse e) ↔ ¬ s.BeginAdmitted cfg total := by
  refine ⟨fun h hadm => ?_, Service.begin_of_not_admitted env crc⟩
  obtain ⟨hfails, hbegins⟩ := Service.begin_of_admitted env crc hadm
  by_cases hf : env.FailsBegin
  · exact not_refuse_of_failed (hfails hf) h
  · -- the transfer is RECEIVING, which it was not
    obtain ⟨e, he⟩ := h
    have hstatus := hbegins hf
    rw [he] at hstatus
    exact hadm.2.2.1 (congrArg Status.state hstatus)

theorem write_refused_iff (env : Env) (s : Service) (offset : ℕ) (span : List UInt8) :
    (∃ e, s.write env offset (some span) = s.refuse e) ↔ ¬ (span.length ≠ 0 ∧
      s.status.state = .RECEIVING ∧ offset = s.status.received ∧
        s.status.received + span.length ≤ s.status.totalSize) := by
  unfold Service.write
  simp only
  split_ifs with hempty hst hoffset hbig
  · exact iff_of_true ⟨_, rfl⟩ (by simp [hempty])
  · exact iff_of_true ⟨_, rfl⟩ (by simp [hst])
  · exact iff_of_true ⟨_, rfl⟩ (by simp [hoffset])
  · refine iff_of_true ⟨_, rfl⟩ ?_
    rintro ⟨-, -, rfl, hfits⟩
    omega
  · simp only [ne_eq, Decidable.not_not] at hst hoffset
    subst hoffset
    refine iff_of_false ?_ (not_not.2 ⟨hempty, hst, rfl, not_lt.1 hbig⟩)
    cases env.streamWrite.result with
    | some e => exact not_refuse_of_failed rfl
    | none => exact not_refuse_of_ok rfl

theorem verify_refused_iff (env : Env) (s : Service) :
    (∃ e, s.verify env = s.refuse e) ↔ ¬ Settled s s.status.received := by
  unfold Settled Service.verify
  split_ifs with hver hst hlen hcrc
  · exact iff_of_false (not_refuse_of_ok rfl) (by simp [hver])
  · exact iff_of_true ⟨_, rfl⟩ (by simp [hver, hst])
  · exact iff_of_true ⟨_, rfl⟩ (by simp [hver, hlen])
  all_goals
    simp only [ne_eq, Decidable.not_not] at hst hlen
    refine iff_of_false ?_ (not_not.2 (.inr ⟨hst, hlen⟩))
  · rcases s.eraseSlot_cases env with ⟨e, he⟩ | he <;> rw [he] <;> exact not_refuse_of_failed rfl
  · cases env.flush.result with
    | some e => exact not_refuse_of_failed rfl
    | none => exact not_refuse_of_ok rfl

theorem finish_refused_iff (cfg : Config) (env : Env) (s : Service) :
    (∃ e, s.finish cfg env = s.refuse e) ↔ ¬ (s.readers = 0 ∧ Settled s s.status.received) := by
  have hverify := verify_refused_iff env s
  unfold Service.finish
  by_cases hreaders : s.readers = 0
  swap
  · rw [if_pos hreaders]
    exact iff_of_true ⟨_, rfl⟩ (by simp [hreaders])
  rw [if_neg (not_not.2 hreaders)]
  simp only [hreaders, true_and]
  rw [← hverify]
  cases hresult : (s.verify env).result with
  | some e =>
    have heq : (⟨(s.verify env).service, some e, (s.verify env).effects⟩ : Outcome) =
        s.verify env := by rw [← hresult]
    simp only [heq]
  | none =>
    refine iff_of_false ?_ (not_refuse_of_ok hresult)
    -- the verification has changed the state at most
    have hfail : ((s.verify env).service.asked env).fail.status = s.fail.status := by
      rcases s.verify_cases env with ⟨-, he⟩ | ⟨-, e, he⟩ | ⟨-, e, slot, effects, he, -⟩ |
          ⟨-, -, -, -, he⟩ <;> rw [he] at hresult ⊢
      · rfl
      · cases hresult
      · cases hresult
      · rfl
    simp only
    by_cases hboot : (!cfg.mcuboot) = true
    · rw [if_pos hboot]
      exact not_refuse_of_ok rfl
    rw [if_neg hboot]
    cases env.upgrade.result with
    | some e => exact not_refuse_of_failed hfail
    | none =>
      simp only
      split_ifs
      · exact not_refuse_of_failed hfail
      · exact not_refuse_of_ok rfl

/-- An abort is refused while the slot is needed; otherwise only where the transfer has failed. -/
theorem abort_refused (cfg : Config) (env : Env) (s : Service) :
    (¬ s.Free cfg → ∃ e, s.abort cfg env = s.refuse e) ∧
      (s.Free cfg → (∃ e, s.abort cfg env = s.refuse e) → s.status.state = .FAILED) := by
  have hfree : s.readers ≠ 0 ∨ s.neededForRevert cfg = true ↔ ¬ s.Free cfg := by
    unfold Service.Free
    rw [not_and_or, Bool.not_eq_false]
  constructor
  · intro h
    unfold Service.abort
    rw [if_pos (hfree.2 h)]
    exact ⟨_, rfl⟩
  · rintro h ⟨e, he⟩
    unfold Service.abort at he
    rw [if_neg (fun hn => hfree.1 hn h)] at he
    set counted := { s with status := { s.status with failed := s.aborted } } with hcounted
    rcases counted.eraseSlot_cases env with ⟨e', he'⟩ | he' <;> simp only [he'] at he
    · exact (congrArg (fun o => o.service.status.state) he).symm
    · cases hflatten : env.flatten.result with
      | some e' =>
        rw [hflatten] at he
        exact (congrArg (fun o => o.service.status.state) he).symm
      | none =>
        rw [hflatten] at he
        cases congrArg Outcome.result he

/-- **Every call is contained**, when the service counts the bytes accepted, and a write is at the
caller's position. -/
theorem contained_of_exec {t : Tally} {e : Entry} {env : Env}
    (hexec : e.outcome = e.before.exec cfg env e.call) (hdeclared : Declared t.image e.before)
    (hcall : e.call ≠ .acquire ∧ e.call ≠ .release)
    (hposition : ∀ offset span, e.call = .write offset span → offset = t.position e.uploader ∧
      ∃ data, span = some data) : e.Contained cfg t := by
  have hreceived : e.before.status.state = .RECEIVING →
      e.before.status.received = t.image.length := by
    intro hst
    unfold Declared at hdeclared
    rw [hst] at hdeclared
    exact hdeclared.1
  have hsettled : Settled e.before e.before.status.received ↔ Settled e.before t.image.length := by
    unfold Settled
    exact or_congr_right (and_congr_right fun hst => by rw [hreceived hst])
  -- a call whose refusal is settled by an equivalence
  have hiff : (e.Refused ↔ ¬ e.Acts cfg t) → e.Contained cfg t := fun h =>
    ⟨h.2, fun hr ha => absurd ha (h.1 hr)⟩
  obtain ⟨uploader, call, owner, before, outcome⟩ := e
  simp only at hexec hdeclared hcall hposition hreceived hsettled
  subst hexec
  cases call with
  | begin total crc => exact hiff (begin_refused_iff cfg env before total crc)
  | write offset span =>
    obtain ⟨rfl, data, rfl⟩ := hposition offset span rfl
    refine hiff ((write_refused_iff env before _ data).trans (not_congr ?_))
    constructor
    · rintro ⟨hne, hst, hat, hfits⟩
      rw [hreceived hst] at hat hfits
      exact ⟨data, rfl, hne, hst, hat, hfits⟩
    · rintro ⟨data', hdata, hne, hst, hat, hfits⟩
      obtain rfl := Option.some.inj hdata
      rw [hreceived hst]
      exact ⟨hne, hst, hat, hfits⟩
  | verify => exact hiff ((verify_refused_iff env before).trans (not_congr hsettled))
  | finish =>
    exact hiff ((finish_refused_iff cfg env before).trans (not_congr (and_congr_right fun _ =>
      hsettled)))
  | abort =>
    obtain ⟨hrefused, hacts⟩ := abort_refused cfg env before
    exact ⟨hrefused, fun hr ha => ⟨rfl, hacts ha hr⟩⟩
  | acquire => exact absurd rfl hcall.1
  | release => exact absurd rfl hcall.2

/-! ### The invariant -/

/-- **The invariant of the node**: the service counts the bytes accepted, each task is where the
history has it, a checked block is where the last look was, and every call was contained. -/
structure NodeInv (cfg : Config) (n : Node) : Prop where
  declared : Declared (tally n.log).image n.service
  tasks : ∀ s total offset, n.tasks s = .sending total offset → offset = (tally n.log).sent s
  block : ∀ offset data, n.block = some (offset, data) → offset = (tally n.log).looked
  contained : ∀ history e later, n.log = history ++ .call e :: later →
    e.Contained cfg (tally history)

/-- The entries of a history with one event more. -/
theorem split_snoc {log history later : List Event} {x y : Event}
    (h : log ++ [x] = history ++ y :: later) :
    history = log ∧ y = x ∨ ∃ later', log = history ++ y :: later' := by
  rcases List.eq_nil_or_concat later with rfl | ⟨later', z, rfl⟩
  · obtain ⟨rfl, hx⟩ := List.append_inj' h rfl
    exact .inl ⟨rfl, (List.cons.inj hx).1.symm⟩
  · refine .inr ⟨later', ?_⟩
    rw [List.concat_eq_append, ← List.cons_append, ← List.append_assoc] at h
    exact (List.append_inj' h rfl).1

/-- What a call at the caller's position keeps. -/
theorem NodeInv.call {n : Node} (h : NodeInv cfg n) (env : Env) (u : Uploader) (c : Call)
    (hcall : c ≠ .acquire ∧ c ≠ .release) (hposition : ∀ offset span, c = .write offset span →
      offset = (tally n.log).position u ∧ ∃ data, span = some data) :
    Declared (tally (n.call cfg env u c).log).image (n.call cfg env u c).service ∧
      ∀ history e later, (n.call cfg env u c).log = history ++ .call e :: later →
        e.Contained cfg (tally history) := by
  constructor
  · show Declared (tally (n.log ++ [_])).image (n.service.exec cfg env c).service
    rw [tally_snoc]
    exact declared_exec cfg env c h.declared
  · intro history e later hlog
    rcases split_snoc hlog with ⟨rfl, he⟩ | ⟨later', hlog⟩
    · obtain rfl := Event.call.inj he
      exact contained_of_exec rfl h.declared hcall hposition
    · exact h.contained history e later' hlog

/-- What a call makes of the counts. -/
theorem tally_call (cfg : Config) (env : Env) (n : Node) (u : Uploader) (c : Call) :
    (tally (n.call cfg env u c).log).looked = (tally n.log).looked ∧
      (∀ s, u ≠ .sender s → (tally (n.call cfg env u c).log).sent s = (tally n.log).sent s) ∧
      ∀ s, u = .sender s → (tally (n.call cfg env u c).log).sent s =
        sentAfter ((tally n.log).sent s) c (n.service.exec cfg env c).result := by
  have hlog : (n.call cfg env u c).log =
      n.log ++ [.call ⟨u, c, n.owner, n.service, n.service.exec cfg env c⟩] := rfl
  rw [hlog, tally_snoc]
  refine ⟨rfl, fun s hs => ?_, ?_⟩
  · cases u with
    | lite => rfl
    | sender s' =>
      have hne : s ≠ s' := fun heq => hs (by rw [heq])
      exact update_of_ne hne _ _
  · rintro s rfl
    exact update_self _ _ _

section

variable {goldenSize : ℕ} {s : Sender} {t : Task} {m : TaskMove} {c : Call}
  (hc : s.call goldenSize t m = some c)
include hc

/-- The position of a task after its call is what was accepted from it. -/
theorem Task.after_sending {sent : ℕ}
    (hsent : ∀ total offset, t = .sending total offset → offset = sent) {result : Option Errno}
    {total offset : ℕ} (h : t.after c result = .sending total offset) :
    offset = sentAfter sent c result := by
  cases t with
  | idle =>
    cases m with
    | begin size crc =>
      simp only [Sender.call] at hc
      split_ifs at hc
      obtain rfl := Option.some.inj hc
      cases result with
      | none => exact (Task.sending.inj h).2.symm
      | some e => cases h
    | _ => cases hc
  | sending size at' =>
    obtain rfl := hsent size at' rfl
    cases m with
    | send data =>
      simp only [Sender.call] at hc
      split_ifs at hc
      obtain rfl := Option.some.inj hc
      cases result with
      | none => exact (Task.sending.inj h).2.symm
      | some e => cases h
    | finish =>
      simp only [Sender.call] at hc
      split_ifs at hc
      obtain rfl := Option.some.inj hc
      cases result <;> cases h
    | _ => cases hc
  | aborting =>
    cases m with
    | abort =>
      obtain rfl := Option.some.inj hc
      cases h
    | _ => cases hc

/-- A task's call is a call of an uploader, and writes at the task's position. -/
theorem Sender.call_spec : (c ≠ .acquire ∧ c ≠ .release) ∧
      ∀ offset span, c = .write offset span →
        (∃ total, t = .sending total offset) ∧ ∃ data, span = some data := by
  unfold Sender.call at hc
  split at hc
  · split_ifs at hc
    obtain rfl := Option.some.inj hc
    exact ⟨⟨nofun, nofun⟩, nofun⟩
  · split_ifs at hc
    obtain rfl := Option.some.inj hc
    refine ⟨⟨nofun, nofun⟩, fun offset span h => ?_⟩
    obtain ⟨rfl, rfl⟩ := Call.write.inj h
    exact ⟨⟨_, rfl⟩, _, rfl⟩
  · split_ifs at hc
    obtain rfl := Option.some.inj hc
    exact ⟨⟨nofun, nofun⟩, nofun⟩
  · obtain rfl := Option.some.inj hc
    exact ⟨⟨nofun, nofun⟩, nofun⟩
  · cases hc

end

/-- The call of a request that is not a block. -/
theorem liteCall_spec {m : Lite.Message} {c : Call} (hc : liteCall m = some c) :
    (c ≠ .acquire ∧ c ≠ .release) ∧ ∀ offset span, c ≠ .write offset span := by
  unfold liteCall at hc
  split at hc
  all_goals first
    | obtain rfl := Option.some.inj hc
      exact ⟨⟨nofun, nofun⟩, nofun⟩
    | cases hc

theorem nodeInv_boot (cfg : Config) (slot : ℕ → UInt8) (swapType : SwapType) :
    NodeInv cfg (.boot slot swapType) := by
  refine ⟨trivial, nofun, nofun, fun history e later h => ?_⟩
  cases history <;> cases h

section

variable {n : Node} (h : NodeInv cfg n)
include h

/-- A step of a task. -/
theorem NodeInv.task {lite : Lite.Settings} {goldenSize : ℕ}
    (s : Sender) (m : TaskMove) (env : Env) :
    NodeInv cfg (n.exec cfg lite goldenSize (.task s m env)) := by
  -- a move that makes a call, if any
  have hmove : ∀ t, n.tasks s = t → NodeInv cfg (match s.call goldenSize t m with
      | none => n
      | some c => { n.call cfg env (.sender s) c with
          tasks := update n.tasks s (t.after c (n.service.exec cfg env c).result) }) := by
    rintro t rfl
    cases hc : s.call goldenSize (n.tasks s) m with
    | none => exact h
    | some c =>
      obtain ⟨hcall, hwrite⟩ := Sender.call_spec hc
      obtain ⟨hdeclared, hcontained⟩ := h.call env (.sender s) c hcall fun offset span hw => by
        obtain ⟨⟨total, ht⟩, hspan⟩ := hwrite offset span hw
        exact ⟨h.tasks s total offset ht, hspan⟩
      obtain ⟨hlooked, hothers, hself⟩ := tally_call cfg env n (.sender s) c
      refine ⟨hdeclared, fun s' total offset ht => ?_, fun offset data hb => ?_, hcontained⟩
      · replace ht : update n.tasks s ((n.tasks s).after c
          (n.service.exec cfg env c).result) s' = .sending total offset := ht
        by_cases hs : s' = s
        · subst hs
          rw [update_self] at ht
          exact (Task.after_sending hc (h.tasks s') ht).trans (hself s' rfl).symm
        · rw [update_of_ne hs] at ht
          have hne : Uploader.sender s ≠ .sender s' := fun heq =>
            hs (Uploader.sender.inj heq).symm
          exact (h.tasks s' total offset ht).trans (hothers s' hne).symm
      · exact (h.block offset data hb).trans hlooked.symm
  unfold Node.exec
  simp only
  split
  · -- a frame is lost
    split_ifs
    · refine ⟨h.declared, fun s' total offset ht => ?_, h.block, h.contained⟩
      replace ht : update n.tasks s .aborting s' = .sending total offset := ht
      by_cases hs : s' = s
      · rw [hs, update_self] at ht
        cases ht
      · rw [update_of_ne hs] at ht
        exact h.tasks s' total offset ht
    · exact h
  · exact hmove _ rfl

/-- A look at the status, with the block it lets through. -/
theorem NodeInv.look (block : Option (ℕ × List UInt8))
    (hblock : ∀ offset data, block = some (offset, data) →
      n.service.status.state = .RECEIVING ∧ offset = n.service.status.received) :
    NodeInv cfg { n with log := n.log ++ [.look], block := block } := by
  have htally : tally (n.log ++ [.look]) = (tally n.log).after .look := tally_snoc _ _
  refine ⟨?_, fun s total offset ht => ?_, fun offset data hb => ?_, fun history e later hlog => ?_⟩
  · simp only [htally]
    exact h.declared
  · simp only [htally]
    exact h.tasks s total offset ht
  · obtain ⟨hst, rfl⟩ := hblock offset data hb
    have hdeclared := h.declared
    unfold Declared at hdeclared
    rw [hst] at hdeclared
    simp only [htally]
    exact hdeclared.1
  · rcases split_snoc hlog with ⟨-, he⟩ | ⟨later', hlog⟩
    · cases he
    · exact h.contained history e later' hlog

/-- **Every step keeps it.** -/
theorem NodeInv.exec (lite : Lite.Settings) (goldenSize : ℕ)
    (step : Step) : NodeInv cfg (n.exec cfg lite goldenSize step) := by
  have hlite : ∀ (env : Env) (c : Call), (c ≠ .acquire ∧ c ≠ .release) →
      (∀ offset span, c = .write offset span →
        offset = (tally n.log).looked ∧ ∃ data, span = some data) →
      ∀ block, (block = n.block ∨ block = none) →
      NodeInv cfg { n.call cfg env .lite c with block := block } := by
    intro env c hcall hposition block hblock
    obtain ⟨hdeclared, hcontained⟩ := h.call env .lite c hcall hposition
    obtain ⟨hlooked, hothers, -⟩ := tally_call cfg env n .lite c
    refine ⟨hdeclared, fun s total offset ht => ?_, fun offset data hb => ?_, hcontained⟩
    · exact (h.tasks s total offset ht).trans (hothers s nofun).symm
    · rcases hblock with rfl | rfl
      · exact (h.block offset data hb).trans hlooked.symm
      · cases hb
  cases step with
  | task s m env => exact h.task s m env
  | lite m env =>
    simp only [Node.exec]
    split_ifs with hbusy hop hempty hcheck
    · exact h
    · exact h
    · refine h.look _ fun offset data hb => ?_
      have hst : n.service.status.state = .RECEIVING := by
        unfold Lite.checkBlock at hcheck
        split_ifs at hcheck with hstate
        simpa using hstate
      exact ⟨hst, (Prod.mk.inj (Option.some.inj hb)).1.symm⟩
    · exact h.look none nofun
    · cases hc : liteCall m with
      | none => exact h
      | some c =>
        obtain ⟨hcall, hwrite⟩ := liteCall_spec hc
        exact hlite env c hcall (fun offset span hw => absurd hw (hwrite offset span)) _ (.inl rfl)
  | liteWrite env =>
    simp only [Node.exec]
    cases hb : n.block with
    | none => exact h
    | some held =>
      obtain ⟨offset, data⟩ := held
      refine hlite env (.write offset (some data)) ⟨nofun, nofun⟩ (fun offset' span hw => ?_) none
        (.inr rfl)
      obtain ⟨rfl, rfl⟩ := Call.write.inj hw
      exact ⟨h.block offset data hb, data, rfl⟩
  | acquire =>
    refine ⟨?_, h.tasks, h.block, h.contained⟩
    exact declared_exec cfg n.service.faultless .acquire h.declared
  | release =>
    simp only [Node.exec]
    split_ifs
    · exact h
    · exact ⟨h.declared.congr rfl, h.tasks, h.block, h.contained⟩

theorem nodeInv_run (lite : Lite.Settings) (goldenSize : ℕ)
    (steps : List Step) : NodeInv cfg (n.run cfg lite goldenSize steps) := by
  induction steps generalizing n with
  | nil => exact h
  | cons step steps ih => exact ih (h.exec lite goldenSize step)

end

/-- **What a call on a transfer of another uploader can do.**  Every call is contained,
whoever began the transfer: it is carried out exactly when the history of the calls puts
the caller there, and otherwise fails and changes nothing.  A transfer is VERIFIED or
READY only when the bytes accepted since the last begin, whoever sent them, have the size
and the checksum declared. -/
theorem calls_contained (cfg : Config) (lite : Lite.Settings) (goldenSize : ℕ) (slot : ℕ → UInt8)
    (swapType : SwapType) (steps : List Step) :
    let n := (Node.boot slot swapType).run cfg lite goldenSize steps
    (∀ history e later, n.log = history ++ .call e :: later → e.Contained cfg (tally history)) ∧
      (n.service.status.state = .VERIFIED ∨ n.service.status.state = .READY →
        n.service.status.totalSize = (tally n.log).image.length ∧
          n.service.status.expectedCrc32 = crc32 (tally n.log).image) := by
  intro n
  have h := nodeInv_run (nodeInv_boot cfg slot swapType) lite goldenSize steps
  refine ⟨h.contained, fun hst => ?_⟩
  have hdeclared := h.declared
  unfold Declared at hdeclared
  rcases hst with hst | hst
  · rw [hst] at hdeclared
    exact hdeclared
  · rw [hst] at hdeclared
    exact hdeclared

/-- An FTP upload begins; a lite client aborts it and begins its own; the FTP upload goes on. -/
def replacedSteps : List Step :=
  let env := (Service.boot (fun _ => 0) .NONE).faultless
  [.task .ftp (.begin 1 0) env, .lite ⟨Lite.Opcode.ABORT.toByte, 0, 0, 0, 0, []⟩ env,
    .lite ⟨Lite.Opcode.BEGIN.toByte, 0, 0, 1, 0, []⟩ env, .task .ftp (.send [7]) env]

/-- **A byte of the FTP upload goes into the image of the lite client.** -/
theorem foreign_write_accepted :
    let n := (Node.boot (fun _ => 0) .NONE).run smallConfig Lite.smallSettings 256 replacedSteps
    ∃ history e, n.log = history ++ [.call e] ∧ e.uploader = .sender .ftp ∧
      e.owner = some .lite ∧ e.Foreign ∧ e.call = .write 0 (some [7]) ∧
      e.outcome.result = none ∧ ¬ e.Refused ∧ n.service.stream.accepted = [7] := by
  refine ⟨[.call _, .call _, .call _], _, rfl, rfl, rfl, ⟨.lite, rfl, by decide⟩, rfl, rfl, ?_, rfl⟩
  exact not_refuse_of_ok rfl

end KfswServices.Fwu.Sessions
