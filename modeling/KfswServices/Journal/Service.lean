/-
# The journal service

`src/journal/journal.c`.  `kfsw_journal_submit` puts selected events into a bounded queue;
`kfsw_journal_flush` takes them out one at a time and appends each to the file.  The event
taken last is kept in memory, with the sequence it was given, until its record has been
written, and after a failed append the file is opened again before the next attempt.

The calls are recorded as what they did (`Act`): the events that were queued, those a flush
took, and the appends that got as far as writing a slot, with what was at the path before and
after.
-/

import KfswServices.Journal.Store

namespace KfswServices.Journal

/-- `enum kfsw_event_boot_id`, the reports that are queued once in a boot. -/
inductive BootReport
  | READY
  | LASTWORDS
  deriving DecidableEq, Repr

/-- The report an event identifier names. -/
def BootReport.ofId (id : UInt16) : Option BootReport :=
  if id = 1 then some .READY else if id = 2 then some .LASTWORDS else none

/-- The statics of `journal.c`, and what is at the journal's path.  `pending` stands for the
record of that name and `have_pending`. -/
structure Service where
  entry : Entry
  store : Store
  pending : Option Record
  started : Bool
  boot : ℕ
  dropped : UInt32
  bootSeen : List BootReport
  errors : UInt32
  lastError : Option Errno
  queue : List Event.Record

/-- After a reset, with anything at the path. -/
def Service.boot₀ (cfg : Config) (entry : Entry) : Service :=
  ⟨entry, .blank cfg, none, false, 0, 0, [], 0, none, []⟩

/-- `atomic_inc(&dropped)`. -/
def Service.drop (s : Service) : Service := { s with dropped := s.dropped + 1 }

/-- `k_msgq_put`, and what follows when the queue is full: the report, if it is one, may come
again. -/
def Service.enqueue (cfg : Config) (s : Service) (e : Event.Record) (report : Option BootReport) :
    Service :=
  if s.queue.length < cfg.queueDepth then { s with queue := s.queue ++ [e] }
  else { s.drop with bootSeen := s.bootSeen.filter fun b => some b ≠ report }

/-- `kfsw_journal_submit`; the event may be NULL. -/
def Service.submit (cfg : Config) (s : Service) (event : Option Event.Record) : Service :=
  match event with
  | none => s
  | some e =>
    if ¬ e.Valid then s.drop
    else if e.source = Event.Source.BOOT.toUInt16 then
      match BootReport.ofId e.id with
      | some report =>
        if report ∈ s.bootSeen then s
        else { s with bootSeen := report :: s.bootSeen }.enqueue cfg e (some report)
      | none => s.enqueue cfg e none
    else if e.severity < cfg.minSeverity then s
    else s.enqueue cfg e none

/-- `open_store`; `ready` is what `kfsw_storage_is_ready` answers first. -/
def Service.openStore (cfg : Config) (ready : Bool) (env : FsEnv cfg) (s : Service) :
    Service × Option Errno :=
  if s.store.ready && ready then (s, none)
  else
    let o := storeOpen cfg env s.entry
    let s := { s with entry := o.entry, store := o.store }
    if o.result = none ∧ s.boot = 0 then
      if o.store.highestBoot ≥ uint64Max - 1 then
        ({ s with store := { o.store with ready := false } }, some .EOVERFLOW)
      else ({ s with boot := o.store.highestBoot + 1 }, none)
    else (s, o.result)

/-- What a call does, as seen from outside. -/
inductive Act
  /-- An event is put into the queue. -/
  | queued (e : Event.Record)
  /-- An event is taken from the queue. -/
  | took (e : Event.Record)
  /-- A slot is written. -/
  | wrote (r : Record) (before after : Entry) (result : Option Errno)

/-- The record of an event just taken; `utc` is the clock's reading, if it is set. -/
def newRecord (boot : ℕ) (utc : Option Int64) (e : Event.Record) : Record :=
  ⟨0, boot, utc.getD 0, utc.isSome, e⟩

/-- The first part of an iteration of `kfsw_journal_flush`: there is a pending record, or one is
made of the next event; none when the queue is empty. -/
def Service.takePending (s : Service) (utc : Option Int64) : Option (Service × Record × List Act) :=
  match s.pending with
  | some p => some (s, p, [])
  | none =>
    match s.queue with
    | [] => none
    | e :: queue =>
      let p := newRecord s.boot utc e
      some ({ s with queue := queue, pending := some p }, p, [.took e])

/-- The second part: the append. -/
def Service.appendPending (cfg : Config) (env : FsEnv cfg) (s : Service) (p : Record) :
    Service × Option Errno × List Act :=
  let o := storeAppend cfg env s.entry s.store p
  let s' := { s with
    entry := o.entry
    store := o.store
    pending := if o.result = none then none else some o.record }
  (s', o.result, if o.through = [] then [] else [.wrote o.record s.entry o.entry o.result])

/-- What the calls of one flush are answered: of `open_store`, and of each iteration. -/
structure FlushEnv (cfg : Config) where
  ready : Bool
  openStore : FsEnv cfg
  append : ℕ → FsEnv cfg
  utc : ℕ → Option Int64

/-- The loop of `kfsw_journal_flush`, with `n` iterations left from the `i`-th on. -/
def flushLoop (cfg : Config) (env : FlushEnv cfg) :
    ℕ → ℕ → Service → Service × Option Errno × List Act
  | 0, _, s => (s, none, [])
  | n + 1, i, s =>
    match s.takePending (env.utc i) with
    | none => (s, none, [])
    | some (s, p, took) =>
      match s.appendPending cfg (env.append i) p with
      | (s, some e, wrote) => (s, some e, took ++ wrote)
      | (s, none, wrote) =>
        let (s, result, acts) := flushLoop cfg env n (i + 1) s
        (s, result, took ++ (wrote ++ acts))

/-- The end of `kfsw_journal_flush` and of `kfsw_journal_start`. -/
def Service.conclude (s : Service) (result : Option Errno) : Service :=
  { s with
    lastError := result
    errors := if result = none then s.errors else s.errors + 1 }

/-- `kfsw_journal_flush`. -/
def Service.flush (cfg : Config) (env : FlushEnv cfg) (s : Service) :
    Service × Option Errno × List Act :=
  if !s.started then (s, some .EACCES, [])
  else
    match s.openStore cfg env.ready env.openStore with
    | (s, some e) => (s.conclude (some e), some e, [])
    | (s, none) =>
      let (s, result, acts) := flushLoop cfg env cfg.queueDepth 0 s
      (s.conclude result, result, acts)

/-- `kfsw_journal_start`. -/
def Service.start (cfg : Config) (ready : Bool) (env : FsEnv cfg) (s : Service) :
    Service × Option Errno :=
  if s.started then (s, s.lastError)
  else
    let (s, result) := { s with started := true }.openStore cfg ready env
    (s.conclude result, result)

/-- `kfsw_journal_get`. -/
def Service.get (cfg : Config) (env : FsEnv cfg) (s : Service) (age : ℕ) : Except Errno Record :=
  storeGet cfg env s.entry s.store age

/-- The calls the service gets, with what the storage answers. -/
inductive Op (cfg : Config)
  | start (ready : Bool) (env : FsEnv cfg)
  | submit (event : Option Event.Record)
  | flush (env : FlushEnv cfg)

/-- What a submit did: the event is the last of the queue now, or the queue is as it was. -/
def Service.submitted (cfg : Config) (s : Service) (event : Option Event.Record) : List Act :=
  if (s.submit cfg event).queue = s.queue then [] else event.toList.map .queued

/-- One call. -/
def Service.exec {cfg : Config} (s : Service) : Op cfg → Service × List Act
  | .start ready env => ((s.start cfg ready env).1, [])
  | .submit event => (s.submit cfg event, s.submitted cfg event)
  | .flush env => ((s.flush cfg env).1, (s.flush cfg env).2.2)

/-- The calls, one after the other, with everything they did. -/
def Service.execAll {cfg : Config} : Service → List (Op cfg) → Service × List Act
  | s, [] => (s, [])
  | s, op :: ops =>
    let (s, acts) := s.exec op
    let (s, more) := s.execAll ops
    (s, acts ++ more)

/-! ### A submit -/

theorem enqueue_cases (cfg : Config) (s : Service) (e : Event.Record) (report : Option BootReport) :
    ((s.enqueue cfg e report).queue = s.queue ++ [e] ∨ (s.enqueue cfg e report).queue = s.queue) ∧
    (s.enqueue cfg e report).entry = s.entry ∧ (s.enqueue cfg e report).store = s.store ∧
    (s.enqueue cfg e report).pending = s.pending ∧ (s.enqueue cfg e report).boot = s.boot := by
  unfold Service.enqueue
  split_ifs
  · exact ⟨.inl rfl, rfl, rfl, rfl, rfl⟩
  · exact ⟨.inr rfl, rfl, rfl, rfl, rfl⟩

/-- What a submit does to the queue, and what it leaves alone. -/
theorem submit_cases (cfg : Config) (s : Service) (event : Option Event.Record) :
    ((∃ e, event = some e ∧ e.Valid ∧ (s.submit cfg event).queue = s.queue ++ [e]) ∨
      (s.submit cfg event).queue = s.queue) ∧
    (s.submit cfg event).entry = s.entry ∧ (s.submit cfg event).store = s.store ∧
    (s.submit cfg event).pending = s.pending ∧ (s.submit cfg event).boot = s.boot := by
  cases event with
  | none => exact ⟨.inr rfl, rfl, rfl, rfl, rfl⟩
  | some e =>
    by_cases hvalid : e.Valid
    · -- an event that is not filtered out goes through `k_msgq_put`
      have hput : ∀ (t : Service) (report : Option BootReport), t.queue = s.queue →
          t.entry = s.entry → t.store = s.store → t.pending = s.pending → t.boot = s.boot →
          ((∃ e', some e = some e' ∧ e'.Valid ∧ (t.enqueue cfg e report).queue = s.queue ++ [e']) ∨
            (t.enqueue cfg e report).queue = s.queue) ∧
          (t.enqueue cfg e report).entry = s.entry ∧ (t.enqueue cfg e report).store = s.store ∧
          (t.enqueue cfg e report).pending = s.pending ∧
          (t.enqueue cfg e report).boot = s.boot := by
        intro t report hq he hst hp hb
        obtain ⟨hqueue, hrest⟩ := enqueue_cases cfg t e report
        rw [hq, he, hst, hp, hb] at *
        exact ⟨hqueue.imp (fun h => ⟨e, rfl, hvalid, h⟩) id, hrest⟩
      unfold Service.submit
      simp only [hvalid, not_true_eq_false, if_false]
      split_ifs with hboot hlow
      · cases hreport : BootReport.ofId e.id with
        | none => exact hput s none rfl rfl rfl rfl rfl
        | some report =>
          simp only
          split_ifs with hseen
          · exact ⟨.inr rfl, rfl, rfl, rfl, rfl⟩
          · exact hput _ _ rfl rfl rfl rfl rfl
      · exact ⟨.inr rfl, rfl, rfl, rfl, rfl⟩
      · exact hput s none rfl rfl rfl rfl rfl
    · simp only [Service.submit, hvalid, not_false_eq_true, if_true]
      exact ⟨.inr rfl, rfl, rfl, rfl, rfl⟩

end KfswServices.Journal
