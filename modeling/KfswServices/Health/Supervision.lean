/-
# Supervision of the components

`src/health/health.c`: components report, and `kfsw_health_evaluate` feeds the watchdog if none of
them is overdue.  Every call takes `health_lock`, and reads the clock, of 64 bits, under it.

What is to be supervised is read off the history of the calls (`watched`): every component with the
time since which it is silent.  `kfsw_health_evaluate` keeps only 32 bits of a silence, so that it
says what is so unless every silence that is too long has come round `2 ^ 32` ms
(`evaluate_supervises_iff`).
-/

import KfswServices.Basic
import KfswServices.Library.Count
import KfswServices.Library.Run
import Mathlib.Data.List.FinRange
import Mathlib.Logic.Function.Basic

namespace KfswServices.Health

open Library
open Function (update update_of_ne update_self)

/-- `KFSW_HEALTH_NAME_SIZE`. -/
abbrev nameSize : ℕ := 16

/-- `CONFIG_KFSW_HEALTH_MAX_COMPONENTS`. -/
structure Build where
  maxComponents : ℕ
  maxComponents_range : 1 ≤ maxComponents ∧ maxComponents ≤ 32

/-- A place of `health_entries`. -/
abbrev Handle (b : Build) : Type := Fin b.maxComponents

/-- `struct health_entry`. -/
structure Entry where
  name : CString
  deadlineMs : UInt32
  lastReportMs : UInt64
  reports : UInt32
  used : Bool
  warned : Bool

/-- `enum kfsw_health_state`. -/
inductive HealthState
  | OK
  | FAULTED
  | STOPPED
  deriving DecidableEq, Repr

/-- `struct kfsw_health_status`, with `health_entries` and `health_interval_ms`. -/
structure State (b : Build) where
  entries : Handle b → Entry
  intervalMs : UInt32
  state : HealthState
  count : UInt8
  feeding : Bool
  faults : UInt32
  feeds : UInt32
  faultedBy : CString

/-- What the platform says of its watchdog. -/
structure Watchdog where
  /-- `kfsw_platform_watchdog_configured_timeout_ms`. -/
  configuredTimeoutMs : UInt32
  /-- `kfsw_platform_watchdog_get_info`, with its `timeout_ms`. -/
  info : Except Errno UInt32
  /-- `kfsw_platform_watchdog_feed_interval_ms`. -/
  feedIntervalMs : UInt32 → UInt32
  /-- `kfsw_platform_watchdog_release`. -/
  release : Option Errno
  /-- `kfsw_platform_watchdog_feed`. -/
  feed : Option Errno

variable {b : Build}

/-- An entry that was never used. -/
def Entry.zero : Entry := ⟨CString.empty, 0, 0, 0, false, false⟩

/-- The state at the reset, with `CONFIG_KFSW_HEALTH_INTERVAL_MS`. -/
def State.reset (b : Build) (intervalMs : UInt32) : State b :=
  ⟨fun _ => .zero, intervalMs, .STOPPED, 0, false, 0, 0, CString.empty⟩

/-- An entry changes. -/
def State.setEntry (s : State b) (handle : Handle b) (entry : Entry) : State b :=
  { s with entries := update s.entries handle entry }

/-- The entry of a handle, if it is one that is used. -/
def State.usedHandle (s : State b) (handle : UInt8) : Option (Handle b) :=
  if h : handle.toNat < b.maxComponents then
    if (s.entries ⟨_, h⟩).used then some ⟨_, h⟩ else none
  else none

/-- `find_by_name`.  A name that is kept has a terminator in it, so that a longer one is none of
those that are kept. -/
def findByName (name : CString) (s : State b) : Option (Handle b) :=
  (List.finRange b.maxComponents).find? fun i => (s.entries i).used && (s.entries i).name = name

/-- `kfsw_health_register`. -/
def register (name : CString) (deadlineMs : UInt32) (now : UInt64) (s : State b) :
    Except Errno (Handle b) × State b :=
  if name.length = 0 ∨ deadlineMs = 0 then (.error .EINVAL, s)
  else if (findByName name s).isSome then (.error .EEXIST, s)
  else
    match (List.finRange b.maxComponents).find? fun i => !(s.entries i).used with
    | none => (.error .ENOSPC, s)
    | some i =>
      (.ok i, { s.setEntry i ⟨name.take (nameSize - 1), deadlineMs, now, 0, true, false⟩ with
        count := s.count + 1 })

/-- `kfsw_health_unregister`. -/
def unregister (handle : UInt8) (s : State b) : Option Errno × State b :=
  match s.usedHandle handle with
  | none => (some .EINVAL, s)
  | some i =>
    (none, { s.setEntry i { s.entries i with used := false, name := CString.empty } with
      faultedBy := if s.faultedBy = (s.entries i).name then CString.empty else s.faultedBy
      count := s.count - 1 })

/-- `kfsw_health_report`. -/
def report (handle : UInt8) (now : UInt64) (s : State b) : Option Errno × State b :=
  match s.usedHandle handle with
  | none => (some .EINVAL, s)
  | some i =>
    (none, s.setEntry i { s.entries i with
      lastReportMs := now, reports := saturatingInc (s.entries i).reports })

/-- `elapsed`, of 32 bits. -/
def Entry.elapsed (entry : Entry) (now : UInt64) : UInt32 := (now - entry.lastReportMs).toUInt32

/-- The check of one entry. -/
def Entry.overdue (entry : Entry) (now : UInt64) : Bool := entry.elapsed now > entry.deadlineMs

/-- The warning of an entry that is not overdue. -/
def Entry.warn (entry : Entry) (now : UInt64) : Entry :=
  if entry.elapsed now > entry.deadlineMs * 3 / 4 && !entry.warned then { entry with warned := true }
  else if entry.elapsed now ≤ entry.deadlineMs / 2 then { entry with warned := false }
  else entry

/-- The loop of `kfsw_health_evaluate`: the entries with their warnings, and the first that is
overdue. -/
def checkLoop (now : UInt64) : List (Handle b) → (Handle b → Entry) →
    (Handle b → Entry) × Option (Handle b)
  | [], entries => (entries, none)
  | i :: is, entries =>
    if !(entries i).used then checkLoop now is entries
    else if (entries i).overdue now then (entries, some i)
    else checkLoop now is (update entries i ((entries i).warn now))

/-- What a call returns, and whether the watchdog was fed in it. -/
structure Reply where
  result : Option Errno
  fed : Bool
  deriving DecidableEq

/-- `kfsw_health_evaluate`. -/
def evaluate (watchdog : Watchdog) (now : UInt64) (s : State b) : Reply × State b :=
  if s.state = .STOPPED then (⟨some .EINVAL, false⟩, s)
  else
    match checkLoop now (List.finRange b.maxComponents) s.entries with
    | (entries, none) =>
      (⟨none, true⟩,
        { s with
          entries := entries
          state := .OK
          faultedBy := CString.empty
          feeds := if watchdog.feed = none then saturatingInc s.feeds else s.feeds
          feeding := if watchdog.feed = none then true else s.feeding })
    | (entries, some i) =>
      (⟨some .ETIMEDOUT, false⟩,
        { s with
          entries := entries
          state := .FAULTED
          feeding := false
          faultedBy := (entries i).name.take (nameSize - 1)
          faults := if s.state = .OK then s.faults + 1 else s.faults })

/-- `kfsw_health_check_interval_ms`. -/
def checkIntervalMs (watchdog : Watchdog) (intervalMs : UInt32) : Option Errno :=
  let timeout :=
    match watchdog.info with
    | .ok timeoutMs => if timeoutMs ≠ 0 then timeoutMs else watchdog.configuredTimeoutMs
    | .error _ => watchdog.configuredTimeoutMs
  if intervalMs = 0 then some .EINVAL
  else if timeout = 0 then none
  else if intervalMs > watchdog.feedIntervalMs timeout then some .ERANGE
  else none

/-- Every component counts as having just reported. -/
def State.startEntries (s : State b) (now : UInt64) : Handle b → Entry := fun i =>
  if (s.entries i).used then { s.entries i with lastReportMs := now } else s.entries i

/-- `kfsw_health_start`. -/
def start (watchdog : Watchdog) (now : UInt64) (s : State b) : Option Errno × State b :=
  if s.state ≠ .STOPPED then (some .EALREADY, s)
  else
    match checkIntervalMs watchdog s.intervalMs with
    | some e => (some e, s)
    | none =>
      match watchdog.release with
      | some e => (some e, s)
      | none => (none, { s with entries := s.startEntries now, state := .OK })

/-- `kfsw_health_set_interval_ms`. -/
def setIntervalMs (watchdog : Watchdog) (intervalMs : UInt32) (s : State b) :
    Option Errno × State b :=
  match checkIntervalMs watchdog intervalMs with
  | some e => (some e, s)
  | none => (none, { s with intervalMs := intervalMs })

/-! ### Histories -/

/-- A call of the service. -/
inductive Call
  | register (name : CString) (deadlineMs : UInt32)
  | unregister (handle : UInt8)
  | report (handle : UInt8)
  | start (watchdog : Watchdog)
  | evaluate (watchdog : Watchdog)
  | setIntervalMs (watchdog : Watchdog) (intervalMs : UInt32)

/-- A call that was made: when, what came back, and the state of the service around it. -/
structure Event (b : Build) where
  now : UInt64
  call : Call
  reply : Reply
  handle : Option (Handle b)
  before : HealthState
  after : HealthState

/-- The state, with the clock that was read last. -/
structure System (b : Build) where
  state : State b
  clock : UInt64

/-- The system at the reset. -/
def System.reset (b : Build) (intervalMs : UInt32) : System b := ⟨State.reset b intervalMs, 0⟩

/-- What a call does. -/
def perform (call : Call) (now : UInt64) (s : State b) : Reply × Option (Handle b) × State b :=
  match call with
  | .register name deadlineMs =>
    match register name deadlineMs now s with
    | (.ok i, s') => (⟨none, false⟩, some i, s')
    | (.error e, s') => (⟨some e, false⟩, none, s')
  | .unregister handle =>
    (⟨(unregister handle s).1, false⟩, s.usedHandle handle, (unregister handle s).2)
  | .report handle => (⟨(report handle now s).1, false⟩, s.usedHandle handle, (report handle now s).2)
  | .start watchdog => (⟨(start watchdog now s).1, false⟩, none, (start watchdog now s).2)
  | .evaluate watchdog => ((evaluate watchdog now s).1, none, (evaluate watchdog now s).2)
  | .setIntervalMs watchdog intervalMs =>
    (⟨(setIntervalMs watchdog intervalMs s).1, false⟩, none, (setIntervalMs watchdog intervalMs s).2)

/-- The call, with what came of it. -/
def Event.ofReply (call : Call) (now : UInt64) (before : HealthState)
    (r : Reply × Option (Handle b) × State b) : Event b :=
  ⟨now, call, r.1, r.2.1, before, r.2.2.state⟩

/-- A call, no earlier than the one before. -/
inductive Step : System b → Event b → System b → Prop
  | call {u : System b} (call : Call) (now : UInt64) (h : u.clock ≤ now) :
      Step u (.ofReply call now u.state.state (perform call now u.state))
        ⟨(perform call now u.state).2.2, now⟩

/-- A component that is watched: its deadline, and since when it is silent. -/
structure Watched where
  deadlineMs : ℕ
  sinceMs : ℕ

/-- What a call that succeeded makes of who is watched. -/
def Event.watch (e : Event b) (w : Handle b → Option Watched) : Handle b → Option Watched :=
  if e.reply.result.isSome then w
  else
    match e.call, e.handle with
    | .register _ deadlineMs, some i => update w i (some ⟨deadlineMs.toNat, e.now.toNat⟩)
    | .unregister _, some i => update w i none
    | .report _, some i =>
      update w i ((w i).map fun x => { x with sinceMs := e.now.toNat })
    | .start _, _ => fun i => (w i).map fun x => { x with sinceMs := e.now.toNat }
    | _, _ => w

/-- Who is watched after a history. -/
def watched (es : List (Event b)) : Handle b → Option Watched :=
  es.foldl (fun w e => e.watch w) fun _ => none

/-- Everyone reported in time. -/
def InTime (es : List (Event b)) (now : ℕ) : Prop :=
  ∀ i w, watched es i = some w → now - w.sinceMs ≤ w.deadlineMs

/-- The changes from OK to FAULTED. -/
def faultChanges (es : List (Event b)) : ℕ :=
  es.countP fun e => e.before = .OK ∧ e.after = .FAULTED

theorem faultChanges_concat (es : List (Event b)) (e : Event b) :
    faultChanges (es ++ [e]) =
      faultChanges es + if e.before = .OK ∧ e.after = .FAULTED then 1 else 0 := by
  unfold faultChanges
  rw [List.countP_append, List.countP_singleton]
  simp only [decide_eq_true_eq]

theorem watched_concat (es : List (Event b)) (e : Event b) :
    watched (es ++ [e]) = e.watch (watched es) := by
  unfold watched
  rw [List.foldl_append]
  rfl

/-! ### The loop over the entries -/

/-- What is watched in an entry. -/
def Entry.seen (entry : Entry) : Option Watched :=
  if entry.used then some ⟨entry.deadlineMs.toNat, entry.lastReportMs.toNat⟩ else none

theorem Entry.warn_eq (entry : Entry) (now : UInt64) :
    ∃ w, entry.warn now = { entry with warned := w } := by
  unfold Entry.warn
  split_ifs
  · exact ⟨true, rfl⟩
  · exact ⟨false, rfl⟩
  · exact ⟨entry.warned, rfl⟩

/-- The loop changes warnings only. -/
theorem checkLoop_entries (now : UInt64) (is : List (Handle b)) (entries : Handle b → Entry)
    (j : Handle b) : ∃ w, (checkLoop now is entries).1 j = { entries j with warned := w } := by
  induction is generalizing entries with
  | nil => exact ⟨(entries j).warned, rfl⟩
  | cons i is ih =>
    unfold checkLoop
    split_ifs
    · exact ih entries
    · exact ⟨(entries j).warned, rfl⟩
    · obtain ⟨w, hw⟩ := ih (update entries i ((entries i).warn now))
      rw [hw]
      by_cases hj : j = i
      · obtain ⟨w', hw'⟩ := (entries i).warn_eq now
        refine ⟨w, ?_⟩
        rw [hj, update_self, hw']
      · refine ⟨w, ?_⟩
        rw [update_of_ne hj]

/-- **The loop comes to its end** exactly when no entry that is used is overdue. -/
theorem checkLoop_none_iff (now : UInt64) (is : List (Handle b)) (entries : Handle b → Entry) :
    (checkLoop now is entries).2 = none ↔
      ∀ i ∈ is, (entries i).used = true → (entries i).overdue now = false := by
  induction is generalizing entries with
  | nil => simp [checkLoop]
  | cons i is ih =>
    unfold checkLoop
    by_cases hused : (entries i).used = true
    · rw [if_neg (by simp [hused])]
      by_cases hover : (entries i).overdue now = true
      · rw [if_pos hover]
        simp [hused, hover]
      · rw [if_neg hover, ih, List.forall_mem_cons]
        obtain ⟨w, hw⟩ := (entries i).warn_eq now
        -- a warning changes neither who is used nor who is overdue
        have hsame : ∀ j, (update entries i ((entries i).warn now) j).used =
            (entries j).used ∧ (update entries i ((entries i).warn now) j).overdue now =
              (entries j).overdue now := by
          intro j
          by_cases hj : j = i
          · rw [hj, update_self, hw]
            exact ⟨rfl, rfl⟩
          · rw [update_of_ne hj]
            exact ⟨rfl, rfl⟩
        refine ⟨fun h => ⟨fun _ => by simpa using hover, fun j hj hu => ?_⟩, fun h j hj hu => ?_⟩
        · rw [← (hsame j).2]
          exact h j hj ((hsame j).1.trans hu)
        · rw [(hsame j).2]
          exact h.2 j hj ((hsame j).1.symm.trans hu)
    · rw [if_pos (by simpa using hused), ih, List.forall_mem_cons]
      exact ⟨fun h => ⟨fun hu => absurd hu hused, h⟩, fun h => h.2⟩

/-- **What an evaluation finds**: it feeds if no entry that is used is overdue, and reports a
timeout otherwise. -/
theorem evaluate_spec (watchdog : Watchdog) (now : UInt64) (s : State b) (hstate : s.state ≠ .STOPPED) :
    (∀ i, ((evaluate watchdog now s).2.entries i).seen = (s.entries i).seen) ∧
    (∀ i, ((evaluate watchdog now s).2.entries i).lastReportMs = (s.entries i).lastReportMs) ∧
    (((∀ i, (s.entries i).used = true → (s.entries i).overdue now = false) ∧
        (evaluate watchdog now s).1 = ⟨none, true⟩ ∧
        (evaluate watchdog now s).2.state = .OK ∧ (evaluate watchdog now s).2.faults = s.faults) ∨
      ((∃ i, (s.entries i).used = true ∧ (s.entries i).overdue now = true) ∧
        (evaluate watchdog now s).1 = ⟨some .ETIMEDOUT, false⟩ ∧
        (evaluate watchdog now s).2.state = .FAULTED ∧
        (evaluate watchdog now s).2.faults = if s.state = .OK then s.faults + 1 else s.faults)) := by
  have hentries := checkLoop_entries now (List.finRange b.maxComponents) s.entries
  have hnone := checkLoop_none_iff now (List.finRange b.maxComponents) s.entries
  simp only [List.mem_finRange, forall_true_left] at hnone
  unfold evaluate
  rw [if_neg hstate]
  rcases hloop : checkLoop now (List.finRange b.maxComponents) s.entries with ⟨entries, _ | i⟩
  · rw [hloop] at hentries hnone
    refine ⟨fun i => ?_, fun i => ?_, Or.inl ⟨hnone.1 rfl, rfl, rfl, rfl⟩⟩
    · obtain ⟨w, hw⟩ := hentries i
      exact (congrArg Entry.seen hw).trans rfl
    · obtain ⟨w, hw⟩ := hentries i
      exact (congrArg Entry.lastReportMs hw).trans rfl
  · rw [hloop] at hentries hnone
    refine ⟨fun i => ?_, fun i => ?_, Or.inr ⟨?_, rfl, rfl, rfl⟩⟩
    · obtain ⟨w, hw⟩ := hentries i
      exact (congrArg Entry.seen hw).trans rfl
    · obtain ⟨w, hw⟩ := hentries i
      exact (congrArg Entry.lastReportMs hw).trans rfl
    · by_contra hall
      push Not at hall
      exact absurd (hnone.2 fun j hu => by simpa using hall j hu) (by simp)

/-! ### The invariant -/

/-- The entries say who is watched, no report lies ahead of the clock, and the faults are counted,
in 32 bits. -/
structure Inv (es : List (Event b)) (u : System b) : Prop where
  seen : ∀ i, watched es i = (u.state.entries i).seen
  past : ∀ i, (u.state.entries i).lastReportMs ≤ u.clock
  faults : u.state.faults = UInt32.ofNat (faultChanges es)

theorem inv_reset (b : Build) (intervalMs : UInt32) : Inv [] (System.reset b intervalMs) :=
  ⟨fun _ => rfl, fun _ => UInt64.zero_le, rfl⟩

variable {es : List (Event b)} {u : System b}

/-- A call that is refused. -/
theorem Inv.refused (h : Inv es u) {now : UInt64} (hnow : u.clock ≤ now) (call : Call) (e : Errno)
    (handle : Option (Handle b)) :
    Inv (es ++ [.ofReply call now u.state.state (⟨some e, false⟩, handle, u.state)])
      ⟨u.state, now⟩ := by
  refine ⟨fun i => ?_, fun i => UInt64.le_trans (h.past i) hnow, ?_⟩
  · rw [watched_concat]
    exact h.seen i
  · rw [faultChanges_concat, if_neg]
    · exact h.faults
    · rintro ⟨hok, hfaulted⟩
      exact absurd (hok.symm.trans hfaulted) (by decide)

/-- A call that writes one entry. -/
theorem Inv.concat_entry (h : Inv es u) {now : UInt64} (hnow : u.clock ≤ now) {call : Call}
    {i : Handle b} {entry : Entry} {s' : State b} (hwatch : ∀ w, w i = (u.state.entries i).seen →
      (Event.ofReply call now u.state.state (⟨none, false⟩, some i, s')).watch w =
        update w i entry.seen) (hlast : entry.lastReportMs ≤ now)
    (hentries : s'.entries = update u.state.entries i entry)
    (hfaults : s'.faults = u.state.faults) (hstate : s'.state = u.state.state) :
    Inv (es ++ [.ofReply call now u.state.state (⟨none, false⟩, some i, s')]) ⟨s', now⟩ := by
  refine ⟨fun j => ?_, fun j => ?_, ?_⟩
  · rw [watched_concat, hwatch (watched es) (h.seen i)]
    show _ = (s'.entries j).seen
    rw [hentries]
    by_cases hj : j = i
    · rw [hj, update_self, update_self]
    · rw [update_of_ne hj, update_of_ne hj, h.seen j]
  · show (s'.entries j).lastReportMs ≤ now
    rw [hentries]
    by_cases hj : j = i
    · rw [hj, update_self]
      exact hlast
    · rw [update_of_ne hj]
      exact UInt64.le_trans (h.past j) hnow
  · rw [faultChanges_concat, if_neg]
    · exact hfaults.trans h.faults
    · rintro ⟨hok, hfaulted⟩
      exact absurd (hok.symm.trans (hstate.symm.trans hfaulted)) (by decide)

/-- A handle that is used. -/
theorem State.used_of_usedHandle {s : State b} {handle : UInt8} {i : Handle b}
    (h : s.usedHandle handle = some i) : (s.entries i).used = true := by
  unfold State.usedHandle at h
  split_ifs at h with hlt hused
  obtain rfl := Option.some.inj h
  exact hused

/-- What a registration comes to. -/
theorem perform_register (name : CString) (deadlineMs : UInt32) (now : UInt64) (s : State b) :
    (∃ e, perform (.register name deadlineMs) now s = (⟨some e, false⟩, none, s)) ∨
      ∃ i, perform (.register name deadlineMs) now s = (⟨none, false⟩, some i,
        { s.setEntry i ⟨name.take (nameSize - 1), deadlineMs, now, 0, true, false⟩ with
          count := s.count + 1 }) := by
  unfold perform register
  dsimp only
  by_cases hrefused : name.length = 0 ∨ deadlineMs = 0
  · rw [if_pos hrefused]
    exact Or.inl ⟨_, rfl⟩
  · rw [if_neg hrefused]
    by_cases hexists : (findByName name s).isSome = true
    · rw [if_pos hexists]
      exact Or.inl ⟨_, rfl⟩
    · rw [if_neg hexists]
      cases (List.finRange b.maxComponents).find? fun i => !(s.entries i).used with
      | none => exact Or.inl ⟨_, rfl⟩
      | some i => exact Or.inr ⟨i, rfl⟩

/-- What the end of the watch comes to. -/
theorem perform_unregister (handle : UInt8) (now : UInt64) (s : State b) :
    perform (.unregister handle) now s = (⟨some .EINVAL, false⟩, none, s) ∨
      ∃ i, (s.entries i).used = true ∧
        perform (.unregister handle) now s = (⟨none, false⟩, some i,
          { s.setEntry i { s.entries i with used := false, name := CString.empty } with
            faultedBy := if s.faultedBy = (s.entries i).name then CString.empty else s.faultedBy
            count := s.count - 1 }) := by
  unfold perform unregister
  dsimp only
  cases hhandle : s.usedHandle handle with
  | none => exact Or.inl rfl
  | some i => exact Or.inr ⟨i, State.used_of_usedHandle hhandle, rfl⟩

/-- What a report comes to. -/
theorem perform_report (handle : UInt8) (now : UInt64) (s : State b) :
    perform (.report handle) now s = (⟨some .EINVAL, false⟩, none, s) ∨
      ∃ i, (s.entries i).used = true ∧
        perform (.report handle) now s = (⟨none, false⟩, some i, s.setEntry i { s.entries i with
          lastReportMs := now, reports := saturatingInc (s.entries i).reports }) := by
  unfold perform report
  dsimp only
  cases hhandle : s.usedHandle handle with
  | none => exact Or.inl rfl
  | some i => exact Or.inr ⟨i, State.used_of_usedHandle hhandle, rfl⟩

/-- What a start comes to. -/
theorem perform_start (watchdog : Watchdog) (now : UInt64) (s : State b) :
    (∃ e, perform (.start watchdog) now s = (⟨some e, false⟩, none, s)) ∨
      perform (.start watchdog) now s =
        (⟨none, false⟩, none, { s with entries := s.startEntries now, state := .OK }) := by
  unfold perform start
  dsimp only
  by_cases hstate : s.state ≠ .STOPPED
  · rw [if_pos hstate]
    exact Or.inl ⟨_, rfl⟩
  · rw [if_neg hstate]
    cases checkIntervalMs watchdog s.intervalMs with
    | some e => exact Or.inl ⟨_, rfl⟩
    | none =>
      cases watchdog.release with
      | some e => exact Or.inl ⟨_, rfl⟩
      | none => exact Or.inr rfl

/-- What everyone's silence becomes at the start. -/
theorem startEntries_seen (s : State b) (now : UInt64) (i : Handle b) :
    (s.startEntries now i).seen =
      (s.entries i).seen.map fun x => { x with sinceMs := now.toNat } := by
  unfold State.startEntries Entry.seen
  by_cases hused : (s.entries i).used = true
  · rw [if_pos hused, if_pos hused, if_pos hused]
    rfl
  · rw [if_neg hused, if_neg hused]
    rfl

/-- **A call keeps the invariant.** -/
theorem inv_step {u' : System b} {e : Event b} (h : Inv es u) (hstep : Step u e u') :
    Inv (es ++ [e]) u' := by
  cases hstep with
  | call call now hnow =>
    cases call with
    | register name deadlineMs =>
      rcases perform_register name deadlineMs now u.state with ⟨e, hp⟩ | ⟨i, hp⟩
      · rw [hp]
        exact h.refused hnow _ e none
      · rw [hp]
        exact h.concat_entry hnow (fun _ _ => rfl) (UInt64.le_refl now) rfl rfl rfl
    | unregister handle =>
      rcases perform_unregister handle now u.state with hp | ⟨i, -, hp⟩
      · rw [hp]
        exact h.refused hnow _ _ none
      · rw [hp]
        exact @Inv.concat_entry _ _ _ h _ hnow _ i
          { u.state.entries i with used := false, name := CString.empty } _ (fun _ _ => rfl)
          (UInt64.le_trans (h.past i) hnow) rfl rfl rfl
    | report handle =>
      rcases perform_report handle now u.state with hp | ⟨i, hused, hp⟩
      · rw [hp]
        exact h.refused hnow _ _ none
      · rw [hp]
        refine h.concat_entry hnow (fun w hw => ?_) (UInt64.le_refl now) rfl rfl rfl
        show update w i ((w i).map _) = _
        rw [hw]
        unfold Entry.seen
        rw [if_pos hused, if_pos hused]
        rfl
    | start watchdog =>
      rcases perform_start watchdog now u.state with ⟨e, hp⟩ | hp
      · rw [hp]
        exact h.refused hnow _ e none
      · rw [hp]
        refine ⟨fun i => ?_, fun i => ?_, ?_⟩
        · rw [watched_concat]
          show (watched es i).map _ = (u.state.startEntries now i).seen
          rw [startEntries_seen, h.seen i]
          rfl
        · show (u.state.startEntries now i).lastReportMs ≤ now
          unfold State.startEntries
          split_ifs
          · exact UInt64.le_refl now
          · exact UInt64.le_trans (h.past i) hnow
        · rw [faultChanges_concat, if_neg fun hs => HealthState.noConfusion hs.2]
          exact h.faults
    | evaluate watchdog =>
      unfold perform
      dsimp only
      by_cases hstate : u.state.state = .STOPPED
      · have heval : evaluate watchdog now u.state = (⟨some .EINVAL, false⟩, u.state) := by
          unfold evaluate
          rw [if_pos hstate]
        rw [heval]
        exact h.refused hnow _ _ none
      · obtain ⟨hseen, hlast, hfound⟩ := evaluate_spec watchdog now u.state hstate
        refine ⟨fun i => ?_, fun i => ?_, ?_⟩
        · rw [watched_concat]
          refine Eq.trans ?_ ((h.seen i).trans (hseen i).symm)
          unfold Event.watch Event.ofReply
          dsimp only
          rw [ite_self]
        · show ((evaluate watchdog now u.state).2.entries i).lastReportMs ≤ now
          rw [hlast i]
          exact UInt64.le_trans (h.past i) hnow
        · rw [faultChanges_concat]
          show (evaluate watchdog now u.state).2.faults = UInt32.ofNat (_ +
            if u.state.state = .OK ∧ (evaluate watchdog now u.state).2.state = .FAULTED then _ else _)
          rcases hfound with ⟨-, -, hok, hfaults⟩ | ⟨-, -, hfaulted, hfaults⟩
          · rw [hok, hfaults, if_neg fun hs => absurd hs.2 (by decide)]
            exact h.faults
          · rw [hfaulted, hfaults, h.faults]
            by_cases hwas : u.state.state = .OK
            · rw [if_pos hwas, if_pos ⟨hwas, rfl⟩, UInt32.ofNat_add]
              rfl
            · rw [if_neg hwas, if_neg fun hs => hwas hs.1]
              rfl
    | setIntervalMs watchdog intervalMs =>
      unfold perform setIntervalMs
      dsimp only
      cases checkIntervalMs watchdog intervalMs with
      | some e => exact h.refused hnow _ e none
      | none =>
        refine ⟨fun i => ?_, fun i => UInt64.le_trans (h.past i) hnow, ?_⟩
        · rw [watched_concat]
          exact h.seen i
        · rw [faultChanges_concat, if_neg]
          · exact h.faults
          · rintro ⟨hok, hfaulted⟩
            exact absurd (hok.symm.trans hfaulted) (by decide)

/-- **A run keeps the invariant.** -/
theorem inv_run {intervalMs : UInt32} (hr : Run Step (System.reset b intervalMs) es u) : Inv es u :=
  hr.invariant (I := Inv) (inv_reset b intervalMs) fun _ _ _ _ => inv_step

/-! ### What is supervised -/

/-- The watchdog is fed only when everyone reported in time, and otherwise a timeout is reported. -/
def Supervises (es : List (Event b)) (now : UInt64) (reply : Reply) : Prop :=
  (reply.fed = true → InTime es now.toNat) ∧
    (¬ InTime es now.toNat → reply.result = some .ETIMEDOUT)

/-- A silence that is too long is seen: the service is started, and what 32 bits keep of someone's
silence is past the deadline. -/
def Noticed (es : List (Event b)) (state : HealthState) (now : ℕ) : Prop :=
  state ≠ .STOPPED ∧ ∃ i w, watched es i = some w ∧ w.deadlineMs < (now - w.sinceMs) % 2 ^ 32

/-- What an entry keeps of its silence. -/
theorem Entry.overdue_iff {entry : Entry} {now : UInt64} (h : entry.lastReportMs ≤ now) :
    entry.overdue now = true ↔
      entry.deadlineMs.toNat < (now.toNat - entry.lastReportMs.toNat) % 2 ^ 32 := by
  unfold Entry.overdue Entry.elapsed
  rw [decide_eq_true_eq, gt_iff_lt, UInt32.lt_iff_toNat_lt, UInt64.toNat_toUInt32,
    UInt64.toNat_sub_of_le _ _ h]

/-- Someone is overdue, as the code sees it. -/
theorem noticed_iff (hinv : Inv es u) {now : UInt64} (hnow : u.clock ≤ now) :
    (∃ i, (u.state.entries i).used = true ∧ (u.state.entries i).overdue now = true) ↔
      ∃ i w, watched es i = some w ∧ w.deadlineMs < (now.toNat - w.sinceMs) % 2 ^ 32 := by
  refine exists_congr fun i => ?_
  rw [hinv.seen i]
  unfold Entry.seen
  have hover := Entry.overdue_iff (UInt64.le_trans (hinv.past i) hnow)
  by_cases hused : (u.state.entries i).used = true
  · rw [if_pos hused, hover]
    refine ⟨fun h => ⟨_, rfl, h.2⟩, fun ⟨w, hw, h⟩ => ⟨hused, ?_⟩⟩
    obtain rfl := Option.some.inj hw
    exact h
  · rw [if_neg hused]
    exact ⟨fun h => absurd h.1 hused, fun ⟨w, hw, _⟩ => by cases hw⟩

/-- **The watchdog is fed only when everyone reported in time**, after every history of calls,
exactly when a silence that is too long is noticed; and the faults are the changes from OK to
FAULTED exactly while these are fewer than `2 ^ 32`. -/
theorem evaluate_supervises_iff {intervalMs : UInt32} {es : List (Event b)} {u : System b}
    (hr : Run Step (System.reset b intervalMs) es u) {now : UInt64} (hnow : u.clock ≤ now)
    (watchdog : Watchdog) : (Supervises es now (evaluate watchdog now u.state).1 ∧
        u.state.faults.toNat = faultChanges es) ↔
      (InTime es now.toNat ∨ Noticed es u.state.state now.toNat) ∧ faultChanges es < 2 ^ 32 := by
  have hinv := inv_run hr
  have hfaults : u.state.faults.toNat = faultChanges es ↔ faultChanges es < 2 ^ 32 := by
    rw [hinv.faults, UInt32.toNat_ofNat']
    exact ⟨fun h => h ▸ Nat.mod_lt _ (by decide), Nat.mod_eq_of_lt⟩
  refine and_congr ?_ hfaults
  by_cases hstate : u.state.state = .STOPPED
  · have heval : (evaluate watchdog now u.state).1 = ⟨some .EINVAL, false⟩ := by
      unfold evaluate
      rw [if_pos hstate]
    rw [heval]
    unfold Supervises Noticed
    simp [hstate]
  · obtain ⟨-, -, hfound⟩ := evaluate_spec watchdog now u.state hstate
    have hnoticed := noticed_iff hinv hnow
    unfold Supervises Noticed
    rcases hfound with ⟨hall, heval, -, -⟩ | ⟨hsome, heval, -, -⟩
    · have hnone : ¬ ∃ i w, watched es i = some w ∧
          w.deadlineMs < (now.toNat - w.sinceMs) % 2 ^ 32 := by
        rw [← hnoticed]
        rintro ⟨i, hused, hover⟩
        rw [hall i hused] at hover
        cases hover
      rw [heval]
      constructor
      · exact fun h => Or.inl (h.1 rfl)
      · rintro (h | h)
        · exact ⟨fun _ => h, fun hnot => absurd h hnot⟩
        · exact absurd h.2 hnone
    · rw [heval]
      exact iff_of_true ⟨fun h => absurd h (by decide), fun _ => rfl⟩
        (Or.inr ⟨hstate, hnoticed.1 hsome⟩)

/-! ### Two components -/

/-- Two components. -/
def smallBuild : Build := ⟨2, by decide⟩

/-- A watchdog with a timeout of eight seconds. -/
def sampleWatchdog : Watchdog := ⟨8000, .ok 8000, fun timeoutMs => timeoutMs / 4, none, none⟩

/-- The history of some calls. -/
def history (u : System b) : List (Call × UInt64) → List (Event b) × System b
  | [] => ([], u)
  | (call, now) :: calls =>
    let r := perform call now u.state
    let rest := history ⟨r.2.2, now⟩ calls
    (.ofReply call now u.state.state r :: rest.1, rest.2)

/-- It is a run if the times do not decrease. -/
theorem history_run {calls : List (Call × UInt64)}
    (h : List.IsChain (· ≤ ·) (u.clock :: calls.map (·.2))) :
    Run Step u (history u calls).1 (history u calls).2 := by
  induction calls generalizing u with
  | nil => exact .nil u
  | cons c calls ih =>
    obtain ⟨call, now⟩ := c
    obtain ⟨hnow, hrest⟩ := List.isChain_cons_cons.1 h
    exact .cons (.call call now hnow) (ih hrest)

/-- One component, with a deadline of a second, that the service was started over. -/
def oneStarted : List (Call × UInt64) :=
  [(.register (.ofString "app") 1000, 0), (.start sampleWatchdog, 0)]

theorem oneStarted_run : Run Step (System.reset smallBuild 1000)
    (history (System.reset smallBuild 1000) oneStarted).1
    (history (System.reset smallBuild 1000) oneStarted).2 := history_run (by decide)

/-- Half a second after the start, the component is in time. -/
theorem evaluate_supervises_inTime :
    Supervises (history (System.reset smallBuild 1000) oneStarted).1 500
      (evaluate sampleWatchdog 500 (history (System.reset smallBuild 1000) oneStarted).2.state).1 := by
  refine ((evaluate_supervises_iff oneStarted_run (by decide) sampleWatchdog).2
    ⟨Or.inl fun i w hw => ?_, by decide⟩).1
  rcases i with ⟨_ | _ | i, hi⟩
  · obtain rfl := Option.some.inj hw
    decide
  · cases hw
  · have hlt : i + 1 + 1 < 2 := hi
    omega

/-- After `2 ^ 32` ms of silence, the watchdog is fed. -/
theorem evaluate_feeds_silent : ¬ ∀ (es : List (Event smallBuild)) (u : System smallBuild),
      Run Step (System.reset smallBuild 1000) es u → ∀ now, u.clock ≤ now → ∀ watchdog,
        Supervises es now (evaluate watchdog now u.state).1 := by
  intro h
  have hfed := (h _ _ oneStarted_run (2 ^ 32) (by decide) sampleWatchdog).1 (by decide)
  exact absurd (hfed ⟨0, by decide⟩ ⟨1000, 0⟩ rfl) (by decide)

end KfswServices.Health
