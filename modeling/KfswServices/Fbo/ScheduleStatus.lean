/-
# The report of the schedule queue

`remaining`, `queue_hash` and `kfsw_fbo_schedule_get_status` of `src/fbo/fbo_schedule.c`.  One loop
over the slots counts the entries by their status and keeps two minima: the seconds left of the
waiting relative entries, and the times of the waiting absolute ones.  Both begin with zero for
nothing yet.  An absolute entry is never due at zero (`Queue.Timely`), but a relative one that is
due and not yet released has zero seconds left, and a waiting entry in a higher slot takes its place
in the report (`next_due_iff`).
-/

import KfswServices.Fbo.ScheduleCancel
import KfswServices.Library.RunningMin

namespace KfswServices.Fbo

open Command Library

variable {ω : Type*} {cfg : Config ω}

/-- `DIV_ROUND_UP` with 1000. -/
def divRoundUp1000 (n : ℤ) : ℤ := (n + 1000 - 1).tdiv 1000

/-- The return value of `remaining`: a positive number of seconds, as `uint32_t`, or 0. -/
def secondsLeft (left : ℤ) : ℕ := if left > 0 then left.toNat % 4294967296 else 0

/-- `remaining`. -/
def Slot.remaining (s : Slot) (mono : ℤ) (utc : Option ℤ) : ℕ :=
  if s.entry.status ≠ .SCHEDULED then 0
  else
    match s.entry.kind with
    | .RELATIVE => secondsLeft (divRoundUp1000 (s.dueUptimeMs - mono))
    | .ABSOLUTE =>
      match utc with
      | some now => secondsLeft (s.entry.dueUtc - now)
      | none => 0

/-- `queue_hash`. -/
def Queue.hash (q : Queue) : UInt32 :=
  q.slots.foldl
    (fun hash s => if s.used then crc32Update hash (putBe32 s.entry.contentHash) else hash) 0

/-- `struct kfsw_fbo_schedule_status`. -/
structure ScheduleStatus where
  hash : UInt32
  releases : ℕ
  refusals : ℕ
  overdues : ℕ
  clockSteps : ℕ
  latencyS : ℕ
  nextDueUtc : ℤ
  nextDueS : ℕ
  capacity : UInt16
  entries : UInt16
  scheduled : UInt16
  running : UInt16
  completed : UInt16
  failed : UInt16
  overdue : UInt16
  cancelled : UInt16
  clockSet : Bool
  lastError : Option Errno
  deriving DecidableEq

/-- What the loop of `kfsw_fbo_schedule_get_status` does with a slot. -/
def ScheduleStatus.visit (mono : ℤ) (utc : Option ℤ) (status : ScheduleStatus) (slot : Slot) :
    ScheduleStatus :=
  if !slot.used then status
  else
    let status := { status with entries := status.entries + 1 }
    match slot.entry.status with
    | .SCHEDULED =>
      let status := { status with scheduled := status.scheduled + 1 }
      match slot.entry.kind with
      | .ABSOLUTE =>
        if status.nextDueUtc = 0 ∨ slot.entry.dueUtc < status.nextDueUtc then
          { status with nextDueUtc := slot.entry.dueUtc }
        else status
      | .RELATIVE =>
        let left := slot.remaining mono utc
        if status.nextDueS = 0 ∨ left < status.nextDueS then { status with nextDueS := left }
        else status
    | .RUNNING => { status with running := status.running + 1 }
    | .COMPLETED => { status with completed := status.completed + 1 }
    | .FAILED => { status with failed := status.failed + 1 }
    | .OVERDUE => { status with overdue := status.overdue + 1 }
    | .CANCELLED => { status with cancelled := status.cancelled + 1 }

/-- `kfsw_fbo_schedule_get_status`, with the clocks it read and the wall-clock steps noticed. -/
def Queue.getStatus (q : Queue) (mono : ℤ) (utc : Option ℤ) (clockSteps : ℕ) : ScheduleStatus :=
  q.slots.foldl (ScheduleStatus.visit mono utc)
    { hash := q.hash
      releases := q.releases
      refusals := q.refusals
      overdues := q.overdues
      clockSteps := clockSteps
      latencyS := q.latencyS
      nextDueUtc := 0
      nextDueS := 0
      capacity := UInt16.ofNat q.slots.length
      entries := 0
      scheduled := 0
      running := 0
      completed := 0
      failed := 0
      overdue := 0
      cancelled := 0
      clockSet := utc.isSome
      lastError := q.lastError }

/-! ### What there is to report -/

/-- The entry of the slot waits for a time of this kind. -/
def Slot.waits (s : Slot) (kind : TimeKind) : Bool :=
  s.used && s.entry.status = .SCHEDULED && s.entry.kind = kind

/-- The seconds left of the waiting relative entries, in the order of the slots. -/
def Queue.secondsLeft (q : Queue) (mono : ℤ) (utc : Option ℤ) : List ℕ :=
  (q.slots.filter (·.waits .RELATIVE)).map (·.remaining mono utc)

/-- The times of the waiting absolute entries. -/
def Queue.dueTimes (q : Queue) : List ℤ := (q.slots.filter (·.waits .ABSOLUTE)).map (·.entry.dueUtc)

/-- What a report promises: the least of the seconds left, the least of the times, and a count of
the entries that is the sum of the counts by status. -/
structure ScheduleStatus.Reports (status : ScheduleStatus) (q : Queue) (mono : ℤ)
    (utc : Option ℤ) : Prop where
  nextDueS : LeastOrZero (q.secondsLeft mono utc) status.nextDueS
  nextDueUtc : LeastOrZero q.dueTimes status.nextDueUtc
  entries : status.entries.toNat = status.scheduled.toNat + status.running.toNat +
    status.completed.toNat + status.failed.toNat + status.overdue.toNat + status.cancelled.toNat

/-! ### The loop -/

section
variable {mono : ℤ} {utc : Option ℤ} {slots : List Slot}

theorem ScheduleStatus.visit_nextDueS (status : ScheduleStatus) (s : Slot) :
    (status.visit mono utc s).nextDueS =
      if s.waits .RELATIVE then runningMin status.nextDueS (s.remaining mono utc)
      else status.nextDueS := by
  unfold visit Slot.waits runningMin
  cases s.used <;> cases s.entry.status <;> cases s.entry.kind <;> simp <;> split_ifs <;> rfl

theorem ScheduleStatus.visit_nextDueUtc (status : ScheduleStatus) (s : Slot) :
    (status.visit mono utc s).nextDueUtc =
      if s.waits .ABSOLUTE then runningMin status.nextDueUtc s.entry.dueUtc
      else status.nextDueUtc := by
  unfold visit Slot.waits runningMin
  cases s.used <;> cases s.entry.status <;> cases s.entry.kind <;> simp <;> split_ifs <;> rfl

/-- The count of the entries in one status. -/
def ScheduleStatus.count (e : EntryStatus) (status : ScheduleStatus) : UInt16 :=
  match e with
  | .SCHEDULED => status.scheduled
  | .RUNNING => status.running
  | .COMPLETED => status.completed
  | .FAILED => status.failed
  | .OVERDUE => status.overdue
  | .CANCELLED => status.cancelled

theorem ScheduleStatus.visit_entries (status : ScheduleStatus) (s : Slot) :
    (status.visit mono utc s).entries = if s.used then status.entries + 1 else status.entries := by
  unfold visit
  cases s.used <;> cases s.entry.status <;> cases s.entry.kind <;> simp <;> split_ifs <;> rfl

theorem ScheduleStatus.visit_count (e : EntryStatus) (status : ScheduleStatus) (s : Slot) :
    (status.visit mono utc s).count e =
      if s.used && s.entry.status = e then status.count e + 1 else status.count e := by
  unfold visit
  cases s.used <;> cases s.entry.status <;> cases s.entry.kind <;> cases e <;> simp [count] <;>
    split_ifs <;> rfl

/-- Every entry has one status. -/
theorem countP_used (slots : List Slot) : slots.countP Slot.used =
    slots.countP (fun s => s.used && s.entry.status = .SCHEDULED) +
    slots.countP (fun s => s.used && s.entry.status = .RUNNING) +
    slots.countP (fun s => s.used && s.entry.status = .COMPLETED) +
    slots.countP (fun s => s.used && s.entry.status = .FAILED) +
    slots.countP (fun s => s.used && s.entry.status = .OVERDUE) +
    slots.countP (fun s => s.used && s.entry.status = .CANCELLED) := by
  induction slots with
  | nil => rfl
  | cons s slots ih =>
    simp only [List.countP_cons, ih]
    cases s.used with
    | false => simp
    | true =>
      cases s.entry.status <;> simp <;> omega

end

variable {q : Queue} (mono : ℤ) (utc : Option ℤ) (clockSteps : ℕ)

theorem getStatus_entries (hlen : q.slots.length < 65536) :
    (q.getStatus mono utc clockSteps).entries.toNat = q.slots.countP Slot.used := by
  have hcount := List.countP_le_length (p := Slot.used) (l := q.slots)
  rw [Queue.getStatus, foldl_counter ScheduleStatus.visit_entries]
  simp only [UInt16.zero_add, UInt16.toNat_ofNat']
  exact Nat.mod_eq_of_lt (by omega)

theorem getStatus_count (hlen : q.slots.length < 65536) (e : EntryStatus) :
    ((q.getStatus mono utc clockSteps).count e).toNat =
      q.slots.countP fun s => s.used && s.entry.status = e := by
  have hcount := List.countP_le_length (p := fun s : Slot => s.used && s.entry.status = e)
    (l := q.slots)
  have hfield : (q.getStatus mono utc clockSteps).count e =
      0 + UInt16.ofNat (q.slots.countP fun s => s.used && s.entry.status = e) := by
    refine (foldl_counter (ScheduleStatus.visit_count e) q.slots _).trans ?_
    cases e <;> rfl
  rw [hfield, UInt16.zero_add, UInt16.toNat_ofNat']
  exact Nat.mod_eq_of_lt (by omega)

/-- **The report is right** exactly if no zero is forgotten. -/
theorem reports_iff (hlen : q.slots.length < 65536) :
    (q.getStatus mono utc clockSteps).Reports q mono utc ↔
      ZeroLast (q.secondsLeft mono utc) ∧ ZeroLast q.dueTimes := by
  have hs : (q.getStatus mono utc clockSteps).nextDueS =
      (q.secondsLeft mono utc).foldl runningMin 0 :=
    foldl_field ScheduleStatus.visit_nextDueS q.slots _
  have hutc : (q.getStatus mono utc clockSteps).nextDueUtc = q.dueTimes.foldl runningMin 0 :=
    foldl_field ScheduleStatus.visit_nextDueUtc q.slots _
  rw [← leastOrZero_foldl_iff, ← leastOrZero_foldl_iff, ← hs, ← hutc]
  refine ⟨fun h => ⟨h.nextDueS, h.nextDueUtc⟩, fun h => ⟨h.1, h.2, ?_⟩⟩
  have hcount := getStatus_count mono utc clockSteps hlen
  rw [getStatus_entries mono utc clockSteps hlen, countP_used, ← hcount, ← hcount, ← hcount,
    ← hcount, ← hcount, ← hcount]
  rfl

/-! ### Reachable queues -/

/-- Every absolute entry has a time after second 0. -/
def Queue.Timely (q : Queue) : Prop :=
  ∀ a ∈ q.slots, a.used = true → a.entry.kind = .ABSOLUTE → 0 < a.entry.dueUtc

theorem SlotMove.timely {s : Sched} {e : SchedEvent} {i : ℕ} {a b : Slot}
    (h : SlotMove cfg s e i a b)
    (ha : a.used = true → a.entry.kind = .ABSOLUTE → 0 < a.entry.dueUtc)
    (hu : b.used = true) (hk : b.entry.kind = .ABSOLUTE) : 0 < b.entry.dueUtc := by
  cases h with
  | fill _ hacc =>
    obtain rfl : _ = TimeKind.ABSOLUTE := hk
    exact hacc.future
  | dropped => cases hu
  | _ => exact ha hu hk

/-- A reachable queue has no entry due at the beginning of UTC, and all of its slots. -/
theorem queue_timely_of_run {latencyS : ℕ} {clock : ℤ} {es : List SchedEvent} {s : Sched}
    (hr : Run (SchedStep cfg) (Sched.boot cfg latencyS clock) es s) :
    s.queue.Timely ∧ s.queue.slots.length = cfg.entries := by
  refine hr.invariant (I := fun _ s => s.queue.Timely ∧ s.queue.slots.length = cfg.entries) ?_ ?_
  · refine ⟨fun a ha hu => ?_, List.length_replicate⟩
    rw [List.eq_of_mem_replicate ha] at hu
    cases hu
  · rintro es s e t ⟨htimely, hlen⟩ hs
    refine ⟨fun b hb => ?_, by rw [hs.length_eq, hlen]⟩
    obtain ⟨i, hi⟩ := List.mem_iff_getElem?.1 hb
    obtain ⟨a, ha, hm⟩ := hs.slot hi
    exact hm.timely (htimely a (List.mem_of_getElem? ha))

/-- **The report of a reachable queue is right**, at any reading of the clocks, exactly if a waiting
relative entry that has no time left is not followed by one that has. -/
theorem next_due_iff {latencyS : ℕ} {clock : ℤ} {es : List SchedEvent} {s : Sched}
    (hr : Run (SchedStep cfg) (Sched.boot cfg latencyS clock) es s) (hcap : cfg.entries < 65536)
    (mono : ℤ) (utc : Option ℤ) (clockSteps : ℕ) :
    (s.queue.getStatus mono utc clockSteps).Reports s.queue mono utc ↔
      (0 ∈ s.queue.secondsLeft mono utc → (s.queue.secondsLeft mono utc).getLast? = some 0) := by
  obtain ⟨htimely, hlen⟩ := queue_timely_of_run hr
  have hutc : ZeroLast s.queue.dueTimes := by
    refine ZeroLast.of_not_mem fun hzero => ?_
    obtain ⟨a, ha, hdue⟩ := List.mem_map.1 hzero
    obtain ⟨hmem, hwaits⟩ := List.mem_filter.1 ha
    simp only [Slot.waits, Bool.and_eq_true, decide_eq_true_eq] at hwaits
    exact absurd hdue (htimely a hmem hwaits.1.1 hwaits.2).ne'
  rw [reports_iff mono utc clockSteps (by omega), and_iff_left hutc]
  exact ⟨fun h hzero => h hzero fun n _ => Nat.zero_le n, fun h hzero _ => h hzero⟩

/-- Two entries, of which the first is due. -/
def firstDue : Sched :=
  ⟨⟨[noopSlot 1 0 1 0, noopSlot 2 1 100 0], 10, 0, 0, 0, none⟩, .idle, 1000, 2⟩

theorem firstDue_run : Run (SchedStep (noopConfig 2 1)) (Sched.boot (noopConfig 2 1) 10 0)
    [.add (noopRequest 1) none none (some 0), .add (noopRequest 100) none none (some 1),
      .tick 1000] firstDue := by
  refine .cons (t := ⟨⟨[noopSlot 1 0 1 0, Slot.zero], 10, 0, 0, 0, none⟩, .idle, 0, 1⟩)
    (.add (a := ⟨⟨[noopSlot 1 0 1 0, Slot.zero], 10, 0, 0, 0, none⟩, none, some 0⟩) _ _
      (by decide +kernel)) ?_
  refine .cons (t := ⟨⟨[noopSlot 1 0 1 0, noopSlot 2 1 100 0], 10, 0, 0, 0, none⟩, .idle, 0, 2⟩)
    (.add (a := ⟨⟨[noopSlot 1 0 1 0, noopSlot 2 1 100 0], 10, 0, 0, 0, none⟩, none, some 1⟩) _ _
      (by decide +kernel)) ?_
  exact .single (.tick (t := 1000) (by decide))

/-- Before the first is due the report is right. -/
theorem next_due_waiting : (firstDue.queue.getStatus 999 none 0).Reports firstDue.queue 999 none ↔
    (0 ∈ firstDue.queue.secondsLeft 999 none →
      (firstDue.queue.secondsLeft 999 none).getLast? = some 0) :=
  next_due_iff firstDue_run (by decide) 999 none 0

/-- **A due entry that is not reported.**  Slot 0 has no time left, and the report says 99 seconds,
which slot 1 has. -/
theorem due_entry_unreported : ¬ ∀ (cfg : Config Unit) (latencyS : ℕ) (clock : ℤ)
    (es : List SchedEvent) (s : Sched), Run (SchedStep cfg) (Sched.boot cfg latencyS clock) es s →
      (s.queue.getStatus s.clock none 0).Reports s.queue s.clock none := by
  intro h
  have hleast := (h _ _ _ _ _ firstDue_run).nextDueS
  have hleft : firstDue.queue.secondsLeft firstDue.clock none = [0, 99] := by decide +kernel
  have hreport : (firstDue.queue.getStatus firstDue.clock none 0).nextDueS = 99 := by
    decide +kernel
  rw [hleft, hreport] at hleast
  rcases hleast with ⟨hnil, -⟩ | ⟨-, hle⟩
  · cases hnil
  · exact absurd (hle 0 List.mem_cons_self) (by decide)

end KfswServices.Fbo
