/-
# The release thread among its callers

The release thread of `src/fbo/fbo_schedule.c`, cut where it takes and leaves
`queue_lock`: a sweep reads the clocks once (`wake`) and then, as often as the
burst allows, selects a candidate, marks it RUNNING, invokes the copy it took and
records the outcome.  Between any two of these, callers may add, cancel, clear or
set the latency, and time may pass.

Selecting and marking are two critical sections, and marking does not look at the
slot again.  A step is `Undisturbed` when it does not cancel the candidate, and
does not clear the queue, between the two.
-/

import KfswServices.Fbo.Schedule
import KfswServices.Library.Run

namespace KfswServices.Fbo

open Command Library

variable {ω : Type*}

/-- One call of `sweep`: the clocks it read, and the releases it has made. -/
structure Sweep where
  mono : ℤ
  utc : Option ℤ
  released : ℕ
  deriving DecidableEq

/-- Where the release thread is. -/
inductive Phase
  /-- Between two sweeps. -/
  | idle
  /-- Before the scan of an iteration. -/
  | scanning (w : Sweep)
  /-- A candidate is chosen, and not yet marked. -/
  | selected (w : Sweep) (i : ℕ)
  /-- The slot is marked RUNNING and copied. -/
  | marked (w : Sweep) (i : ℕ) (copy : Slot)
  /-- Inside `invoke`. -/
  | running (w : Sweep) (i : ℕ) (copy : Slot)
  deriving DecidableEq

/-- The scheduler, the monotonic clock, and how many entries were accepted. -/
structure Sched where
  queue : Queue
  phase : Phase
  clock : ℤ
  accepted : ℕ
  deriving DecidableEq

/-- After a reset. -/
def Sched.boot (cfg : Config ω) (latencyS : ℕ) (clock : ℤ) : Sched :=
  ⟨Queue.empty cfg latencyS, .idle, clock, 0⟩

/-- The test of the loop of `sweep`. -/
def Sweep.again (cfg : Config ω) (w : Sweep) : Phase :=
  if w.released < cfg.burst then .scanning w else .idle

/-- What callers, the clock and the release thread are seen to do. -/
inductive SchedEvent
  | add (r : Request) (utc : Option ℤ) (outcome : Option Errno) (index : Option ℕ)
  | cancel (i : ℕ) (outcome : Option Errno)
  | clear
  | setLatency (floor seconds : ℕ)
  | tick (clock : ℤ)
  | wake (utc : Option ℤ)
  | select (candidate : Option ℕ)
  | mark (i : ℕ)
  | invoke (w : Sweep) (i : ℕ) (copy : Slot)
  | finish (answer : Option Errno × Status)

/-- One critical section, or time passing. -/
inductive SchedStep (cfg : Config ω) : Sched → SchedEvent → Sched → Prop
  | add {s : Sched} (r : Request) (utc : Option ℤ) {a : Added}
      (ha : s.queue.add cfg (s.accepted + 1) r utc s.clock = a) :
      SchedStep cfg s (.add r utc a.outcome a.index)
        { s with
          queue := a.queue
          accepted := if a.outcome = none then s.accepted + 1 else s.accepted }
  | cancel {s : Sched} (i : ℕ) :
      SchedStep cfg s (.cancel i (s.queue.cancel i).2) { s with queue := (s.queue.cancel i).1 }
  | clear {s : Sched} : SchedStep cfg s .clear { s with queue := s.queue.clear.1 }
  | setLatency {s : Sched} (floor seconds : ℕ) :
      SchedStep cfg s (.setLatency floor seconds)
        { s with queue := (s.queue.setLatency floor seconds).1 }
  | tick {s : Sched} {t : ℤ} (h : s.clock ≤ t) : SchedStep cfg s (.tick t) { s with clock := t }
  | wake {s : Sched} (utc : Option ℤ) (hp : s.phase = .idle) :
      SchedStep cfg s (.wake utc) { s with phase := Sweep.again cfg ⟨s.clock, utc, 0⟩ }
  | selectNone {s : Sched} {w : Sweep} (hp : s.phase = .scanning w)
      (hn : (s.queue.select w.mono w.utc).2 = none) :
      SchedStep cfg s (.select none)
        { s with queue := (s.queue.select w.mono w.utc).1, phase := .idle }
  | select {s : Sched} {w : Sweep} {i : ℕ} (hp : s.phase = .scanning w)
      (hi : (s.queue.select w.mono w.utc).2 = some i) :
      SchedStep cfg s (.select (some i))
        { s with queue := (s.queue.select w.mono w.utc).1, phase := .selected w i }
  | mark {s : Sched} {w : Sweep} {i : ℕ} (hp : s.phase = .selected w i) :
      SchedStep cfg s (.mark i)
        { s with
          queue := (s.queue.markRunning i w.utc).1
          phase := .marked w i (s.queue.markRunning i w.utc).2 }
  | invoke {s : Sched} {w : Sweep} {i : ℕ} {copy : Slot} (hp : s.phase = .marked w i copy) :
      SchedStep cfg s (.invoke w i copy) { s with phase := .running w i copy }
  | finish {s : Sched} {w : Sweep} {i : ℕ} {copy : Slot} (answer : Option Errno × Status)
      (hp : s.phase = .running w i copy) :
      SchedStep cfg s (.finish answer)
        { s with
          queue := s.queue.record i (invoke cfg copy.entry answer).1
            (invoke cfg copy.entry answer).2
          phase := Sweep.again cfg { w with released := w.released + 1 } }

/-- The step leaves the candidate alone between its selection and its marking. -/
def Undisturbed (s : Sched) (e : SchedEvent) : Prop :=
  ∀ w i, s.phase = .selected w i → (∀ outcome, e ≠ .cancel i outcome) ∧ e ≠ .clear

/-- An undisturbed step. -/
def CalmStep (cfg : Config ω) (s : Sched) (e : SchedEvent) (t : Sched) : Prop :=
  SchedStep cfg s e t ∧ Undisturbed s e

/-! ### What a step does to a slot -/

/-- The slot as `release` marks it. -/
def Slot.markRunning (a : Slot) (utc : Option ℤ) : Slot :=
  { a with entry := { a.entry with status := .RUNNING, releasedUtc := utc.getD 0 } }

/-- The slot as `release` records an outcome in it. -/
def Slot.record (a : Slot) (outcome : Option Errno) (status : Status) : Slot :=
  { a with entry := { a.entry with
      result := outcome
      commandStatus := status
      status := if outcome ≠ none ∨ status ≠ .OK then .FAILED else .COMPLETED } }

/-- Everything one step can do to slot `i`. -/
inductive SlotMove (cfg : Config ω) (s : Sched) : SchedEvent → ℕ → Slot → Slot → Prop
  | stay {e : SchedEvent} {i : ℕ} (a : Slot) : SlotMove cfg s e i a a
  | fill {r : Request} {utc : Option ℤ} {i : ℕ} {a : Slot} {line : CString}
      {kind : TimeKind} {d : Definition ω} (hfree : a.used = false) (hacc : Accepts cfg r line kind d)
      (hnew : ∀ c ∈ s.queue.slots, c.live = true →
        c.entry.contentHash ≠ contentHash kind r.time r.node line) :
      SlotMove cfg s (.add r utc none (some i)) i a
        (newSlot (s.accepted + 1) i kind r.time r.node line d.id s.clock)
  | cancelled {i : ℕ} {a : Slot} (hu : a.used = true) (hst : a.entry.status = .SCHEDULED) :
      SlotMove cfg s (.cancel i none) i a (a.setStatus .CANCELLED)
  | dropped {i : ℕ} {a : Slot} (hd : a.droppable = true) : SlotMove cfg s .clear i a Slot.zero
  | overdue {c : Option ℕ} {w : Sweep} {i : ℕ} {a : Slot} (hp : s.phase = .scanning w)
      (hv : a.examine w.mono w.utc s.queue.latencyS = .overdue) :
      SlotMove cfg s (.select c) i a a.setOverdue
  | marked {w : Sweep} {i : ℕ} {a : Slot} (hp : s.phase = .selected w i) :
      SlotMove cfg s (.mark i) i a (a.markRunning w.utc)
  | recorded {answer : Option Errno × Status} {w : Sweep} {i : ℕ} {a copy : Slot}
      (hp : s.phase = .running w i copy) :
      SlotMove cfg s (.finish answer) i a
        (a.record (invoke cfg copy.entry answer).1 (invoke cfg copy.entry answer).2)

variable {i : ℕ} {b : Slot}

/-- What is in a slot after one was written. -/
theorem getElem?_set_cases {slots : List Slot} {j : ℕ} {c : Slot}
    (h : (slots.set i c)[j]? = some b) :
    (j = i ∧ b = c ∧ ∃ a, slots[i]? = some a) ∨ (j ≠ i ∧ slots[j]? = some b) := by
  by_cases hij : j = i
  · subst hij
    have hlt : j < slots.length := by
      have := (List.getElem?_eq_some_iff.1 h).1
      rwa [List.length_set] at this
    rw [List.getElem?_set_self hlt] at h
    exact .inl ⟨rfl, (Option.some.inj h).symm, _, List.getElem?_eq_getElem hlt⟩
  · rw [List.getElem?_set_ne (Ne.symm hij)] at h
    exact .inr ⟨hij, h⟩

variable {a : Slot}

theorem getD_of_getElem? {slots : List Slot} (h : slots[i]? = some a) :
    slots.getD i Slot.zero = a := by
  rw [List.getD_eq_getElem?_getD, h]
  rfl

theorem Queue.markRunning_eq {q : Queue} (h : q.slots[i]? = some a) (utc : Option ℤ) :
    (q.markRunning i utc).1.slots = q.slots.set i (a.markRunning utc) ∧
      (q.markRunning i utc).2 = a.markRunning utc := by
  simp only [Queue.markRunning, getD_of_getElem? h]
  exact ⟨rfl, rfl⟩

theorem Queue.record_slots {q : Queue} (h : q.slots[i]? = some a) (outcome : Option Errno)
    (status : Status) :
    (q.record i outcome status).slots = q.slots.set i (a.record outcome status) := by
  simp only [Queue.record, getD_of_getElem? h]
  rfl

variable {cfg : Config ω} {s t : Sched} {e : SchedEvent}

/-- **One step, slot by slot.** -/
theorem SchedStep.slot (hs : SchedStep cfg s e t) (hb : t.queue.slots[i]? = some b) :
    ∃ a, s.queue.slots[i]? = some a ∧ SlotMove cfg s e i a b := by
  cases hs with
  | @add r utc a ha =>
    rcases s.queue.add_cases cfg (s.accepted + 1) r utc s.clock with
      ⟨hslots, -, -⟩ | ⟨j, c, line, kind, d, hj, hfree, hacc, hnew, hslots, -, hout, hindex⟩
    · rw [ha] at hslots
      exact ⟨b, hslots ▸ hb, .stay b⟩
    · rw [ha] at hslots hout hindex
      rw [hout, hindex]
      rw [show _ = a.queue.slots[i]? from rfl, hslots] at hb
      rcases getElem?_set_cases hb with ⟨rfl, rfl, -⟩ | ⟨-, hb⟩
      · exact ⟨c, hj, .fill hfree hacc hnew⟩
      · exact ⟨b, hb, .stay b⟩
  | cancel j =>
    rcases s.queue.cancel_cases j with ⟨hq, -⟩ | ⟨c, hc, hu, hst, hq, hout⟩
    · exact ⟨b, by simpa [hq] using hb, .stay b⟩
    · rw [hout]
      rw [show _ = (s.queue.cancel j).1.slots[i]? from rfl, hq] at hb
      rcases getElem?_set_cases hb with ⟨rfl, rfl, -⟩ | ⟨-, hb⟩
      · exact ⟨c, hc, .cancelled hu hst⟩
      · exact ⟨b, hb, .stay b⟩
  | clear =>
    simp only [Queue.clear, List.getElem?_map] at hb
    obtain ⟨a, ha, rfl⟩ := Option.map_eq_some_iff.1 hb
    refine ⟨a, ha, ?_⟩
    split_ifs with hd
    · exact .dropped hd
    · exact .stay a
  | setLatency floor seconds =>
    refine ⟨b, ?_, .stay b⟩
    simp only [Queue.setLatency] at hb
    split_ifs at hb <;> exact hb
  | tick h => exact ⟨b, hb, .stay b⟩
  | wake utc hp => exact ⟨b, hb, .stay b⟩
  | selectNone hp _ | select hp _ =>
    rw [show _ = (s.queue.select _ _).1.slots[i]? from rfl, Queue.select_slots,
      List.getElem?_map] at hb
    obtain ⟨a, ha, rfl⟩ := Option.map_eq_some_iff.1 hb
    refine ⟨a, ha, ?_⟩
    split_ifs with hv
    · exact .overdue hp hv
    · exact .stay a
  | mark hp =>
    rcases getElem?_set_cases hb with ⟨rfl, rfl, a, ha⟩ | ⟨-, hb⟩
    · rw [getD_of_getElem? ha]
      exact ⟨a, ha, .marked hp⟩
    · exact ⟨b, hb, .stay b⟩
  | invoke hp => exact ⟨b, hb, .stay b⟩
  | finish answer hp =>
    rcases getElem?_set_cases hb with ⟨rfl, rfl, a, ha⟩ | ⟨-, hb⟩
    · rw [getD_of_getElem? ha]
      exact ⟨a, ha, .recorded hp⟩
    · exact ⟨b, hb, .stay b⟩

/-- The step accepts an entry. -/
def SchedEvent.accepts : SchedEvent → ℕ
  | .add _ _ none _ => 1
  | _ => 0

theorem SchedStep.accepted_eq (hs : SchedStep cfg s e t) : t.accepted = s.accepted + e.accepts := by
  cases hs with
  | @add r utc a ha => cases ho : a.outcome <;> simp [SchedEvent.accepts]
  | _ => rfl

/-- The array of slots keeps its size. -/
theorem SchedStep.length_eq (hs : SchedStep cfg s e t) :
    t.queue.slots.length = s.queue.slots.length := by
  cases hs with
  | @add r utc a ha =>
    rcases s.queue.add_cases cfg (s.accepted + 1) r utc s.clock with
      ⟨hslots, -⟩ | ⟨j, c, line, kind, d, -, -, -, -, hslots, -⟩
    · rw [ha] at hslots
      exact congrArg List.length hslots
    · rw [ha] at hslots
      simp [hslots]
  | cancel i =>
    rcases s.queue.cancel_cases i with ⟨hq, -⟩ | ⟨c, -, -, -, hq, -⟩ <;> simp [hq]
  | clear => simp [Queue.clear]
  | setLatency floor seconds =>
    simp only [Queue.setLatency]
    split_ifs <;> rfl
  | tick h => rfl
  | wake utc hp => rfl
  | selectNone hp hn => simp [Queue.select_slots]
  | select hp hi => simp [Queue.select_slots]
  | mark hp => simp [Queue.markRunning]
  | invoke hp => rfl
  | finish answer hp => simp [Queue.record]

/-- One step, from the slot before it. -/
theorem SchedStep.slot_after (hs : SchedStep cfg s e t) (ha : s.queue.slots[i]? = some a) :
    ∃ b, t.queue.slots[i]? = some b ∧ SlotMove cfg s e i a b := by
  have hlt : i < t.queue.slots.length := by
    rw [hs.length_eq]
    exact (List.getElem?_eq_some_iff.1 ha).1
  obtain ⟨a', ha', hm⟩ := hs.slot (List.getElem?_eq_getElem hlt)
  obtain rfl := Option.some.inj (ha.symm.trans ha')
  exact ⟨_, List.getElem?_eq_getElem hlt, hm⟩

/-! ### Invariants -/

/-- Serial numbers name the entries in the queue. -/
structure SerialInv (s : Sched) : Prop where
  bounds : ∀ a ∈ s.queue.slots, a.used = true → 0 < a.serial ∧ a.serial ≤ s.accepted
  unique : ∀ (i j : ℕ) (a b : Slot), s.queue.slots[i]? = some a → s.queue.slots[j]? = some b →
    a.used = true → b.used = true → a.serial = b.serial → i = j

/-- A slot in use after a step held the same entry before it, or was filled by
it. -/
theorem SlotMove.serial (h : SlotMove cfg s e i a b) (hu : b.used = true) :
    (a.used = true ∧ b.serial = a.serial) ∨
      (b.serial = s.accepted + 1 ∧ e.accepts = 1 ∧ ∃ r utc, e = .add r utc none (some i)) := by
  cases h with
  | stay => exact .inl ⟨hu, rfl⟩
  | @fill r utc => exact .inr ⟨rfl, rfl, r, utc, rfl⟩
  | cancelled hu' => exact .inl ⟨hu', rfl⟩
  | dropped => cases hu
  | overdue hp hv => exact .inl ⟨(Slot.examine_eq_overdue_iff.1 hv).1, rfl⟩
  | marked => exact .inl ⟨hu, rfl⟩
  | recorded => exact .inl ⟨hu, rfl⟩

theorem serialInv_step (h : SerialInv s) (hs : SchedStep cfg s e t) : SerialInv t := by
  have hacc := hs.accepted_eq
  refine ⟨fun b hb hu => ?_, fun i j a b ha hb hua hub hab => ?_⟩
  · obtain ⟨i, hi⟩ := List.mem_iff_getElem?.1 hb
    obtain ⟨a, ha, hm⟩ := hs.slot hi
    rcases hm.serial hu with ⟨hua, hser⟩ | ⟨hser, hone, -⟩
    · have := h.bounds a (List.mem_of_getElem? ha) hua
      omega
    · omega
  · obtain ⟨a', ha', hma⟩ := hs.slot ha
    obtain ⟨b', hb', hmb⟩ := hs.slot hb
    rcases hma.serial hua with ⟨hua', hsa⟩ | ⟨hsa, -, r, utc, he⟩ <;>
      rcases hmb.serial hub with ⟨hub', hsb⟩ | ⟨hsb, -, r', utc', he'⟩
    · exact h.unique i j a' b' ha' hb' hua' hub' (hsa.symm.trans (hab.trans hsb))
    · have := h.bounds a' (List.mem_of_getElem? ha') hua'
      omega
    · have := h.bounds b' (List.mem_of_getElem? hb') hub'
      omega
    · rw [he] at he'
      cases he'
      rfl

/-- What the release thread knows of the slot it works on. -/
def PhaseInv (q : Queue) : Phase → Prop
  | .selected w i => ∃ a l, q.slots[i]? = some a ∧ a.used = true ∧ a.entry.status = .SCHEDULED ∧
      a.dueNow w.mono w.utc = some l
  | .marked w i copy => q.slots[i]? = some copy ∧ copy.used = true ∧
      copy.entry.status = .RUNNING ∧ ∃ l, copy.dueNow w.mono w.utc = some l
  | .running _ i copy => ∃ a, q.slots[i]? = some a ∧ a.used = true ∧ a.serial = copy.serial ∧
      a.entry.status = .RUNNING
  | _ => True

/-- The release thread takes the step. -/
def SchedEvent.ofThread : SchedEvent → Bool
  | .wake _ | .select _ | .mark _ | .invoke _ _ _ | .finish _ => true
  | _ => false

/-- A slot in flight is left alone by everybody but the release thread. -/
theorem SlotMove.running_eq (h : SlotMove cfg s e i a b) (he : e.ofThread = false)
    (hu : a.used = true) (hst : a.entry.status = .RUNNING) : b = a := by
  cases h with
  | stay => rfl
  | fill hfree => rw [hu] at hfree; cases hfree
  | cancelled _ hst' => rw [hst] at hst'; cases hst'
  | dropped hd => simp [Slot.droppable, hst] at hd
  | overdue => cases he
  | marked => cases he
  | recorded => cases he

/-- So is a candidate, if nothing disturbs it. -/
theorem SlotMove.selected_eq {w : Sweep} (h : SlotMove cfg s e i a b) (he : e.ofThread = false)
    (hu : a.used = true) (hp : s.phase = .selected w i) (hund : Undisturbed s e) : b = a := by
  cases h with
  | stay => rfl
  | fill hfree => rw [hu] at hfree; cases hfree
  | cancelled => exact absurd rfl ((hund w i hp).1 none)
  | dropped => exact absurd rfl (hund w i hp).2
  | overdue => cases he
  | marked => cases he
  | recorded => cases he

theorem phaseInv_caller (h : PhaseInv s.queue s.phase) (hs : CalmStep cfg s e t)
    (he : e.ofThread = false) (hphase : t.phase = s.phase) : PhaseInv t.queue t.phase := by
  obtain ⟨hs, hund⟩ := hs
  rw [hphase]
  cases hp : s.phase with
  | idle => trivial
  | scanning w => trivial
  | selected w i =>
    rw [hp] at h
    obtain ⟨a, l, ha, hu, hst, hdue⟩ := h
    obtain ⟨b, hb, hm⟩ := hs.slot_after ha
    obtain rfl := hm.selected_eq he hu hp hund
    exact ⟨b, l, hb, hu, hst, hdue⟩
  | marked w i copy =>
    rw [hp] at h
    obtain ⟨ha, hu, hst, hdue⟩ := h
    obtain ⟨b, hb, hm⟩ := hs.slot_after ha
    obtain rfl := hm.running_eq he hu hst
    exact ⟨hb, hu, hst, hdue⟩
  | running w i copy =>
    rw [hp] at h
    obtain ⟨a, ha, hu, hser, hst⟩ := h
    obtain ⟨b, hb, hm⟩ := hs.slot_after ha
    obtain rfl := hm.running_eq he hu hst
    exact ⟨b, hb, hu, hser, hst⟩

theorem phaseInv_again (cfg : Config ω) (q : Queue) (w : Sweep) : PhaseInv q (w.again cfg) := by
  unfold Sweep.again
  split_ifs <;> trivial

theorem phaseInv_step (h : PhaseInv s.queue s.phase) (hs : CalmStep cfg s e t) :
    PhaseInv t.queue t.phase := by
  have hcalm := hs
  obtain ⟨hs, hund⟩ := hs
  cases hs with
  | add r utc ha => exact phaseInv_caller h hcalm rfl rfl
  | cancel i => exact phaseInv_caller h hcalm rfl rfl
  | clear => exact phaseInv_caller h hcalm rfl rfl
  | setLatency floor seconds => exact phaseInv_caller h hcalm rfl rfl
  | tick ht => exact phaseInv_caller h hcalm rfl rfl
  | wake utc hp => exact phaseInv_again cfg _ _
  | selectNone hp hn => trivial
  | @select w i hp hi =>
    obtain ⟨a, l, -, hv, ha⟩ := Queue.select_due hi
    obtain ⟨hu, hst, hdue, -⟩ := Slot.examine_eq_due_iff.1 hv
    exact ⟨a, l, ha, hu, hst, hdue⟩
  | @mark w i hp =>
    rw [hp] at h
    obtain ⟨a, l, ha, hu, hst, hdue⟩ := h
    have hlt := (List.getElem?_eq_some_iff.1 ha).1
    simp only [PhaseInv, Queue.markRunning, getD_of_getElem? ha]
    exact ⟨List.getElem?_set_self hlt, hu, trivial, l, hdue⟩
  | invoke hp =>
    rw [hp] at h
    obtain ⟨ha, hu, hst, -⟩ := h
    exact ⟨_, ha, hu, rfl, hst⟩
  | finish answer hp => exact phaseInv_again cfg _ _

/-- What holds in every state of an undisturbed run. -/
structure SchedInv (s : Sched) : Prop where
  serials : SerialInv s
  phase : PhaseInv s.queue s.phase

theorem schedInv_boot (cfg : Config ω) (latencyS : ℕ) (clock : ℤ) :
    SchedInv (Sched.boot cfg latencyS clock) := by
  have hz : ∀ a ∈ (Sched.boot cfg latencyS clock).queue.slots, a.used = false := fun a ha => by
    rw [List.eq_of_mem_replicate ha]
    rfl
  refine ⟨⟨fun a ha hu => ?_, fun i j a b ha _ hu => ?_⟩, trivial⟩
  · rw [hz a ha] at hu
    cases hu
  · rw [hz a (List.mem_of_getElem? ha)] at hu
    cases hu

theorem schedInv_step (h : SchedInv s) (hs : CalmStep cfg s e t) : SchedInv t :=
  ⟨serialInv_step h.serials hs.1, phaseInv_step h.phase hs⟩

/-- **The invariant holds in every undisturbed run.** -/
theorem schedInv_run {latencyS : ℕ} {clock : ℤ} {es : List SchedEvent}
    (hr : Run (CalmStep cfg) (Sched.boot cfg latencyS clock) es s) : SchedInv s :=
  hr.invariant (I := fun _ s => SchedInv s) (schedInv_boot cfg latencyS clock)
    fun _ _ _ _ h hs => schedInv_step h hs

/-! ### Entries that will not run -/

/-- The entry may still be invoked: it waits in the queue, or the release thread
has marked it and is about to. -/
def Invokable (s : Sched) (serial : ℕ) : Prop :=
  (∃ a ∈ s.queue.slots, a.used = true ∧ a.serial = serial ∧ a.entry.status = .SCHEDULED) ∨
    ∃ w i copy, s.phase = .marked w i copy ∧ copy.serial = serial

/-- The entry is not invoked in any run from here. -/
def Never (step : Sched → SchedEvent → Sched → Prop) (s : Sched) (serial : ℕ) : Prop :=
  ∀ es t, Run step s es t → ∀ w i copy, .invoke w i copy ∈ es → copy.serial ≠ serial

/-- A waiting slot waited before the step, or was filled by it. -/
theorem SlotMove.scheduled (h : SlotMove cfg s e i a b) (hu : b.used = true)
    (hst : b.entry.status = .SCHEDULED) : b = a ∨ b.serial = s.accepted + 1 := by
  cases h with
  | stay => exact .inl rfl
  | fill => exact .inr rfl
  | cancelled => cases hst
  | dropped => cases hu
  | overdue => cases hst
  | marked => cases hst
  | recorded =>
    simp only [Slot.record] at hst
    split_ifs at hst

/-- An entry that may be invoked could be before, or is new. -/
theorem invokable_step {serial : ℕ} (h : SchedInv s) (hs : CalmStep cfg s e t)
    (hi : Invokable t serial) : Invokable s serial ∨ serial = s.accepted + 1 := by
  have hcalm := hs
  obtain ⟨hs, hund⟩ := hs
  rcases hi with ⟨b, hb, hu, rfl, hst⟩ | ⟨w, i, copy, hp, rfl⟩
  · obtain ⟨i, hi⟩ := List.mem_iff_getElem?.1 hb
    obtain ⟨a, ha, hm⟩ := hs.slot hi
    rcases hm.scheduled hu hst with rfl | hnew
    · exact .inl (.inl ⟨b, List.mem_of_getElem? ha, hu, rfl, hst⟩)
    · exact .inr hnew
  · left
    cases hs with
    | @mark w' i' hp' =>
      have hph := h.phase
      rw [hp'] at hph
      obtain ⟨a, l, ha, hu, hst, -⟩ := hph
      cases hp
      simp only [Queue.markRunning, getD_of_getElem? ha]
      exact .inl ⟨a, List.mem_of_getElem? ha, hu, rfl, hst⟩
    | wake utc hp' =>
      simp only [Sweep.again] at hp
      split_ifs at hp
    | finish answer hp' =>
      simp only [Sweep.again] at hp
      split_ifs at hp
    | selectNone => cases hp
    | select => cases hp
    | invoke => cases hp
    | add => exact .inr ⟨w, i, copy, hp, rfl⟩
    | cancel => exact .inr ⟨w, i, copy, hp, rfl⟩
    | clear => exact .inr ⟨w, i, copy, hp, rfl⟩
    | setLatency => exact .inr ⟨w, i, copy, hp, rfl⟩
    | tick => exact .inr ⟨w, i, copy, hp, rfl⟩

/-- **What may not be invoked never is.** -/
theorem never_of_not_invokable {serial : ℕ} (h : SchedInv s) (hk : serial ≤ s.accepted)
    (hi : ¬ Invokable s serial) : Never (CalmStep cfg) s serial := by
  intro es t hr
  have key : SchedInv t ∧ serial ≤ t.accepted ∧ ¬ Invokable t serial ∧
      ∀ w i copy, .invoke w i copy ∈ es → copy.serial ≠ serial := by
    refine hr.invariant (I := fun es t => SchedInv t ∧ serial ≤ t.accepted ∧
      ¬ Invokable t serial ∧ ∀ w i copy, .invoke w i copy ∈ es → copy.serial ≠ serial)
      ⟨h, hk, hi, by simp⟩ ?_
    rintro es u e v ⟨hu, hku, hiu, hall⟩ hs
    refine ⟨schedInv_step hu hs, ?_, fun hiv => ?_, fun w i copy hmem hser => ?_⟩
    · have := hs.1.accepted_eq
      omega
    · rcases invokable_step hu hs hiv with hold | hnew
      · exact hiu hold
      · omega
    · rcases List.mem_append.1 hmem with hmem | hmem
      · exact hall w i copy hmem hser
      · obtain rfl := List.mem_singleton.1 hmem
        cases hs.1 with
        | invoke hp => exact hiu (.inr ⟨w, i, copy, hp, hser⟩)
  exact key.2.2.2

/-- An entry whose slot is neither waiting nor marked may not be invoked. -/
theorem not_invokable_of_slot (h : SchedInv s) (ha : s.queue.slots[i]? = some a)
    (hu : a.used = true) (hst : a.entry.status ≠ .SCHEDULED) (hrun : a.entry.status ≠ .RUNNING) :
    ¬ Invokable s a.serial := by
  rintro (⟨b, hb, hub, hser, hsb⟩ | ⟨w, j, copy, hp, hser⟩)
  · obtain ⟨j, hj⟩ := List.mem_iff_getElem?.1 hb
    obtain rfl := h.serials.unique j i b a hj ha hub hu hser
    obtain rfl := Option.some.inj (hj.symm.trans ha)
    exact hst hsb
  · have hph := h.phase
    rw [hp] at hph
    obtain ⟨hj, hub, hsb, -⟩ := hph
    obtain rfl := h.serials.unique j i copy a hj ha hub hu hser
    obtain rfl := Option.some.inj (hj.symm.trans ha)
    exact hrun hsb

/-- An entry that is in no slot may not be invoked. -/
theorem not_invokable_of_absent (h : SchedInv s) {serial : ℕ}
    (habs : ∀ a ∈ s.queue.slots, a.used = true → a.serial ≠ serial) : ¬ Invokable s serial := by
  rintro (⟨b, hb, hub, hser, -⟩ | ⟨w, j, copy, hp, hser⟩)
  · exact habs b hb hub hser
  · have hph := h.phase
    rw [hp] at hph
    obtain ⟨hj, hub, -, -⟩ := hph
    exact habs copy (List.mem_of_getElem? hj) hub hser

end KfswServices.Fbo
