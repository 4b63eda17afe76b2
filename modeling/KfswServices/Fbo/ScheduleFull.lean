/-
# A full queue

When `kfsw_fbo_schedule_add` of `src/fbo/fbo_schedule.c` finds no slot.  An entry keeps its slot,
with what came of it, until `kfsw_fbo_schedule_clear`; a sweep and a cancel give none back.  Without
a clear, every accepted entry is still in the queue (`used_run`), so an add that is otherwise good
is refused from the moment on that as many entries as there are slots have been accepted, whatever
has become of them (`no_space_iff_full`).
-/

import KfswServices.Fbo.ScheduleCancel

namespace KfswServices.Fbo

open Command Library

variable {ω : Type*} {cfg : Config ω}

/-- The slots that hold an entry. -/
def Queue.taken (q : Queue) : ℕ := q.slots.countP Slot.used

/-- A step that accepts nothing puts no entry into a slot. -/
theorem SlotMove.used_eq {s : Sched} {e : SchedEvent} {i : ℕ} {a b : Slot}
    (h : SlotMove cfg s e i a b) (he : e ≠ .clear) (hacc : e.accepts = 0) : b.used = a.used := by
  cases h with
  | stay => rfl
  | fill => cases hacc
  | cancelled => rfl
  | dropped => exact absurd rfl he
  | overdue => rfl
  | marked => rfl
  | recorded => rfl

/-- **A step takes one more slot** if it accepts an entry, and none otherwise. -/
theorem SchedStep.taken {s t : Sched} {e : SchedEvent} (hs : SchedStep cfg s e t)
    (he : e ≠ .clear) : t.queue.taken = s.queue.taken + e.accepts := by
  by_cases hacc : e.accepts = 0
  · have hmap : t.queue.slots.map Slot.used = s.queue.slots.map Slot.used := by
      refine List.ext_getElem? fun i => ?_
      rw [List.getElem?_map, List.getElem?_map]
      cases hi : t.queue.slots[i]? with
      | none =>
        have hlen := List.getElem?_eq_none_iff.1 hi
        rw [hs.length_eq] at hlen
        rw [List.getElem?_eq_none hlen]
      | some b =>
        obtain ⟨a, ha, hm⟩ := hs.slot hi
        rw [ha, Option.map_some, Option.map_some, hm.used_eq he hacc]
    have hcount : ∀ q : Queue, q.taken = (q.slots.map Slot.used).countP id := fun q => by
      rw [List.countP_map]
      rfl
    rw [hcount, hcount, hmap, hacc, Nat.add_zero]
  · cases hs with
    | @add r utc a ha =>
      rcases s.queue.add_cases cfg (s.accepted + 1) r utc s.clock with
        ⟨-, -, hout⟩ | ⟨i, c, line, kind, d, hi, hfree, -, -, hslots, -, hout, -⟩
      · rw [ha] at hout
        cases ho : a.outcome with
        | none => exact absurd ho hout
        | some e => exact absurd (by rw [ho]; rfl) hacc
      · rw [ha] at hslots hout
        obtain ⟨hlt, rfl⟩ := List.getElem?_eq_some_iff.1 hi
        rw [hout]
        show a.queue.slots.countP Slot.used = s.queue.slots.countP Slot.used + 1
        rw [hslots, List.countP_set hlt, hfree]
        rfl
    | _ => exact absurd rfl hacc

/-- **Every accepted entry keeps its slot**, as long as nobody clears the queue. -/
theorem used_run {latencyS : ℕ} {clock : ℤ} {es : List SchedEvent} {s : Sched}
    (hr : Run (SchedStep cfg) (Sched.boot cfg latencyS clock) es s) (hclear : .clear ∉ es) :
    s.queue.taken = s.accepted ∧ s.queue.slots.length = cfg.entries := by
  have h := hr.invariant (I := fun es s => .clear ∉ es → s.queue.taken = s.accepted ∧
    s.queue.slots.length = cfg.entries) ?_ ?_
  · exact h hclear
  · intro _
    refine ⟨?_, List.length_replicate⟩
    show (List.replicate cfg.entries Slot.zero).countP Slot.used = 0
    rw [List.countP_replicate]
    rfl
  · intro es s e t ih hs hno
    rw [List.mem_append, not_or, List.mem_singleton] at hno
    obtain ⟨htaken, hlen⟩ := ih hno.1
    refine ⟨?_, by rw [hs.length_eq, hlen]⟩
    rw [hs.taken (Ne.symm hno.2), hs.accepted_eq, htaken]

/-- No slot is free exactly if all of them hold an entry. -/
theorem findIdx_free_eq_none {q : Queue} :
    (q.slots.findIdx? fun s => !s.used) = none ↔ ∀ a ∈ q.slots, a.used = true := by
  rw [List.findIdx?_eq_none_iff]
  simp only [Bool.not_eq_eq_eq_not, Bool.not_false]

/-- **A queue is full of entries, not of work.**  In every history without a clear, an add whose
request is good, and whose content no live entry has, is refused for want of space exactly if every
slot holds an entry, in whatever status; and that is so exactly if as many entries as there are
slots have been accepted. -/
theorem no_space_iff_full {latencyS : ℕ} {clock : ℤ} {es : List SchedEvent} {s : Sched}
    (hr : Run (SchedStep cfg) (Sched.boot cfg latencyS clock) es s) (hclear : .clear ∉ es)
    {r : Request} {utc : Option ℤ} {line : CString} {kind : TimeKind} {d : Definition ω}
    (hacc : Accepts cfg r line kind d) (hgate : clockGate kind r.time utc s.queue.latencyS = none)
    (hnew : ∀ a ∈ s.queue.slots, a.live = true →
      a.entry.contentHash ≠ contentHash kind r.time r.node line) :
    ((s.queue.add cfg (s.accepted + 1) r utc s.clock).outcome = some .ENOSPC ↔
      ∀ a ∈ s.queue.slots, a.used = true) ∧
    ((∀ a ∈ s.queue.slots, a.used = true) ↔ s.accepted = cfg.entries) := by
  obtain ⟨htaken, hlen⟩ := used_run hr hclear
  constructor
  · have hdup : (s.queue.slots.findIdx? fun a =>
        a.live && a.entry.contentHash = contentHash kind r.time r.node line) = none := by
      refine List.findIdx?_eq_none_iff.2 fun a ha => ?_
      cases hl : a.live with
      | false => rfl
      | true => simpa using hnew a ha hl
    rw [hacc.add_eq hgate, hdup, ← findIdx_free_eq_none]
    dsimp only
    cases s.queue.slots.findIdx? fun a => !a.used with
    | none => exact iff_of_true rfl rfl
    | some i => exact iff_of_false (fun h => by cases h) (fun h => by cases h)
  · rw [← List.countP_eq_length (p := Slot.used), hlen, ← htaken]
    rfl

/-- The only slot holds an entry that was cancelled. -/
def cancelledEntry : Sched :=
  ⟨⟨[(noopSlot 1 0 1 0).setStatus .CANCELLED], 10, 0, 0, 0, none⟩, .idle, 0, 1⟩

theorem cancelledEntry_run : Run (SchedStep (noopConfig 1 1)) (Sched.boot (noopConfig 1 1) 10 0)
    [.add (noopRequest 1) none none (some 0), .cancel 0 none] cancelledEntry := by
  refine .cons (t := ⟨⟨[noopSlot 1 0 1 0], 10, 0, 0, 0, none⟩, .idle, 0, 1⟩)
    (.add (a := ⟨⟨[noopSlot 1 0 1 0], 10, 0, 0, 0, none⟩, none, some 0⟩) _ _
      (by decide +kernel)) ?_
  exact .single (step_to (.cancel 0) (by decide +kernel))

theorem noopRequest_accepts : Accepts (noopConfig 1 1) (noopRequest 2) (.ofString "noop")
    .RELATIVE (noopNode.registry.head (by simp [noopNode])) :=
  ⟨rfl, rfl, by decide, by decide, by decide, by decide, .inr rfl, [], rfl⟩

/-- The next add is refused, though nothing waits and nothing runs. -/
theorem no_space_iff_full_cancelled :
    ((cancelledEntry.queue.add (noopConfig 1 1) 2 (noopRequest 2) none 0).outcome = some .ENOSPC ↔
      ∀ a ∈ cancelledEntry.queue.slots, a.used = true) ∧
    ((∀ a ∈ cancelledEntry.queue.slots, a.used = true) ↔ cancelledEntry.accepted = 1) := by
  refine no_space_iff_full cancelledEntry_run (by simp) noopRequest_accepts rfl fun a ha hl => ?_
  obtain rfl := List.mem_singleton.1 ha
  cases hl

/-- A cancelled entry takes the last slot of the queue. -/
theorem finished_entry_blocks : ¬ ∀ (cfg : Config Unit) (latencyS : ℕ) (clock : ℤ)
    (es : List SchedEvent) (s : Sched) (r : Request) (utc : Option ℤ) (line : CString)
    (kind : TimeKind) (d : Definition Unit),
    Run (SchedStep cfg) (Sched.boot cfg latencyS clock) es s → .clear ∉ es →
      Accepts cfg r line kind d → clockGate kind r.time utc s.queue.latencyS = none →
      (s.queue.add cfg (s.accepted + 1) r utc s.clock).outcome = some .ENOSPC →
      ∀ a ∈ s.queue.slots, a.live = true := by
  intro h
  have hlive := h _ _ _ _ _ (noopRequest 2) none _ _ _ cancelledEntry_run (by simp)
    noopRequest_accepts rfl (by decide +kernel) _ (List.mem_singleton_self _)
  cases hlive

end KfswServices.Fbo
