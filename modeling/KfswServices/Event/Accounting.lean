/-
# The accounts of the ring

The slots of the ring of `src/event/event.c` as they stand in memory, with the bytes behind a
payload, under any calls of `kfsw_event_emit` and `kfsw_event_clear`.

An event that is accepted is held, was overwritten, or was discarded by a clear, and the counters
say how many there are of each; what is read at an age is the event that was accepted so many before
the last one (`ring_accounts`).
-/

import KfswServices.Event.Visit
import KfswServices.Library.Splice
import Mathlib.Data.List.Induction

namespace KfswServices.Event

open Library
open Function (update update_of_ne update_self)

/-! ### The slots -/

/-- `struct kfsw_event_record`, with the whole of its payload. -/
structure Slot where
  monotonicUs : UInt64
  sequence : UInt32
  source : UInt16
  id : UInt16
  severity : UInt8
  payloadSize : UInt8
  payload : List UInt8
  deriving DecidableEq

/-- A record as it stands in a slot: its payload, and zeros up to the end. -/
def Record.slot (r : Record) : Slot :=
  ⟨r.monotonicUs, r.sequence, r.source, r.id, r.severity, UInt8.ofNat r.payload.length,
    r.payload ++ List.replicate (maxPayloadSize - r.payload.length) 0⟩

/-- What `kfsw_event_emit` does to a slot: `memcpy` of the payload over what was there, and `memset`
of what is behind it. -/
def Slot.fill (slot : Slot) (r : Record) : Slot :=
  { monotonicUs := r.monotonicUs
    sequence := r.sequence
    source := r.source
    id := r.id
    severity := r.severity
    payloadSize := UInt8.ofNat r.payload.length
    payload := splice 0 (splice 0 slot.payload 0 r.payload) r.payload.length
      (List.replicate (maxPayloadSize - r.payload.length) 0) }

/-- **Nothing is left** of what a slot had before. -/
theorem Slot.fill_eq {slot : Slot} {r : Record} (hslot : slot.payload.length = maxPayloadSize)
    (hr : r.payload.length ≤ maxPayloadSize) : slot.fill r = r.slot := by
  have hsplice := splice_splice_append 0 slot.payload 0 r.payload
    (List.replicate (maxPayloadSize - r.payload.length) 0)
  have hlen : (r.payload ++ List.replicate (maxPayloadSize - r.payload.length) (0 : UInt8)).length =
      maxPayloadSize := by
    rw [List.length_append, List.length_replicate]
    omega
  rw [Nat.zero_add] at hsplice
  unfold Slot.fill Record.slot
  rw [hsplice, splice, List.take_zero, Nat.zero_sub, List.replicate_zero, List.nil_append,
    List.nil_append, Nat.zero_add, hlen, List.drop_of_length_le hslot.le, List.append_nil]

/-- The statics of `event.c`, with the slots. -/
structure Memory where
  state : State
  slots : ℕ → Slot

/-- The memory at the reset. -/
def Memory.reset : Memory := ⟨.reset, fun _ => Record.zero.slot⟩

/-- `kfsw_event_emit`, on the slots. -/
def Memory.emit (b : Build) (e : Emission) (m : Memory) : Memory :=
  match Event.emit b e m.state with
  | (none, s) => ⟨s, m.slots⟩
  | (some r, s) =>
    let writeIndex := (m.state.oldestIndex + m.state.heldCount) % b.ringDepth
    ⟨s, update m.slots writeIndex ((m.slots writeIndex).fill r)⟩

/-- `kfsw_event_clear`, which leaves the slots. -/
def Memory.clear (m : Memory) : Memory := ⟨Event.clear m.state, m.slots⟩

/-- `kfsw_event_get`, from the slots. -/
def Memory.get (b : Build) (age : ℕ) (m : Memory) : Except Errno Slot :=
  if age ≥ m.state.heldCount then .error .ENOENT
  else .ok (m.slots ((m.state.oldestIndex + m.state.heldCount - 1 - age) % b.ringDepth))

/-! ### Calls -/

/-- A call that changes the ring. -/
inductive Call
  | emit (e : Emission)
  | clear

/-- What it does. -/
def Call.apply (b : Build) (m : Memory) : Call → Memory
  | .emit e => m.emit b e
  | .clear => m.clear

/-- The event that it has accepted, with its payload. -/
def Call.accepted : Call → Option (Emission × List UInt8)
  | .emit e => e.admitted.map fun payload => (e, payload)
  | .clear => none

/-- The events that are accepted. -/
def accepted (calls : List Call) : List (Emission × List UInt8) := calls.filterMap Call.accepted

/-- The records that the clears discard. -/
def discarded (b : Build) : Memory → List Call → ℕ
  | _, [] => 0
  | m, .emit e :: calls => discarded b (m.emit b e) calls
  | m, .clear :: calls => m.state.heldCount + discarded b m.clear calls

/-- The memory after some calls. -/
def afterCalls (b : Build) (calls : List Call) : Memory := calls.foldl (Call.apply b) .reset

theorem afterCalls_concat (b : Build) (calls : List Call) (call : Call) :
    afterCalls b (calls ++ [call]) = call.apply b (afterCalls b calls) := by
  unfold afterCalls
  rw [List.foldl_append]
  rfl

theorem discarded_append (b : Build) (m : Memory) (calls more : List Call) :
    discarded b m (calls ++ more) =
      discarded b m calls + discarded b (calls.foldl (Call.apply b) m) more := by
  induction calls generalizing m with
  | nil => exact (Nat.zero_add _).symm
  | cons call calls ih =>
    cases call with
    | emit e => exact ih _
    | clear =>
      show m.state.heldCount + discarded b m.clear (calls ++ more) = _
      rw [ih, ← Nat.add_assoc]
      rfl

/-! ### The invariant -/

variable {b : Build}

/-- The record of an event that was accepted. -/
def recordOf (n : ℕ) (event : Emission × List UInt8) : Record :=
  event.1.record (UInt32.ofNat n) event.2

/-- What holds after some calls: the ring has the last of the events, the slots stand as the ring
says, and the counters count. -/
structure Accounts (b : Build) (calls : List Call) (m : Memory) : Prop where
  ring : RingInv b ((accepted calls).mapIdx recordOf) m.state
  slots : ∀ i, m.slots i = (m.state.ring i).slot
  fits : ∀ i, (m.state.ring i).payload.length ≤ maxPayloadSize
  recorded : m.state.recordedCount = m.state.nextSequence
  balance : m.state.recordedCount = UInt32.ofNat m.state.heldCount + m.state.overwrittenCount +
    UInt32.ofNat (discarded b .reset calls)

theorem accounts_reset (b : Build) : Accounts b [] .reset :=
  ⟨ringInv_reset b, fun _ => rfl, fun _ => Nat.zero_le _, rfl, rfl⟩

/-- The payload of an event that is admitted fits. -/
theorem Emission.admitted_le {e : Emission} {payload : List UInt8} (h : e.admitted = some payload) :
    payload.length ≤ maxPayloadSize := by
  unfold Emission.admitted at h
  split_ifs at h
  exact of_decide_eq_true (Option.filter_eq_some_iff.1 h).2

/-- One more record is held, or one more was overwritten. -/
theorem State.put_balance {s : State} (r : Record) (gone : UInt32)
    (h : s.recordedCount = UInt32.ofNat s.heldCount + s.overwrittenCount + gone) :
    (s.put b r).recordedCount =
      UInt32.ofNat (s.put b r).heldCount + (s.put b r).overwrittenCount + gone := by
  unfold State.put
  dsimp only
  rw [h]
  by_cases hfull : s.heldCount = b.ringDepth
  · rw [if_pos hfull, if_pos hfull]
    ac_rfl
  · rw [if_neg hfull, if_neg hfull, UInt32.ofNat_add]
    have hone : UInt32.ofNat 1 = 1 := rfl
    rw [hone]
    ac_rfl

/-- **An event that is accepted** is held, and what it replaces is overwritten. -/
theorem Accounts.emit {calls : List Call} {m : Memory} (h : Accounts b calls m) (e : Emission) :
    Accounts b (calls ++ [.emit e]) (m.emit b e) := by
  have hdiscarded : discarded b .reset (calls ++ [.emit e]) = discarded b .reset calls := by
    rw [discarded_append]
    rfl
  cases hadmitted : e.admitted with
  | none =>
    have haccepted : accepted (calls ++ [.emit e]) = accepted calls := by
      simp [accepted, Call.accepted, hadmitted]
    have hemit : m.emit b e =
        ⟨{ m.state with rejectedCount := m.state.rejectedCount + 1 }, m.slots⟩ := by
      unfold Memory.emit Event.emit
      rw [hadmitted]
    rw [hemit]
    refine ⟨?_, h.slots, h.fits, h.recorded, ?_⟩
    · rw [haccepted]
      exact ⟨h.ring.holds, h.ring.oldest_lt, h.ring.next, h.ring.numbered⟩
    · rw [hdiscarded]
      exact h.balance
  | some payload =>
    have hfits := Emission.admitted_le hadmitted
    have haccepted : accepted (calls ++ [.emit e]) = accepted calls ++ [(e, payload)] := by
      simp [accepted, Call.accepted, hadmitted]
    have hnext : m.state.nextSequence = UInt32.ofNat (accepted calls).length := by
      rw [h.ring.next, List.length_mapIdx]
    have hemit : m.emit b e = ⟨m.state.put b (recordOf (accepted calls).length (e, payload)),
        update m.slots ((m.state.oldestIndex + m.state.heldCount) % b.ringDepth)
          ((m.slots ((m.state.oldestIndex + m.state.heldCount) % b.ringDepth)).fill
            (recordOf (accepted calls).length (e, payload)))⟩ := by
      unfold Memory.emit Event.emit recordOf
      rw [hadmitted, ← hnext]
    rw [hemit]
    refine ⟨?_, fun i => ?_, fun i => ?_, ?_, ?_⟩
    · rw [haccepted, List.mapIdx_concat]
      exact h.ring.put hnext.symm
    · show update m.slots _ _ i = (update m.state.ring _ _ i).slot
      by_cases hi : i = (m.state.oldestIndex + m.state.heldCount) % b.ringDepth
      · rw [hi, update_self, update_self]
        refine Slot.fill_eq ?_ hfits
        rw [h.slots]
        have hold := h.fits ((m.state.oldestIndex + m.state.heldCount) % b.ringDepth)
        unfold Record.slot
        rw [List.length_append, List.length_replicate]
        omega
      · rw [update_of_ne hi, update_of_ne hi]
        exact h.slots i
    · show (update m.state.ring _ _ i).payload.length ≤ _
      by_cases hi : i = (m.state.oldestIndex + m.state.heldCount) % b.ringDepth
      · rw [hi, update_self]
        exact hfits
      · rw [update_of_ne hi]
        exact h.fits i
    · show m.state.recordedCount + 1 = m.state.nextSequence + 1
      rw [h.recorded]
    · rw [hdiscarded]
      exact State.put_balance _ _ h.balance

/-- **A clear** discards what is held. -/
theorem Accounts.clear {calls : List Call} {m : Memory} (h : Accounts b calls m)
    (hm : m = afterCalls b calls) : Accounts b (calls ++ [.clear]) m.clear := by
  have haccepted : accepted (calls ++ [.clear]) = accepted calls := by
    simp [accepted, Call.accepted]
  refine ⟨?_, h.slots, h.fits, h.recorded, ?_⟩
  · rw [haccepted]
    exact h.ring.clear
  · have hdiscarded : discarded b .reset (calls ++ [.clear]) =
        discarded b .reset calls + m.state.heldCount := by
      rw [discarded_append, hm]
      rfl
    rw [hdiscarded, UInt32.ofNat_add]
    show m.state.recordedCount = UInt32.ofNat 0 + m.state.overwrittenCount + _
    rw [h.balance]
    show _ = 0 + _ + _
    rw [UInt32.zero_add]
    ac_rfl

/-- **After any calls** the accounts are right. -/
theorem accounts (b : Build) (calls : List Call) : Accounts b calls (afterCalls b calls) := by
  induction calls using List.reverseRecOn with
  | nil => exact accounts_reset b
  | append_singleton calls call ih =>
    rw [afterCalls_concat]
    cases call with
    | emit e => exact ih.emit e
    | clear => exact ih.clear rfl

/-- What is read at an age, from the slots. -/
theorem Accounts.get {calls : List Call} {m : Memory} (h : Accounts b calls m) {age : ℕ}
    (hage : age < m.state.heldCount) : ∃ event,
      (accepted calls)[(accepted calls).length - 1 - age]? = some event ∧
        m.get b age = .ok (recordOf ((accepted calls).length - 1 - age) event).slot := by
  have hheld := h.ring.held_le
  have hcopy := h.ring.copyAt (m.state.heldCount - 1 - age)
  rw [List.length_mapIdx] at hheld
  rw [copyAt, if_neg (by omega), if_pos (by omega), List.length_mapIdx,
    show (accepted calls).length - m.state.heldCount + (m.state.heldCount - 1 - age) =
      (accepted calls).length - 1 - age by omega, List.getElem?_mapIdx,
    show m.state.oldestIndex + (m.state.heldCount - 1 - age) =
      m.state.oldestIndex + m.state.heldCount - 1 - age by omega] at hcopy
  obtain ⟨event, hevent, hrecord⟩ := Option.map_eq_some_iff.1 hcopy.symm
  refine ⟨event, hevent, ?_⟩
  unfold Memory.get
  rw [if_neg (not_le.2 hage), h.slots, hrecord]

/-- **The accounts of the ring.**  After any calls of `kfsw_event_emit` and `kfsw_event_clear`: the
events recorded are those held, overwritten and discarded by the clears, modulo `2 ^ 32`, and their
number is the next sequence number.  At every age below the number held `kfsw_event_get` gives the
event that was accepted so many before the last one, with its sequence, source, id, severity and
payload, and zeros behind it; at every other age `-ENOENT`. -/
theorem ring_accounts (b : Build) (calls : List Call) :
    let m := afterCalls b calls
    m.state.recordedCount = UInt32.ofNat m.state.heldCount + m.state.overwrittenCount +
        UInt32.ofNat (discarded b .reset calls) ∧
      m.state.recordedCount = m.state.nextSequence ∧
      m.state.nextSequence = UInt32.ofNat (accepted calls).length ∧
      m.state.heldCount ≤ (accepted calls).length ∧
      (∀ age < m.state.heldCount, ∃ e payload,
        (accepted calls)[(accepted calls).length - 1 - age]? = some (e, payload) ∧ m.get b age = .ok
          { monotonicUs := e.monotonicUs
            sequence := m.state.nextSequence - 1 - UInt32.ofNat age
            source := e.source.toUInt16
            id := e.id
            severity := e.severity.toUInt8
            payloadSize := UInt8.ofNat payload.length
            payload := payload ++ List.replicate (maxPayloadSize - payload.length) 0 }) ∧
      ∀ age, m.state.heldCount ≤ age → m.get b age = .error .ENOENT := by
  have h := accounts b calls
  have hnext := h.ring.next
  have hheld := h.ring.held_le
  rw [List.length_mapIdx] at hnext hheld
  refine ⟨h.balance, h.recorded, hnext, hheld, fun age hage => ?_, fun age hage => if_pos hage⟩
  obtain ⟨⟨e, payload⟩, hevent, hget⟩ := h.get hage
  refine ⟨e, payload, hevent, ?_⟩
  have hsequence : (afterCalls b calls).state.nextSequence - 1 - UInt32.ofNat age =
      UInt32.ofNat ((accepted calls).length - 1 - age) := by
    rw [hnext, UInt32.ofNat_sub (by omega), UInt32.ofNat_sub (by omega)]
    rfl
  rw [hget, hsequence]
  rfl

/-- An event of the application with this id. -/
def emissionWith (id : UInt16) : Emission := ⟨4, id, 1, some [1, 2], 0⟩

/-- Nine events, a clear, and two more. -/
def elevenEvents : List Call :=
  ([1, 2, 3, 4, 5, 6, 7, 8, 9].map fun id => .emit (emissionWith id)) ++
    [.clear, .emit (emissionWith 10), .emit (emissionWith 11)]

/-- One is overwritten, eight are discarded and two are held: the tenth is read at age 1. -/
theorem ring_accounts_eleven :
    let m := afterCalls smallBuild elevenEvents
    m.state.recordedCount = 2 + 1 + 8 ∧ m.state.heldCount = 2 ∧ m.state.overwrittenCount = 1 ∧
      discarded smallBuild .reset elevenEvents = 8 ∧
      m.get smallBuild 1 = .ok ⟨0, 9, 4, 10, 1, 2, [1, 2] ++ List.replicate 14 0⟩ := by
  obtain ⟨hbalance, -, -, -, hget, -⟩ := ring_accounts smallBuild elevenEvents
  obtain ⟨e, payload, hevent, hslot⟩ := hget 1 (by decide)
  obtain ⟨rfl, rfl⟩ := Prod.mk.inj (Option.some.inj hevent)
  exact ⟨hbalance, by decide, by decide, by decide, hslot⟩

end KfswServices.Event
