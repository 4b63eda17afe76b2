/-
# The ring of recorded events

`src/event/event.c`.  Events are recorded in a ring, under a spinlock; a full ring loses its oldest
record.  The ring holds the last of the records that came, and these are numbered in the order in
which they came (`RingInv`).
-/

import KfswServices.Event.Record
import KfswServices.Library.Ring

namespace KfswServices.Event

open Library

/-- `CONFIG_KFSW_EVENT_RING_DEPTH`. -/
structure Build where
  ringDepth : ℕ
  ringDepth_range : 8 ≤ ringDepth ∧ ringDepth ≤ 256

/-- The statics of `event.c`. -/
structure State where
  ring : ℕ → Record
  nextSequence : UInt32
  recordedCount : UInt32
  rejectedCount : UInt32
  overwrittenCount : UInt32
  heldCount : ℕ
  oldestIndex : ℕ

/-- A record of zeros. -/
def Record.zero : Record := ⟨0, 0, 0, 0, 0, []⟩

/-- The state at the reset. -/
def State.reset : State := ⟨fun _ => .zero, 0, 0, 0, 0, 0, 0⟩

/-- The sources of `source_is_known`. -/
def knownSources : List Source := [.BOOT, .COMMAND, .FTP, .APP, .FBO, .GNDWDT, .RESMON]

/-- `source_is_known`. -/
def sourceIsKnown (source : UInt32) : Bool :=
  knownSources.any fun s => s.toUInt16.toUInt32 = source

/-- The arguments of `kfsw_event_emit`, and the time.  A null pointer with a size is no payload;
without a size the payload is empty. -/
structure Emission where
  source : UInt32
  id : UInt16
  severity : UInt32
  payload : Option (List UInt8)
  monotonicUs : UInt64

/-- The checks of `kfsw_event_emit`, and the payload. -/
def Emission.admitted (e : Emission) : Option (List UInt8) :=
  if !sourceIsKnown e.source || e.severity > Severity.CRITICAL.toByte.toUInt32 then none
  else e.payload.filter fun payload => payload.length ≤ maxPayloadSize

/-- The record of an event. -/
def Emission.record (e : Emission) (sequence : UInt32) (payload : List UInt8) : Record :=
  ⟨e.monotonicUs, sequence, e.source.toUInt16, e.id, e.severity.toUInt8, payload⟩

/-- A record goes into the ring. -/
def State.put (b : Build) (s : State) (r : Record) : State :=
  { s with
    ring := Function.update s.ring ((s.oldestIndex + s.heldCount) % b.ringDepth) r
    overwrittenCount :=
      if s.heldCount = b.ringDepth then s.overwrittenCount + 1 else s.overwrittenCount
    oldestIndex :=
      if s.heldCount = b.ringDepth then (s.oldestIndex + 1) % b.ringDepth else s.oldestIndex
    heldCount := if s.heldCount = b.ringDepth then s.heldCount else s.heldCount + 1
    nextSequence := s.nextSequence + 1
    recordedCount := s.recordedCount + 1 }

/-- `kfsw_event_emit`, with the copy that it hands to `kfsw_journal_submit`. -/
def emit (b : Build) (e : Emission) (s : State) : Option Record × State :=
  match e.admitted with
  | none => (none, { s with rejectedCount := s.rejectedCount + 1 })
  | some payload =>
    (some (e.record s.nextSequence payload), s.put b (e.record s.nextSequence payload))

/-- What `kfsw_event_visit` copies at a place. -/
def copyAt (b : Build) (index : ℕ) (s : State) : Option Record :=
  if index ≥ s.heldCount then none else some (s.ring ((s.oldestIndex + index) % b.ringDepth))

/-- `kfsw_event_get`. -/
def get (b : Build) (age : ℕ) (s : State) : Except Errno Record :=
  if age ≥ s.heldCount then .error .ENOENT
  else .ok (s.ring ((s.oldestIndex + s.heldCount - 1 - age) % b.ringDepth))

/-- `kfsw_event_clear`. -/
def clear (s : State) : State := { s with heldCount := 0, oldestIndex := 0 }

/-! ### The ring -/

/-- A place that is counted from the oldest record, as an age. -/
theorem ageSlot_oldest {cap oldest held index : ℕ} (h : index < held) (hle : held ≤ cap) :
    ageSlot cap ((oldest + held) % cap) (held - 1 - index) = (oldest + index) % cap := by
  unfold ageSlot
  rw [show (oldest + held) % cap + cap - 1 - (held - 1 - index) =
      (oldest + held) % cap + (cap - held + index) by omega, Nat.mod_add_mod,
    show oldest + held + (cap - held + index) = oldest + index + cap by omega, Nat.add_mod_right]

/-- The ring holds the last records of all that were recorded; these are numbered as they came. -/
structure RingInv (b : Build) (log : List Record) (s : State) : Prop where
  holds : Holds b.ringDepth s.ring s.heldCount ((s.oldestIndex + s.heldCount) % b.ringDepth)
    (log.reverse.take s.heldCount)
  oldest_lt : s.oldestIndex < b.ringDepth
  next : s.nextSequence = UInt32.ofNat log.length
  numbered : ∀ n r, log[n]? = some r → r.sequence = UInt32.ofNat n

variable {b : Build}

theorem ringInv_reset (b : Build) : RingInv b [] State.reset := by
  have hrange := b.ringDepth_range
  refine ⟨?_, by show 0 < _; omega, rfl, fun n r h => by simp at h⟩
  rw [show (State.reset.oldestIndex + State.reset.heldCount) % b.ringDepth = 0 from Nat.zero_mod _]
  exact Holds.nil (by omega) _

variable {log : List Record}

section

variable {s : State} (h : RingInv b log s)
include h

theorem RingInv.held_le : s.heldCount ≤ log.length := by
  have hlen := h.holds.length
  rw [List.length_take, List.length_reverse] at hlen
  omega

/-- **What is copied** at a place is the record of that number. -/
theorem RingInv.copyAt (index : ℕ) :
    copyAt b index s =
      if index < s.heldCount then log[log.length - s.heldCount + index]? else none := by
  have hheld := h.held_le
  unfold Event.copyAt
  by_cases hlt : index < s.heldCount
  · rw [if_neg (not_le.2 hlt), if_pos hlt]
    have hn : log.length - s.heldCount + index < log.length := by omega
    have hage : (log.reverse.take s.heldCount)[s.heldCount - 1 - index]? =
        some (log[log.length - s.heldCount + index]) := by
      rw [List.getElem?_take_of_lt (by omega), List.getElem?_reverse (by omega),
        List.getElem?_eq_getElem (by omega)]
      congr 2
      omega
    rw [List.getElem?_eq_getElem hn, ← ageSlot_oldest hlt h.holds.held_le, h.holds.get _ _ hage]
  · rw [if_pos (not_lt.1 hlt), if_neg hlt]

/-- **The newest record** is the last one. -/
theorem RingInv.get_zero {r : Record}
    (hlast : log.getLast? = some r) (hpos : 0 < s.heldCount) : get b 0 s = .ok r := by
  have hheld := h.held_le
  unfold get
  rw [if_neg (by omega), Nat.sub_zero]
  have hcopy := h.copyAt (s.heldCount - 1)
  unfold Event.copyAt at hcopy
  rw [if_neg (by omega), if_pos (by omega),
    show log.length - s.heldCount + (s.heldCount - 1) = log.length - 1 by omega,
    ← List.getLast?_eq_getElem?, hlast,
    show s.oldestIndex + (s.heldCount - 1) = s.oldestIndex + s.heldCount - 1 by omega] at hcopy
  exact congrArg Except.ok (Option.some.inj hcopy)

/-- **A record that is put into the ring** is the last one. -/
theorem RingInv.put {r : Record}
    (hr : r.sequence = s.nextSequence) : RingInv b (log ++ [r]) (s.put b r) := by
  have hheld := h.holds.held_le
  have hlt := h.oldest_lt
  refine ⟨?_, ?_, ?_, fun n x hx => ?_⟩
  · have hnext : ((s.put b r).oldestIndex + (s.put b r).heldCount) % b.ringDepth =
        ((s.oldestIndex + s.heldCount) % b.ringDepth + 1) % b.ringDepth := by
      unfold State.put
      dsimp only
      rw [Nat.mod_add_mod]
      by_cases hfull : s.heldCount = b.ringDepth
      · rw [if_pos hfull, if_pos hfull, Nat.mod_add_mod, hfull]
        congr 1
        omega
      · rw [if_neg hfull, if_neg hfull, Nat.add_assoc]
    have hitems : (r :: log.reverse.take s.heldCount).take b.ringDepth =
        (log ++ [r]).reverse.take (s.put b r).heldCount := by
      rw [List.reverse_append, List.reverse_singleton, List.singleton_append]
      unfold State.put
      dsimp only
      obtain ⟨d, hd⟩ : ∃ d, b.ringDepth = d + 1 := ⟨b.ringDepth - 1, by omega⟩
      by_cases hfull : s.heldCount = b.ringDepth
      · rw [if_pos hfull, hfull, hd, List.take_succ_cons, List.take_succ_cons, List.take_take,
          Nat.min_eq_left (Nat.le_succ d)]
      · rw [if_neg hfull, hd, List.take_succ_cons, List.take_succ_cons, List.take_take,
          Nat.min_eq_right (by omega)]
    have hpush := h.holds.push r
    rw [hitems, ← hnext] at hpush
    exact hpush
  · unfold State.put
    dsimp only
    split_ifs
    · exact Nat.mod_lt _ (by omega)
    · exact hlt
  · show s.nextSequence + 1 = _
    rw [h.next, List.length_append, List.length_singleton, UInt32.ofNat_add]
    rfl
  · rcases Nat.lt_or_ge n log.length with hn | hn
    · rw [List.getElem?_append_left hn] at hx
      exact h.numbered n x hx
    · rw [List.getElem?_append_right hn] at hx
      obtain ⟨hi, hget⟩ := List.getElem?_eq_some_iff.1 hx
      have hzero : n - log.length = 0 := by simpa using hi
      rw [List.getElem_singleton] at hget
      rw [← hget, hr, h.next, show n = log.length by omega]

/-- Clearing the ring. -/
theorem RingInv.clear : RingInv b log (clear s) := by
  have hrange := b.ringDepth_range
  refine ⟨?_, by show 0 < _; omega, h.next, h.numbered⟩
  rw [show ((Event.clear s).oldestIndex + (Event.clear s).heldCount) % b.ringDepth = 0 from
    Nat.zero_mod _]
  exact Holds.nil (by omega) _

end

end KfswServices.Event
