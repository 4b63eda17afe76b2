/-
# The beacons

`kfsw_hk_beacon_tick` of `src/hk/hk_beacon.c`.  A beacon gives up its slot before it is known whether
there are a sample and a buffer for it, and its next slot lies after the tick.  So however the ticks
come, while its settings stay, a report is not sent more often than its interval says, whatever was
skipped in between (`beacons_spaced`).
-/

import KfswServices.Hk.Schedule
import KfswServices.Hk.Settings

namespace KfswServices.Hk

open Library

/-- What becomes of a tick. -/
inductive Beaconed
  | early
  | noSample
  | skipped
  | sent (node : UInt16) (data : List UInt8)

variable {b : Build} {index : UInt8} {r s t u : State b} {e : Option (ℤ × Beaconed)}
  {es : List (Option (ℤ × Beaconed))}

/-- A beacon that has given up its slot. -/
def Beacon.advance (beacon : Beacon b) (now : ℤ) : Beacon b :=
  { beacon with nextUptimeMs := nextDue beacon.nextUptimeMs beacon.interval.ms now }

/-- `kfsw_hk_beacon_tick`, with the newest sample, if there is one, and whether a buffer can be had
that is not of the reserve. -/
def beaconTick (index : UInt8) (now : ℤ) (sample : Option (List UInt8)) (buffer : Bool)
    (s : State b) : Beaconed × State b :=
  let beacon := s.beacons index
  if b.reports ≤ index.toNat ∨ beacon.interval.ms = 0 ∨ now < beacon.nextUptimeMs then (.early, s)
  else
    let s := { s with beacons := Function.update s.beacons index (beacon.advance now) }
    match sample with
    | none => (.noSample, s)
    | some data => if buffer then (.sent beacon.node data, s) else (.skipped, s)

/-- A tick of the report, or something else that leaves its beacon. -/
inductive BeaconStep (index : UInt8) : State b → Option (ℤ × Beaconed) → State b → Prop
  | tick {s : State b} (now : ℤ) (sample : Option (List UInt8)) (buffer : Bool) :
      BeaconStep index s (some (now, (beaconTick index now sample buffer s).1))
        (beaconTick index now sample buffer s).2
  | other {s s' : State b} (h : s'.beacons index = s.beacons index) : BeaconStep index s none s'

/-- The step has sent the report. -/
def isSend : Option (ℤ × Beaconed) → Bool
  | some (_, .sent _ _) => true
  | _ => false

/-- The times of the ticks are in the range of an uptime. -/
def TickInRange (ms : UInt32) (e : Option (ℤ × Beaconed)) : Prop :=
  ∀ x, e = some x → x.1 + ms.toNat < 2 ^ 63

/-- What a step does to the beacon: it stays, or it gives up a slot that has come. -/
theorem BeaconStep.cases (h : BeaconStep index s e t) :
    isSend e = false ∧ t.beacons index = s.beacons index ∨
      ∃ now x, e = some (now, x) ∧ (s.beacons index).interval.ms ≠ 0 ∧
        (s.beacons index).nextUptimeMs ≤ now ∧ t.beacons index = (s.beacons index).advance now := by
  cases h with
  | other h => exact .inl ⟨rfl, h⟩
  | tick now sample buffer =>
    unfold beaconTick
    dsimp only
    by_cases hearly : b.reports ≤ index.toNat ∨ (s.beacons index).interval.ms = 0 ∨
        now < (s.beacons index).nextUptimeMs
    · rw [if_pos hearly]
      exact .inl ⟨rfl, rfl⟩
    · obtain ⟨-, hms, hnow⟩ : _ ∧ _ ∧ _ := by simpa only [not_or] using hearly
      rw [if_neg hearly]
      refine .inr ⟨now, _, rfl, hms, not_lt.1 hnow, ?_⟩
      cases sample with
      | none => exact Function.update_self ..
      | some data => cases buffer <;> exact Function.update_self ..

/-- **The next slot** lies after the tick, and an interval after the slot at least. -/
theorem advance_spec {beacon : Beacon b} {now : ℤ} (hnonneg : 0 ≤ beacon.nextUptimeMs)
    (hms : beacon.interval.ms ≠ 0) (hnow : beacon.nextUptimeMs ≤ now)
    (hrange : now + beacon.interval.ms.toNat < 2 ^ 63) : now < (beacon.advance now).nextUptimeMs ∧
      beacon.nextUptimeMs + beacon.interval.ms.toNat ≤ (beacon.advance now).nextUptimeMs := by
  obtain ⟨hnext, hafter, -⟩ := nextDue_eq hnonneg hnow hrange hms
  have hpos := Int.natCast_nonneg beacon.interval.ms.toNat
  have hquot := Int.ediv_nonneg (sub_nonneg.2 hnow) hpos
  have hslots := Int.mul_nonneg hquot hpos
  unfold Beacon.advance
  dsimp only
  rw [hnext]
  refine ⟨hafter, ?_⟩
  rw [add_one_mul]
  omega

/-- After some sends, the next slot. -/
structure Spaced (index : UInt8) (s : State b) (es : List (Option (ℤ × Beaconed))) (t : State b) :
    Prop where
  interval : (t.beacons index).interval = (s.beacons index).interval
  nonneg : 0 ≤ (t.beacons index).nextUptimeMs
  next : (s.beacons index).nextUptimeMs +
    es.countP isSend * ((s.beacons index).interval.ms.toNat : ℤ) ≤ (t.beacons index).nextUptimeMs

/-- **One step.** -/
theorem Spaced.step (h : Spaced index s es t) (hs : BeaconStep index t e u)
    (hrange : TickInRange (s.beacons index).interval.ms e) : Spaced index s (es ++ [e]) u := by
  have hnext := h.next
  rcases hs.cases with ⟨hquiet, hsame⟩ | ⟨now, x, rfl, hms, hnow, hadvanced⟩
  · refine ⟨by rw [hsame, h.interval], by rw [hsame]; exact h.nonneg, ?_⟩
    rw [List.countP_append, List.countP_singleton, hquiet, hsame]
    exact hnext
  · have hinterval := h.interval
    obtain ⟨-, hlater⟩ := advance_spec h.nonneg hms hnow (by rw [hinterval]; exact hrange _ rfl)
    have hnonneg := h.nonneg
    rw [hinterval] at hlater
    refine ⟨by rw [hadvanced]; exact hinterval, by rw [hadvanced]; omega, ?_⟩
    rw [List.countP_append, List.countP_singleton, hadvanced]
    split_ifs
    · push_cast
      rw [add_one_mul]
      omega
    · rw [Nat.add_zero]
      omega

/-- **Beacons keep their distance.**  If a report is sent, and some times more, and once again, with
its settings unchanged, then an interval has gone by for each of the times in between. -/
theorem beacons_spaced {first last : ℤ} {m n : UInt16} {x y : List UInt8}
    (hfirst : BeaconStep index r (some (first, .sent m x)) s)
    (hnonneg : 0 ≤ (r.beacons index).nextUptimeMs) (hr : Run (BeaconStep index) s es t)
    (hlast : BeaconStep index t (some (last, .sent n y)) u)
    (hrange : ∀ e ∈ some (first, .sent m x) :: es, TickInRange (r.beacons index).interval.ms e) :
    first + es.countP isSend * ((r.beacons index).interval.ms.toNat : ℤ) < last := by
  obtain ⟨hquiet, -⟩ | ⟨_, _, ⟨⟩, hms, hnow, hadvanced⟩ := hfirst.cases
  · cases hquiet
  obtain ⟨hquiet, -⟩ | ⟨_, _, ⟨⟩, -, hdue, -⟩ := hlast.cases
  · cases hquiet
  obtain ⟨hafter, -⟩ := advance_spec hnonneg hms hnow (hrange _ (List.mem_cons_self ..) _ rfl)
  rw [← hadvanced] at hafter
  have hinterval : (s.beacons index).interval = (r.beacons index).interval := by
    rw [hadvanced]
    rfl
  have hspaced : Spaced index s es t := by
    have hstart : Spaced index s [] s := ⟨rfl, by omega, by simp⟩
    refine (hr.restrict fun e he => hrange e (List.mem_cons_of_mem _ he)).invariant hstart ?_
    exact fun _ _ _ _ h hs => h.step hs.1 (hinterval ▸ hs.2)
  have hnext := hspaced.next
  rw [hinterval] at hnext
  omega

/-- A report of `smallBuild` that is sent to node 2 every second. -/
def sentState : State smallBuild := ((State.reset smallBuild).setBeaconImpl 0 2 1000).2

/-- What goes on after it was sent: it is sent again, another report is, and a tick has no buffer. -/
def beaconEvents : List (Option (ℤ × Beaconed)) :=
  [some (1000, .sent 2 [8]), none, some (2000, .skipped)]

/-- From the tick after 5 ms to that after 3 s there are the intervals of the send in between. -/
theorem beacons_spaced_second :
    (5 : ℤ) + (beaconEvents.countP isSend : ℕ) * ((sentState.beacons 0).interval.ms.toNat : ℤ) <
      3000 ∧ beaconEvents.countP isSend = 1 := by
  have hticks (s : State smallBuild) (now : ℤ) (x : List UInt8) (buffer : Bool) (result : Beaconed)
      (h : (beaconTick 0 now (some x) buffer s).1 = result) : BeaconStep 0 s
        (some (now, result)) (beaconTick 0 now (some x) buffer s).2 :=
    h ▸ .tick now (some x) buffer
  have hms : (sentState.beacons 0).interval.ms = 1000 := rfl
  have hrun : Run (BeaconStep 0) _ beaconEvents _ :=
    (((Run.nil (beaconTick 0 5 (some [7]) true sentState).2).snoc
      (hticks _ 1000 [8] true (.sent 2 [8]) rfl)).snoc (.other rfl)).snoc
        (hticks _ 2000 [9] false .skipped rfl)
  exact ⟨beacons_spaced (hticks sentState 5 [7] true (.sent 2 [7]) rfl) (by decide) hrun
    (hticks _ 3000 [10] true (.sent 2 [10]) rfl) (by simp [TickInRange, beaconEvents, hms]),
    by decide⟩

end KfswServices.Hk
