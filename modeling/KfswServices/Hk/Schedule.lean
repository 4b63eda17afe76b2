/-
# The schedule of a report

`kfsw_hk_schedule_take` hands out a report that is due, and `kfsw_hk_schedule_finish`, when it has
been collected, counts the slots that went by and sets the next one.  Whatever happens in between,
as long as the settings stay as they are, the slots of a report are the instants of a grid: one
after the other, each of them attempted or missed, and the next one lies after the last finish
(`schedule_accounts`).
-/

import KfswServices.Hk.Report
import KfswServices.Library.Run
import Mathlib.Data.Int.ModEq
import Mathlib.Data.List.Nodup
import Mathlib.Tactic.Ring
import Mathlib.Tactic.Linarith

namespace KfswServices.Hk

open Library

variable {b : Build}

/-- `struct kfsw_hk_due`. -/
structure Due where
  revision : UInt64
  uptimeMs : ℤ
  periodMs : UInt32

/-- `kfsw_hk_next_due`. -/
def nextDue (due : ℤ) (period : UInt32) (now : ℤ) : ℤ :=
  int64 (due + ((int64 (now - due)).tdiv period.toNat + 1) * period.toNat)

/-- `kfsw_hk_schedule_take`. -/
def scheduleTake (index : UInt8) (now : ℤ) (s : State b) : Option Due × State b :=
  let report := s.reports index
  if s.initialized ∧ !s.restoring ∧ s.enabled ∧ index.toNat < b.reports ∧
      report.definition.isSome ∧ report.period.ms ≠ 0 ∧ now ≥ report.nextUptimeMs then
    (some ⟨s.scheduleRevisions index, report.nextUptimeMs, report.period.ms⟩,
      { s with stats := { s.stats with scheduledAttempts := s.stats.scheduledAttempts + 1 } })
  else (none, s)

/-- The slots that `kfsw_hk_schedule_finish` finds missed; the difference is taken as `uint64_t`. -/
def missedSlots (due : Due) (now : ℤ) : ℕ :=
  ((max now due.uptimeMs - due.uptimeMs) % 2 ^ 64).toNat / due.periodMs.toNat

/-- `kfsw_hk_schedule_finish`. -/
def scheduleFinish (index : UInt8) (due : Due) (now : ℤ) (s : State b) : State b :=
  let missed := min (missedSlots due now) (2 ^ 32 - 1 - s.stats.missedSlots.toNat)
  let s := { s with
    stats := { s.stats with missedSlots := s.stats.missedSlots + UInt32.ofNat missed } }
  let report := s.reports index
  if s.enabled ∧ index.toNat < b.reports ∧ report.definition.isSome ∧ report.period.ms ≠ 0 ∧
      s.scheduleRevisions index = due.revision then
    s.setReport index { report with
      nextUptimeMs := nextDue due.uptimeMs due.periodMs (max now due.uptimeMs) }
  else s

/-! ### What a slot is -/

/-- A report has been taken and finished. -/
structure Pair where
  index : UInt8
  due : Due
  finished : ℤ

/-- The instants that a pair accounts for: the first is attempted, the others are missed. -/
def Pair.instants (p : Pair) : List ℤ :=
  (List.range (missedSlots p.due p.finished + 1)).map fun j : ℕ =>
    p.due.uptimeMs + j * p.due.periodMs.toNat

/-- What goes on besides leaves the settings and the schedule as they are. -/
structure Quiet (s s' : State b) : Prop where
  enabled : s'.enabled = s.enabled
  definition : ∀ index, (s'.reports index).definition.isSome = (s.reports index).definition.isSome
  period : ∀ index, (s'.reports index).period = (s.reports index).period
  nextUptimeMs : ∀ index, (s'.reports index).nextUptimeMs = (s.reports index).nextUptimeMs
  scheduleRevisions : s'.scheduleRevisions = s.scheduleRevisions
  scheduledAttempts : s'.stats.scheduledAttempts = s.stats.scheduledAttempts
  missedSlots : s'.stats.missedSlots = s.stats.missedSlots

/-- A step of a run: something else, or a report is taken, collected and finished, later. -/
inductive ScheduleStep : State b → Option Pair → State b → Prop
  | other {s s' : State b} (h : Quiet s s') : ScheduleStep s none s'
  | pair {s s₁ s₂ : State b} {index : UInt8} {taken finished : ℤ} {due : Due}
      (htake : scheduleTake index taken s = (some due, s₁)) (hquiet : Quiet s₁ s₂)
      (hle : taken ≤ finished) :
      ScheduleStep s (some ⟨index, due, finished⟩) (scheduleFinish index due finished s₂)

/-- The pairs of a run. -/
def pairs (es : List (Option Pair)) : List Pair := es.filterMap id

/-- The pairs of a report. -/
def pairsOf (index : UInt8) (es : List (Option Pair)) : List Pair :=
  (pairs es).filter (·.index = index)

/-- The instants of a report, as its pairs account for them. -/
def instantsOf (index : UInt8) (es : List (Option Pair)) : List ℤ :=
  (pairsOf index es).flatMap Pair.instants

/-- The slots that some pairs miss. -/
def missedBy (ps : List Pair) : ℕ := (ps.map fun p => missedSlots p.due p.finished).sum

variable {index : UInt8} {s : State b}

/-- What a step does to the schedule of a report. -/
theorem scheduleTake_some {now : ℤ} {s₁ : State b} {due : Due}
    (h : scheduleTake index now s = (some due, s₁)) :
    s.enabled = true ∧ index.toNat < b.reports ∧ (s.reports index).definition.isSome = true ∧
      (s.reports index).period.ms ≠ 0 ∧ (s.reports index).nextUptimeMs ≤ now ∧
      due = ⟨s.scheduleRevisions index, (s.reports index).nextUptimeMs,
        (s.reports index).period.ms⟩ ∧
      s₁ = { s with
        stats := { s.stats with scheduledAttempts := s.stats.scheduledAttempts + 1 } } := by
  unfold scheduleTake at h
  dsimp only at h
  split_ifs at h with hready
  swap
  · cases h
  obtain ⟨-, -, henabled, hindex, hdefined, hperiod, hdue⟩ := hready
  obtain ⟨hdue', hs⟩ := Prod.mk.inj h
  exact ⟨henabled, hindex, hdefined, hperiod, hdue, (Option.some.inj hdue').symm, hs.symm⟩

/-- An `int64_t` that is in range. -/
theorem int64_of_range {x : ℤ} (hlow : -2 ^ 63 ≤ x) (hhigh : x < 2 ^ 63) : int64 x = x := by
  unfold int64
  rw [Int.bmod_def]
  split_ifs <;> omega

/-- The next due time, in range: the first instant of the grid after now. -/
theorem nextDue_eq {due now : ℤ} {period : UInt32} (hdue : 0 ≤ due) (hnow : due ≤ now)
    (hrange : now + period.toNat < 2 ^ 63) (hperiod : period ≠ 0) :
    nextDue due period now = due + ((now - due) / period.toNat + 1) * period.toNat ∧
      now < due + ((now - due) / period.toNat + 1) * period.toNat ∧
      due + ((now - due) / period.toNat + 1) * period.toNat ≤ now + period.toNat := by
  have hpos : (0 : ℤ) < period.toNat := by
    have hne : period.toNat ≠ 0 := fun h => hperiod (UInt32.toNat_inj.1 h)
    omega
  have hdiv := Int.emod_add_mul_ediv (now - due) period.toNat
  have hlow := Int.emod_nonneg (now - due) (ne_of_gt hpos)
  have hhigh := Int.emod_lt_of_pos (now - due) hpos
  have hnext : now < due + ((now - due) / period.toNat + 1) * period.toNat := by
    linarith [mul_comm ((now - due) / (period.toNat : ℤ)) period.toNat]
  have hlast : due + ((now - due) / period.toNat + 1) * period.toNat ≤ now + period.toNat := by
    linarith [mul_comm ((now - due) / (period.toNat : ℤ)) period.toNat]
  refine ⟨?_, hnext, hlast⟩
  unfold nextDue
  rw [int64_of_range (x := now - due) (by omega) (by omega),
    Int.tdiv_eq_ediv_of_nonneg (by omega)]
  exact int64_of_range (by omega) (by omega)

/-- The missed slots, in range. -/
theorem missedSlots_eq {due : Due} {now : ℤ} (hdue : 0 ≤ due.uptimeMs)
    (hnow : due.uptimeMs ≤ now) (hrange : now < 2 ^ 63) :
    (missedSlots due now : ℤ) = (now - due.uptimeMs) / due.periodMs.toNat := by
  unfold missedSlots
  rw [max_eq_left hnow, Int.emod_eq_of_lt (by omega) (by omega), Int.natCast_ediv,
    Int.toNat_of_nonneg (by omega)]

/-! ### One pair -/

/-- **What a pair does**: it counts, and it sets the next slot of its report. -/
theorem scheduleFinish_eq {taken finished : ℤ} {due : Due} {s₁ s₂ : State b}
    (htake : scheduleTake index taken s = (some due, s₁)) (hquiet : Quiet s₁ s₂) :
    (scheduleFinish index due finished s₂).reports =
        Function.update s₂.reports index { s₂.reports index with
          nextUptimeMs := nextDue due.uptimeMs due.periodMs (max finished due.uptimeMs) } ∧
      (scheduleFinish index due finished s₂).stats.scheduledAttempts =
        s.stats.scheduledAttempts + 1 ∧
      (scheduleFinish index due finished s₂).stats.missedSlots.toNat =
        min (2 ^ 32 - 1) (s.stats.missedSlots.toNat + missedSlots due finished) := by
  obtain ⟨henabled, hindex, hdefined, hperiod, -, rfl, rfl⟩ := scheduleTake_some htake
  have hmissed : s₂.stats.missedSlots = s.stats.missedSlots := hquiet.missedSlots
  have hattempts : s₂.stats.scheduledAttempts = s.stats.scheduledAttempts + 1 :=
    hquiet.scheduledAttempts
  have hcond : s₂.enabled = true ∧ index.toNat < b.reports ∧
      (s₂.reports index).definition.isSome = true ∧ (s₂.reports index).period.ms ≠ 0 ∧
        s₂.scheduleRevisions index = s.scheduleRevisions index := by
    refine ⟨hquiet.enabled.trans henabled, hindex, (hquiet.definition index).trans hdefined, ?_,
      congrFun hquiet.scheduleRevisions index⟩
    rw [hquiet.period index]
    exact hperiod
  unfold scheduleFinish
  dsimp only
  rw [if_pos hcond]
  refine ⟨rfl, hattempts, ?_⟩
  show (s₂.stats.missedSlots + UInt32.ofNat _).toNat = _
  have hlt := s.stats.missedSlots.toNat_lt
  rw [hmissed, UInt32.toNat_add, UInt32.toNat_ofNat']
  omega

/-- The instants of a pair go on with the grid, and the next slot goes on behind them. -/
theorem instants_grid {p : Pair} {first : ℤ} {n : ℕ}
    (hnext : p.due.uptimeMs = first + n * p.due.periodMs.toNat) (hdue : 0 ≤ p.due.uptimeMs)
    (hle : p.due.uptimeMs ≤ p.finished) (hrange : p.finished + p.due.periodMs.toNat < 2 ^ 63)
    (hperiod : p.due.periodMs ≠ 0) :
    (List.range n).map (fun j : ℕ => first + j * p.due.periodMs.toNat) ++ p.instants =
        (List.range (n + p.instants.length)).map (fun j : ℕ => first + j * p.due.periodMs.toNat) ∧
      nextDue p.due.uptimeMs p.due.periodMs (max p.finished p.due.uptimeMs) =
        first + (n + p.instants.length : ℕ) * p.due.periodMs.toNat := by
  have hlen : p.instants.length = missedSlots p.due p.finished + 1 := by
    unfold Pair.instants
    rw [List.length_map, List.length_range]
  constructor
  · rw [hlen, List.range_add, List.map_append, List.map_map]
    congr 1
    unfold Pair.instants
    refine List.map_congr_left fun j _ => ?_
    rw [hnext, Function.comp_apply]
    push_cast
    ring
  · have hmissed := missedSlots_eq hdue hle (by omega)
    rw [max_eq_left hle, (nextDue_eq hdue hle hrange hperiod).1, ← hmissed, hlen, hnext]
    push_cast
    ring

/-! ### A run -/

/-- How far a report has come since a state: its instants are the first of the grid, and the next
slot is the one behind them. -/
structure OnGrid (s₀ : State b) (index : UInt8) (es : List (Option Pair)) (s : State b) : Prop where
  period : (s.reports index).period = (s₀.reports index).period
  instants : instantsOf index es = (List.range (instantsOf index es).length).map fun j : ℕ =>
    (s₀.reports index).nextUptimeMs + j * (s₀.reports index).period.ms.toNat
  next : (s.reports index).nextUptimeMs = (s₀.reports index).nextUptimeMs +
    (instantsOf index es).length * (s₀.reports index).period.ms.toNat

/-- The times of the pairs are such that the next slot is an `int64_t`. -/
def InRange (es : List (Option Pair)) : Prop :=
  ∀ p ∈ pairs es, p.finished + p.due.periodMs.toNat < 2 ^ 63

theorem pairs_snoc_none (es : List (Option Pair)) : pairs (es ++ [none]) = pairs es := by
  simp [pairs]

theorem pairs_snoc_some (es : List (Option Pair)) (p : Pair) :
    pairs (es ++ [some p]) = pairs es ++ [p] := by
  simp [pairs]

theorem instantsOf_snoc_same (es : List (Option Pair)) (p : Pair) :
    instantsOf p.index (es ++ [some p]) = instantsOf p.index es ++ p.instants := by
  unfold instantsOf pairsOf
  rw [pairs_snoc_some, List.filter_append, List.flatMap_append]
  simp

theorem instantsOf_snoc_ne (es : List (Option Pair)) {p : Pair} (h : p.index ≠ index) :
    instantsOf index (es ++ [some p]) = instantsOf index es := by
  unfold instantsOf pairsOf
  rw [pairs_snoc_some, List.filter_append, List.flatMap_append]
  simp [h]

variable {es : List (Option Pair)}

/-- **A step keeps to the grid.** -/
theorem onGrid_step {s₀ s' : State b} {e : Option Pair}
    (hfirst : 0 ≤ (s₀.reports index).nextUptimeMs) (hs : OnGrid s₀ index es s)
    (hstep : ScheduleStep s e s') (hrange : InRange (es ++ [e])) :
    OnGrid s₀ index (es ++ [e]) s' := by
  cases hstep with
  | other h =>
    have hsame : instantsOf index (es ++ [none]) = instantsOf index es := by
      unfold instantsOf pairsOf
      rw [pairs_snoc_none]
    refine ⟨(h.period index).trans hs.period, ?_, ?_⟩
    · rw [hsame]
      exact hs.instants
    · rw [hsame, h.nextUptimeMs index]
      exact hs.next
  | @pair s₁ s₂ i taken finished due htake hquiet hle =>
    obtain ⟨hreports, -, -⟩ := @scheduleFinish_eq _ _ _ _ finished _ _ _ htake hquiet
    obtain ⟨-, -, -, hperiod, hdue, hread, hs₁⟩ := scheduleTake_some htake
    by_cases hi : i = index
    · subst hi
      have hp : due.periodMs = (s₀.reports i).period.ms := by
        rw [hread, ← hs.period]
      have hnext : due.uptimeMs = (s₀.reports i).nextUptimeMs +
          (instantsOf i es).length * due.periodMs.toNat := by
        rw [hp, ← hs.next, hread]
      have hnonneg : 0 ≤ due.uptimeMs := by
        rw [hnext]
        exact add_nonneg hfirst (by positivity)
      have hread' : due.uptimeMs = (s.reports i).nextUptimeMs := by rw [hread]
      obtain ⟨hgrid, hlast⟩ := @instants_grid ⟨i, due, finished⟩ _ _ hnext hnonneg
        (hread'.le.trans (hdue.trans hle))
        (hrange ⟨i, due, finished⟩ (by rw [pairs_snoc_some]; simp))
        (by rw [hread]; exact hperiod)
      have hsnoc := instantsOf_snoc_same es ⟨i, due, finished⟩
      refine ⟨?_, ?_, ?_⟩
      · rw [hreports, Function.update_self]
        show (s₂.reports i).period = _
        rw [hquiet.period i, hs₁]
        exact hs.period
      · rw [hsnoc, List.length_append, ← hp, ← hgrid]
        congr 1
        rw [hp]
        exact hs.instants
      · rw [hreports, Function.update_self, hsnoc, List.length_append, ← hp]
        exact hlast
    · have hne : (scheduleFinish i due finished s₂).reports index = s₂.reports index := by
        rw [hreports, Function.update_of_ne (Ne.symm hi)]
      have hsame := instantsOf_snoc_ne es (p := ⟨i, due, finished⟩) hi
      refine ⟨?_, ?_, ?_⟩
      · rw [hne, hquiet.period index, hs₁]
        exact hs.period
      · rw [hsame]
        exact hs.instants
      · rw [hne, hsame, hquiet.nextUptimeMs index, hs₁]
        exact hs.next

/-- **A run keeps to the grid.** -/
theorem onGrid_run {s₀ : State b} (hfirst : 0 ≤ (s₀.reports index).nextUptimeMs)
    (hr : Run ScheduleStep s₀ es s) (hrange : InRange es) : OnGrid s₀ index es s := by
  refine hr.invariant (I := fun es s => InRange es → OnGrid s₀ index es s)
    (fun _ => ⟨rfl, rfl, by simp [instantsOf, pairsOf, pairs]⟩) (fun es t e u ih hstep hrange => ?_)
    hrange
  refine onGrid_step hfirst (ih fun p hp => hrange p ?_) hstep hrange
  cases e with
  | none => rwa [pairs_snoc_none]
  | some q =>
    rw [pairs_snoc_some]
    exact List.mem_append_left _ hp

/-- **What a run counts.** -/
theorem stats_run {s₀ : State b} (hr : Run ScheduleStep s₀ es s) : s.stats.scheduledAttempts =
        s₀.stats.scheduledAttempts + UInt32.ofNat (pairs es).length ∧ s.stats.missedSlots.toNat =
        min (2 ^ 32 - 1) (s₀.stats.missedSlots.toNat + missedBy (pairs es)) := by
  induction hr with
  | nil =>
    have hlt := s₀.stats.missedSlots.toNat_lt
    refine ⟨?_, ?_⟩
    · show _ = _ + 0
      rw [UInt32.add_zero]
    · show _ = min (2 ^ 32 - 1) (_ + 0)
      omega
  | @snoc t u es e _ hstep ih =>
    obtain ⟨ihattempts, ihmissed⟩ := ih
    cases hstep with
    | other h =>
      rw [pairs_snoc_none, h.scheduledAttempts, h.missedSlots]
      exact ⟨ihattempts, ihmissed⟩
    | @pair s₁ s₂ i taken finished due htake hquiet hle =>
      obtain ⟨-, hattempts, hmissed⟩ := @scheduleFinish_eq _ _ _ _ finished _ _ _ htake hquiet
      rw [hattempts, hmissed, ihattempts, ihmissed, pairs_snoc_some, List.length_append]
      refine ⟨?_, ?_⟩
      · rw [List.length_singleton, UInt32.ofNat_add, UInt32.add_assoc]
        rfl
      · have hsum : missedBy (pairs es ++ [⟨i, due, finished⟩]) =
            missedBy (pairs es) + missedSlots due finished := by
          unfold missedBy
          rw [List.map_append, List.sum_append, List.map_singleton, List.sum_singleton]
        rw [hsum]
        omega

/-- The instants of a report are those its pairs attempt, and those they miss. -/
theorem length_instantsOf (index : UInt8) (es : List (Option Pair)) :
    (instantsOf index es).length = (pairsOf index es).length + missedBy (pairsOf index es) := by
  unfold instantsOf missedBy
  induction pairsOf index es with
  | nil => rfl
  | cons p ps ih =>
    rw [List.flatMap_cons, List.length_append, ih, List.map_cons, List.sum_cons, List.length_cons]
    unfold Pair.instants
    rw [List.length_map, List.length_range]
    omega

/-- If the instant `n` is the next one, those before it are the ones up to now. -/
theorem instant_le_iff {first now period : ℤ} {n : ℕ} (hpos : 0 < period)
    (hafter : now < first + n * period) (hwithin : first + n * period ≤ now + period) (j : ℕ) :
    first + j * period ≤ now ↔ j < n := by
  constructor
  · intro h
    by_contra hge
    have hmul := mul_le_mul_of_nonneg_right (show (n : ℤ) ≤ j by omega) hpos.le
    linarith
  · intro h
    have hmul := mul_le_mul_of_nonneg_right (show (j : ℤ) + 1 ≤ n by omega) hpos.le
    linarith

/-- **The schedule accounts for every slot.**  In a run that keeps the settings, after a report is
finished at a time: its instants so far, each attempted or missed once and in order, are the grid
up to that time; the next slot is the first instant of the grid after it, at most a period away;
and the counters have counted the pairs, modulo `2 ^ 32`, and the missed slots, up to saturation. -/
theorem schedule_accounts {s₀ s : State b} {es : List (Option Pair)} {p : Pair}
    (hfirst : 0 ≤ (s₀.reports p.index).nextUptimeMs)
    (hr : Run ScheduleStep s₀ (es ++ [some p]) s) (hrange : InRange (es ++ [some p])) :
    ((s.reports p.index).nextUptimeMs ≡ (s₀.reports p.index).nextUptimeMs
        [ZMOD (s₀.reports p.index).period.ms.toNat]) ∧
      p.finished < (s.reports p.index).nextUptimeMs ∧ (s.reports p.index).nextUptimeMs ≤
        p.finished + (s₀.reports p.index).period.ms.toNat ∧
      (∃ n, instantsOf p.index (es ++ [some p]) = (List.range n).map (fun j : ℕ =>
          (s₀.reports p.index).nextUptimeMs + j * (s₀.reports p.index).period.ms.toNat) ∧
        (∀ j : ℕ, (s₀.reports p.index).nextUptimeMs + j * (s₀.reports p.index).period.ms.toNat ≤
          p.finished ↔ j < n) ∧ (instantsOf p.index (es ++ [some p])).Nodup ∧
        n = (pairsOf p.index (es ++ [some p])).length +
          missedBy (pairsOf p.index (es ++ [some p]))) ∧
      s.stats.scheduledAttempts = s₀.stats.scheduledAttempts +
        UInt32.ofNat (pairs (es ++ [some p])).length ∧ s.stats.missedSlots.toNat = min (2 ^ 32 - 1)
        (s₀.stats.missedSlots.toNat + missedBy (pairs (es ++ [some p]))) := by
  obtain ⟨t, hbefore, hlast⟩ := run_snoc_iff.1 hr
  have hgrid := onGrid_run hfirst hr hrange
  have hbefore' := onGrid_run hfirst hbefore fun q hq => hrange q (by
    rw [pairs_snoc_some]
    exact List.mem_append_left _ hq)
  obtain ⟨hattempts, hmissed⟩ := stats_run hr
  cases hlast with
  | @pair s₁ s₂ i taken finished due htake hquiet hle =>
    obtain ⟨hreports, -, -⟩ := @scheduleFinish_eq _ _ _ _ finished _ _ _ htake hquiet
    obtain ⟨-, -, -, hperiod, hdue, hread, -⟩ := scheduleTake_some htake
    have hp : due.periodMs = (s₀.reports i).period.ms := by
      rw [hread, ← hbefore'.period]
    have hnonneg : 0 ≤ due.uptimeMs := by
      rw [hread]
      show 0 ≤ (t.reports i).nextUptimeMs
      rw [hbefore'.next]
      exact add_nonneg hfirst (by positivity)
    have hlate : due.uptimeMs ≤ finished := by
      rw [hread]
      exact hdue.trans hle
    have hnext := nextDue_eq hnonneg hlate
      (hrange ⟨i, due, finished⟩ (by rw [pairs_snoc_some]; simp)) (by rw [hread]; exact hperiod)
    have hset : ((scheduleFinish i due finished s₂).reports i).nextUptimeMs =
        due.uptimeMs + ((finished - due.uptimeMs) / due.periodMs.toNat + 1) *
          due.periodMs.toNat := by
      rw [hreports, Function.update_self]
      show nextDue due.uptimeMs due.periodMs (max finished due.uptimeMs) = _
      rw [max_eq_left hlate, hnext.1]
    have hpos : (0 : ℤ) < (s₀.reports i).period.ms.toNat := by
      have hne : due.periodMs ≠ 0 := by rw [hread]; exact hperiod
      rw [hp] at hne
      have hne' : (s₀.reports i).period.ms.toNat ≠ 0 := fun h => hne (UInt32.toNat_inj.1 h)
      omega
    have hafter : finished < ((scheduleFinish i due finished s₂).reports i).nextUptimeMs := by
      rw [hset]
      exact hnext.2.1
    have hwithin : ((scheduleFinish i due finished s₂).reports i).nextUptimeMs ≤
        finished + (s₀.reports i).period.ms.toNat := by
      rw [hset, ← hp]
      exact hnext.2.2
    refine ⟨?_, hafter, hwithin, ⟨_, hgrid.instants, fun j => ?_, ?_, length_instantsOf i _⟩,
      hattempts, hmissed⟩
    · rw [hgrid.next]
      refine (Int.modEq_iff_dvd.2 (Dvd.intro_left
        ((instantsOf i (es ++ [some ⟨i, due, finished⟩])).length : ℤ) ?_)).symm
      ring
    · rw [hgrid.next] at hafter hwithin
      exact instant_le_iff hpos hafter hwithin j
    · rw [hgrid.instants]
      refine (List.nodup_map_iff fun j k hjk => ?_).2 List.nodup_range
      have heq : (j : ℤ) * (s₀.reports i).period.ms.toNat = k * (s₀.reports i).period.ms.toNat := by
        linarith
      exact Int.natCast_inj.1 (mul_right_cancel₀ (ne_of_gt hpos) heq)

theorem Quiet.refl (s : State b) : Quiet s s :=
  ⟨rfl, fun _ => rfl, fun _ => rfl, fun _ => rfl, rfl, rfl, rfl⟩

/-- A report with a period of 100 ms that is due, after some attempts. -/
def dueAt (first : ℤ) (attempts : UInt32) : State smallBuild :=
  let s := State.reset smallBuild
  { s with
    initialized := true
    stats := { s.stats with scheduledAttempts := attempts }
    reports := fun index =>
      if index = 0 then
        { Report.zero smallBuild with
          definition := some (byteDefinition ⟨nodeLocal, 256⟩)
          period := ⟨100, Or.inr (by decide)⟩
          nextUptimeMs := first }
      else .zero _ }

/-- What is handed out of it. -/
def firstDue (first : ℤ) : Due := ⟨0, first, 100⟩

/-- It is taken when it is due, and finished later. -/
theorem dueAt_step (first : ℤ) (attempts : UInt32) {finished : ℤ} (h : first ≤ finished) :
    ScheduleStep (dueAt first attempts) (some ⟨0, firstDue first, finished⟩)
      (scheduleFinish 0 (firstDue first) finished
        (scheduleTake 0 first (dueAt first attempts)).2) := by
  refine @ScheduleStep.pair _ _ (scheduleTake 0 first (dueAt first attempts)).2 _ _ first _ _ ?_
    (Quiet.refl _) h
  unfold scheduleTake
  dsimp only
  rw [if_pos ⟨rfl, rfl, rfl, by decide, rfl, show (100 : UInt32) ≠ 0 by decide, le_rfl⟩]
  rfl

/-- A report due at 100 that is finished at 350 has missed two slots. -/
theorem schedule_accounts_late : 350 < ((scheduleFinish 0 (firstDue 100) 350
      (scheduleTake 0 100 (dueAt 100 0)).2).reports 0).nextUptimeMs :=
  (schedule_accounts (p := ⟨0, firstDue 100, 350⟩) (s := scheduleFinish 0 (firstDue 100) 350
      (scheduleTake 0 100 (dueAt 100 0)).2) (show (0 : ℤ) ≤ 100 by decide)
    ((Run.nil (dueAt 100 0)).snoc (dueAt_step 100 0 (by decide)))
    (by
      intro p hp
      obtain rfl := List.mem_singleton.1 hp
      decide)).2.1

/-- The count of the attempts wraps, and so does a next slot that is no `int64_t`. -/
theorem schedule_wraps : (¬ ∀ (s s' : State smallBuild) (p : Pair), ScheduleStep s (some p) s' →
        s'.stats.scheduledAttempts.toNat + s'.stats.missedSlots.toNat =
          s.stats.scheduledAttempts.toNat + s.stats.missedSlots.toNat + p.instants.length) ∧
      ¬ ∀ (s s' : State smallBuild) (p : Pair), ScheduleStep s (some p) s' → p.finished < 2 ^ 63 →
        p.finished < (s'.reports p.index).nextUptimeMs := by
  constructor
  · intro h
    have hstep := h _ _ _ (dueAt_step 100 0xFFFFFFFF (le_refl 100))
    exact absurd hstep (by decide)
  · intro h
    have hstep := h _ _ _ (dueAt_step (2 ^ 63 - 100) 0 (le_refl _)) (by decide)
    exact absurd hstep (by decide)

end KfswServices.Hk
