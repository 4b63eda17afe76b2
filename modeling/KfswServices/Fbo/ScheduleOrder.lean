/-
# The order of releases

`sweep` of `src/fbo/fbo_schedule.c` on a queue that nobody else touches meanwhile.  The candidate of
an iteration is the entry that is the most seconds late, and of several the one in the lowest slot;
it is the first in an order (`Queue.ahead`), and the releases of a sweep are the first ones in that
order (`sweep_picked`).

An entry that is more seconds late was due earlier.  Of two that are the same number of whole
seconds late the later one may be in the lower slot, so the releases are in the order of time
exactly if the slots of such ties are (`release_order_iff`).
-/

import KfswServices.Fbo.ScheduleCancel
import KfswServices.Library.Picked

namespace KfswServices.Fbo

open Command Library

variable {ω : Type*}

/-- The loop of `sweep`, with at most so many releases, while nobody else touches the queue: the
slots that were released, in turn, and the queue.  `answers` is what the commands give. -/
def Queue.sweep (cfg : Config ω) (mono : ℤ) (utc : Option ℤ) (answers : ℕ → Option Errno × Status) :
    ℕ → Queue → List ℕ × Queue
  | 0, q => ([], q)
  | n + 1, q =>
    match (q.select mono utc).2 with
    | none => ([], (q.select mono utc).1)
    | some i =>
      let (marked, copy) := (q.select mono utc).1.markRunning i utc
      let (outcome, status) := invoke cfg copy.entry (answers n)
      let (released, q) := Queue.sweep cfg mono utc answers n (marked.record i outcome status)
      (i :: released, q)

/-- How many seconds late the entry of a slot is, if a sweep may release it. -/
def Queue.late (q : Queue) (mono : ℤ) (utc : Option ℤ) (i : ℕ) : Option ℤ :=
  match q.slots[i]? with
  | none => none
  | some s =>
    match s.examine mono utc q.latencyS with
    | .due l => some l
    | _ => none

/-- Slot `i` is released before slot `j`. -/
def Queue.ahead (q : Queue) (mono : ℤ) (utc : Option ℤ) (i j : ℕ) : Bool :=
  match q.late mono utc i, q.late mono utc j with
  | some l, some m => m < l || (m = l && i < j)
  | _, _ => false

/-- When the entry of a slot is due. -/
def Queue.due (q : Queue) (i : ℕ) : ℤ := (q.slots.getD i Slot.zero).dueUptimeMs

section

variable {q : Queue} {mono : ℤ} {utc : Option ℤ} {i j : ℕ}

theorem late_eq_some {l : ℤ} : q.late mono utc i = some l ↔
    ∃ s, q.slots[i]? = some s ∧ s.examine mono utc q.latencyS = .due l := by
  unfold Queue.late
  cases q.slots[i]? with
  | none => simp
  | some s => cases hs : s.examine mono utc q.latencyS <;> simp [hs]

theorem ahead_iff : q.ahead mono utc i j = true ↔ ∃ l m, q.late mono utc i = some l ∧
    q.late mono utc j = some m ∧ (m < l ∨ m = l ∧ i < j) := by
  unfold Queue.ahead
  cases q.late mono utc i with
  | none => simp
  | some l =>
    cases q.late mono utc j with
    | none => simp
    | some m => simp

theorem ahead_asymm (hij : q.ahead mono utc i j = true) : ¬ q.ahead mono utc j i = true := by
  obtain ⟨l, m, hl, hm, hlt⟩ := ahead_iff.1 hij
  intro hji
  obtain ⟨m', l', hm', hl', hlt'⟩ := ahead_iff.1 hji
  obtain rfl := Option.some.inj (hl.symm.trans hl')
  obtain rfl := Option.some.inj (hm.symm.trans hm')
  omega

/-- **The candidate of a scan** is the latest, and the first of the latest. -/
theorem scanFrom_first {latencyS : ℕ} {slots : List Slot} {j : ℕ} {l : ℤ} :
    ∀ {i : ℕ} {best : Option (ℕ × ℤ)}, (∀ j₀ l₀, best = some (j₀, l₀) → j₀ ≤ i) →
      (scanFrom mono utc latencyS i slots best).2 = some (j, l) →
      (∀ j₀ l₀, best = some (j₀, l₀) → (j = j₀ ∧ l = l₀) ∨ l₀ < l) ∧
        ∀ k s m, slots[k]? = some s → s.examine mono utc latencyS = .due m →
          m < l ∨ (m = l ∧ j ≤ i + k) := by
  induction slots with
  | nil =>
    rintro i best - h
    refine ⟨fun j₀ l₀ hbest => ?_, by simp⟩
    obtain rfl : best = some (j, l) := h
    obtain ⟨rfl, rfl⟩ := Prod.mk.inj (Option.some.inj hbest)
    exact .inl ⟨rfl, rfl⟩
  | cons s rest ih =>
    intro i best hbest h
    have hnext : ∀ j₀ l₀, best = some (j₀, l₀) → j₀ ≤ i + 1 := fun j₀ l₀ hb =>
      Nat.le_succ_of_le (hbest j₀ l₀ hb)
    -- the slots behind this one, counted from it
    have hshift : (∀ k s' m, rest[k]? = some s' → s'.examine mono utc latencyS = .due m →
        m < l ∨ (m = l ∧ j ≤ i + 1 + k)) → (∀ m, s.examine mono utc latencyS = .due m →
        m < l ∨ (m = l ∧ j ≤ i)) → ∀ k s' m, (s :: rest)[k]? = some s' →
        s'.examine mono utc latencyS = .due m → m < l ∨ (m = l ∧ j ≤ i + k) := by
      intro hrest hhead k s' m hk hm
      cases k with
      | zero =>
        obtain rfl := Option.some.inj hk
        exact hhead m hm
      | succ k =>
        have h := hrest k s' m hk hm
        omega
    cases hs : s.examine mono utc latencyS with
    | leave =>
      rw [scanFrom, hs] at h
      obtain ⟨hacc, hrest⟩ := ih hnext h
      exact ⟨hacc, hshift hrest fun m hm => by rw [hs] at hm; cases hm⟩
    | overdue =>
      rw [scanFrom, hs] at h
      obtain ⟨hacc, hrest⟩ := ih hnext h
      exact ⟨hacc, hshift hrest fun m hm => by rw [hs] at hm; cases hm⟩
    | due m =>
      rw [scanFrom, hs] at h
      by_cases hrank : outranks m best = true
      · simp only [if_pos hrank] at h
        obtain ⟨hacc, hrest⟩ := ih (fun j₀ l₀ hb => by cases hb; exact Nat.le_succ i) h
        have hhere := hacc i m rfl
        refine ⟨fun j₀ l₀ hb => ?_, hshift hrest fun m' hm' => ?_⟩
        · rw [hb] at hrank
          have hlt : l₀ < m := by simpa [outranks] using hrank
          omega
        · rw [hs] at hm'
          obtain rfl := Verdict.due.inj hm'
          omega
      · simp only [if_neg hrank] at h
        obtain ⟨hacc, hrest⟩ := ih hnext h
        refine ⟨hacc, hshift hrest fun m' hm' => ?_⟩
        rw [hs] at hm'
        obtain rfl := Verdict.due.inj hm'
        cases hb : best with
        | none =>
          rw [hb] at hrank
          exact absurd rfl hrank
        | some b =>
          obtain ⟨j₀, l₀⟩ := b
          rw [hb] at hrank
          have hle : m ≤ l₀ := by simpa [outranks] using hrank
          have hlow := hbest j₀ l₀ hb
          have hcase := hacc j₀ l₀ hb
          omega

/-- Without a candidate nothing was due. -/
theorem scanFrom_none {latencyS : ℕ} {slots : List Slot} :
    ∀ {i : ℕ} {best : Option (ℕ × ℤ)}, (scanFrom mono utc latencyS i slots best).2 = none →
      best = none ∧ ∀ s ∈ slots, ∀ m, s.examine mono utc latencyS ≠ .due m := by
  induction slots with
  | nil =>
    intro i best h
    exact ⟨h, by simp⟩
  | cons s rest ih =>
    intro i best h
    rw [scanFrom] at h
    cases hs : s.examine mono utc latencyS with
    | leave =>
      rw [hs] at h
      obtain ⟨hbest, hrest⟩ := ih h
      rw [List.forall_mem_cons]
      exact ⟨hbest, fun m hm => (by rw [hs] at hm; cases hm), hrest⟩
    | overdue =>
      rw [hs] at h
      obtain ⟨hbest, hrest⟩ := ih h
      rw [List.forall_mem_cons]
      exact ⟨hbest, fun m hm => (by rw [hs] at hm; cases hm), hrest⟩
    | due m =>
      rw [hs] at h
      obtain ⟨hbest, -⟩ := ih h
      split at hbest
      · cases hbest
      · next hrank =>
        rw [hbest] at hrank
        exact absurd rfl hrank

/-- What `select` chooses is ahead of everything else that is due. -/
theorem select_first (h : (q.select mono utc).2 = some i) : q.late mono utc i ≠ none ∧
    ∀ j, q.late mono utc j ≠ none → j ≠ i → q.ahead mono utc i j = true := by
  obtain ⟨s, l, hi, hs, -⟩ := Queue.select_due h
  have hlate : q.late mono utc i = some l := late_eq_some.2 ⟨s, hi, hs⟩
  refine ⟨by rw [hlate]; exact Option.some_ne_none l, fun j hj hne => ?_⟩
  obtain ⟨m, hm⟩ := Option.ne_none_iff_exists'.1 hj
  obtain ⟨⟨i', l'⟩, hbest, rfl⟩ := Option.map_eq_some_iff.1 h
  obtain ⟨k, s', hk, hkj, hs'⟩ := (scanFrom_best hbest).resolve_left nofun
  obtain ⟨t, ht, htm⟩ := late_eq_some.1 hm
  have hfirst := (scanFrom_first (fun _ _ h => by cases h) hbest).2 j t m ht htm
  obtain rfl : l' = l := by
    rw [Nat.zero_add] at hkj
    subst hkj
    obtain rfl := Option.some.inj (hi.symm.trans hk)
    exact Verdict.due.inj (hs'.symm.trans hs)
  refine ahead_iff.2 ⟨l', m, hlate, hm, ?_⟩
  dsimp only at hne ⊢
  omega

/-- It chooses none if nothing is due. -/
theorem select_none (h : (q.select mono utc).2 = none) (i : ℕ) : q.late mono utc i = none := by
  have hnone := (scanFrom_none (Option.map_eq_none_iff.1 h)).2
  by_contra hno
  obtain ⟨l, hl⟩ := Option.ne_none_iff_exists'.1 hno
  obtain ⟨s, hs, hdue⟩ := late_eq_some.1 hl
  exact hnone s (List.mem_of_getElem? hs) l hdue

/-- What a slot is to a sweep, once what is overdue has been given up. -/
theorem late_select (q : Queue) (mono : ℤ) (utc : Option ℤ) (i : ℕ) :
    (q.select mono utc).1.late mono utc i = q.late mono utc i := by
  have hlatency : (q.select mono utc).1.latencyS = q.latencyS := rfl
  unfold Queue.late
  rw [Queue.select_slots, List.getElem?_map, hlatency]
  cases q.slots[i]? with
  | none => rfl
  | some s =>
    simp only [Option.map_some]
    by_cases hover : s.examine mono utc q.latencyS = .overdue
    · have hleave : s.setOverdue.examine mono utc q.latencyS = .leave := by
        simp [Slot.examine, Slot.setOverdue]
      rw [if_pos hover, hleave, hover]
    · rw [if_neg hover]

variable (mono utc) in
/-- What a slot is to a sweep, once slot `i` was released. -/
theorem late_record {a : Slot} (ha : q.slots[i]? = some a) (utc' : Option ℤ)
    (outcome : Option Errno) (status : Status) (j : ℕ) :
    ((q.markRunning i utc').1.record i outcome status).late mono utc j =
      if j = i then none else q.late mono utc j := by
  have hlt := (List.getElem?_eq_some_iff.1 ha).1
  have hmark := (Queue.markRunning_eq ha utc').1
  have hget : (q.markRunning i utc').1.slots[i]? = some (a.markRunning utc') := by
    rw [hmark, List.getElem?_set_self hlt]
  have hlatency : ((q.markRunning i utc').1.record i outcome status).latencyS = q.latencyS := rfl
  unfold Queue.late
  rw [Queue.record_slots hget, hmark, List.set_set, hlatency]
  by_cases hji : j = i
  · subst hji
    rw [if_pos rfl, List.getElem?_set_self hlt]
    have hleave : ((a.markRunning utc').record outcome status).examine mono utc q.latencyS =
        .leave := by
      have hst : ((a.markRunning utc').record outcome status).entry.status ≠ .SCHEDULED := by
        simp only [Slot.record]
        split_ifs
        · decide
        · decide
      simp [Slot.examine, hst]
    simp only [hleave]
  · rw [if_neg hji, List.getElem?_set_ne (Ne.symm hji)]

end

variable (cfg : Config ω) (q : Queue) (mono : ℤ) (utc : Option ℤ)
  (answers : ℕ → Option Errno × Status)

/-- **The releases of a sweep** are the first in the order of the slots that it may release. -/
theorem sweep_picked (n : ℕ) : Picked (fun i => q.late mono utc i ≠ none)
    (fun i j => q.ahead mono utc i j = true) n (q.sweep cfg mono utc answers n).1 := by
  induction n generalizing q with
  | zero => exact Picked.zero
  | succ n ih =>
    rw [Queue.sweep]
    cases hsel : (q.select mono utc).2 with
    | none => exact Picked.none fun i hi => hi (select_none hsel i)
    | some i =>
      obtain ⟨a, l, -, -, ha⟩ := Queue.select_due hsel
      have hfirst := select_first hsel
      have hlate := late_record mono utc ha utc
        (invoke cfg ((q.select mono utc).1.markRunning i utc).2.entry (answers n)).1
        (invoke cfg ((q.select mono utc).1.markRunning i utc).2.entry (answers n)).2
      simp only [late_select] at hlate
      refine Picked.cons hfirst.1 hfirst.2 (fun j => ?_) (fun j k hjk => ?_) (ih _)
      · rw [hlate j]
        by_cases hji : j = i
        · simp [hji]
        · simp [hji]
      · obtain ⟨x, y, hx, hy, hxy⟩ := ahead_iff.1 hjk
        rw [hlate] at hx hy
        split at hx
        · cases hx
        split at hy
        · cases hy
        exact ahead_iff.2 ⟨x, y, hx, hy, hxy⟩

/-- The slots that a sweep may release before slot `j`. -/
def Queue.rank (q : Queue) (mono : ℤ) (utc : Option ℤ) (j : ℕ) : ℕ :=
  (List.range q.slots.length).countP fun i => q.ahead mono utc i j

/-- What a sweep releases: what it may, with fewer than so many slots ahead of it. -/
theorem mem_sweep_iff (n j : ℕ) : j ∈ (q.sweep cfg mono utc answers n).1 ↔
    q.late mono utc j ≠ none ∧ q.rank mono utc j < n := by
  have hrange : ∀ i, q.late mono utc i ≠ none → i ∈ List.range q.slots.length := by
    intro i hi
    obtain ⟨l, hl⟩ := Option.ne_none_iff_exists'.1 hi
    obtain ⟨s, hs, -⟩ := late_eq_some.1 hl
    exact List.mem_range.2 (List.getElem?_eq_some_iff.1 hs).1
  have h := (sweep_picked cfg q mono utc answers n).mem_iff (b := j) (fun _ _ => ahead_asymm)
    (fun i j hij => ?_) hrange List.nodup_range
  · rw [h, Queue.rank]
    simp only [Bool.decide_eq_true]
  · obtain ⟨l, -, hl, -⟩ := ahead_iff.1 hij
    rw [hl]
    exact Option.some_ne_none l

/-! ### Relative entries -/

/-- Only relative entries. -/
def Queue.Relative (q : Queue) : Prop := ∀ s ∈ q.slots, s.used = true → s.entry.kind = .RELATIVE

/-- Two entries that are the same number of whole seconds late, the later of which is among the
first `burst` to be released, are due in the order of their slots. -/
def Queue.TiesInOrder (q : Queue) (mono : ℤ) (utc : Option ℤ) (burst : ℕ) : Prop :=
  ∀ i j, i < j → q.late mono utc j ≠ none → q.late mono utc i = q.late mono utc j →
    q.rank mono utc j < burst → q.due i ≤ q.due j

variable {q}

theorem late_relative (hrel : q.Relative) {i : ℕ} {l : ℤ} (h : q.late mono utc i = some l) :
    l = (mono - q.due i) / 1000 := by
  obtain ⟨s, hs, hdue⟩ := late_eq_some.1 h
  obtain ⟨hu, -, hnow, -⟩ := Slot.examine_eq_due_iff.1 hdue
  have hkind := hrel s (List.mem_of_getElem? hs) hu
  have hget : q.due i = s.dueUptimeMs := by rw [Queue.due, getD_of_getElem? hs]
  simp only [Slot.dueNow, hkind] at hnow
  split at hnow
  · cases hnow
  · rw [hget]
    exact (Option.some.inj hnow).symm

/-- **Releases are in the order of time** exactly if the ties are in the order of their slots. -/
theorem release_order_iff (hrel : q.Relative) (burst : ℕ) :
    ((q.sweep cfg mono utc answers burst).1.map q.due).Pairwise (· ≤ ·) ↔
      q.TiesInOrder mono utc burst := by
  have hpicked := sweep_picked cfg q mono utc answers burst
  have hcand : ∀ i j, q.ahead mono utc i j = true → q.late mono utc i ≠ none := by
    intro i j hij
    obtain ⟨l, -, hl, -⟩ := ahead_iff.1 hij
    rw [hl]
    exact Option.some_ne_none l
  rw [List.pairwise_map, hpicked.pairwise_iff (fun _ _ => ahead_asymm) hcand]
  constructor
  · intro h i j hij hj heq hrank
    obtain ⟨l, hl⟩ := Option.ne_none_iff_exists'.1 hj
    exact h i j ((mem_sweep_iff cfg q mono utc answers burst j).2 ⟨hj, hrank⟩)
      (ahead_iff.2 ⟨l, l, heq.trans hl, hl, .inr ⟨rfl, hij⟩⟩)
  · intro h i j hj hij
    obtain ⟨l, m, hl, hm, hlt | ⟨rfl, hlt⟩⟩ := ahead_iff.1 hij
    · -- more whole seconds late is due earlier
      have hi := late_relative mono utc hrel hl
      have hj := late_relative mono utc hrel hm
      omega
    · obtain ⟨hsome, hrank⟩ := (mem_sweep_iff cfg q mono utc answers burst j).1 hj
      exact h i j hlt hsome (hl.trans hm.symm) hrank

/-- Two entries, of which the one that waits longer is in the lower slot. -/
def twoDue (first second : ℤ) : Queue :=
  ⟨[noopSlot 1 0 2 first, noopSlot 2 1 1 second], 10, 0, 0, 0, none⟩

theorem twoDue_relative (first second : ℤ) : (twoDue first second).Relative := by
  intro s hs _
  rcases List.mem_cons.1 hs with rfl | hs
  · rfl
  · obtain rfl := List.mem_singleton.1 hs
    rfl

/-- What a sweep with two releases does with them. -/
def sweepTwo (q : Queue) : List ℕ × Queue :=
  q.sweep (noopConfig 2 2) 2920 none (fun _ => (none, .OK)) 2

/-- A second apart, they are released in the order of time. -/
theorem release_order_apart : (sweepTwo (twoDue 900 900)).1 = [1, 0] ∧
    (twoDue 900 900).TiesInOrder 2920 none 2 :=
  ⟨by decide +kernel, (release_order_iff (noopConfig 2 2) 2920 none (fun _ => (none, .OK))
    (twoDue_relative 900 900) 2).1 (by decide +kernel)⟩

/-- **A release out of order.**  The entry of slot 0 is due at 2900 and that of slot 1 at 1950; the
sweep at 2920 releases slot 0 first. -/
theorem release_out_of_order : ¬ ∀ (cfg : Config Unit) (q : Queue) (mono : ℤ),
    q.Relative → ((q.sweep cfg mono none (fun _ => (none, .OK)) cfg.burst).1.map
      q.due).Pairwise (· ≤ ·) := by
  intro h
  have hsorted := h (noopConfig 2 2) (twoDue 900 950) 2920 (twoDue_relative 900 950)
  have hsweep : (sweepTwo (twoDue 900 950)).1.map (twoDue 900 950).due = [2900, 1950] := by
    decide +kernel
  unfold sweepTwo at hsweep
  rw [show (noopConfig 2 2).burst = 2 from rfl, hsweep] at hsorted
  exact absurd hsorted (by decide)

/-! ### The release thread -/

/-- The slot that a step marks as running. -/
def SchedEvent.marks : SchedEvent → Option ℕ
  | .mark i => some i
  | _ => none

/-- The loop is what the release thread does, when nobody takes a step between its own. -/
theorem sweep_run (w : Sweep) (clock : ℤ) (accepted n : ℕ) (hn : w.released + n = cfg.burst)
    (q : Queue) : ∃ es, Run (SchedStep cfg) ⟨q, w.again cfg, clock, accepted⟩ es
        ⟨(q.sweep cfg w.mono w.utc answers n).2, .idle, clock, accepted⟩ ∧
      es.filterMap SchedEvent.marks = (q.sweep cfg w.mono w.utc answers n).1 := by
  induction n generalizing q w with
  | zero =>
    refine ⟨[], ?_, rfl⟩
    have hidle : w.again cfg = .idle := if_neg (by omega)
    rw [hidle]
    exact .nil _
  | succ n ih =>
    have hscan : w.again cfg = .scanning w := if_pos (by omega)
    rw [hscan, Queue.sweep]
    cases hsel : (q.select w.mono w.utc).2 with
    | none => exact ⟨[.select none], .single (.selectNone rfl hsel), rfl⟩
    | some i =>
      obtain ⟨es, hr, hmarks⟩ := ih { w with released := w.released + 1 } (by
        show w.released + 1 + n = cfg.burst
        omega) (((q.select w.mono w.utc).1.markRunning i w.utc).1.record i
          (invoke cfg ((q.select w.mono w.utc).1.markRunning i w.utc).2.entry (answers n)).1
          (invoke cfg ((q.select w.mono w.utc).1.markRunning i w.utc).2.entry (answers n)).2)
      refine ⟨.select (some i) :: .mark i :: .invoke w i _ :: .finish (answers n) :: es,
        .cons (.select rfl hsel) (.cons (.mark rfl) (.cons (.invoke rfl)
          (.cons (.finish (answers n) rfl) hr))), ?_⟩
      simp only [List.filterMap_cons, SchedEvent.marks, hmarks]

/-- Both of them are released by one sweep. -/
theorem sweep_run_apart : ∃ es, Run (SchedStep (noopConfig 2 2))
      ⟨twoDue 900 900, .scanning ⟨2920, none, 0⟩, 0, 0⟩ es
      ⟨(sweepTwo (twoDue 900 900)).2, .idle, 0, 0⟩ ∧ es.filterMap SchedEvent.marks = [1, 0] := by
  have hsweep : (sweepTwo (twoDue 900 900)).1 = [1, 0] := by decide +kernel
  rw [← hsweep]
  exact sweep_run (noopConfig 2 2) (fun _ => (none, .OK)) ⟨2920, none, 0⟩ 0 0 2 rfl (twoDue 900 900)

end KfswServices.Fbo
