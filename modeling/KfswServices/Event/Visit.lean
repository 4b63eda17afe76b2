/-
# A visit of the recorded events

`kfsw_event_visit` of `src/event/event.c` copies one record at a time, at a place that is counted
from the oldest one, while other threads go on recording.

A record that is lost between two copies moves the place, and the one behind it is passed over.  A
visit passes every record that stays, in order, if that does not happen among the records that were
held when it began, and if the sequences do not come round among those that it passes
(`visit_passes`).
-/

import KfswServices.Event.Ring
import KfswServices.Library.Run
import Mathlib.Data.List.Nodup

namespace KfswServices.Event

open Library

/-- A visit: its place, and how many events had been recorded when it began. -/
structure Visit where
  index : ℕ
  before : ℕ

/-- The ring, all the records that came, and the visit that is under way. -/
structure System where
  state : State
  log : List Record
  visit : Option Visit

/-- The system at the reset. -/
def System.reset : System := ⟨.reset, [], none⟩

/-- The number of the oldest record held. -/
def System.first (u : System) : ℕ := u.log.length - u.state.heldCount

/-- The record of a number is held. -/
def System.Held (u : System) (n : ℕ) : Prop := u.first ≤ n ∧ n < u.log.length

/-- What a thread does. -/
inductive Input
  | emit (e : Emission)
  | clear
  | visit
  | next

/-- What is seen of it. -/
inductive Seen
  | recorded (r : Record)
  | rejected
  | cleared
  | visitBegins
  | passed (number : ℕ) (r : Record)
  | visitEnds
  deriving DecidableEq

/-- One step: an event is emitted, the ring is cleared, a visit begins, or goes on by one turn of
its loop. -/
def act (b : Build) (u : System) : Input → Option (Seen × System)
  | .emit e =>
    match emit b e u.state with
    | (some r, s) => some (.recorded r, { u with state := s, log := u.log ++ [r] })
    | (none, s) => some (.rejected, { u with state := s })
  | .clear => some (.cleared, { u with state := clear u.state })
  | .visit =>
    match u.visit with
    | some _ => none
    | none => some (.visitBegins, { u with visit := some ⟨0, u.log.length⟩ })
  | .next =>
    match u.visit with
    | none => none
    | some v =>
      match copyAt b v.index u.state with
      | some r =>
        some (.passed (u.first + v.index) r, { u with visit := some { v with index := v.index + 1 } })
      | none => some (.visitEnds, { u with visit := none })

/-- A step of any thread. -/
def Step (b : Build) (u : System) (e : Seen) (u' : System) : Prop :=
  ∃ input, act b u input = some (e, u')

/-- The numbers that were passed. -/
def passedNumbers (es : List Seen) : List ℕ :=
  es.filterMap fun e => match e with
    | .passed n _ => some n
    | _ => none

/-- The sequences that were passed. -/
def passedSequences (es : List Seen) : List UInt32 :=
  es.filterMap fun e => match e with
    | .passed _ r => some r.sequence
    | _ => none

/-- When an event may be recorded, and a visit begin.  A full ring loses no record between two
copies, as long as the next one is among those that were held when the visit began; and the
sequences do not come round among the records held. -/
def Timely (b : Build) (u : System) : Seen → Prop
  | .recorded r => ∀ v, u.visit = some v →
      (u.state.heldCount = b.ringDepth → v.index = 0 ∨ v.before ≤ u.first + v.index) ∧
        (r.sequence = 0 → u.state.heldCount = 0)
  | .visitBegins => ∀ k r, 0 < k → copyAt b k u.state = some r → r.sequence ≠ 0
  | _ => True

/-- A step at a time that is admitted. -/
def TimelyStep (b : Build) (u : System) (e : Seen) (u' : System) : Prop :=
  Step b u e u' ∧ Timely b u e

variable {b : Build}

/-! ### Steps -/

variable {u u' : System}

/-- **What a step does.** -/
theorem step_cases {e : Seen} (h : Step b u e u') :
    (∃ em r, (emit b em u.state).1 = some r ∧ e = .recorded r ∧
      u' = { u with state := (emit b em u.state).2, log := u.log ++ [r] }) ∨
    (∃ em, (emit b em u.state).1 = none ∧ e = .rejected ∧
      u' = { u with state := (emit b em u.state).2 }) ∨
    (e = .cleared ∧ u' = { u with state := clear u.state }) ∨
    (u.visit = none ∧ e = .visitBegins ∧ u' = { u with visit := some ⟨0, u.log.length⟩ }) ∨
    (∃ v r, u.visit = some v ∧ copyAt b v.index u.state = some r ∧
      e = .passed (u.first + v.index) r ∧
      u' = { u with visit := some { v with index := v.index + 1 } }) ∨
    ∃ v, u.visit = some v ∧ copyAt b v.index u.state = none ∧ e = .visitEnds ∧
      u' = { u with visit := none } := by
  obtain ⟨input, h⟩ := h
  unfold act at h
  cases input with
  | emit em =>
    dsimp only at h
    rcases hem : emit b em u.state with ⟨_ | r, s⟩
    · rw [hem] at h
      obtain ⟨rfl, rfl⟩ := Prod.mk.inj (Option.some.inj h)
      exact Or.inr (Or.inl ⟨em, by rw [hem], rfl, by rw [hem]⟩)
    · rw [hem] at h
      obtain ⟨rfl, rfl⟩ := Prod.mk.inj (Option.some.inj h)
      exact Or.inl ⟨em, r, by rw [hem], rfl, by rw [hem]⟩
  | clear =>
    obtain ⟨rfl, rfl⟩ := Prod.mk.inj (Option.some.inj h)
    exact Or.inr (Or.inr (Or.inl ⟨rfl, rfl⟩))
  | visit =>
    cases hv : u.visit with
    | some v => simp only [hv, reduceCtorEq] at h
    | none =>
      simp only [hv] at h
      obtain ⟨rfl, rfl⟩ := Prod.mk.inj (Option.some.inj h)
      exact Or.inr (Or.inr (Or.inr (Or.inl ⟨rfl, rfl, rfl⟩)))
  | next =>
    cases hv : u.visit with
    | none => simp only [hv, reduceCtorEq] at h
    | some v =>
      simp only [hv] at h
      cases hcopy : copyAt b v.index u.state with
      | some r =>
        simp only [hcopy] at h
        obtain ⟨rfl, rfl⟩ := Prod.mk.inj (Option.some.inj h)
        exact Or.inr (Or.inr (Or.inr (Or.inr (Or.inl ⟨v, r, rfl, hcopy, rfl, rfl⟩))))
      | none =>
        simp only [hcopy] at h
        obtain ⟨rfl, rfl⟩ := Prod.mk.inj (Option.some.inj h)
        exact Or.inr (Or.inr (Or.inr (Or.inr (Or.inr ⟨v, rfl, hcopy, rfl, rfl⟩))))

/-- What an emission records. -/
theorem emit_some {em : Emission} {s : State} {r : Record} (h : (emit b em s).1 = some r) :
    r.sequence = s.nextSequence ∧ (emit b em s).2 = s.put b r := by
  unfold emit at h ⊢
  cases hp : em.admitted with
  | none => simp only [hp, reduceCtorEq] at h
  | some payload =>
    simp only [hp, Option.some.injEq] at h ⊢
    subst h
    exact ⟨rfl, rfl⟩

/-- What an emission leaves of the ring that records nothing. -/
theorem emit_none {em : Emission} {s : State} (h : (emit b em s).1 = none) :
    (emit b em s).2 = { s with rejectedCount := s.rejectedCount + 1 } := by
  unfold emit at h ⊢
  cases hp : em.admitted with
  | none => rfl
  | some payload => simp only [hp, reduceCtorEq] at h

/-- **A step keeps the ring** as the records say. -/
theorem ringInv_step {e : Seen} (h : RingInv b u.log u.state) (hstep : Step b u e u') :
    RingInv b u'.log u'.state := by
  rcases step_cases hstep with ⟨em, r, hem, -, rfl⟩ | ⟨em, hem, -, rfl⟩ | ⟨-, rfl⟩ | ⟨-, -, rfl⟩ |
    ⟨v, r, -, -, -, rfl⟩ | ⟨v, -, -, -, rfl⟩
  · obtain ⟨hr, hput⟩ := emit_some hem
    dsimp only
    rw [hput]
    exact h.put hr
  · dsimp only
    rw [emit_none hem]
    exact ⟨h.holds, h.oldest_lt, h.next, h.numbered⟩
  · exact h.clear
  · exact h
  · exact h
  · exact h

variable {es : List Seen}

/-- **A run keeps the ring** as the records say. -/
theorem ringInv_run (hr : Run (Step b) System.reset es u) : RingInv b u.log u.state :=
  hr.invariant (I := fun _ u => RingInv b u.log u.state) (ringInv_reset b) fun _ _ _ _ =>
    ringInv_step

/-! ### A visit -/

/-- **What a visit has passed** that is at its place: numbers that go up, up to the place, and of
those that were held when it began all that are held still. -/
structure VisitInv (b : Build) (m : System) (es : List Seen) (u : System) (v : Visit) : Prop where
  ring : RingInv b u.log u.state
  before : v.before = m.log.length
  first_le : m.first ≤ u.first
  moved : u.first = m.first ∨ u.state.heldCount = b.ringDepth
  length_le : m.log.length ≤ u.log.length
  ascending : (passedNumbers es).Pairwise (· < ·)
  within : ∀ n ∈ passedNumbers es, m.first ≤ n ∧ n < u.first + v.index ∧ n < u.log.length
  complete : ∀ n, u.first ≤ n → n < u.first + v.index → n < m.log.length → n ∈ passedNumbers es
  unwrapped : ∀ n, m.first < n → n < u.log.length → UInt32.ofNat n ≠ 0
  sequences : passedSequences es = (passedNumbers es).map UInt32.ofNat

/-- One more record, where the ring is not full. -/
theorem first_put (s : State) (r : Record) (log : List Record) (h : s.heldCount ≤ log.length) :
    (log ++ [r]).length - (s.put b r).heldCount =
      log.length - s.heldCount + if s.heldCount = b.ringDepth then 1 else 0 := by
  unfold State.put
  dsimp only
  rw [List.length_append, List.length_singleton]
  split_ifs <;> omega

theorem passedNumbers_concat (es : List Seen) (n : ℕ) (r : Record) :
    passedNumbers (es ++ [.passed n r]) = passedNumbers es ++ [n] := by
  unfold passedNumbers
  rw [List.filterMap_append]
  rfl

theorem passedSequences_concat (es : List Seen) (n : ℕ) (r : Record) :
    passedSequences (es ++ [.passed n r]) = passedSequences es ++ [r.sequence] := by
  unfold passedSequences
  rw [List.filterMap_append]
  rfl

/-- What is not passed adds nothing. -/
theorem passed_append_other {e : Seen} (h : ∀ n r, e ≠ .passed n r) (es : List Seen) :
    passedNumbers (es ++ [e]) = passedNumbers es ∧
      passedSequences (es ++ [e]) = passedSequences es := by
  unfold passedNumbers passedSequences
  rw [List.filterMap_append, List.filterMap_append]
  cases e with
  | passed n r => exact absurd rfl (h n r)
  | _ => exact ⟨List.append_nil _, List.append_nil _⟩

/-- A visit begins. -/
theorem visitInv_begin {m m' : System} (hm : RingInv b m.log m.state)
    (h : TimelyStep b m .visitBegins m') :
    ∃ v, m'.visit = some v ∧ VisitInv b m [.visitBegins] m' v := by
  obtain ⟨hstep, htimely⟩ := h
  rcases step_cases hstep with ⟨_, _, _, he, _⟩ | ⟨_, _, he, _⟩ | ⟨he, _⟩ | ⟨-, -, rfl⟩ |
    ⟨_, _, _, _, he, _⟩ | ⟨_, _, _, he, _⟩
  · cases he
  · cases he
  · cases he
  · have hheld := hm.held_le
    refine ⟨_, rfl, hm, rfl, le_rfl, Or.inl rfl, le_rfl, List.Pairwise.nil,
      fun n hn => absurd hn List.not_mem_nil,
      fun n hle hlt => absurd hlt (not_lt.2 (le_of_eq_of_le (Nat.add_zero _) hle)),
      fun n hfirst hn => ?_, rfl⟩
    -- a record held behind the oldest has another sequence
    dsimp only at hn
    unfold System.first at hfirst
    have hcopy := hm.copyAt (n - m.first)
    have hindex : n - m.first < m.state.heldCount := by
      unfold System.first
      omega
    rw [if_pos hindex, show m.log.length - m.state.heldCount + (n - m.first) = n by
      unfold System.first; omega, List.getElem?_eq_getElem hn] at hcopy
    have hne := htimely (n - m.first) _ (by unfold System.first; omega) hcopy
    rwa [hm.numbered n _ (List.getElem?_eq_getElem hn)] at hne
  · cases he
  · cases he

/-- **A step keeps what a visit has passed**, unless it ends it or clears the ring. -/
theorem visitInv_step {m : System} {e : Seen} {v : Visit} (h : VisitInv b m es u v)
    (hv : u.visit = some v) (hstep : TimelyStep b u e u') (hclear : e ≠ .cleared)
    (hend : e ≠ .visitEnds) : ∃ v', u'.visit = some v' ∧ VisitInv b m (es ++ [e]) u' v' := by
  obtain ⟨hs, htimely⟩ := hstep
  have hring := ringInv_step h.ring hs
  have hheld := h.ring.held_le
  rcases step_cases hs with ⟨em, r, hem, rfl, rfl⟩ | ⟨em, hem, rfl, rfl⟩ | ⟨rfl, _⟩ | ⟨hnone, _, _⟩ |
    ⟨v', r, hv', hcopy, rfl, rfl⟩ | ⟨_, _, _, rfl, _⟩
  · obtain ⟨hr, hput⟩ := emit_some hem
    obtain ⟨hfull, hwrap⟩ := htimely v hv
    obtain ⟨hnumbers, hsequences⟩ := passed_append_other (e := .recorded r) (by simp) es
    have hfirst : System.first ⟨(emit b em u.state).2, u.log ++ [r], u.visit⟩ =
        u.first + if u.state.heldCount = b.ringDepth then 1 else 0 := by
      unfold System.first
      rw [hput]
      exact first_put u.state r u.log hheld
    have hlength : (u.log ++ [r]).length = u.log.length + 1 := by simp
    refine ⟨v, hv, hring, h.before, ?_, ?_, ?_, ?_, fun n hn => ?_, fun n hle hlt hbefore => ?_,
      fun n hmn hn => ?_, ?_⟩
    · rw [hfirst]
      exact le_trans h.first_le (Nat.le_add_right _ _)
    · rw [hfirst]
      dsimp only
      rw [hput]
      unfold State.put
      dsimp only
      by_cases hdepth : u.state.heldCount = b.ringDepth
      · rw [if_pos hdepth, if_pos hdepth]
        exact Or.inr hdepth
      · rw [if_neg hdepth, if_neg hdepth]
        exact Or.inl (h.moved.resolve_right hdepth)
    · dsimp only
      rw [hlength]
      exact le_trans h.length_le (Nat.le_succ _)
    · rw [hnumbers]
      exact h.ascending
    · rw [hnumbers] at hn
      obtain ⟨hmn, hlt, hlen⟩ := h.within n hn
      rw [hfirst]
      dsimp only
      rw [hlength]
      exact ⟨hmn, by omega, by omega⟩
    · rw [hnumbers]
      rw [hfirst] at hle hlt
      by_cases heq : n = u.first + v.index
      · -- the record that was next has become the one before the next
        have hbefore' := h.before
        by_cases hdepth : u.state.heldCount = b.ringDepth
        · rw [if_pos hdepth] at hle hlt
          rcases hfull hdepth with h0 | hge
          · omega
          · omega
        · rw [if_neg hdepth] at hle hlt
          omega
      · refine h.complete n (by omega) ?_ hbefore
        split_ifs at hlt <;> omega
    · dsimp only at hn
      rw [hlength] at hn
      rcases Nat.lt_or_ge n u.log.length with hlt | hge
      · exact h.unwrapped n hmn hlt
      · have hn' : n = u.log.length := by omega
        intro hzero
        have hseq : r.sequence = 0 := by
          rw [hr, h.ring.next, ← hn', hzero]
        -- nothing is held, so that this is the first record since the visit began
        have h0 := hwrap hseq
        have hrange := b.ringDepth_range
        have hsame := h.moved.resolve_right (by omega)
        rw [← hsame] at hmn
        unfold System.first at hmn
        omega
    · rw [hnumbers, hsequences]
      exact h.sequences
  · obtain ⟨hnumbers, hsequences⟩ := passed_append_other (e := .rejected) (by simp) es
    rw [emit_none hem] at hring ⊢
    refine ⟨v, hv, hring, h.before, h.first_le, h.moved, h.length_le, ?_, ?_, ?_, h.unwrapped, ?_⟩
    · rw [hnumbers]
      exact h.ascending
    · rw [hnumbers]
      exact h.within
    · rw [hnumbers]
      exact h.complete
    · rw [hnumbers, hsequences]
      exact h.sequences
  · exact absurd rfl hclear
  · exact absurd (hv.symm.trans hnone) (by simp)
  · obtain rfl := Option.some.inj (hv.symm.trans hv')
    have hindex : v.index < u.state.heldCount := by
      by_contra hge
      rw [h.ring.copyAt, if_neg hge] at hcopy
      cases hcopy
    rw [h.ring.copyAt, if_pos hindex] at hcopy
    have hlt : u.first + v.index < u.log.length := by
      unfold System.first
      omega
    have hfirst : m.first ≤ u.first := h.first_le
    refine ⟨_, rfl, hring, h.before, h.first_le, h.moved, h.length_le, ?_, fun n hn => ?_,
      fun n hle hn hbefore => ?_, h.unwrapped, ?_⟩
    · rw [passedNumbers_concat, List.pairwise_append]
      refine ⟨h.ascending, List.pairwise_singleton _ _, fun n hn x hx => ?_⟩
      rw [List.mem_singleton.1 hx]
      exact (h.within n hn).2.1
    · rw [passedNumbers_concat] at hn
      show m.first ≤ n ∧ n < u.first + (v.index + 1) ∧ n < u.log.length
      rcases List.mem_append.1 hn with hn | hn
      · obtain ⟨hmn, hlt', hlen⟩ := h.within n hn
        exact ⟨hmn, by omega, hlen⟩
      · rw [List.mem_singleton.1 hn]
        exact ⟨by omega, by omega, hlt⟩
    · rw [passedNumbers_concat]
      have hle' : u.first ≤ n := hle
      have hn' : n < u.first + (v.index + 1) := hn
      by_cases heq : n = u.first + v.index
      · exact List.mem_append_right _ (List.mem_singleton.2 heq)
      · exact List.mem_append_left _ (h.complete n hle' (by omega) hbefore)
    · rw [passedNumbers_concat, passedSequences_concat, List.map_append, h.sequences,
        h.ring.numbered _ r hcopy]
      rfl
  · exact absurd rfl hend

/-- **While a visit goes on** it keeps what it has passed. -/
theorem visitInv_run {m : System} {bs : List Seen} {v : Visit} (h : VisitInv b m es u v)
    (hv : u.visit = some v) (hr : Run (TimelyStep b) u bs u')
    (hbs : ∀ e ∈ bs, e ≠ .cleared ∧ e ≠ .visitEnds) :
    ∃ v', u'.visit = some v' ∧ VisitInv b m (es ++ bs) u' v' := by
  induction hr with
  | nil => exact ⟨v, hv, by rwa [List.append_nil]⟩
  | @snoc t u' bs e hr hs ih =>
    obtain ⟨v', hv', h'⟩ := ih fun e he => hbs e (List.mem_append_left _ he)
    obtain ⟨hclear, hend⟩ := hbs e (by simp)
    obtain ⟨v'', hv'', h''⟩ := visitInv_step h' hv' hs hclear hend
    exact ⟨v'', hv'', by rwa [← List.append_assoc]⟩

/-- Numbers between which the sequence does not come round have sequences that go up. -/
theorem ofNat_lt_ofNat {a n n' : ℕ} (han : a ≤ n) (hlt : n < n')
    (h : ∀ j, a < j → j ≤ n' → UInt32.ofNat j ≠ 0) : UInt32.ofNat n < UInt32.ofNat n' := by
  rw [UInt32.lt_iff_toNat_lt, UInt32.toNat_ofNat', UInt32.toNat_ofNat']
  by_contra hge
  -- the last multiple of `2 ^ 32` up to `n'` lies behind `n`
  have hj := h (n' - n' % 2 ^ 32) (by omega) (Nat.sub_le _ _)
  refine hj (UInt32.toNat_inj.1 ?_)
  rw [UInt32.toNat_ofNat']
  show (n' - n' % 2 ^ 32) % 2 ^ 32 = 0
  omega

/-- What is asked of a visit: every record that is held when it begins and when it ends is passed
once, and the sequences that are passed go up. -/
def PassesAll (m : System) (es : List Seen) (u : System) : Prop :=
  (∀ n, m.Held n → u.Held n → (passedNumbers es).count n = 1) ∧
    (passedSequences es).Pairwise (· < ·)

/-- **A visit passes what stays**, once and in order, whatever is recorded meanwhile at the times
that are admitted. -/
theorem visit_passes {as bs : List Seen} {m u : System} (hm : Run (Step b) System.reset as m)
    (hr : Run (TimelyStep b) m (.visitBegins :: (bs ++ [.visitEnds])) u)
    (hbs : ∀ e ∈ bs, e ≠ .cleared ∧ e ≠ .visitEnds) :
    PassesAll m (.visitBegins :: (bs ++ [.visitEnds])) u := by
  obtain ⟨m', hbegin, hrest⟩ := run_cons_iff.1 hr
  obtain ⟨t, hbs', hend⟩ := run_snoc_iff.1 hrest
  obtain ⟨v, hv, hinv⟩ := visitInv_begin (ringInv_run hm) hbegin
  obtain ⟨v', hv', h⟩ := visitInv_run hinv hv hbs' hbs
  obtain ⟨hnumbers, hsequences⟩ := passed_append_other (e := .visitEnds) (by simp)
    ([.visitBegins] ++ bs)
  have hes : Seen.visitBegins :: (bs ++ [.visitEnds]) = [.visitBegins] ++ bs ++ [.visitEnds] := by
    simp
  unfold PassesAll
  rw [hes, hnumbers, hsequences]
  -- the loop has come to the end of what is held
  obtain ⟨hover, rfl⟩ : v'.index ≥ t.state.heldCount ∧ u = { t with visit := none } := by
    rcases step_cases hend.1 with ⟨_, _, _, he, _⟩ | ⟨_, _, he, _⟩ | ⟨he, _⟩ | ⟨-, he, _⟩ |
      ⟨_, _, _, _, he, _⟩ | ⟨w, hw, hcopy, -, hu⟩
    · cases he
    · cases he
    · cases he
    · cases he
    · cases he
    · obtain rfl := Option.some.inj (hv'.symm.trans hw)
      refine ⟨?_, hu⟩
      by_contra hlt
      unfold copyAt at hcopy
      rw [if_neg hlt] at hcopy
      cases hcopy
  have hheld := h.ring.held_le
  constructor
  · rintro n ⟨-, hbefore⟩ ⟨hfirst, hlt⟩
    have hmem := h.complete n hfirst (by
      have hlt' : n < t.log.length := hlt
      unfold System.first
      omega) hbefore
    exact List.count_eq_one_of_mem (h.ascending.imp fun h => h.ne) hmem
  · rw [h.sequences, List.pairwise_map]
    refine List.Pairwise.imp_of_mem (fun {n n'} hn hn' hlt => ?_) h.ascending
    exact ofNat_lt_ofNat (h.within n hn).1 hlt fun j hj hle =>
      h.unwrapped j hj (lt_of_le_of_lt hle (h.within n' hn').2.2)

/-! ### A ring of eight -/

/-- A ring of eight records. -/
def smallBuild : Build := ⟨8, by decide⟩

/-- An event of the application. -/
def sampleEmission : Emission := ⟨4, 1, 0, some [], 0⟩

/-- Steps, one after the other. -/
def actAll (b : Build) : List Input → System → Option (List Seen × System)
  | [], u => some ([], u)
  | input :: inputs, u =>
    match act b u input with
    | none => none
    | some (e, u') => (actAll b inputs u').map fun r => (e :: r.1, r.2)

theorem actAll_run {inputs : List Input} (h : actAll b inputs u = some (es, u')) :
    Run (Step b) u es u' := by
  induction inputs generalizing u es with
  | nil =>
    obtain ⟨rfl, rfl⟩ := Prod.mk.inj (Option.some.inj h)
    exact .nil u
  | cons input inputs ih =>
    unfold actAll at h
    cases hact : act b u input with
    | none => simp only [hact, reduceCtorEq] at h
    | some p =>
      simp only [hact] at h
      obtain ⟨r, hr, heq⟩ := Option.map_eq_some_iff.1 h
      obtain ⟨rfl, rfl⟩ := Prod.mk.inj heq
      exact .cons ⟨input, hact⟩ (ih hr)

/-- The state after some steps. -/
def after (b : Build) (inputs : List Input) (u : System) : System :=
  ((actAll b inputs u).map (·.2)).getD u

theorem after_run {inputs : List Input} (h : (actAll b inputs u).map (·.1) = some es) :
    Run (Step b) u es (after b inputs u) := by
  obtain ⟨r, hr, rfl⟩ := Option.map_eq_some_iff.1 h
  unfold after
  rw [hr]
  exact actAll_run hr

/-- A record of the sample. -/
def sampleRecord (sequence : UInt32) : Record := sampleEmission.record sequence []

/-- Two records are held. -/
def twoHeld : System := after smallBuild [.emit sampleEmission, .emit sampleEmission] .reset

/-- An event is recorded between the copies of the two, and is passed behind them. -/
theorem visit_passes_recorded : PassesAll twoHeld
    [.visitBegins, .passed 0 (sampleRecord 0), .recorded (sampleRecord 2),
      .passed 1 (sampleRecord 1), .passed 2 (sampleRecord 2), .visitEnds]
    (after smallBuild [.visit, .next, .emit sampleEmission, .next, .next, .next] twoHeld) := by
  have hm : Run (Step smallBuild) System.reset
      [.recorded (sampleRecord 0), .recorded (sampleRecord 1)] twoHeld :=
    after_run (by decide +kernel)
  refine @visit_passes smallBuild _ [.passed 0 (sampleRecord 0), .recorded (sampleRecord 2),
    .passed 1 (sampleRecord 1), .passed 2 (sampleRecord 2)] _ _ hm
    (.cons ⟨⟨.visit, rfl⟩, fun k r hk hcopy => ?_⟩ (.cons ⟨⟨.next, rfl⟩, trivial⟩
      (.cons ⟨⟨.emit sampleEmission, rfl⟩, fun v hv => ⟨fun hfull => ?_, fun hzero => ?_⟩⟩
        (.cons ⟨⟨.next, rfl⟩, trivial⟩ (.cons ⟨⟨.next, rfl⟩, trivial⟩
          (.single ⟨⟨.next, rfl⟩, trivial⟩)))))) (by simp)
  · obtain rfl | hover : k = 1 ∨ 2 ≤ k := by omega
    · obtain rfl := Option.some.inj hcopy
      decide
    · unfold copyAt at hcopy
      rw [if_pos (show k ≥ twoHeld.state.heldCount from hover)] at hcopy
      cases hcopy
  · exact absurd hfull (by decide)
  · exact absurd hzero (by decide)

/-- A full ring. -/
def fullRing : System := after smallBuild (List.replicate 8 (.emit sampleEmission)) .reset

/-- A visit of it, in which an event is recorded after the first copy. -/
def visitInputs : List Input :=
  .visit :: .next :: .emit sampleEmission :: List.replicate 8 .next

/-- What is seen in the visit. -/
def visitSeen : List Seen :=
  .passed 0 (sampleRecord 0) :: .recorded (sampleRecord 8) :: [2, 3, 4, 5, 6, 7, 8].map fun n =>
    .passed n (sampleRecord (UInt32.ofNat n))

/-- The record behind the first one is passed over, and stays. -/
theorem visit_skips : ¬ ∀ (as bs : List Seen) (m u : System),
    Run (Step smallBuild) System.reset as m →
    Run (Step smallBuild) m (.visitBegins :: (bs ++ [.visitEnds])) u →
    (∀ e ∈ bs, e ≠ .cleared ∧ e ≠ .visitEnds) →
      PassesAll m (.visitBegins :: (bs ++ [.visitEnds])) u := by
  intro h
  have hm : Run (Step smallBuild) System.reset ((List.range 8).map fun n =>
      .recorded (sampleRecord (UInt32.ofNat n))) fullRing := after_run (by decide +kernel)
  have hu : Run (Step smallBuild) fullRing (.visitBegins :: (visitSeen ++ [.visitEnds]))
      (after smallBuild visitInputs fullRing) := after_run (by decide +kernel)
  have hcount := (h _ _ _ _ hm hu (by decide +kernel)).1 1 (by unfold System.Held; decide +kernel)
    (by unfold System.Held; decide +kernel)
  exact absurd hcount (by decide +kernel)

end KfswServices.Event
