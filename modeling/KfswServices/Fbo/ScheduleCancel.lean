/-
# A cancelled release does not run

`kfsw_fbo_schedule_cancel` promises of an entry it cancelled that "it will not
run".  The promise is kept in every run that is undisturbed in the sense of
`KfswServices.Fbo.ScheduleRun`: no cancel of the candidate, and no clear, between the
scan that chose the candidate and the marking of its slot.  There every
invocation is of an entry that the last scan found waiting, due and not overdue.

`cancelled_entry_invoked` is the run in which the candidate is cancelled in that
gap, and invoked all the same.
-/

import KfswServices.Fbo.ScheduleRun

namespace KfswServices.Fbo

open Command Library

variable {ω : Type*}

/-- The last scan of the history `es` was of the sweep `w`, and chose slot `i` with
`a` in it: waiting, due, and not later than the buffer of that moment. -/
def Chosen (step : Sched → SchedEvent → Sched → Prop) (start : Sched) (es : List SchedEvent)
    (w : Sweep) (i : ℕ) (a : Slot) : Prop :=
  ∃ pre mid s l, es = pre ++ .select (some i) :: mid ∧ (∀ c, .select c ∉ mid) ∧
    Run step start pre s ∧ s.phase = .scanning w ∧ s.queue.slots[i]? = some a ∧
    a.used = true ∧ a.entry.status = .SCHEDULED ∧ a.dueNow w.mono w.utc = some l ∧
    l ≤ s.queue.latencyS

/-- Slot `copy` is the entry of `a`, with the same line for the same node. -/
structure SameEntry (copy a : Slot) : Prop where
  serial : copy.serial = a.serial
  line : copy.entry.line = a.entry.line
  node : copy.entry.node = a.entry.node

variable {step : Sched → SchedEvent → Sched → Prop} {start : Sched} {es : List SchedEvent}
  {w : Sweep} {i : ℕ} {a : Slot} {cfg : Config ω}

/-- Only another scan ends a choice. -/
theorem Chosen.snoc (h : Chosen step start es w i a) {e : SchedEvent} (he : ∀ c, e ≠ .select c) :
    Chosen step start (es ++ [e]) w i a := by
  obtain ⟨pre, mid, s, l, rfl, hmid, hrest⟩ := h
  refine ⟨pre, mid ++ [e], s, l, by simp, fun c hc => ?_, hrest⟩
  rcases List.mem_append.1 hc with hc | hc
  · exact hmid c hc
  · exact he c (List.mem_singleton.1 hc).symm

/-- What the history says of the slot the release thread works on. -/
def ChoiceInv (step : Sched → SchedEvent → Sched → Prop) (start : Sched) (es : List SchedEvent)
    (q : Queue) : Phase → Prop
  | .selected w i => ∃ a, q.slots[i]? = some a ∧ a.used = true ∧ Chosen step start es w i a
  | .marked w i copy => ∃ a, SameEntry copy a ∧ Chosen step start es w i a
  | _ => True

variable {s : Sched}

/-- Nothing but the release thread changes what it is about to do. -/
theorem choiceInv_caller {t : Sched} {e : SchedEvent}
    (h : ChoiceInv step start es s.queue s.phase) (hs : CalmStep cfg s e t)
    (he : e.ofThread = false) (hphase : t.phase = s.phase) :
    ChoiceInv step start (es ++ [e]) t.queue t.phase := by
  obtain ⟨hs, hund⟩ := hs
  have hsel : ∀ c, e ≠ .select c := by
    rintro c rfl
    cases he
  rw [hphase]
  cases hp : s.phase with
  | selected w i =>
    rw [hp] at h
    obtain ⟨a, ha, hu, hch⟩ := h
    obtain ⟨b, hb, hm⟩ := hs.slot_after ha
    obtain rfl := hm.selected_eq he hu hp hund
    exact ⟨b, hb, hu, hch.snoc hsel⟩
  | marked w i copy =>
    rw [hp] at h
    obtain ⟨a, hsame, hch⟩ := h
    exact ⟨a, hsame, hch.snoc hsel⟩
  | _ => trivial

theorem choiceInv_again (q : Queue) (w : Sweep) : ChoiceInv step start es q (w.again cfg) := by
  unfold Sweep.again
  split_ifs <;> trivial

theorem choiceInv_step {t : Sched} {e : SchedEvent} (hr : Run (CalmStep cfg) start es s)
    (h : ChoiceInv (CalmStep cfg) start es s.queue s.phase) (hs : CalmStep cfg s e t) :
    ChoiceInv (CalmStep cfg) start (es ++ [e]) t.queue t.phase := by
  have hcalm := hs
  obtain ⟨hs, hund⟩ := hs
  cases hs with
  | add r utc ha => exact choiceInv_caller h hcalm rfl rfl
  | cancel i => exact choiceInv_caller h hcalm rfl rfl
  | clear => exact choiceInv_caller h hcalm rfl rfl
  | setLatency floor seconds => exact choiceInv_caller h hcalm rfl rfl
  | tick ht => exact choiceInv_caller h hcalm rfl rfl
  | wake utc hp => exact choiceInv_again _ _
  | selectNone hp hn => trivial
  | @select w i hp hi =>
    obtain ⟨a, l, hbefore, hv, hafter⟩ := Queue.select_due hi
    obtain ⟨hu, hst, hdue, hl⟩ := Slot.examine_eq_due_iff.1 hv
    exact ⟨a, hafter, hu, es, [], s, l, rfl, by simp, hr, hp, hbefore, hu, hst, hdue, hl⟩
  | @mark w i hp =>
    rw [hp] at h
    obtain ⟨a, ha, -, hch⟩ := h
    refine ⟨a, ?_, hch.snoc (by simp)⟩
    simp only [Queue.markRunning, getD_of_getElem? ha]
    exact ⟨rfl, rfl, rfl⟩
  | invoke hp => trivial
  | finish answer hp => exact choiceInv_again _ _

/-- **Every invocation is of the last choice.** -/
theorem chosen_of_invoke {latencyS : ℕ} {clock : ℤ}
    (hr : Run (CalmStep cfg) (Sched.boot cfg latencyS clock) es s) :
    ∀ before after w i copy, es = before ++ .invoke w i copy :: after → ∃ a, SameEntry copy a ∧
        Chosen (CalmStep cfg) (Sched.boot cfg latencyS clock) before w i a := by
  rintro before after w i copy rfl
  obtain ⟨m, m', hm, hstep, -⟩ := run_split_iff.1 hr
  have hinv : Run (CalmStep cfg) (Sched.boot cfg latencyS clock) before m ∧
      ChoiceInv (CalmStep cfg) (Sched.boot cfg latencyS clock) before m.queue m.phase :=
    hm.invariant (I := fun es s => Run (CalmStep cfg) (Sched.boot cfg latencyS clock) es s ∧
      ChoiceInv (CalmStep cfg) (Sched.boot cfg latencyS clock) es s.queue s.phase)
      ⟨.nil _, trivial⟩ fun _ _ _ _ h hs => ⟨h.1.snoc hs, choiceInv_step h.1 h.2 hs⟩
  obtain ⟨-, h⟩ := hinv
  cases hstep.1 with
  | invoke hp =>
    rw [hp] at h
    exact h

/-! ### What the callers are promised -/

/-- After a cancel that returned 0 the entry is out of reach. -/
theorem never_of_cancel {s' : Sched} (h : SchedInv s) (hs : CalmStep cfg s (.cancel i none) s')
    (ha : s.queue.slots[i]? = some a) : Never (CalmStep cfg) s' a.serial := by
  have hinv := schedInv_step h hs
  generalize he : SchedEvent.cancel i none = e at hs
  obtain ⟨hs, -⟩ := hs
  cases hs with
  | cancel j =>
    obtain ⟨rfl, hout⟩ : i = j ∧ none = (s.queue.cancel j).2 := by simpa using he
    rcases s.queue.cancel_cases i with ⟨-, hfail⟩ | ⟨c, hc, hu, -, hq, -⟩
    · exact absurd hout.symm hfail
    · obtain rfl := Option.some.inj (ha.symm.trans hc)
      have hlt := (List.getElem?_eq_some_iff.1 ha).1
      have hslot : (s.queue.cancel i).1.slots[i]? = some (a.setStatus .CANCELLED) := by
        rw [hq]
        exact List.getElem?_set_self hlt
      have hk := (h.serials.bounds a (List.mem_of_getElem? ha) hu).2
      have hno := not_invokable_of_slot hinv hslot hu nofun nofun
      exact never_of_not_invokable hinv hk hno
  | _ => cases he

/-- So is an entry that was cleared. -/
theorem never_of_clear {s' : Sched} (h : SchedInv s) (hs : CalmStep cfg s .clear s')
    (ha : a ∈ s.queue.slots) (hd : a.droppable = true) : Never (CalmStep cfg) s' a.serial := by
  have hinv := schedInv_step h hs
  have hu : a.used = true := by
    simp only [Slot.droppable, Bool.and_eq_true] at hd
    exact hd.1
  have hacc := hs.1.accepted_eq
  have hb := h.serials.bounds a ha hu
  refine never_of_not_invokable hinv (by omega) (not_invokable_of_absent hinv fun b hb hub => ?_)
  obtain ⟨j, hj⟩ := List.mem_iff_getElem?.1 hb
  obtain ⟨i, hi⟩ := List.mem_iff_getElem?.1 ha
  obtain ⟨b', hb', hm⟩ := hs.1.slot hj
  intro hser
  cases hm with
  | stay =>
    obtain rfl := h.serials.unique j i b a hb' hi hub hu hser
    obtain ⟨c, hc, hmc⟩ := hs.1.slot_after hi
    obtain rfl := Option.some.inj (hi.symm.trans hb')
    obtain rfl := Option.some.inj (hc.symm.trans hj)
    obtain ⟨hs, -⟩ := hs
    cases hs with
    | clear =>
      simp only [Queue.clear, List.getElem?_map, hi, Option.map_some, hd, if_true] at hj
      rw [← Option.some.inj hj] at hub
      cases hub
  | dropped => cases hub

/-- **A cancelled release does not run.**  In every undisturbed run, an entry that
a cancel took or a clear dropped is not invoked afterwards, and each invocation is
of an entry that was waiting, due and not overdue when it was selected. -/
theorem cancelled_never_invoked {latencyS : ℕ} {clock : ℤ} {s : Sched}
    (hr : Run (CalmStep cfg) (Sched.boot cfg latencyS clock) es s) :
    (∀ i s' a, CalmStep cfg s (.cancel i none) s' → s.queue.slots[i]? = some a →
      Never (CalmStep cfg) s' a.serial) ∧
    (∀ s' a, CalmStep cfg s .clear s' → a ∈ s.queue.slots → a.droppable = true →
      Never (CalmStep cfg) s' a.serial) ∧
    (∀ before after w i copy, es = before ++ .invoke w i copy :: after → ∃ a, SameEntry copy a ∧
        Chosen (CalmStep cfg) (Sched.boot cfg latencyS clock) before w i a) := by
  have hinv := schedInv_run hr
  refine ⟨fun i s' a hs ha => ?_, fun s' a hs ha hd => ?_, chosen_of_invoke hr⟩
  · exact never_of_cancel hinv hs ha
  · exact never_of_clear hinv hs ha hd

/-! ### Runs -/

/-- A frozen registry with one command, which does nothing. -/
def noopNode : Node Unit :=
  ⟨[⟨1, CString.ofString "noop", [], fun _ _ w => (none, Result.zero, w)⟩], true, Claim.free,
    ⟨0, 0, 0, 0⟩, [], ()⟩

/-- A scheduler without remote commanding. -/
def noopConfig (entries burst : ℕ) : Config Unit := ⟨entries, burst, false, noopNode⟩

/-- `noop`, so many seconds from now. -/
def noopRequest (seconds : ℤ) : Request := ⟨some .RELATIVE, seconds, 0, some (.ofString "noop")⟩

/-- The slot the request is accepted into. -/
def noopSlot (serial i : ℕ) (seconds mono : ℤ) : Slot :=
  newSlot serial i .RELATIVE seconds 0 (.ofString "noop") 1 mono

theorem step_to {t t' : Sched} {e : SchedEvent} (h : step s e t) (ht : t = t') : step s e t' :=
  ht ▸ h

/-- The first of two entries is due, and the release thread has chosen it. -/
def candidateChosen : Sched :=
  ⟨⟨[noopSlot 1 0 1 0, noopSlot 2 1 2 0], 10, 0, 0, 0, none⟩, .selected ⟨1000, none, 0⟩ 0, 1000, 2⟩

theorem candidateChosen_run : Run (CalmStep (noopConfig 2 1)) (Sched.boot (noopConfig 2 1) 10 0)
    [.add (noopRequest 1) none none (some 0), .add (noopRequest 2) none none (some 1),
      .tick 1000, .wake none, .select (some 0)] candidateChosen := by
  refine .cons (t := ⟨⟨[noopSlot 1 0 1 0, Slot.zero], 10, 0, 0, 0, none⟩, .idle, 0, 1⟩)
    ⟨.add (a := ⟨⟨[noopSlot 1 0 1 0, Slot.zero], 10, 0, 0, 0, none⟩, none, some 0⟩) _ _
      (by decide +kernel), nofun⟩ ?_
  refine .cons (t := ⟨⟨[noopSlot 1 0 1 0, noopSlot 2 1 2 0], 10, 0, 0, 0, none⟩, .idle, 0, 2⟩)
    ⟨.add (a := ⟨⟨[noopSlot 1 0 1 0, noopSlot 2 1 2 0], 10, 0, 0, 0, none⟩, none, some 1⟩) _ _
      (by decide +kernel), nofun⟩ ?_
  refine .cons ⟨.tick (t := 1000) (by decide), nofun⟩ ?_
  refine .cons ⟨.wake none rfl, nofun⟩ ?_
  exact .single ⟨step_to (.select (w := ⟨1000, none, 0⟩) (by decide +kernel) (by decide +kernel))
    (by decide +kernel), by simp [Undisturbed, Sweep.again, noopConfig]⟩

/-- A caller cancels the candidate before it is marked. -/
def candidateCancelled : Sched :=
  { candidateChosen with queue := (candidateChosen.queue.cancel 0).1 }

/-- The candidate is cancelled, with 0, after it was chosen; it is then marked and
invoked. -/
theorem cancelled_entry_invoked : ¬ ∀ (cfg : Config Unit) (latencyS : ℕ) (clock : ℤ)
    (es : List SchedEvent) (s s' : Sched) (i : ℕ) (a : Slot),
    Run (SchedStep cfg) (Sched.boot cfg latencyS clock) es s →
      SchedStep cfg s (.cancel i none) s' → s.queue.slots[i]? = some a →
      Never (SchedStep cfg) s' a.serial := by
  intro h
  have hrun : Run (SchedStep (noopConfig 2 1)) _ _ candidateChosen :=
    candidateChosen_run.mono fun _ _ _ hs => hs.1
  have hcancel : SchedStep (noopConfig 2 1) candidateChosen (.cancel 0 none) candidateCancelled :=
    .cancel 0
  have hmark : SchedStep (noopConfig 2 1) candidateCancelled (.mark 0) _ := .mark rfl
  have hnever := h _ _ _ _ _ _ 0 (noopSlot 1 0 1 0) hrun hcancel rfl
  exact hnever _ _ (.cons hmark (.single (.invoke rfl))) _ _ _
    (List.mem_cons_of_mem _ (List.mem_singleton_self _)) (by decide +kernel)

/-- The first entry is being invoked, as it was chosen, when the second is
cancelled; the second is not invoked after that. -/
theorem cancelled_never_invoked_second : ∃ es s s' w copy,
    Run (CalmStep (noopConfig 2 1)) (Sched.boot (noopConfig 2 1) 10 0) (es ++ [.invoke w 0 copy]) s ∧
      CalmStep (noopConfig 2 1) s (.cancel 1 none) s' ∧ Never (CalmStep (noopConfig 2 1)) s' 2 ∧
      ∃ a, SameEntry copy a ∧
        Chosen (CalmStep (noopConfig 2 1)) (Sched.boot (noopConfig 2 1) 10 0) es w 0 a := by
  have hrun := (candidateChosen_run.snoc ⟨SchedStep.mark rfl, by simp [Undisturbed]⟩).snoc
    ⟨SchedStep.invoke rfl, by simp [Undisturbed]⟩
  obtain ⟨hcancel, -, hchosen⟩ := cancelled_never_invoked hrun
  refine ⟨_, _, _, _, _, hrun, ⟨.cancel 1, by simp [Undisturbed]⟩, ?_, hchosen _ _ _ _ _ rfl⟩
  exact hcancel 1 _ (noopSlot 2 1 2 0) ⟨.cancel 1, by simp [Undisturbed]⟩ rfl

end KfswServices.Fbo
