/-
# What the scheduler guarantees over a whole run

With `add`, `cancel`, `clear` and a whole sweep taken as atomic, callers act only
between two sweeps (`AtomicStep`).  Then an entry is invoked at most once, at or
after its time on the clock it is tied to, and not once it is cancelled, overdue or
cleared; its status moves along the edges of `StatusStep`; a sweep invokes no more
entries than the burst; and a repeated upload finds the entry that is live.

The last of these has a gate before it.  An absolute entry is refused while the
wall clock is not set, or when its time is past the buffer, before the queue is
looked at: `duplicate_refused_by_clock`.
-/

import KfswServices.Fbo.ScheduleCancel

namespace KfswServices.Fbo

open Command Library

variable {ω : Type*} {cfg : Config ω}

/-- A caller takes the step. -/
def SchedEvent.ofCaller : SchedEvent → Bool
  | .add _ _ _ _ | .cancel _ _ | .clear | .setLatency _ _ => true
  | _ => false

/-- A step of a run in which sweeps are atomic: callers act between two of them.
Time may pass at any moment. -/
def AtomicStep (cfg : Config ω) (s : Sched) (e : SchedEvent) (t : Sched) : Prop :=
  SchedStep cfg s e t ∧ (e.ofCaller = true → s.phase = .idle)

variable {s t : Sched} {e : SchedEvent}

theorem AtomicStep.calm (h : AtomicStep cfg s e t) : CalmStep cfg s e t := by
  refine ⟨h.1, fun w i hp => ⟨?_, ?_⟩⟩
  · rintro outcome rfl
    have := h.2 rfl
    rw [hp] at this
    cases this
  · rintro rfl
    have := h.2 rfl
    rw [hp] at this
    cases this

theorem Never.mono {step step' : Sched → SchedEvent → Sched → Prop} {serial : ℕ}
    (h : Never step s serial) (hsub : ∀ s e t, step' s e t → step s e t) : Never step' s serial :=
  fun es t hr => h es t (hr.mono hsub)

/-! ### At most once -/

/-- The step invokes the entry with this serial number. -/
def SchedEvent.invokes (serial : ℕ) : SchedEvent → Bool
  | .invoke _ _ copy => copy.serial = serial
  | _ => false

variable {i : ℕ}

/-- Once it is invoked, an entry is out of reach. -/
theorem not_invokable_of_invoke {w : Sweep} {copy : Slot} (h : SchedInv s)
    (hs : CalmStep cfg s (.invoke w i copy) t) :
    Invokable s copy.serial ∧ copy.serial ≤ s.accepted ∧ ¬ Invokable t copy.serial := by
  have hinv := schedInv_step h hs
  cases hs.1 with
  | invoke hp =>
    have hph := h.phase
    rw [hp] at hph
    obtain ⟨ha, hu, hst, -⟩ := hph
    refine ⟨.inr ⟨w, i, copy, hp, rfl⟩, ?_, ?_⟩
    · exact (h.serials.bounds copy (List.mem_of_getElem? ha) hu).2
    · rintro (⟨b, hb, hub, hser, hsb⟩ | ⟨w', j, copy', hp', -⟩)
      · obtain ⟨j, hj⟩ := List.mem_iff_getElem?.1 hb
        obtain rfl := h.serials.unique j i b copy hj ha hub hu hser
        obtain rfl := Option.some.inj (hj.symm.trans ha)
        rw [hst] at hsb
        cases hsb
      · cases hp'

/-- How often an entry was invoked, against what may still happen to it. -/
def OnceInv (es : List SchedEvent) (s : Sched) : Prop :=
  ∀ k, es.countP (·.invokes k) ≤ 1 ∧
    (Invokable s k ∨ s.accepted < k → es.countP (·.invokes k) = 0)

theorem onceInv_step {es : List SchedEvent} (h : SchedInv s) (ho : OnceInv es s)
    (hs : CalmStep cfg s e t) : OnceInv (es ++ [e]) t := by
  intro k
  have hacc := hs.1.accepted_eq
  rw [List.countP_append, List.countP_singleton]
  by_cases he : e.invokes k = true
  · -- the first invocation, and the last
    cases e with
    | invoke w i copy =>
      obtain rfl : copy.serial = k := by simpa [SchedEvent.invokes] using he
      obtain ⟨hbefore, hle, hafter⟩ := not_invokable_of_invoke h hs
      have hzero := (ho copy.serial).2 (.inl hbefore)
      rw [if_pos he, hzero]
      refine ⟨le_rfl, ?_⟩
      rintro (hi | hlt)
      · exact absurd hi hafter
      · omega
    | _ => simp [SchedEvent.invokes] at he
  · rw [if_neg he]
    refine ⟨(ho k).1, fun hk => (ho k).2 ?_⟩
    rcases hk with hi | hlt
    · rcases invokable_step h hs hi with hold | hnew
      · exact .inl hold
      · exact .inr (by omega)
    · exact .inr (by omega)

variable {latencyS : ℕ} {clock : ℤ}

theorem onceInv_run {es : List SchedEvent}
    (hr : Run (CalmStep cfg) (Sched.boot cfg latencyS clock) es s) : OnceInv es s := by
  have key : SchedInv s ∧ OnceInv es s :=
    hr.invariant (I := fun es s => SchedInv s ∧ OnceInv es s)
      ⟨schedInv_boot cfg latencyS clock, fun k => by simp⟩
      fun _ _ _ _ h hs => ⟨schedInv_step h.1 hs, onceInv_step h.1 h.2 hs⟩
  exact key.2

/-! ### The readings of a sweep -/

/-- The step invokes an entry. -/
def SchedEvent.isInvoke : SchedEvent → Bool
  | .invoke _ _ _ => true
  | _ => false

/-- The sweep the release thread is in, and the invocations it has made. -/
def Phase.sweep? : Phase → Option (Sweep × ℕ)
  | .idle => none
  | .scanning w | .selected w _ | .marked w _ _ => some (w, w.released)
  | .running w _ _ => some (w, w.released + 1)

/-- The sweep `w` began with the last `wake` of the history, read its clocks there,
and has made `k` invocations since. -/
def Swept (step : Sched → SchedEvent → Sched → Prop) (start : Sched) (es : List SchedEvent)
    (w : Sweep) (k : ℕ) : Prop :=
  ∃ pre mid m, es = pre ++ .wake w.utc :: mid ∧ (∀ utc, .wake utc ∉ mid) ∧
    Run step start pre m ∧ m.clock = w.mono ∧ mid.countP (·.isInvoke) = k

variable {step : Sched → SchedEvent → Sched → Prop} {start : Sched} {es : List SchedEvent}

theorem Swept.snoc {w : Sweep} {k : ℕ} (h : Swept step start es w k) (he : ∀ utc, e ≠ .wake utc) :
    Swept step start (es ++ [e]) w (k + if e.isInvoke then 1 else 0) := by
  obtain ⟨pre, mid, m, rfl, hmid, hrun, hclock, hcount⟩ := h
  refine ⟨pre, mid ++ [e], m, by simp, fun utc hmem => ?_, hrun, hclock, ?_⟩
  · rcases List.mem_append.1 hmem with hmem | hmem
    · exact hmid utc hmem
    · exact he utc (List.mem_singleton.1 hmem).symm
  · rw [List.countP_append, List.countP_singleton, hcount]

/-- Inside a sweep there is room for another release. -/
def SweepInv (cfg : Config ω) (step : Sched → SchedEvent → Sched → Prop) (start : Sched)
    (es : List SchedEvent) (phase : Phase) : Prop :=
  ∀ w k, phase.sweep? = some (w, k) → w.released < cfg.burst ∧ Swept step start es w k

theorem sweepInv_again {w : Sweep} (h : Swept step start es w w.released) :
    SweepInv cfg step start es (w.again cfg) := by
  intro w' k hw
  unfold Sweep.again at hw
  split_ifs at hw with hlt
  · obtain ⟨rfl, rfl⟩ : w = w' ∧ w.released = k := by simpa [Phase.sweep?] using hw
    exact ⟨hlt, h⟩
  · cases hw

/-- A step that stays in the sweep. -/
theorem SweepInv.snoc {phase phase' : Phase} (h : SweepInv cfg step start es phase)
    (he : ∀ utc, e ≠ .wake utc)
    (hphase : ∀ w k, phase'.sweep? = some (w, k) →
      ∃ k', phase.sweep? = some (w, k') ∧ k = k' + if e.isInvoke then 1 else 0) :
    SweepInv cfg step start (es ++ [e]) phase' := by
  intro w k hw
  obtain ⟨k', hk', rfl⟩ := hphase w k hw
  obtain ⟨hlt, hswept⟩ := h w k' hk'
  exact ⟨hlt, hswept.snoc he⟩

theorem sweepInv_step (hr : Run step start es s) (h : SweepInv cfg step start es s.phase)
    (hs : SchedStep cfg s e t) : SweepInv cfg step start (es ++ [e]) t.phase := by
  cases hs with
  | add r utc ha => exact h.snoc (by simp) fun w k hw => ⟨k, hw, rfl⟩
  | cancel i => exact h.snoc (by simp) fun w k hw => ⟨k, hw, rfl⟩
  | clear => exact h.snoc (by simp) fun w k hw => ⟨k, hw, rfl⟩
  | setLatency floor seconds => exact h.snoc (by simp) fun w k hw => ⟨k, hw, rfl⟩
  | tick ht => exact h.snoc (by simp) fun w k hw => ⟨k, hw, rfl⟩
  | wake utc hp => exact sweepInv_again ⟨es, [], s, rfl, by simp, hr, rfl, rfl⟩
  | selectNone hp hn => exact h.snoc (by simp) fun w k hw => by cases hw
  | select hp hi => exact h.snoc (by simp) fun w k hw => ⟨k, by rw [hp]; exact hw, rfl⟩
  | mark hp => exact h.snoc (by simp) fun w k hw => ⟨k, by rw [hp]; exact hw, rfl⟩
  | @invoke w i copy hp =>
    refine h.snoc (by simp) fun w' k hw => ⟨w.released, ?_, ?_⟩
    · cases hw
      rw [hp]
      rfl
    · cases hw
      rfl
  | @finish w i copy answer hp =>
    obtain ⟨-, hswept⟩ := h w (w.released + 1) (by rw [hp]; rfl)
    exact sweepInv_again (hswept.snoc (by simp))

theorem sweepInv_run (hsub : ∀ s e t, step s e t → SchedStep cfg s e t)
    (hr : Run step (Sched.boot cfg latencyS clock) es s) :
    SweepInv cfg step (Sched.boot cfg latencyS clock) es s.phase := by
  have key : Run step (Sched.boot cfg latencyS clock) es s ∧
      SweepInv cfg step (Sched.boot cfg latencyS clock) es s.phase :=
    hr.invariant (I := fun es s => Run step (Sched.boot cfg latencyS clock) es s ∧
      SweepInv cfg step (Sched.boot cfg latencyS clock) es s.phase)
      ⟨.nil _, nofun⟩ fun _ _ _ _ h hs => ⟨h.1.snoc hs, sweepInv_step h.1 h.2 (hsub _ _ _ hs)⟩
  exact key.2

/-- The step is the start of a sweep. -/
def SchedEvent.IsWake (e : SchedEvent) : Prop := ∃ utc, e = .wake utc

/-- After every `wake` at most a burst of invocations, up to the next one. -/
def BurstInv (cfg : Config ω) (es : List SchedEvent) : Prop :=
  ∀ pre utc mid, es = pre ++ .wake utc :: mid → (∀ e ∈ mid, ¬ e.IsWake) →
    mid.countP (·.isInvoke) ≤ cfg.burst

theorem burstInv_step (h : SweepInv cfg step start es s.phase) (hb : BurstInv cfg es)
    (hs : SchedStep cfg s e t) : BurstInv cfg (es ++ [e]) := by
  intro pre utc mid heq hmid
  rcases List.eq_nil_or_concat mid with rfl | ⟨mid, f, rfl⟩
  · exact Nat.zero_le _
  · rw [List.concat_eq_append] at heq hmid ⊢
    rw [← List.cons_append, ← List.append_assoc] at heq
    obtain ⟨hes, hef⟩ := List.append_inj' heq rfl
    obtain rfl := List.singleton_inj.1 hef
    have hmid' : ∀ x ∈ mid, ¬ x.IsWake := fun x hx => hmid x (List.mem_append_left _ hx)
    rw [List.countP_append, List.countP_singleton]
    have hle := hb pre utc mid hes hmid'
    cases hs with
    | @invoke w i copy hp =>
      -- the thread is inside the sweep that began with this very `wake`
      obtain ⟨hlt, pre', mid', m, hes', hno, -, -, hcount⟩ := h w w.released (by rw [hp]; rfl)
      have hno' : ∀ x ∈ mid', ¬ x.IsWake := by
        rintro x hx ⟨u, rfl⟩
        exact hno u hx
      obtain ⟨-, -, rfl⟩ :=
        last_split_unique (hes.symm.trans hes') ⟨utc, rfl⟩ ⟨w.utc, rfl⟩ hmid' hno'
      rw [hcount]
      exact hlt
    | _ => exact hle

theorem burstInv_run (hr : Run (SchedStep cfg) (Sched.boot cfg latencyS clock) es s) :
    BurstInv cfg es := by
  have key : Run (SchedStep cfg) (Sched.boot cfg latencyS clock) es s ∧ BurstInv cfg es :=
    hr.invariant (I := fun es s => Run (SchedStep cfg) (Sched.boot cfg latencyS clock) es s ∧
      BurstInv cfg es) ⟨.nil _, fun pre utc mid heq => by simp at heq⟩
      fun _ _ _ _ h hs => ⟨h.1.snoc hs, burstInv_step (sweepInv_run (fun _ _ _ h => h) h.1) h.2 hs⟩
  exact key.2

/-! ### Statuses -/

/-- The edges a status moves along. -/
inductive StatusStep : EntryStatus → EntryStatus → Prop
  | release : StatusStep .SCHEDULED .RUNNING
  | complete : StatusStep .RUNNING .COMPLETED
  | fail : StatusStep .RUNNING .FAILED
  | overdue : StatusStep .SCHEDULED .OVERDUE
  | cancel : StatusStep .SCHEDULED .CANCELLED

variable {a : Slot}

/-- **What one step makes of a slot**: nothing, an edge, an emptied slot, or an
entry that waits. -/
theorem SlotMove.edge {b : Slot} (h : SchedInv s) (hm : SlotMove cfg s e i a b)
    (ha : s.queue.slots[i]? = some a) :
    (a = b ∨ (a.used = true ∧ b.used = true ∧ b.serial = a.serial ∧
      StatusStep a.entry.status b.entry.status)) ∨
    (a.used = true ∧ a.entry.status ≠ .RUNNING ∧ e = .clear ∧ b = Slot.zero) ∨
    (a.used = false ∧ b.used = true ∧ b.entry.status = .SCHEDULED) := by
  have hph := h.phase
  cases hm with
  | stay => exact .inl (.inl rfl)
  | fill hfree => exact .inr (.inr ⟨hfree, rfl, rfl⟩)
  | cancelled hu hst => exact .inl (.inr ⟨hu, hu, rfl, by rw [hst]; exact .cancel⟩)
  | dropped hd =>
    simp only [Slot.droppable, Bool.and_eq_true, decide_eq_true_eq] at hd
    exact .inr (.inl ⟨hd.1, hd.2, rfl, rfl⟩)
  | overdue hp hv =>
    obtain ⟨hu, hst, -⟩ := Slot.examine_eq_overdue_iff.1 hv
    exact .inl (.inr ⟨hu, hu, rfl, by rw [hst]; exact .overdue⟩)
  | marked hp =>
    rw [hp] at hph
    obtain ⟨c, l, hc, hu, hst, -⟩ := hph
    obtain rfl := Option.some.inj (ha.symm.trans hc)
    exact .inl (.inr ⟨hu, hu, rfl, by rw [hst]; exact .release⟩)
  | recorded hp =>
    rw [hp] at hph
    obtain ⟨c, hc, hu, -, hst⟩ := hph
    obtain rfl := Option.some.inj (ha.symm.trans hc)
    refine .inl (.inr ⟨hu, hu, rfl, ?_⟩)
    rw [hst]
    simp only [Slot.record]
    split_ifs
    · exact .fail
    · exact .complete

theorem SchedStep.edge {b : Slot} (hs : SchedStep cfg s e t) (h : SchedInv s)
    (ha : s.queue.slots[i]? = some a) (hb : t.queue.slots[i]? = some b) :
    (a = b ∨ (a.used = true ∧ b.used = true ∧ b.serial = a.serial ∧
      StatusStep a.entry.status b.entry.status)) ∨
    (a.used = true ∧ a.entry.status ≠ .RUNNING ∧ e = .clear ∧ b = Slot.zero) ∨
    (a.used = false ∧ b.used = true ∧ b.entry.status = .SCHEDULED) := by
  obtain ⟨c, hc, hm⟩ := hs.slot_after ha
  obtain rfl := Option.some.inj (hb.symm.trans hc)
  exact hm.edge h ha

/-! ### Repeated uploads -/

/-- The time an entry was added with. -/
def Slot.time (a : Slot) : ℤ :=
  match a.entry.kind with
  | .RELATIVE => a.entry.delayS
  | .ABSOLUTE => a.entry.dueUtc

/-- The request that asks for the content of the slot again. -/
def Slot.request (a : Slot) : Request :=
  ⟨some a.entry.kind, a.time, a.entry.node, some a.entry.line⟩

/-- Every entry was accepted for its content and carries its hash; no two live ones
share it. -/
structure ContentInv (cfg : Config ω) (s : Sched) : Prop where
  accepted : ∀ a ∈ s.queue.slots, a.used = true →
    a.entry.contentHash = contentHash a.entry.kind a.time a.entry.node a.entry.line ∧
      ∃ d, Accepts cfg a.request a.entry.line a.entry.kind d
  distinct : ∀ (i j : ℕ) (a b : Slot), s.queue.slots[i]? = some a → s.queue.slots[j]? = some b →
    a.live = true → b.live = true → a.entry.contentHash = b.entry.contentHash → i = j

theorem newSlot_time (serial index : ℕ) (kind : TimeKind) (time : ℤ) (node : UInt16)
    (line : CString) (id : UInt16) (mono : ℤ) :
    (newSlot serial index kind time node line id mono).time = time := by
  cases kind <;> rfl

theorem Accepts.newSlot {r : Request} {line : CString} {kind : TimeKind} {d : Definition ω}
    (h : Accepts cfg r line kind d) (serial index : ℕ) (mono : ℤ) :
    Accepts cfg (newSlot serial index kind r.time r.node line d.id mono).request line kind d := by
  rw [Slot.request, newSlot_time]
  exact ⟨rfl, rfl, h.nonempty, h.fits, h.future, h.week, h.reachable, h.built⟩

/-- A slot in use keeps its content, or was filled. -/
theorem SlotMove.content {b : Slot} (hm : SlotMove cfg s e i a b) (hu : b.used = true) :
    (a.used = true ∧ b.request = a.request ∧ b.entry.contentHash = a.entry.contentHash) ∨
      ∃ r utc line kind d, a.used = false ∧ e = .add r utc none (some i) ∧
        Accepts cfg r line kind d ∧ (∀ c ∈ s.queue.slots, c.live = true →
          c.entry.contentHash ≠ contentHash kind r.time r.node line) ∧
        b = newSlot (s.accepted + 1) i kind r.time r.node line d.id s.clock := by
  cases hm with
  | stay => exact .inl ⟨hu, rfl, rfl⟩
  | @fill r utc _ _ line kind d hfree hacc hnew =>
    exact .inr ⟨r, utc, line, kind, d, hfree, rfl, hacc, hnew, rfl⟩
  | cancelled hua => exact .inl ⟨hua, rfl, rfl⟩
  | dropped => cases hu
  | overdue hp hv => exact .inl ⟨(Slot.examine_eq_overdue_iff.1 hv).1, rfl, rfl⟩
  | marked => exact .inl ⟨hu, rfl, rfl⟩
  | recorded => exact .inl ⟨hu, rfl, rfl⟩

/-- A slot in use that is live now was live before. -/
theorem SlotMove.live {b : Slot} (h : SchedInv s) (hm : SlotMove cfg s e i a b)
    (ha : s.queue.slots[i]? = some a) (hu : a.used = true) (hl : b.live = true) :
    a.live = true := by
  rcases hm.edge h ha with (rfl | ⟨-, -, -, hedge⟩) | ⟨-, -, -, rfl⟩ | ⟨hfree, -, -⟩
  · exact hl
  · simp only [Slot.live, Bool.and_eq_true, Bool.or_eq_true, decide_eq_true_eq] at hl ⊢
    refine ⟨hu, ?_⟩
    generalize a.entry.status = x at hedge ⊢
    generalize b.entry.status = y at hedge hl
    cases hedge <;> simp
  · cases hl
  · rw [hu] at hfree
    cases hfree

theorem Slot.used_of_live (h : a.live = true) : a.used = true := by
  simp only [Slot.live, Bool.and_eq_true] at h
  exact h.1

theorem contentInv_step (h : SchedInv s) (hc : ContentInv cfg s) (hs : SchedStep cfg s e t) :
    ContentInv cfg t := by
  refine ⟨fun b hb hu => ?_, fun i j a b ha hb hla hlb hab => ?_⟩
  · obtain ⟨i, hi⟩ := List.mem_iff_getElem?.1 hb
    obtain ⟨a, ha, hm⟩ := hs.slot hi
    rcases hm.content hu with ⟨hua, hreq, hhash⟩ | ⟨r, utc, line, kind, d, -, -, hacc, -, rfl⟩
    · obtain ⟨hh, d, hd⟩ := hc.accepted a (List.mem_of_getElem? ha) hua
      obtain ⟨hkind, htime, hnode, hline⟩ : b.entry.kind = a.entry.kind ∧ b.time = a.time ∧
          b.entry.node = a.entry.node ∧ b.entry.line = a.entry.line := by
        simpa [Slot.request] using hreq
      rw [hkind, htime, hnode, hline, hhash, hreq]
      exact ⟨hh, d, hd⟩
    · refine ⟨?_, d, hacc.newSlot _ _ _⟩
      rw [newSlot_time]
      rfl
  · obtain ⟨a', ha', hma⟩ := hs.slot ha
    obtain ⟨b', hb', hmb⟩ := hs.slot hb
    rcases hma.content (Slot.used_of_live hla) with
        ⟨hua, -, hha⟩ | ⟨r, utc, line, kind, d, -, he, -, hnew, rfl⟩ <;>
      rcases hmb.content (Slot.used_of_live hlb) with
        ⟨hub, -, hhb⟩ | ⟨r', utc', line', kind', d', -, he', -, hnew', rfl⟩
    · have hla' := hma.live h ha' hua hla
      have hlb' := hmb.live h hb' hub hlb
      exact hc.distinct i j a' b' ha' hb' hla' hlb' (hha.symm.trans (hab.trans hhb))
    · have hla' := hma.live h ha' hua hla
      exact absurd (hha.symm.trans hab) (hnew' a' (List.mem_of_getElem? ha') hla')
    · have hlb' := hmb.live h hb' hub hlb
      exact absurd (hhb.symm.trans hab.symm) (hnew b' (List.mem_of_getElem? hb') hlb')
    · rw [he] at he'
      cases he'
      rfl

theorem contentInv_boot (cfg : Config ω) (latencyS : ℕ) (clock : ℤ) :
    ContentInv cfg (Sched.boot cfg latencyS clock) := by
  have hz : ∀ a ∈ (Sched.boot cfg latencyS clock).queue.slots, a = Slot.zero :=
    fun a ha => List.eq_of_mem_replicate ha
  refine ⟨fun a ha hu => ?_, fun i j a b ha _ hl => ?_⟩
  · rw [hz a ha] at hu
    cases hu
  · rw [hz a (List.mem_of_getElem? ha)] at hl
    cases hl

theorem contentInv_run (hr : Run (CalmStep cfg) (Sched.boot cfg latencyS clock) es s) :
    ContentInv cfg s := by
  have key : SchedInv s ∧ ContentInv cfg s :=
    hr.invariant (I := fun _ s => SchedInv s ∧ ContentInv cfg s)
      ⟨schedInv_boot cfg latencyS clock, contentInv_boot cfg latencyS clock⟩
      fun _ _ _ _ h hs => ⟨schedInv_step h.1 hs, contentInv_step h.1 h.2 hs.1⟩
  exact key.2

/-- **A repeated upload finds the live entry.** -/
theorem ContentInv.duplicate (h : ContentInv cfg s) (ha : s.queue.slots[i]? = some a)
    (hl : a.live = true) {utc : Option ℤ} (serial : ℕ) (mono : ℤ)
    (hgate : clockGate a.entry.kind a.time utc s.queue.latencyS = none) :
    s.queue.add cfg serial a.request utc mono = ⟨s.queue, some .EEXIST, some i⟩ := by
  obtain ⟨hhash, d, hacc⟩ := h.accepted a (List.mem_of_getElem? ha) (Slot.used_of_live hl)
  have hfind : (s.queue.slots.findIdx? fun c => c.live && c.entry.contentHash =
      contentHash a.entry.kind a.request.time a.request.node a.entry.line) = some i := by
    obtain ⟨hlt, hget⟩ := List.getElem?_eq_some_iff.1 ha
    refine List.findIdx?_eq_some_iff_getElem.2 ⟨hlt, ?_, fun j hj hp => ?_⟩
    · simp [hget, hl, hhash, Slot.request]
    · obtain ⟨hlj, hhj⟩ : s.queue.slots[j].live = true ∧ _ = _ := by simpa using hp
      have := h.distinct j i _ a (List.getElem?_eq_getElem (by omega)) ha hlj hl
        (hhj.trans hhash.symm)
      omega
  rw [hacc.add_eq hgate, hfind]

/-! ### Whole runs -/

/-- **What a history of atomic operations guarantees**, in the state it leads to. -/
structure ScheduleSafe (cfg : Config ω) (start : Sched) (es : List SchedEvent) (s : Sched) :
    Prop where
  /-- An entry is invoked at most once. -/
  once : ∀ serial, es.countP (·.invokes serial) ≤ 1
  /-- When it is, the clocks its sweep read stand at or past its time, and for an
  absolute entry the wall clock was set. -/
  due : ∀ before after w i copy, es = before ++ .invoke w i copy :: after →
    (∃ k, Swept (AtomicStep cfg) start before w k) ∧
      (copy.entry.kind = .RELATIVE → copy.dueUptimeMs ≤ w.mono) ∧
      (copy.entry.kind = .ABSOLUTE → ∃ now, w.utc = some now ∧ copy.entry.dueUtc ≤ now)
  /-- A cancelled or overdue entry is not invoked any more. -/
  stopped : ∀ a ∈ s.queue.slots, a.used = true →
    a.entry.status = .CANCELLED ∨ a.entry.status = .OVERDUE →
    Never (AtomicStep cfg) s a.serial
  /-- Nor is one that is cleared. -/
  cleared : ∀ (s' : Sched) (a : Slot), AtomicStep cfg s .clear s' → a ∈ s.queue.slots →
    a.droppable = true → Never (AtomicStep cfg) s' a.serial
  /-- The status of an entry moves along an edge, or stays. -/
  status : ∀ (e : SchedEvent) (t : Sched) (i : ℕ) (a b : Slot), AtomicStep cfg s e t →
    s.queue.slots[i]? = some a → t.queue.slots[i]? = some b → a.used = true → b.used = true →
    b.serial = a.serial ∧
      (b.entry.status = a.entry.status ∨ StatusStep a.entry.status b.entry.status)
  /-- A new entry waits. -/
  filled : ∀ (e : SchedEvent) (t : Sched) (i : ℕ) (a b : Slot), AtomicStep cfg s e t →
    s.queue.slots[i]? = some a → t.queue.slots[i]? = some b → a.used = false → b.used = true →
    b.entry.status = .SCHEDULED
  /-- A sweep invokes at most a burst of entries. -/
  burst : ∀ pre utc mid post, es = pre ++ .wake utc :: (mid ++ post) →
    (∀ e ∈ mid, ¬ e.IsWake) → mid.countP (·.isInvoke) ≤ cfg.burst
  /-- A repeated upload that passes the clock's gate finds the live entry. -/
  duplicate : ∀ (i : ℕ) (a : Slot) (utc : Option ℤ), s.queue.slots[i]? = some a → a.live = true →
    clockGate a.entry.kind a.time utc s.queue.latencyS = none →
    s.queue.add cfg (s.accepted + 1) a.request utc s.clock = ⟨s.queue, some .EEXIST, some i⟩
  /-- One that does not is refused with what the gate says, and counted, whatever the queue holds. -/
  gated : ∀ (i : ℕ) (a : Slot) (utc : Option ℤ) (e : Errno), s.queue.slots[i]? = some a →
    a.live = true → clockGate a.entry.kind a.time utc s.queue.latencyS = some e →
    s.queue.add cfg (s.accepted + 1) a.request utc s.clock = ⟨s.queue.refuse, some e, none⟩
  /-- Two live entries do not share a hash. -/
  distinct : ∀ (i j : ℕ) (a b : Slot), s.queue.slots[i]? = some a → s.queue.slots[j]? = some b →
    a.live = true → b.live = true → a.entry.contentHash = b.entry.contentHash → i = j

/-- A slot that is due is at or past its time. -/
theorem Slot.dueNow_eq_some {mono : ℤ} {utc : Option ℤ} {l : ℤ} (h : a.dueNow mono utc = some l) :
    (a.entry.kind = .RELATIVE → a.dueUptimeMs ≤ mono ∧ l = (mono - a.dueUptimeMs) / 1000) ∧
      (a.entry.kind = .ABSOLUTE → ∃ now, utc = some now ∧ a.entry.dueUtc ≤ now) := by
  unfold Slot.dueNow at h
  cases hk : a.entry.kind with
  | RELATIVE =>
    simp only [hk] at h
    split_ifs at h with hlt
    exact ⟨fun _ => ⟨not_lt.1 hlt, (Option.some.inj h).symm⟩, nofun⟩
  | ABSOLUTE =>
    simp only [hk] at h
    cases utc with
    | none => cases h
    | some now =>
      simp only at h
      split_ifs at h with hlt
      exact ⟨nofun, fun _ => ⟨now, rfl, not_lt.1 hlt⟩⟩

/-- An invocation is of an entry that is due by the readings of its sweep. -/
theorem due_of_invoke {before after : List SchedEvent} {w : Sweep} {copy : Slot}
    (hr : Run (CalmStep cfg) (Sched.boot cfg latencyS clock) (before ++ .invoke w i copy :: after) s) :
    ∃ l, copy.dueNow w.mono w.utc = some l := by
  obtain ⟨m, m', hm, hstep, -⟩ := run_split_iff.1 hr
  have hph := (schedInv_run hm).phase
  cases hstep.1 with
  | invoke hp =>
    rw [hp] at hph
    exact hph.2.2.2

/-- **The scheduler is safe over whole runs.** -/
theorem schedule_safe {latencyS : ℕ} {clock : ℤ} {s : Sched}
    (hr : Run (AtomicStep cfg) (Sched.boot cfg latencyS clock) es s) :
    ScheduleSafe cfg (Sched.boot cfg latencyS clock) es s := by
  have hcalm := hr.mono fun _ _ _ h => h.calm
  have hinv := schedInv_run hcalm
  have hcontent := contentInv_run hcalm
  refine ⟨fun serial => (onceInv_run hcalm serial).1, ?_, ?_, ?_, ?_, ?_, ?_, ?_, ?_,
    hcontent.distinct⟩
  · rintro before after w i copy rfl
    obtain ⟨l, hdue⟩ := due_of_invoke hcalm
    obtain ⟨hrel, habs⟩ := Slot.dueNow_eq_some hdue
    obtain ⟨m, m', hm, hstep, -⟩ := run_split_iff.1 hr
    have hsweep := sweepInv_run (fun _ _ _ h => h.1) hm
    refine ⟨?_, fun hk => (hrel hk).1, habs⟩
    cases hstep.1 with
    | invoke hp =>
      rw [hp] at hsweep
      exact ⟨w.released, (hsweep w w.released rfl).2⟩
  · intro a ha hu hst
    obtain ⟨i, hi⟩ := List.mem_iff_getElem?.1 ha
    have hno : ¬ Invokable s a.serial :=
      not_invokable_of_slot hinv hi hu (by rcases hst with h | h <;> simp [h])
        (by rcases hst with h | h <;> simp [h])
    exact (never_of_not_invokable hinv (hinv.serials.bounds a ha hu).2 hno).mono
      fun _ _ _ h => h.calm
  · intro s' a hs ha hd
    exact (never_of_clear hinv hs.calm ha hd).mono fun _ _ _ h => h.calm
  · intro e t i a b hs ha hb hua hub
    rcases hs.1.edge hinv ha hb with (rfl | ⟨-, -, hser, hedge⟩) | ⟨-, -, -, rfl⟩ | ⟨hfree, -, -⟩
    · exact ⟨rfl, .inl rfl⟩
    · exact ⟨hser, .inr hedge⟩
    · cases hub
    · rw [hua] at hfree
      cases hfree
  · intro e t i a b hs ha hb hua hub
    rcases hs.1.edge hinv ha hb with (rfl | ⟨hu, -⟩) | ⟨hu, -⟩ | ⟨-, -, hst⟩
    · rw [hua] at hub
      cases hub
    · rw [hua] at hu
      cases hu
    · rw [hua] at hu
      cases hu
    · exact hst
  · rintro pre utc mid post rfl hmid
    rw [← List.cons_append, ← List.append_assoc] at hr
    obtain ⟨m, hm, -⟩ := run_append_iff.1 hr
    exact burstInv_run (hm.mono fun _ _ _ h => h.1) pre utc mid rfl hmid
  · intro i a utc ha hl hgate
    exact hcontent.duplicate ha hl _ _ hgate
  · intro i a utc e ha hl hgate
    obtain ⟨-, d, hacc⟩ := hcontent.accepted a (List.mem_of_getElem? ha) (Slot.used_of_live hl)
    exact hacc.add_gated hgate _ _

/-- `noop`, at a UTC second. -/
def noopAt (second : ℤ) : Request := ⟨some .ABSOLUTE, second, 0, some (.ofString "noop")⟩

/-- One absolute entry waits. -/
def absoluteWaiting : Sched :=
  ⟨⟨[newSlot 1 0 .ABSOLUTE 100 0 (.ofString "noop") 1 0], 10, 0, 0, 0, none⟩, .idle, 0, 1⟩

theorem absoluteWaiting_run : Run (AtomicStep (noopConfig 1 1)) (Sched.boot (noopConfig 1 1) 10 0)
    [.add (noopAt 100) (some 50) none (some 0)] absoluteWaiting :=
  .single ⟨.add (a := ⟨absoluteWaiting.queue, none, some 0⟩) _ _ (by decide +kernel), fun _ => rfl⟩

/-- An absolute entry waits when the wall clock is lost; the same upload is then
refused with `-ENODATA`. -/
theorem duplicate_refused_by_clock : ¬ ∀ (cfg : Config Unit) (latencyS : ℕ) (clock : ℤ)
    (es : List SchedEvent) (s : Sched) (i : ℕ) (a : Slot) (utc : Option ℤ),
    Run (AtomicStep cfg) (Sched.boot cfg latencyS clock) es s → s.queue.slots[i]? = some a →
      a.live = true →
      s.queue.add cfg (s.accepted + 1) a.request utc s.clock = ⟨s.queue, some .EEXIST, some i⟩ := by
  intro h
  have := h _ _ _ _ _ 0 _ none absoluteWaiting_run rfl (by decide)
  exact absurd this (by decide +kernel)

/-- An entry is added, uploaded again, and invoked when it is due. -/
theorem schedule_safe_noop : ∃ es s, Run (AtomicStep (noopConfig 1 1))
    (Sched.boot (noopConfig 1 1) 10 0) es s ∧ es.countP (·.isInvoke) = 1 ∧
      ScheduleSafe (noopConfig 1 1) (Sched.boot (noopConfig 1 1) 10 0) es s := by
  have hrun := ((absoluteWaiting_run.snoc
    ⟨.add (a := ⟨absoluteWaiting.queue, some .EEXIST, some 0⟩) (noopAt 100) (some 60)
      (by decide +kernel), fun _ => rfl⟩).snoc ⟨.wake (some 100) rfl, nofun⟩).snoc
    ⟨.select (w := ⟨0, some 100, 0⟩) (i := 0) (by decide +kernel) (by decide +kernel), nofun⟩
  have hrun := (hrun.snoc ⟨.mark rfl, nofun⟩).snoc ⟨.invoke rfl, nofun⟩
  exact ⟨_, _, hrun, rfl, schedule_safe hrun⟩

end KfswServices.Fbo
