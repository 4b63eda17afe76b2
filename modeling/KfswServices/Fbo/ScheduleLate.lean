/-
# Releases later than the buffer

A sweep reads the clocks once and judges the lateness of every entry by that one
reading, while the handlers it runs take their time.  The first release of a sweep
is judged by the time it starts at; a later one is not.

`StaleFree` says of a configuration that no relative entry is invoked more than
`latency_s + 1` seconds past its due time, and that a scan gives up every entry that
late.  It holds exactly where a sweep cannot come to a second release:
`stale_free_iff`.
-/

import KfswServices.Fbo.ScheduleSafety

namespace KfswServices.Fbo

open Command Library

variable {ω : Type*} {cfg : Config ω}

/-- The release thread waits, for its next turn or for a handler. -/
def Phase.Waits : Phase → Prop
  | .idle | .running _ _ _ => True
  | _ => False

/-- A step of a run in which the release thread itself takes no time: callers act,
and time passes, while it waits. -/
def TimedStep (cfg : Config ω) (s : Sched) (e : SchedEvent) (t : Sched) : Prop :=
  SchedStep cfg s e t ∧ (e.ofThread = false → s.phase.Waits)

variable {s : Sched}

theorem TimedStep.calm {t : Sched} {e : SchedEvent} (h : TimedStep cfg s e t) :
    CalmStep cfg s e t := by
  have hwaits {w : Sweep} {i : ℕ} (hp : s.phase = .selected w i) (he : e.ofThread = false) :
      False := by
    have := h.2 he
    rw [hp] at this
    exact this
  refine ⟨h.1, fun w i hp => ⟨?_, ?_⟩⟩
  · rintro outcome rfl
    exact hwaits hp rfl
  · rintro rfl
    exact hwaits hp rfl

/-- Some line can be scheduled. -/
def Schedulable (cfg : Config ω) : Prop :=
  ∃ line d args, line.length ≠ 0 ∧ line.length < lineMax ∧ build cfg.node line = .ok (d, args)

/-- **No stale release**: in every run, a relative entry is invoked at most
`latency_s + 1` seconds past its due time, and a scan makes every one that is later
OVERDUE. -/
def StaleFree (cfg : Config ω) : Prop :=
  ∀ latencyS clock es s, Run (TimedStep cfg) (Sched.boot cfg latencyS clock) es s →
    (∀ w i copy t, TimedStep cfg s (.invoke w i copy) t → copy.entry.kind = .RELATIVE →
      s.clock - copy.dueUptimeMs ≤ (s.queue.latencyS + 1) * 1000) ∧
    (∀ (c : Option ℕ) (t : Sched) (i : ℕ) (a : Slot), TimedStep cfg s (.select c) t →
      s.queue.slots[i]? = some a → a.used = true → a.entry.status = .SCHEDULED →
      a.entry.kind = .RELATIVE → s.clock - a.dueUptimeMs > (s.queue.latencyS + 1) * 1000 →
      t.queue.slots[i]? = some a.setOverdue)

/-! ### Where a sweep makes one release -/

/-- What the release thread is about to do is judged by the present time, or there
is nothing for it to do. -/
def LateInv (s : Sched) : Prop :=
  match s.phase with
  | .scanning w => s.clock = w.mono ∨
      ∀ a ∈ s.queue.slots, a.used = true → a.entry.status ≠ .SCHEDULED
  | .selected w i => s.clock = w.mono ∧ ∃ a l, s.queue.slots[i]? = some a ∧
      a.dueNow w.mono w.utc = some l ∧ l ≤ s.queue.latencyS
  | .marked w _ copy => s.clock = w.mono ∧ ∃ l, copy.dueNow w.mono w.utc = some l ∧
      l ≤ s.queue.latencyS
  | _ => True

variable {latencyS : ℕ} {es : List SchedEvent}

theorem slots_length_run {clock : ℤ}
    (hr : Run (SchedStep cfg) (Sched.boot cfg latencyS clock) es s) :
    s.queue.slots.length = cfg.entries :=
  hr.invariant (I := fun _ s => s.queue.slots.length = cfg.entries) (List.length_replicate ..)
    fun _ _ _ _ h hs => hs.length_eq.trans h

/-- Where no line can be scheduled, no slot is ever in use. -/
theorem unused_run (hno : ¬ Schedulable cfg) {clock : ℤ}
    (hr : Run (SchedStep cfg) (Sched.boot cfg latencyS clock) es s) :
    ∀ a ∈ s.queue.slots, a.used = false := by
  refine hr.invariant (I := fun _ s => ∀ a ∈ s.queue.slots, a.used = false) ?_ ?_
  · intro a ha
    rw [List.eq_of_mem_replicate ha]
    rfl
  · intro _ s e t h hs b hb
    by_contra hu
    obtain ⟨i, hi⟩ := List.mem_iff_getElem?.1 hb
    obtain ⟨a, ha, hm⟩ := hs.slot hi
    rcases hm.content (by simpa using hu) with ⟨hua, -⟩ | ⟨r, utc, line, kind, d, -, -, hacc, -⟩
    · rw [h a (List.mem_of_getElem? ha)] at hua
      cases hua
    · obtain ⟨args, hbuild⟩ := hacc.built
      exact hno ⟨line, d, args, hacc.nonempty, hacc.fits, hbuild⟩

/-- After the release of the only slot nothing waits. -/
theorem not_scheduled_of_record {q : Queue} {i : ℕ} {a : Slot} (hlen : q.slots.length ≤ 1)
    (ha : q.slots[i]? = some a) (outcome : Option Errno) (status : Status) :
    ∀ b ∈ (q.record i outcome status).slots, b.entry.status ≠ .SCHEDULED := by
  intro b hb
  obtain ⟨j, hj⟩ := List.mem_iff_getElem?.1 hb
  have hi := (List.getElem?_eq_some_iff.1 ha).1
  have hjlt := (List.getElem?_eq_some_iff.1 hj).1
  simp only [Queue.record, List.length_set] at hjlt
  rcases getElem?_set_cases hj with ⟨-, rfl, -⟩ | ⟨hne, -⟩
  · simp only
    split_ifs <;> simp
  · omega

theorem lateInv_step {clock : ℤ} {t : Sched} {e : SchedEvent}
    (hcfg : cfg.burst ≤ 1 ∨ cfg.entries ≤ 1 ∨ ¬ Schedulable cfg)
    (hr : Run (TimedStep cfg) (Sched.boot cfg latencyS clock) es s) (h : LateInv s)
    (hs : TimedStep cfg s e t) : LateInv t := by
  have hrun := hr.mono fun _ _ _ h => h.1
  have hinv := schedInv_run (hr.mono fun _ _ _ h => h.calm)
  -- callers and the clock find the thread waiting, where nothing is to be shown
  have hcaller (he : e.ofThread = false) (hphase : t.phase = s.phase) : LateInv t := by
    have hw := hs.2 he
    unfold LateInv
    rw [hphase]
    cases hp : s.phase with
    | idle => trivial
    | running w i copy => trivial
    | _ => rw [hp] at hw; exact hw.elim
  cases hs.1 with
  | add r utc ha => exact hcaller rfl rfl
  | cancel i => exact hcaller rfl rfl
  | clear => exact hcaller rfl rfl
  | setLatency floor seconds => exact hcaller rfl rfl
  | tick ht => exact hcaller rfl rfl
  | wake utc hp =>
    unfold LateInv Sweep.again
    simp only
    split_ifs with hlt <;> simp
  | selectNone hp hn => trivial
  | @select w i hp hi =>
    unfold LateInv at h
    rw [hp] at h
    obtain ⟨a, l, hbefore, hv, hafter⟩ := Queue.select_due hi
    obtain ⟨hu, hst, hdue, hl⟩ := Slot.examine_eq_due_iff.1 hv
    rcases h with hclock | hnone
    · exact ⟨hclock, a, l, hafter, hdue, hl⟩
    · exact absurd hst (hnone a (List.mem_of_getElem? hbefore) hu)
  | @mark w i hp =>
    unfold LateInv at h
    rw [hp] at h
    obtain ⟨hclock, a, l, ha, hdue, hl⟩ := h
    refine ⟨hclock, l, ?_, hl⟩
    simp only [Queue.markRunning, getD_of_getElem? ha]
    exact hdue
  | invoke hp => trivial
  | @finish w i copy answer hp =>
    have hph := hinv.phase
    rw [hp] at hph
    obtain ⟨a, ha, -⟩ := hph
    have hlt := (sweepInv_run (fun _ _ _ h => h) hrun w (w.released + 1) (by rw [hp]; rfl)).1
    unfold LateInv Sweep.again
    simp only
    split_ifs with hagain
    · simp only
      right
      rcases hcfg with hb | he | hno
      · omega
      · intro b hb _
        exact not_scheduled_of_record (slots_length_run hrun ▸ he) ha _ _ b hb
      · intro b hb hu
        have hnext := hrun.snoc (SchedStep.finish answer hp)
        rw [unused_run hno hnext b hb] at hu
        cases hu
    · trivial

theorem lateInv_run {clock : ℤ} (hcfg : cfg.burst ≤ 1 ∨ cfg.entries ≤ 1 ∨ ¬ Schedulable cfg)
    (hr : Run (TimedStep cfg) (Sched.boot cfg latencyS clock) es s) : LateInv s := by
  have key : Run (TimedStep cfg) (Sched.boot cfg latencyS clock) es s ∧ LateInv s :=
    hr.invariant (I := fun es s => Run (TimedStep cfg) (Sched.boot cfg latencyS clock) es s ∧
      LateInv s) ⟨.nil _, trivial⟩ fun _ _ _ _ h hs => ⟨h.1.snoc hs, lateInv_step hcfg h.1 h.2 hs⟩
  exact key.2

/-- A relative entry inside the buffer is at most `latency_s + 1` seconds late. -/
theorem lateness_le {a : Slot} {mono : ℤ} {utc : Option ℤ} {l : ℤ} (hk : a.entry.kind = .RELATIVE)
    (hdue : a.dueNow mono utc = some l) (hl : l ≤ latencyS) :
    mono - a.dueUptimeMs ≤ (latencyS + 1) * 1000 := by
  obtain ⟨-, rfl⟩ := (Slot.dueNow_eq_some hdue).1 hk
  omega

/-- One that is later is given up. -/
theorem examine_of_late {a : Slot} {mono : ℤ} {utc : Option ℤ} (hu : a.used = true)
    (hst : a.entry.status = .SCHEDULED) (hk : a.entry.kind = .RELATIVE)
    (hlate : mono - a.dueUptimeMs > (latencyS + 1) * 1000) :
    a.examine mono utc latencyS = .overdue := by
  refine Slot.examine_eq_overdue_iff.2 ⟨hu, hst, (mono - a.dueUptimeMs) / 1000, ?_, by omega⟩
  simp only [Slot.dueNow, hk]
  rw [if_neg (by omega)]

theorem staleFree_of_single
    (hcfg : cfg.burst ≤ 1 ∨ cfg.entries ≤ 1 ∨ ¬ Schedulable cfg) : StaleFree cfg := by
  intro latencyS clock es s hr
  have hlate := lateInv_run hcfg hr
  unfold LateInv at hlate
  constructor
  · intro w i copy t hs hk
    cases hs.1 with
    | invoke hp =>
      rw [hp] at hlate
      obtain ⟨hclock, l, hdue, hl⟩ := hlate
      rw [hclock]
      exact lateness_le hk hdue hl
  · intro c t i a hs ha hu hst hk hstale
    have key (w : Sweep) (hp : s.phase = .scanning w) :
        (s.queue.select w.mono w.utc).1.slots[i]? = some a.setOverdue := by
      rw [hp] at hlate
      rcases hlate with hclock | hnone
      · rw [Queue.select_slots, List.getElem?_map, ha, Option.map_some,
          if_pos (examine_of_late hu hst hk (by rwa [← hclock]))]
      · exact absurd hst (hnone a (List.mem_of_getElem? ha) hu)
    cases hs.1 with
    | selectNone hp hn => exact key _ hp
    | select hp hi => exact key _ hp

/-! ### Where it makes two -/

/-- A scan passes over empty slots. -/
theorem scanFrom_replicate (mono : ℤ) (utc : Option ℤ) (latencyS n : ℕ) :
    ∀ (i : ℕ) (best : Option (ℕ × ℤ)),
      (scanFrom mono utc latencyS i (List.replicate n Slot.zero) best).2 = best := by
  induction n with
  | zero => intro i best; rfl
  | succ n ih =>
    intro i best
    rw [List.replicate_succ]
    exact ih (i + 1) best

/-- Two entries, and nothing else, in the queue. -/
def TwoSlots (q : Queue) (a b : Slot) : Prop :=
  ∃ n, q.slots = a :: b :: List.replicate n Slot.zero

variable {q : Queue} {a b : Slot} {mono : ℤ} {utc : Option ℤ}

/-- A scan that finds neither of two entries overdue leaves them as they are. -/
theorem TwoSlots.select_slots (h : TwoSlots q a b) (ha : a.examine mono utc q.latencyS ≠ .overdue)
    (hb : b.examine mono utc q.latencyS ≠ .overdue) : (q.select mono utc).1.slots = q.slots := by
  obtain ⟨n, hslots⟩ := h
  rw [Queue.select_slots, hslots, List.map_cons, List.map_cons, List.map_replicate, if_neg ha,
    if_neg hb]
  rfl

theorem TwoSlots.select_first (h : TwoSlots q a b) {l m : ℤ}
    (ha : a.examine mono utc q.latencyS = .due l) (hb : b.examine mono utc q.latencyS = .due m)
    (hml : m ≤ l) : (q.select mono utc).2 = some 0 := by
  obtain ⟨n, hslots⟩ := h
  have hrank : outranks m (some (0, l)) = false := by simpa [outranks] using hml
  simp [Queue.select, hslots, scanFrom, ha, hb, hrank, show outranks l none = true from rfl,
    scanFrom_replicate]

theorem TwoSlots.select_second (h : TwoSlots q a b) {m : ℤ}
    (ha : a.examine mono utc q.latencyS = .leave) (hb : b.examine mono utc q.latencyS = .due m) :
    (q.select mono utc).2 = some 1 := by
  obtain ⟨n, hslots⟩ := h
  simp [Queue.select, hslots, scanFrom, ha, hb, outranks, scanFrom_replicate]

/-- The release thread selects slot `i` and marks it. -/
theorem select_mark_run (cfg : Config ω) {w : Sweep} {i : ℕ} {c : Slot}
    (hp : s.phase = .scanning w) (hi : (s.queue.select w.mono w.utc).2 = some i)
    (hslots : (s.queue.select w.mono w.utc).1.slots = s.queue.slots)
    (hc : s.queue.slots[i]? = some c) :
    ∃ es t, Run (TimedStep cfg) s es t ∧ t.phase = .marked w i (c.markRunning w.utc) ∧
      t.queue.slots = s.queue.slots.set i (c.markRunning w.utc) ∧
      t.queue.latencyS = s.queue.latencyS ∧ t.clock = s.clock := by
  have hselect : TimedStep cfg s _ _ := ⟨.select hp hi, nofun⟩
  have hmark : TimedStep cfg _ _ _ := ⟨.mark (s := { s with
    queue := (s.queue.select w.mono w.utc).1, phase := .selected w i }) rfl, nofun⟩
  obtain ⟨hafter, hcopy⟩ := Queue.markRunning_eq (hslots ▸ hc) w.utc
  exact ⟨_, _, (Run.single hselect).snoc hmark, congrArg _ hcopy, hslots ▸ hafter, rfl, rfl⟩

/-- A whole release, with a handler that returns at time `T`. -/
theorem release_run {w : Sweep} {i : ℕ} {c : Slot} {T : ℤ} (hp : s.phase = .scanning w)
    (hi : (s.queue.select w.mono w.utc).2 = some i)
    (hslots : (s.queue.select w.mono w.utc).1.slots = s.queue.slots)
    (hc : s.queue.slots[i]? = some c) (hT : s.clock ≤ T) (hagain : w.released + 1 < cfg.burst) :
    ∃ es t c', Run (TimedStep cfg) s es t ∧
      t.phase = .scanning { w with released := w.released + 1 } ∧
      t.queue.slots = s.queue.slots.set i c' ∧ c'.entry.status ≠ .SCHEDULED ∧
      t.queue.latencyS = s.queue.latencyS ∧ t.clock = T := by
  obtain ⟨es, t, hrun, hph, hts, hlat, hclock⟩ := select_mark_run cfg hp hi hslots hc
  have hinvoke : TimedStep cfg t _ _ := ⟨.invoke hph, nofun⟩
  have htick : TimedStep cfg _ (.tick T) _ := ⟨.tick (s := { t with
    phase := .running w i (c.markRunning w.utc) }) (hclock ▸ hT), fun _ => trivial⟩
  have hfinish : TimedStep cfg _ _ _ := ⟨.finish (s := { t with
    phase := .running w i (c.markRunning w.utc), clock := T }) (none, .OK) rfl, nofun⟩
  have hget : t.queue.slots[i]? = some (c.markRunning w.utc) := by
    rw [hts]
    exact List.getElem?_set_self (List.getElem?_eq_some_iff.1 hc).1
  refine ⟨_, _, (c.markRunning w.utc).record (invoke cfg (c.markRunning w.utc).entry (none, .OK)).1
    (invoke cfg (c.markRunning w.utc).entry (none, .OK)).2,
    ((hrun.snoc hinvoke).snoc htick).snoc hfinish, ?_, ?_, ?_, hlat, rfl⟩
  · exact if_pos hagain
  · exact (Queue.record_slots hget _ _).trans (by rw [hts, List.set_set])
  · simp only [Slot.record]
    split_ifs <;> simp

/-- Different delays of one line have different hashes: the lines agree, and the
checksums of the heads differ. -/
theorem contentHash_delay_ne (line : CString) :
    contentHash .RELATIVE 1 0 line ≠ contentHash .RELATIVE 2 0 line := by
  intro h
  have hhead := crc32Update_injective line.bytes h
  exact absurd hhead (by decide +kernel)

/-- A queue as two adds leave it. -/
def pairQueue (n : ℕ) (a b : Slot) : Queue :=
  ⟨a :: b :: List.replicate n Slot.zero, 10, 0, 0, 0, none⟩

theorem mem_pairQueue {n : ℕ} {a b c : Slot} (h : c ∈ (pairQueue n a b).slots) :
    c = a ∨ c = b ∨ c = Slot.zero := by
  simp only [pairQueue, List.mem_cons] at h
  rcases h with h | h | h
  · exact .inl h
  · exact .inr (.inl h)
  · exact .inr (.inr (List.eq_of_mem_replicate h))

/-- Two entries of one line, due one and two seconds after the reset, wait when a
sweep begins at their time. -/
theorem two_due_run {line : CString} {d : Definition ω} {args : List Arg}
    (hne : line.length ≠ 0) (hfits : line.length < lineMax)
    (hbuild : build cfg.node line = .ok (d, args)) (hentries : 2 ≤ cfg.entries)
    (hburst : 2 ≤ cfg.burst) : ∃ es s, Run (TimedStep cfg) (Sched.boot cfg 10 0) es s ∧
      TwoSlots s.queue (newSlot 1 0 .RELATIVE 1 0 line d.id 0)
        (newSlot 2 1 .RELATIVE 2 0 line d.id 0) ∧
      s.queue.latencyS = 10 ∧ s.phase = .scanning ⟨2000, none, 0⟩ ∧ s.clock = 2000 := by
  obtain ⟨n, hn⟩ := Nat.exists_eq_add_of_le' hentries
  have hacc (seconds : ℤ) (hpos : 0 < seconds) (hweek : seconds ≤ delayMaxS) :
      Accepts cfg ⟨some .RELATIVE, seconds, 0, some line⟩ line .RELATIVE d :=
    ⟨rfl, rfl, hne, hfits, hpos, fun _ => hweek, .inr rfl, args, hbuild⟩
  set a := newSlot 1 0 .RELATIVE 1 0 line d.id 0 with ha
  set b := newSlot 2 1 .RELATIVE 2 0 line d.id 0 with hb
  have hboot : Queue.empty cfg 10 = pairQueue n Slot.zero Slot.zero := by
    simp only [Queue.empty, pairQueue, hn, List.replicate_succ]
  have hadd₁ : (Queue.empty cfg 10).add cfg 1 ⟨some .RELATIVE, 1, 0, some line⟩ none 0 =
      ⟨pairQueue n a Slot.zero, none, some 0⟩ := by
    have hfree : ((pairQueue n Slot.zero Slot.zero).slots.findIdx? fun s => !s.used) = some 0 := by
      simp [pairQueue, List.findIdx?_cons, Slot.zero]
    rw [hboot]
    refine (hacc 1 (by decide) (by decide)).add_eq_new rfl ?_ hfree 1 0
    intro c hc hl
    rcases mem_pairQueue hc with rfl | rfl | rfl <;> cases hl
  have hadd₂ : (pairQueue n a Slot.zero).add cfg 2 ⟨some .RELATIVE, 2, 0, some line⟩ none 0 =
      ⟨pairQueue n a b, none, some 1⟩ := by
    have hfree : ((pairQueue n a Slot.zero).slots.findIdx? fun s => !s.used) = some 1 := by
      simp [pairQueue, List.findIdx?_cons, Slot.zero, ha, newSlot]
    refine (hacc 2 (by decide) (by decide)).add_eq_new rfl ?_ hfree 2 0
    intro c hc hl
    rcases mem_pairQueue hc with rfl | rfl | rfl
    · exact contentHash_delay_ne line
    · cases hl
    · cases hl
  have h₁ : TimedStep cfg (Sched.boot cfg 10 0) _ ⟨pairQueue n a Slot.zero, .idle, 0, 1⟩ :=
    ⟨.add (a := ⟨pairQueue n a Slot.zero, none, some 0⟩) _ _ hadd₁, fun _ => trivial⟩
  have h₂ : TimedStep cfg ⟨pairQueue n a Slot.zero, .idle, 0, 1⟩ _ ⟨pairQueue n a b, .idle, 0, 2⟩ :=
    ⟨.add (a := ⟨pairQueue n a b, none, some 1⟩) _ _ hadd₂, fun _ => trivial⟩
  have h₃ : TimedStep cfg ⟨pairQueue n a b, .idle, 0, 2⟩ _ ⟨pairQueue n a b, .idle, 2000, 2⟩ :=
    ⟨.tick (show (0 : ℤ) ≤ 2000 by decide), fun _ => trivial⟩
  have h₄ : TimedStep cfg ⟨pairQueue n a b, .idle, 2000, 2⟩ _ _ := ⟨.wake none rfl, nofun⟩
  refine ⟨_, _, (((Run.single h₁).snoc h₂).snoc h₃).snoc h₄, ⟨n, rfl⟩, rfl, ?_, rfl⟩
  exact if_pos (show 0 < cfg.burst by omega)

/-- The second of two entries that are due together is invoked when the first
handler returns, a thousand seconds after its time. -/
theorem stale_run (hsched : Schedulable cfg) (hentries : 2 ≤ cfg.entries) (hburst : 2 ≤ cfg.burst) :
    ∃ es s w i copy t, Run (TimedStep cfg) (Sched.boot cfg 10 0) es s ∧
      TimedStep cfg s (.invoke w i copy) t ∧ copy.entry.kind = .RELATIVE ∧
      s.clock - copy.dueUptimeMs = 1000000 ∧ s.queue.latencyS = 10 := by
  obtain ⟨line, d, args, hne, hfits, hbuild⟩ := hsched
  obtain ⟨es, s, hrun, htwo, hlat, hph, hclock⟩ :=
    two_due_run hne hfits hbuild hentries hburst
  set a := newSlot 1 0 .RELATIVE 1 0 line d.id 0 with ha
  set b := newSlot 2 1 .RELATIVE 2 0 line d.id 0 with hb
  have hea : a.examine 2000 none 10 = .due 1 := by
    refine Slot.examine_eq_due_iff.2 ⟨rfl, rfl, by simp [Slot.dueNow, ha, newSlot], by decide⟩
  have heb : b.examine 2000 none 10 = .due 0 := by
    refine Slot.examine_eq_due_iff.2 ⟨rfl, rfl, by simp [Slot.dueNow, hb, newSlot], by decide⟩
  have hslots : (s.queue.select 2000 none).1.slots = s.queue.slots :=
    htwo.select_slots (by rw [hlat, hea]; simp) (by rw [hlat, heb]; simp)
  have hfirst := htwo.select_first (hlat ▸ hea) (hlat ▸ heb) (by decide)
  obtain ⟨n, hn⟩ := htwo
  obtain ⟨es', s', c', hrun', hph', hslots', hst, hlat', hclock'⟩ :=
    release_run (T := 1002000) hph hfirst hslots (c := a) (by rw [hn]; rfl) (by rw [hclock]; decide)
      hburst
  have htwo' : TwoSlots s'.queue c' b := ⟨n, by rw [hslots', hn]; rfl⟩
  have hec : c'.examine 2000 none 10 = .leave := by simp [Slot.examine, hst]
  rw [hlat] at hlat'
  have hsecond := htwo'.select_second (hlat' ▸ hec) (hlat' ▸ heb)
  have hkeep : (s'.queue.select 2000 none).1.slots = s'.queue.slots :=
    htwo'.select_slots (by rw [hlat', hec]; simp) (by rw [hlat', heb]; simp)
  obtain ⟨n', hn'⟩ := htwo'
  obtain ⟨es'', t, hrun'', hpht, -, hlatt, hclockt⟩ :=
    select_mark_run cfg (c := b) hph' hsecond hkeep (by rw [hn']; rfl)
  refine ⟨_, t, _, _, _, _, (hrun.append hrun').append hrun'', ⟨.invoke hpht, nofun⟩, rfl, ?_,
    hlatt.trans hlat'⟩
  rw [hclockt, hclock']
  rfl

theorem not_staleFree (hsched : Schedulable cfg) (hentries : 2 ≤ cfg.entries)
    (hburst : 2 ≤ cfg.burst) : ¬ StaleFree cfg := by
  intro h
  obtain ⟨es, s, w, i, copy, t, hrun, hs, hk, hlate, hlat⟩ := stale_run hsched hentries hburst
  have hle := (h 10 0 es s hrun).1 w i copy t hs hk
  rw [hlat] at hle
  omega

/-- **A stale release needs a second one.**  No relative entry is started more than
`latency_s + 1` seconds after its time exactly where a sweep makes at most one
release, the queue holds at most one entry, or nothing can be scheduled at all. -/
theorem stale_free_iff : StaleFree cfg ↔ cfg.burst ≤ 1 ∨ cfg.entries ≤ 1 ∨ ¬ Schedulable cfg := by
  constructor
  · intro h
    by_contra hno
    simp only [not_or, not_le, not_not] at hno
    obtain ⟨hburst, hentries, hsched⟩ := hno
    exact not_staleFree hsched hentries hburst h
  · exact staleFree_of_single

/-- A burst of two over a queue of two entries is not free of stale releases. -/
theorem stale_release_in_burst : ¬ ∀ cfg : Config Unit, StaleFree cfg := by
  intro h
  have hsched : Schedulable (noopConfig 2 2) :=
    ⟨CString.ofString "noop", noopNode.registry.head (by simp [noopNode]), [], by decide,
      by decide, rfl⟩
  exact not_staleFree hsched le_rfl le_rfl (h (noopConfig 2 2))

end KfswServices.Fbo
