/-
# Each event is journalled once

`kfsw_journal_flush` retries: after an append that failed, the file is opened again, the scan
finds the next sequence in whatever the failure left, and the record is appended under the
sequence it was first given.

`writes` lists the writes of a slot, each with the position of its event among those taken from
the queue.  `ExactlyOnce` says what the retries must not spoil: the events go to the file in the
order they were queued, each under one sequence, later events under larger ones, no write
replaces a larger sequence, and an event leaves the memory only when its record is in the file.

The invariant (`Held`) is about the record in memory.  As long as it has no sequence, a record
in the file is at least as large as everything written; once it has one, the record before it
stays in the file, in a slot of its own, so that every later scan finds room for the retry.
-/

import KfswServices.Journal.Service

namespace KfswServices.Journal

/-! ### Histories -/

/-- The events that were queued. -/
def queued : List Act → List Event.Record
  | [] => []
  | .queued e :: acts => e :: queued acts
  | _ :: acts => queued acts

/-- The events that were taken from the queue. -/
def taken : List Act → List Event.Record
  | [] => []
  | .took e :: acts => e :: taken acts
  | _ :: acts => taken acts

/-- A write of a slot; `index` counts the events taken so far, so that the record is of the
event with that number. -/
structure Write where
  index : ℕ
  record : Record
  before : Entry
  after : Entry
  result : Option Errno

/-- The writes of a history that starts when `n` events have been taken. -/
def writesFrom : ℕ → List Act → List Write
  | _, [] => []
  | n, .took _ :: acts => writesFrom (n + 1) acts
  | n, .wrote r before after result :: acts => ⟨n, r, before, after, result⟩ :: writesFrom n acts
  | n, .queued _ :: acts => writesFrom n acts

/-- The writes of a history. -/
def writes (acts : List Act) : List Write := writesFrom 0 acts

@[simp] theorem queued_append (a b : List Act) : queued (a ++ b) = queued a ++ queued b := by
  induction a with
  | nil => rfl
  | cons x a ih => cases x <;> simp [queued, ih]

@[simp] theorem taken_append (a b : List Act) : taken (a ++ b) = taken a ++ taken b := by
  induction a with
  | nil => rfl
  | cons x a ih => cases x <;> simp [taken, ih]

theorem writesFrom_append (n : ℕ) (a b : List Act) :
    writesFrom n (a ++ b) = writesFrom n a ++ writesFrom (n + (taken a).length) b := by
  induction a generalizing n with
  | nil => rfl
  | cons x a ih =>
    cases x with
    | queued e => exact ih n
    | took e =>
      have hlen : n + 1 + (taken a).length = n + (taken (.took e :: a)).length := by
        simp only [taken, List.length_cons]
        omega
      rw [List.cons_append, writesFrom, writesFrom, ih, hlen]
    | wrote r before after result => exact congrArg _ (ih n)

@[simp] theorem writes_queued (acts : List Act) (e : Event.Record) :
    writes (acts ++ [.queued e]) = writes acts := by
  simp [writes, writesFrom_append, writesFrom]

@[simp] theorem writes_took (acts : List Act) (e : Event.Record) :
    writes (acts ++ [.took e]) = writes acts := by
  simp [writes, writesFrom_append, writesFrom]

@[simp] theorem writes_wrote (acts : List Act) (r : Record) (before after : Entry)
    (result : Option Errno) : writes (acts ++ [.wrote r before after result]) =
      writes acts ++ [⟨(taken acts).length, r, before, after, result⟩] := by
  simp [writes, writesFrom_append, writesFrom]

/-! ### What is required -/

/-- A write changes its slot only, replaces no larger sequence, and leaves the record there when
it succeeds. -/
def Write.Clean (cfg : Config) (w : Write) : Prop :=
  ∃ old new, w.before = .file old ∧ w.after = .file new ∧
    (∀ q, recordAt cfg old (cfg.slotOf w.record.sequence) = some q →
      q.sequence ≤ w.record.sequence) ∧
    (∀ i, i ≠ cfg.slotOf w.record.sequence → recordAt cfg new i = recordAt cfg old i) ∧
    (w.result = none → recordAt cfg new (cfg.slotOf w.record.sequence) = some w.record)

/-- Two writes of one event are of the same record; a later event has a larger sequence. -/
def Write.Before (v w : Write) : Prop :=
  v.index = w.index ∧ v.record = w.record ∨
    v.index < w.index ∧ v.record.sequence < w.record.sequence

/-- Writes in this order have one record for each event. -/
theorem one_record {ws : List Write} (h : ws.Pairwise Write.Before) {v w : Write} (hv : v ∈ ws)
    (hw : w ∈ ws) (hidx : v.index = w.index) : v.record = w.record := by
  have hsymm : Std.Symm fun v w : Write => v.index = w.index → v.record = w.record :=
    ⟨fun _ _ hab heq => (hab heq.symm).symm⟩
  have hsame : ws.Pairwise fun v w : Write => v.index = w.index → v.record = w.record := by
    refine h.imp ?_
    rintro a b (⟨-, hrec⟩ | ⟨hlt, -⟩) heq
    · exact hrec
    · exact absurd heq hlt.ne
  exact hsame.forall_of_forall (fun _ _ _ => rfl) hv hw hidx

/-- The journal after a history of calls. -/
structure ExactlyOnce (cfg : Config) (s : Service) (acts : List Act) : Prop where
  /-- The events are taken in the order they were queued. -/
  fifo : queued acts = taken acts ++ s.queue
  /-- Each write is of the event taken last before it. -/
  event : ∀ w ∈ writes acts, 0 < w.index ∧ (taken acts)[w.index - 1]? = some w.record.event
  /-- Sequences increase from event to event, and each event has one. -/
  order : (writes acts).Pairwise Write.Before
  clean : ∀ w ∈ writes acts, w.Clean cfg
  /-- The file holds an event at most once. -/
  single : ∀ bytes, s.entry = .file bytes → ∀ v ∈ writes acts, ∀ w ∈ writes acts,
    v.index = w.index → ∀ i j, recordAt cfg bytes i = some v.record →
      recordAt cfg bytes j = some w.record → i = j
  /-- An event that was taken has been written with success, or it is the last one and still in
  memory. -/
  kept : ∀ k (hk : k < (taken acts).length),
    (∃ w ∈ writes acts, w.index = k + 1 ∧ w.result = none) ∨
      k + 1 = (taken acts).length ∧ ∃ p, s.pending = some p ∧ p.event = (taken acts)[k]

/-! ### Room for a sequence -/

/-- The file has no larger sequence than `n`, and holds the one before it. -/
def Room (cfg : Config) (bytes : List UInt8) (n : ℕ) : Prop :=
  (∀ i q, recordAt cfg bytes i = some q → q.sequence ≤ n) ∧
    (n = 1 ∨ ∃ i q, recordAt cfg bytes i = some q ∧ q.sequence + 1 = n)

variable {cfg : Config} {bytes : List UInt8}

/-- The sequence the scan finds. -/
theorem Store.Matches.room {s : Store} (h : s.Matches cfg bytes) :
    Room cfg bytes s.nextSequence := by
  refine ⟨fun i q hq => (h.next_gt i (slot_lt_of_recordAt hq) q hq).le, ?_⟩
  rcases h.next_reached with h1 | ⟨i, -, q, hq, hnext⟩
  · exact .inl h1
  · exact .inr ⟨i, q, hq, hnext.symm⟩

theorem Room.pos {n : ℕ} (h : Room cfg bytes n) : 0 < n := by
  rcases h.2 with h1 | ⟨i, q, -, hq⟩ <;> omega

/-- The file reaches up to the slot. -/
theorem Room.gap {n : ℕ} (h : Room cfg bytes n) (hacc : Accepted cfg bytes) :
    slotOffset (cfg.slotOf n) ≤ bytes.length := by
  have hheader := hacc.headerSize_le
  rcases h.2 with rfl | ⟨i, q, hq, rfl⟩
  · simpa [slotOffset, Config.slotOf] using hheader
  · obtain ⟨⟨hpos, -, -, -⟩, rfl, hend⟩ := of_recordAt hq
    have hslot : cfg.slotOf (q.sequence + 1) ≤ cfg.slotOf q.sequence + 1 := by
      unfold Config.slotOf
      rw [show q.sequence + 1 - 1 = q.sequence - 1 + 1 by omega, ← Nat.mod_add_mod]
      exact Nat.mod_le _ _
    have hmul := Nat.mul_le_mul_right recordSize hslot
    unfold slotOffset at *
    simp only [recordSize] at *
    omega

/-- The room stays when the slot keeps its record, loses it, or gets the new one: the record
before it has another slot. -/
theorem Room.keep {left : List UInt8} {r : Record} (h : Room cfg bytes r.sequence)
    (hother : ∀ i, i ≠ cfg.slotOf r.sequence → recordAt cfg left i = recordAt cfg bytes i)
    (hself : recordAt cfg left (cfg.slotOf r.sequence) =
        recordAt cfg bytes (cfg.slotOf r.sequence) ∨
      recordAt cfg left (cfg.slotOf r.sequence) = none ∨
      recordAt cfg left (cfg.slotOf r.sequence) = some r) : Room cfg left r.sequence := by
  refine ⟨fun i q hq => ?_, ?_⟩
  · by_cases hi : i = cfg.slotOf r.sequence
    · subst hi
      rcases hself with hs | hs | hs
      · exact h.1 _ q (hs ▸ hq)
      · rw [hs] at hq
        cases hq
      · rw [hs] at hq
        obtain rfl := Option.some.inj hq
        exact le_rfl
    · rw [hother i hi] at hq
      exact h.1 i q hq
  · rcases h.2 with h1 | ⟨i, q, hq, hn⟩
    · exact .inl h1
    · obtain ⟨⟨hpos, -, -, -⟩, hslot, -⟩ := of_recordAt hq
      have hne := slotOf_pred_ne cfg (show 1 < r.sequence by omega)
      rw [show r.sequence - 1 = q.sequence by omega, hslot] at hne
      exact .inr ⟨i, q, by rw [hother i hne]; exact hq, hn⟩

/-! ### The invariant -/

/-- A record in the file has sequence `n` or a larger one. -/
def Reached (cfg : Config) (entry : Entry) (n : ℕ) : Prop :=
  ∃ bytes i q, entry = .file bytes ∧ recordAt cfg bytes i = some q ∧ n ≤ q.sequence

/-- **What the history says of the record in memory.** -/
def Held (cfg : Config) (entry : Entry) (acts : List Act) : Option Record → Prop
  | none => ∀ w ∈ writes acts, Reached cfg entry w.record.sequence
  | some p =>
    if p.sequence = 0 then
      ∀ w ∈ writes acts, w.index < (taken acts).length ∧ Reached cfg entry w.record.sequence
    else
      (∃ bytes, entry = .file bytes ∧ Room cfg bytes p.sequence) ∧
        ∀ w ∈ writes acts, w.index = (taken acts).length ∧ w.record = p ∨
          w.index < (taken acts).length ∧ w.record.sequence < p.sequence

variable {acts : List Act} {p : Record}

theorem held_fresh {entry : Entry} (hp : p.sequence = 0) :
    Held cfg entry acts (some p) ↔ ∀ w ∈ writes acts,
      w.index < (taken acts).length ∧ Reached cfg entry w.record.sequence := by
  simp only [Held, if_pos hp]

theorem held_numbered {entry : Entry} (hp : p.sequence ≠ 0) : Held cfg entry acts (some p) ↔
      (∃ bytes, entry = .file bytes ∧ Room cfg bytes p.sequence) ∧
        ∀ w ∈ writes acts, w.index = (taken acts).length ∧ w.record = p ∨
          w.index < (taken acts).length ∧ w.record.sequence < p.sequence := by
  simp only [Held, if_neg hp]

theorem not_reached_absent {n : ℕ} : ¬ Reached cfg .absent n := by
  rintro ⟨bytes, i, q, h, -⟩
  cases h

/-- As long as there is no file, nothing has been written. -/
theorem Held.of_absent {p : Option Record} (h : Held cfg .absent acts p) (entry : Entry) :
    Held cfg entry acts p := by
  cases p with
  | none => exact fun w hw => absurd (h w hw) not_reached_absent
  | some p =>
    by_cases hp : p.sequence = 0
    · exact (held_fresh hp).2 fun w hw => absurd ((held_fresh hp).1 h w hw).2 not_reached_absent
    · obtain ⟨⟨bytes, hentry, -⟩, -⟩ := (held_numbered hp).1 h
      cases hentry

/-- The record in memory is of the event taken last. -/
def Carries (acts : List Act) (p : Record) : Prop :=
  p.event.Valid ∧ p.boot < uint64Max ∧ (taken acts).getLast? = some p.event

/-- **The invariant of the service.** -/
structure Inv (cfg : Config) (s : Service) (acts : List Act) : Prop where
  fifo : queued acts = taken acts ++ s.queue
  queue : ∀ e ∈ s.queue, e.Valid
  boot : s.boot < uint64Max
  ready : s.store.ready = true →
    ∃ bytes, s.entry = .file bytes ∧ Accepted cfg bytes ∧ s.store.Matches cfg bytes
  event : ∀ w ∈ writes acts, 0 < w.index ∧ (taken acts)[w.index - 1]? = some w.record.event
  order : (writes acts).Pairwise Write.Before
  clean : ∀ w ∈ writes acts, w.Clean cfg
  kept : ∀ k < (taken acts).length, (∃ w ∈ writes acts, w.index = k + 1 ∧ w.result = none) ∨
    k + 1 = (taken acts).length ∧ s.pending ≠ none
  carries : ∀ p, s.pending = some p → Carries acts p
  held : Held cfg s.entry acts s.pending

variable {s : Service}

theorem Inv.index_le (h : Inv cfg s acts) : ∀ w ∈ writes acts, w.index ≤ (taken acts).length := by
  intro w hw
  obtain ⟨hpos, hget⟩ := h.event w hw
  have := (List.getElem?_eq_some_iff.1 hget).1
  omega

theorem Inv.exactlyOnce (h : Inv cfg s acts) : ExactlyOnce cfg s acts := by
  refine ⟨h.fifo, h.event, h.order, h.clean, ?_, ?_⟩
  · intro bytes _ v hv w hw hidx i j hi hj
    -- the slot of a record is fixed by its sequence
    have hrec : v.record = w.record := one_record h.order hv hw hidx
    rw [← (of_recordAt hi).2.1, ← (of_recordAt hj).2.1, hrec]
  · intro k hk
    rcases h.kept k hk with hw | ⟨hlast, hne⟩
    · exact .inl hw
    · obtain ⟨p, hp⟩ := Option.ne_none_iff_exists'.1 hne
      refine .inr ⟨hlast, p, hp, ?_⟩
      have hevent := (h.carries p hp).2.2
      rw [List.getLast?_eq_getElem?, ← hlast, Nat.add_sub_cancel,
        List.getElem?_eq_getElem hk] at hevent
      exact (Option.some.inj hevent).symm

/-! ### The steps keep it -/

section

variable (h : Inv cfg s acts)
include h

/-- An event is taken: nothing has been written for it yet. -/
theorem Inv.takePending {s' : Service} {took : List Act} {utc : Option Int64}
    (hs : s.takePending utc = some (s', p, took)) :
    Inv cfg s' (acts ++ took) ∧ s'.pending = some p ∧ s'.store = s.store ∧ s'.entry = s.entry := by
  unfold Service.takePending at hs
  cases hp : s.pending with
  | some q =>
    simp only [hp, Option.some.injEq, Prod.mk.injEq] at hs
    obtain ⟨rfl, rfl, rfl⟩ := hs
    rw [List.append_nil]
    exact ⟨h, hp, rfl, rfl⟩
  | none =>
    cases hq : s.queue with
    | nil => simp [hp, hq] at hs
    | cons e queue =>
      simp only [hp, hq, Option.some.injEq, Prod.mk.injEq] at hs
      obtain ⟨rfl, rfl, rfl⟩ := hs
      have htaken : taken (acts ++ [.took e]) = taken acts ++ [e] := by simp [taken]
      refine ⟨⟨?_, ?_, h.boot, h.ready, ?_, ?_, ?_, ?_, ?_, ?_⟩, rfl, rfl, rfl⟩
      · rw [htaken, queued_append, h.fifo, hq]
        simp [queued]
      · exact fun e' he' => h.queue e' (by rw [hq]; exact List.mem_cons_of_mem _ he')
      · intro w hw
        rw [writes_took] at hw
        obtain ⟨hpos, hget⟩ := h.event w hw
        have hlt := (List.getElem?_eq_some_iff.1 hget).1
        exact ⟨hpos, by rw [htaken, List.getElem?_append_left hlt]; exact hget⟩
      · rw [writes_took]
        exact h.order
      · rw [writes_took]
        exact h.clean
      · intro k hk
        rw [htaken, List.length_append, List.length_singleton] at hk ⊢
        rw [writes_took]
        rcases Nat.lt_succ_iff_lt_or_eq.1 hk with hk | rfl
        · rcases h.kept k hk with hw | ⟨-, hne⟩
          · exact .inl hw
          · exact absurd hp hne
        · exact .inr ⟨rfl, nofun⟩
      · rintro q hq'
        obtain rfl := Option.some.inj hq'
        refine ⟨h.queue e (by rw [hq]; exact List.mem_cons_self), h.boot, ?_⟩
        rw [htaken, List.getLast?_concat]
        rfl
      · have hheld := h.held
        rw [hp] at hheld
        refine (held_fresh rfl).2 ?_
        rw [htaken, writes_took]
        intro w hw
        have hle := h.index_le w hw
        rw [List.length_append, List.length_singleton]
        exact ⟨by omega, hheld w hw⟩

/-- The record gets its sequence. -/
theorem Inv.number (hp : s.pending = some p) (hready : s.store.ready = true) :
    Carries acts (s.store.number p) ∧ (s.store.number p).sequence ≠ 0 ∧
      Held cfg s.entry acts (some (s.store.number p)) := by
  obtain ⟨hevent, hboot⟩ := number_event s.store p
  have hcarries : Carries acts (s.store.number p) := by
    unfold Carries
    rw [hevent, hboot]
    exact h.carries p hp
  have hheld := h.held
  rw [hp] at hheld
  by_cases hz : p.sequence = 0
  · obtain ⟨bytes, hentry, -, hm⟩ := h.ready hready
    have hroom := hm.room
    have hnum : (s.store.number p).sequence = s.store.nextSequence := by
      simp [Store.number, hz]
    have hne : (s.store.number p).sequence ≠ 0 := by
      rw [hnum]
      exact hroom.pos.ne'
    refine ⟨hcarries, hne, (held_numbered hne).2 ⟨⟨bytes, hentry, hnum ▸ hroom⟩, fun w hw => ?_⟩⟩
    obtain ⟨hidx, bytes', i, q, hentry', hq, hle⟩ := (held_fresh hz).1 hheld w hw
    rw [hentry] at hentry'
    obtain rfl := Entry.file.inj hentry'
    have hlt := hm.next_gt i (slot_lt_of_recordAt hq) q hq
    exact .inr ⟨hidx, by omega⟩
  · have hnum : s.store.number p = p := by simp [Store.number, hz]
    rw [hnum] at hcarries ⊢
    exact ⟨hcarries, hz, hheld⟩

/-- The invariant after a step without a trace: the record in memory may have been numbered. -/
theorem Inv.silent {store : Store} (hcarries : Carries acts p)
    (hheld : Held cfg s.entry acts (some p))
    (hready : store.ready = true → s.store.ready = true ∧ store = s.store) :
    Inv cfg { s with store := store, pending := some p } acts := by
  refine ⟨h.fifo, h.queue, h.boot, ?_, h.event, h.order, h.clean, ?_, ?_, hheld⟩
  · intro hr
    obtain ⟨hs, rfl⟩ := hready hr
    exact h.ready hs
  · intro k hk
    rcases h.kept k hk with hw | ⟨hlast, -⟩
    · exact .inl hw
    · exact .inr ⟨hlast, nofun⟩
  · rintro q hq
    obtain rfl := Option.some.inj hq
    exact hcarries

/-- **A write keeps the invariant**, whether it succeeds or not. -/
theorem Inv.wrote {r : Record} {store : Store} {new : List UInt8} {result : Option Errno}
    (hcarries : Carries acts r) (hne : r.sequence ≠ 0) (hheld : Held cfg s.entry acts (some r)) (hentry : s.entry = .file bytes)
    (hother : ∀ i, i ≠ cfg.slotOf r.sequence → recordAt cfg new i = recordAt cfg bytes i)
    (hself : recordAt cfg new (cfg.slotOf r.sequence) = recordAt cfg bytes (cfg.slotOf r.sequence) ∨
      recordAt cfg new (cfg.slotOf r.sequence) = none ∨
      recordAt cfg new (cfg.slotOf r.sequence) = some r)
    (hdone : result = none → recordAt cfg new (cfg.slotOf r.sequence) = some r)
    (hready : store.ready = true → Accepted cfg new ∧ store.Matches cfg new) :
    Inv cfg { s with
        entry := .file new
        store := store
        pending := if result = none then none else some r }
      (acts ++ [.wrote r s.entry (.file new) result]) := by
  obtain ⟨⟨bytes', hentry', hroom⟩, hwrites⟩ := (held_numbered hne).1 hheld
  rw [hentry] at hentry'
  obtain rfl := Entry.file.inj hentry'
  have htaken : taken (acts ++ [.wrote r s.entry (.file new) result]) = taken acts := by
    simp [taken]
  obtain ⟨hlen, hlast⟩ : 0 < (taken acts).length ∧
      (taken acts)[(taken acts).length - 1]? = some r.event := by
    have hget := hcarries.2.2
    rw [List.getLast?_eq_getElem?] at hget
    have := (List.getElem?_eq_some_iff.1 hget).1
    exact ⟨by omega, hget⟩
  refine ⟨?_, h.queue, h.boot, ?_, ?_, ?_, ?_, ?_, ?_, ?_⟩
  · rw [htaken, queued_append]
    simpa [queued] using h.fifo
  · intro hr
    exact ⟨new, rfl, hready hr⟩
  · intro w hw
    rw [htaken]
    rw [writes_wrote, List.mem_append, List.mem_singleton] at hw
    rcases hw with hw | rfl
    · exact h.event w hw
    · exact ⟨hlen, hlast⟩
  · rw [writes_wrote, List.pairwise_append]
    refine ⟨h.order, List.pairwise_singleton _ _, fun v hv w hw => ?_⟩
    obtain rfl := List.mem_singleton.1 hw
    exact hwrites v hv
  · intro w hw
    rw [writes_wrote, List.mem_append, List.mem_singleton] at hw
    rcases hw with hw | rfl
    · exact h.clean w hw
    · exact ⟨bytes, new, hentry, rfl, hroom.1 _, hother, hdone⟩
  · intro k hk
    rw [htaken] at hk ⊢
    rw [writes_wrote]
    rcases h.kept k hk with ⟨w, hw, hidx, hres⟩ | ⟨hk', -⟩
    · exact .inl ⟨w, List.mem_append_left _ hw, hidx, hres⟩
    · by_cases hres : result = none
      · refine .inl ⟨_, List.mem_append_right _ (List.mem_singleton.2 rfl), hk'.symm, hres⟩
      · refine .inr ⟨hk', ?_⟩
        rw [if_neg hres]
        nofun
  · intro q hq
    unfold Carries at *
    rw [htaken]
    split_ifs at hq with hres
    obtain rfl := Option.some.inj hq
    exact hcarries
  · split_ifs with hres
    · -- the record is in the file now, and nothing that was written is larger
      intro w hw
      rw [writes_wrote, List.mem_append, List.mem_singleton] at hw
      refine ⟨new, _, r, rfl, hdone hres, ?_⟩
      rcases hw with hw | rfl
      · rcases hwrites w hw with ⟨-, hrec⟩ | ⟨-, hlt⟩
        · exact hrec ▸ le_rfl
        · exact hlt.le
      · exact le_rfl
    · refine (held_numbered hne).2 ⟨⟨new, rfl, hroom.keep hother hself⟩, fun w hw => ?_⟩
      rw [htaken]
      rw [writes_wrote, List.mem_append, List.mem_singleton] at hw
      rcases hw with hw | rfl
      · exact hwrites w hw
      · exact .inl ⟨rfl, rfl⟩

/-- The append of an iteration keeps it. -/
theorem Inv.appendPending (hp : s.pending = some p) (env : FsEnv cfg) :
    Inv cfg (s.appendPending cfg env p).1 (acts ++ (s.appendPending cfg env p).2.2) := by
  unfold Service.appendPending
  rcases storeAppend_cases cfg env s.entry s.store p with
    ⟨e, r', hr', heq⟩ | ⟨hready, hboot, -, hmax, hnext, hstale, heq⟩
  · rw [heq]
    simp only [reduceCtorEq, if_false, if_true, List.append_nil]
    have hr : Carries acts r' ∧ Held cfg s.entry acts (some r') := by
      rcases hr' with rfl | ⟨hready, rfl⟩
      · exact ⟨h.carries _ hp, hp ▸ h.held⟩
      · obtain ⟨hc, -, hh⟩ := h.number hp hready
        exact ⟨hc, hh⟩
    exact h.silent hr.1 hr.2 fun hready => ⟨hready, rfl⟩
  · rw [heq]
    obtain ⟨hcarries, hne, hheld⟩ := h.number hp hready
    set r := s.store.number p with hrdef
    obtain ⟨bytes, hentry, hacc, hm⟩ := h.ready hready
    obtain ⟨⟨bytes', hentry', hroom⟩, -⟩ := (held_numbered hne).1 hheld
    rw [hentry] at hentry'
    obtain rfl := Entry.file.inj hentry'
    have hvalid := hcarries.1
    have hnum : r.Numbered := by
      have hlt : r.sequence < uint64Max :=
        lt_of_le_of_ne (hnext.trans hm.next_le) hmax
      exact ⟨hne, hlt, by rw [(number_event s.store p).2]; exact hboot, hcarries.2.1⟩
    have hgap := hroom.gap hacc
    rcases writeRecord_cases cfg env s.entry s.store r with ⟨e, heq⟩ | ⟨bytes', hentry', hcase⟩
    · rw [heq]
      simp only [reduceCtorEq, if_false, if_true, List.append_nil]
      exact h.silent hcarries hheld fun hr => absurd hr (by simp)
    · rw [hentry] at hentry'
      obtain rfl := Entry.file.inj hentry'
      have hthrough : (prefixes (encode r)).map (fun p =>
          Entry.file (writeSlot bytes (cfg.slotOf r.sequence) p)) ≠ [] := by
        simp [prefixes]
      rcases hcase with ⟨e, left, hleft, heq⟩ | heq
      · obtain ⟨-, hother, hself⟩ := hleft.spec hvalid hnum hacc hgap
        rw [heq]
        simp only [if_neg hthrough]
        exact h.wrote hcarries hne hheld hentry hother hself nofun (by simp)
      · have hself : recordAt cfg (writeSlot bytes (cfg.slotOf r.sequence) (encode r))
            (cfg.slotOf r.sequence) = some r := recordAt_writeSlot_self bytes hvalid hnum
        have hlen := (length_encode hvalid.2.2.2).le
        rw [heq]
        simp only [if_neg hthrough]
        have hdone : (none : Option Errno) = none → _ := fun _ => hself
        refine h.wrote hcarries hne hheld hentry
          (fun i hi => recordAt_congr (slotBytes_writeSlot_ne (.inl hgap) hlen hi)) (.inr (.inr hself))
          hdone fun _ => ?_
        exact ⟨accepted_writeSlot hacc (slotOf_lt cfg _) hlen, hm.append hvalid hnum hgap hstale⟩

/-- The loop of a flush keeps it. -/
theorem Inv.flushLoop (env : FlushEnv cfg) (n i : ℕ) :
    Inv cfg (flushLoop cfg env n i s).1 (acts ++ (flushLoop cfg env n i s).2.2) := by
  induction n generalizing i s acts with
  | zero => simpa [Journal.flushLoop] using h
  | succ n ih =>
    unfold Journal.flushLoop
    cases htake : s.takePending (env.utc i) with
    | none => simpa using h
    | some t =>
      obtain ⟨s', p, took⟩ := t
      obtain ⟨h', hp, -, -⟩ := h.takePending htake
      have happend := h'.appendPending hp (env.append i)
      rcases hs : s'.appendPending cfg (env.append i) p with ⟨s'', result, wrote⟩
      rw [hs, List.append_assoc] at happend
      simp only [hs]
      cases result with
      | some e => exact happend
      | none =>
        have hloop := ih happend (i + 1)
        rw [List.append_assoc, List.append_assoc] at hloop
        exact hloop

/-- A file with a record is left alone when the store is opened. -/
theorem Inv.storeOpen (env : FsEnv cfg) : Inv cfg { s with
      entry := (storeOpen cfg env s.entry).entry
      store := (storeOpen cfg env s.entry).store } acts := by
  have hcases := storeOpen_cases cfg env s.entry
  have hsame : s.entry ≠ .absent → (Journal.storeOpen cfg env s.entry).entry = s.entry := by
    intro hne
    rcases hcases with ⟨bytes, -, hentry, -, -, -, heq | ⟨habs, -⟩⟩ | ⟨e, -, -, heq | ⟨habs, -⟩⟩
    · rw [hentry, heq]
    · exact absurd habs hne
    · exact heq
    · exact absurd habs hne
  refine ⟨h.fifo, h.queue, h.boot, ?_, h.event, h.order, h.clean, h.kept, h.carries, ?_⟩
  · intro hready
    rcases hcases with ⟨bytes, -, hentry, hacc, hm, -, -⟩ | ⟨e, -, hfalse, -⟩
    · exact ⟨bytes, hentry, hacc, hm⟩
    · rw [hfalse] at hready
      cases hready
  · by_cases habs : s.entry = .absent
    · exact (habs ▸ h.held).of_absent _
    · show Held cfg (Journal.storeOpen cfg env s.entry).entry acts s.pending
      rw [hsame habs]
      exact h.held

/-- The fields the invariant is not about. -/
theorem Inv.congr {t : Service} (hentry : t.entry = s.entry)
    (hstore : t.store = s.store) (hpending : t.pending = s.pending) (hqueue : t.queue = s.queue)
    (hboot : t.boot < uint64Max) : Inv cfg t acts := by
  refine ⟨?_, ?_, hboot, ?_, h.event, h.order, h.clean, ?_, ?_, ?_⟩
  · rw [hqueue]
    exact h.fifo
  · rw [hqueue]
    exact h.queue
  · rw [hstore, hentry]
    exact h.ready
  · rw [hpending]
    exact h.kept
  · rw [hpending]
    exact h.carries
  · rw [hentry, hpending]
    exact h.held

theorem Inv.conclude (result : Option Errno) : Inv cfg (s.conclude result) acts :=
  h.congr rfl rfl rfl rfl h.boot

theorem Inv.openStore (ready : Bool) (env : FsEnv cfg) :
    Inv cfg (s.openStore cfg ready env).1 acts := by
  have hopen := h.storeOpen env
  unfold Service.openStore
  split_ifs with hready
  · exact h
  · simp only
    split_ifs with hboot hlarge
    · -- the boots are used up: the store is closed again
      refine ⟨hopen.fifo, hopen.queue, hopen.boot, nofun, hopen.event, hopen.order, hopen.clean,
        hopen.kept, hopen.carries, hopen.held⟩
    · exact hopen.congr rfl rfl rfl rfl (by simp only; omega)
    · exact hopen

theorem Inv.flush (env : FlushEnv cfg) :
    Inv cfg (s.flush cfg env).1 (acts ++ (s.flush cfg env).2.2) := by
  have hopen := h.openStore env.ready env.openStore
  unfold Service.flush
  split_ifs
  · simpa using h
  · rcases hs : s.openStore cfg env.ready env.openStore with ⟨t, _ | e⟩
    · rw [hs] at hopen
      exact (hopen.flushLoop env cfg.queueDepth 0).conclude _
    · rw [hs] at hopen
      simpa using hopen.conclude (some e)

theorem Inv.start (ready : Bool) (env : FsEnv cfg) : Inv cfg (s.start cfg ready env).1 acts := by
  have hstarted : Inv cfg { s with started := true } acts := h.congr rfl rfl rfl rfl h.boot
  unfold Service.start
  split_ifs
  · exact h
  · exact (hstarted.openStore ready env).conclude _

theorem Inv.submit (event : Option Event.Record) :
    Inv cfg (s.submit cfg event) (acts ++ s.submitted cfg event) := by
  obtain ⟨hqueue, hentry, hstore, hpending, hboot⟩ := submit_cases cfg s event
  have hb : (s.submit cfg event).boot < uint64Max := hboot ▸ h.boot
  by_cases hsame : (s.submit cfg event).queue = s.queue
  · rw [Service.submitted, if_pos hsame, List.append_nil]
    exact h.congr hentry hstore hpending hsame hb
  · obtain ⟨e, rfl, hvalid, hq⟩ := hqueue.resolve_right hsame
    have hacts : s.submitted cfg (some e) = [.queued e] := by
      rw [Service.submitted, if_neg hsame]
      rfl
    have htaken : taken (acts ++ [.queued e]) = taken acts := by simp [taken]
    rw [hacts]
    refine ⟨?_, ?_, hb, ?_, ?_, ?_, ?_, ?_, ?_, ?_⟩
    · rw [htaken, queued_append, h.fifo, hq, List.append_assoc]
      rfl
    · intro e' he'
      rw [hq, List.mem_append, List.mem_singleton] at he'
      rcases he' with he' | rfl
      · exact h.queue e' he'
      · exact hvalid
    · rw [hstore, hentry]
      exact h.ready
    · rw [writes_queued, htaken]
      exact h.event
    · rw [writes_queued]
      exact h.order
    · rw [writes_queued]
      exact h.clean
    · rw [writes_queued, htaken, hpending]
      exact h.kept
    · unfold Carries
      rw [htaken, hpending]
      exact h.carries
    · unfold Held
      rw [writes_queued, htaken, hpending, hentry]
      exact h.held

theorem Inv.exec (op : Op cfg) : Inv cfg (s.exec op).1 (acts ++ (s.exec op).2) := by
  cases op with
  | start ready env =>
    rw [Service.exec, List.append_nil]
    exact h.start ready env
  | submit event => exact h.submit event
  | flush env => exact h.flush env

theorem Inv.execAll (ops : List (Op cfg)) :
    Inv cfg (s.execAll ops).1 (acts ++ (s.execAll ops).2) := by
  induction ops generalizing s acts with
  | nil => simpa [Service.execAll] using h
  | cons op ops ih =>
    have hrest := ih (h.exec op)
    rw [List.append_assoc] at hrest
    exact hrest

end

theorem inv_boot₀ (cfg : Config) (entry : Entry) : Inv cfg (.boot₀ cfg entry) [] := by
  refine ⟨rfl, by simp [Service.boot₀], by simp [Service.boot₀], nofun, by simp [writes, writesFrom],
    .nil, by simp [writes, writesFrom], by simp [taken], nofun, ?_⟩
  simp [Held, Service.boot₀, writes, writesFrom]

/-- **The journal writes each event once.**  Whatever is at the path after the reset, whatever
calls come, and whatever the storage answers them. -/
theorem journal_exactly_once (cfg : Config) (entry : Entry) (ops : List (Op cfg)) :
    ExactlyOnce cfg ((Service.boot₀ cfg entry).execAll ops).1
      ((Service.boot₀ cfg entry).execAll ops).2 :=
  ((inv_boot₀ cfg entry).execAll ops).exactlyOnce

/-- The write of the first of two events fails, and the next flush writes both. -/
def retriedRun : List (Op smallConfig) :=
  [.start true (.working smallConfig), .submit (some ⟨0, 1, 7, 1, 2, []⟩),
    .submit (some ⟨0, 2, 7, 1, 2, []⟩), .flush ⟨true, .working smallConfig, fun _ =>
      { FsEnv.working smallConfig with write := some Errno.EIO }, fun _ => none⟩,
    .flush ⟨true, .working smallConfig, fun _ => .working smallConfig, fun _ => none⟩]

/-- The first is written again under its sequence, and the file has two records. -/
theorem journal_exactly_once_retried :
    let after := (Service.boot₀ smallConfig .absent).execAll retriedRun
    ExactlyOnce smallConfig after.1 after.2 ∧
      (writes after.2).map (fun w => (w.index, w.record.sequence, w.result)) =
        [(1, 1, some Errno.EIO), (1, 1, none), (2, 2, none)] ∧
      after.1.pending = none ∧ after.1.entry.contents.length = slotOffset 2 :=
  ⟨journal_exactly_once smallConfig .absent retriedRun, by decide +kernel, by decide +kernel,
    by decide +kernel⟩

end KfswServices.Journal
