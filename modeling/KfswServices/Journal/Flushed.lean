/-
# What two flushes leave in the journal

A flush takes at most as many events as the queue holds, the one in memory included; so an event
that goes into the last place of the queue while another is in memory waits for the second flush.
`flush_twice_iff` says exactly when two flushes on working storage get through, and then the event
that was queued last is the newest record of the file.
-/

import KfswServices.Journal.ExactlyOnce
import KfswServices.Journal.Reopen
import KfswServices.Journal.Reset

namespace KfswServices.Journal

/-- The store is open, and the newest record of the file is of an event. -/
def Newest (cfg : Config) (s : Service) (e : Event.Record) : Prop :=
  s.store.ready = true ∧ ∃ r bytes, s.entry = .file bytes ∧
    recordAt cfg bytes (cfg.slotOf r.sequence) = some r ∧
    r.sequence + 1 = s.store.nextSequence ∧ r.event = e

/-- The store is open, on a file, and there is no record in memory. -/
structure Idle (cfg : Config) (s : Service) : Prop where
  sound : Sound cfg s
  ready : s.store.ready = true
  pending : s.pending = none
  file : ∃ bytes, s.entry = .file bytes

/-- The events that have no sequence yet. -/
def Service.unnumbered (s : Service) : ℕ :=
  s.queue.length + match s.pending with
    | some p => if p.sequence = 0 then 1 else 0
    | none => 0

/-- The numbering goes on for some events, and for this boot. -/
def NumberableFor (cfg : Config) (s : Service) (n : ℕ) : Prop :=
  (∀ x ∈ s.found cfg, x + 1 + n ≤ uint64Max) ∧
    (∀ p, s.pending = some p → p.sequence ≠ 0 → p.sequence + 1 + n ≤ uint64Max) ∧
    Bootable cfg s

/-- The service after a flush on working storage. -/
def Service.flushed (cfg : Config) (utc : ℕ → Option Int64) (s : Service) : Service :=
  (s.flush cfg (.working cfg utc)).1

/-- What it returns. -/
def Service.flushResult (cfg : Config) (utc : ℕ → Option Int64) (s : Service) : Option Errno :=
  (s.flush cfg (.working cfg utc)).2.1

variable {cfg : Config}

/-- The largest sequence leaves room. -/
theorem Store.Consistent.room_iff {s : Store} (h : s.Consistent cfg) {n : ℕ} (hn : n < uint64Max) :
    (∀ x ∈ s.sequences, x + 1 + n ≤ uint64Max) ↔ s.nextSequence + n ≤ uint64Max := by
  constructor
  · intro hall
    rcases h.next_reached with h1 | ⟨x, hx, hnext⟩
    · omega
    · rw [hnext]
      exact hall x hx
  · intro hle x hx
    have := h.next_gt x hx
    omega

variable {s : Service}

/-- **The loop without a record in memory** takes events as far as it goes, and the last of them is
the newest record. -/
theorem flushLoop_spec (utc : ℕ → Option Int64) (h : Idle cfg s) (n i : ℕ)
    (hroom : s.store.nextSequence + min n s.queue.length ≤ uint64Max) :
    let o := flushLoop cfg (.working cfg utc) n i s
    o.2.1 = none ∧ Idle cfg o.1 ∧ o.1.started = s.started ∧ o.1.queue = s.queue.drop n ∧
      o.1.store.nextSequence = s.store.nextSequence + min n s.queue.length ∧
      (s.queue.take n = [] → o.1.entry = s.entry) ∧
      ∀ e, (s.queue.take n).getLast? = some e → Newest cfg o.1 e := by
  induction n generalizing s i with
  | zero => exact ⟨rfl, h, rfl, rfl, by simp [flushLoop], fun _ => rfl, by simp⟩
  | succ n ih =>
    intro o
    have hcons := (h.sound.ready h.ready).2
    cases hq : s.queue with
    | nil =>
      have htake : s.takePending (utc i) = none := by simp [Service.takePending, h.pending, hq]
      have ho : o = (s, none, []) := by
        show flushLoop cfg (.working cfg utc) (n + 1) i s = _
        rw [flushLoop, show (FlushEnv.working cfg utc).utc i = utc i from rfl, htake]
      rw [ho]
      exact ⟨rfl, h, rfl, by rw [hq]; rfl, by simp, fun _ => rfl, by simp⟩
    | cons e queue =>
      obtain ⟨bytes, hentry⟩ := h.file
      set p := newRecord s.boot (utc i) e with hp
      set t : Service := { s with queue := queue, pending := some p } with ht
      have htake : s.takePending (utc i) = some (t, p, [.took e]) := by
        simp [Service.takePending, h.pending, hq, ht, hp]
      obtain ⟨hsound, happ, -⟩ := h.sound.takePending h.ready htake
      rw [hq, List.length_cons] at hroom
      have hlt : s.store.nextSequence < uint64Max := by omega
      have hfits : t.store.Fits cfg (t.store.number p) := (hcons.fits rfl).2 hlt
      have hidle : Idle cfg (t.appended cfg bytes (t.store.number p)) :=
        ⟨hsound.appended h.ready hfits bytes, h.ready, rfl, _, rfl⟩
      have hnext : (t.appended cfg bytes (t.store.number p)).store.nextSequence =
          s.store.nextSequence + 1 := nextSequence_appended rfl
      have hlen : (t.appended cfg bytes (t.store.number p)).queue = queue := rfl
      obtain ⟨hnone, hidle', hstarted, hqueue, hnext', hentry', hnewest⟩ :=
        ih hidle (i + 1) (by rw [hnext, hlen]; omega)
      have ho : o = _ := flushLoop_through (n := n) hsound h.ready hentry happ htake hfits
      rw [ho]
      rw [hlen] at hqueue hnext' hentry' hnewest
      refine ⟨hnone, hidle', hstarted, hqueue, ?_, fun hnil => by simp at hnil, fun e' he' => ?_⟩
      · rw [hnext', hnext, List.length_cons]
        omega
      · rw [List.take_succ_cons] at he'
        by_cases hnil : queue.take n = []
        · -- this record is the last one
          rw [hnil, List.getLast?_singleton] at he'
          obtain rfl := Option.some.inj he'
          have hnum : (t.store.number p).sequence = s.store.nextSequence := rfl
          have hpos := hcons.pos
          have happ' := happ.number t.store
          have hmin : min n queue.length = 0 := by
            have := congrArg List.length hnil
            rwa [List.length_take] at this
          refine ⟨hidle'.ready, t.store.number p, _, hentry' hnil,
            recordAt_writeSlot_self bytes happ'.1 ⟨by omega, hfits.1, happ'.2⟩, ?_,
            (number_event _ _).1⟩
          dsimp only
          rw [hnext', hmin, hnext, hnum]
        · refine hnewest e' ?_
          rw [← he']
          cases hl : queue.take n with
          | nil => exact absurd hl hnil
          | cons x xs => rw [List.getLast?_cons_cons]

/-- The sequence that comes after the record in memory. -/
def Service.nextAfter (s : Service) : ℕ :=
  match s.pending with
  | none => s.store.nextSequence
  | some p => max s.store.nextSequence ((s.store.number p).sequence + 1)

/-- **The loop of a flush that gets through** leaves at most one event, the one that was queued
last, or has that one as the newest record. -/
theorem flushLoop_first {utc : ℕ → Option Int64} (hs : Sound cfg s)
    (hready : s.store.ready = true) {bytes : List UInt8} (hentry : s.entry = .file bytes)
    (hle : s.queue.length ≤ cfg.queueDepth)
    (hnone : (flushLoop cfg (.working cfg utc) cfg.queueDepth 0 s).2.1 = none) :
    let o := flushLoop cfg (.working cfg utc) cfg.queueDepth 0 s
    Idle cfg o.1 ∧ o.1.started = s.started ∧ o.1.queue.length ≤ 1 ∧
      o.1.store.nextSequence + o.1.queue.length = s.nextAfter + s.queue.length ∧
      ∀ e, s.queue.getLast? = some e → o.1.queue = [] ∧ Newest cfg o.1 e ∨ o.1.queue = [e] := by
  intro o
  cases hp : s.pending with
  | none =>
    have hidle : Idle cfg s := ⟨hs, hready, hp, bytes, hentry⟩
    have hroom := (flushLoop_idle hs hready hentry hp cfg.queueDepth 0).1 hnone
    obtain ⟨-, hidle', hstarted, hqueue, hnext, -, hnewest⟩ :=
      flushLoop_spec utc hidle cfg.queueDepth 0 hroom
    rw [List.drop_eq_nil_of_le hle] at hqueue
    rw [List.take_of_length_le hle] at hnewest
    have hnil : o.1.queue = [] := hqueue
    refine ⟨hidle', hstarted, ?_, ?_, fun e he => Or.inl ⟨hnil, hnewest e he⟩⟩
    · rw [hnil]
      exact Nat.zero_le 1
    · rw [hnil, show o.1.store.nextSequence = _ from hnext]
      simp only [Service.nextAfter, hp, List.length_nil]
      omega
  | some p =>
    have hdepth := cfg.depth_ge
    obtain ⟨n, hn⟩ : ∃ n, cfg.queueDepth = n + 1 := ⟨cfg.queueDepth - 1, by omega⟩
    have htake : s.takePending (utc 0) = some (s, p, []) := by simp [Service.takePending, hp]
    have happ := hs.pending p hp
    have ho : o = flushLoop cfg (.working cfg utc) (n + 1) 0 s := by rw [← hn]
    have hstep := flushLoop_step (n := n) hs hready hentry happ htake
    rw [← ho] at hstep
    obtain ⟨hfits, hrest⟩ := hstep.1.1 hnone
    have hidle : Idle cfg (s.appended cfg bytes (s.store.number p)) :=
      ⟨hs.appended hready hfits bytes, hready, rfl, _, rfl⟩
    have hroom := (flushLoop_idle hidle.sound hready rfl rfl n 1).1 hrest
    obtain ⟨-, hidle', hstarted, hqueue, hnext, -, hnewest⟩ :=
      flushLoop_spec utc hidle n (0 + 1) hroom
    rw [flushLoop_through (n := n) hs hready hentry happ htake hfits] at ho
    have hnext0 : (s.appended cfg bytes (s.store.number p)).store.nextSequence = s.nextAfter := by
      simp only [Service.nextAfter, hp]
      rfl
    rw [hnext0] at hnext
    have hqueue0 : (s.appended cfg bytes (s.store.number p)).queue = s.queue := rfl
    rw [hqueue0] at hqueue hnext hnewest
    rw [ho]
    dsimp only
    rw [hqueue, List.length_drop]
    refine ⟨hidle', hstarted, by omega, by omega, fun e he => ?_⟩
    rcases Nat.lt_or_ge n s.queue.length with hlt | hge
    · -- the last event waits
      refine Or.inr ?_
      obtain ⟨init, hinit⟩ : ∃ init, s.queue = init ++ [e] := by
        obtain ⟨init, hinit⟩ := List.getLast?_eq_some_iff.1 he
        exact ⟨init, hinit⟩
      have hlen : init.length = n := by
        have := congrArg List.length hinit
        rw [List.length_append, List.length_singleton] at this
        omega
      rw [hinit, ← hlen, List.drop_left]
    · rw [List.take_of_length_le hge] at hnewest
      exact Or.inl ⟨List.drop_eq_nil_of_le hge, hnewest e he⟩

/-- A flush of a journal that was started opens the store and takes events. -/
theorem flush_started (utc : ℕ → Option Int64) (hstarted : s.started = true) :
    s.flush cfg (.working cfg utc) =
      match s.openStore cfg true (.working cfg) with
      | (t, some e) => (t.conclude (some e), some e, [])
      | (t, none) =>
        let (t, result, acts) := flushLoop cfg (.working cfg utc) cfg.queueDepth 0 t
        (t.conclude result, result, acts) := by
  unfold Service.flush
  rw [if_neg (by simp [hstarted])]
  rfl

theorem flushResult_of_not_started (utc : ℕ → Option Int64) (hstarted : ¬ s.started = true) :
    s.flushResult cfg utc = some .EACCES := by
  unfold Service.flushResult Service.flush
  rw [if_pos (by simpa using hstarted)]

/-- **A flush of a service that is idle**, with at most one event, gets through if the numbering
goes on for it; it changes nothing if there is none. -/
theorem flush_idle (utc : ℕ → Option Int64) (h : Idle cfg s) (hstarted : s.started = true)
    (hlen : s.queue.length ≤ 1) :
    (s.flushResult cfg utc = none ↔ s.store.nextSequence + s.queue.length ≤ uint64Max) ∧
      (s.flushResult cfg utc = none →
        (∀ e, Newest cfg s e → s.queue = [] → Newest cfg (s.flushed cfg utc) e) ∧
          ∀ e, s.queue = [e] → Newest cfg (s.flushed cfg utc) e) := by
  have hdepth := cfg.depth_ge
  have hopen : s.openStore cfg true (.working cfg) = (s, none) := by
    unfold Service.openStore
    rw [if_pos (by simp [h.ready])]
  have hflush : s.flush cfg (.working cfg utc) =
      let (t, result, acts) := flushLoop cfg (.working cfg utc) cfg.queueDepth 0 s
      (t.conclude result, result, acts) := by
    rw [flush_started utc hstarted, hopen]
  obtain ⟨bytes, hentry⟩ := h.file
  have hloop := @flushLoop_idle cfg _ _ utc h.sound h.ready hentry h.pending cfg.queueDepth 0
  rw [min_eq_right (by omega : s.queue.length ≤ cfg.queueDepth)] at hloop
  unfold Service.flushResult Service.flushed
  rw [hflush]
  refine ⟨hloop, fun hnone => ?_⟩
  obtain ⟨-, hidle, -, -, hnext, hsame, hnewest⟩ := flushLoop_spec utc h cfg.queueDepth 0
    (by rw [min_eq_right (by omega : s.queue.length ≤ cfg.queueDepth)]; exact hloop.1 hnone)
  refine ⟨fun e hnew hnil => ?_, fun e hone => ?_⟩
  · obtain ⟨-, r, bytes', hfile, hrec, hseq, hevent⟩ := hnew
    rw [hnil] at hsame hnext
    rw [List.length_nil, Nat.min_zero, Nat.add_zero] at hnext
    exact ⟨hidle.ready, r, bytes', (hsame List.take_nil).trans hfile, hrec, hseq.trans hnext.symm,
      hevent⟩
  · rw [hone] at hnewest
    refine hnewest e ?_
    rw [List.take_of_length_le (by rw [List.length_singleton]; omega), List.getLast?_singleton]

/-- Where what is at the path cannot be opened, the store is not. -/
theorem openStore_unusable (hfile : s.store.ready = true → ∃ bytes, s.entry = .file bytes)
    (hu : ¬ Usable cfg s) : (s.openStore cfg true (.working cfg)).2 ≠ none := by
  unfold Usable at hu
  by_cases hready : s.store.ready = true
  · rw [if_pos hready] at hu
    exact absurd (hfile hready) hu
  · rw [if_neg hready] at hu
    unfold Service.openStore
    rw [if_neg (by simp [hready])]
    dsimp only
    rw [if_neg fun h => hu h.1]
    exact hu

theorem flushResult_of_unusable (utc : ℕ → Option Int64) (hstarted : s.started = true)
    (hfile : s.store.ready = true → ∃ bytes, s.entry = .file bytes) (hu : ¬ Usable cfg s) :
    s.flushResult cfg utc ≠ none := by
  have hopen := openStore_unusable hfile hu
  unfold Service.flushResult
  rw [flush_started utc hstarted]
  rcases ho : s.openStore cfg true (.working cfg) with ⟨t, _ | e⟩
  · rw [ho] at hopen
    exact absurd rfl hopen
  · nofun

/-- The room that is left behind the record in memory. -/
theorem nextAfter_room (hcons : s.store.Consistent cfg) (hq : s.queue.length + 1 < uint64Max) :
    s.nextAfter + s.queue.length ≤ uint64Max ↔
      (∀ x ∈ s.store.sequences, x + 1 + s.unnumbered ≤ uint64Max) ∧
        ∀ p, s.pending = some p → p.sequence ≠ 0 → p.sequence + 1 + s.unnumbered ≤ uint64Max := by
  have hle : s.unnumbered ≤ s.queue.length + 1 := by
    unfold Service.unnumbered
    split
    · split_ifs <;> omega
    · omega
  rw [hcons.room_iff (lt_of_le_of_lt hle hq)]
  cases hp : s.pending with
  | none =>
    simp only [Service.nextAfter, Service.unnumbered, hp, Nat.add_zero, reduceCtorEq,
      IsEmpty.forall_iff, implies_true, and_true]
  | some p =>
    by_cases hz : p.sequence = 0
    · have hnum : (s.store.number p).sequence = s.store.nextSequence := by
        simp [Store.number, hz]
      simp only [Service.nextAfter, Service.unnumbered, hp, hnum, if_pos hz]
      rw [max_eq_right (Nat.le_succ _)]
      constructor
      · intro h
        refine ⟨by omega, fun p' hp' hne => ?_⟩
        obtain rfl := Option.some.inj hp'
        exact absurd hz hne
      · intro h
        have := h.1
        omega
    · have hnum : (s.store.number p).sequence = p.sequence := by simp [Store.number, hz]
      simp only [Service.nextAfter, Service.unnumbered, hp, hnum, if_neg hz, Nat.add_zero]
      constructor
      · intro h
        refine ⟨by omega, fun p' hp' _ => ?_⟩
        obtain rfl := Option.some.inj hp'
        omega
      · rintro ⟨h1, h2⟩
        have := h2 p rfl hz
        omega

/-- What an open keeps. -/
theorem openStore_started (s : Service) (ready : Bool) (env : FsEnv cfg) :
    (s.openStore cfg ready env).1.started = s.started := by
  unfold Service.openStore
  dsimp only
  split_ifs <;> rfl

/-- The events that a flush numbers have no sequence yet. -/
theorem fresh_le_unnumbered (s : Service) : s.fresh cfg ≤ s.unnumbered := by
  unfold Service.fresh Service.unnumbered
  cases s.pending with
  | none => exact min_le_right _ _
  | some p =>
    dsimp only
    split_ifs
    · exact min_le_right _ _
    · exact min_le_right _ _

/-- **Behind a first flush that gets through**, the second one has at most one event. -/
theorem flush_second (utc : ℕ → Option Int64) {t : Service} (hs : Sound cfg t)
    (hready : t.store.ready = true) {bytes : List UInt8} (hentry : t.entry = .file bytes)
    (hle : t.queue.length ≤ cfg.queueDepth) (hstarted : t.started = true) :
    let o := flushLoop cfg (.working cfg utc) cfg.queueDepth 0 t
    o.2.1 = none →
      ((o.1.conclude o.2.1).flushResult cfg utc = none ↔ t.nextAfter + t.queue.length ≤ uint64Max) ∧
      ((o.1.conclude o.2.1).flushResult cfg utc = none → ∀ e, t.queue.getLast? = some e →
        Newest cfg ((o.1.conclude o.2.1).flushed cfg utc) e) := by
  intro o hnone
  obtain ⟨hidle, hst, hlen, hsum, hlast⟩ := flushLoop_first hs hready hentry hle hnone
  have hidle' : Idle cfg (o.1.conclude o.2.1) :=
    ⟨hidle.sound.conclude _, hidle.ready, hidle.pending, hidle.file⟩
  obtain ⟨hiff, hnewest⟩ := flush_idle utc hidle' (hst.trans hstarted) hlen
  rw [← hsum]
  refine ⟨hiff, fun hnone' e he => ?_⟩
  rcases hlast e he with ⟨hnil, hnew⟩ | hone
  · exact (hnewest hnone').1 e hnew hnil
  · exact (hnewest hnone').2 e hone

/-- **When two flushes get through.**  On working storage both return 0 if and only if the journal
was started, what is at the path can be opened, the sequences leave a place for the record in
memory, and the numbering goes on for everything that has no sequence yet; then the event that was
queued last is the newest record. -/
theorem flush_twice_iff (utc : ℕ → Option Int64) (hs : Sound cfg s)
    (hfile : s.store.ready = true → ∃ bytes, s.entry = .file bytes)
    (hle : s.queue.length ≤ cfg.queueDepth) :
    (s.flushResult cfg utc = none ∧ (s.flushed cfg utc).flushResult cfg utc = none ↔
      s.started = true ∧ Usable cfg s ∧ Placeable cfg s ∧ NumberableFor cfg s s.unnumbered) ∧
    (s.flushResult cfg utc = none → (s.flushed cfg utc).flushResult cfg utc = none →
      ∀ e, s.queue.getLast? = some e → Newest cfg ((s.flushed cfg utc).flushed cfg utc) e) := by
  have hdepth := cfg.depth_le
  by_cases hstarted : s.started = true
  swap
  · rw [flushResult_of_not_started utc hstarted]
    exact ⟨⟨fun h => absurd h.1 nofun, fun h => absurd h.1 hstarted⟩, nofun⟩
  have hflush := @flush_started cfg s utc hstarted
  by_cases hu : Usable cfg s
  swap
  · have hresult := flushResult_of_unusable utc hstarted hfile hu
    exact ⟨⟨fun h => absurd h.1 hresult, fun h => absurd h.2.1 hu⟩, fun h => absurd h hresult⟩
  obtain ⟨hboot, hopened⟩ := openStore_working hs hu
  obtain ⟨hsound, hready⟩ := hs.openStore true (.working cfg)
  have hstarted' := openStore_started s true (.working cfg)
  rcases ho : s.openStore cfg true (.working cfg) with ⟨t, result⟩
  rw [ho] at hboot hopened hsound hready hstarted' hflush
  cases result with
  | some e =>
    -- the boots are used up
    have hresult : s.flushResult cfg utc = some e := by
      unfold Service.flushResult
      rw [hflush]
    rw [hresult]
    exact ⟨⟨fun h => absurd h.1 nofun, fun h => absurd (hboot.2 h.2.2.2.2.2) nofun⟩, nofun⟩
  | none =>
    obtain ⟨bytes, hentry, hfound, hpending, hqueue⟩ := hopened rfl
    have hready := hready rfl
    dsimp only at hpending hqueue hfound hflush hstarted'
    have hfound' : t.found cfg = s.found cfg := (if_pos hready).trans hfound
    have hunnumbered : t.unnumbered = s.unnumbered := by
      unfold Service.unnumbered
      rw [hqueue, hpending]
    have hplace : Placeable cfg t ↔ Placeable cfg s := by
      unfold Placeable
      rw [hfound', hpending]
    have hle' : t.queue.length ≤ cfg.queueDepth := hqueue ▸ hle
    have hshort : t.queue.length + 1 < uint64Max := by
      simp only [uint64Max]
      omega
    have hroom := nextAfter_room (hsound.ready hready).2 hshort
    rw [hunnumbered, hfound, hpending] at hroom
    obtain ⟨hloop, -⟩ := flushLoop_working hsound hready hentry utc
    have hsecond := flush_second utc hsound hready hentry hle' (hstarted'.trans hstarted)
    set o := flushLoop cfg (.working cfg utc) cfg.queueDepth 0 t with hodef
    have hresult : s.flushResult cfg utc = o.2.1 := by
      unfold Service.flushResult
      rw [hflush]
    have hflushed : s.flushed cfg utc = o.1.conclude o.2.1 := by
      unfold Service.flushed
      rw [hflush]
    rw [hresult, hflushed]
    have hmono := @fresh_le_unnumbered cfg s
    have hfresh : t.fresh cfg = s.fresh cfg := by
      unfold Service.fresh
      rw [hpending, hqueue]
    rw [hfound', hfresh, hplace, hpending] at hloop
    refine ⟨⟨fun ⟨h1, h2⟩ => ?_, fun ⟨_, _, hp, hx, hn, _⟩ => ?_⟩, fun h1 h2 e he => ?_⟩
    · obtain ⟨hx, hn⟩ := hroom.1 ((hsecond h1).1.1 h2)
      exact ⟨hstarted, hu, (hloop.1 h1).1, hx, hn, hboot.1 rfl⟩
    · have h1 : o.2.1 = none := by
        refine hloop.2 ⟨hp, fun x hmem => ?_, fun p hpend hne => ?_⟩
        · have := hx x hmem
          omega
        · have := hn p hpend hne
          omega
      exact ⟨h1, (hsecond h1).1.2 (hroom.2 ⟨hx, hn⟩)⟩
    · exact (hsecond h1).2 h2 e (by rwa [hqueue])

/-- **The newest record is read back** after a reopen. -/
theorem storeGet_newest {acts : List Act} (hinv : Inv cfg s acts) {e : Event.Record}
    (h : Newest cfg s e) : (storeOpen cfg (.working cfg) s.entry).result = none ∧
      ∃ r, storeGet cfg (.working cfg) (storeOpen cfg (.working cfg) s.entry).entry
        (storeOpen cfg (.working cfg) s.entry).store 0 = .ok r ∧ r.event = e := by
  obtain ⟨hready, r, bytes, hentry, hrec, hnext, hevent⟩ := h
  obtain ⟨bytes', hentry', hacc, hmatches⟩ := hinv.ready hready
  obtain rfl : bytes = bytes' := Entry.file.inj (hentry.symm.trans hentry')
  obtain ⟨st, hopen, hst, hm⟩ := (storeOpen_file cfg bytes).1 hacc
  have hmem : r ∈ newestFirst cfg bytes := mem_newestFirst.2 ⟨_, hrec⟩
  obtain ⟨i, hi, hget⟩ := List.mem_iff_getElem.1 hmem
  have hpos : 0 < (newestFirst cfg bytes).length := by omega
  -- no record has a larger sequence, so that this one is in front
  have hzero : i = 0 := by
    by_contra hne
    have hlt := List.pairwise_iff_getElem.1 (pairwise_newestFirst cfg bytes) 0 i hpos hi (by omega)
    obtain ⟨j, hj⟩ := mem_newestFirst.1 (List.getElem_mem hpos)
    have hle := hmatches.next_gt j (slot_lt_of_recordAt hj) _ hj
    rw [hget] at hlt
    omega
  subst hzero
  rw [hentry, hopen]
  refine ⟨rfl, r, ?_, hevent⟩
  rw [storeGet_working hm hst 0, List.getElem?_eq_getElem hpos, hget]

end KfswServices.Journal
