/-
# When a flush gets through

After a failure `kfsw_journal_flush` opens the file again, and the file may be another one by
then.  The record in memory keeps the sequence it was given under the old file, and
`kfsw_journal_store_append` refuses it when the new file is not that far, or holds a larger
sequence in its slot.  `flush_resumes_iff` says exactly when a flush on working storage gets
through: when the record has no sequence yet, or the sequences found in the slots leave a place
for the one it has.  Beside that only the end of the numbering can stop it.
-/

import KfswServices.Journal.Numbering
import KfswServices.Journal.Service

namespace KfswServices.Journal

/-- The states the service can be in: after a reset, after any calls, and with the file changed
from outside at any time. -/
inductive Reachable (cfg : Config) : Service → Prop
  | boot (entry : Entry) : Reachable cfg (.boot₀ cfg entry)
  | call {s : Service} (op : Op cfg) : Reachable cfg s → Reachable cfg (s.exec op).1
  | outside {s : Service} (entry : Entry) : Reachable cfg s → Reachable cfg { s with entry }

/-- A flush in which every call to the file system succeeds; `utc` is the clock. -/
def FlushEnv.working (cfg : Config) (utc : ℕ → Option Int64) : FlushEnv cfg :=
  ⟨true, .working cfg, fun _ => .working cfg, utc⟩

/-- What is at the path lets the calls succeed: a store that is not ready can be opened, and one
that is ready finds a file. -/
def Usable (cfg : Config) (s : Service) : Prop :=
  if s.store.ready then ∃ bytes, s.entry = .file bytes
  else (storeOpen cfg (.working cfg) s.entry).result = none

/-- The flush returns 0, and the event in memory is in the file. -/
def Resumes (cfg : Config) (s : Service) (utc : ℕ → Option Int64) : Prop :=
  (s.flush cfg (.working cfg utc)).2.1 = none ∧
    ∀ p, s.pending = some p → ∃ r before bytes,
      .wrote r before (.file bytes) none ∈ (s.flush cfg (.working cfg utc)).2.2 ∧
        r.event = p.event ∧ recordAt cfg bytes (cfg.slotOf r.sequence) = some r

/-! ### The condition -/

/-- The sequences in the slots, 0 for none: those in memory, or those in the file when it is to
be opened. -/
def Service.found (cfg : Config) (s : Service) : List ℕ :=
  if s.store.ready then s.store.sequences
  else (List.range cfg.capacity).map (sequenceAt cfg s.entry.contents)

/-- How many events a flush has a new sequence for to find. -/
def Service.fresh (cfg : Config) (s : Service) : ℕ :=
  match s.pending with
  | none => min cfg.queueDepth s.queue.length
  | some p =>
    if p.sequence = 0 then min cfg.queueDepth (s.queue.length + 1)
    else min (cfg.queueDepth - 1) s.queue.length

/-- **The sequences in the slots leave a place for the record in memory**: it has no sequence, or
its sequence is at most one above a sequence in the slots, or the first, and its slot holds
none that is larger. -/
def Placeable (cfg : Config) (s : Service) : Prop :=
  ∀ p, s.pending = some p → p.sequence ≠ 0 →
    (p.sequence = 1 ∨ ∃ x ∈ s.found cfg, p.sequence ≤ x + 1) ∧
      (s.found cfg).getD (cfg.slotOf p.sequence) 0 ≤ p.sequence

/-- The numbering goes on for the events of this flush, and for this boot. -/
def Numberable (cfg : Config) (s : Service) : Prop :=
  (∀ x ∈ s.found cfg, x + 1 + s.fresh cfg ≤ uint64Max) ∧
    (∀ p, s.pending = some p → p.sequence ≠ 0 → p.sequence + 1 + s.fresh cfg ≤ uint64Max) ∧
    (s.boot = 0 → ∀ i q, recordAt cfg s.entry.contents i = some q → q.boot + 1 < uint64Max)

/-! ### What is known of a reachable state -/

/-- A record that `kfsw_journal_store_append` checks nothing more of. -/
def Record.Appendable (p : Record) : Prop := p.event.Valid ∧ p.boot ≠ 0 ∧ p.boot < uint64Max

structure Sound (cfg : Config) (s : Service) : Prop where
  queue : ∀ e ∈ s.queue, e.Valid
  boot : s.boot < uint64Max
  ready : s.store.ready = true → s.boot ≠ 0 ∧ s.store.Consistent cfg
  pending : ∀ p, s.pending = some p → p.Appendable

variable {p : Record}

theorem Record.Appendable.number (h : p.Appendable) (s : Store) : (s.number p).Appendable := by
  obtain ⟨hevent, hboot⟩ := number_event s p
  unfold Record.Appendable at *
  rw [hevent, hboot]
  exact h

/-! ### It holds of every reachable state -/

variable {cfg : Config} {s : Service}

section

variable (h : Sound cfg s)
include h

theorem Sound.takePending {s' : Service} {utc : Option Int64} {took : List Act}
    (hready : s.store.ready = true) (hs : s.takePending utc = some (s', p, took)) :
    Sound cfg s' ∧ p.Appendable ∧ s'.store = s.store := by
  unfold Service.takePending at hs
  cases hp : s.pending with
  | some q =>
    simp only [hp, Option.some.injEq, Prod.mk.injEq] at hs
    obtain ⟨rfl, rfl, rfl⟩ := hs
    exact ⟨h, h.pending _ hp, rfl⟩
  | none =>
    cases hq : s.queue with
    | nil => simp [hp, hq] at hs
    | cons e queue =>
      simp only [hp, hq, Option.some.injEq, Prod.mk.injEq] at hs
      obtain ⟨rfl, rfl, rfl⟩ := hs
      have hnew : (newRecord s.boot utc e).Appendable :=
        ⟨h.queue e (by rw [hq]; exact List.mem_cons_self), (h.ready hready).1, h.boot⟩
      refine ⟨⟨fun e' he' => ?_, h.boot, h.ready, ?_⟩, hnew, rfl⟩
      · exact h.queue e' (by rw [hq]; exact List.mem_cons_of_mem _ he')
      · rintro r hr
        obtain rfl := Option.some.inj hr
        exact hnew

theorem Sound.appendPending (hp : p.Appendable) (env : FsEnv cfg) :
    Sound cfg (s.appendPending cfg env p).1 ∧
      ((s.appendPending cfg env p).2.1 = none → (s.appendPending cfg env p).1.store.ready = true) := by
  -- a record that is kept in memory is the one that was handed over, perhaps numbered
  have hkeep : ∀ (entry : Entry) (store : Store) (r : Record) (result : Option Errno),
      r.Appendable → (store.ready = true → s.boot ≠ 0 ∧ store.Consistent cfg) →
      Sound cfg { s with entry, store, pending := if result = none then none else some r } := by
    intro entry store r result hr hstore
    refine ⟨h.queue, h.boot, hstore, fun q hq => ?_⟩
    split_ifs at hq
    obtain rfl := Option.some.inj hq
    exact hr
  unfold Service.appendPending
  rcases storeAppend_cases cfg env s.entry s.store p with
    ⟨e, r', hr', heq⟩ | ⟨hready, -, -, hmax, hnext, hstale, heq⟩
  · rw [heq]
    refine ⟨hkeep _ _ _ _ ?_ h.ready, nofun⟩
    rcases hr' with rfl | ⟨-, rfl⟩
    · exact hp
    · exact hp.number _
  · rw [heq]
    obtain ⟨hboot, hcons⟩ := h.ready hready
    rcases writeRecord_cases cfg env s.entry s.store (s.store.number p) with
      ⟨e, heq⟩ | ⟨bytes, -, ⟨e, left, -, heq⟩ | heq⟩ <;> rw [heq]
    · exact ⟨hkeep _ _ _ _ (hp.number _) nofun, nofun⟩
    · exact ⟨hkeep _ _ _ _ (hp.number _) nofun, nofun⟩
    · have hlt : (s.store.number p).sequence < uint64Max :=
        lt_of_le_of_ne (hnext.trans hcons.next_le) hmax
      exact ⟨hkeep _ _ _ _ (hp.number _) fun _ => ⟨hboot, hcons.append hlt hstale⟩, fun _ => hready⟩

theorem Sound.flushLoop (hready : s.store.ready = true) (env : FlushEnv cfg)
    (n i : ℕ) : Sound cfg (flushLoop cfg env n i s).1 := by
  induction n generalizing i s with
  | zero => exact h
  | succ n ih =>
    unfold Journal.flushLoop
    cases htake : s.takePending (env.utc i) with
    | none => exact h
    | some t =>
      obtain ⟨s', p, took⟩ := t
      obtain ⟨h', hp, hstore⟩ := h.takePending hready htake
      have happend := h'.appendPending hp (env.append i)
      rcases hs : s'.appendPending cfg (env.append i) p with ⟨s'', result, wrote⟩
      rw [hs] at happend
      simp only [hs]
      cases result with
      | some e => exact happend.1
      | none => exact ih happend.1 (happend.2 rfl) (i + 1)

theorem Sound.conclude (result : Option Errno) :
    Sound cfg (s.conclude result) := ⟨h.queue, h.boot, h.ready, h.pending⟩

/-- What an open leaves, when the store was not ready: a boot number, if it succeeds. -/
theorem Sound.openStore (ready : Bool) (env : FsEnv cfg) : Sound cfg (s.openStore cfg ready env).1 ∧
      ((s.openStore cfg ready env).2 = none → (s.openStore cfg ready env).1.store.ready = true) := by
  unfold Service.openStore
  split_ifs with hr
  · exact ⟨h, fun _ => (Bool.and_eq_true_iff.1 hr).1⟩
  · simp only
    rcases storeOpen_cases cfg env s.entry with
      ⟨bytes, hres, -, -, hm, hready, -⟩ | ⟨e, hres, hready, -⟩ <;> rw [hres]
    · have hboot_lt : (storeOpen cfg env s.entry).store.highestBoot < uint64Max := hm.boot_lt
      split_ifs with hboot hlarge
      · exact ⟨⟨h.queue, h.boot, nofun, h.pending⟩, nofun⟩
      · refine ⟨⟨h.queue, ?_, fun _ => ⟨Nat.succ_ne_zero _, hm.consistent⟩, h.pending⟩,
          fun _ => hready⟩
        simp only
        omega
      · exact ⟨⟨h.queue, h.boot, fun _ => ⟨fun hz => hboot ⟨rfl, hz⟩, hm.consistent⟩, h.pending⟩,
          fun _ => hready⟩
    · rw [if_neg (by simp)]
      refine ⟨⟨h.queue, h.boot, fun hr => ?_, h.pending⟩, nofun⟩
      rw [hready] at hr
      cases hr

theorem Sound.flush (env : FlushEnv cfg) : Sound cfg (s.flush cfg env).1 := by
  obtain ⟨hopen, hready⟩ := h.openStore env.ready env.openStore
  unfold Service.flush
  split_ifs
  · exact h
  · rcases hs : s.openStore cfg env.ready env.openStore with ⟨t, _ | e⟩ <;> rw [hs] at hopen hready
    · exact (hopen.flushLoop (hready rfl) env cfg.queueDepth 0).conclude _
    · exact hopen.conclude (some e)

theorem Sound.start (ready : Bool) (env : FsEnv cfg) : Sound cfg (s.start cfg ready env).1 := by
  have hstarted : Sound cfg { s with started := true } := ⟨h.queue, h.boot, h.ready, h.pending⟩
  unfold Service.start
  split_ifs
  · exact h
  · exact (hstarted.openStore ready env).1.conclude _

theorem Sound.submit (event : Option Event.Record) : Sound cfg (s.submit cfg event) := by
  obtain ⟨hqueue, -, hstore, hpending, hboot⟩ := submit_cases cfg s event
  refine ⟨fun e' he' => ?_, hboot ▸ h.boot, by rw [hstore, hboot]; exact h.ready,
    by rw [hpending]; exact h.pending⟩
  rcases hqueue with ⟨e, -, hvalid, hq⟩ | hq <;> rw [hq] at he'
  · rcases List.mem_append.1 he' with he' | he'
    · exact h.queue e' he'
    · exact List.mem_singleton.1 he' ▸ hvalid
  · exact h.queue e' he'

end

theorem Reachable.sound (h : Reachable cfg s) : Sound cfg s := by
  induction h with
  | boot entry => exact ⟨by simp [Service.boot₀], by simp [Service.boot₀], nofun, nofun⟩
  | call op _ ih =>
    cases op with
    | start ready env => exact ih.start ready env
    | submit event => exact ih.submit event
    | flush env => exact ih.flush env
  | outside entry _ ih => exact ⟨ih.queue, ih.boot, ih.ready, ih.pending⟩

theorem Reachable.execAll (h : Reachable cfg s) (ops : List (Op cfg)) :
    Reachable cfg (s.execAll ops).1 := by
  induction ops generalizing s with
  | nil => exact h
  | cons op ops ih => exact ih (h.call op)

/-! ### An append on working storage -/

/-- The checks of `kfsw_journal_store_append` on the sequence. -/
def Store.Fits (cfg : Config) (s : Store) (r : Record) : Prop :=
  r.sequence < uint64Max ∧ r.sequence ≤ s.nextSequence ∧
    s.sequences.getD (cfg.slotOf r.sequence) 0 ≤ r.sequence

variable {bytes : List UInt8}

/-- **An append on working storage** succeeds when the sequence passes the checks. -/
theorem storeAppend_working {s : Store} (hready : s.ready = true)
    (hnext : s.nextSequence ≤ uint64Max) (hp : p.Appendable) : (s.Fits cfg (s.number p) →
      storeAppend cfg (.working cfg) (.file bytes) s p = .wrote cfg bytes s (s.number p)) ∧
    (¬ s.Fits cfg (s.number p) →
      ∃ e, (storeAppend cfg (.working cfg) (.file bytes) s p).result = some e) := by
  obtain ⟨⟨-, -, hsev, hpay⟩, hboot, hlt⟩ := hp
  have hvalid : ¬ (p.boot = 0 ∨ p.boot = uint64Max ∨
      p.event.payload.length > Event.maxPayloadSize ∨
      p.event.severity > Event.Severity.CRITICAL.toByte) := by
    rintro (h | h | h | h)
    · exact hboot h
    · exact hlt.ne h
    · exact absurd hpay (not_le.2 h)
    · exact absurd hsev (UInt8.not_le.2 h)
  unfold storeAppend
  simp only [hready, FsEnv.working, Bool.not_true, Bool.or_self, Bool.false_eq_true, if_false,
    hvalid]
  constructor
  · rintro ⟨hmax, hle, hstale⟩
    rw [if_neg (by omega), if_neg (by omega)]
    rfl
  · intro hfits
    split_ifs with hover hstale
    · exact ⟨_, rfl⟩
    · exact ⟨_, rfl⟩
    · exact absurd ⟨by omega, by omega, by omega⟩ hfits

/-- The service after the append of an iteration. -/
def Service.appended (cfg : Config) (bytes : List UInt8) (s : Service) (r : Record) : Service :=
  { s with
    entry := .file (writeSlot bytes (cfg.slotOf r.sequence) (encode r))
    store := s.store.append (cfg.slotOf r.sequence) r
    pending := none }

variable {utc : ℕ → Option Int64}

/-- **An iteration that gets through** goes on behind the record that it has written. -/
theorem flushLoop_through {t : Service} {took : List Act} {n i : ℕ} (ht : Sound cfg t)
    (hready : t.store.ready = true) (hentry : t.entry = .file bytes) (hp : p.Appendable)
    (htake : s.takePending (utc i) = some (t, p, took)) (hf : t.store.Fits cfg (t.store.number p)) :
    flushLoop cfg (.working cfg utc) (n + 1) i s =
      let r := t.store.number p
      let (s, result, acts) := flushLoop cfg (.working cfg utc) n (i + 1) (t.appended cfg bytes r)
      (s, result, took ++ ([.wrote r t.entry
        (.file (writeSlot bytes (cfg.slotOf r.sequence) (encode r))) none] ++ acts)) := by
  have happend : t.appendPending cfg (.working cfg) p =
      (t.appended cfg bytes (t.store.number p), none, [.wrote (t.store.number p) t.entry
        (.file (writeSlot bytes (cfg.slotOf (t.store.number p).sequence)
          (encode (t.store.number p)))) none]) := by
    unfold Service.appendPending
    rw [hentry, (storeAppend_working hready (ht.ready hready).2.next_le hp).1 hf]
    simp [Appended.wrote, Service.appended, prefixes]
  rw [flushLoop, show (FlushEnv.working cfg utc).utc i = utc i from rfl, htake]
  simp only [show (FlushEnv.working cfg utc).append i = .working cfg from rfl, happend]

/-- An iteration gets through when the sequence passes the checks, and then it has written the
record. -/
theorem flushLoop_step {t : Service} {took : List Act} {n i : ℕ} (ht : Sound cfg t)
    (hready : t.store.ready = true) (hentry : t.entry = .file bytes) (hp : p.Appendable)
    (htake : s.takePending (utc i) = some (t, p, took)) :
    let o := flushLoop cfg (.working cfg utc) (n + 1) i s
    let r := t.store.number p
    (o.2.1 = none ↔ t.store.Fits cfg r ∧
      (flushLoop cfg (.working cfg utc) n (i + 1) (t.appended cfg bytes r)).2.1 = none) ∧
    (t.store.Fits cfg r →
      .wrote r t.entry (.file (writeSlot bytes (cfg.slotOf r.sequence) (encode r))) none ∈ o.2.2) := by
  intro o r
  by_cases hf : t.store.Fits cfg r
  · have ho : o = _ := flushLoop_through (n := n) ht hready hentry hp htake hf
    rw [ho]
    exact ⟨⟨fun h => ⟨hf, h⟩, fun h => h.2⟩, fun _ => by simp [r]⟩
  · have hrefused : ∃ e, (storeAppend cfg (.working cfg) (.file bytes) t.store p).result = some e :=
      (storeAppend_working hready (ht.ready hready).2.next_le hp).2 hf
    obtain ⟨e, he⟩ := hrefused
    have happend : (t.appendPending cfg (.working cfg) p).2.1 = some e := by
      unfold Service.appendPending
      rw [hentry]
      exact he
    rcases ha : t.appendPending cfg (.working cfg) p with ⟨t', result, wrote⟩
    rw [ha] at happend
    obtain rfl : result = some e := happend
    have ho : o = (t', some e, took ++ wrote) := by
      show flushLoop cfg (.working cfg utc) (n + 1) i s = _
      rw [flushLoop, show (FlushEnv.working cfg utc).utc i = utc i from rfl, htake]
      dsimp only
      rw [show t.appendPending cfg ((FlushEnv.working cfg utc).append i) p =
        (t', some e, wrote) from ha]
    rw [ho]
    exact ⟨⟨(fun h => by cases h), fun h => absurd h.1 hf⟩, fun h => absurd h hf⟩

/-- The service after an append is as sound as before. -/
theorem Sound.appended {t : Service} {r : Record} (ht : Sound cfg t)
    (hready : t.store.ready = true) (hfits : t.store.Fits cfg r) (bytes : List UInt8) :
    Sound cfg (t.appended cfg bytes r) := by
  obtain ⟨hboot, hcons⟩ := ht.ready hready
  exact ⟨ht.queue, ht.boot, fun _ => ⟨hboot, hcons.append hfits.1 hfits.2.2⟩, nofun⟩

/-- A record without a sequence gets the next one, which passes the checks up to the end of the
numbering. -/
theorem Store.Consistent.fits {s : Store} (h : s.Consistent cfg) (hp : p.sequence = 0) :
    s.Fits cfg (s.number p) ↔ s.nextSequence < uint64Max := by
  have hnum : (s.number p).sequence = s.nextSequence := by simp [Store.number, hp]
  unfold Store.Fits
  rw [hnum]
  exact ⟨fun hf => hf.1, fun hlt => ⟨hlt, le_rfl, (h.getD_lt _).le⟩⟩

theorem nextSequence_appended {t : Service} (hp : p.sequence = 0) :
    (t.appended cfg bytes (t.store.number p)).store.nextSequence = t.store.nextSequence + 1 := by
  simp [Service.appended, Store.append, Store.number, hp]

/-- **Without a record in memory** only the numbering can stop the loop. -/
theorem flushLoop_idle (hs : Sound cfg s) (hready : s.store.ready = true)
    (hentry : s.entry = .file bytes) (hp : s.pending = none) (n i : ℕ) :
    (flushLoop cfg (.working cfg utc) n i s).2.1 = none ↔
      s.store.nextSequence + min n s.queue.length ≤ uint64Max := by
  induction n generalizing s bytes i with
  | zero =>
    have hle := (hs.ready hready).2.next_le
    simpa [flushLoop] using hle
  | succ n ih =>
    have hcons := (hs.ready hready).2
    cases hq : s.queue with
    | nil =>
      have htake : s.takePending (utc i) = none := by simp [Service.takePending, hp, hq]
      have hle := hcons.next_le
      rw [flushLoop, show (FlushEnv.working cfg utc).utc i = utc i from rfl, htake]
      simpa using hle
    | cons e queue =>
      set p := newRecord s.boot (utc i) e with hpdef
      set t : Service := { s with queue := queue, pending := some p } with ht
      have htake : s.takePending (utc i) = some (t, p, [.took e]) := by
        simp [Service.takePending, hp, hq, ht, hpdef]
      obtain ⟨hsound, happ, -⟩ := hs.takePending hready htake
      have hzero : p.sequence = 0 := rfl
      have hfits : t.store.Fits cfg (t.store.number p) ↔ s.store.nextSequence < uint64Max :=
        hcons.fits hzero
      rw [(flushLoop_step (n := n) hsound hready hentry happ htake).1, hfits]
      by_cases hlt : s.store.nextSequence < uint64Max
      · have hnext : (t.appended cfg bytes (t.store.number p)).store.nextSequence =
            t.store.nextSequence + 1 := nextSequence_appended hzero
        rw [ih (hsound.appended hready (hfits.2 hlt) bytes) hready rfl rfl (i + 1), hnext]
        have hlen : (t.appended cfg bytes (t.store.number p)).queue.length = queue.length := rfl
        have hst : t.store.nextSequence = s.store.nextSequence := rfl
        rw [hlen, hst, List.length_cons]
        omega
      · rw [List.length_cons]
        omega

/-! ### An open on working storage -/

/-- The scan finds no boot that is not in a record. -/
theorem scanFrom_boot_le {env : FsEnv cfg} {b n i : ℕ} {s t : Store}
    (hrec : ∀ i q, recordAt cfg bytes i = some q → q.boot ≤ b) (hs : s.highestBoot ≤ b)
    (h : scanFrom cfg env bytes n i s = .ok t) : t.highestBoot ≤ b := by
  induction n generalizing i s with
  | zero =>
    obtain rfl := Except.ok.inj h
    exact hs
  | succ n ih =>
    rw [scanFrom] at h
    cases hread : env.read (i + 1) with
    | some e => simp [hread] at h
    | none =>
      simp only [hread] at h
      split_ifs at h with hempty hshort
      · obtain rfl := Except.ok.inj h
        exact hs
      · obtain rfl := Except.ok.inj h
        exact hs
      · cases hdec : decode (slotBytes bytes i) with
        | none =>
          simp only [hdec] at h
          exact ih (s := s.spoiled) hs h
        | some r =>
          simp only [hdec] at h
          split_ifs at h with hslot
          · exact ih (s := s.spoiled) hs h
          · have hr : recordAt cfg bytes i = some r :=
              recordAt_eq_some.2 ⟨not_not.1 hshort, hdec, not_not.1 hslot⟩
            exact ih (s := s.note i r) (max_le hs (hrec i r hr)) h

theorem storeOpen_boot_le {entry : Entry} {b : ℕ}
    (hrec : ∀ i q, recordAt cfg entry.contents i = some q → q.boot ≤ b) :
    (storeOpen cfg (.working cfg) entry).store.highestBoot ≤ b := by
  have hzero : (Store.zero cfg).highestBoot ≤ b := Nat.zero_le _
  cases entry with
  | absent => exact hzero
  | directory => exact hzero
  | file bytes =>
    show (if bytes.length > cfg.fileSize then Opened.refuse cfg (.file bytes) .EFBIG
      else scanFile cfg (.working cfg) bytes).store.highestBoot ≤ b
    split_ifs
    · exact hzero
    · unfold scanFile
      simp only [FsEnv.working]
      split_ifs
      · split
        · exact hzero
        · next hscan =>
          have hle := scanFrom_boot_le hrec hzero hscan
          exact hle
      · exact hzero

/-- The boot number can be set. -/
def Bootable (cfg : Config) (s : Service) : Prop :=
  s.boot = 0 → ∀ i q, recordAt cfg s.entry.contents i = some q → q.boot + 1 < uint64Max

/-- **The store is open afterwards**, with the sequences found in the slots, unless the boots are
used up. -/
theorem openStore_working (hs : Sound cfg s) (hu : Usable cfg s) :
    ((s.openStore cfg true (.working cfg)).2 = none ↔ Bootable cfg s) ∧
      ((s.openStore cfg true (.working cfg)).2 = none → ∃ bytes,
        (s.openStore cfg true (.working cfg)).1.entry = .file bytes ∧
        (s.openStore cfg true (.working cfg)).1.store.sequences = s.found cfg ∧
        (s.openStore cfg true (.working cfg)).1.pending = s.pending ∧
        (s.openStore cfg true (.working cfg)).1.queue = s.queue) := by
  unfold Service.openStore Service.found
  unfold Usable at hu
  by_cases hready : s.store.ready = true
  · rw [if_pos hready] at hu
    obtain ⟨bytes, hentry⟩ := hu
    rw [if_pos (by simp [hready]), if_pos hready]
    exact ⟨⟨fun _ hz => absurd hz (hs.ready hready).1, fun _ => rfl⟩,
      fun _ => ⟨bytes, hentry, rfl, rfl, rfl⟩⟩
  · rw [if_neg hready] at hu
    rw [if_neg (by simp [hready]), if_neg hready]
    obtain ⟨bytes, -, hentry, -, hm, -, hfrom⟩ | ⟨e, he, -⟩ :=
      storeOpen_cases cfg (.working cfg) s.entry
    · -- a file that has just been created holds no record, and neither did the path before
      have hrec : ∀ i, recordAt cfg bytes i = recordAt cfg s.entry.contents i := by
        intro i
        rcases hfrom with h | ⟨h, rfl⟩
        · rw [h]
          rfl
        · rw [h, recordAt_of_le_header (length_header _).le,
            recordAt_of_le_header (Nat.zero_le _)]
      have hfound : (storeOpen cfg (.working cfg) s.entry).store.sequences =
          (List.range cfg.capacity).map (sequenceAt cfg s.entry.contents) := by
        rw [hm.sequences]
        refine List.map_congr_left fun i hi => ?_
        rw [if_pos (List.mem_range.1 hi), sequenceAt, sequenceAt, hrec]
      have hboot : (storeOpen cfg (.working cfg) s.entry).store.highestBoot < uint64Max - 1 ↔
          ∀ i q, recordAt cfg s.entry.contents i = some q → q.boot + 1 < uint64Max := by
        constructor
        · intro hlt i q hq
          rw [← hrec] at hq
          have := hm.boot_ge i (slot_lt_of_recordAt hq) q hq
          omega
        · intro hall
          have hle : (storeOpen cfg (.working cfg) s.entry).store.highestBoot ≤ uint64Max - 2 := by
            refine storeOpen_boot_le fun i q hq => ?_
            have := hall i q hq
            omega
          simp only [uint64Max] at *
          omega
      simp only [hu, true_and]
      by_cases hz : s.boot = 0
      · rw [if_pos hz]
        by_cases hlt : (storeOpen cfg (.working cfg) s.entry).store.highestBoot < uint64Max - 1
        · rw [if_neg (by omega)]
          exact ⟨⟨fun _ _ => hboot.1 hlt, fun _ => rfl⟩, fun _ => ⟨bytes, hentry, hfound, rfl, rfl⟩⟩
        · rw [if_pos (by omega)]
          exact ⟨⟨(fun h => by cases h), fun h => absurd (hboot.2 (h hz)) hlt⟩,
            fun h => by cases h⟩
      · rw [if_neg hz]
        exact ⟨⟨fun _ h => absurd h hz, fun _ => rfl⟩, fun _ => ⟨bytes, hentry, hfound, rfl, rfl⟩⟩
    · rw [hu] at he
      cases he

/-! ### The flush -/

/-- A place in the slots is a sequence the append accepts. -/
theorem placeable_iff (hcons : s.store.Consistent cfg) (hfound : s.found cfg = s.store.sequences)
    (hp : s.pending = some p) (hz : p.sequence ≠ 0) :
    Placeable cfg s ↔ p.sequence ≤ s.store.nextSequence ∧
      s.store.sequences.getD (cfg.slotOf p.sequence) 0 ≤ p.sequence := by
  have hpos := hcons.pos
  unfold Placeable
  rw [hfound]
  constructor
  · intro h
    obtain ⟨h1 | ⟨x, hx, hle⟩, hstale⟩ := h p hp hz
    · exact ⟨by omega, hstale⟩
    · have := hcons.next_gt x hx
      exact ⟨by omega, hstale⟩
  · rintro ⟨hle, hstale⟩ q hq -
    rw [hp] at hq
    obtain rfl := Option.some.inj hq
    refine ⟨?_, hstale⟩
    rcases hcons.next_reached with h1 | ⟨x, hx, hnext⟩
    · exact .inl (by omega)
    · exact .inr ⟨x, hx, by omega⟩

/-- The loop of a flush, on a store that is open. -/
theorem flushLoop_working (hs : Sound cfg s) (hready : s.store.ready = true)
    (hentry : s.entry = .file bytes) (utc : ℕ → Option Int64) :
    let o := flushLoop cfg (.working cfg utc) cfg.queueDepth 0 s
    (o.2.1 = none ↔ Placeable cfg s ∧ (∀ x ∈ s.found cfg, x + 1 + s.fresh cfg ≤ uint64Max) ∧
      ∀ p, s.pending = some p → p.sequence ≠ 0 → p.sequence + 1 + s.fresh cfg ≤ uint64Max) ∧
    (o.2.1 = none → ∀ p, s.pending = some p → ∃ r before bytes,
      .wrote r before (.file bytes) none ∈ o.2.2 ∧
        r.event = p.event ∧ recordAt cfg bytes (cfg.slotOf r.sequence) = some r) := by
  intro o
  obtain ⟨-, hcons⟩ := hs.ready hready
  have hfound : s.found cfg = s.store.sequences := if_pos hready
  have hdepth := cfg.depth_ge
  have hdepth' := cfg.depth_le
  obtain ⟨n, hn⟩ : ∃ n, cfg.queueDepth = n + 1 := ⟨cfg.queueDepth - 1, by omega⟩
  have hfresh_le : s.fresh cfg ≤ cfg.queueDepth := by
    unfold Service.fresh
    split
    · exact min_le_left _ _
    · split_ifs
      · exact min_le_left _ _
      · exact (min_le_left _ _).trans (Nat.sub_le _ _)
  -- the next sequence is one above the largest in the slots
  have hnumbers : ∀ k ≤ cfg.queueDepth, (∀ x ∈ s.store.sequences, x + 1 + k ≤ uint64Max) ↔
      s.store.nextSequence + k ≤ uint64Max := by
    intro k hk
    constructor
    · intro hall
      rcases hcons.next_reached with h1 | ⟨x, hx, hnext⟩
      · rw [h1]
        simp only [uint64Max]
        omega
      · rw [hnext]
        exact hall x hx
    · intro hle x hx
      have := hcons.next_gt x hx
      omega
  rw [hfound, hnumbers _ hfresh_le]
  cases hp : s.pending with
  | none =>
    have hplace : Placeable cfg s := fun p h => by rw [hp] at h; cases h
    have hfresh : s.fresh cfg = min cfg.queueDepth s.queue.length := by simp [Service.fresh, hp]
    have hidle : o.2.1 = none ↔ _ := flushLoop_idle hs hready hentry hp cfg.queueDepth 0
    rw [hidle, hfresh]
    exact ⟨⟨fun h => ⟨hplace, h, nofun⟩, fun h => h.2.1⟩, fun _ => nofun⟩
  | some p =>
    have happ := hs.pending p hp
    have htake : s.takePending (utc 0) = some (s, p, []) := by simp [Service.takePending, hp]
    set r := s.store.number p with hr
    obtain ⟨hiff, hwrote⟩ : (o.2.1 = none ↔ s.store.Fits cfg r ∧
          (flushLoop cfg (.working cfg utc) n 1 (s.appended cfg bytes r)).2.1 = none) ∧
        (s.store.Fits cfg r → .wrote r s.entry
          (.file (writeSlot bytes (cfg.slotOf r.sequence) (encode r))) none ∈ o.2.2) := by
      have h := flushLoop_step (n := n) hs hready hentry happ htake
      rw [← hn] at h
      exact h
    -- after this record the loop goes on without one in memory
    have hrest : s.store.Fits cfg r →
        ((flushLoop cfg (.working cfg utc) n 1 (s.appended cfg bytes r)).2.1 = none ↔
          max s.store.nextSequence (r.sequence + 1) + min n s.queue.length ≤ uint64Max) :=
      fun hf => flushLoop_idle (hs.appended hready hf bytes) hready rfl rfl n 1
    refine ⟨?_, fun h q hq => ?_⟩
    · rw [hiff, and_congr_right hrest]
      by_cases hz : p.sequence = 0
      · have hnum : r.sequence = s.store.nextSequence := by simp [hr, Store.number, hz]
        have hplace : Placeable cfg s := by
          intro q hq hne
          rw [hp] at hq
          obtain rfl := Option.some.inj hq
          exact absurd hz hne
        have hfresh : s.fresh cfg = min n s.queue.length + 1 := by
          simp only [Service.fresh, hp, if_pos hz]
          omega
        rw [hcons.fits hz, hnum, hfresh, max_eq_right (Nat.le_succ _)]
        constructor
        · rintro ⟨-, hle⟩
          refine ⟨hplace, by omega, fun q hq hne => ?_⟩
          obtain rfl := Option.some.inj hq
          exact absurd hz hne
        · rintro ⟨-, hle, -⟩
          omega
      · have hnum : r = p := by simp [hr, Store.number, hz]
        have hfresh : s.fresh cfg = min n s.queue.length := by
          simp only [Service.fresh, hp, if_neg hz]
          omega
        have hplace : Placeable cfg s ↔ p.sequence ≤ s.store.nextSequence ∧
            s.store.sequences.getD (cfg.slotOf p.sequence) 0 ≤ p.sequence :=
          placeable_iff hcons hfound hp hz
        rw [hnum, hplace, hfresh]
        unfold Store.Fits
        constructor
        · rintro ⟨⟨-, hle, hstale⟩, hmax⟩
          refine ⟨⟨hle, hstale⟩, by omega, fun q hq _ => ?_⟩
          obtain rfl := Option.some.inj hq
          omega
        · rintro ⟨⟨hle, hstale⟩, hnext, hp'⟩
          have := hp' p rfl hz
          exact ⟨⟨by omega, hle, hstale⟩, by omega⟩
    · obtain rfl := Option.some.inj hq
      obtain ⟨hf, -⟩ := hiff.1 h
      have happ' := happ.number s.store
      have hpos : r.sequence ≠ 0 := by
        have := hcons.pos
        rw [hr, Store.number]
        split_ifs with hz
        · exact this.ne'
        · exact hz
      exact ⟨r, s.entry, _, hwrote hf, (number_event _ _).1,
        recordAt_writeSlot_self bytes happ'.1 ⟨hpos, hf.1, happ'.2⟩⟩

/-- **When the journal is not stuck.**  In any state the service can be in, with anything at the
path that can be opened, a flush in which all calls succeed writes the event in memory and
returns 0 if and only if the journal was started, the sequences in the slots leave a place for
the record, and the numbering goes on. -/
theorem flush_resumes_iff (cfg : Config) (s : Service) (utc : ℕ → Option Int64)
    (hs : Reachable cfg s) (hu : Usable cfg s) :
    Resumes cfg s utc ↔ s.started = true ∧ Placeable cfg s ∧ Numberable cfg s := by
  obtain ⟨hboot, hopened⟩ := openStore_working hs.sound hu
  obtain ⟨hsound, hready⟩ := hs.sound.openStore true (.working cfg)
  unfold Resumes Service.flush
  by_cases hstarted : s.started = true
  swap
  · simp [hstarted]
  have hopen : (FlushEnv.working cfg utc).ready = true ∧
      (FlushEnv.working cfg utc).openStore = .working cfg := ⟨rfl, rfl⟩
  simp only [hstarted, Bool.not_true, Bool.false_eq_true, if_false, hopen]
  rcases ho : s.openStore cfg true (.working cfg) with ⟨t, result⟩
  rw [ho] at hboot hopened hsound hready
  cases result with
  | some e =>
    -- the boots are used up
    simp only at hboot
    refine ⟨fun h => absurd h.1 nofun, fun h => absurd (hboot.2 h.2.2.2.2) nofun⟩
  | none =>
    obtain ⟨bytes, hentry, hfound, hpending, hqueue⟩ := hopened rfl
    obtain ⟨hiff, hwrote⟩ := flushLoop_working hsound (hready rfl) hentry utc
    have hfound' : t.found cfg = s.found cfg := (if_pos (hready rfl)).trans hfound
    have hfresh : t.fresh cfg = s.fresh cfg := by
      unfold Service.fresh
      rw [hpending, hqueue]
    have hplace : Placeable cfg t ↔ Placeable cfg s := by
      unfold Placeable
      rw [hfound', hpending]
    rw [hfound', hfresh, hplace, hpending] at hiff
    rw [hpending] at hwrote
    constructor
    · rintro ⟨h, -⟩
      obtain ⟨hp, hfile, hown⟩ := hiff.1 h
      exact ⟨trivial, hp, hfile, hown, hboot.1 rfl⟩
    · rintro ⟨-, hp, hfile, hown, -⟩
      have h := hiff.2 ⟨hp, hfile, hown⟩
      exact ⟨h, hwrote h⟩

/-- An event of the resource monitor. -/
def sampleEvent : Event.Record := ⟨0, 1, 7, 1, 2, []⟩

/-- A flush whose append fails. -/
def failingFlush : Op smallConfig :=
  .flush { FlushEnv.working smallConfig (fun _ => none) with
    append := fun _ => { FsEnv.working smallConfig with seek := some Errno.EIO } }

/-- The service after such a flush of its first event. -/
def interrupted : Service := ((Service.boot₀ smallConfig .absent).execAll
  [.start true (.working smallConfig), .submit (some sampleEvent), failingFlush]).1

/-- The record is kept in memory with its sequence, and the next flush writes it. -/
theorem flush_resumes_iff_interrupted : interrupted.pending.map (·.sequence) = some 1 ∧
    Resumes smallConfig interrupted fun _ => none := by
  have hu : Usable smallConfig interrupted :=
    show (storeOpen smallConfig (.working smallConfig) interrupted.entry).result = none by
      decide +kernel
  refine ⟨by decide, (flush_resumes_iff smallConfig interrupted _
    ((Reachable.boot _).execAll _) hu).2
      ⟨rfl, fun p hp _ => ?_, by decide +kernel, fun p hp _ => ?_, fun h => absurd h (by decide)⟩⟩
  · obtain rfl := Option.some.inj hp
    decide +kernel
  · obtain rfl := Option.some.inj hp
    decide +kernel

/-- The calls of a run whose second append fails: its record has sequence 2. -/
def failingRun : List (Op smallConfig) :=
  [.start true (.working smallConfig), .submit (some sampleEvent),
    .flush (.working smallConfig fun _ => none), .submit (some sampleEvent), failingFlush]

/-- The service after it, with the file removed. -/
def removedFile : Service :=
  { ((Service.boot₀ smallConfig .absent).execAll failingRun).1 with entry := .absent }

/-- **The journal can get stuck.**  The file is created anew and its numbering starts at 1, but
the record in memory has sequence 2. -/
theorem removed_file_wedges : ¬ ∀ (cfg : Config) (s : Service) (utc : ℕ → Option Int64),
    Reachable cfg s → s.started = true → Usable cfg s → Resumes cfg s utc := by
  intro h
  have hs : Reachable smallConfig removedFile := .outside _ ((Reachable.boot _).execAll failingRun)
  have hresult : (removedFile.flush smallConfig (.working smallConfig fun _ => none)).2.1 =
      some .EOVERFLOW := by decide
  have hresumes := h smallConfig removedFile (fun _ => none) hs rfl rfl
  rw [hresumes.1] at hresult
  cases hresult

end KfswServices.Journal
