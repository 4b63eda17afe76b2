/-
# What a complete read has sent

The log is read by sequence: a record that is overwritten before its turn ends the read with
`STATUS_CHANGED`, so a read that completes has sent the window it announced
(`serveLog_complete`), up to the 64-bit sequence coming round.

The journal is read by age, and an age is another record after an append.  A read that completes
has sent the newest records of one instant when those still to be read stay the newest, and are
as many as the statistics said (`serveJournal_complete`); an append in between is skipped or
repeated unnoticed (`append_skips_record`).
-/

import KfswServices.Journal.ExactlyOnce
import KfswServices.Journal.Read
import KfswServices.Journal.Reopen
import KfswServices.Log.Serve

namespace KfswServices.Log

open Library

/-! ### The log -/

theorem appends_append (cfg : Config) (s : Ring) (a b : List Call) :
    s.appends cfg (a ++ b) = (s.appends cfg a).appends cfg b := List.foldl_append

theorem record_sequence (c : Call) (sequence : UInt64) : (c.record sequence).sequence = sequence := by
  unfold Call.record
  split <;> rfl

/-- **What appends do**: the counter goes on, and a slot they have changed has one of the sequences
they gave. -/
theorem appends_spec (cfg : Config) {s : Ring} (hs : s.restored = true) (calls : List Call) :
    (s.appends cfg calls).restored = true ∧ (s.appends cfg calls).header.nextSequence =
        s.header.nextSequence + UInt64.ofNat calls.length ∧
      ∀ i, (s.appends cfg calls).records i = s.records i ∨ ∃ j < calls.length,
        ((s.appends cfg calls).records i).sequence = s.header.nextSequence + UInt64.ofNat j := by
  induction calls using List.reverseRecOn with
  | nil => exact ⟨hs, (UInt64.add_zero _).symm, fun _ => .inl rfl⟩
  | append_singleton calls c ih =>
    obtain ⟨hr, hnext, hrecords⟩ := ih
    set t := s.appends cfg calls with ht
    have hrestore : t.restoreOnce cfg = t := if_pos hr
    have hstep : s.appends cfg (calls ++ [c]) = t.append cfg c := by
      rw [appends_append, ← ht]
      rfl
    rw [hstep]
    unfold Ring.append
    rw [hrestore]
    refine ⟨hr, ?_, fun i => ?_⟩
    · show t.header.nextSequence + 1 = _
      rw [hnext, List.length_append, UInt64.add_assoc]
      congr 1
      exact (UInt64.ofNat_add _ _).symm
    · show Function.update t.records _ _ i = _ ∨ ∃ j < _, (Function.update t.records _ _ i).sequence = _
      by_cases hi : i = cfg.slotOf t.header.nextSequence
      · refine .inr ⟨calls.length, by simp, ?_⟩
        rw [hi, Function.update_self, record_sequence, hnext]
      · rw [Function.update_of_ne hi]
        rcases hrecords i with h | ⟨j, hj, h⟩
        · exact .inl h
        · exact .inr ⟨j, by rw [List.length_append]; omega, h⟩

/-- The appends that land before the accesses `i`, `i + 1`, …, `n` of them. -/
def LogEnv.landing (env : LogEnv) (i n : ℕ) : List Call := (List.range' i n).flatMap env.appends

/-- The sequences from `first` on. -/
def windowSequences (first : UInt64) : ℕ → List UInt64
  | 0 => []
  | n + 1 => first :: windowSequences (first + 1) n

/-- A sequence of the window taken in `s`. -/
def InWindow (cfg : Config) (s : Ring) (q : UInt64) : Prop :=
  s.header.Holds cfg q ∧ s.header.nextSequence.toNat - q.toNat ≤ maxRead

/-- **A record of the window that is still there is the one of the window.** -/
theorem getEncoded_appends {cfg : Config} {s : Ring} (hs : s.restored = true) {calls : List Call}
    (hfew : calls.length + maxRead ≤ 2 ^ 64) {q : UInt64} {e : Encoded} (hq : InWindow cfg s q)
    (h : (s.appends cfg calls).getEncoded cfg q = .ok e) : s.getEncoded cfg q = .ok e := by
  obtain ⟨hholds, hnear⟩ := hq
  obtain ⟨-, hrec, hseq, hsize⟩ := getEncoded_eq_ok.1 h
  have hrestore : s.restoreOnce cfg = s := if_pos hs
  refine getEncoded_eq_ok.2 ⟨by rw [hrestore]; exact hholds, ?_, hseq, hsize⟩
  rcases (appends_spec cfg hs calls).2.2 (cfg.slotOf q) with hsame | ⟨j, hj, hnew⟩
  · rw [← hsame, hrec]
  · -- the counter would have come round
    exfalso
    rw [hrec, hseq] at hnew
    have hnat := congrArg UInt64.toNat hnew
    rw [UInt64.toNat_add, UInt64.toNat_ofNat'] at hnat
    have hlt := hholds.2.1
    have hnext := s.header.nextSequence.toNat_lt
    simp only [maxRead] at hnear hfew
    omega

/-- The loop over a part of the window. -/
theorem serveLogLoop_complete {cfg : Config} {print : Printer} {env : LogEnv} {minimum : UInt8}
    {s : Ring} (hs : s.restored = true) (n i : ℕ) (q : UInt64) (done : List Call)
    (hfew : (done ++ env.landing i n).length + maxRead ≤ 2 ^ 64)
    (hq : n ≠ 0 → InWindow cfg s q ∧ q.toNat + n ≤ s.header.nextSequence.toNat)
    (h : (serveLogLoop cfg print env minimum n i q (s.appends cfg done)).1 = .COMPLETE) :
    ∃ es : List Encoded, es.map Except.ok = (windowSequences q n).map (s.getEncoded cfg) ∧
      (serveLogLoop cfg print env minimum n i q (s.appends cfg done)).2 =
        (es.filter fun e => minimum ≤ e.severity).map (toMessage print env.format) := by
  induction n generalizing i q done with
  | zero => exact ⟨[], rfl, rfl⟩
  | succ n ih =>
    obtain ⟨hwin, hend⟩ := hq (Nat.succ_ne_zero n)
    have hland : env.landing i (n + 1) = env.appends i ++ env.landing (i + 1) n := by
      simp [LogEnv.landing, List.range'_succ]
    rw [hland, ← List.append_assoc] at hfew
    have hone : (1 : UInt64).toNat = 1 := rfl
    have hlast := s.header.nextSequence.toNat_lt
    have hsucc : (q + 1).toNat = q.toNat + 1 := by
      rw [UInt64.toNat_add, hone]
      omega
    have hstep := ih (i + 1) (q + 1) (done ++ env.appends i) hfew
      (fun hn => by
        obtain ⟨⟨h1, h2, h3⟩, h4⟩ := hwin
        exact ⟨⟨⟨by omega, by omega, by omega⟩, by omega⟩, by omega⟩)
    rw [appends_append] at hstep
    rw [serveLogLoop] at h ⊢
    cases hget : ((s.appends cfg done).appends cfg (env.appends i)).getEncoded cfg q with
    | error e => simp [hget] at h
    | ok e =>
      have hfew' : (done ++ env.appends i).length + maxRead ≤ 2 ^ 64 := by
        rw [List.length_append] at hfew
        omega
      have hwas : s.getEncoded cfg q = .ok e := by
        rw [← appends_append] at hget
        exact getEncoded_appends hs hfew' hwin hget
      simp only [hget] at h ⊢
      by_cases hlow : e.severity < minimum
      · rw [if_pos hlow] at h ⊢
        obtain ⟨es, hes, hms⟩ := hstep h
        refine ⟨e :: es, ?_, ?_⟩
        · rw [List.map_cons, windowSequences, List.map_cons, hwas, hes]
        · rw [hms, List.filter_cons_of_neg]
          simpa using hlow
      · rw [if_neg hlow] at h ⊢
        by_cases hbuf : (!env.buffer i) = true
        · rw [if_pos hbuf] at h
          cases h
        · rw [if_neg hbuf] at h ⊢
          obtain ⟨es, hes, hms⟩ := hstep h
          refine ⟨e :: es, ?_, ?_⟩
          · rw [List.map_cons, windowSequences, List.map_cons, hwas, hes]
          · rw [List.filter_cons_of_pos (by simpa using hlow), List.map_cons, ← hms]

/-- A window announces sequences the header counts as held, up to the next one. -/
theorem window_spec {cfg : Config} {s : Ring} (hs : s.restored = true) {count : UInt16} {w : Window}
    (h : s.window cfg count = .ok w) : w.end = s.header.nextSequence ∧
      w.end.toNat - w.first.toNat ≤ count.toNat ∧
      (w.first.toNat < w.end.toNat → InWindow cfg s w.first) := by
  have hrestore : s.restoreOnce cfg = s := if_pos hs
  unfold Ring.window at h
  rw [hrestore] at h
  split_ifs at h with hcount
  rw [not_or, not_lt] at hcount
  obtain rfl := Except.ok.inj h
  have hone : (1 : UInt64).toNat = 1 := rfl
  have hheld := s.header.held_toNat cfg
  have hcount64 : count.toUInt64.toNat = count.toNat := UInt16.toNat_toUInt64 _
  have hdepth := cfg.depth_le
  set next := s.header.nextSequence with hnext
  set m := min (s.header.held cfg) count.toUInt64 with hm
  have hmin : m.toNat = min (s.header.held cfg).toNat count.toNat := by
    rw [← hcount64, hm]
    show (if s.header.held cfg ≤ count.toUInt64 then s.header.held cfg
      else count.toUInt64).toNat = _
    split_ifs with hle <;> rw [UInt64.le_iff_toNat_le] at hle <;> omega
  have hlt := next.toNat_lt
  by_cases hz : next.toNat = 0
  · -- the counter has come round: the window is empty
    refine ⟨rfl, ?_, ?_⟩ <;> simp only <;> omega
  · have hsub : (next - 1).toNat = next.toNat - 1 := by
      rw [UInt64.toNat_sub_of_le _ _ (UInt64.le_iff_toNat_le.2 (by omega)), hone]
    have hfirst : (next - m).toNat = next.toNat - m.toNat :=
      UInt64.toNat_sub_of_le _ _ (UInt64.le_iff_toNat_le.2 (by omega))
    have hread : maxRead = 32 := rfl
    refine ⟨rfl, ?_, fun hlt => ⟨⟨?_, ?_, ?_⟩, ?_⟩⟩ <;> simp only [← hnext] at * <;> omega

/-- **A log read that completes has sent its window**: what it announced is held when the window is
taken, and the records of it that are not below the minimum are sent, in order, each once. -/
theorem serveLog_complete (cfg : Config) (print : Printer) (env : LogEnv) (s : Ring)
    (minimum : UInt8) (count : UInt16) (v : Served)
    (hfew : (env.landing 1 count.toNat).length + maxRead ≤ 2 ^ 64)
    (hv : serveLog cfg print env s minimum count = some v) (hstatus : v.status = .COMPLETE) :
    ∃ es : List Encoded, es.map Except.ok =
        (windowSequences v.start.first (v.start.end.toNat - v.start.first.toNat)).map
          ((s.appends cfg (env.appends 0)).getEncoded cfg) ∧
      v.sent = (es.filter fun e => minimum ≤ e.severity).map fun e =>
        .message (toMessage print env.format e) := by
  unfold serveLog at hv
  set t := s.appends cfg (env.appends 0) with ht
  have hrestored : (t.restoreOnce cfg).restored = true := by
    unfold Ring.restoreOnce
    split_ifs with hr
    · exact hr
    all_goals rfl
  have hagain : (t.restoreOnce cfg).restoreOnce cfg = t.restoreOnce cfg := if_pos hrestored
  have hget : (t.restoreOnce cfg).getEncoded cfg = t.getEncoded cfg := by
    funext q
    unfold Ring.getEncoded
    rw [hagain]
  have hwindow : (t.restoreOnce cfg).window cfg count = t.window cfg count := by
    unfold Ring.window
    rw [hagain]
  cases hw : t.window cfg count with
  | error e => simp [hw] at hv
  | ok w =>
    obtain ⟨hend, hle, hin⟩ := window_spec hrestored (hwindow.trans hw)
    set n := w.end.toNat - w.first.toNat with hn
    have hland : (env.landing 1 n).length ≤ (env.landing 1 count.toNat).length := by
      have hsplit : env.landing 1 count.toNat =
          env.landing 1 n ++ env.landing (1 + n) (count.toNat - n) := by
        unfold LogEnv.landing
        rw [← List.flatMap_append, List.range'_append_1, Nat.add_sub_cancel' hle]
      rw [hsplit, List.length_append]
      exact Nat.le_add_right _ _
    simp only [hw] at hv
    split_ifs at hv with hbuf
    obtain rfl := Option.some.inj hv
    have hloop := serveLogLoop_complete hrestored n 1 w.first []
      (by rw [List.nil_append]; omega)
      (fun hne => ⟨hin (by omega), by rw [← hend]; omega⟩) hstatus
    rw [hget] at hloop
    obtain ⟨es, hes, hms⟩ := hloop
    refine ⟨es, hes, ?_⟩
    show (serveLogLoop cfg print env minimum n 1 w.first (t.restoreOnce cfg)).2.map Reply.message = _
    have hms' := congrArg (List.map Reply.message) hms
    rw [List.map_map] at hms'
    exact hms'

/-! ### The journal -/

/-- The journal at the `n`-th access. -/
def JournalEnv.at {cfg : Journal.Config} (env : JournalEnv cfg) (s : Journal.Service) :
    ℕ → Journal.Service
  | 0 => (s.execAll (env.ops 0)).1
  | n + 1 => ((env.at s n).execAll (env.ops (n + 1))).1

/-- The newest `count` of the records the journal says it holds. -/
def newest (cfg : Journal.Config) (s : Journal.Service) (count : ℕ) : List Journal.Record :=
  (s.entry.records cfg).take (min count s.store.held)

/-- The number of records a read goes through: it accesses the journal once more, for the
statistics. -/
def JournalEnv.asked {cfg : Journal.Config} (env : JournalEnv cfg) (s : Journal.Service)
    (count : UInt16) : ℕ := min count.toNat (env.at s 0).store.held

/-- Between two accesses of a read of `m` records, those still to be read stay the newest. -/
def JournalEnv.Quiet {cfg : Journal.Config} (env : JournalEnv cfg) (s : Journal.Service) (m : ℕ) :
    Prop :=
  ∀ n, 1 ≤ n → n < m → ((env.at s (n + 1)).entry.records cfg).take (m - n) =
    ((env.at s n).entry.records cfg).take (m - n)

/-- The journal a run has led to. -/
theorem inv_at (cfg : Journal.Config) (entry : Journal.Entry) (before : List (Journal.Op cfg))
    (env : JournalEnv cfg) (n : ℕ) :
    ∃ acts, Journal.Inv cfg (env.at ((Journal.Service.boot₀ cfg entry).execAll before).1 n) acts := by
  induction n with
  | zero => exact ⟨_, ((Journal.inv_boot₀ cfg entry).execAll before).execAll (env.ops 0)⟩
  | succ n ih =>
    obtain ⟨acts, h⟩ := ih
    exact ⟨_, h.execAll (env.ops (n + 1))⟩

/-- What a read by age gives in a state with the invariant. -/
theorem get_eq_ok {cfg : Journal.Config} {fs : Journal.FsEnv cfg} {s : Journal.Service}
    {acts : List Journal.Act} (hs : Journal.Inv cfg s acts) {age : ℕ} {r : Journal.Record}
    (h : s.get cfg fs age = .ok r) :
    (s.entry.records cfg)[age]? = some r ∧ s.store.held = (s.entry.records cfg).length := by
  obtain ⟨hready, -, hworking⟩ := Journal.storeGet_of_ok h
  obtain ⟨bytes, hentry, -, hmatches⟩ := hs.ready hready
  rw [hentry, Journal.storeGet_working hmatches hready] at hworking
  rw [hentry]
  refine ⟨?_, hmatches.held_eq⟩
  show (Journal.newestFirst cfg bytes)[age]? = some r
  cases hr : (Journal.newestFirst cfg bytes)[age]? with
  | none => simp [hr] at hworking
  | some q =>
    rw [hr] at hworking
    exact congrArg some (Except.ok.inj hworking)

section

variable {cfg : Journal.Config} {env : JournalEnv cfg} {s : Journal.Service}
  (hs : ∀ n, ∃ acts, Journal.Inv cfg (env.at s n) acts)
include hs

/-- The loop over the ages that are left. -/
theorem serveJournalLoop_complete {m : ℕ}
    (hquiet : env.Quiet s m) (age i : ℕ) (hm : age + i = m)
    (h : (serveJournalLoop env age (i + 1) (env.at s i)).1 = .COMPLETE) :
    (serveJournalLoop env age (i + 1) (env.at s i)).2 =
      (((env.at s (i + 1)).entry.records cfg).take age).reverse := by
  induction age generalizing i with
  | zero => rfl
  | succ age ih =>
    have hnext : ((env.at s i).execAll (env.ops (i + 1))).1 = env.at s (i + 1) := rfl
    obtain ⟨acts, hinv⟩ := hs (i + 1)
    rw [serveJournalLoop] at h ⊢
    simp only [hnext] at h ⊢
    cases hget : (env.at s (i + 1)).get cfg (env.fs (i + 1)) age with
    | error e => simp [hget] at h
    | ok r =>
      obtain ⟨hr, -⟩ := get_eq_ok hinv hget
      simp only [hget] at h ⊢
      by_cases hbuf : (!env.buffer (i + 1)) = true
      · rw [if_pos hbuf] at h
        cases h
      · rw [if_neg hbuf] at h ⊢
        have hrest := ih (i + 1) (by omega) h
        have hstay : ((env.at s (i + 1 + 1)).entry.records cfg).take age =
            ((env.at s (i + 1)).entry.records cfg).take age := by
          rcases Nat.eq_zero_or_pos age with rfl | hpos
          · rfl
          · have hq := hquiet (i + 1) (Nat.le_add_left 1 i) (by omega)
            rwa [show m - (i + 1) = age by omega] at hq
        rw [hrest, hstay, List.take_add_one, hr, List.reverse_append]
        rfl

/-- **A journal read that completes has sent the newest records of one instant**, when those to
be read stay the newest from the first read on, and are as many as the statistics said. -/
theorem serveJournal_complete {count : UInt16} {v : Served}
    (hquiet : env.Quiet s (env.asked s count)) (hsame : 0 < env.asked s count →
      min count.toNat (env.at s 1).store.held = env.asked s count)
    (hv : serveJournal env s count = some v) (hstatus : v.status = .COMPLETE) :
    ∃ n ≤ env.asked s count, v.sent = (newest cfg (env.at s n) count.toNat).reverse.map .event := by
  unfold serveJournal at hv
  split_ifs at hv
  have hzero : (s.execAll (env.ops 0)).1 = env.at s 0 := rfl
  have hasked : min count.toNat (env.at s 0).store.held = env.asked s count := rfl
  simp only [hzero, hasked] at hv
  obtain rfl := Option.some.inj hv
  have hloop := serveJournalLoop_complete hs hquiet _ 0 (Nat.add_zero _) hstatus
  rcases Nat.eq_zero_or_pos (env.asked s count) with hm | hm
  · refine ⟨0, Nat.zero_le _, ?_⟩
    simp only [newest, hasked, hm, List.take_zero]
    rfl
  · refine ⟨1, hm, ?_⟩
    rw [newest, hsame hm, ← hloop]

end

/-! ### One run of the server -/

/-- A run of `serve_log` on any history, or of `serve_journal` on the journal any calls have
led to. -/
inductive Serving
  | log (cfg : Config) (print : Printer) (env : LogEnv) (s : Ring) (minimum : UInt8)
      (count : UInt16)
  | journal (cfg : Journal.Config) (entry : Journal.Entry) (before : List (Journal.Op cfg))
      (env : JournalEnv cfg) (count : UInt16)

def Serving.served : Serving → Option Served
  | .log cfg print env s minimum count => serveLog cfg print env s minimum count
  | .journal cfg entry before env count =>
    serveJournal env ((Journal.Service.boot₀ cfg entry).execAll before).1 count

/-- **The records sent have no hole**: they are those of the window announced, as it was taken; or
the newest of the journal, as it was between two calls that landed from the statistics to the
last access. -/
def Serving.Whole (v : Served) : Serving → Prop
  | .log cfg print env s minimum _ => ∃ es : List Encoded,
      es.map Except.ok = (windowSequences v.start.first
        (v.start.end.toNat - v.start.first.toNat)).map
          ((s.appends cfg (env.appends 0)).getEncoded cfg) ∧
      v.sent = (es.filter fun e => minimum ≤ e.severity).map fun e =>
        .message (toMessage print env.format e)
  | .journal cfg entry before env count =>
      let s := ((Journal.Service.boot₀ cfg entry).execAll before).1
      ∃ n ≤ env.asked s count, ∃ landed, landed <+: env.ops (n + 1) ∧
        (n = env.asked s count → landed = []) ∧
        v.sent = (newest cfg ((env.at s n).execAll landed).1 count.toNat).reverse.map .event

/-- The log's counter does not come round during the read; the journal's records that are still
to be read stay the newest, and are as many as the statistics said. -/
def Serving.Undisturbed : Serving → Prop
  | .log _ _ env _ _ count => (env.landing 1 count.toNat).length + maxRead ≤ 2 ^ 64
  | .journal cfg entry before env count =>
      let s := ((Journal.Service.boot₀ cfg entry).execAll before).1
      env.Quiet s (env.asked s count) ∧
        (0 < env.asked s count → min count.toNat (env.at s 1).store.held = env.asked s count)

/-- **A read that completes has no hole**, if it is not disturbed. -/
theorem served_whole (r : Serving) (hr : r.Undisturbed) (v : Served) (hv : r.served = some v)
    (hstatus : v.status = .COMPLETE) : r.Whole v := by
  cases r with
  | log cfg print env s minimum count =>
    exact serveLog_complete cfg print env s minimum count v hr hv hstatus
  | journal cfg entry before env count =>
    obtain ⟨n, hn, hsent⟩ := serveJournal_complete (inv_at cfg entry before env) hr.1 hr.2 hv hstatus
    exact ⟨n, hn, [], List.nil_prefix, fun _ => rfl, hsent⟩

/-- The record of the sample event with a sequence. -/
def sampleRecord (sequence : ℕ) : Journal.Record := ⟨sequence, 1, 0, false, Journal.sampleEvent⟩

/-- A flush in which all goes well. -/
def sampleFlush : Journal.Op Journal.smallConfig := .flush (.working _ fun _ => none)

/-- Calls after which two records are held, and the event of a third is queued. -/
def twoHeld : List (Journal.Op Journal.smallConfig) :=
  [.start true (.working _), .submit (some Journal.sampleEvent),
    .submit (some Journal.sampleEvent), sampleFlush, .submit (some Journal.sampleEvent)]

/-- The journal after them. -/
def heldTwo : Journal.Service :=
  ((Journal.Service.boot₀ Journal.smallConfig .absent).execAll twoHeld).1

/-- The journal after the third event is flushed. -/
def heldThree : Journal.Service := (heldTwo.execAll [sampleFlush]).1

/-- Every call to the file system succeeds, every reply gets a buffer, and `ops` land. -/
def landingOps (ops : ℕ → List (Journal.Op Journal.smallConfig)) :
    JournalEnv Journal.smallConfig :=
  ⟨ops, fun _ => .working _, true, fun _ => true, true⟩

/-- The record with sequence `n + 1` is in slot `n`. -/
theorem sample_recordAt : ∃ two three, heldTwo.entry = .file two ∧ heldThree.entry = .file three ∧
    Journal.recordAt Journal.smallConfig two 0 = some (sampleRecord 1) ∧
    Journal.recordAt Journal.smallConfig two 1 = some (sampleRecord 2) ∧
    Journal.recordAt Journal.smallConfig three 1 = some (sampleRecord 2) ∧
    Journal.recordAt Journal.smallConfig three 2 = some (sampleRecord 3) := by
  have hvalid : Journal.sampleEvent.Valid := by decide
  have hlen : ∀ n, (Journal.encode (sampleRecord n)).length ≤ Journal.recordSize := fun n =>
    (Journal.length_encode (r := sampleRecord n) hvalid.2.2.2).le
  have hself : ∀ bytes n, (sampleRecord (n + 1)).Numbered → n < 8 →
      Journal.recordAt Journal.smallConfig
        (Journal.writeSlot bytes n (Journal.encode (sampleRecord (n + 1)))) n =
          some (sampleRecord (n + 1)) := by
    intro bytes n hnum hn
    have hrec := @Journal.recordAt_writeSlot_self Journal.smallConfig
      (sampleRecord (n + 1)) bytes hvalid hnum
    rwa [show Journal.smallConfig.slotOf (sampleRecord (n + 1)).sequence = n from
      Nat.mod_eq_of_lt hn] at hrec
  have h2 := fun bytes => hself bytes 1 (by decide) (by decide)
  exact ⟨Journal.writeSlot (Journal.writeSlot (Journal.header 8) 0
      (Journal.encode (sampleRecord 1))) 1 (Journal.encode (sampleRecord 2)), _, rfl, rfl,
    Journal.recordAt_writeSlot_ne (hself _ 0 (by decide) (by decide)) (hlen 2) (by decide), h2 _,
    Journal.recordAt_writeSlot_ne (h2 _) (hlen 3) (by decide), hself _ 2 (by decide) (by decide)⟩

/-- What is read by age in the two states. -/
theorem sample_get : heldTwo.get Journal.smallConfig (.working _) 0 = .ok (sampleRecord 2) ∧
      heldTwo.get Journal.smallConfig (.working _) 1 = .ok (sampleRecord 1) ∧
      heldThree.get Journal.smallConfig (.working _) 0 = .ok (sampleRecord 3) ∧
      heldThree.get Journal.smallConfig (.working _) 1 = .ok (sampleRecord 2) := by
  obtain ⟨two, three, htwo, hthree, h1, h2, h2', h3⟩ := sample_recordAt
  have hready : heldTwo.store.ready = true ∧ heldThree.store.ready = true := by decide +kernel
  have hheld : heldTwo.store.held = 2 ∧ heldThree.store.held = 3 := by decide +kernel
  unfold Journal.Service.get
  rw [htwo, hthree]
  exact ⟨Journal.storeGet_of_recordAt hready.1 (by rw [hheld.1]; decide) (by decide +kernel) h2,
    Journal.storeGet_of_recordAt hready.1 (by rw [hheld.1]; decide) (by decide +kernel) h1,
    Journal.storeGet_of_recordAt hready.2 (by rw [hheld.2]; decide) (by decide +kernel) h3,
    Journal.storeGet_of_recordAt hready.2 (by rw [hheld.2]; decide) (by decide +kernel) h2'⟩

/-- What a read of two records sends. -/
def sentTwo (a b : ℕ) : Served :=
  ⟨⟨formatText, 0, 0, 0⟩, [.event (sampleRecord a), .event (sampleRecord b)], .COMPLETE, true⟩

/-- A read of two records during which `ops` land. -/
def readTwo (ops : ℕ → List (Journal.Op Journal.smallConfig)) : Serving :=
  .journal Journal.smallConfig .absent twoHeld (landingOps ops) 2

theorem heldTwo_held : heldTwo.store.held = 2 := by decide +kernel

/-- The first record is read, and then the newest of the time. -/
theorem readTwo_served {ops : ℕ → List (Journal.Op Journal.smallConfig)} {n : ℕ}
    (h0 : ops 0 = []) (h1 : ops 1 = [])
    (h2 : (heldTwo.execAll (ops 2)).1.get Journal.smallConfig (.working _) 0 =
      .ok (sampleRecord n)) : (readTwo ops).served = some (sentTwo 1 n) := by
  obtain ⟨-, hfirst, -, -⟩ := sample_get
  have hstep : (heldTwo.execAll ([] : List (Journal.Op Journal.smallConfig))).1 = heldTwo := rfl
  show serveJournal (landingOps ops) heldTwo 2 = _
  simp [serveJournal, landingOps, h0, h1, hstep, heldTwo_held, serveJournalLoop, hfirst, h2, sentTwo]

theorem served_whole_readTwo : (readTwo fun _ => []).Whole (sentTwo 1 2) := by
  have hat : ∀ n, (landingOps fun _ => []).at heldTwo n = heldTwo := by
    intro n
    induction n with
    | zero => rfl
    | succ n ih =>
      rw [JournalEnv.at, ih]
      rfl
  have hundisturbed : (readTwo fun _ => []).Undisturbed := by
    show (landingOps fun _ => []).Quiet heldTwo ((landingOps fun _ => []).asked heldTwo 2) ∧
      (0 < (landingOps fun _ => []).asked heldTwo 2 →
        min _ ((landingOps fun _ => []).at heldTwo 1).store.held =
          (landingOps fun _ => []).asked heldTwo 2)
    refine ⟨fun n _ _ => ?_, fun _ => ?_⟩
    · rw [hat, hat]
    · rw [JournalEnv.asked, hat, hat]
  exact served_whole _ hundisturbed _ (readTwo_served rfl rfl sample_get.1) rfl

/-- What is read by age is among the newest at that place. -/
theorem getElem_newest {t : Journal.Service} {acts : List Journal.Act}
    (ht : Journal.Inv Journal.smallConfig t acts) {rs : List Journal.Record}
    {count k : ℕ} {r q : Journal.Record} (h : newest Journal.smallConfig t count = rs)
    (hk : rs[k]? = some r) (hget : t.get Journal.smallConfig (.working _) k = .ok q) : r = q := by
  rw [← h, newest, List.getElem?_take] at hk
  split_ifs at hk
  exact Option.some.inj (hk.symm.trans (get_eq_ok ht hget).1)

/-- What is sent tells the records. -/
theorem eq_of_sentTwo {a b : ℕ} {rs : List Journal.Record}
    (h : (sentTwo a b).sent = rs.reverse.map .event) : rs = [sampleRecord b, sampleRecord a] := by
  have hinj : Function.Injective Reply.event := fun _ _ h => Reply.event.inj h
  have hmap : [sampleRecord a, sampleRecord b].map Reply.event = rs.reverse.map .event := h
  have hrs := List.map_injective_iff.2 hinj hmap
  rw [← List.reverse_reverse rs, ← hrs]
  rfl

/-- **An append between two reads goes unnoticed.**  The third event is flushed after the first
record is read: the third record is read in place of the second, and the read completes. -/
theorem append_skips_record :
    let r := readTwo fun n => if n = 2 then [sampleFlush] else []
    r.served = some (sentTwo 1 3) ∧ (sentTwo 1 3).status = .COMPLETE ∧ ¬ r.Whole (sentTwo 1 3) := by
  obtain ⟨h2, -, h3, h2'⟩ := sample_get
  refine ⟨readTwo_served rfl rfl h3, rfl, ?_⟩
  set env := landingOps fun n => if n = 2 then [sampleFlush] else []
  rintro ⟨n, hn, landed, hpre, hlast, hsent⟩
  replace hn : n ≤ env.asked heldTwo 2 := hn
  replace hlast : n = env.asked heldTwo 2 → landed = [] := hlast
  have hasked : env.asked heldTwo 2 = 2 := by
    show min (2 : UInt16).toNat heldTwo.store.held = 2
    rw [heldTwo_held]
    rfl
  obtain ⟨acts, hinv⟩ := inv_at Journal.smallConfig .absent twoHeld env n
  have ht : Journal.Inv _ ((env.at heldTwo n).execAll landed).1 _ := hinv.execAll landed
  have hnewest : newest _ ((env.at heldTwo n).execAll landed).1 _ = _ := eq_of_sentTwo hsent
  have hstate : ((env.at heldTwo n).execAll landed).1 = heldTwo ∨
      ((env.at heldTwo n).execAll landed).1 = heldThree := by
    rw [hasked] at hn hlast
    have hcases : n = 0 ∨ n = 1 ∨ n = 2 := by omega
    rcases hcases with rfl | rfl | rfl
    · obtain rfl := List.prefix_nil.1 hpre
      exact .inl rfl
    · rcases List.prefix_cons_iff.1 hpre with rfl | ⟨rest, rfl, hrest⟩
      · exact .inl rfl
      · obtain rfl := List.prefix_nil.1 hrest
        exact .inr rfl
    · obtain rfl := hlast rfl
      have hops : env.ops 2 = [sampleFlush] := rfl
      refine .inr ?_
      rw [Journal.Service.execAll, JournalEnv.at, hops]
      rfl
  -- the first and the third record are the newest two in neither state
  rcases hstate with hstate | hstate <;> rw [hstate] at ht hnewest
  · exact absurd (getElem_newest ht hnewest (k := 0) rfl h2) (by decide)
  · exact absurd (getElem_newest ht hnewest (k := 1) rfl h2') (by decide)

end KfswServices.Log
