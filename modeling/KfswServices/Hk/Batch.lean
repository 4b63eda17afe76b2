/-
# How many samples a write has

`every_n` is how many collections make a write of a store.  It is computed from the interval and the
period, in `kfsw_hk_store_configure` and in `kfsw_hk_store_restore_prepare`; `set_period_impl`
changes the period and leaves it as it is.  So a store has the cadence of its settings for as long as
no period is set that has another one (`cadence_iff`), and loses it then (`cadence_stale`).

What is pending, on the other hand, is always held: a flush finds each sample it is to write.
-/

import KfswServices.Hk.Reload
import KfswServices.Library.Run
import Mathlib.Algebra.Order.Floor.Div

namespace KfswServices.Hk

open Library
open Function (update update_of_ne update_self)

variable {b : Build}

/-! ### The cadence -/

/-- The collections that make a write: those of the interval, at least one, and no more than the
report holds. -/
def cadence (b : Build) (interval period : UInt32) : ℕ :=
  min b.history (max 1 (if period = 0 then 1 else interval.toNat ⌈/⌉ period.toNat))

theorem collectionsIn_eq (interval period : UInt32) :
    collectionsIn interval period = if period = 0 then 1 else interval.toNat ⌈/⌉ period.toNat := by
  unfold collectionsIn
  rw [Nat.ceilDiv_eq_add_pred_div]

/-- `kfsw_hk_store_configure` computes the cadence. -/
theorem batchSize_eq_cadence (b : Build) (interval period : UInt32) :
    batchSize b interval period = cadence b interval period := by
  have hrange := b.history_range
  unfold batchSize cadence
  rw [← collectionsIn_eq]
  dsimp only
  split_ifs <;> omega

/-- An interval has a collection in it. -/
theorem collectionsIn_pos {interval period : UInt32} (h : interval ≠ 0) :
    0 < collectionsIn interval period := by
  have hinterval : 0 < interval.toNat :=
    Nat.pos_of_ne_zero fun h0 => h (UInt32.toNat_inj.1 h0)
  unfold collectionsIn
  split_ifs with hperiod
  · exact Nat.one_pos
  · have hperiod' : 0 < period.toNat :=
      Nat.pos_of_ne_zero fun h0 => hperiod (UInt32.toNat_inj.1 h0)
    exact Nat.div_pos (by omega) hperiod'

/-- `kfsw_hk_store_restore_prepare` computes it, too. -/
theorem restoredStore_cadence {interval : Interval b.storeFloor} (period : UInt32)
    (recordSize : ℕ) (h : interval.ms ≠ 0) :
    (restoredStore interval period recordSize).everyN = cadence b interval.ms period := by
  have hpos := @collectionsIn_pos _ period h
  show min (collectionsIn interval.ms period) b.history = _
  unfold cadence
  rw [← collectionsIn_eq]
  omega

/-! ### The run -/

/-- What happens to a node: a change of the settings, the end of a collection, a load, or a reset.
What a change makes of the store files is up to the file system. -/
inductive NodeEvent (b : Build)
  | change (c : Change b) (files : UInt8 → Option (List UInt8))
  | collect (io : WriteIo) (c : Collecting b) (sample : Sample) (failures : ℕ)
  | load (io : LoadIo) (lists : ℕ → Listings) (now : ℤ) (before : Prepared b)
      (file : Option (List UInt8))
  | reset

/-- What it does; where a call is cut, the node is reset. -/
def Node.step (n : Node b) : NodeEvent b → Node b
  | .change c files => ⟨(c.apply n.state).2, files⟩
  | .collect io c sample failures =>
    match collectStore io c sample failures n with
    | (.cut, n) => ⟨State.reset b, n.files⟩
    | (.returned _, n) => n
  | .load io lists now before file =>
    match loadSnapshot io lists now before file n with
    | (.ended .cut, n) => ⟨State.reset b, n.files⟩
    | (_, n) => n
  | .reset => ⟨State.reset b, n.files⟩

/-- A store that is open has the cadence of its settings. -/
def HasCadence (s : State b) (index : UInt8) : Prop :=
  (s.stores index).isOpen = true →
    (s.stores index).everyN = cadence b (s.stores index).interval.ms (s.reports index).period.ms

/-- What the steps keep, with the cadence (`strict`) or without: what is pending is held. -/
def Cadenced (strict : Prop) (s : State b) (index : UInt8) : Prop :=
  (strict → HasCadence s index) ∧ (s.stores index).pending ≤ (s.reports index).held

/-- The period is set of a report whose store is open: it has the cadence of the store. -/
def KeepsCadence (s : State b) : NodeEvent b → Prop
  | .change (.setPeriod report periodMs _) _ =>
    report.toNat < b.reports → (s.reports report).definition ≠ none →
      (periodMs = 0 ∨ b.periodFloor ≤ periodMs.toNat) → (s.stores report).isOpen = true →
        cadence b (s.stores report).interval.ms periodMs = (s.stores report).everyN
  | _ => True

/-- A flush behind a collection finds each sample it is to write. -/
def FindsSamples (s : State b) : Prop :=
  ∀ (c : Collecting b) (sample : Sample) (failures : ℕ), c.report.toNat < b.reports →
    (collectCommit c sample failures s).1 = none →
      ∀ r ∈ flushed c.report (min ((s.stores c.report).pending + 1) b.history)
        (collectCommit c sample failures s).2, ∃ x, r.2 = .ok x

variable {strict : Prop}

variable {s : State b}

/-- The ones that are not touched. -/
theorem cadenced_congr {s' : State b} {index : UInt8} (h : Cadenced strict s index)
    (hreport : s'.reports index = s.reports index) (hstore : s'.stores index = s.stores index) :
    Cadenced strict s' index := by
  unfold Cadenced HasCadence at *
  rwa [hreport, hstore]

/-- A store that is not open, with nothing pending. -/
theorem cadenced_closed {index : UInt8} (hopen : (s.stores index).isOpen = false)
    (hpending : (s.stores index).pending = 0) : Cadenced strict s index := by
  refine ⟨fun _ h => ?_, ?_⟩
  · rw [hopen] at h
    cases h
  · rw [hpending]
    exact Nat.zero_le _

/-- A report changes, and its store. -/
theorem cadenced_change {s' : State b} (h : ∀ index, Cadenced strict s index) {report : UInt8}
    (hother : ∀ other, other ≠ report → s'.reports other = s.reports other ∧
      s'.stores other = s.stores other) (hnew : Cadenced strict s' report) :
    ∀ index, Cadenced strict s' index := by
  intro index
  by_cases hindex : index = report
  · exact hindex ▸ hnew
  · obtain ⟨hreport, hstore⟩ := hother index hindex
    exact cadenced_congr (h index) hreport hstore

/-- A period that is admitted. -/
theorem Interval.ofMs_eq_some_iff {floor : ℕ} {ms : UInt32} :
    (∃ i : Interval floor, Interval.ofMs ms = some i) ↔ ms = 0 ∨ floor ≤ ms.toNat := by
  unfold Interval.ofMs
  constructor
  · rintro ⟨i, h⟩
    split_ifs at h with hrefused
    rcases not_and_or.1 hrefused with h0 | hle
    · exact Or.inl (not_not.1 h0)
    · exact Or.inr (not_lt.1 hle)
  · intro h
    have hadmitted : ¬ (ms ≠ 0 ∧ ms.toNat < floor) := by
      rintro ⟨h0, hlt⟩
      rcases h with h | h
      · exact h0 h
      · omega
    rw [dif_neg hadmitted]
    exact ⟨_, rfl⟩

/-- **A change keeps the cadence**, if it is no period of another one. -/
theorem cadenced_apply (h : ∀ index, Cadenced strict s index) (c : Change b)
    {files : UInt8 → Option (List UInt8)} (hkeeps : strict → KeepsCadence s (.change c files)) :
    ∀ index, Cadenced strict (c.apply s).2 index := by
  have hclear : ∀ report, ∀ index, Cadenced strict (s.clear report) index := by
    intro report
    obtain ⟨hreport, hstore⟩ := clear_same s report
    refine cadenced_change h (fun other hne => clear_ne s hne) (cadenced_closed ?_ ?_)
    · rw [hstore]
      rfl
    · rw [hstore]
      rfl
  cases c with
  | define own lists report entries retrievalClass now =>
    show ∀ index, Cadenced strict (s.defineImpl own lists report entries retrievalClass now).2 index
    rcases defineImpl_cases own lists report entries retrievalClass now s with
      heq | heq | ⟨hclass, d, hd, heq⟩
    · rw [heq]
      exact h
    · rw [heq]
      exact hclear report
    · obtain ⟨-, -, -, hstore⟩ := define_same s report d now
      rw [heq]
      refine cadenced_change h (fun other hne => define_ne s d now hne) (cadenced_closed ?_ ?_)
      · rw [hstore]
        rfl
      · rw [hstore]
        rfl
  | clear report =>
    show ∀ index, Cadenced strict (s.clearImpl report).2 index
    unfold State.clearImpl
    split_ifs
    · exact h
    · exact hclear report
  | setPeriod report periodMs now =>
    show ∀ index, Cadenced strict (s.setPeriodImpl report periodMs now).2 index
    rcases setPeriodImpl_cases report periodMs now s with
      heq | ⟨period, d, hreport, hperiod, hd, heq⟩
    · rw [heq]
      exact h
    · have hms := Interval.ms_of_ofMs hperiod
      obtain ⟨-, hpending⟩ := h report
      have hnew : (s.setPeriod report period now).reports report = _ := State.setReport_same _ _ _
      rw [heq]
      refine cadenced_change h (fun other hne => ⟨State.setReport_ne _ _ hne, rfl⟩)
        ⟨fun hstrict hopen => ?_, ?_⟩
      · have hcadence := hkeeps hstrict hreport (by rw [hd]; simp)
          (Interval.ofMs_eq_some_iff.1 ⟨period, hperiod⟩) hopen
        rw [hnew]
        show (s.stores report).everyN = cadence b (s.stores report).interval.ms period.ms
        rw [hms, hcadence]
      · rw [hnew]
        exact hpending
  | setStore storage report intervalMs =>
    show ∀ index, Cadenced strict (s.setStoreImpl storage report intervalMs).2 index
    rcases setStoreImpl_cases storage report intervalMs s with heq | ⟨d, hd, heq⟩
    · rw [heq]
      exact h
    · rw [heq]
      have hsame : (s.setStoreState report (storeConfigure storage intervalMs
          (s.reports report).period.ms d.recordSize (s.stores report)).2).stores report =
          (storeConfigure storage intervalMs (s.reports report).period.ms d.recordSize
            (s.stores report)).2 := update_self _ _ _
      refine cadenced_change h (fun other hne => ⟨rfl, update_of_ne hne _ _⟩) ?_
      rcases storeConfigure_cases storage intervalMs (s.reports report).period.ms d.recordSize
        (s.stores report) with hst | hst | ⟨interval, -, hst⟩
      · exact cadenced_congr (h report) rfl (hsame.trans hst)
      · exact cadenced_closed (by rw [hsame, hst]) (by rw [hsame, hst])
      · refine ⟨fun _ _ => ?_, ?_⟩
        · rw [hsame, hst]
          exact batchSize_eq_cadence b _ _
        · rw [hsame, hst]
          exact Nat.zero_le _
  | clearStore report =>
    show ∀ index, Cadenced strict (s.clearStoreImpl report).2 index
    unfold State.clearStoreImpl
    split_ifs with hreport
    · exact h
    · have hsame : (s.setStoreState report (s.stores report).forget).stores report =
        (s.stores report).forget := update_self _ _ _
      exact cadenced_change h (fun other hne => ⟨rfl, update_of_ne hne _ _⟩)
        (cadenced_closed (by rw [hsame]; rfl) (by rw [hsame]; rfl))
  | setBeacon report node intervalMs =>
    obtain ⟨hreports, hstores, -⟩ := setBeaconImpl_frame s report node intervalMs
    exact fun index => cadenced_congr (h index) (congrFun hreports index) (congrFun hstores index)

/-! ### Collections -/

/-- **What the end of a collection does to the reports and stores**: nothing, or it puts the sample
into the ring. -/
theorem collectCommit_cases (c : Collecting b) (sample : Sample) (failures : ℕ) (s : State b) :
    ((collectCommit c sample failures s).1 ≠ none ∧
        (collectCommit c sample failures s).2.reports = s.reports ∧
        (collectCommit c sample failures s).2.stores = s.stores) ∨
      (∃ order, (collectCommit c sample failures s).2.reports = update s.reports c.report
            ((s.reports c.report).push (sample.stamp c.report) order)) ∧
        (collectCommit c sample failures s).1 = none ∧
        (collectCommit c sample failures s).2.stores = s.stores := by
  unfold collectCommit
  dsimp only
  by_cases hstale : (s.reports c.report).definition.isNone = true ∨
      c.generation ≠ s.generations c.report
  · rw [if_pos hstale]
    exact Or.inl ⟨by simp, rfl, rfl⟩
  · rw [if_neg hstale]
    exact Or.inr ⟨⟨_, rfl⟩, rfl, rfl⟩

/-- **What a flush does to its store**: it changes what is pending, to at most one more. -/
theorem storeFlush_store (io : WriteIo) (report : UInt8) (s : State b)
    (file : Option (List UInt8)) :
    ∃ pending ≤ max (s.stores report).pending (min ((s.stores report).pending + 1) b.history),
      (storeFlush io report s file).2.1 = { s.stores report with pending := pending } := by
  unfold storeFlush
  dsimp only
  split_ifs
  · exact ⟨_, le_max_left _ _, rfl⟩
  · exact ⟨_, le_max_right _ _, rfl⟩
  · split
    · exact ⟨_, le_max_right _ _, rfl⟩
    · split
      · exact ⟨_, le_max_right _ _, rfl⟩
      · exact ⟨0, Nat.zero_le _, rfl⟩

/-- A sample that is pushed makes room for one more that is pending. -/
theorem pending_le_held_push {r : Report b} {pending : ℕ} (h : pending ≤ r.held) (sample : Sample)
    (order : UInt64) : max pending (min (pending + 1) b.history) ≤ (r.push sample order).held := by
  show _ ≤ if r.held = b.history then r.held else r.held + 1
  split_ifs <;> omega

/-- **A collection keeps the cadence.** -/
theorem cadenced_collect {n : Node b} (h : ∀ index, Cadenced strict n.state index) (io : WriteIo)
    (c : Collecting b) (sample : Sample) (failures : ℕ) :
    ∀ index, Cadenced strict (collectStore io c sample failures n).2.state index := by
  unfold collectStore
  rcases hcommit : collectCommit c sample failures n.state with ⟨_ | e, s⟩
  · rcases collectCommit_cases c sample failures n.state with ⟨hne, -⟩ | ⟨⟨order, hreports⟩, -, hstores⟩
    · rw [hcommit] at hne
      exact absurd rfl hne
    · rw [hcommit] at hreports hstores
      dsimp only at hreports hstores ⊢
      obtain ⟨heveryN, hpending⟩ := h c.report
      have hpushed := pending_le_held_push hpending (sample.stamp c.report) order
      have hreport : s.reports c.report =
          (n.state.reports c.report).push (sample.stamp c.report) order := by
        rw [hreports, update_self]
      have hother : ∀ other, other ≠ c.report → s.reports other = n.state.reports other := by
        intro other hne
        rw [hreports, update_of_ne hne]
      split_ifs with hoff
      · refine cadenced_change h (fun other hne => ⟨hother other hne, congrFun hstores other⟩)
          ⟨fun hstrict hopen => ?_, ?_⟩
        · rw [hreport, hstores]
          rw [hstores] at hopen
          exact heveryN hstrict hopen
        · rw [hreport, hstores]
          exact le_trans (le_max_left _ _) hpushed
      · rcases hflush : storeFlush io c.report s (n.files c.report) with ⟨ended, st, file⟩
        obtain ⟨pending, hle, hst⟩ := storeFlush_store io c.report s (n.files c.report)
        rw [hflush, hstores] at hst
        rw [hstores] at hle
        dsimp only at hst
        have hnew : (s.setStoreState c.report st).stores c.report = st := update_self _ _ _
        refine cadenced_change h (fun other hne => ⟨hother other hne, ?_⟩) ⟨fun hstrict hopen => ?_, ?_⟩
        · show update s.stores c.report st other = _
          rw [update_of_ne hne, hstores]
        · show ((s.setStoreState c.report st).stores c.report).everyN =
            cadence b ((s.setStoreState c.report st).stores c.report).interval.ms
              (s.reports c.report).period.ms
          have hopen' : ((s.setStoreState c.report st).stores c.report).isOpen = true := hopen
          rw [hnew, hst] at hopen'
          rw [hnew, hreport, hst]
          exact heveryN hstrict hopen'
        · show ((s.setStoreState c.report st).stores c.report).pending ≤ (s.reports c.report).held
          rw [hnew, hreport, hst]
          exact le_trans hle hpushed
  · rcases collectCommit_cases c sample failures n.state with ⟨-, hreports, hstores⟩ | ⟨-, hnone, -⟩
    · rw [hcommit] at hreports hstores
      exact fun index => cadenced_congr (h index) (congrFun hreports index)
        (congrFun hstores index)
    · rw [hcommit] at hnone
      cases hnone

/-- **A load keeps the cadence.** -/
theorem cadenced_load {n m : Node b} (h : ∀ index, Cadenced strict n.state index) {io : LoadIo}
    {lists : ℕ → Listings} {now : ℤ} {before : Prepared b} {file : Option (List UInt8)}
    (hload : loadSnapshot io lists now before file n = (.ended (.returned none), m)) :
    ∀ index, Cadenced strict m.state index := by
  obtain ⟨data, items, prepared, -, -, hstate, hstores⟩ := loadSnapshot_ok hload
  intro index
  rw [hstate]
  obtain ⟨hin, hout⟩ := commitRestored_spec items prepared now n.state index
  by_cases hindex : index.toNat < b.reports
  · obtain ⟨-, hperiod, -, hstore, -⟩ := hin hindex
    rw [hstores index hindex] at hstore
    unfold storeOf preparedStore at hstore
    split_ifs at hstore with hoff
    · exact cadenced_closed (by rw [hstore]) (by rw [hstore])
    · refine ⟨fun _ _ => ?_, ?_⟩
      · rw [hstore, restoredStore_cadence _ _ hoff, hperiod]
        cases items index <;> rfl
      · rw [hstore]
        exact Nat.zero_le _
  · obtain ⟨hreport, hstore⟩ := hout hindex
    exact cadenced_congr (h index) hreport hstore

theorem cadenced_reset (b : Build) (index : UInt8) : Cadenced strict (State.reset b) index :=
  cadenced_closed rfl rfl

/-- **A step keeps the cadence**, if it sets no period of another one. -/
theorem cadenced_step {n : Node b} (h : ∀ index, Cadenced strict n.state index) (e : NodeEvent b)
    (hkeeps : strict → KeepsCadence n.state e) : ∀ index, Cadenced strict (n.step e).state index := by
  cases e with
  | change c files => exact cadenced_apply h c hkeeps
  | collect io c sample failures =>
    have hcollect := cadenced_collect h io c sample failures
    show ∀ index, Cadenced strict (match collectStore io c sample failures n with
      | (.cut, n) => (⟨State.reset b, n.files⟩ : Node b)
      | (.returned _, n) => n).state index
    rcases hend : collectStore io c sample failures n with ⟨ended, m⟩
    rw [hend] at hcollect
    cases ended with
    | returned result => exact hcollect
    | cut => exact cadenced_reset b
  | load io lists now before file =>
    have hsafe := (loadSnapshot_safe io lists now before file n).2
    show ∀ index, Cadenced strict (match loadSnapshot io lists now before file n with
      | (.ended .cut, n) => (⟨State.reset b, n.files⟩ : Node b)
      | (_, n) => n).state index
    rcases hend : loadSnapshot io lists now before file n with ⟨((_ | e) | _) | _, m⟩
    · exact cadenced_load h hend
    · rw [hend] at hsafe
      dsimp only at hsafe ⊢
      rw [hsafe (by simp)]
      exact h
    · exact cadenced_reset b
    · rw [hend] at hsafe
      dsimp only at hsafe ⊢
      rw [hsafe (by simp)]
      exact h
  | reset => exact cadenced_reset b

/-- A period of another cadence is set, and the store is as it was. -/
theorem not_cadenced_step {n : Node b} (e : NodeEvent b) (hbreak : ¬ KeepsCadence n.state e) :
    ¬ ∀ index, HasCadence (n.step e).state index := by
  match e with
  | .change (.setPeriod report periodMs now) files =>
    unfold KeepsCadence at hbreak
    simp only [not_forall] at hbreak
    obtain ⟨hreport, hdefined, hadmitted, hopen, hne⟩ := hbreak
    obtain ⟨period, hperiod⟩ := Interval.ofMs_eq_some_iff.2 hadmitted
    intro h
    have hset := setPeriodImpl_admitted now hreport hperiod hdefined
    have hcadence := h report
    unfold HasCadence at hcadence
    rw [show (n.step (.change (.setPeriod report periodMs now) files)).state =
      n.state.setPeriod report period now from hset] at hcadence
    have hnew : ((n.state.setPeriod report period now).reports report).period = period :=
      congrArg Report.period (State.setReport_same _ _ _)
    rw [hnew, Interval.ms_of_ofMs hperiod] at hcadence
    exact hne (hcadence hopen).symm
  | .change (.define ..) _ => exact absurd trivial hbreak
  | .change (.clear _) _ => exact absurd trivial hbreak
  | .change (.setStore ..) _ => exact absurd trivial hbreak
  | .change (.clearStore _) _ => exact absurd trivial hbreak
  | .change (.setBeacon ..) _ => exact absurd trivial hbreak
  | .collect .. => exact absurd trivial hbreak
  | .load .. => exact absurd trivial hbreak
  | .reset => exact absurd trivial hbreak

/-- What is pending is found. -/
theorem findsSamples_of_pending (h : ∀ index, (s.stores index).pending ≤ (s.reports index).held) :
    FindsSamples s := by
  intro c sample failures hreport hnone r hr
  rcases collectCommit_cases c sample failures s with ⟨hne, -⟩ | ⟨⟨order, hreports⟩, -, -⟩
  · exact absurd hnone hne
  · obtain ⟨age, hage, rfl⟩ := List.mem_map.1 hr
    have hage' := List.mem_range.1 hage
    have hpushed := pending_le_held_push (h c.report) (sample.stamp c.report) order
    have hlt : ¬ min ((s.stores c.report).pending + 1) b.history - 1 - age ≥
        ((s.reports c.report).push (sample.stamp c.report) order).held := by omega
    dsimp only
    unfold get
    dsimp only
    rw [if_neg (not_le.2 hreport), hreports, update_self, if_neg hlt]
    exact ⟨_, rfl⟩

/-- **The stores follow the settings exactly as long as no period of another cadence is set.**  In a
run from a reset on, the open stores have the cadence of their settings, what is pending is held,
and flushes find their samples, all along, if and only if each period set of a report with an open
store has the cadence that the store has.  The last two hold in any case, and a load computes the
same cadence. -/
theorem cadence_iff (files : UInt8 → Option (List UInt8)) (es : List (NodeEvent b)) :
    ((∀ before, before <+: es →
        (∀ index, HasCadence (before.foldl Node.step ⟨State.reset b, files⟩).state index ∧
          ((before.foldl Node.step ⟨State.reset b, files⟩).state.stores index).pending ≤
            ((before.foldl Node.step ⟨State.reset b, files⟩).state.reports index).held) ∧
        FindsSamples (before.foldl Node.step ⟨State.reset b, files⟩).state) ↔
      ∀ before e, before ++ [e] <+: es →
        KeepsCadence (before.foldl Node.step ⟨State.reset b, files⟩).state e) ∧
    (∀ before, before <+: es →
      (∀ index, ((before.foldl Node.step ⟨State.reset b, files⟩).state.stores index).pending ≤
        ((before.foldl Node.step ⟨State.reset b, files⟩).state.reports index).held) ∧
      FindsSamples (before.foldl Node.step ⟨State.reset b, files⟩).state) ∧
    ∀ (interval : Interval b.storeFloor) (period : UInt32) (recordSize : ℕ), interval.ms ≠ 0 →
      (restoredStore interval period recordSize).everyN = cadence b interval.ms period := by
  refine ⟨?_, fun before hbefore => ?_, fun interval period recordSize h =>
    restoredStore_cadence period recordSize h⟩
  · refine foldl_prefixes_iff (I := fun n : Node b => ∀ index, Cadenced True n.state index)
      (P := fun n : Node b => (∀ index, HasCadence n.state index ∧
        (n.state.stores index).pending ≤ (n.state.reports index).held) ∧ FindsSamples n.state)
      (K := fun n e => KeepsCadence n.state e) (fun n h => ?_) (fun n e h hkeeps => ?_)
      (fun n e h hbreak hholds => ?_) es _ (cadenced_reset b)
    · exact ⟨fun index => ⟨(h index).1 trivial, (h index).2⟩,
        findsSamples_of_pending fun index => (h index).2⟩
    · exact cadenced_step h e fun _ => hkeeps
    · exact not_cadenced_step e hbreak fun index => (hholds.1 index).1
  · have hpending : ∀ (before : List (NodeEvent b)) (n : Node b),
        (∀ index, Cadenced False n.state index) →
          ∀ index, Cadenced False (before.foldl Node.step n).state index := by
      intro before
      induction before with
      | nil => exact fun _ h => h
      | cons e before ih => exact fun n h => ih _ (cadenced_step h e False.elim)
    have hheld := hpending before ⟨State.reset b, files⟩ (cadenced_reset b)
    exact ⟨fun index => (hheld index).2, findsSamples_of_pending fun index => (hheld index).2⟩

/-- A report of a byte every second, stored every two seconds, is collected every two seconds from
now on: its store writes every four. -/
theorem cadence_stale : ¬ ∀ es : List (NodeEvent smallBuild), ∀ index,
      HasCadence (es.foldl Node.step ⟨State.reset smallBuild, fun _ => none⟩).state index := by
  intro h
  have hdefine := defineImpl_byte (Or.inl rfl) (State.reset smallBuild)
  have hstale := h [.change (.define (fun _ => false) byteLists 0 [⟨0, 256⟩] classDefault 0)
    (fun _ => none), .change (.setPeriod 0 1000 0) (fun _ => none),
    .change (.setStore freeStorage 0 2000) (fun _ => none),
    .change (.setPeriod 0 2000 0) (fun _ => none)] 0
  simp only [List.foldl_cons, List.foldl_nil, Node.step] at hstale
  rw [hdefine] at hstale
  exact absurd (hstale rfl) (by decide)

end KfswServices.Hk
