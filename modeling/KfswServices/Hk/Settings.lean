/-
# The settings of the reports

The changes of `src/hk/hk.c`, `src/hk/hk_store.c` and `src/hk/hk_beacon.c` to the settings, each as
the part of a call that runs under the storage lock and the lock of the state.  A change that is
refused leaves everything as it was.

What a change does to the file of a report is in `Hk.Store`; here, that its header could be written
is an answer of the file system.
-/

import KfswServices.Hk.Report

namespace KfswServices.Hk

open Param (Info)
open Function (update update_eq_self update_of_ne update_self)

variable {b : Build}

/-! ### The store of a report -/

/-- `kfsw_hk_store_forget`, without the file. -/
def StoreState.forget (st : StoreState b) : StoreState b :=
  { st with isOpen := false, interval := .off, pending := 0 }

/-- `kfsw_hk_store_bytes_needed`, with `KFSW_HK_STORE_HEADER_SIZE`. -/
def storeBytesNeeded (b : Build) (recordSize : ℕ) : ℕ := 12 + recordSize * b.storeCapacity

/-- The collections of an interval, rounded up: what both places that set `every_n` begin with. -/
def collectionsIn (interval period : UInt32) : ℕ :=
  if period = 0 then 1 else (interval.toNat + period.toNat - 1) / period.toNat

/-- `every_n`, in `kfsw_hk_store_configure`. -/
def batchSize (b : Build) (interval period : UInt32) : ℕ :=
  let every := collectionsIn interval period
  let every := if every = 0 then 1 else every
  if every > b.history then b.history else every

/-- What `kfsw_hk_store_configure` is answered: whether there is storage, how much of it is free,
and what comes of `create_file`. -/
structure Storage where
  ready : Bool
  free : Except Errno ℕ
  created : Option Errno

/-- `kfsw_hk_store_configure`, for a report there is. -/
def storeConfigure (storage : Storage) (intervalMs periodMs : UInt32) (recordSize : ℕ)
    (st : StoreState b) : Option Errno × StoreState b :=
  if intervalMs = 0 then (none, { st with interval := .off, isOpen := false, pending := 0 })
  else if !storage.ready then (some .ENODEV, st)
  else
    match Interval.ofMs intervalMs with
    | none => (some .ERANGE, st)
    | some interval =>
      match storage.free with
      | .error e => (some e, st)
      | .ok free =>
        if storeBytesNeeded b recordSize > free then (some .ENOSPC, st)
        else
          match storage.created with
          | some e => (some e, st)
          | none => (none, ⟨interval, batchSize b intervalMs periodMs, 0, recordSize, true⟩)

/-! ### The changes -/

namespace State

/-- `kfsw_hk_is_ready`. -/
def isReady (s : State b) : Bool := s.initialized && !s.restoring

/-- The reports are counted. -/
def countReports (s : State b) : State b :=
  { s with stats := { s.stats with
      reports := (List.range b.reports).countP fun i =>
        (s.reports (UInt8.ofNat i)).definition.isSome } }

/-- A definition changes: the collection and the schedule of the report that are under way are not
those of the report any more. -/
def revise (report : UInt8) (s : State b) : State b :=
  { s with
    generations := update s.generations report (s.generations report + 1)
    scheduleRevisions := update s.scheduleRevisions report
      (s.scheduleRevisions report + 1) }

/-- The store of a report changes. -/
def setStoreState (report : UInt8) (st : StoreState b) (s : State b) : State b :=
  { s with stores := update s.stores report st }

/-- What `define_impl` does with a definition. -/
def define (report : UInt8) (d : Definition b) (now : ℤ) (s : State b) : State b :=
  let target := s.reports report
  (((s.revise report).setReport report
    { target with
      definition := some d
      nextUptimeMs := int64 (now + target.period.ms.toNat)
      held := 0
      nextSlot := 0 }).countReports).setStoreState report (s.stores report).forget

/-- What `clear_impl` does. -/
def clear (report : UInt8) (s : State b) : State b :=
  (((s.revise report).setReport report (.zero b)).countReports).setStoreState report
    (s.stores report).forget

/-- `clear_impl`. -/
def clearImpl (report : UInt8) (s : State b) : Option Errno × State b :=
  if report.toNat ≥ b.reports then (some .EINVAL, s) else (none, s.clear report)

/-- `name_local_entries`; `own` are the addresses of this node. -/
def nameLocalEntries (own : UInt16 → Bool) (entries : List Entry) : List Entry :=
  entries.map fun entry => if own entry.node then { entry with node := nodeLocal } else entry

/-- `define_impl`. -/
def defineImpl (own : UInt16 → Bool) (lists : Listings) (report : UInt8) (entries : List Entry)
    (retrievalClass : UInt8) (now : ℤ) (s : State b) : Option Errno × State b :=
  if hclass : retrievalClass ≤ classMax then
    if report.toNat ≥ b.reports then (some .EINVAL, s)
    else if entries = [] then s.clearImpl report
    else if entries.length > b.entries then (some .E2BIG, s)
    else
      match prepareDefinition b lists report (nameLocalEntries own entries)
        ⟨retrievalClass, hclass⟩ with
      | .error e => (some e, s)
      | .ok d => (none, s.define report d now)
  else (some .ERANGE, s)

/-- What `set_period_impl` does with a period. -/
def setPeriod (report : UInt8) (period : Interval b.periodFloor) (now : ℤ) (s : State b) :
    State b :=
  let target := s.reports report
  { s.setReport report
      { target with
        period := period
        nextUptimeMs := if period.ms = 0 then 0 else int64 (now + period.ms.toNat) } with
    scheduleRevisions := update s.scheduleRevisions report
      (s.scheduleRevisions report + 1) }

/-- `set_period_impl`. -/
def setPeriodImpl (report : UInt8) (periodMs : UInt32) (now : ℤ) (s : State b) :
    Option Errno × State b :=
  if report.toNat ≥ b.reports then (some .EINVAL, s)
  else
    match Interval.ofMs periodMs with
    | none => (some .ERANGE, s)
    | some period =>
      if (s.reports report).definition.isNone then (some .ENOENT, s)
      else (none, s.setPeriod report period now)

/-- `set_store_impl`. -/
def setStoreImpl (storage : Storage) (report : UInt8) (intervalMs : UInt32) (s : State b) :
    Option Errno × State b :=
  if report.toNat ≥ b.reports then (some .EINVAL, s)
  else
    match (s.reports report).definition with
    | none => (some .ENOENT, s)
    | some d =>
      let (result, st) := storeConfigure storage intervalMs (s.reports report).period.ms
        d.recordSize (s.stores report)
      (result, s.setStoreState report st)

/-- `clear_store_impl`. -/
def clearStoreImpl (report : UInt8) (s : State b) : Option Errno × State b :=
  if report.toNat ≥ b.reports then (some .EINVAL, s)
  else (none, s.setStoreState report (s.stores report).forget)

/-- `set_beacon_impl`. -/
def setBeaconImpl (report : UInt8) (node : UInt16) (intervalMs : UInt32) (s : State b) :
    Option Errno × State b :=
  if report.toNat ≥ b.reports then (some .EINVAL, s)
  else
    match Interval.ofMs intervalMs with
    | none => (some .ERANGE, s)
    | some interval =>
      if h : interval.ms ≠ 0 ∧ (node = 0 ∨ node ≥ b.broadcast) then (some .EINVAL, s)
      else
        (none, { s with
          beacons := update s.beacons report ⟨node, interval, 0, by
            rcases not_and_or.1 h with h0 | hnode
            · exact Or.inl (not_not.1 h0)
            · exact Or.inr ⟨fun h => hnode (Or.inl h),
                UInt16.not_le.1 fun h => hnode (Or.inr h)⟩⟩ })

/-- `kfsw_hk_restore_report`; `sequence` is what the store has for the report. -/
def restoreReport (report : UInt8) (definition : Option (Definition b))
    (period : Interval b.periodFloor) (sequence : UInt16) (now : ℤ) (s : State b) : State b :=
  ((s.revise report).setReport report
    (match definition with
    | none => .zero b
    | some d =>
      { Report.zero b with
        definition := some d
        period := period
        nextUptimeMs := int64 (now + period.ms.toNat)
        sequence := sequence })).countReports

end State

/-! ### What a change does -/

/-- **What `set_period_impl` does**: it refuses, or the report has the period. -/
theorem setPeriodImpl_cases (report : UInt8) (periodMs : UInt32) (now : ℤ) (s : State b) :
    (s.setPeriodImpl report periodMs now).2 = s ∨
      ∃ period d, report.toNat < b.reports ∧ Interval.ofMs periodMs = some period ∧
        (s.reports report).definition = some d ∧
        (s.setPeriodImpl report periodMs now).2 = s.setPeriod report period now := by
  unfold State.setPeriodImpl
  by_cases hreport : report.toNat ≥ b.reports
  · rw [if_pos hreport]
    exact Or.inl rfl
  · rw [if_neg hreport]
    cases hperiod : (Interval.ofMs periodMs : Option (Interval b.periodFloor)) with
    | none => exact Or.inl rfl
    | some period =>
      cases hd : (s.reports report).definition with
      | none => exact Or.inl rfl
      | some d => exact Or.inr ⟨period, d, not_le.1 hreport, rfl, rfl, rfl⟩

/-- A period that is admitted is set, of a report that is defined. -/
theorem setPeriodImpl_admitted {report : UInt8} {periodMs : UInt32} (now : ℤ) {s : State b}
    {period : Interval b.periodFloor} (hreport : report.toNat < b.reports)
    (hperiod : Interval.ofMs periodMs = some period)
    (hdefined : (s.reports report).definition ≠ none) :
    (s.setPeriodImpl report periodMs now).2 = s.setPeriod report period now := by
  unfold State.setPeriodImpl
  rw [if_neg (not_le.2 hreport), hperiod]
  dsimp only
  rw [if_neg (mt Option.isNone_iff_eq_none.1 hdefined)]

/-- **What `kfsw_hk_store_configure` does**: it refuses, or it stops the store, or it opens it. -/
theorem storeConfigure_cases (storage : Storage) (intervalMs periodMs : UInt32) (recordSize : ℕ)
    (st : StoreState b) :
    (storeConfigure storage intervalMs periodMs recordSize st).2 = st ∨
      (storeConfigure storage intervalMs periodMs recordSize st).2 =
        { st with interval := .off, isOpen := false, pending := 0 } ∨
      ∃ interval : Interval b.storeFloor, interval.ms ≠ 0 ∧
        (storeConfigure storage intervalMs periodMs recordSize st).2 =
          ⟨interval, batchSize b interval.ms periodMs, 0, recordSize, true⟩ := by
  unfold storeConfigure
  by_cases hoff : intervalMs = 0
  · rw [if_pos hoff]
    exact Or.inr (Or.inl rfl)
  · rw [if_neg hoff]
    by_cases hready : (!storage.ready) = true
    · rw [if_pos hready]
      exact Or.inl rfl
    · rw [if_neg hready]
      cases hinterval : (Interval.ofMs intervalMs : Option (Interval b.storeFloor)) with
      | none => exact Or.inl rfl
      | some interval =>
        have hms := Interval.ms_of_ofMs hinterval
        dsimp only
        cases storage.free with
        | error e => exact Or.inl rfl
        | ok free =>
          dsimp only
          by_cases hfree : storeBytesNeeded b recordSize > free
          · rw [if_pos hfree]
            exact Or.inl rfl
          · rw [if_neg hfree]
            cases storage.created with
            | some e => exact Or.inl rfl
            | none =>
              refine Or.inr (Or.inr ⟨interval, ?_, ?_⟩)
              · rw [hms]
                exact hoff
              · rw [hms]

/-- A store that is configured is open. -/
theorem storeConfigure_none {storage : Storage} {intervalMs periodMs : UInt32} {recordSize : ℕ}
    {st : StoreState b} (hinterval : intervalMs ≠ 0)
    (h : (storeConfigure storage intervalMs periodMs recordSize st).1 = none) :
    ∃ interval : Interval b.storeFloor, interval.ms = intervalMs ∧
      (storeConfigure storage intervalMs periodMs recordSize st).2 =
        ⟨interval, batchSize b intervalMs periodMs, 0, recordSize, true⟩ := by
  unfold storeConfigure at h ⊢
  rw [if_neg hinterval] at h ⊢
  by_cases hready : (!storage.ready) = true
  · rw [if_pos hready] at h
    cases h
  · rw [if_neg hready] at h ⊢
    cases hms : (Interval.ofMs intervalMs : Option (Interval b.storeFloor)) with
    | none =>
      rw [hms] at h
      cases h
    | some interval =>
      rw [hms] at h
      dsimp only at h ⊢
      cases hfree : storage.free with
      | error e =>
        rw [hfree] at h
        cases h
      | ok free =>
        rw [hfree] at h
        dsimp only at h ⊢
        by_cases hfits : storeBytesNeeded b recordSize > free
        · rw [if_pos hfits] at h
          cases h
        · rw [if_neg hfits] at h ⊢
          cases hcreated : storage.created with
          | some e =>
            rw [hcreated] at h
            cases h
          | none => exact ⟨interval, Interval.ms_of_ofMs hms, rfl⟩

/-- **What `set_store_impl` does**: it refuses, or the store of a report that is defined is
configured. -/
theorem setStoreImpl_cases (storage : Storage) (report : UInt8) (intervalMs : UInt32)
    (s : State b) : (s.setStoreImpl storage report intervalMs).2 = s ∨
      ∃ d, (s.reports report).definition = some d ∧
        (s.setStoreImpl storage report intervalMs).2 = s.setStoreState report
          (storeConfigure storage intervalMs (s.reports report).period.ms d.recordSize
            (s.stores report)).2 := by
  unfold State.setStoreImpl
  by_cases hreport : report.toNat ≥ b.reports
  · rw [if_pos hreport]
    exact Or.inl rfl
  · rw [if_neg hreport]
    cases hd : (s.reports report).definition with
    | none => exact Or.inl rfl
    | some d => exact Or.inr ⟨d, rfl, rfl⟩

/-- **What `define_impl` does**: it refuses, or it clears, or it defines what was prepared. -/
theorem defineImpl_cases (own : UInt16 → Bool) (lists : Listings) (report : UInt8)
    (entries : List Entry) (retrievalClass : UInt8) (now : ℤ) (s : State b) :
    (s.defineImpl own lists report entries retrievalClass now).2 = s ∨
      (s.defineImpl own lists report entries retrievalClass now).2 = s.clear report ∨
      ∃ hclass d, prepareDefinition b lists report (State.nameLocalEntries own entries)
          ⟨retrievalClass, hclass⟩ = .ok d ∧
        (s.defineImpl own lists report entries retrievalClass now).2 = s.define report d now := by
  unfold State.defineImpl State.clearImpl
  by_cases hclass : retrievalClass ≤ classMax
  · rw [dif_pos hclass]
    by_cases hreport : report.toNat ≥ b.reports
    · rw [if_pos hreport]
      exact Or.inl rfl
    · rw [if_neg hreport]
      by_cases hentries : entries = []
      · rw [if_pos hentries, if_neg hreport]
        exact Or.inr (Or.inl rfl)
      · rw [if_neg hentries]
        by_cases hlen : entries.length > b.entries
        · rw [if_pos hlen]
          exact Or.inl rfl
        · rw [if_neg hlen]
          cases hd : prepareDefinition b lists report (State.nameLocalEntries own entries)
            ⟨retrievalClass, hclass⟩ with
          | error e => exact Or.inl rfl
          | ok d => exact Or.inr (Or.inr ⟨hclass, d, hd, rfl⟩)
  · rw [dif_neg hclass]
    exact Or.inl rfl

/-- A definition changes nothing of another report. -/
theorem define_ne (s : State b) {report other : UInt8} (d : Definition b) (now : ℤ)
    (h : other ≠ report) : (s.define report d now).reports other = s.reports other ∧
      (s.define report d now).stores other = s.stores other :=
  ⟨State.setReport_ne _ _ h, update_of_ne h _ _⟩

/-- What a report is when it is defined. -/
theorem define_same (s : State b) (report : UInt8) (d : Definition b) (now : ℤ) :
    ((s.define report d now).reports report).definition = some d ∧
      ((s.define report d now).reports report).period = (s.reports report).period ∧
      ((s.define report d now).reports report).held = 0 ∧
      (s.define report d now).stores report = (s.stores report).forget := by
  have hreport : (s.define report d now).reports report = _ := State.setReport_same _ _ _
  rw [hreport]
  exact ⟨rfl, rfl, rfl, update_self _ _ _⟩

/-- Clearing changes nothing of another report. -/
theorem clear_ne (s : State b) {report other : UInt8} (h : other ≠ report) :
    (s.clear report).reports other = s.reports other ∧
      (s.clear report).stores other = s.stores other :=
  ⟨State.setReport_ne _ _ h, update_of_ne h _ _⟩

/-- What a report is when it is cleared. -/
theorem clear_same (s : State b) (report : UInt8) : (s.clear report).reports report = .zero b ∧
      (s.clear report).stores report = (s.stores report).forget :=
  ⟨State.setReport_same _ _ _, update_self _ _ _⟩

/-- A beacon that is admitted is set. -/
theorem setBeaconImpl_admitted (s : State b) {index : UInt8} (hindex : index.toNat < b.reports)
    (beacon : Beacon b) :
    (s.setBeaconImpl index beacon.node beacon.interval.ms).2 =
      { s with beacons := update s.beacons index { beacon with nextUptimeMs := 0 } } := by
  unfold State.setBeaconImpl
  rw [if_neg (not_le.2 hindex), Interval.ofMs_ms]
  dsimp only
  rw [dif_neg]
  rintro ⟨hms, hnode⟩
  obtain ⟨h0, hbroadcast⟩ := beacon.admitted.resolve_left hms
  rcases hnode with h | h
  · exact h0 h
  · exact absurd hbroadcast (UInt16.not_lt.2 h)

/-- Setting a beacon changes no report, no store, and no other beacon. -/
theorem setBeaconImpl_frame (s : State b) (index : UInt8) (node : UInt16) (ms : UInt32) :
    (s.setBeaconImpl index node ms).2.reports = s.reports ∧
      (s.setBeaconImpl index node ms).2.stores = s.stores ∧ ∀ other, other ≠ index →
        (s.setBeaconImpl index node ms).2.beacons other = s.beacons other := by
  unfold State.setBeaconImpl
  split_ifs with hindex
  · exact ⟨rfl, rfl, fun _ _ => rfl⟩
  · split
    · exact ⟨rfl, rfl, fun _ _ => rfl⟩
    · split_ifs
      · exact ⟨rfl, rfl, fun _ _ => rfl⟩
      · exact ⟨rfl, rfl, fun other h => update_of_ne h _ _⟩

/-! ### A change of the settings -/

/-- A call that changes the settings, with what it is given and answered. -/
inductive Change (b : Build)
  | define (own : UInt16 → Bool) (lists : Listings) (report : UInt8) (entries : List Entry)
      (retrievalClass : UInt8) (now : ℤ)
  | clear (report : UInt8)
  | setPeriod (report : UInt8) (periodMs : UInt32) (now : ℤ)
  | setStore (storage : Storage) (report : UInt8) (intervalMs : UInt32)
  | clearStore (report : UInt8)
  | setBeacon (report : UInt8) (node : UInt16) (intervalMs : UInt32)

/-- The change, under the locks. -/
def Change.apply : Change b → State b → Option Errno × State b
  | .define own lists report entries retrievalClass now, s =>
    s.defineImpl own lists report entries retrievalClass now
  | .clear report, s => s.clearImpl report
  | .setPeriod report periodMs now, s => s.setPeriodImpl report periodMs now
  | .setStore storage report intervalMs, s => s.setStoreImpl storage report intervalMs
  | .clearStore report, s => s.clearStoreImpl report
  | .setBeacon report node intervalMs, s => s.setBeaconImpl report node intervalMs

/-- The parameters of this node are these, wherever a change asks for them. -/
def Change.Asks (registry : Except Errno (List Info)) : Change b → Prop
  | .define _ lists _ _ _ _ => lists.registry = registry
  | _ => True

/-- A store that is not configured is as it was. -/
theorem storeConfigure_some {storage : Storage} {intervalMs periodMs : UInt32} {recordSize : ℕ}
    {st : StoreState b} {e : Errno} :
    (storeConfigure storage intervalMs periodMs recordSize st).1 = some e →
      (storeConfigure storage intervalMs periodMs recordSize st).2 = st := by
  unfold storeConfigure
  split_ifs
  · intro h
    cases h
  · exact fun _ => rfl
  · split
    · exact fun _ => rfl
    · split
      · exact fun _ => rfl
      · split_ifs
        · exact fun _ => rfl
        · split
          · exact fun _ => rfl
          · intro h
            cases h

/-- **A change that is refused** leaves everything as it was. -/
theorem Change.apply_refused (c : Change b) (s : State b) {e : Errno} :
    (c.apply s).1 = some e → (c.apply s).2 = s := by
  cases c with
  | define own lists report entries retrievalClass now =>
    show (s.defineImpl own lists report entries retrievalClass now).1 = some e →
      (s.defineImpl own lists report entries retrievalClass now).2 = s
    unfold State.defineImpl State.clearImpl
    split_ifs
    · exact fun _ => rfl
    · intro h
      cases h
    · exact fun _ => rfl
    · split
      · exact fun _ => rfl
      · intro h
        cases h
    · exact fun _ => rfl
  | clear report =>
    show (s.clearImpl report).1 = some e → (s.clearImpl report).2 = s
    unfold State.clearImpl
    split_ifs
    · exact fun _ => rfl
    · intro h
      cases h
  | setPeriod report periodMs now =>
    show (s.setPeriodImpl report periodMs now).1 = some e →
      (s.setPeriodImpl report periodMs now).2 = s
    unfold State.setPeriodImpl
    split_ifs
    · exact fun _ => rfl
    · split <;> exact fun _ => rfl
    · split
      · exact fun _ => rfl
      · intro h
        cases h
  | setStore storage report intervalMs =>
    show (s.setStoreImpl storage report intervalMs).1 = some e →
      (s.setStoreImpl storage report intervalMs).2 = s
    unfold State.setStoreImpl
    split_ifs
    · exact fun _ => rfl
    · split
      · exact fun _ => rfl
      · intro h
        dsimp only at h ⊢
        rw [storeConfigure_some h]
        exact congrArg (fun stores => ({ s with stores := stores } : State b))
          (update_eq_self _ _)
  | clearStore report =>
    show (s.clearStoreImpl report).1 = some e → (s.clearStoreImpl report).2 = s
    unfold State.clearStoreImpl
    split_ifs
    · exact fun _ => rfl
    · intro h
      cases h
  | setBeacon report node intervalMs =>
    show (s.setBeaconImpl report node intervalMs).1 = some e →
      (s.setBeaconImpl report node intervalMs).2 = s
    unfold State.setBeaconImpl
    split_ifs
    · exact fun _ => rfl
    · split
      · exact fun _ => rfl
      · split_ifs
        · exact fun _ => rfl
        · intro h
          cases h

/-- A change leaves the count of the changes and the flag to its caller. -/
theorem Change.apply_stats (c : Change b) (s : State b) :
    (c.apply s).2.configRevision = s.configRevision ∧
      (c.apply s).2.stats.settingsDirty = s.stats.settingsDirty := by
  cases c with
  | define own lists report entries retrievalClass now =>
    show (s.defineImpl own lists report entries retrievalClass now).2.configRevision = _ ∧
      (s.defineImpl own lists report entries retrievalClass now).2.stats.settingsDirty = _
    rcases defineImpl_cases own lists report entries retrievalClass now s with
      heq | heq | ⟨hclass, d, -, heq⟩ <;>
      · rw [heq]
        exact ⟨rfl, rfl⟩
  | clear report =>
    show (s.clearImpl report).2.configRevision = _ ∧ (s.clearImpl report).2.stats.settingsDirty = _
    unfold State.clearImpl
    split_ifs <;> exact ⟨rfl, rfl⟩
  | setPeriod report periodMs now =>
    show (s.setPeriodImpl report periodMs now).2.configRevision = _ ∧
      (s.setPeriodImpl report periodMs now).2.stats.settingsDirty = _
    rcases setPeriodImpl_cases report periodMs now s with heq | ⟨period, d, -, -, -, heq⟩ <;>
      · rw [heq]
        exact ⟨rfl, rfl⟩
  | setStore storage report intervalMs =>
    show (s.setStoreImpl storage report intervalMs).2.configRevision = _ ∧
      (s.setStoreImpl storage report intervalMs).2.stats.settingsDirty = _
    rcases setStoreImpl_cases storage report intervalMs s with heq | ⟨d, -, heq⟩ <;>
      · rw [heq]
        exact ⟨rfl, rfl⟩
  | clearStore report =>
    show (s.clearStoreImpl report).2.configRevision = _ ∧
      (s.clearStoreImpl report).2.stats.settingsDirty = _
    unfold State.clearStoreImpl
    split_ifs <;> exact ⟨rfl, rfl⟩
  | setBeacon report node intervalMs =>
    show (s.setBeaconImpl report node intervalMs).2.configRevision = _ ∧
      (s.setBeaconImpl report node intervalMs).2.stats.settingsDirty = _
    unfold State.setBeaconImpl
    split_ifs
    · exact ⟨rfl, rfl⟩
    · split
      · exact ⟨rfl, rfl⟩
      · split_ifs <;> exact ⟨rfl, rfl⟩

end KfswServices.Hk
