/-
# What a settings file restores

`Settings` are what the settings file keeps of a report: its entries and class, its period, its store
and its beacon.  A load may prepare the entries with other widths than before, yet whatever loads a
file after a reset gets the same settings (`Restores.unique`); of a file that `save_snapshot` wrote,
those of the reports that were defined, and none of the others (`reproduces_snapshotOf`).
-/

import KfswServices.Hk.Reload

namespace KfswServices.Hk

open Library
open Param (Info Stop)

variable {b : Build}

/-! ### Settings -/

/-- The settings of a report. -/
@[ext] structure Settings (b : Build) where
  layout : Option (List Entry × UInt8)
  period : Interval b.periodFloor
  store : Interval b.storeFloor
  beaconNode : UInt16
  beacon : Interval b.beaconFloor

/-- Those of a report after a reset. -/
def Settings.none (b : Build) : Settings b := ⟨.none, .off, .off, 0, .off⟩

/-- The settings of a report, as the getters read them. -/
def State.settings (s : State b) (index : UInt8) : Settings b :=
  ⟨(s.reports index).definition.map fun d => (d.entries, d.retrievalClass),
    (s.reports index).period, (s.stores index).interval, (s.beacons index).node,
    (s.beacons index).interval⟩

/-- The settings that `save_snapshot` walks over. -/
def State.savedSettings (s : State b) (index : UInt8) : Settings b :=
  if (s.reports index).definition = none then .none b else s.settings index

/-- A report that is not defined has no beacon, wherever there is a report. -/
def State.Covered (s : State b) : Prop :=
  ∀ index : UInt8, index.toNat < b.reports → (s.reports index).definition = none →
    (s.beacons index).node = 0 ∧ (s.beacons index).interval = .off

variable {s : State b}

/-- What goes on besides keeps the settings. -/
theorem KeepsSettings.settings {s' : State b} (h : KeepsSettings s s') :
    s'.settings = s.settings ∧ s'.savedSettings = s.savedSettings := by
  have hsettings : ∀ index, s'.settings index = s.settings index := by
    intro index
    unfold State.settings
    rw [h.definition, h.period, h.store, (h.beacon index).1, (h.beacon index).2]
  refine ⟨funext hsettings, funext fun index => ?_⟩
  unfold State.savedSettings
  rw [h.definition, hsettings]

/-- **The settings that are saved are all of them** exactly if no report that is not defined has a
beacon. -/
theorem SettledBy.saved_iff {P : Definition b → Prop} (h : SettledBy P s) :
    (∀ index : UInt8, index.toNat < b.reports → s.savedSettings index = s.settings index) ↔
      s.Covered := by
  refine forall₂_congr fun index _ => ?_
  unfold State.savedSettings
  by_cases hnone : (s.reports index).definition = none
  · obtain ⟨hperiod, hstore⟩ := h.undefined index hnone
    rw [if_pos hnone]
    unfold State.settings Settings.none
    rw [hnone, hperiod, hstore, Settings.mk.injEq]
    constructor
    · rintro ⟨-, -, -, hnode, hbeacon⟩ -
      exact ⟨hnode.symm, hbeacon.symm⟩
    · intro hcovered
      obtain ⟨hnode, hbeacon⟩ := hcovered rfl
      exact ⟨rfl, rfl, rfl, hnode.symm, hbeacon.symm⟩
  · rw [if_neg hnone]
    exact iff_of_true rfl fun h => absurd h hnone

/-! ### What passes the checks -/

/-- The settings of a report that passes. -/
def Restored.settings (item : Restored b) : Settings b :=
  ⟨some (item.definition.entries, item.definition.retrievalClass), item.period, item.store,
    item.beaconNode, (Interval.ofMs item.beaconMs).getD .off⟩

/-- Those of a report, which may not be in the file. -/
def itemSettings (item : Option (Restored b)) : Settings b := item.elim (.none b) Restored.settings

/-- The beacon of a report that passes is one that its setter admits. -/
def Restored.Admitted (item : Restored b) : Prop :=
  ∃ beacon : Beacon b, item.beaconNode = beacon.node ∧ item.beaconMs = beacon.interval.ms

theorem Restored.admitted_of {raw : RawReport} (h : ¬ beaconRefused b raw) :
    ∃ beacon : Beacon b, raw.beaconNode = beacon.node ∧ raw.beaconMs = beacon.interval.ms := by
  by_cases hms : raw.beaconMs = 0
  · exact ⟨⟨raw.beaconNode, .off, 0, Or.inl rfl⟩, rfl, hms⟩
  · obtain ⟨hfloor, hnode⟩ := not_or.1 fun h' => h ⟨hms, h'⟩
    obtain ⟨h0, hbroadcast⟩ := not_or.1 hnode
    exact ⟨⟨raw.beaconNode, ⟨raw.beaconMs, Or.inr (not_lt.1 hfloor)⟩, 0,
      Or.inr ⟨h0, UInt16.not_le.1 hbroadcast⟩⟩, rfl, rfl⟩

variable {data : List UInt8} {items items' : UInt8 → Option (Restored b)}

/-- **The settings of a report are those in the file**, whatever the parameters are asked. -/
theorem loadReport_same {lists lists' : Listings} {version : UInt8} {offset : ℕ}
    {loaded loaded' : (UInt8 × Restored b) × ℕ}
    (h : loadReport b lists version data items offset = .ok loaded)
    (h' : loadReport b lists' version data items' offset = .ok loaded') :
    loaded.1.1 = loaded'.1.1 ∧ loaded.1.2.settings = loaded'.1.2.settings ∧
      loaded.2 = loaded'.2 := by
  obtain ⟨raw, entries, hclass, hraw, hentries, -, hperiod, hstore, hd, hnode, hms, hreport, hend⟩ :=
    loadReport_ok h
  obtain ⟨raw', entries', hclass', hraw', hentries', -, hperiod', hstore', hd', hnode', hms',
    hreport', hend'⟩ := loadReport_ok h'
  obtain rfl := Except.ok.inj (hraw.symm.trans hraw')
  obtain rfl := Except.ok.inj (hentries.symm.trans hentries')
  obtain ⟨-, hfields, hc⟩ := prepareDefinition_eq_ok_iff.1 hd
  obtain ⟨-, hfields', hc'⟩ := prepareDefinition_eq_ok_iff.1 hd'
  refine ⟨hreport.trans hreport'.symm, ?_, hend.trans hend'.symm⟩
  unfold Restored.settings
  rw [show loaded.1.2.definition.entries = entries from (layOut_ok hfields).2,
    show loaded'.1.2.definition.entries = entries from (layOut_ok hfields').2, hc, hc', hnode, hnode',
    hms, hms', Option.some.inj (hperiod.symm.trans hperiod'),
    Option.some.inj (hstore.symm.trans hstore')]

variable {lists lists' : ℕ → Listings}

theorem loadReports_same {version : UInt8} {turns turn : ℕ} {offset : ℕ}
    {loaded loaded' : (UInt8 → Option (Restored b)) × ℕ}
    (hitems : ∀ index, itemSettings (items index) = itemSettings (items' index))
    (h : loadReports b lists version data turns turn items offset = .ok loaded)
    (h' : loadReports b lists' version data turns turn items' offset = .ok loaded')
    (index : UInt8) : itemSettings (loaded.1 index) = itemSettings (loaded'.1 index) := by
  induction turns generalizing turn items items' offset with
  | zero =>
    obtain rfl := Except.ok.inj h
    obtain rfl := Except.ok.inj h'
    exact hitems index
  | succ turns ih =>
    unfold loadReports at h h'
    cases hfirst : loadReport b (lists turn) version data items offset with
    | error e =>
      rw [hfirst] at h
      cases h
    | ok first =>
      cases hfirst' : loadReport b (lists' turn) version data items' offset with
      | error e =>
        rw [hfirst'] at h'
        cases h'
      | ok first' =>
        obtain ⟨hreport, hsettings, hend⟩ := loadReport_same hfirst hfirst'
        rw [hfirst] at h
        rw [hfirst'] at h'
        dsimp only at h h'
        rw [hreport, hend] at h
        refine ih (fun other => ?_) h h'
        by_cases hother : other = first'.1.1
        · subst hother
          rw [Function.update_self, Function.update_self]
          exact hsettings
        · rw [Function.update_of_ne hother, Function.update_of_ne hother]
          exact hitems other

/-- **What passes the checks has the settings in the file.** -/
theorem checkSnapshot_same (h : checkSnapshot b lists data = .ok items)
    (h' : checkSnapshot b lists' data = .ok items') (index : UInt8) :
    itemSettings (items index) = itemSettings (items' index) := by
  obtain ⟨version, expected, offset, hversion, hexpected, hload⟩ := checkSnapshot_ok h
  obtain ⟨version', expected', offset', hversion', hexpected', hload'⟩ := checkSnapshot_ok h'
  obtain rfl := Except.ok.inj (hversion.symm.trans hversion')
  obtain rfl := Except.ok.inj (hexpected.symm.trans hexpected')
  exact loadReports_same (fun _ => rfl) hload hload' index

/-! ### What is committed -/

/-- **What is committed has the settings of what passed.** -/
theorem settings_commitRestored
    (hadmitted : ∀ index item, items index = some item → item.Admitted) {prepared : Prepared b}
    (hstores : ∀ index : UInt8, index.toNat < b.reports → prepared.stores index = storeOf items index)
    (now : ℤ) (s : State b) {index : UInt8} (hindex : index.toNat < b.reports) :
    (commitRestored items prepared now s).settings index = itemSettings (items index) := by
  obtain ⟨hdefinition, hperiod, -, hstore, hbeacon⟩ :=
    (commitRestored_spec items prepared now s index).1 hindex
  have hinterval : ((commitRestored items prepared now s).stores index).interval =
      ((items index).map (·.store)).getD .off := by
    rw [hstore, hstores index hindex]
    exact preparedStore_interval _ _ _
  unfold State.settings itemSettings
  rw [hdefinition, hperiod, hinterval]
  unfold restoredBeacon at hbeacon
  cases hitem : items index with
  | none =>
    rw [hitem] at hbeacon
    obtain ⟨hnode, hoff⟩ := hbeacon ⟨0, .off, 0, Or.inl rfl⟩ rfl
    rw [hnode, hoff]
    rfl
  | some item =>
    rw [hitem] at hbeacon
    obtain ⟨beacon, hadmittedNode, hadmittedMs⟩ := hadmitted index item hitem
    obtain ⟨hnode, hms⟩ := hbeacon beacon (Prod.ext hadmittedNode hadmittedMs)
    rw [hnode, hms]
    show Settings.mk _ _ _ _ _ = Restored.settings item
    unfold Restored.settings
    rw [hadmittedNode, hadmittedMs, Interval.ofMs_ms]
    rfl

/-- What `load_snapshot` leaves after a reset, where it returns `0`, or what the reset leaves where
there is no file. -/
inductive Restores (file : Option (List UInt8)) : State b → Prop
  | loaded {io : LoadIo} {lists : ℕ → Listings} {now : ℤ} {files : UInt8 → Option (List UInt8)}
      {n : Node b} (h : loadSnapshot io lists now (.zero b) file ⟨State.reset b, files⟩ =
        (.ended (.returned none), n)) : Restores file n.state
  | absent (h : file = none) : Restores file (State.reset b)

/-- **A file reproduces some settings**: it can be loaded, and whatever loads it has them. -/
def Reproduces (file : Option (List UInt8)) (settings : UInt8 → Settings b) : Prop :=
  (∃ t : State b, Restores file t) ∧ ∀ t : State b, Restores file t →
    ∀ index : UInt8, index.toNat < b.reports → t.settings index = settings index

variable {file : Option (List UInt8)}

section

variable {settings settings' : UInt8 → Settings b} (h : Reproduces file settings)
include h

theorem Reproduces.congr
    (heq : ∀ index : UInt8, index.toNat < b.reports → settings index = settings' index) :
    Reproduces file settings' :=
  ⟨h.1, fun t ht index hindex => (h.2 t ht index hindex).trans (heq index hindex)⟩

/-- Two settings that one file reproduces are the same. -/
theorem Reproduces.unique
    (h' : Reproduces file settings') (index : UInt8) (hindex : index.toNat < b.reports) :
    settings index = settings' index := by
  obtain ⟨t, ht⟩ := h.1
  rw [← h.2 t ht index hindex, h'.2 t ht index hindex]

end

/-- What a load leaves has the settings of what passed. -/
theorem settings_loadSnapshot {io : LoadIo} {now : ℤ} {before : Prepared b} {n m : Node b}
    (h : loadSnapshot io lists now before file n = (.ended (.returned none), m)) :
    ∃ data items, file = some data ∧ checkSnapshot b lists data = .ok items ∧
      ∀ index : UInt8, index.toNat < b.reports →
        m.state.settings index = itemSettings (items index) := by
  obtain ⟨data, items, prepared, hfile, hcheck, hstate, hstores⟩ := loadSnapshot_ok h
  refine ⟨data, items, hfile, hcheck, fun index hindex => ?_⟩
  rw [hstate]
  refine settings_commitRestored ?_ hstores now n.state hindex
  refine checkSnapshot_forall (fun turn version data items offset loaded hload => ?_) hcheck
  obtain ⟨raw, entries, hclass, -, -, hbeacon, -, -, -, hnode, hms, -⟩ := loadReport_ok hload
  obtain ⟨beacon, hbeaconNode, hbeaconMs⟩ := Restored.admitted_of hbeacon
  exact ⟨beacon, hnode.trans hbeaconNode, hms.trans hbeaconMs⟩

/-- **Whatever loads a file gets the same settings.** -/
theorem Restores.unique {t : State b} (hs : Restores file s) (ht : Restores file t)
    (index : UInt8) (hindex : index.toNat < b.reports) : s.settings index = t.settings index := by
  cases hs with
  | loaded hload =>
    obtain ⟨data, items, hfile, hcheck, hsettings⟩ := settings_loadSnapshot hload
    subst hfile
    cases ht with
    | loaded hload' =>
      obtain ⟨data', items', hfile', hcheck', hsettings'⟩ := settings_loadSnapshot hload'
      obtain rfl := Option.some.inj hfile'
      rw [hsettings index hindex, hsettings' index hindex, checkSnapshot_same hcheck hcheck']
    | absent h => cases h
  | absent h =>
    subst h
    cases ht with
    | loaded hload' =>
      obtain ⟨data', items', hfile', -⟩ := settings_loadSnapshot hload'
      cases hfile'
    | absent => rfl

/-- What a file restores leaves no beacon to a report that it does not define. -/
theorem Restores.covered {t : State b} (h : Restores file t) : t.Covered := by
  intro index hindex hnone
  cases h with
  | loaded hload =>
    obtain ⟨data, items, -, -, hsettings⟩ := settings_loadSnapshot hload
    have heq := hsettings index hindex
    have hlayout := congrArg Settings.layout heq
    unfold State.settings at hlayout
    rw [hnone] at hlayout
    cases hitem : items index with
    | none =>
      rw [hitem] at heq
      exact ⟨congrArg Settings.beaconNode heq, congrArg Settings.beacon heq⟩
    | some item =>
      rw [hitem] at hlayout
      cases hlayout
  | absent => exact ⟨rfl, rfl⟩

/-! ### A file that was saved -/

/-- The definition was prepared, with some parameters of this node. -/
def Definition.WasPrepared (d : Definition b) : Prop := ∃ registry, LaidWith registry d

theorem wasPrepared_of_change {c : Change b} {d : Definition b} (h : c.Prepares d) :
    d.WasPrepared := by
  cases c with
  | define own lists report entries retrievalClass now =>
    obtain ⟨hclass, hd⟩ := h
    exact ⟨_, laidWith_of_prepared hd⟩
  | _ => exact h.elim

/-- What passes the checks was prepared. -/
theorem wasPrepared_of_checkSnapshot (h : checkSnapshot b lists data = .ok items) :
    ∀ index item, items index = some item → item.definition.WasPrepared := by
  refine checkSnapshot_forall (fun turn version data items offset loaded hload => ?_) h
  obtain ⟨raw, entries, hclass, -, -, -, -, -, hd, -⟩ := loadReport_ok hload
  exact ⟨_, laidWith_of_prepared hd⟩

/-- What was prepared can be prepared again, by the same answers. -/
theorem Definition.WasPrepared.again {d : Definition b} (h : d.WasPrepared) {index : UInt8}
    (hindex : index.toNat < b.reports) : ∃ lists : Listings,
      prepareDefinition b lists index d.entries ⟨d.retrievalClass, d.class_le⟩ = .ok d := by
  obtain ⟨registry, lists, -, hlaid⟩ := h
  exact ⟨lists, prepareDefinition_eq_ok_iff.2 ⟨hindex, hlaid, rfl⟩⟩

/-- The turns that are over are not asked again. -/
theorem prepareAll_congr {indices : List UInt8} {turn : ℕ}
    (h : ∀ k, turn ≤ k → lists k = lists' k) (items : UInt8 → Option (Restored b)) :
    prepareAll lists s indices turn items = prepareAll lists' s indices turn items := by
  induction indices generalizing turn items with
  | nil => rfl
  | cons first indices ih =>
    unfold prepareAll
    rw [h turn le_rfl, ih h]
    split
    · rfl
    · split
      · rfl
      · exact ih (fun k hk => h k (by omega)) _

/-- Where each definition can be prepared, there are answers that prepare all. -/
theorem exists_prepareAll {indices : List UInt8}
    (h : ∀ index ∈ indices, ∀ d, (s.reports index).definition = some d → ∃ lists : Listings,
      prepareDefinition b lists index d.entries ⟨d.retrievalClass, d.class_le⟩ = .ok d) (turn : ℕ)
    (items : UInt8 → Option (Restored b)) :
    ∃ lists items', prepareAll lists s indices turn items = .ok items' := by
  induction indices generalizing turn items with
  | nil => exact ⟨fun _ => ⟨.ok [], fun _ _ => .ok []⟩, items, rfl⟩
  | cons first indices ih =>
    have hrest := fun i hi => h i (List.mem_cons_of_mem first hi)
    cases hd : (s.reports first).definition with
    | none =>
      obtain ⟨lists, items', hall⟩ := ih hrest turn items
      refine ⟨lists, items', ?_⟩
      unfold prepareAll
      rw [hd]
      exact hall
    | some d =>
      obtain ⟨now, hnow⟩ := h first List.mem_cons_self d hd
      obtain ⟨later, items', hall⟩ := ih hrest (turn + 1)
        (Function.update items first (some (restoredAs s first d)))
      refine ⟨fun k => if k = turn then now else later k, items', ?_⟩
      unfold prepareAll
      rw [hd]
      dsimp only
      rw [if_pos rfl, hnow]
      dsimp only
      rw [← hall]
      exact prepareAll_congr (fun k hk => if_neg (by omega)) _

/-- An empty store file is whole. -/
theorem whole_storeHeader (report : UInt8) {recordSize : ℕ} (h : recordSize ≤ b.sampleBytes) :
    Whole b report recordSize (storeHeader b report recordSize) := by
  refine ⟨?_, 0, Nat.zero_le _, ?_, fun _ h => absurd h (Nat.not_lt_zero _)⟩
  · rw [List.take_of_length_le (length_storeHeader b report recordSize).le]
    exact headerOf_storeHeader b report h
  · rw [length_storeHeader, slotOffset, Nat.zero_mul]

/-- Store files without a record, of what passes the checks. -/
def emptyStores (items : UInt8 → Option (Restored b)) (index : UInt8) : Option (List UInt8) :=
  some (storeHeader b index (headerSize + ((items index).map (·.definition.payloadBytes)).getD 0))

/-- With them every store is prepared. -/
theorem prepareOne_emptyStores (items : UInt8 → Option (Restored b)) (index : UInt8) :
    (prepareOne .working items index (emptyStores items index)).1 = .returned none := by
  unfold prepareOne emptyStores
  by_cases hoff : (((items index).map Restored.store).getD .off).ms = 0
  · exact restorePrepare_off hoff
  · refine (restorePrepare_file hoff (by show 0 < 10 + _; omega)).2 (whole_storeHeader index ?_)
    cases items index with
    | none =>
      have hsize := b.sampleBytes_range
      show 10 + 0 ≤ b.sampleBytes
      omega
    | some item =>
      have hfits := item.definition.fits
      show headerSize + item.definition.payloadBytes ≤ b.sampleBytes
      unfold Definition.payloadBytes
      omega

/-- **A file that can be checked can be loaded.** -/
theorem exists_restores (hblob : LoadIo.working.blob b (some data) = .ok data)
    (h : checkSnapshot b lists data = .ok items) : ∃ t : State b, Restores (some data) t := by
  have hstores := (prepareStores_spec .working items (nodup_reportIndices b) (.zero b)
    (emptyStores items)).1.2 fun index _ => prepareOne_emptyStores items index
  rcases hprepare : prepareStores .working items (reportIndices b) (.zero b) (emptyStores items) with
    ⟨ended, prepared, files⟩
  rw [hprepare] at hstores
  obtain rfl : ended = .returned none := hstores
  have hload : loadSnapshot .working lists 0 (.zero b) (some data)
      ⟨State.reset b, emptyStores items⟩ =
        (.ended (.returned none), ⟨commitRestored items prepared 0 (State.reset b), files⟩) := by
    unfold loadSnapshot
    rw [hblob]
    dsimp only
    rw [h]
    dsimp only
    rw [hprepare]
  exact ⟨_, .loaded hload⟩

/-- **What was saved is reproduced**: the settings of the reports that were defined. -/
theorem reproduces_snapshotOf (hs : SettledBy Definition.WasPrepared s) :
    Reproduces (some (snapshotOf s)) s.savedSettings := by
  have hblob := @blob_snapshotOf b .working rfl rfl rfl rfl s
  refine ⟨?_, fun t ht index hindex => ?_⟩
  · obtain ⟨lists, items, hall⟩ := exists_prepareAll (fun index hindex d hd =>
      (hs.holds index d hd).again (mem_reportIndices.1 hindex)) 0 (fun _ => none)
    refine @exists_restores b _ items lists hblob ?_
    rw [checkSnapshot_snapshotOf, hall]
  · cases ht with
    | @loaded io lists now files n hload =>
      obtain ⟨data, items, hfile, hcheck, hsettings⟩ := settings_loadSnapshot hload
      obtain rfl := Option.some.inj hfile
      rw [checkSnapshot_snapshotOf] at hcheck
      cases hall : prepareAll lists s (reportIndices b) 0 (fun _ => none) with
      | error e =>
        rw [hall] at hcheck
        cases hcheck
      | ok items' =>
        rw [hall] at hcheck
        obtain rfl := Except.ok.inj hcheck
        have hitem := (prepareAll_spec (nodup_reportIndices b) hall).2 index
          (mem_reportIndices.2 hindex)
        rw [hsettings index hindex]
        unfold State.savedSettings
        cases hd : (s.reports index).definition with
        | none =>
          rw [hd] at hitem
          rw [if_pos rfl, show items' index = none from hitem]
          rfl
        | some d =>
          rw [hd] at hitem
          obtain ⟨d', hd', heq⟩ := hitem
          obtain ⟨-, hfields, hclass⟩ := prepareDefinition_eq_ok_iff.1 hd'
          rw [if_neg (by simp), heq]
          show Restored.settings (restoredAs s index d') = _
          unfold Restored.settings restoredAs State.settings
          dsimp only
          rw [show d'.entries = d.entries from (layOut_ok hfields).2, hclass, Interval.ofMs_ms, hd]
          rfl
    | absent h => cases h

end KfswServices.Hk
