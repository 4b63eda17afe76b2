/-
# Loading what was saved

A snapshot that `save_snapshot` writes passes the checks of `load_snapshot` whenever its definitions
can be prepared (`checkSnapshot_snapshotOf`), a store file passes those of
`kfsw_hk_store_restore_prepare` if and only if it is whole (`prepareFile_iff`), and what passes is
what the reports, stores and beacons become (`commitRestored_spec`).

With parameters of this node only the settings that were saved are those that are loaded, in any
state that the changes of the settings reach (`settings_file`).
-/

import KfswServices.Hk.Persist

namespace KfswServices.Hk

open Library
open Function (update update_of_ne update_self)
open Param (Info Stop readAt_of_le)

variable {b : Build}

/-! ### The snapshot passes -/

theorem nodup_reportIndices (b : Build) : (reportIndices b).Nodup := by
  have hrange := b.reports_range
  refine List.Nodup.map_on (fun i hi j hj h => ?_) List.nodup_range
  have hi' := List.mem_range.1 hi
  have hj' := List.mem_range.1 hj
  have hnat := congrArg UInt8.toNat h
  rw [UInt8.toNat_ofNat', UInt8.toNat_ofNat', Nat.mod_eq_of_lt (by omega),
    Nat.mod_eq_of_lt (by omega)] at hnat
  exact hnat

@[simp] theorem mem_reportIndices {index : UInt8} :
    index ∈ reportIndices b ↔ index.toNat < b.reports := by
  have hrange := b.reports_range
  constructor
  · intro h
    obtain ⟨i, hi, rfl⟩ := List.mem_map.1 h
    have hi' := List.mem_range.1 hi
    rw [UInt8.toNat_ofNat', Nat.mod_eq_of_lt (by omega)]
    exact hi'
  · intro h
    exact List.mem_map.2 ⟨index.toNat, List.mem_range.2 h, UInt8.ofNat_toNat⟩

/-- A snapshot has no more reports than there are, and no report is longer than it may be. -/
theorem length_snapshotReports_le (s : State b) (indices : List UInt8) :
    (snapshotReports s indices).length ≤ indices.length ∧
      (snapshotReports s indices).flatten.length ≤
        indices.length * (reportHeaderSize persistVersion + b.entries * persistEntrySize) := by
  induction indices with
  | nil => exact ⟨le_rfl, Nat.zero_le _⟩
  | cons index indices ih =>
    obtain ⟨hcount, hsize⟩ := ih
    cases hd : (s.reports index).definition with
    | none =>
      simp only [snapshotReports, hd, List.length_cons, Nat.add_mul]
      omega
    | some d =>
      have hle : d.entries.length ≤ b.entries := by
        rw [show d.entries.length = d.fields.length from List.length_map _]
        exact d.entries_le
      have hfirst : (reportBytes s index d).length ≤
          reportHeaderSize persistVersion + b.entries * persistEntrySize := by
        rw [length_reportBytes]
        show 17 + d.entries.length * 4 ≤ 17 + b.entries * 4
        omega
      simp only [snapshotReports, hd, List.length_cons, List.flatten_cons, List.length_append,
        Nat.add_mul]
      omega

theorem length_snapshotBytes (reports : List (List UInt8)) (checksum : UInt32) :
    (snapshotBytes reports checksum).length = persistHeaderSize + reports.flatten.length := by
  unfold snapshotBytes
  simp only [List.length_append, List.length_cons, length_putBe16, length_putBe32, List.length_nil]
  show _ = 12 + _
  omega

/-- A snapshot fits into `blob`. -/
theorem length_snapshotOf_le (s : State b) :
    persistHeaderSize ≤ (snapshotOf s).length ∧ (snapshotOf s).length ≤ persistMaxSize b := by
  have hlen := (length_snapshotReports_le s (reportIndices b)).2
  have hreports : (reportIndices b).length = b.reports := by simp [reportIndices]
  rw [hreports] at hlen
  unfold snapshotOf persistMaxSize
  rw [length_snapshotBytes]
  omega

/-- The header of a snapshot, and the reports behind it. -/
theorem snapshotBytes_split (reports : List (List UInt8)) (checksum : UInt32) :
    ∃ header, snapshotBytes reports checksum = header ++ reports.flatten ∧
      header.length = persistHeaderSize :=
  ⟨persistMagic ++ (persistVersion :: 0 :: (putBe16 (UInt16.ofNat reports.length) ++
    putBe32 checksum)), by simp [snapshotBytes], by simp⟩

/-- The fields of the header, and what clearing the checksum makes of it. -/
theorem snapshotBytes_header (reports : List (List UInt8)) (checksum : UInt32) :
    region (snapshotBytes reports checksum) 0 4 = persistMagic ∧
      region (snapshotBytes reports checksum) 4 1 = [persistVersion] ∧
      region (snapshotBytes reports checksum) 5 1 = [0] ∧
      getBe16 (region (snapshotBytes reports checksum) 6 2) = UInt16.ofNat reports.length ∧
      getBe32 (region (snapshotBytes reports checksum) persistCrcOffset 4) = checksum ∧
      splice 0 (snapshotBytes reports checksum) persistCrcOffset (putBe32 0) =
        snapshotBytes reports 0 := by
  obtain ⟨n₁, n₂, hcount, hgetCount⟩ := exists_putBe16 (UInt16.ofNat reports.length)
  obtain ⟨c₁, c₂, c₃, c₄, hcrc, hgetCrc⟩ := exists_putBe32 checksum
  unfold snapshotBytes
  rw [hcount, hcrc]
  refine ⟨rfl, rfl, rfl, hgetCount [], hgetCrc [], ?_⟩
  simp [splice, putBe32, putBe]
  show 8 - _ = 0
  omega

/-- **What `save_snapshot` writes passes**, if its definitions can be prepared. -/
theorem checkSnapshot_snapshotOf (lists : ℕ → Listings) (s : State b) :
    checkSnapshot b lists (snapshotOf s) =
      match prepareAll lists s (reportIndices b) 0 (fun _ => none) with
      | .error e => .error (.errno e)
      | .ok items => .ok items := by
  have hrange := b.reports_range
  have hcount := (length_snapshotReports_le s (reportIndices b)).1
  have hreports : (reportIndices b).length = b.reports := by simp [reportIndices]
  rw [hreports] at hcount
  have hlen : 12 ≤ (snapshotOf s).length := (length_snapshotOf_le s).1
  unfold checkSnapshot
  rw [readAt_of_le (by omega), readAt_of_le (by omega), readAt_of_le (by omega),
    readAt_of_le (by omega), readAt_of_le (by show 8 + 4 ≤ _; omega)]
  unfold snapshotOf
  dsimp only [bind, Except.bind]
  obtain ⟨hmagic, hversion, hreserved, hnumber, hcrc, hcleared⟩ := snapshotBytes_header
    (snapshotReports s (reportIndices b))
    (crc32 (snapshotBytes (snapshotReports s (reportIndices b)) 0))
  have hnumber' : (UInt16.ofNat (snapshotReports s (reportIndices b)).length).toNat =
      (snapshotReports s (reportIndices b)).length := by
    rw [UInt16.toNat_ofNat']
    exact Nat.mod_eq_of_lt (by omega)
  obtain ⟨header, hsplit, hheader⟩ := snapshotBytes_split (snapshotReports s (reportIndices b)) 0
  have hload := loadReports_snapshot lists s (fun _ h => mem_reportIndices.1 h)
    (nodup_reportIndices b) header [] 0 (fun _ => none) (fun _ _ => rfl)
  rw [List.append_nil, ← hsplit, hheader] at hload
  rw [hmagic, hversion, hreserved, hnumber, hcrc, hcleared, hnumber', if_neg (not_not.2 rfl),
    if_neg (fun h => h.1 rfl), if_neg (not_not.2 rfl), if_neg (by
      rintro (h | h)
      · omega
      · exact h rfl), show [persistVersion].headD 0 = persistVersion from rfl, hload]
  cases prepareAll lists s (reportIndices b) 0 (fun _ => none) with
  | error e => rfl
  | ok items =>
    dsimp only
    rw [length_snapshotBytes, if_neg (not_not.2 rfl)]

variable {io : LoadIo}

/-- The file is read into `blob` as it was saved, if nothing fails. -/
theorem blob_snapshotOf (hready : io.ready = true) (hstat : io.stat = none)
    (hopened : io.opened = none) (hcomplete : io.complete = true) (s : State b) :
    io.blob b (some (snapshotOf s)) = .ok (snapshotOf s) := by
  obtain ⟨hmin, hmax⟩ := length_snapshotOf_le s
  unfold LoadIo.blob
  rw [hready, hstat, hopened, hcomplete]
  have hsize : ¬ ((snapshotOf s).length < persistHeaderSize ∨
      (snapshotOf s).length > persistMaxSize b) := by omega
  exact (if_neg (by simp)).trans (if_neg hsize)

/-! ### Whole store files -/

/-- A slot of a store file is empty, or has a record of its own. -/
def SlotWhole (b : Build) (report : UInt8) (recordSize : ℕ) (file : List UInt8) (slot : ℕ) : Prop :=
  let sample := region file (slotOffset recordSize slot) recordSize
  sample.headD 0 = 0 ∨ (sample.headD 0 = protocolVersion ∧ sample.getD 1 0 = report ∧
    slotOf b (getBe16 (sample.drop 2)) = slot)

/-- **A store file is whole**: the header is that of the store, and behind it there are whole slots,
no more than the capacity. -/
structure Whole (b : Build) (report : UInt8) (recordSize : ℕ) (file : List UInt8) : Prop where
  header : headerOf b report recordSize (file.take storeHeaderSize) = true
  slots : ∃ count ≤ b.storeCapacity, file.length = slotOffset recordSize count ∧
    ∀ slot < count, SlotWhole b report recordSize file slot

variable {recordSize : ℕ}

/-- A slot ends where a later one begins, or before. -/
theorem slotOffset_add_le {i j : ℕ} (h : i < j) :
    slotOffset recordSize i + recordSize ≤ slotOffset recordSize j := by
  have hmul := Nat.mul_le_mul_right recordSize (show i + 1 ≤ j from h)
  rw [Nat.add_mul] at hmul
  unfold slotOffset
  omega

/-- The slots that are still to come are whole, and end where the file does. -/
def RestWhole (b : Build) (report : UInt8) (recordSize : ℕ) (file : List UInt8) (slot : ℕ) : Prop :=
  ∃ count ≤ b.storeCapacity, slot ≤ count ∧ file.length = slotOffset recordSize count ∧
    ∀ i, slot ≤ i → i < count → SlotWhole b report recordSize file i

variable {report : UInt8}

/-- Behind a whole slot. -/
theorem restWhole_succ {file : List UInt8} {slot : ℕ}
    (hend : file.length ≠ slotOffset recordSize slot)
    (hslot : SlotWhole b report recordSize file slot) :
    RestWhole b report recordSize file (slot + 1) ↔ RestWhole b report recordSize file slot := by
  constructor
  · rintro ⟨count, hcount, hle, hlen, hwhole⟩
    refine ⟨count, hcount, by omega, hlen, fun i hi hlt => ?_⟩
    rcases Nat.eq_or_lt_of_le hi with rfl | hi
    · exact hslot
    · exact hwhole i hi hlt
  · rintro ⟨count, hcount, hle, hlen, hwhole⟩
    have hne : slot ≠ count := by
      rintro rfl
      exact hend hlen
    exact ⟨count, hcount, by omega, hlen, fun i hi hlt => hwhole i (by omega) hlt⟩

/-- **The loop over the slots** accepts those that are whole. -/
theorem prepareSlots_iff {file : List UInt8} (hsize : 0 < recordSize) {turns slot : ℕ}
    (newest : Option UInt16) (hturns : turns + slot = b.storeCapacity + 1)
    (hslot : slot ≤ b.storeCapacity) (hfile : slotOffset recordSize slot ≤ file.length) :
    (prepareSlots b report recordSize (fun _ => none) file turns slot newest).1 = none ↔
      RestWhole b report recordSize file slot := by
  induction turns generalizing slot newest with
  | zero => omega
  | succ turns ih =>
    have hlen := length_region file (slotOffset recordSize slot) recordSize
    unfold prepareSlots
    dsimp only
    by_cases hend : file.length = slotOffset recordSize slot
    · rw [if_pos (by omega)]
      exact iff_of_true rfl ⟨slot, hslot, le_rfl, hend, fun i hi hlt => absurd hlt (by omega)⟩
    · rw [if_neg (by omega)]
      by_cases hshort : (region file (slotOffset recordSize slot) recordSize).length ≠ recordSize ∨
          slot = b.storeCapacity
      · rw [if_pos hshort]
        refine iff_of_false (by simp) ?_
        rintro ⟨count, hcount, hle, hcl, -⟩
        have hlt : slot < count := by
          rcases Nat.eq_or_lt_of_le hle with rfl | hlt
          · exact absurd hcl hend
          · exact hlt
        have hbehind := @slotOffset_add_le recordSize _ _ hlt
        omega
      · have hfull : slotOffset recordSize (slot + 1) ≤ file.length := by
          have hnext : slotOffset recordSize (slot + 1) = slotOffset recordSize slot + recordSize := by
            unfold slotOffset
            rw [Nat.add_mul]
            omega
          omega
        have hrest := fun newest => @ih (slot + 1) newest (by omega) (by omega) hfull
        rw [if_neg hshort]
        by_cases hempty : (region file (slotOffset recordSize slot) recordSize).headD 0 = 0
        · rw [if_pos hempty, hrest, restWhole_succ hend (Or.inl hempty)]
        · rw [if_neg hempty]
          split_ifs with hforeign
          · refine iff_of_false (by simp) ?_
            rintro ⟨count, hcount, hle, hcl, hwhole⟩
            have hlt : slot < count := by
              rcases Nat.eq_or_lt_of_le hle with rfl | hlt
              · exact absurd hcl hend
              · exact hlt
            obtain ⟨hversion, hreport, hown⟩ := (hwhole slot le_rfl hlt).resolve_left hempty
            rcases hforeign with h | h | h
            · exact h hversion
            · exact h hreport
            · exact h hown
          · simp only [not_or, not_not] at hforeign
            rw [hrest, restWhole_succ hend (Or.inr hforeign)]

/-- **A store file is accepted if and only if it is whole**, when it is read and closed. -/
theorem prepareFile_iff {file : List UInt8} (hsize : 0 < recordSize) :
    (prepareFile b .working report recordSize file).1 = none ↔ Whole b report recordSize file := by
  unfold prepareFile
  dsimp only
  by_cases hheader : headerOf b report recordSize (file.take storeHeaderSize) = true
  · have hlen : slotOffset recordSize 0 ≤ file.length := by
      have hlength : (file.take storeHeaderSize).length = storeHeaderSize :=
        (of_decide_eq_true hheader).1
      rw [List.length_take] at hlength
      unfold slotOffset
      omega
    have hread : ¬ ((ReadIo.working.reads 0).isSome = true ∨
        (!headerOf b report recordSize (file.take storeHeaderSize)) = true) := by
      rw [hheader]
      simp [ReadIo.working]
    have hslots : (prepareSlots b report recordSize ReadIo.working.reads file (b.storeCapacity + 1)
        0 none).1 = none ↔ RestWhole b report recordSize file 0 :=
      prepareSlots_iff hsize none rfl (Nat.zero_le _) hlen
    rw [if_neg hread]
    show (prepareSlots b report recordSize ReadIo.working.reads file (b.storeCapacity + 1) 0
      none).1.or none = none ↔ _
    rw [Option.or_none, hslots]
    constructor
    · rintro ⟨count, hcount, -, hcl, hwhole⟩
      exact ⟨hheader, count, hcount, hcl, fun i hi => hwhole i (Nat.zero_le i) hi⟩
    · rintro ⟨-, count, hcount, hcl, hwhole⟩
      exact ⟨count, hcount, Nat.zero_le _, hcl, fun i _ hi => hwhole i hi⟩
  · have hrefused : (ReadIo.working.reads 0).isSome = true ∨
        (!headerOf b report recordSize (file.take storeHeaderSize)) = true := by
      rw [Bool.eq_false_iff.2 hheader]
      simp
    rw [if_pos hrefused]
    exact iff_of_false (by simp) fun h => hheader h.header

/-! ### The stores are prepared -/

/-- What a store is prepared as, when nothing fails. -/
def preparedStore (interval : Interval b.storeFloor) (period : UInt32) (recordSize : ℕ) :
    StoreState b :=
  if interval.ms = 0 then ⟨.off, 0, 0, 0, false⟩ else restoredStore interval period recordSize

/-- An interval of 0 is none. -/
theorem Interval.eq_off {floor : ℕ} {i : Interval floor} (h : i.ms = 0) : i = .off := by
  cases i
  cases h
  rfl

theorem preparedStore_interval (interval : Interval b.storeFloor) (period : UInt32)
    (recordSize : ℕ) : (preparedStore interval period recordSize).interval = interval := by
  unfold preparedStore
  split_ifs with hoff
  · exact (Interval.eq_off hoff).symm
  · rfl

variable {file : Option (List UInt8)} {interval : Interval b.storeFloor}

/-- Without an interval there is nothing to prepare. -/
theorem restorePrepare_off {mkdir : Option Errno} {create : WriteIo} {io : ReadIo}
    {period : UInt32} (hoff : interval.ms = 0) :
    (restorePrepare mkdir create io report interval period recordSize file).1 = .returned none := by
  unfold restorePrepare
  rw [if_pos hoff]

/-- **A file that is there is accepted if and only if it is whole.** -/
theorem restorePrepare_file {mkdir : Option Errno} {create : WriteIo} {period : UInt32}
    {file : List UInt8} (hon : interval.ms ≠ 0) (hsize : 0 < recordSize) :
    (restorePrepare mkdir create .working report interval period recordSize (some file)).1 =
      .returned none ↔ Whole b report recordSize file := by
  have hfile := @prepareFile_iff b recordSize report file hsize
  have hopen : openExisting ReadIo.working.opened (some file) = .ok file := rfl
  unfold restorePrepare
  rw [if_neg hon, hopen]
  dsimp only
  rcases hprepare : prepareFile b .working report recordSize file with ⟨_ | e, newest⟩
  · rw [hprepare] at hfile
    exact iff_of_true rfl (hfile.1 rfl)
  · rw [hprepare] at hfile
    exact iff_of_false (by simp) fun h => by cases hfile.2 h

/-- What is prepared, it is prepared as. -/
theorem restorePrepare_store {mkdir : Option Errno} {create : WriteIo} {io : ReadIo}
    {period : UInt32}
    (h : (restorePrepare mkdir create io report interval period recordSize file).1 =
      .returned none) :
    (restorePrepare mkdir create io report interval period recordSize file).2.1.1 =
      preparedStore interval period recordSize := by
  revert h
  unfold restorePrepare preparedStore
  dsimp only
  by_cases hoff : interval.ms = 0
  · rw [if_pos hoff, if_pos hoff]
    exact fun _ => rfl
  · rw [if_neg hoff, if_neg hoff]
    split
    · split
      · exact fun _ => rfl
      · rename_i hne _
        exact fun h => (hne h).elim
    · intro h
      cases h
    · split
      · intro h
        cases h
      · exact fun _ => rfl

/-- **All stores are prepared** if and only if each of them is. -/
theorem prepareStores_spec (io : LoadIo) (items : UInt8 → Option (Restored b))
    {indices : List UInt8} (hnodup : indices.Nodup) (prepared : Prepared b)
    (files : UInt8 → Option (List UInt8)) :
    ((prepareStores io items indices prepared files).1 = .returned none ↔
      ∀ index ∈ indices, (prepareOne io items index (files index)).1 = .returned none) ∧
    ((prepareStores io items indices prepared files).1 = .returned none →
      ∀ index, (prepareStores io items indices prepared files).2.1.stores index =
          (if index ∈ indices then (prepareOne io items index (files index)).2.1.1
            else prepared.stores index) ∧
        (prepareStores io items indices prepared files).2.1.sequences index =
          (if index ∈ indices then (prepareOne io items index (files index)).2.1.2
            else prepared.sequences index)) := by
  induction indices generalizing prepared files with
  | nil => exact ⟨by simp [prepareStores], fun _ index => by simp [prepareStores]⟩
  | cons first indices ih =>
    obtain ⟨hnot, hnodup'⟩ := List.nodup_cons.1 hnodup
    unfold prepareStores
    rcases hone : prepareOne io items first (files first) with ⟨ended, ⟨st, sequence⟩, file⟩
    dsimp only
    obtain ⟨hiff, hvalues⟩ := ih hnodup' ⟨update prepared.stores first st,
      update prepared.sequences first sequence⟩ (update files first file)
    have hfiles : ∀ index ∈ indices, update files first file index = files index := by
      intro index hindex
      exact update_of_ne (by rintro rfl; exact hnot hindex) _ _
    rcases ended with (_ | e) | _
    · dsimp only
      refine ⟨?_, fun h index => ?_⟩
      · rw [hiff, List.forall_mem_cons, hone]
        refine ⟨fun h => ⟨rfl, fun index hindex => ?_⟩, fun h index hindex => ?_⟩
        · rw [← hfiles index hindex]
          exact h index hindex
        · rw [hfiles index hindex]
          exact h.2 index hindex
      · obtain ⟨hstore, hsequence⟩ := hvalues h index
        rw [hstore, hsequence]
        by_cases hfirst : index = first
        · subst hfirst
          rw [if_neg hnot, if_neg hnot, if_pos List.mem_cons_self, if_pos List.mem_cons_self, hone]
          exact ⟨update_self _ _ _, update_self _ _ _⟩
        · by_cases hindex : index ∈ indices
          · rw [if_pos hindex, if_pos hindex, if_pos (List.mem_cons_of_mem _ hindex),
              if_pos (List.mem_cons_of_mem _ hindex), hfiles index hindex]
            exact ⟨rfl, rfl⟩
          · rw [if_neg hindex, if_neg hindex, if_neg (by simp [hfirst, hindex]),
              if_neg (by simp [hfirst, hindex])]
            exact ⟨update_of_ne hfirst _ _, update_of_ne hfirst _ _⟩
    · refine ⟨iff_of_false (by simp) fun h => ?_, fun h => by cases h⟩
      have hfirst := h first List.mem_cons_self
      rw [hone] at hfirst
      cases hfirst
    · refine ⟨iff_of_false (by simp) fun h => ?_, fun h => by cases h⟩
      have hfirst := h first List.mem_cons_self
      rw [hone] at hfirst
      cases hfirst

/-! ### What is restored -/

/-- What a report is restored with. -/
def restoredBeacon (items : UInt8 → Option (Restored b)) (index : UInt8) : UInt16 × UInt32 :=
  (((items index).map (·.beaconNode)).getD 0, ((items index).map (·.beaconMs)).getD 0)

/-- A report that is restored, and the others. -/
theorem restoreReport_spec (s : State b) (index : UInt8) (definition : Option (Definition b))
    (period : Interval b.periodFloor) (sequence : UInt16) (now : ℤ) :
    ((s.restoreReport index definition period sequence now).reports index).definition = definition ∧
      ((s.restoreReport index definition period sequence now).reports index).period =
        (if definition.isSome then period else .off) ∧
      ((s.restoreReport index definition period sequence now).reports index).held = 0 ∧
      ∀ other, other ≠ index →
        (s.restoreReport index definition period sequence now).reports other = s.reports other := by
  unfold State.restoreReport State.countReports
  dsimp only
  rw [State.setReport_same]
  refine ⟨?_, ?_, ?_, fun other h => State.setReport_ne _ _ h⟩ <;> cases definition <;> rfl

/-- One report is restored, and no other one is touched. -/
theorem restoreOne_spec (items : UInt8 → Option (Restored b)) (prepared : Prepared b) (now : ℤ)
    (s : State b) (index : UInt8) :
    ((restoreOne items prepared now s index).reports index).definition =
        (items index).map (·.definition) ∧
      ((restoreOne items prepared now s index).reports index).period =
        ((items index).map (·.period)).getD .off ∧
      ((restoreOne items prepared now s index).reports index).held = 0 ∧ (∀ other, other ≠ index →
        (restoreOne items prepared now s index).reports other = s.reports other ∧
        (restoreOne items prepared now s index).beacons other = s.beacons other) ∧
      (restoreOne items prepared now s index).stores = s.stores ∧
      (index.toNat < b.reports → ∀ beacon : Beacon b,
        restoredBeacon items index = (beacon.node, beacon.interval.ms) →
          ((restoreOne items prepared now s index).beacons index).node = beacon.node ∧
          ((restoreOne items prepared now s index).beacons index).interval = beacon.interval) := by
  unfold restoreOne
  dsimp only
  generalize hr : s.restoreReport index ((items index).map (·.definition))
    (((items index).map (·.period)).getD .off) (prepared.sequences index) now = t
  obtain ⟨hreports, hstores, hbeacons⟩ := setBeaconImpl_frame t index
    (((items index).map (·.beaconNode)).getD 0) (((items index).map (·.beaconMs)).getD 0)
  obtain ⟨hdefinition, hperiod, hheld, hother⟩ := restoreReport_spec s index
    ((items index).map (·.definition)) (((items index).map (·.period)).getD .off)
    (prepared.sequences index) now
  rw [hr] at hdefinition hperiod hheld hother
  refine ⟨?_, ?_, ?_, fun other h => ⟨?_, ?_⟩, ?_, fun hindex beacon hbeacon => ?_⟩
  · rw [hreports, hdefinition]
  · rw [hreports, hperiod]
    cases items index <;> rfl
  · rw [hreports, hheld]
  · rw [hreports, hother other h]
  · rw [hbeacons other h, ← hr]
    rfl
  · rw [hstores, ← hr]
    rfl
  · obtain ⟨hnode, hms⟩ := Prod.ext_iff.1 hbeacon
    rw [show ((items index).map (·.beaconNode)).getD 0 = beacon.node from hnode,
      show ((items index).map (·.beaconMs)).getD 0 = beacon.interval.ms from hms,
      setBeaconImpl_admitted t hindex beacon]
    dsimp only
    rw [update_self]
    exact ⟨rfl, rfl⟩

/-- **What passes is what the settings become**, of every report there is; the others are left. -/
theorem commitRestored_spec (items : UInt8 → Option (Restored b)) (prepared : Prepared b) (now : ℤ)
    (s : State b) (index : UInt8) : (index.toNat < b.reports →
      ((commitRestored items prepared now s).reports index).definition =
          (items index).map (·.definition) ∧
        ((commitRestored items prepared now s).reports index).period =
          ((items index).map (·.period)).getD .off ∧
        ((commitRestored items prepared now s).reports index).held = 0 ∧
        (commitRestored items prepared now s).stores index = prepared.stores index ∧
        ∀ beacon : Beacon b, restoredBeacon items index = (beacon.node, beacon.interval.ms) →
          ((commitRestored items prepared now s).beacons index).node = beacon.node ∧
          ((commitRestored items prepared now s).beacons index).interval = beacon.interval) ∧
      (¬ index.toNat < b.reports →
        (commitRestored items prepared now s).reports index = s.reports index ∧
        (commitRestored items prepared now s).stores index = s.stores index) := by
  have hfold : ∀ (indices : List UInt8) (t : State b), indices.Nodup →
      (∀ i ∈ indices, i.toNat < b.reports) →
      (indices.foldl (restoreOne items prepared now) t).stores = t.stores ∧
      (index ∉ indices →
        (indices.foldl (restoreOne items prepared now) t).reports index = t.reports index ∧
        (indices.foldl (restoreOne items prepared now) t).beacons index = t.beacons index) ∧
      (index ∈ indices →
        ((indices.foldl (restoreOne items prepared now) t).reports index).definition =
            (items index).map (·.definition) ∧
          ((indices.foldl (restoreOne items prepared now) t).reports index).period =
            ((items index).map (·.period)).getD .off ∧
          ((indices.foldl (restoreOne items prepared now) t).reports index).held = 0 ∧
          ∀ beacon : Beacon b, restoredBeacon items index = (beacon.node, beacon.interval.ms) →
            ((indices.foldl (restoreOne items prepared now) t).beacons index).node = beacon.node ∧
              ((indices.foldl (restoreOne items prepared now) t).beacons index).interval =
                beacon.interval) := by
    intro indices
    induction indices with
    | nil => exact fun t _ _ => ⟨rfl, fun _ => ⟨rfl, rfl⟩, fun h => by cases h⟩
    | cons first indices ih =>
      intro t hnodup hin
      obtain ⟨hnot, hnodup'⟩ := List.nodup_cons.1 hnodup
      obtain ⟨hdefinition, hperiod, hheld, hother, hstores, hbeacon⟩ :=
        restoreOne_spec items prepared now t first
      obtain ⟨ihstores, ihout, ihin⟩ := ih (restoreOne items prepared now t first) hnodup'
        fun i hi => hin i (List.mem_cons_of_mem _ hi)
      rw [List.foldl_cons]
      refine ⟨ihstores.trans hstores, fun h => ?_, fun h => ?_⟩
      · obtain ⟨hne, hrest⟩ := not_or.1 (mt List.mem_cons.2 h)
        obtain ⟨hreports', hbeacons'⟩ := ihout hrest
        rw [hreports', hbeacons']
        exact hother index hne
      · rcases List.mem_cons.1 h with rfl | hrest
        · obtain ⟨hreports', hbeacons'⟩ := ihout hnot
          rw [hreports', hbeacons']
          exact ⟨hdefinition, hperiod, hheld, hbeacon (hin index List.mem_cons_self)⟩
        · exact ihin hrest
  obtain ⟨hstores, hout, hin⟩ := hfold (reportIndices b) s (nodup_reportIndices b)
    fun i hi => mem_reportIndices.1 hi
  refine ⟨fun hindex => ?_, fun hindex => ?_⟩
  · obtain ⟨hdefinition, hperiod, hheld, hbeacon⟩ := hin (mem_reportIndices.2 hindex)
    exact ⟨hdefinition, hperiod, hheld, if_pos hindex, hbeacon⟩
  · have hreports := (hout (mt mem_reportIndices.1 hindex)).1
    exact ⟨hreports, (if_neg hindex).trans (congrFun hstores index)⟩

/-- What the store of a report is, in a load that returns `0`. -/
def storeOf (items : UInt8 → Option (Restored b)) (index : UInt8) : StoreState b :=
  preparedStore (((items index).map (·.store)).getD .off) (((items index).map (·.period.ms)).getD 0)
    (headerSize + ((items index).map (·.definition.payloadBytes)).getD 0)

variable {lists : ℕ → Listings}

/-- **What a load does that returns `0`**: it commits what passes the checks. -/
theorem loadSnapshot_ok {now : ℤ} {before : Prepared b} {n m : Node b}
    (h : loadSnapshot io lists now before file n = (.ended (.returned none), m)) :
    ∃ data items prepared, file = some data ∧ checkSnapshot b lists data = .ok items ∧
      m.state = commitRestored items prepared now n.state ∧
      ∀ index : UInt8, index.toNat < b.reports → prepared.stores index = storeOf items index := by
  unfold loadSnapshot at h
  cases hblob : io.blob b file with
  | error e =>
    rw [hblob] at h
    cases h
  | ok data =>
    rw [hblob] at h
    dsimp only at h
    cases hcheck : checkSnapshot b lists data with
    | error e => cases e <;> · rw [hcheck] at h; cases h
    | ok items =>
      rw [hcheck] at h
      dsimp only at h
      obtain ⟨hiff, hvalues⟩ := prepareStores_spec io items (nodup_reportIndices b) before n.files
      rcases hprepare : prepareStores io items (reportIndices b) before n.files with
        ⟨ended, prepared, files'⟩
      rw [hprepare] at h hiff hvalues
      rcases ended with (_ | e) | _
      · obtain ⟨-, rfl⟩ := Prod.ext_iff.1 h
        refine ⟨data, items, prepared, (io.blob_ok hblob).1, hcheck, rfl, fun index hindex => ?_⟩
        have hstored := (hvalues rfl index).1
        rw [if_pos (mem_reportIndices.2 hindex)] at hstored
        exact hstored.trans (restorePrepare_store (hiff.1 rfl index (mem_reportIndices.2 hindex)))
      · cases h
      · cases h

/-! ### What passes was prepared -/

/-- A definition is laid out with the parameters that this node has. -/
def LaidWith (registry : Except Errno (List Info)) (d : Definition b) : Prop :=
  ∃ lists : Listings, lists.registry = registry ∧ layOut b lists 0 headerSize d.entries = .ok d.fields

/-- What is prepared is laid out. -/
theorem laidWith_of_prepared {lists : Listings} {entries : List Entry}
    {retrievalClass : { c : UInt8 // c ≤ classMax }} {d : Definition b}
    (h : prepareDefinition b lists report entries retrievalClass = .ok d) :
    LaidWith lists.registry d := by
  obtain ⟨-, hfields, -⟩ := prepareDefinition_eq_ok_iff.1 h
  refine ⟨lists, rfl, ?_⟩
  rw [show d.entries = entries from (layOut_ok hfields).2]
  exact hfields

/-- With entries of this node only, what is laid out once is laid out again. -/
theorem layOut_congr {lists lists' : Listings} (hregistry : lists.registry = lists'.registry)
    {entries : List Entry} (hlocal : ∀ entry ∈ entries, entry.node = nodeLocal) (index offset : ℕ) :
    layOut b lists index offset entries = layOut b lists' index offset entries := by
  induction entries generalizing index offset with
  | nil => rfl
  | cons entry entries ih =>
    have hwidth : entryDeclaredWidth b lists index entry = entryDeclaredWidth b lists' index entry := by
      unfold entryDeclaredWidth
      rw [hlocal entry List.mem_cons_self, if_pos rfl, if_pos rfl, hregistry]
    have hrest := ih fun e he => hlocal e (List.mem_cons_of_mem _ he)
    unfold layOut
    rw [hwidth]
    cases entryDeclaredWidth b lists' index entry with
    | error e => rfl
    | ok width =>
      dsimp only
      rw [hrest]

variable {data : List UInt8} {items : UInt8 → Option (Restored b)}

/-- **A report that passes** has passed every check, and its definition was prepared. -/
theorem loadReport_ok {lists : Listings} {version : UInt8} {offset : ℕ}
    {loaded : (UInt8 × Restored b) × ℕ}
    (h : loadReport b lists version data items offset = .ok loaded) :
    ∃ raw entries, ∃ hclass : raw.retrievalClass ≤ classMax,
      readHead version data offset = .ok raw ∧
      readEntries data raw.count.toNat (offset + reportHeaderSize version) = .ok entries ∧
      ¬ beaconRefused b raw ∧ Interval.ofMs raw.periodMs = some loaded.1.2.period ∧
      Interval.ofMs raw.storeMs = some loaded.1.2.store ∧
      prepareDefinition b lists raw.report entries ⟨raw.retrievalClass, hclass⟩ =
        .ok loaded.1.2.definition ∧
      loaded.1.2.beaconNode = raw.beaconNode ∧ loaded.1.2.beaconMs = raw.beaconMs ∧
      loaded.1.1 = raw.report ∧
      loaded.2 = offset + reportHeaderSize version + raw.count.toNat * persistEntrySize := by
  unfold loadReport at h
  obtain ⟨-, h⟩ := ite_error_eq_ok.1 h
  split at h
  · cases h
  · rename_i raw hraw
    obtain ⟨-, h⟩ := ite_error_eq_ok.1 h
    split at h
    · rename_i period store hperiod hstore
      obtain ⟨hbeacon, h⟩ := ite_error_eq_ok.1 h
      split_ifs at h with hclass
      obtain ⟨-, h⟩ := ite_error_eq_ok.1 h
      split at h
      · cases h
      · rename_i entries hentries
        split at h
        · cases h
        · rename_i d hd
          obtain rfl := Except.ok.inj h
          exact ⟨raw, entries, hclass, hraw, hentries, hbeacon, hperiod, hstore, hd, rfl, rfl, rfl,
            rfl⟩
    · cases h

/-- What holds of each report that passes holds of all that do. -/
theorem loadReports_forall {P : Restored b → Prop} {version : UInt8}
    (hP : ∀ turn items offset loaded,
      loadReport b (lists turn) version data items offset = .ok loaded → P loaded.1.2)
    {turns turn : ℕ} {offset : ℕ} {loaded : _ × ℕ}
    (hitems : ∀ index item, items index = some item → P item)
    (h : loadReports b lists version data turns turn items offset = .ok loaded) :
    ∀ index item, loaded.1 index = some item → P item := by
  induction turns generalizing turn items offset with
  | zero =>
    obtain rfl := Except.ok.inj h
    exact hitems
  | succ turns ih =>
    unfold loadReports at h
    cases hreport : loadReport b (lists turn) version data items offset with
    | error e =>
      rw [hreport] at h
      cases h
    | ok first =>
      rw [hreport] at h
      refine ih (fun index item hitem => ?_) h
      by_cases hindex : index = first.1.1
      · subst hindex
        rw [update_self] at hitem
        obtain rfl := Option.some.inj hitem
        exact hP _ _ _ _ hreport
      · rw [update_of_ne hindex] at hitem
        exact hitems index item hitem

/-- **What passes the checks** has passed the loop, to the end of the file. -/
theorem checkSnapshot_ok (h : checkSnapshot b lists data = .ok items) :
    ∃ version expected offset, Param.readAt data 4 1 = .ok version ∧
      Param.readAt data 6 2 = .ok expected ∧
      loadReports b lists (version.headD 0) (splice 0 data persistCrcOffset (putBe32 0))
        (getBe16 expected).toNat 0 (fun _ => none) persistHeaderSize = .ok (items, offset) := by
  unfold checkSnapshot at h
  obtain ⟨magic, -, h⟩ := bind_eq_ok.1 h
  obtain ⟨version, hversion, h⟩ := bind_eq_ok.1 h
  obtain ⟨reserved, -, h⟩ := bind_eq_ok.1 h
  obtain ⟨expected, hexpected, h⟩ := bind_eq_ok.1 h
  obtain ⟨checksum, -, h⟩ := bind_eq_ok.1 h
  obtain ⟨-, h⟩ := ite_error_eq_ok.1 h
  obtain ⟨-, h⟩ := ite_error_eq_ok.1 h
  obtain ⟨-, h⟩ := ite_error_eq_ok.1 h
  obtain ⟨-, h⟩ := ite_error_eq_ok.1 h
  obtain ⟨⟨items', offset⟩, hload, h⟩ := bind_eq_ok.1 h
  obtain ⟨-, h⟩ := ite_error_eq_ok.1 h
  obtain rfl := Except.ok.inj h
  exact ⟨version, expected, offset, hversion, hexpected, hload⟩

/-- What holds of each report that passes holds of all of a file that does. -/
theorem checkSnapshot_forall {P : Restored b → Prop} (hP : ∀ turn version data items offset loaded,
      loadReport b (lists turn) version data items offset = .ok loaded → P loaded.1.2)
    (h : checkSnapshot b lists data = .ok items) :
    ∀ index item, items index = some item → P item := by
  obtain ⟨version, expected, offset, -, -, hload⟩ := checkSnapshot_ok h
  exact loadReports_forall (fun turn => hP turn _ _) (fun _ _ hnone => by cases hnone) hload

/-- **What passes the checks is laid out.** -/
theorem checkSnapshot_laid {registry : Except Errno (List Info)}
    (hlists : ∀ turn, (lists turn).registry = registry)
    (h : checkSnapshot b lists data = .ok items) :
    ∀ index item, items index = some item → LaidWith registry item.definition := by
  refine checkSnapshot_forall (fun turn version data items offset loaded hload => ?_) h
  obtain ⟨raw, entries, hclass, -, -, -, -, -, hd, -⟩ := loadReport_ok hload
  rw [← hlists turn]
  exact laidWith_of_prepared hd

/-! ### The settings, in any state -/

/-- What holds of the settings wherever they come from: a report that is not defined has no period
and no store, and one that is defined is laid out with the parameters of this node. -/
structure Settled (registry : Except Errno (List Info)) (s : State b) : Prop where
  undefined : ∀ index, (s.reports index).definition = none →
    (s.reports index).period = .off ∧ (s.stores index).interval = .off
  laid : ∀ index d, (s.reports index).definition = some d → LaidWith registry d

/-- What goes on besides leaves the settings as they are. -/
structure KeepsSettings (s s' : State b) : Prop where
  definition : ∀ index, (s'.reports index).definition = (s.reports index).definition
  period : ∀ index, (s'.reports index).period = (s.reports index).period
  store : ∀ index, (s'.stores index).interval = (s.stores index).interval
  beacon : ∀ index, (s'.beacons index).node = (s.beacons index).node ∧
    (s'.beacons index).interval = (s.beacons index).interval

/-- What happens to the settings of a node with some parameters: changes, loads, and the rest. -/
inductive SettingsStep (registry : Except Errno (List Info)) : State b → State b → Prop
  | change {s : State b} (c : Change b) (h : c.Asks registry) :
      SettingsStep registry s (c.apply s).2
  | load {s : State b} {n : Node b} {io : LoadIo} {lists : ℕ → Listings} {now : ℤ}
      {before : Prepared b} {file : Option (List UInt8)} {files : UInt8 → Option (List UInt8)}
      (hlists : ∀ turn, (lists turn).registry = registry)
      (h : loadSnapshot io lists now before file ⟨s, files⟩ = (.ended (.returned none), n)) :
      SettingsStep registry s n.state
  | other {s s' : State b} (h : KeepsSettings s s') : SettingsStep registry s s'

variable {registry : Except Errno (List Info)} {s s' : State b}

/-- What holds of the settings, where a definition that is prepared is of a kind. -/
structure SettledBy (P : Definition b → Prop) (s : State b) : Prop where
  undefined : ∀ index, (s.reports index).definition = none →
    (s.reports index).period = .off ∧ (s.stores index).interval = .off
  holds : ∀ index d, (s.reports index).definition = some d → P d

theorem settled_iff : Settled registry s ↔ SettledBy (LaidWith registry) s :=
  ⟨fun h => ⟨h.undefined, h.laid⟩, fun h => ⟨h.undefined, h.holds⟩⟩

/-- The definition that a change prepares. -/
def Change.Prepares (d : Definition b) : Change b → Prop
  | .define own lists report entries retrievalClass _ =>
    ∃ hclass, prepareDefinition b lists report (State.nameLocalEntries own entries)
      ⟨retrievalClass, hclass⟩ = .ok d
  | _ => False

theorem laidWith_of_change {c : Change b} {d : Definition b} (hasks : c.Asks registry)
    (h : c.Prepares d) : LaidWith registry d := by
  cases c with
  | define own lists report entries retrievalClass now =>
    obtain ⟨hclass, hd⟩ := h
    rw [← show lists.registry = registry from hasks]
    exact laidWith_of_prepared hd
  | _ => exact h.elim

variable {P : Definition b → Prop}

theorem settledBy_reset (P : Definition b → Prop) : SettledBy P (State.reset b) :=
  ⟨fun _ _ => ⟨rfl, rfl⟩, fun _ _ h => by cases h⟩

section

variable (h : SettledBy P s)
include h

/-- A report changes, and its store; the others do not. -/
theorem SettledBy.change (hother : ∀ other, other ≠ report → s'.reports other = s.reports other ∧
      s'.stores other = s.stores other) (hundefined : (s'.reports report).definition = none →
      (s'.reports report).period = .off ∧ (s'.stores report).interval = .off)
    (hholds : ∀ d, (s'.reports report).definition = some d → P d) : SettledBy P s' := by
  refine ⟨fun index hnone => ?_, fun index d hd => ?_⟩
  · by_cases hindex : index = report
    · subst hindex
      exact hundefined hnone
    · obtain ⟨hreport, hstore⟩ := hother index hindex
      rw [hreport] at hnone ⊢
      rw [hstore]
      exact h.undefined index hnone
  · by_cases hindex : index = report
    · subst hindex
      exact hholds d hd
    · rw [(hother index hindex).1] at hd
      exact h.holds index d hd

/-- A report that is cleared. -/
theorem SettledBy.clear (report : UInt8) : SettledBy P (s.clear report) := by
  obtain ⟨hreport, hstore⟩ := clear_same s report
  refine h.change (fun other hne => clear_ne s hne) (fun _ => ?_) fun d hd => ?_
  · rw [hreport, hstore]
    exact ⟨rfl, rfl⟩
  · rw [hreport] at hd
    cases hd

/-- **A change keeps what holds of the settings.** -/
theorem SettledBy.apply (c : Change b) (hP : ∀ d, c.Prepares d → P d) :
    SettledBy P (c.apply s).2 := by
  cases c with
  | define own lists report entries retrievalClass now =>
    show SettledBy P (s.defineImpl own lists report entries retrievalClass now).2
    rcases defineImpl_cases own lists report entries retrievalClass now s with
      heq | heq | ⟨hclass, d, hd, heq⟩
    · rw [heq]
      exact h
    · rw [heq]
      exact h.clear report
    · obtain ⟨hdefined, -, -, -⟩ := define_same s report d now
      rw [heq]
      refine h.change (fun other hne => define_ne s d now hne) (fun hnone => ?_) fun d' hd' => ?_
      · rw [hdefined] at hnone
        cases hnone
      · obtain rfl := Option.some.inj (hdefined.symm.trans hd')
        exact hP d ⟨hclass, hd⟩
  | clear report =>
    show SettledBy P (s.clearImpl report).2
    unfold State.clearImpl
    split_ifs
    · exact h
    · exact h.clear report
  | setPeriod report periodMs now =>
    show SettledBy P (s.setPeriodImpl report periodMs now).2
    rcases setPeriodImpl_cases report periodMs now s with heq | ⟨period, d, -, -, hd, heq⟩
    · rw [heq]
      exact h
    · have hnew : ((s.setPeriod report period now).reports report).definition = some d :=
        (congrArg Report.definition (State.setReport_same _ _ _)).trans hd
      rw [heq]
      refine @SettledBy.change _ report _ _ _ h (fun other hne => ⟨State.setReport_ne _ _ hne, rfl⟩)
        (fun hnone => ?_) fun d' hd' => ?_
      · rw [hnew] at hnone
        cases hnone
      · obtain rfl := Option.some.inj (hnew.symm.trans hd')
        exact h.holds report d hd
  | setStore storage report intervalMs =>
    show SettledBy P (s.setStoreImpl storage report intervalMs).2
    rcases setStoreImpl_cases storage report intervalMs s with heq | ⟨d, hd, heq⟩
    · rw [heq]
      exact h
    · rw [heq]
      refine @SettledBy.change _ report _ _ _ h
        (fun other hne => ⟨rfl, update_of_ne hne _ _⟩)
        (fun hnone => ?_) fun d' hd' => h.holds report d' hd'
      rw [show (s.reports report).definition = none from hnone] at hd
      cases hd
  | clearStore report =>
    show SettledBy P (s.clearStoreImpl report).2
    unfold State.clearStoreImpl
    split_ifs with hreport
    · exact h
    · refine @SettledBy.change _ report _ _ _ h
        (fun other hne => ⟨rfl, update_of_ne hne _ _⟩)
        (fun hnone => ⟨(h.undefined report hnone).1, ?_⟩) fun d hd => h.holds report d hd
      rw [show (s.setStoreState report (s.stores report).forget).stores report =
        (s.stores report).forget from update_self _ _ _]
      rfl
  | setBeacon report node intervalMs =>
    obtain ⟨hreports, hstores, -⟩ := setBeaconImpl_frame s report node intervalMs
    show SettledBy P (s.setBeaconImpl report node intervalMs).2
    refine ⟨fun index hnone => ?_, fun index d hd => ?_⟩
    · rw [hreports] at hnone ⊢
      rw [hstores]
      exact h.undefined index hnone
    · rw [hreports] at hd
      exact h.holds index d hd

/-- **A load keeps what holds of the settings**, if it holds of what passes. -/
theorem SettledBy.load {n : Node b} {now : ℤ} {before : Prepared b}
    {files : UInt8 → Option (List UInt8)}
    (hP : ∀ data items, checkSnapshot b lists data = .ok items →
      ∀ index item, items index = some item → P item.definition)
    (hload : loadSnapshot io lists now before file ⟨s, files⟩ = (.ended (.returned none), n)) :
    SettledBy P n.state := by
  obtain ⟨data, items, prepared, -, hcheck, hstate, hstores⟩ := loadSnapshot_ok hload
  have hholds := hP data items hcheck
  rw [hstate]
  refine ⟨fun index hnone => ?_, fun index d hd => ?_⟩
  · obtain ⟨hin, hout⟩ := commitRestored_spec items prepared now s index
    by_cases hindex : index.toNat < b.reports
    · obtain ⟨hdefinition, hperiod, -, hstore, -⟩ := hin hindex
      have hitem : items index = none := Option.map_eq_none_iff.1 (hdefinition.symm.trans hnone)
      refine ⟨?_, ?_⟩
      · rw [hperiod, hitem]
        rfl
      · rw [hstore, hstores index hindex]
        unfold storeOf
        rw [hitem]
        rfl
    · obtain ⟨hreport, hstore⟩ := hout hindex
      rw [hreport] at hnone ⊢
      rw [hstore]
      exact h.undefined index hnone
  · obtain ⟨hin, hout⟩ := commitRestored_spec items prepared now s index
    by_cases hindex : index.toNat < b.reports
    · rw [(hin hindex).1] at hd
      obtain ⟨item, hitem, rfl⟩ := Option.map_eq_some_iff.1 hd
      exact hholds index item hitem
    · rw [(hout hindex).1] at hd
      exact h.holds index d hd

/-- The rest keeps what holds of the settings. -/
theorem SettledBy.other (hkeeps : KeepsSettings s s') : SettledBy P s' := by
  refine ⟨fun index hnone => ?_, fun index d hd => ?_⟩
  · rw [hkeeps.definition] at hnone
    rw [hkeeps.period, hkeeps.store]
    exact h.undefined index hnone
  · rw [hkeeps.definition] at hd
    exact h.holds index d hd

end

/-- **What holds of the settings**, after any run. -/
theorem settled_run (hr : Relation.ReflTransGen (SettingsStep registry) (State.reset b) s) :
    Settled registry s := by
  refine settled_iff.2 ?_
  induction hr with
  | refl => exact settledBy_reset _
  | tail _ hstep ih =>
    cases hstep with
    | change c hasks => exact ih.apply c fun d => laidWith_of_change hasks
    | load hlists hload => exact ih.load (fun _ _ => checkSnapshot_laid hlists) hload
    | other hkeeps => exact ih.other hkeeps

/-! ### What was saved is loaded -/

/-- The turn in which a report comes: those that are defined take one each. -/
def turnIn (s : State b) (indices : List UInt8) (index : UInt8) : ℕ :=
  (indices.takeWhile (· ≠ index)).countP fun i => (s.reports i).definition.isSome

theorem turnIn_self (s : State b) (index : UInt8) (indices : List UInt8) :
    turnIn s (index :: indices) index = 0 := by
  unfold turnIn
  rw [List.takeWhile_cons_of_neg (by simp)]
  rfl

theorem turnIn_cons (s : State b) {first index : UInt8} (h : first ≠ index)
    (indices : List UInt8) : turnIn s (first :: indices) index =
      (if (s.reports first).definition.isSome then 1 else 0) + turnIn s indices index := by
  unfold turnIn
  rw [List.takeWhile_cons_of_pos (by simpa using h), List.countP_cons]
  exact Nat.add_comm _ _

/-- What is prepared of a snapshot: the settings that were saved, each with a definition that its
entries are laid out as, in its turn. -/
theorem prepareAll_spec {indices : List UInt8} (hnodup : indices.Nodup) {turn : ℕ}
    {items' : UInt8 → Option (Restored b)}
    (h : prepareAll lists s indices turn items = .ok items') :
    (∀ index, index ∉ indices → items' index = items index) ∧
      ∀ index ∈ indices, match (s.reports index).definition with
        | none => items' index = items index
        | some d => ∃ d', prepareDefinition b (lists (turn + turnIn s indices index)) index d.entries
            ⟨d.retrievalClass, d.class_le⟩ = .ok d' ∧
              items' index = some (restoredAs s index d') := by
  induction indices generalizing turn items with
  | nil =>
    obtain rfl := Except.ok.inj h
    exact ⟨fun _ _ => rfl, fun _ h => by cases h⟩
  | cons first indices ih =>
    obtain ⟨hnot, hnodup'⟩ := List.nodup_cons.1 hnodup
    have hne : ∀ index ∈ indices, first ≠ index := by
      rintro index hmem rfl
      exact hnot hmem
    unfold prepareAll at h
    cases hd : (s.reports first).definition with
    | none =>
      rw [hd] at h
      obtain ⟨hout, hin⟩ := ih hnodup' h
      refine ⟨fun index hindex => hout index fun hmem => hindex (List.mem_cons_of_mem _ hmem),
        fun index hindex => ?_⟩
      rcases List.mem_cons.1 hindex with rfl | hmem
      · rw [hd]
        exact hout index hnot
      · rw [turnIn_cons s (hne index hmem), hd, if_neg (by simp), Nat.zero_add]
        exact hin index hmem
    | some d =>
      rw [hd] at h
      dsimp only at h
      cases hprepare : prepareDefinition b (lists turn) first d.entries
        ⟨d.retrievalClass, d.class_le⟩ with
      | error e =>
        rw [hprepare] at h
        cases h
      | ok d' =>
        rw [hprepare] at h
        obtain ⟨hout, hin⟩ := ih hnodup' h
        refine ⟨fun index hindex => ?_, fun index hindex => ?_⟩
        · obtain ⟨hfirst, hmem⟩ := not_or.1 (mt List.mem_cons.2 hindex)
          rw [hout index hmem, update_of_ne hfirst]
        · rcases List.mem_cons.1 hindex with rfl | hmem
          · rw [hd, turnIn_self]
            refine ⟨d', hprepare, ?_⟩
            rw [hout index hnot, update_self]
          · have hrest := hin index hmem
            rw [update_of_ne (hne index hmem).symm] at hrest
            rw [turnIn_cons s (hne index hmem), hd, if_pos Option.isSome_some, ← Nat.add_assoc]
            exact hrest

/-- **All are prepared** if and only if each definition can be prepared in its turn. -/
theorem prepareAll_iff {indices : List UInt8} (hnodup : indices.Nodup) (turn : ℕ)
    (items : UInt8 → Option (Restored b)) :
    (∃ items', prepareAll lists s indices turn items = .ok items') ↔
      ∀ index ∈ indices, ∀ d, (s.reports index).definition = some d → ∃ d',
        prepareDefinition b (lists (turn + turnIn s indices index)) index d.entries
          ⟨d.retrievalClass, d.class_le⟩ = .ok d' := by
  constructor
  · rintro ⟨items', hall⟩ index hindex d hd
    have hspec := (prepareAll_spec hnodup hall).2 index hindex
    rw [hd] at hspec
    obtain ⟨d', hd', -⟩ := hspec
    exact ⟨d', hd'⟩
  · intro h
    induction indices generalizing turn items with
    | nil => exact ⟨items, rfl⟩
    | cons first indices ih =>
      obtain ⟨hnot, hnodup'⟩ := List.nodup_cons.1 hnodup
      have hrest := fun index (hmem : index ∈ indices) => h index (List.mem_cons_of_mem _ hmem)
      have hne : ∀ index ∈ indices, first ≠ index := by
        rintro index hmem rfl
        exact hnot hmem
      unfold prepareAll
      cases hd : (s.reports first).definition with
      | none =>
        refine ih hnodup' turn items fun index hmem d' hd' => ?_
        have hnow := hrest index hmem d' hd'
        rw [turnIn_cons s (hne index hmem), hd, if_neg (by simp), Nat.zero_add] at hnow
        exact hnow
      | some d =>
        obtain ⟨d', hd'⟩ := h first List.mem_cons_self d hd
        rw [turnIn_self] at hd'
        dsimp only
        rw [show lists turn = lists (turn + 0) from rfl, hd']
        refine ih hnodup' (turn + 1) _ fun index hmem d'' hd'' => ?_
        have hnow := hrest index hmem d'' hd''
        rw [turnIn_cons s (hne index hmem), hd, if_pos Option.isSome_some, ← Nat.add_assoc] at hnow
        exact hnow

/-- The file system answers a load, whose files are there. -/
structure LoadIo.Works (io : LoadIo) : Prop where
  ready : io.ready = true
  stat : io.stat = none
  opened : io.opened = none
  complete : io.complete = true
  read : ∀ index, io.read index = .working

/-- What a load prepares for the reports of a configuration. -/
def RestoredFrom (s : State b) (items : UInt8 → Option (Restored b)) : Prop :=
  ∀ index, index.toNat < b.reports →
    items index = (s.reports index).definition.map (restoredAs s index)

/-- **The definitions are laid out** as they were, where all entries are of this node. -/
theorem Settled.prepare_eq {lists : Listings} (h : Settled registry s)
    (hlists : lists.registry = registry) {index : UInt8} (hindex : index.toNat < b.reports)
    {d : Definition b} (hd : (s.reports index).definition = some d)
    (hlocal : ∀ entry ∈ d.entries, entry.node = nodeLocal) :
    prepareDefinition b lists index d.entries ⟨d.retrievalClass, d.class_le⟩ = .ok d := by
  obtain ⟨lists', hregistry, hlaid⟩ := h.laid index d hd
  refine prepareDefinition_eq_ok_iff.2 ⟨hindex, ?_, rfl⟩
  rw [← hlaid]
  exact layOut_congr (hlists.trans hregistry.symm) hlocal 0 headerSize

/-- All of them are prepared. -/
theorem Settled.prepareAll (h : Settled registry s)
    (hlists : ∀ turn, (lists turn).registry = registry)
    (hlocal : ∀ index d, (s.reports index).definition = some d →
      ∀ entry ∈ d.entries, entry.node = nodeLocal) :
    ∃ items, prepareAll lists s (reportIndices b) 0 (fun _ => none) = .ok items ∧
      RestoredFrom s items := by
  obtain ⟨items, hitems⟩ := (@prepareAll_iff _ lists s _ (nodup_reportIndices b) 0
    (fun _ => none)).2 fun index hindex d hd =>
      ⟨d, h.prepare_eq (hlists _) (mem_reportIndices.1 hindex) hd (hlocal index d hd)⟩
  refine ⟨items, hitems, fun index hindex => ?_⟩
  have hspec := (prepareAll_spec (nodup_reportIndices b) hitems).2 index
    (mem_reportIndices.2 hindex)
  cases hd : (s.reports index).definition with
  | none =>
    rw [hd] at hspec
    exact hspec
  | some d =>
    rw [hd] at hspec
    obtain ⟨d', hd', heq⟩ := hspec
    rw [heq, ← Except.ok.inj ((h.prepare_eq (hlists _) hindex hd (hlocal index d hd)).symm.trans
      hd')]
    rfl

/-- Their stores are prepared, where the files are whole. -/
theorem RestoredFrom.prepareOne (h : RestoredFrom s items) (hio : io.Works) {index : UInt8}
    (hindex : index.toNat < b.reports)
    (hwhole : ∀ d, (s.reports index).definition = some d → (s.stores index).interval.ms ≠ 0 →
      ∃ bytes, file = some bytes ∧ Whole b index d.recordSize bytes) :
    (prepareOne io items index file).1 = .returned none := by
  unfold Hk.prepareOne
  rw [h index hindex, hio.read index]
  cases hd : (s.reports index).definition with
  | none => exact restorePrepare_off rfl
  | some d =>
    by_cases hoff : (s.stores index).interval.ms = 0
    · exact restorePrepare_off hoff
    · obtain ⟨bytes, hfile, hwhole'⟩ := hwhole d hd hoff
      rw [hfile]
      exact (restorePrepare_file hoff (by show 0 < 10 + d.payloadBytes; omega)).2 hwhole'

/-- **A load of what was saved** commits what it has prepared. -/
theorem loadSnapshot_eq (hio : io.Works)
    (hitems : prepareAll lists s (reportIndices b) 0 (fun _ => none) = .ok items) {now : ℤ}
    {before : Prepared b} {n : Node b}
    (hstores : (prepareStores io items (reportIndices b) before n.files).1 = .returned none) :
    loadSnapshot io lists now before (some (snapshotOf s)) n =
      (.ended (.returned none), ⟨commitRestored items
        (prepareStores io items (reportIndices b) before n.files).2.1 now n.state,
        (prepareStores io items (reportIndices b) before n.files).2.2⟩) := by
  unfold loadSnapshot
  rw [blob_snapshotOf hio.ready hio.stat hio.opened hio.complete]
  dsimp only
  rw [checkSnapshot_snapshotOf, hitems]
  dsimp only
  rcases hprepare : prepareStores io items (reportIndices b) before n.files with
    ⟨ended, prepared, files⟩
  rw [hprepare] at hstores
  obtain rfl : ended = .returned none := hstores
  rfl

/-- **The settings file.**  Let a configuration be reached, all of whose entries are of this node,
in which a report that is not defined has no beacon, and whose store files are whole.  What
`save_snapshot` writes of it is loaded, and every report is what it was: its definition, its
period, its store and its beacon.  Whatever a file has, a load reads inside of it, and leaves
everything as it is unless it returns `0`. -/
theorem settings_file (hr : Relation.ReflTransGen (SettingsStep registry) (State.reset b) s)
    (hlocal : ∀ index d, (s.reports index).definition = some d →
      ∀ entry ∈ d.entries, entry.node = nodeLocal)
    (hbeacons : ∀ index, (s.reports index).definition = none →
      (s.beacons index).node = 0 ∧ (s.beacons index).interval = .off)
    {io : LoadIo} (hio : io.Works) {lists : ℕ → Listings}
    (hlists : ∀ turn, (lists turn).registry = registry) {n : Node b}
    (hwhole : ∀ index d, (s.reports index).definition = some d → (s.stores index).interval.ms ≠ 0 →
        ∃ file, n.files index = some file ∧ Whole b index d.recordSize file)
    (now : ℤ) (before : Prepared b) :
    ((loadSnapshot io lists now before (some (snapshotOf s)) n).1 = .ended (.returned none) ∧
      ∀ index : UInt8, index.toNat < b.reports →
        let t := (loadSnapshot io lists now before (some (snapshotOf s)) n).2.state
        (t.reports index).definition = (s.reports index).definition ∧
          (t.reports index).period = (s.reports index).period ∧
          (t.stores index).interval = (s.stores index).interval ∧
          (t.beacons index).node = (s.beacons index).node ∧
          (t.beacons index).interval = (s.beacons index).interval) ∧
    ∀ (io : LoadIo) (lists : ℕ → Listings) (now : ℤ) (before : Prepared b)
      (file : Option (List UInt8)) (n : Node b),
      (loadSnapshot io lists now before file n).1 ≠ .outside ∧
        ((loadSnapshot io lists now before file n).1 ≠ .ended (.returned none) →
          (loadSnapshot io lists now before file n).2.state = n.state) := by
  refine ⟨?_, loadSnapshot_safe⟩
  have hsettled := settled_run hr
  obtain ⟨items, hitems, hitem⟩ := hsettled.prepareAll hlists hlocal
  have hones : ∀ index ∈ reportIndices b,
      (prepareOne io items index (n.files index)).1 = .returned none := by
    intro index hmem
    exact hitem.prepareOne hio (mem_reportIndices.1 hmem) (hwhole index)
  obtain ⟨hiff, hvalues⟩ := prepareStores_spec io items (nodup_reportIndices b) before n.files
  have hstores := hiff.2 hones
  rw [loadSnapshot_eq hio hitems hstores]
  refine ⟨rfl, fun index hindex => ?_⟩
  dsimp only
  obtain ⟨hdefinition, hperiod, -, hstore, hbeacon⟩ := (commitRestored_spec items
    (prepareStores io items (reportIndices b) before n.files).2.1 now n.state index).1 hindex
  have hprepare := (hvalues hstores index).1
  rw [if_pos (mem_reportIndices.2 hindex), show (prepareOne io items index (n.files index)).2.1.1 = _
    from restorePrepare_store (hones index (mem_reportIndices.2 hindex))] at hprepare
  obtain ⟨hnode, hinterval⟩ := hbeacon (s.beacons index) (by
    unfold restoredBeacon
    rw [hitem index hindex]
    cases hd : (s.reports index).definition with
    | none =>
      obtain ⟨hnode, hinterval⟩ := hbeacons index hd
      rw [hnode, hinterval]
      rfl
    | some d => rfl)
  refine ⟨?_, ?_, ?_, hnode, hinterval⟩
  · rw [hdefinition, hitem index hindex]
    cases (s.reports index).definition <;> rfl
  · rw [hperiod, hitem index hindex]
    cases hd : (s.reports index).definition with
    | none => exact (hsettled.undefined index hd).1.symm
    | some d => rfl
  · rw [hstore, hprepare, preparedStore_interval, hitem index hindex]
    cases hd : (s.reports index).definition with
    | none => exact (hsettled.undefined index hd).2.symm
    | some d => rfl

/-! ### A report of a byte, with a store and a beacon -/

/-- Storage that has room. -/
def freeStorage : Storage := ⟨true, .ok 4096, none⟩

/-- Report 0 is of a byte, stored every second, and sent to node 5 every second. -/
def storedState : State smallBuild :=
  ((Change.setBeacon 0 5 1000).apply ((Change.setStore freeStorage 0 1000).apply
    ((State.reset smallBuild).define 0 (byteDefinition ⟨0, 256⟩) 0)).2).2

/-- A node after a reset, with an empty store file of report 0. -/
def storedNode : Node smallBuild := ⟨State.reset smallBuild, fun _ => some (storeHeader smallBuild 0 11)⟩

/-- The file system answers everything. -/
def LoadIo.working : LoadIo :=
  ⟨true, none, none, true, fun _ => none, fun _ => ⟨none, [], none⟩, fun _ => .working⟩

theorem defineImpl_byte {node : UInt16} (hnode : node = 0 ∨ node = 2) (s : State smallBuild) :
    ((Change.define (fun _ => false) byteLists 0 [⟨node, 256⟩] classDefault 0).apply s).2 =
      s.define 0 (byteDefinition ⟨node, 256⟩) 0 := by
  have hprepare := prepareDefinition_byte node hnode
  show (State.defineImpl _ _ _ _ _ _ s).2 = _
  unfold State.defineImpl
  rw [dif_pos (by decide), if_neg (by decide), if_neg (List.cons_ne_nil _ _),
    if_neg (show ¬ [(⟨node, 256⟩ : Entry)].length > smallBuild.entries from
      Nat.not_lt.2 (by decide : 1 ≤ smallBuild.entries)),
    show State.nameLocalEntries (fun _ => false) [⟨node, 256⟩] = [⟨node, 256⟩] from rfl, hprepare]

/-- It is reached by changes of the settings. -/
theorem storedState_reached :
    Relation.ReflTransGen (SettingsStep byteLists.registry) (State.reset smallBuild) storedState := by
  have hdefine : SettingsStep byteLists.registry (State.reset smallBuild)
      ((State.reset smallBuild).define 0 (byteDefinition ⟨0, 256⟩) 0) := by
    rw [← defineImpl_byte (Or.inl rfl)]
    exact .change _ rfl
  exact .tail (.tail (.single hdefine) (.change (.setStore freeStorage 0 1000) trivial))
    (.change (.setBeacon 0 5 1000) trivial)

/-- Its reports. -/
theorem storedState_definition (index : UInt8) : (storedState.reports index).definition =
    if index = 0 then some (byteDefinition ⟨0, 256⟩) else none := by
  by_cases hindex : index = 0
  · subst hindex
    rfl
  · rw [if_neg hindex]
    exact congrArg Report.definition (State.setReport_ne _ _ hindex)

/-- An empty store file is whole. -/
theorem whole_header : Whole smallBuild 0 11 (storeHeader smallBuild 0 11) :=
  ⟨by decide, 0, Nat.zero_le _, by decide, fun _ h => absurd h (Nat.not_lt_zero _)⟩

/-- It is saved and loaded. -/
theorem settings_file_stored : (loadSnapshot .working (fun _ => byteLists) 0 (.zero smallBuild)
      (some (snapshotOf storedState)) storedNode).1 = .ended (.returned none) := by
  refine (settings_file storedState_reached (fun index d hd => ?_) (fun index hnone => ?_)
    ⟨rfl, rfl, rfl, rfl, fun _ => rfl⟩ (fun _ => rfl) (fun index d hd _ => ?_) 0 _).1.1
  · rw [storedState_definition] at hd
    split_ifs at hd
    obtain rfl := Option.some.inj hd
    decide
  · rw [storedState_definition] at hnone
    split_ifs at hnone with hindex
    have hbeacon : storedState.beacons index = (State.reset smallBuild).beacons index :=
      update_of_ne hindex _ _
    rw [hbeacon]
    exact ⟨rfl, rfl⟩
  · rw [storedState_definition] at hd
    split_ifs at hd with hindex
    obtain rfl := Option.some.inj hd
    subst hindex
    exact ⟨_, rfl, whole_header⟩

end KfswServices.Hk
