/-
# The settings file

`save_snapshot` and `load_snapshot` of `src/hk/hk_persist.c`.  A snapshot has the settings of every
report that is defined; what is loaded may be of version 1 or 2 too, and is checked as a whole,
together with the store files, before the first setting is touched.

A read of the file goes through `readAt`, so a read outside of it would show as `Stop.outside`.
-/

import KfswServices.Hk.Store
import KfswServices.Library.Crc32
import KfswServices.Param.Snapshot

namespace KfswServices.Hk

open Library
open Param (Stop readAt readAt_of_le)

variable {b : Build}

/-! ### Saving -/

/-- `KFSW_HK_PERSIST_MAGIC`. -/
abbrev persistMagic : List UInt8 := [0x4b, 0x48, 0x4b, 0x52]

/-- `KFSW_HK_PERSIST_VERSION`. -/
abbrev persistVersion : UInt8 := 3

/-- `KFSW_HK_PERSIST_HEADER_SIZE`. -/
abbrev persistHeaderSize : ℕ := 12

/-- `KFSW_HK_PERSIST_CRC_OFFSET`. -/
abbrev persistCrcOffset : ℕ := 8

/-- `KFSW_HK_PERSIST_REPORT_HEADER_V1`, `KFSW_HK_PERSIST_REPORT_HEADER_V2` and
`KFSW_HK_PERSIST_REPORT_HEADER`. -/
def reportHeaderSize (version : UInt8) : ℕ := if version = 1 then 6 else if version = 2 then 16 else 17

/-- `KFSW_HK_PERSIST_ENTRY_SIZE`. -/
abbrev persistEntrySize : ℕ := 4

/-- `KFSW_HK_PERSIST_MAX_SIZE`. -/
def persistMaxSize (b : Build) : ℕ :=
  persistHeaderSize + b.reports * (reportHeaderSize persistVersion + b.entries * persistEntrySize)

/-- An entry in the file. -/
def entryBytes (entry : Entry) : List UInt8 := putBe16 entry.node ++ putBe16 entry.paramId

/-- A report in the file. -/
def reportBytes (s : State b) (index : UInt8) (d : Definition b) : List UInt8 :=
  index :: d.entryCount :: (putBe32 (s.reports index).period.ms ++
    (putBe32 (s.stores index).interval.ms ++ (putBe16 (s.beacons index).node ++
      (putBe32 (s.beacons index).interval.ms ++
        (d.retrievalClass :: d.entries.flatMap entryBytes)))))

/-- The indices of the reports. -/
def reportIndices (b : Build) : List UInt8 := (List.range b.reports).map UInt8.ofNat

/-- The reports in the file. -/
def snapshotReports (s : State b) : List UInt8 → List (List UInt8)
  | [] => []
  | index :: indices =>
    match (s.reports index).definition with
    | none => snapshotReports s indices
    | some d => reportBytes s index d :: snapshotReports s indices

/-- A snapshot with its checksum. -/
def snapshotBytes (reports : List (List UInt8)) (checksum : UInt32) : List UInt8 :=
  persistMagic ++ (persistVersion :: 0 :: (putBe16 (UInt16.ofNat reports.length) ++
    (putBe32 checksum ++ reports.flatten)))

/-- What `save_snapshot` writes. -/
def snapshotOf (s : State b) : List UInt8 :=
  let reports := snapshotReports s (reportIndices b)
  snapshotBytes reports (crc32 (snapshotBytes reports 0))

/-! ### Reading the file -/

/-- The header of a report in the file; what its version does not have is the default. -/
structure RawReport where
  report : UInt8
  count : UInt8
  periodMs : UInt32
  storeMs : UInt32
  beaconNode : UInt16
  beaconMs : UInt32
  retrievalClass : UInt8

/-- A field that a version has. -/
def readSince (since version : UInt8) (data : List UInt8) (offset len : ℕ)
    (default : List UInt8) : Except Stop (List UInt8) :=
  if since ≤ version then readAt data offset len else .ok default

/-- The header of a report is read. -/
def readHead (version : UInt8) (data : List UInt8) (offset : ℕ) : Except Stop RawReport := do
  let report ← readAt data offset 1
  let count ← readAt data (offset + 1) 1
  let period ← readAt data (offset + 2) 4
  let store ← readSince 2 version data (offset + 6) 4 (putBe32 0)
  let node ← readSince 2 version data (offset + 10) 2 (putBe16 0)
  let beacon ← readSince 2 version data (offset + 12) 4 (putBe32 0)
  let retrievalClass ← readSince 3 version data (offset + 16) 1 [classDefault]
  pure ⟨report.headD 0, count.headD 0, getBe32 period, getBe32 store, getBe16 node, getBe32 beacon,
    retrievalClass.headD 0⟩

/-- The entries of a report are read. -/
def readEntries (data : List UInt8) : ℕ → ℕ → Except Stop (List Entry)
  | 0, _ => .ok []
  | count + 1, offset => do
    let node ← readAt data offset 2
    let paramId ← readAt data (offset + 2) 2
    let entries ← readEntries data count (offset + persistEntrySize)
    pure (⟨getBe16 node, getBe16 paramId⟩ :: entries)

/-- `struct restored_report`, of a report that is present. -/
structure Restored (b : Build) where
  definition : Definition b
  period : Interval b.periodFloor
  store : Interval b.storeFloor
  beaconNode : UInt16
  beaconMs : UInt32

/-- The beacon of a report in the file. -/
def beaconRefused (b : Build) (raw : RawReport) : Prop :=
  raw.beaconMs ≠ 0 ∧ (raw.beaconMs.toNat < b.beaconFloor ∨ raw.beaconNode = 0 ∨
    raw.beaconNode ≥ b.broadcast)

instance (b : Build) (raw : RawReport) : Decidable (beaconRefused b raw) := by
  unfold beaconRefused
  infer_instance

/-- One turn of the loop of `load_snapshot`: the report, and the offset behind it. -/
def loadReport (b : Build) (lists : Listings) (version : UInt8) (data : List UInt8)
    (items : UInt8 → Option (Restored b)) (offset : ℕ) :
    Except Stop ((UInt8 × Restored b) × ℕ) :=
  if data.length < offset + reportHeaderSize version then .error (.errno .EBADMSG)
  else
    match readHead version data offset with
    | .error e => .error e
    | .ok raw =>
      if raw.report.toNat ≥ b.reports ∨ (items raw.report).isSome ∨ raw.count = 0 ∨
          raw.count.toNat > b.entries then .error (.errno .EBADMSG)
      else
        match Interval.ofMs raw.periodMs, Interval.ofMs raw.storeMs with
        | some period, some store =>
          if beaconRefused b raw then .error (.errno .ERANGE)
          else if hclass : raw.retrievalClass ≤ classMax then
            let entriesOffset := offset + reportHeaderSize version
            if data.length < entriesOffset + raw.count.toNat * persistEntrySize then
              .error (.errno .EBADMSG)
            else
              match readEntries data raw.count.toNat entriesOffset with
              | .error e => .error e
              | .ok entries =>
                match prepareDefinition b lists raw.report entries ⟨raw.retrievalClass, hclass⟩ with
                | .error e => .error (.errno e)
                | .ok d => .ok ((raw.report, ⟨d, period, store, raw.beaconNode, raw.beaconMs⟩),
                    entriesOffset + raw.count.toNat * persistEntrySize)
          else .error (.errno .ERANGE)
        | _, _ => .error (.errno .ERANGE)

/-- The loop of `load_snapshot`; `lists` are what the parameters are asked for in a turn. -/
def loadReports (b : Build) (lists : ℕ → Listings) (version : UInt8) (data : List UInt8) :
    ℕ → ℕ → (UInt8 → Option (Restored b)) → ℕ → Except Stop ((UInt8 → Option (Restored b)) × ℕ)
  | 0, _, items, offset => .ok (items, offset)
  | turns + 1, turn, items, offset =>
    match loadReport b (lists turn) version data items offset with
    | .error e => .error e
    | .ok ((report, item), offset) =>
      loadReports b lists version data turns (turn + 1)
        (Function.update items report (some item)) offset

/-- The part of `load_snapshot` that checks the bytes of the file. -/
def checkSnapshot (b : Build) (lists : ℕ → Listings) (data : List UInt8) :
    Except Stop (UInt8 → Option (Restored b)) := do
  let magic ← readAt data 0 4
  let version ← readAt data 4 1
  let reserved ← readAt data 5 1
  let expected ← readAt data 6 2
  let checksum ← readAt data persistCrcOffset 4
  let version := version.headD 0
  let count := (getBe16 expected).toNat
  let cleared := splice 0 data persistCrcOffset (putBe32 0)
  if magic ≠ persistMagic then .error (.errno .EBADMSG)
  else if version ≠ persistVersion ∧ version ≠ 1 ∧ version ≠ 2 then
    .error (.errno .EPROTONOSUPPORT)
  else if crc32 cleared ≠ getBe32 checksum then .error (.errno .EBADMSG)
  else if count > b.reports ∨ reserved.headD 0 ≠ 0 then .error (.errno .EBADMSG)
  else do
    let (items, offset) ← loadReports b lists version cleared count 0 (fun _ => none)
      persistHeaderSize
    if offset ≠ data.length then .error (.errno .EBADMSG) else .ok items

/-! ### Restoring -/

/-- What the file system answers to a load: whether there is storage, `fs_stat`, `fs_open`, whether
`fs_read` gets all bytes, and what `kfsw_hk_store_restore_prepare` is answered for each report. -/
structure LoadIo where
  ready : Bool
  stat : Option Errno
  opened : Option Errno
  complete : Bool
  mkdir : UInt8 → Option Errno
  create : UInt8 → WriteIo
  read : UInt8 → ReadIo

/-- The file is read into `blob`. -/
def LoadIo.blob (b : Build) (io : LoadIo) (file : Option (List UInt8)) :
    Except Errno (List UInt8) :=
  if !io.ready then .error .ENODEV
  else
    match io.stat, file with
    | some e, _ => .error e
    | none, none => .error .ENOENT
    | none, some data =>
      if data.length < persistHeaderSize ∨ data.length > persistMaxSize b then .error .EFBIG
      else
        match io.opened with
        | some e => .error e
        | none => if io.complete then .ok data else .error Errno.EIO

/-- `restored_stores` and `restored_sequences`. -/
structure Prepared (b : Build) where
  stores : UInt8 → StoreState b
  sequences : UInt8 → UInt16

/-- They are static, and zero at the reset. -/
def Prepared.zero (b : Build) : Prepared b := ⟨fun _ => ⟨.off, 0, 0, 0, false⟩, fun _ => 0⟩

/-- The store of a report is prepared, as the report is in the snapshot. -/
def prepareOne (io : LoadIo) (items : UInt8 → Option (Restored b)) (index : UInt8)
    (file : Option (List UInt8)) : Ended × (StoreState b × UInt16) × Option (List UInt8) :=
  restorePrepare (io.mkdir index) (io.create index) (io.read index) index
    (((items index).map (·.store)).getD .off) (((items index).map (·.period.ms)).getD 0)
    (headerSize + ((items index).map (·.definition.payloadBytes)).getD 0) file

/-- The loop over the stores: each is prepared, up to one that fails. -/
def prepareStores (io : LoadIo) (items : UInt8 → Option (Restored b)) :
    List UInt8 → Prepared b → (UInt8 → Option (List UInt8)) →
      Ended × Prepared b × (UInt8 → Option (List UInt8))
  | [], prepared, files => (.returned none, prepared, files)
  | index :: indices, prepared, files =>
    match prepareOne io items index (files index) with
    | (ended, (st, sequence), file) =>
      let prepared := ⟨Function.update prepared.stores index st,
        Function.update prepared.sequences index sequence⟩
      let files := Function.update files index file
      match ended with
      | .returned none => prepareStores io items indices prepared files
      | ended => (ended, prepared, files)

/-- `kfsw_hk_restore_report` and `kfsw_hk_beacon_restore`, for one report. -/
def restoreOne (items : UInt8 → Option (Restored b)) (prepared : Prepared b) (now : ℤ)
    (s : State b) (index : UInt8) : State b :=
  let item := items index
  ((s.restoreReport index (item.map (·.definition)) ((item.map (·.period)).getD .off)
    (prepared.sequences index) now).setBeaconImpl index ((item.map (·.beaconNode)).getD 0)
      ((item.map (·.beaconMs)).getD 0)).2

/-- The end of `load_snapshot`, with `kfsw_hk_store_restore_commit`. -/
def commitRestored (items : UInt8 → Option (Restored b)) (prepared : Prepared b) (now : ℤ)
    (s : State b) : State b :=
  let s := (reportIndices b).foldl (restoreOne items prepared now) s
  { s with stores := fun index =>
      if index.toNat < b.reports then prepared.stores index else s.stores index }

/-- How a load ends: as a call does, or with a read outside the bytes of the file. -/
inductive LoadEnded
  | ended (e : Ended)
  | outside
  deriving DecidableEq

/-- `load_snapshot`; `file` is `reports.dat`, and `before` is what an earlier load prepared. -/
def loadSnapshot (io : LoadIo) (lists : ℕ → Listings) (now : ℤ) (before : Prepared b)
    (file : Option (List UInt8)) (n : Node b) : LoadEnded × Node b :=
  match io.blob b file with
  | .error e => (.ended (.returned (some e)), n)
  | .ok data =>
    match checkSnapshot b lists data with
    | .error (.errno e) => (.ended (.returned (some e)), n)
    | .error .outside => (.outside, n)
    | .ok items =>
      match prepareStores io items (reportIndices b) before n.files with
      | (.returned none, prepared, files) =>
        (.ended (.returned none), ⟨commitRestored items prepared now n.state, files⟩)
      | (ended, _, files) => (.ended ended, { n with files := files })

/-! ### Reads are inside the file -/

/-- The versions that are read. -/
def Version (version : UInt8) : Prop := version = 1 ∨ version = 2 ∨ version = 3

variable {data : List UInt8}

/-- The header of a report is inside the file. -/
theorem readHead_inside {version : UInt8} {offset : ℕ} (hversion : Version version)
    (h : offset + reportHeaderSize version ≤ data.length) :
    ∃ raw, readHead version data offset = .ok raw := by
  unfold readHead readSince
  rcases hversion with rfl | rfl | rfl
  · have h' : offset + 6 ≤ data.length := h
    rw [readAt_of_le (by omega), readAt_of_le (by omega), readAt_of_le (by omega)]
    exact ⟨_, rfl⟩
  · have h' : offset + 16 ≤ data.length := h
    rw [readAt_of_le (by omega), readAt_of_le (by omega), readAt_of_le (by omega),
      readAt_of_le (by omega), readAt_of_le (by omega), readAt_of_le (by omega)]
    exact ⟨_, rfl⟩
  · have h' : offset + 17 ≤ data.length := h
    rw [readAt_of_le (by omega), readAt_of_le (by omega), readAt_of_le (by omega),
      readAt_of_le (by omega), readAt_of_le (by omega), readAt_of_le (by omega),
      readAt_of_le (by omega)]
    exact ⟨_, rfl⟩

/-- The entries of a report are inside the file. -/
theorem readEntries_inside {count offset : ℕ}
    (h : offset + count * persistEntrySize ≤ data.length) :
    ∃ entries, readEntries data count offset = .ok entries := by
  induction count generalizing offset with
  | zero => exact ⟨[], rfl⟩
  | succ count ih =>
    have h' : offset + (count + 1) * 4 ≤ data.length := h
    obtain ⟨entries, hentries⟩ := @ih (offset + persistEntrySize) (by
      show offset + 4 + count * 4 ≤ data.length
      omega)
    unfold readEntries
    rw [readAt_of_le (by omega), readAt_of_le (by omega), hentries]
    exact ⟨_, rfl⟩

/-- **A report is read inside the file.** -/
theorem loadReport_inside {lists : Listings} {version : UInt8}
    {items : UInt8 → Option (Restored b)} {offset : ℕ} (hversion : Version version) :
    loadReport b lists version data items offset ≠ .error .outside := by
  unfold loadReport
  by_cases hhead : data.length < offset + reportHeaderSize version
  · rw [if_pos hhead]
    simp
  · obtain ⟨raw, hraw⟩ := readHead_inside hversion (not_lt.1 hhead)
    rw [if_neg hhead, hraw]
    dsimp only
    split
    · simp
    · split
      · split_ifs with hbeacon hclass hsize
        · simp
        · simp
        · obtain ⟨entries, hentries⟩ := readEntries_inside (not_lt.1 hsize)
          rw [hentries]
          dsimp only
          split <;> simp
        · simp
      · simp

/-- **The reports are read inside the file.** -/
theorem loadReports_inside {lists : ℕ → Listings} {version : UInt8} (hversion : Version version)
    (turns turn : ℕ) (items : UInt8 → Option (Restored b)) (offset : ℕ) :
    loadReports b lists version data turns turn items offset ≠ .error .outside := by
  induction turns generalizing turn items offset with
  | zero => simp [loadReports]
  | succ turns ih =>
    unfold loadReports
    cases hreport : loadReport b (lists turn) version data items offset with
    | error e =>
      intro h
      exact loadReport_inside hversion (hreport.trans (by rw [Except.error.inj h]))
    | ok loaded => exact ih _ _ _

/-- **A snapshot is read inside the file**, if it has a header. -/
theorem checkSnapshot_inside {lists : ℕ → Listings} (h : persistHeaderSize ≤ data.length) :
    checkSnapshot b lists data ≠ .error .outside := by
  have h' : 12 ≤ data.length := h
  unfold checkSnapshot
  rw [readAt_of_le (by omega), readAt_of_le (by omega), readAt_of_le (by omega),
    readAt_of_le (by omega), readAt_of_le (by show 8 + 4 ≤ data.length; omega)]
  dsimp only [bind, Except.bind]
  split_ifs with hmagic hversion hcrc hcount
  · simp
  · simp
  · simp
  · simp
  · have hversion' : Version ((region data 4 1).headD 0) := by
      unfold Version
      tauto
    cases hreports : loadReports b lists ((region data 4 1).headD 0)
        (splice 0 data persistCrcOffset (putBe32 0)) (getBe16 (region data 6 2)).toNat 0
        (fun _ => none) persistHeaderSize with
    | error e =>
      intro heq
      exact loadReports_inside hversion' _ _ _ _ (hreports.trans (by rw [Except.error.inj heq]))
    | ok loaded =>
      dsimp only
      split_ifs <;> simp

/-- What is read into `blob` is the file, which has a header. -/
theorem LoadIo.blob_ok (io : LoadIo) {file : Option (List UInt8)} (h : io.blob b file = .ok data) :
    file = some data ∧ persistHeaderSize ≤ data.length := by
  unfold LoadIo.blob at h
  rw [ite_error_eq_ok] at h
  obtain ⟨-, h⟩ := h
  cases hstat : io.stat with
  | some e => rw [hstat] at h; cases h
  | none =>
    rw [hstat] at h
    cases file with
    | none => cases h
    | some bytes =>
      obtain ⟨hsize, h⟩ := ite_error_eq_ok.1 h
      cases hopened : io.opened with
      | some e => rw [hopened] at h; cases h
      | none =>
        rw [hopened] at h
        dsimp only at h
        split_ifs at h
        obtain rfl := Except.ok.inj h
        exact ⟨rfl, not_lt.1 fun hlt => hsize (Or.inl hlt)⟩

/-- **A load reads inside the file, and changes nothing unless it returns `0`**: neither the
reports and their samples, nor the beacons, nor the stores. -/
theorem loadSnapshot_safe (io : LoadIo) (lists : ℕ → Listings) (now : ℤ) (before : Prepared b)
    (file : Option (List UInt8)) (n : Node b) :
    (loadSnapshot io lists now before file n).1 ≠ .outside ∧
      ((loadSnapshot io lists now before file n).1 ≠ .ended (.returned none) →
        (loadSnapshot io lists now before file n).2.state = n.state) := by
  unfold loadSnapshot
  cases hblob : io.blob b file with
  | error e => exact ⟨by simp, fun _ => rfl⟩
  | ok data =>
    obtain ⟨-, hlen⟩ := io.blob_ok hblob
    have hinside := @checkSnapshot_inside b data lists hlen
    dsimp only
    cases hcheck : checkSnapshot b lists data with
    | error e =>
      cases e with
      | errno e => exact ⟨by simp, fun _ => rfl⟩
      | outside => exact absurd hcheck hinside
    | ok items =>
      dsimp only
      split
      · exact ⟨by simp, fun h => absurd rfl h⟩
      · exact ⟨by simp, fun _ => rfl⟩

/-! ### A snapshot is read back -/

/-- A read behind a part of the file. -/
theorem readAt_append (pre : List UInt8) {xs : List UInt8} {k n : ℕ} (h : k + n ≤ xs.length) :
    readAt (pre ++ xs) (pre.length + k) n = .ok (region xs k n) := by
  rw [readAt_of_le (by rw [List.length_append]; omega), region_append]

/-- The header of a report of a snapshot. -/
theorem readHead_reportBytes (pre rest : List UInt8) (s : State b) (index : UInt8)
    (d : Definition b) :
    readHead persistVersion (pre ++ (reportBytes s index d ++ rest)) pre.length =
      .ok ⟨index, d.entryCount, (s.reports index).period.ms, (s.stores index).interval.ms,
        (s.beacons index).node, (s.beacons index).interval.ms, d.retrievalClass⟩ := by
  obtain ⟨p₁, p₂, p₃, p₄, hperiod, hgetPeriod⟩ := exists_putBe32 (s.reports index).period.ms
  obtain ⟨t₁, t₂, t₃, t₄, hstore, hgetStore⟩ := exists_putBe32 (s.stores index).interval.ms
  obtain ⟨n₁, n₂, hnode, hgetNode⟩ := exists_putBe16 (s.beacons index).node
  obtain ⟨i₁, i₂, i₃, i₄, hbeacon, hgetBeacon⟩ := exists_putBe32 (s.beacons index).interval.ms
  have hbytes : reportBytes s index d ++ rest = index :: d.entryCount :: p₁ :: p₂ :: p₃ :: p₄ ::
      t₁ :: t₂ :: t₃ :: t₄ :: n₁ :: n₂ :: i₁ :: i₂ :: i₃ :: i₄ :: d.retrievalClass ::
        (d.entries.flatMap entryBytes ++ rest) := by
    unfold reportBytes
    rw [hperiod, hstore, hnode, hbeacon]
    rfl
  have hlen : 17 ≤ (reportBytes s index d ++ rest).length := by
    rw [hbytes]
    simp only [List.length_cons]
    omega
  unfold readHead readSince
  rw [show readAt _ pre.length 1 = _ from readAt_append pre (k := 0) (by omega),
    readAt_append pre (by omega), readAt_append pre (by omega), if_pos (by decide),
    if_pos (by decide), if_pos (by decide), if_pos (by decide), readAt_append pre (by omega),
    readAt_append pre (by omega), readAt_append pre (by omega), readAt_append pre (by omega), hbytes]
  show Except.ok (RawReport.mk index d.entryCount (getBe32 [p₁, p₂, p₃, p₄])
    (getBe32 [t₁, t₂, t₃, t₄]) (getBe16 [n₁, n₂]) (getBe32 [i₁, i₂, i₃, i₄]) d.retrievalClass) = _
  rw [hgetPeriod, hgetStore, hgetNode, hgetBeacon]

/-- The length of a report of a snapshot. -/
theorem length_reportBytes (s : State b) (index : UInt8) (d : Definition b) :
    (reportBytes s index d).length = 17 + d.entries.length * 4 := by
  have hentries : (d.entries.flatMap entryBytes).length = d.entries.length * 4 := by
    rw [List.length_flatMap]
    simp [entryBytes]
  unfold reportBytes
  simp only [List.length_cons, List.length_append, length_putBe16, length_putBe32, hentries]
  omega

/-- The entries of a report of a snapshot. -/
theorem readEntries_append (pre rest : List UInt8) (entries : List Entry) :
    readEntries (pre ++ (entries.flatMap entryBytes ++ rest)) entries.length pre.length =
      .ok entries := by
  induction entries generalizing pre with
  | nil => rfl
  | cons entry entries ih =>
    obtain ⟨n₁, n₂, hnode, hgetNode⟩ := exists_putBe16 entry.node
    obtain ⟨i₁, i₂, hid, hgetId⟩ := exists_putBe16 entry.paramId
    have hbytes : (entry :: entries).flatMap entryBytes ++ rest =
        [n₁, n₂, i₁, i₂] ++ (entries.flatMap entryBytes ++ rest) := by
      rw [List.flatMap_cons, entryBytes, hnode, hid]
      rfl
    have hlen : 4 ≤ ([n₁, n₂, i₁, i₂] ++ (entries.flatMap entryBytes ++ rest)).length := by
      simp
    have htail := ih (pre ++ [n₁, n₂, i₁, i₂])
    rw [List.append_assoc, List.length_append] at htail
    rw [hbytes, List.length_cons]
    unfold readEntries
    rw [show readAt _ pre.length 2 = _ from readAt_append pre (k := 0) (by omega),
      readAt_append pre (by omega)]
    show (readEntries _ entries.length (pre.length + 4) >>= fun entries =>
      Except.ok (⟨getBe16 [n₁, n₂], getBe16 [i₁, i₂]⟩ :: entries)) = _
    rw [show pre.length + 4 = pre.length + [n₁, n₂, i₁, i₂].length from rfl, htail, hgetNode, hgetId]
    rfl

/-- `entry_count` counts the entries. -/
theorem Definition.toNat_entryCount (d : Definition b) : d.entryCount.toNat = d.entries.length := by
  have hle := d.entries_le
  have hrange := b.entries_range
  have hlen : d.entries.length = d.fields.length := List.length_map _
  unfold Definition.entryCount
  rw [UInt8.toNat_ofNat', hlen]
  exact Nat.mod_eq_of_lt (by omega)

/-- The header of a report, and its entries behind it. -/
theorem reportBytes_split (s : State b) (index : UInt8) (d : Definition b) :
    ∃ head, reportBytes s index d = head ++ d.entries.flatMap entryBytes ∧ head.length = 17 :=
  ⟨index :: d.entryCount :: (putBe32 (s.reports index).period.ms ++
    (putBe32 (s.stores index).interval.ms ++ (putBe16 (s.beacons index).node ++
      (putBe32 (s.beacons index).interval.ms ++ [d.retrievalClass])))),
    by simp [reportBytes], by simp⟩

/-- What a report of the snapshot is restored as, with a definition that it is laid out as. -/
def restoredAs (s : State b) (index : UInt8) (d : Definition b) : Restored b :=
  ⟨d, (s.reports index).period, (s.stores index).interval, (s.beacons index).node,
    (s.beacons index).interval.ms⟩

/-- **A report of a snapshot is read back**, up to the layout of its entries. -/
theorem loadReport_reportBytes (lists : Listings) {items : UInt8 → Option (Restored b)}
    (pre rest : List UInt8) (s : State b) {index : UInt8} (d : Definition b)
    (hindex : index.toNat < b.reports) (hnew : items index = none) :
    loadReport b lists persistVersion (pre ++ (reportBytes s index d ++ rest)) items pre.length =
      match prepareDefinition b lists index d.entries ⟨d.retrievalClass, d.class_le⟩ with
      | .error e => .error (.errno e)
      | .ok d' => .ok ((index, restoredAs s index d'),
          pre.length + (reportBytes s index d).length) := by
  have hcount := d.toNat_entryCount
  have hentries : d.entries.length = d.fields.length := List.length_map _
  have hpos := List.length_pos_iff.2 d.some_entry
  have hle := d.entries_le
  have hlen := length_reportBytes s index d
  have hsize : (pre ++ (reportBytes s index d ++ rest)).length =
      pre.length + (17 + d.entries.length * 4) + rest.length := by
    rw [List.length_append, List.length_append, hlen]
    omega
  have hadmitted : ¬ (index.toNat ≥ b.reports ∨ (items index).isSome = true ∨ d.entryCount = 0 ∨
      d.entryCount.toNat > b.entries) := by
    rintro (h | h | h | h)
    · omega
    · rw [hnew] at h
      cases h
    · rw [h] at hcount
      have h0 : (0 : UInt8).toNat = 0 := rfl
      omega
    · omega
  have hbeacon : ¬ beaconRefused b ⟨index, d.entryCount, (s.reports index).period.ms,
      (s.stores index).interval.ms, (s.beacons index).node, (s.beacons index).interval.ms,
        d.retrievalClass⟩ := by
    rintro ⟨hms, hrefused⟩
    have hms' : (s.beacons index).interval.ms ≠ 0 := hms
    obtain ⟨hnode, hbroadcast⟩ := (s.beacons index).admitted.resolve_left hms'
    have hfloor := (s.beacons index).interval.admitted.resolve_left hms'
    rcases hrefused with h | h | h
    · exact absurd hfloor (not_le.2 h)
    · exact hnode h
    · exact absurd hbroadcast (UInt16.not_lt.2 h)
  obtain ⟨head, hsplit, hhead⟩ := reportBytes_split s index d
  have hread : readEntries (pre ++ (reportBytes s index d ++ rest)) d.entryCount.toNat
      (pre.length + reportHeaderSize persistVersion) = .ok d.entries := by
    have h := readEntries_append (pre ++ head) rest d.entries
    rw [List.length_append, hhead] at h
    rw [hcount, hsplit]
    show readEntries _ _ (pre.length + 17) = _
    simpa only [List.append_assoc] using h
  unfold loadReport
  rw [if_neg (by rw [hsize]; show ¬ _ < pre.length + 17; omega), readHead_reportBytes]
  dsimp only
  rw [if_neg hadmitted, Interval.ofMs_ms, Interval.ofMs_ms]
  dsimp only
  rw [if_neg hbeacon, dif_pos d.class_le, if_neg (by
    rw [hsize, hcount]
    show ¬ _ < pre.length + 17 + d.entries.length * 4
    omega), hread]
  dsimp only
  have hend : pre.length + reportHeaderSize persistVersion +
      d.entryCount.toNat * persistEntrySize = pre.length + (reportBytes s index d).length := by
    rw [hlen, hcount]
    show pre.length + 17 + d.entries.length * 4 = _
    omega
  rw [hend]
  rfl

/-- The definitions of a snapshot are prepared, one in each turn. -/
def prepareAll (lists : ℕ → Listings) (s : State b) :
    List UInt8 → ℕ → (UInt8 → Option (Restored b)) → Except Errno (UInt8 → Option (Restored b))
  | [], _, items => .ok items
  | index :: indices, turn, items =>
    match (s.reports index).definition with
    | none => prepareAll lists s indices turn items
    | some d =>
      match prepareDefinition b (lists turn) index d.entries ⟨d.retrievalClass, d.class_le⟩ with
      | .error e => .error e
      | .ok d' => prepareAll lists s indices (turn + 1)
          (Function.update items index (some (restoredAs s index d')))

/-- **The reports of a snapshot are read back**, up to the layout of their entries. -/
theorem loadReports_snapshot (lists : ℕ → Listings) (s : State b) {indices : List UInt8}
    (hindices : ∀ index ∈ indices, index.toNat < b.reports) (hnodup : indices.Nodup)
    (pre rest : List UInt8) (turn : ℕ) (items : UInt8 → Option (Restored b))
    (hnew : ∀ index ∈ indices, items index = none) :
    loadReports b lists persistVersion (pre ++ ((snapshotReports s indices).flatten ++ rest))
        (snapshotReports s indices).length turn items pre.length =
      match prepareAll lists s indices turn items with
      | .error e => .error (.errno e)
      | .ok items => .ok (items, pre.length + (snapshotReports s indices).flatten.length) := by
  induction indices generalizing pre turn items with
  | nil => rfl
  | cons index indices ih =>
    obtain ⟨hnot, hnodup'⟩ := List.nodup_cons.1 hnodup
    have hindices' := fun i hi => hindices i (List.mem_cons_of_mem index hi)
    cases hd : (s.reports index).definition with
    | none =>
      have hnew' := fun i hi => hnew i (List.mem_cons_of_mem index hi)
      simp only [snapshotReports, prepareAll, hd]
      exact ih hindices' hnodup' pre turn items hnew'
    | some d =>
      have hfirst := loadReport_reportBytes (lists turn) pre
        ((snapshotReports s indices).flatten ++ rest) s d (hindices index List.mem_cons_self)
        (hnew index List.mem_cons_self)
      simp only [snapshotReports, prepareAll, hd, List.flatten_cons, List.length_cons,
        List.append_assoc, loadReports]
      rw [hfirst]
      cases hprepare : prepareDefinition b (lists turn) index d.entries
        ⟨d.retrievalClass, d.class_le⟩ with
      | error e => rfl
      | ok d' =>
        dsimp only
        have hrest := ih hindices' hnodup' (pre ++ reportBytes s index d) (turn + 1)
          (Function.update items index (some (restoredAs s index d'))) (fun i hi => by
            rw [Function.update_of_ne (by rintro rfl; exact hnot hi)]
            exact hnew i (List.mem_cons_of_mem index hi))
        rw [List.append_assoc, List.length_append] at hrest
        rw [hrest, List.length_append, Nat.add_assoc]

end KfswServices.Hk
