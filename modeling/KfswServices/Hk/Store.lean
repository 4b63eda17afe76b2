/-
# The store of a report

`src/hk/hk_store.c`: samples in a file with one slot for each sequence number modulo the capacity.
`kfsw_hk_store_flush` writes the samples that are pending, `create_file` begins a file, and
`kfsw_hk_store_restore_prepare` reads one after a reset.

The file system answers `fs_seek` and `fs_write` in turn (`Answer`).  A write that fails may have got
some bytes in, and where the answers run out the node is reset; a reset inside a write is a short
write with no answer behind it.
-/

import KfswServices.Hk.Held

namespace KfswServices.Hk

open Library

variable {b : Build}

/-! ### Writing -/

/-- What `fs_seek` or `fs_write` comes to.  A write that fails has got `count` bytes in. -/
inductive Answer
  | fails (e : Errno) (count : ℕ)
  | done (count : ℕ)
  deriving DecidableEq

/-- How a call ends: it returns, or the node is reset inside it. -/
inductive Ended
  | returned (result : Option Errno)
  | cut
  deriving DecidableEq

/-- A part of the bytes of a write gets in; none of them leave the file as it is. -/
def putBytes (file : List UInt8) (pos : ℕ) (bytes : List UInt8) : List UInt8 :=
  if bytes = [] then file else splice 0 file pos bytes

/-- The loop of `write_at`. -/
def writeLoop : List Answer → List UInt8 → ℕ → List UInt8 → Ended × List UInt8 × List Answer
  | [], file, _, data => if data = [] then (.returned none, file, []) else (.cut, file, [])
  | answer :: answers, file, pos, data =>
    if data = [] then (.returned none, file, answer :: answers)
    else
      match answer with
      | .fails e count => (.returned (some e), putBytes file pos (data.take count), answers)
      | .done count =>
        if count = 0 then (.returned (some Errno.EIO), file, answers)
        else writeLoop answers (putBytes file pos (data.take count))
          (pos + (data.take count).length) (data.drop count)

/-- `write_at`. -/
def writeAt (answers : List Answer) (file : List UInt8) (offset : ℕ) (data : List UInt8) :
    Ended × List UInt8 × List Answer :=
  match answers with
  | [] => (.cut, file, [])
  | .fails e _ :: answers => (.returned (some e), file, answers)
  | .done _ :: answers => writeLoop answers file offset data

/-- Parts of a write that are written one behind the other. -/
theorem putBytes_putBytes (file : List UInt8) (pos : ℕ) (bytes more : List UInt8) :
    putBytes (putBytes file pos bytes) (pos + bytes.length) more =
      putBytes file pos (bytes ++ more) := by
  unfold putBytes
  by_cases hbytes : bytes = []
  · subst hbytes
    rfl
  · by_cases hmore : more = []
    · subst hmore
      rw [if_pos rfl, List.append_nil]
    · rw [if_neg hmore, if_neg hbytes, if_neg (by simp [hbytes]), splice_splice_append]

/-- **A write that succeeds** has got all the bytes in. -/
theorem writeLoop_none {answers rest : List Answer} {file file' : List UInt8} {pos : ℕ}
    {data : List UInt8} (h : writeLoop answers file pos data = (.returned none, file', rest)) :
    file' = putBytes file pos data := by
  induction answers generalizing file pos data with
  | nil =>
    unfold writeLoop at h
    split_ifs at h with hdata
    · rw [hdata, putBytes, if_pos rfl]
      exact (congrArg (·.2.1) h).symm
    · cases congrArg Prod.fst h
  | cons answer answers ih =>
    unfold writeLoop at h
    split_ifs at h with hdata
    · rw [hdata, putBytes, if_pos rfl]
      exact (congrArg (·.2.1) h).symm
    · cases answer with
      | fails e count => cases congrArg Prod.fst h
      | done count =>
        dsimp only at h
        split_ifs at h with hcount
        · cases congrArg Prod.fst h
        · rw [ih h, putBytes_putBytes, List.take_append_drop]

theorem writeAt_none {answers rest : List Answer} {file file' : List UInt8} {offset : ℕ}
    {data : List UInt8} (h : writeAt answers file offset data = (.returned none, file', rest)) :
    file' = putBytes file offset data := by
  unfold writeAt at h
  split at h
  · cases congrArg Prod.fst h
  · cases congrArg Prod.fst h
  · exact writeLoop_none h

/-- `KFSW_HK_STORE_MAGIC`. -/
abbrev storeMagic : List UInt8 := [0x4b, 0x48, 0x4b, 0x53]

/-- `KFSW_HK_STORE_VERSION`. -/
abbrev storeVersion : UInt8 := 1

/-- `KFSW_HK_STORE_HEADER_SIZE`. -/
abbrev storeHeaderSize : ℕ := 12

/-- The header of a store file. -/
def storeHeader (b : Build) (report : UInt8) (recordSize : ℕ) : List UInt8 :=
  storeMagic ++ (storeVersion :: report ::
    (putBe16 (UInt16.ofNat recordSize) ++ putBe32 (UInt32.ofNat b.storeCapacity)))

@[simp] theorem length_storeHeader (b : Build) (report : UInt8) (recordSize : ℕ) :
    (storeHeader b report recordSize).length = storeHeaderSize := by
  simp [storeHeader]

/-- Where the slot of a sequence is. -/
def slotOffset (recordSize slot : ℕ) : ℕ := storeHeaderSize + slot * recordSize

/-- The slot of a sequence. -/
def slotOf (b : Build) (sequence : UInt16) : ℕ := sequence.toNat % b.storeCapacity

/-- What the file system answers to a file that is opened for writing: `fs_open`, the seeks and
writes, and `fs_close`. -/
structure WriteIo where
  opened : Option Errno
  answers : List Answer
  closed : Option Errno

/-- `create_file`; `mkdir` is what `fs_mkdir` answers. -/
def createFile (b : Build) (mkdir : Option Errno) (io : WriteIo) (report : UInt8) (recordSize : ℕ)
    (file : Option (List UInt8)) : Ended × Option (List UInt8) :=
  if mkdir ≠ none ∧ mkdir ≠ some .EEXIST then (.returned mkdir, file)
  else
    match io.opened with
    | some e => (.returned (some e), file)
    | none =>
      match writeAt io.answers [] 0 (storeHeader b report recordSize) with
      | (.cut, bytes, _) => (.cut, some bytes)
      | (.returned result, bytes, _) => (.returned (result.or io.closed), some bytes)

/-- **A file that is created** has a header. -/
theorem createFile_none {mkdir : Option Errno} {io : WriteIo} {report : UInt8} {recordSize : ℕ}
    {file file' : Option (List UInt8)}
    (h : createFile b mkdir io report recordSize file = (.returned none, file')) :
    file' = some (storeHeader b report recordSize) := by
  unfold createFile at h
  split_ifs at h with hmkdir
  · exact absurd (Ended.returned.inj (congrArg Prod.fst h)) hmkdir.1
  · split at h
    · cases congrArg Prod.fst h
    · split at h
      · cases congrArg Prod.fst h
      · rename_i result bytes rest hwrite
        obtain ⟨rfl, -⟩ := Option.or_eq_none_iff.1 (Ended.returned.inj (congrArg Prod.fst h))
        have hbytes := writeAt_none hwrite
        unfold putBytes at hbytes
        rw [if_neg (by simp [storeHeader])] at hbytes
        have hfile := congrArg Prod.snd h
        dsimp only at hfile
        rw [← hfile, hbytes]
        simp [splice]

/-- `fs_open` of a file that is not to be created. -/
def openExisting (opened : Option Errno) (file : Option (List UInt8)) : Except Errno (List UInt8) :=
  match opened, file with
  | some e, _ => .error e
  | none, none => .error .ENOENT
  | none, some bytes => .ok bytes

/-! ### Flushing -/

/-- The loop of `kfsw_hk_store_flush`, over the samples and their slots. -/
def flushRecords (recordSize : ℕ) : List (ℕ × Except Errno Sample) → List Answer → List UInt8 →
    Ended × List UInt8 × List Answer
  | [], answers, file => (.returned none, file, answers)
  | (_, .error e) :: _, answers, file => (.returned (some e), file, answers)
  | (slot, .ok sample) :: rest, answers, file =>
    match writeAt answers file (slotOffset recordSize slot) (sample.data.take recordSize) with
    | (.returned none, file, answers) => flushRecords recordSize rest answers file
    | stopped => stopped

/-- **A flush that succeeds** has written every sample into its slot. -/
theorem flushRecords_none {recordSize : ℕ} {samples : List Sample} {slot : Sample → ℕ}
    {answers rest : List Answer} {file file' : List UInt8}
    (h : flushRecords recordSize (samples.map fun x => (slot x, .ok x)) answers file =
      (.returned none, file', rest)) : file' = samples.foldl
      (fun file x => putBytes file (slotOffset recordSize (slot x)) (x.data.take recordSize))
        file := by
  induction samples generalizing answers file with
  | nil => exact (congrArg (·.2.1) h).symm
  | cons x samples ih =>
    rw [List.map_cons] at h
    unfold flushRecords at h
    split at h
    · rename_i file₁ answers₁ hwrite
      rw [List.foldl_cons, ← writeAt_none hwrite]
      exact ih h
    · rename_i hfailed
      exact absurd h (hfailed _ _)

/-- What a flush of `pending` samples is about, the oldest first. -/
def flushed (report : UInt8) (pending : ℕ) (s : State b) : List (ℕ × Except Errno Sample) :=
  (List.range pending).map fun index =>
    (slotOf b ((s.reports report).sequence - UInt16.ofNat pending + UInt16.ofNat index),
      get report (pending - 1 - index) s)

/-- `kfsw_hk_store_flush`, on the file of the report. -/
def storeFlush (io : WriteIo) (report : UInt8) (s : State b) (file : Option (List UInt8)) :
    Ended × StoreState b × Option (List UInt8) :=
  let st := s.stores report
  if report.toNat ≥ b.reports ∨ !st.isOpen then (.returned (some .EACCES), st, file)
  else
    let pending := min (st.pending + 1) b.history
    let st := { st with pending := pending }
    if pending < st.everyN then (.returned none, st, file)
    else
      match openExisting io.opened file with
      | .error e => (.returned (some e), st, file)
      | .ok bytes =>
        match flushRecords st.recordSize (flushed report pending s) io.answers bytes with
        | (.cut, bytes, _) => (.cut, st, some bytes)
        | (.returned result, bytes, _) =>
          (.returned (result.or io.closed), { st with pending := 0 }, some bytes)

/-- The state with the store files. -/
structure Node (b : Build) where
  state : State b
  files : UInt8 → Option (List UInt8)

/-- The last part of `kfsw_hk_collect`, with the store. -/
def collectStore (io : WriteIo) (c : Collecting b) (sample : Sample) (failures : ℕ) (n : Node b) :
    Ended × Node b :=
  match collectCommit c sample failures n.state with
  | (some e, s) => (.returned (some e), { n with state := s })
  | (none, s) =>
    if (s.stores c.report).interval.ms = 0 then (.returned none, { n with state := s })
    else
      match storeFlush io c.report s (n.files c.report) with
      | (ended, st, file) =>
        (match ended with
          | .cut => .cut
          | .returned _ => .returned none,
          ⟨s.setStoreState c.report st, Function.update n.files c.report file⟩)

/-! ### After a reset -/

/-- What the file system answers to a file that is opened for reading: `fs_open`, the failures of
the reads, and `fs_close`. -/
structure ReadIo where
  opened : Option Errno
  reads : ℕ → Option Errno
  closed : Option Errno

/-- The file system answers everything. -/
def ReadIo.working : ReadIo := ⟨none, fun _ => none, none⟩

/-- A sequence is newer than the newest one so far, if there is one. -/
def newer (newest : Option UInt16) (sequence : UInt16) : Option UInt16 :=
  match newest with
  | none => some sequence
  | some n => if 0 < (sequence - n).toInt16.toInt then some sequence else some n

/-- The loop of `kfsw_hk_store_restore_prepare` over the slots, `turns` of which are still to come:
the result, and the newest sequence. -/
def prepareSlots (b : Build) (report : UInt8) (recordSize : ℕ) (reads : ℕ → Option Errno)
    (file : List UInt8) : ℕ → ℕ → Option UInt16 → Option Errno × Option UInt16
  | 0, _, newest => (none, newest)
  | turns + 1, slot, newest =>
    match reads (slot + 1) with
    | some e => (some e, newest)
    | none =>
      let sample := region file (slotOffset recordSize slot) recordSize
      if sample.length = 0 then (none, newest)
      else if sample.length ≠ recordSize ∨ slot = b.storeCapacity then (some .EBADMSG, newest)
      else if sample.headD 0 = 0 then
        prepareSlots b report recordSize reads file turns (slot + 1) newest
      else
        let sequence := getBe16 (sample.drop 2)
        if sample.headD 0 ≠ protocolVersion ∨ sample.getD 1 0 ≠ report ∨ slotOf b sequence ≠ slot then
          (some .EBADMSG, newest)
        else
          prepareSlots b report recordSize reads file turns (slot + 1) (newer newest sequence)

/-- The header is that of the store of the report. -/
def headerOf (b : Build) (report : UInt8) (recordSize : ℕ) (header : List UInt8) : Bool :=
  header.length = storeHeaderSize ∧ header.take 4 = storeMagic ∧ header.getD 4 0 = storeVersion ∧
    header.getD 5 0 = report ∧ (getBe16 (header.drop 6)).toNat = recordSize ∧
    (getBe32 (header.drop 8)).toNat = b.storeCapacity

/-- The header that is written is read. -/
theorem headerOf_storeHeader (b : Build) (report : UInt8) {recordSize : ℕ}
    (h : recordSize ≤ b.sampleBytes) :
    headerOf b report recordSize (storeHeader b report recordSize) = true := by
  have hcap := b.storeCapacity_range
  have hbytes := b.sampleBytes_range
  obtain ⟨s₁, s₂, hputSize, hgetSize⟩ := exists_putBe16 (UInt16.ofNat recordSize)
  obtain ⟨c₁, c₂, c₃, c₄, hputCap, hgetCap⟩ := exists_putBe32 (UInt32.ofNat b.storeCapacity)
  have hsize : (getBe16 [s₁, s₂, c₁, c₂, c₃, c₄]).toNat = recordSize := by
    rw [hgetSize, UInt16.toNat_ofNat', Nat.mod_eq_of_lt (by omega)]
  have hcapacity : (getBe32 [c₁, c₂, c₃, c₄]).toNat = b.storeCapacity := by
    rw [hgetCap, UInt32.toNat_ofNat', Nat.mod_eq_of_lt (by omega)]
  unfold headerOf storeHeader
  rw [hputSize, hputCap, decide_eq_true_iff]
  exact ⟨rfl, rfl, rfl, rfl, hsize, hcapacity⟩

/-- The store that `kfsw_hk_store_restore_prepare` prepares. -/
def restoredStore (interval : Interval b.storeFloor) (period : UInt32) (recordSize : ℕ) :
    StoreState b :=
  ⟨interval, min (collectionsIn interval.ms period) b.history, 0, recordSize, true⟩

/-- `kfsw_hk_store_restore_prepare`, when a file of the report is open. -/
def prepareFile (b : Build) (io : ReadIo) (report : UInt8) (recordSize : ℕ) (file : List UInt8) :
    Option Errno × Option UInt16 :=
  let header := file.take storeHeaderSize
  if (io.reads 0).isSome ∨ !headerOf b report recordSize header then (some .EBADMSG, none)
  else
    match prepareSlots b report recordSize io.reads file (b.storeCapacity + 1) 0 none with
    | (result, newest) => (result.or io.closed, newest)

/-- `kfsw_hk_store_restore_prepare`: the result, the store and the sequence, and the file. -/
def restorePrepare (mkdir : Option Errno) (create : WriteIo) (io : ReadIo) (report : UInt8)
    (interval : Interval b.storeFloor) (period : UInt32) (recordSize : ℕ)
    (file : Option (List UInt8)) :
    Ended × (StoreState b × UInt16) × Option (List UInt8) :=
  let nothing : StoreState b := ⟨.off, 0, 0, 0, false⟩
  if interval.ms = 0 then (.returned none, (nothing, 0), file)
  else
    match openExisting io.opened file with
    | .error .ENOENT =>
      match createFile b mkdir create report recordSize file with
      | (.returned none, file) =>
        (.returned none, (restoredStore interval period recordSize, 0), file)
      | (ended, file) => (ended, (nothing, 0), file)
    | .error e => (.returned (some e), (nothing, 0), file)
    | .ok bytes =>
      match prepareFile b io report recordSize bytes with
      | (result, newest) =>
        let sequence := (newest.map (· + 1)).getD 0
        match result with
        | some e => (.returned (some e), (nothing, sequence), file)
        | none => (.returned none, (restoredStore interval period recordSize, sequence), file)

end KfswServices.Hk
