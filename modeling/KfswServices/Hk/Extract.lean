/-
# Extracting a dataset

`kfsw_hk_store_extract` of `src/hk/hk_reader.c` walks the store three times: for the query, for the
window of the selection, which goes into the header, and for the records.  They are written to a
temporary file, the checksum is put into the header at last, and the file is renamed to its path.
Between two walks the store may become any other.

Whatever the file system does, a call that fails leaves the file at the path as it was.  One that
returns 0 leaves the header of the second walk in front of the records of the third.  Of the two
only the numbers of records are compared, so the file is a dataset if and only if the first and the
last sequences and the record size agree as well (`extract_sound_iff`).
-/

import KfswServices.Hk.Reader
import KfswServices.Storage.SnapshotFile

namespace KfswServices.Hk

open Library Ftp KfswServices.Storage

variable {b : Build} {σ : Type}

/-! ### Extracting -/

/-- A pass over the store: what it is answered, and the file as it is then. -/
structure Pass where
  io : ReaderIo
  file : Option (List UInt8)

/-- `struct window`. -/
structure Window where
  firstSequence : UInt16
  lastSequence : UInt16
  deriving DecidableEq

/-- `note_window`. -/
def noteWindow : Visitor Hk.Window := fun sample position state =>
  (true, ⟨if position = 0 then sample.sequence else state.firstSequence, sample.sequence⟩)

/-- A visitor that calls the file system. -/
abbrev Writer (σ : Type) : Type := Sample → UInt16 → σ → Program (Bool × σ)

/-- The loop of `walk`, for such a visitor. -/
def walkLoopWith (b : Build) (io : ReaderIo) (filter : Filter) (reader : Reader)
    (visitor : Writer σ) : ℕ → UInt16 → UInt16 → σ → Program (UInt16 × σ)
  | 0, _, position, state => pure (position, state)
  | turns + 1, index, position, state =>
    match readerRecord b (io.reads (reader.capacity + 1 + index.toNat)) reader filter.report
      (readerOldest reader + index) with
    | .error _ => walkLoopWith b io filter reader visitor turns (index + 1) position state
    | .ok sample =>
      if !sampleMatches filter sample then
        walkLoopWith b io filter reader visitor turns (index + 1) position state
      else do
        match ← visitor sample position state with
        | (true, state) =>
          walkLoopWith b io filter reader visitor turns (index + 1) (position + 1) state
        | (false, state) => pure (position + 1, state)

/-- `walk`, for such a visitor. -/
def walkWith (b : Build) (pass : Pass) (filter : Filter) (visitor : Writer σ) (state : σ) :
    Program (Except Errno (UInt16 × σ)) :=
  if filter.report.toNat ≥ b.reports then pure (.error .EINVAL)
  else
    match readerOpen b pass.io filter.report pass.file with
    | .error e => pure (.error e)
    | .ok reader => do
      let matched ← walkLoopWith b pass.io filter reader visitor reader.written.toNat 0 0 state
      pure (.ok matched)

/-- `struct extract_state`. -/
structure ExtractState where
  file : Handle
  crc : UInt32
  recordSize : ℕ
  error : Option Errno

/-- `write_one`, the loop of which is that of the file transfer service. -/
def writeOne : Writer ExtractState := fun sample _ state => do
  let data := sample.data.take state.recordSize
  match ← writeAllLoop data.length state.file data with
  | .error e => pure (false, { state with error := some e })
  | .ok file => pure (true, { state with file := file, crc := crc32Update state.crc data })

/-- `KFSW_HK_DATASET_MAGIC`, of `KFSW_HK_DATASET_MAGIC_SIZE` bytes. -/
def datasetMagic : List UInt8 := [0x4b, 0x48, 0x4b, 0x44]

/-- `KFSW_HK_DATASET_VERSION`. -/
def datasetVersion : UInt8 := 1

/-- `KFSW_HK_DATASET_CRC_OFFSET`. -/
def datasetCrcOffset : ℕ := 16

/-- `KFSW_HK_EXTRACT_PATH_MAX`. -/
def extractPathMax : ℕ := 96

/-- The path of the temporary file, with `KFSW_HK_EXTRACT_SUFFIX` behind. -/
def extractTemporary (path : CString) : CString := path ++ CString.ofString ".part"

/-- The header up to the checksum. -/
def datasetFront (report : UInt8) (recordSize : ℕ) (selected : UInt16) (selection : Hk.Window) :
    List UInt8 :=
  datasetMagic ++ ([datasetVersion, report] ++ (putBe16 (UInt16.ofNat recordSize) ++
    (putBe32 selected.toUInt32 ++
      (putBe16 selection.firstSequence ++ putBe16 selection.lastSequence))))

/-- The checksum is written over the zeros of the header. -/
def patchChecksum (file : Handle) (crc : UInt32) : Program (Option Errno) := do
  match ← fsSeek file datasetCrcOffset with
  | .error e => pure (some e)
  | .ok file =>
    match ← fsWrite file (putBe32 crc) with
    | .error _ => pure (some Errno.EIO)
    | .ok (count, _) => pure (if count ≠ 4 then some Errno.EIO else none)

/-- What is done with the open temporary file: how many records were written. -/
def fillDataset (b : Build) (filter : Filter) (records : Pass) (recordSize : ℕ)
    (header : List UInt8) (selected : UInt16) (file : Handle) : Program (Except Errno UInt16) := do
  match ← fsWrite file header with
  | .error _ => pure (.error Errno.EIO)
  | .ok (count, file) =>
    if count ≠ header.length then pure (.error Errno.EIO)
    else
      match ← walkWith b records filter writeOne ⟨file, crc32 header, recordSize, none⟩ with
      | .error e => pure (.error e)
      | .ok (written, state) =>
        match state.error with
        | some e => pure (.error e)
        | none =>
          -- the ring moved between the two passes
          if written ≠ selected then pure (.error .EAGAIN)
          else
            match ← patchChecksum state.file state.crc with
            | some e => pure (.error e)
            | none =>
              match ← fsSync state.file with
              | some e => pure (.error e)
              | none => pure (.ok written)

/-- What follows the `fs_open`. -/
def commitDataset (path : CString) (file : Handle) (fill : Program (Except Errno UInt16)) :
    Program (Except Errno UInt16) := do
  let result ← fill
  let closeResult ← fsClose file
  match result, closeResult with
  | .error e, _ =>
    let _ ← fsUnlink (extractTemporary path)
    pure (.error e)
  | .ok _, some e =>
    let _ ← fsUnlink (extractTemporary path)
    pure (.error e)
  | .ok written, none =>
    match ← fsRename (extractTemporary path) path with
    | some e =>
      let _ ← fsUnlink (extractTemporary path)
      pure (.error e)
    | none => pure (.ok written)

/-- `kfsw_hk_store_extract`, with the passes it takes over the store: what is returned in `records`,
when it returns 0. -/
def storeExtract (s : State b) (query window records : Pass) (filter : Option Filter)
    (path : Option CString) : Program (Except Errno UInt16) :=
  match filter, path with
  | some filter, some path =>
    if path.length = 0 ∨ path.length ≥ extractPathMax then pure (.error .EINVAL)
    else
      match storeQuery query.io filter.report s query.file with
      | .error e => pure (.error e)
      | .ok info =>
        match walk b window.io filter window.file noteWindow ⟨0, 0⟩ with
        | .error e => pure (.error e)
        | .ok (selected, selection) =>
          if selected = 0 then pure (.error .ENOENT)
          else do
            let header := datasetFront filter.report info.recordSize selected selection ++ putBe32 0
            -- a temporary left by an interrupted extract would be appended to
            let _ ← fsUnlink (extractTemporary path)
            match ← fsOpen (extractTemporary path) .CREATE_TRUNC with
            | .error e => pure (.error e)
            | .ok file =>
              commitDataset path file
                (fillDataset b filter records info.recordSize header selected file)
  | _, _ => pure (.error .EINVAL)

/-! ### What a walk selects -/

/-- What a walk visits in a pass. -/
def Pass.selected (b : Build) (pass : Pass) (filter : Filter) : Except Errno (List Sample) :=
  if filter.report.toNat ≥ b.reports then .error .EINVAL
  else
    match readerOpen b pass.io filter.report pass.file with
    | .error e => .error e
    | .ok reader => .ok (matching b pass.io filter reader 0 reader.written.toNat)

/-- **A walk** visits what the pass selects. -/
theorem walk_selected (pass : Pass) (filter : Filter) (visitor : Visitor σ) (state : σ) :
    walk b pass.io filter pass.file visitor state =
      (pass.selected b filter).map fun samples => visitAll visitor samples 0 state := by
  unfold walk Pass.selected
  split_ifs
  · rfl
  · cases readerOpen b pass.io filter.report pass.file with
    | error e => rfl
    | ok reader =>
      have hturns : 0 + reader.written.toNat < 2 ^ 16 := by
        have := reader.written.toNat_lt
        omega
      exact congrArg Except.ok
        (walkLoop_eq pass.io filter reader visitor reader.written.toNat 0 0 state hturns)

theorem Pass.length_selected {pass : Pass} {filter : Filter} {samples : List Sample}
    (h : pass.selected b filter = .ok samples) : samples.length < 2 ^ 16 := by
  unfold Pass.selected at h
  split_ifs at h
  split at h
  · cases h
  · next reader _ =>
    cases h
    exact (length_matching_le ..).trans_lt reader.written.toNat_lt

/-- What such a visitor makes of some records. -/
def visitWith (visitor : Writer σ) : List Sample → UInt16 → σ → Program (UInt16 × σ)
  | [], position, state => pure (position, state)
  | sample :: samples, position, state => do
    match ← visitor sample position state with
    | (true, state) => visitWith visitor samples (position + 1) state
    | (false, state) => pure (position + 1, state)

theorem walkLoopWith_eq (io : ReaderIo) (filter : Filter) (reader : Reader) (visitor : Writer σ)
    (turns index : ℕ) (position : UInt16) (state : σ) (h : index + turns < 2 ^ 16) :
    walkLoopWith b io filter reader visitor turns (UInt16.ofNat index) position state =
      visitWith visitor (matching b io filter reader index turns) position state := by
  induction turns generalizing index position state with
  | zero => rfl
  | succ turns ih =>
    have hnext : UInt16.ofNat index + 1 = UInt16.ofNat (index + 1) :=
      (UInt16.ofNat_add index 1).symm
    have hindex : (UInt16.ofNat index).toNat = index := by
      rw [UInt16.toNat_ofNat', Nat.mod_eq_of_lt (by omega)]
    have ih := ih (index + 1)
    unfold walkLoopWith
    rw [matching_succ, hindex, hnext]
    cases readerRecord b (io.reads (reader.capacity + 1 + index)) reader filter.report
      (readerOldest reader + UInt16.ofNat index) with
    | error e => exact ih _ _ (by omega)
    | ok sample =>
      dsimp only
      by_cases hmatches : sampleMatches filter sample = true
      · rw [hmatches, Bool.not_true, if_neg Bool.false_ne_true, if_pos rfl, List.singleton_append]
        unfold visitWith
        refine congrArg (visitor sample position state >>= ·) (funext ?_)
        rintro ⟨_ | _, state⟩
        · rfl
        · exact ih _ _ (by omega)
      · rw [Bool.not_eq_true] at hmatches
        rw [hmatches, Bool.not_false, if_pos rfl, if_neg Bool.false_ne_true, List.nil_append]
        exact ih _ _ (by omega)

/-- **A walk that writes** visits what the pass selects. -/
theorem walkWith_selected (pass : Pass) (filter : Filter) (visitor : Writer σ) (state : σ) :
    walkWith b pass filter visitor state =
      match pass.selected b filter with
      | .error e => pure (.error e)
      | .ok samples => visitWith visitor samples 0 state >>= fun matched => pure (.ok matched) := by
  unfold walkWith Pass.selected
  split_ifs
  · rfl
  · cases readerOpen b pass.io filter.report pass.file with
    | error e => rfl
    | ok reader =>
      have hturns : 0 + reader.written.toNat < 2 ^ 16 := by
        have := reader.written.toNat_lt
        omega
      have hloop := @walkLoopWith_eq b σ pass.io filter reader visitor reader.written.toNat 0 0
        state hturns
      exact congrArg (· >>= fun matched => pure (Except.ok matched)) hloop

/-- The sequence of the first of some records, and of the last. -/
def firstSequence (samples : List Sample) : UInt16 := (samples.map Sample.sequence).headD 0

def lastSequence (samples : List Sample) : UInt16 := (samples.map Sample.sequence).getLastD 0

/-- Past the first record only the last one counts. -/
theorem visitAll_noteWindow_pos (samples : List Sample) (position : ℕ) (state : Hk.Window)
    (hpos : 0 < position) (hlen : position + samples.length < 2 ^ 16) :
    visitAll noteWindow samples (UInt16.ofNat position) state =
      (UInt16.ofNat (position + samples.length),
        ⟨state.firstSequence, (samples.map Sample.sequence).getLastD state.lastSequence⟩) := by
  induction samples generalizing position state with
  | nil => rfl
  | cons sample samples ih =>
    rw [List.length_cons] at hlen ⊢
    have hnext : UInt16.ofNat position + 1 = UInt16.ofNat (position + 1) :=
      (UInt16.ofNat_add position 1).symm
    have hne : UInt16.ofNat position ≠ 0 := by
      intro h
      have hzero := congrArg UInt16.toNat h
      rw [UInt16.toNat_ofNat', Nat.mod_eq_of_lt (by omega)] at hzero
      exact hpos.ne' hzero
    unfold visitAll noteWindow
    dsimp only
    rw [if_neg hne, hnext]
    refine (ih (position + 1) _ (by omega) (by omega)).trans ?_
    rw [Nat.add_assoc, Nat.add_comm 1, List.map_cons]
    cases samples <;> rfl

/-- **The window** has the number of the records, the first sequence and the last. -/
theorem visitAll_noteWindow {samples : List Sample} (hne : samples ≠ [])
    (hlen : samples.length < 2 ^ 16) (state : Hk.Window) :
    visitAll noteWindow samples 0 state = (UInt16.ofNat samples.length,
      ⟨firstSequence samples, lastSequence samples⟩) := by
  obtain ⟨sample, rest, rfl⟩ := List.exists_cons_of_ne_nil hne
  rw [List.length_cons] at hlen ⊢
  refine (visitAll_noteWindow_pos rest 1 _ Nat.one_pos (by omega)).trans ?_
  rw [Nat.add_comm 1]
  unfold lastSequence
  rw [List.map_cons]
  cases rest <;> rfl

/-! ### The bytes of a dataset -/

/-- A file with the checksum of all of it, taken with zeros in its place. -/
def datasetWith (front records : List UInt8) : List UInt8 :=
  front ++ (putBe32 (crc32 (front ++ (putBe32 0 ++ records))) ++ records)

/-- The records as they are written. -/
def recordBytes (recordSize : ℕ) (samples : List Sample) : List UInt8 :=
  (samples.map fun x => x.data.take recordSize).flatten

/-- The header of some records, and the records. -/
def datasetOf (report : UInt8) (recordSize : ℕ) (samples : List Sample) : List UInt8 :=
  datasetWith (datasetFront report recordSize (UInt16.ofNat samples.length)
    ⟨firstSequence samples, lastSequence samples⟩) (recordBytes recordSize samples)

/-- A record that is in the store in a pass. -/
def Pass.Stored (b : Build) (pass : Pass) (report : UInt8) (x : Sample) : Prop :=
  ∃ reader, readerOpen b pass.io report pass.file = .ok reader ∧
    readerRecord b none reader report x.sequence = .ok x

/-- **A complete dataset**: a header and records.  The header has the number of the records, the
first of their sequences and the last, and the checksum of the file with the checksum zero; each
record is one of the store, with all of its bytes, and the filter selects it. -/
def IsDataset (b : Build) (filter : Filter) (records : Pass) (bytes : List UInt8) : Prop :=
  ∃ recordSize samples, samples ≠ [] ∧ samples.length < 2 ^ 16 ∧
    (∀ x ∈ samples, records.Stored b filter.report x ∧ x.length = recordSize ∧
      sampleMatches filter x = true) ∧
    bytes = datasetOf filter.report recordSize samples

/-- What a reader knows of its file. -/
theorem readerOpen_size {io : ReaderIo} {report : UInt8} {file : Option (List UInt8)}
    {reader : Reader} (h : readerOpen b io report file = .ok reader) :
    reader.recordSize ≤ b.sampleBytes := by
  unfold readerOpen at h
  split_ifs at h
  split at h
  · cases h
  · split at h
    · cases h
    · rw [ite_error_eq_ok] at h
      obtain ⟨-, h⟩ := h
      dsimp only at h
      rw [ite_error_eq_ok] at h
      obtain ⟨hsize, h⟩ := h
      cases h
      exact not_lt.1 fun hlt => hsize (Or.inr (Or.inl hlt))

/-- What is read of a record. -/
theorem readerRecord_ok {failed : Option Errno} {reader : Reader} {report : UInt8}
    {sequence : UInt16} {x : Sample} (h : readerRecord b failed reader report sequence = .ok x) :
    failed = none ∧ x.sequence = sequence ∧ x.length = reader.recordSize ∧
      getBe16 (x.data.drop 2) = sequence ∧ ∃ record, record.length = reader.recordSize ∧
        x.data = record ++ List.replicate (b.sampleBytes - reader.recordSize) 0 := by
  unfold readerRecord at h
  dsimp only at h
  split at h
  · cases h
  · next record hread =>
    rw [ite_error_eq_ok] at h
    obtain ⟨hfound, h⟩ := h
    cases h
    have hsequence := not_not.1 fun hne => hfound (Or.inr (Or.inr hne))
    unfold readAt at hread
    rcases failed with _ | e
    · dsimp only at hread
      rw [ite_error_eq_ok] at hread
      obtain ⟨hlen, hread⟩ := hread
      cases hread
      refine ⟨rfl, rfl, rfl, hsequence, _, ?_, rfl⟩
      rw [length_region] at hlen ⊢
      omega
    · cases hread

namespace Pass

variable {pass : Pass} {filter : Filter} {report : UInt8} {samples : List Sample} {x : Sample}

/-- What a pass selects is in the store, and matches. -/
theorem selected_mem (h : pass.selected b filter = .ok samples) (hx : x ∈ samples) :
    pass.Stored b filter.report x ∧ sampleMatches filter x = true := by
  unfold Pass.selected at h
  split_ifs at h
  split at h
  · cases h
  · next reader hopen =>
    cases h
    obtain ⟨i, -, hi⟩ := List.mem_filterMap.1 hx
    split at hi
    · cases hi
    · next sample hread =>
      split_ifs at hi with hmatches
      cases hi
      obtain ⟨hnone, hsequence, -⟩ := readerRecord_ok hread
      rw [hnone, ← hsequence] at hread
      exact ⟨⟨reader, hopen, hread⟩, hmatches⟩

section

variable (h : pass.Stored b report x)
include h

/-- The records of a pass have one size. -/
theorem Stored.length_eq {y : Sample} (hy : pass.Stored b report y) : x.length = y.length := by
  obtain ⟨reader, hopen, hread⟩ := h
  obtain ⟨reader', hopen', hread'⟩ := hy
  cases hopen.symm.trans hopen'
  rw [(readerRecord_ok hread).2.2.1, (readerRecord_ok hread').2.2.1]

theorem Stored.length_le : x.length ≤ b.sampleBytes := by
  obtain ⟨reader, hopen, hread⟩ := h
  rw [(readerRecord_ok hread).2.2.1]
  exact readerOpen_size hopen

/-- The buffer of a sample is as long as the build says. -/
theorem Stored.length_data : x.data.length = b.sampleBytes := by
  obtain ⟨reader, hopen, hread⟩ := h
  obtain ⟨-, -, -, -, record, hlen, hdata⟩ := readerRecord_ok hread
  have hsize := readerOpen_size hopen
  rw [hdata, List.length_append, List.length_replicate, hlen]
  omega

/-- **The sequence is in the bytes.** -/
theorem Stored.sequence_eq : x.sequence = getBe16 ((x.data.take x.length ++
      List.replicate (b.sampleBytes - x.length) 0).drop 2) := by
  obtain ⟨reader, -, hread⟩ := h
  obtain ⟨-, -, hlength, hsequence, record, hlen, hdata⟩ := readerRecord_ok hread
  rw [hlength, hdata, List.take_left' hlen, ← hdata, hsequence]

end

end Pass

/-! ### What the bytes determine -/

theorem length_datasetFront (report : UInt8) (recordSize : ℕ) (selected : UInt16)
    (selection : Hk.Window) :
    (datasetFront report recordSize selected selection).length = datasetCrcOffset := by
  simp [datasetFront, datasetMagic, datasetCrcOffset]

theorem datasetFront_inj {report : UInt8} {m n : ℕ} {v w : UInt16}
    {selection selection' : Hk.Window} (hm : m < 2 ^ 16) (hn : n < 2 ^ 16)
    (h : datasetFront report m v selection = datasetFront report n w selection') :
    m = n ∧ v = w ∧ selection = selection' := by
  obtain ⟨first, last⟩ := selection
  obtain ⟨first', last'⟩ := selection'
  unfold datasetFront at h
  have hrest := List.append_cancel_left (List.append_cancel_left h)
  obtain ⟨hsize, hrest⟩ := List.append_inj hrest (by rw [length_putBe16, length_putBe16])
  obtain ⟨hcount, hrest⟩ := List.append_inj hrest (by rw [length_putBe32, length_putBe32])
  obtain ⟨hfirst, hlast⟩ := List.append_inj hrest (by rw [length_putBe16, length_putBe16])
  refine ⟨?_, ?_, ?_⟩
  · have hnat := congrArg UInt16.toNat (putBe16_injective hsize)
    rwa [UInt16.toNat_ofNat', UInt16.toNat_ofNat', Nat.mod_eq_of_lt hm, Nat.mod_eq_of_lt hn] at hnat
  · have hnat := congrArg UInt32.toNat (putBe32_injective hcount)
    rwa [UInt16.toNat_toUInt32, UInt16.toNat_toUInt32, UInt16.toNat_inj] at hnat
  · exact congrArg₂ Hk.Window.mk (putBe16_injective hfirst) (putBe16_injective hlast)

theorem datasetWith_inj {front front' records records' : List UInt8}
    (hlen : front.length = front'.length)
    (h : datasetWith front records = datasetWith front' records') :
    front = front' ∧ records = records' := by
  obtain ⟨hfront, hrest⟩ := List.append_inj h hlen
  exact ⟨hfront, (List.append_inj hrest (by rw [length_putBe32, length_putBe32])).2⟩

/-- **The sequences are in the records**, when these are all of their bytes. -/
theorem sequences_eq {pass : Pass} {report : UInt8} {recordSize : ℕ} {xs ys : List Sample}
    (hx : ∀ x ∈ xs, pass.Stored b report x ∧ x.length = recordSize)
    (hy : ∀ y ∈ ys, pass.Stored b report y ∧ y.length = recordSize) (hlen : xs.length = ys.length)
    (h : recordBytes recordSize xs = recordBytes recordSize ys) :
    xs.map Sample.sequence = ys.map Sample.sequence := by
  have hpieces : ∀ zs : List Sample, (∀ z ∈ zs, pass.Stored b report z ∧ z.length = recordSize) →
      (zs.map fun z => z.data.take recordSize).map List.length =
        List.replicate zs.length recordSize := by
    intro zs hz
    rw [List.map_map, List.eq_replicate_iff]
    refine ⟨List.length_map _, fun n hn => ?_⟩
    obtain ⟨z, hmem, rfl⟩ := List.mem_map.1 hn
    obtain ⟨hstored, hsize⟩ := hz z hmem
    have hle := hstored.length_le
    show (z.data.take recordSize).length = recordSize
    rw [List.length_take, hstored.length_data]
    omega
  have hdecode : ∀ zs : List Sample, (∀ z ∈ zs, pass.Stored b report z ∧ z.length = recordSize) →
      zs.map Sample.sequence = (zs.map fun z => z.data.take recordSize).map fun record =>
        getBe16 ((record ++ List.replicate (b.sampleBytes - recordSize) 0).drop 2) := by
    intro zs hz
    rw [List.map_map]
    refine List.map_congr_left fun z hmem => ?_
    obtain ⟨hstored, rfl⟩ := hz z hmem
    exact hstored.sequence_eq
  have heq := List.eq_iff_flatten_eq.2 ⟨h, by rw [hpieces xs hx, hpieces ys hy, hlen]⟩
  rw [hdecode xs hx, hdecode ys hy, heq]

/-! ### Every call -/

section

variable {path : CString} {data written front recs : List UInt8} {s₀ s : Fs} {file : Handle}
  {filter : Filter}

theorem ne_extractTemporary (path : CString) : path ≠ extractTemporary path :=
  Ftp.ne_temporaryPath path

theorem replaces_writeOne (x : Sample) (position : UInt16) (crc : UInt32) (recordSize : ℕ)
    (h : Filling path (extractTemporary path) s₀ file written s) :
    Replaces path data s₀ (writeOne x position ⟨file, crc, recordSize, none⟩) (fun r s' =>
      SameName path s₀ s' ∧ (r.1 = false → r.2.error ≠ none) ∧ (r.1 = true → ∃ file',
        r.2 = ⟨file', crc32Update crc (x.data.take recordSize), recordSize, none⟩ ∧
          Filling path (extractTemporary path) s₀ file' (written ++ x.data.take recordSize) s'))
      s := by
  refine (replaces_writeAllLoop (ne_extractTemporary path) le_rfl h).bind ?_
  rintro (e | file') s₁ ⟨hsame, hok⟩
  · exact ⟨hsame, fun _ => Option.some_ne_none e, fun hr => by cases hr⟩
  · obtain ⟨-, hfilling⟩ := hok file' rfl
    exact ⟨hsame, fun hr => (by cases hr), fun _ => ⟨file', rfl, hfilling⟩⟩

/-- **The records** are all written, or there is an error. -/
theorem replaces_visitWith (samples : List Sample) (position : UInt16) (crc : UInt32)
    (recordSize : ℕ) (h : Filling path (extractTemporary path) s₀ file written s) :
    Replaces path data s₀ (visitWith writeOne samples position ⟨file, crc, recordSize, none⟩)
      (fun r s' => SameName path s₀ s' ∧ (r.2.error = none →
        r.1 = position + UInt16.ofNat samples.length ∧
          r.2.crc = crc32Update crc (recordBytes recordSize samples) ∧
          Filling path (extractTemporary path) s₀ r.2.file
            (written ++ recordBytes recordSize samples) s')) s := by
  induction samples generalizing position crc file written s with
  | nil =>
    refine ⟨h.same, fun _ => ⟨(UInt16.add_zero position).symm, (crc32Update_nil crc).symm, ?_⟩⟩
    show Filling path _ s₀ file (written ++ []) s
    rw [List.append_nil]
    exact h
  | cons x samples ih =>
    unfold visitWith
    refine (replaces_writeOne x position crc recordSize h).bind ?_
    rintro ⟨goesOn, state⟩ s₁ ⟨hsame, hfalse, htrue⟩
    cases goesOn with
    | false => exact ⟨hsame, fun hnone => absurd hnone (hfalse rfl)⟩
    | true =>
      obtain ⟨file', hstate, hfilling⟩ := htrue rfl
      obtain rfl : state = _ := hstate
      refine (ih (position + 1) _ hfilling).post ?_
      rintro r s₂ ⟨hsame₂, hok⟩
      refine ⟨hsame₂, fun hnone => ?_⟩
      obtain ⟨hposition, hcrc, hfilling₂⟩ := hok hnone
      have hbytes : recordBytes recordSize (x :: samples) =
          x.data.take recordSize ++ recordBytes recordSize samples := rfl
      rw [hbytes, crc32Update_append, ← List.append_assoc]
      refine ⟨?_, hcrc, hfilling₂⟩
      rw [hposition, List.length_cons, UInt16.ofNat_add, UInt16.add_assoc, UInt16.add_comm 1]
      rfl

/-- The walk that writes them. -/
theorem replaces_walkWith (records : Pass) (crc : UInt32) (recordSize : ℕ)
    (h : Filling path (extractTemporary path) s₀ file written s) :
    Replaces path data s₀ (walkWith b records filter writeOne ⟨file, crc, recordSize, none⟩)
      (fun r s' => SameName path s₀ s' ∧ ∀ position state, r = .ok (position, state) →
        state.error = none → ∃ samples, records.selected b filter = .ok samples ∧
          position = UInt16.ofNat samples.length ∧
          state.crc = crc32Update crc (recordBytes recordSize samples) ∧
          Filling path (extractTemporary path) s₀ state.file
            (written ++ recordBytes recordSize samples) s') s := by
  rw [walkWith_selected]
  cases records.selected b filter with
  | error e => exact ⟨h.same, by rintro _ _ ⟨⟩⟩
  | ok samples =>
    refine (replaces_visitWith samples 0 crc recordSize h).bind ?_
    rintro ⟨position, state⟩ s₁ ⟨hsame, hvisited⟩
    refine ⟨hsame, ?_⟩
    rintro _ _ ⟨⟩ hnone
    obtain ⟨hposition, hcrc, hfilling⟩ := hvisited hnone
    rw [UInt16.zero_add] at hposition
    exact ⟨samples, rfl, hposition, hcrc, hfilling⟩

/-- **The checksum** goes over the zeros of the header. -/
theorem replaces_patchChecksum (crc : UInt32) (hfront : front.length = datasetCrcOffset)
    (h : Filling path (extractTemporary path) s₀ file (front ++ (putBe32 0 ++ recs)) s) :
    Replaces path data s₀ (patchChecksum file crc) (fun r s' => SameName path s₀ s' ∧ (r = none →
      ∃ file', Filling path (extractTemporary path) s₀ file'
        (front ++ (putBe32 crc ++ recs)) s')) s := by
  have hwrite : ∀ offset bytes, SameName path s₀ (s.writeData ⟨file.id, offset⟩ bytes) := by
    intro offset bytes
    obtain ⟨bytes', hset⟩ := s.exists_writeData ⟨file.id, offset⟩ bytes
    rw [hset]
    exact h.same.trans (SameName.setData bytes' h.names (ne_extractTemporary path))
  unfold patchChecksum
  rintro _ rfl (e | file') s₁ ⟨rfl, hseek⟩
  · exact ⟨h.whole, h.same, fun hr => by cases hr⟩
  obtain rfl := hseek file' rfl
  refine ⟨h.whole, ?_⟩
  rintro _ rfl (e | ⟨count, file'⟩) s₂ hstep
  · obtain ⟨k, rfl⟩ := hstep
    exact ⟨Or.inl (hwrite _ _), hwrite _ _, fun hr => by cases hr⟩
  · obtain ⟨-, rfl, -⟩ := hstep
    refine ⟨Or.inl (hwrite _ _), hwrite _ _, fun hr => ?_⟩
    have hcount : count = 4 := by
      by_contra hne
      rw [if_pos hne] at hr
      cases hr
    have hset : s₁.writeData ⟨file.id, datasetCrcOffset⟩ ((putBe32 crc).take count) =
        s₁.setData file.id (front ++ (putBe32 crc ++ recs)) := by
      rw [hcount, List.take_of_length_le (length_putBe32 crc).le, Fs.writeData,
        if_neg (List.ne_nil_of_length_pos (by rw [length_putBe32]; decide)), h.data, ← hfront,
        splice_append_append 0 front recs (by rw [length_putBe32, length_putBe32])]
    rw [hset]
    exact ⟨⟨file.id, (front ++ (putBe32 crc ++ recs)).length⟩,
      h.same.trans (SameName.setData _ h.names (ne_extractTemporary path)), h.names,
      s₁.data_setData _ _, rfl⟩

/-- **The temporary file** is whole when it is filled. -/
theorem replaces_fillDataset (records : Pass) (recordSize : ℕ) (selected : UInt16)
    (hfront : front.length = datasetCrcOffset)
    (h : Filling path (extractTemporary path) s₀ file [] s) :
    Replaces path data s₀ (fillDataset b filter records recordSize (front ++ putBe32 0) selected
      file) (fun r s' => SameName path s₀ s' ∧ ∀ n, r = .ok n → n = selected ∧ ∃ samples,
        records.selected b filter = .ok samples ∧ UInt16.ofNat samples.length = selected ∧
          ∃ file', Filling path (extractTemporary path) s₀ file'
            (datasetWith front (recordBytes recordSize samples)) s') s := by
  refine (replaces_write (ne_extractTemporary path) h).bind ?_
  rintro (e | ⟨count, file₁⟩) s₁ ⟨hsame, hok⟩
  · exact ⟨hsame, by rintro _ ⟨⟩⟩
  obtain ⟨-, -, hheader⟩ := hok count file₁ rfl
  dsimp only
  split_ifs with hcount
  · exact ⟨hsame, by rintro _ ⟨⟩⟩
  rw [not_not.1 hcount, List.take_length, List.nil_append] at hheader
  refine (replaces_walkWith records _ recordSize hheader).bind ?_
  rintro (e | ⟨position, ⟨file₂, crc, size, error⟩⟩) s₂ ⟨hsame₂, hwalked⟩
  · exact ⟨hsame₂, by rintro _ ⟨⟩⟩
  cases error with
  | some e => exact ⟨hsame₂, by rintro _ ⟨⟩⟩
  | none =>
    obtain ⟨samples, hselected, rfl, rfl, hfilling⟩ := hwalked _ _ rfl rfl
    dsimp only
    split_ifs with hmoved
    · exact ⟨hsame₂, by rintro _ ⟨⟩⟩
    rw [not_not] at hmoved
    rw [List.append_assoc] at hfilling
    refine (replaces_patchChecksum _ hfront hfilling).bind ?_
    rintro (_ | e) s₃ ⟨hsame₃, hpatched⟩
    · obtain ⟨file₃, hwhole⟩ := hpatched rfl
      refine (replaces_readOnly (o := .fsSync file₂) rfl hwhole Filling.whole).bind ?_
      rintro (_ | e) s₄ hwhole₄
      · refine ⟨hwhole₄.same, ?_⟩
        rintro _ ⟨⟩
        refine ⟨hmoved, samples, hselected, hmoved, file₃, ?_⟩
        have hcrc : crc32 (front ++ (putBe32 0 ++ recordBytes recordSize samples)) =
            crc32Update (crc32 (front ++ putBe32 0)) (recordBytes recordSize samples) := by
          rw [← List.append_assoc]
          exact crc32Update_append 0 _ _
        unfold datasetWith
        rw [hcrc]
        exact hwhole₄
      · exact ⟨hwhole₄.same, by rintro _ ⟨⟩⟩
    · exact ⟨hsame₃, by rintro _ ⟨⟩⟩

/-- A failure that takes the temporary file away. -/
theorem replaces_fail (h : SameName path s₀ s) (e : Errno) {Q : UInt16 → Fs → Prop} :
    Replaces path data s₀ (do
      let _ ← fsUnlink (extractTemporary path)
      pure (Except.error e : Except Errno UInt16)) (fun r s' =>
        (∀ e, r = .error e → SameName path s₀ s') ∧ ∀ n, r = .ok n → Q n s') s :=
  (replaces_unlink (ne_extractTemporary path) h).bind fun _ _ h₁ =>
    ⟨fun _ _ => h₁, fun _ hr => by cases hr⟩

theorem replaces_commitDataset {fill : Program (Except Errno UInt16)} {P : Prop}
    (h : Replaces path data s₀ fill (fun r s' => SameName path s₀ s' ∧ ∀ n, r = .ok n →
      P ∧ ∃ file', Filling path (extractTemporary path) s₀ file' data s') s) :
    Replaces path data s₀ (commitDataset path file fill) (fun r s' =>
      (∀ e, r = .error e → SameName path s₀ s') ∧
        ∀ n, r = .ok n → P ∧ s'.content path = some data) s := by
  refine h.bind fun result s₁ hresult => ?_
  have hclose : Replaces path data s₀ (fsClose file) (fun _ s₂ => SameName path s₀ s₂ ∧
      ∀ n, result = .ok n → P ∧ ∃ file', Filling path (extractTemporary path) s₀ file' data s₂)
      s₁ := replaces_readOnly rfl hresult fun h => Or.inl h.1
  refine hclose.bind fun closeResult s₂ hclosed => ?_
  rcases result with e | written
  · exact replaces_fail hclosed.1 e
  rcases closeResult with _ | e
  · obtain ⟨hP, file', hfilling⟩ := hclosed.2 written rfl
    refine (replaces_rename hfilling).bind ?_
    rintro (_ | e) s₃ ⟨hsame, hnew⟩
    · refine ⟨fun _ hr => (by cases hr), ?_⟩
      rintro _ ⟨⟩
      exact ⟨hP, hnew rfl⟩
    · exact replaces_fail (hsame (by simp)) e
  · exact replaces_fail hclosed.1 e

end

/-! ### What comes of the passes -/

/-- What the passes make of a file: the header of the window in front of the records, of which there
are as many. -/
structure Extracted (s : State b) (query window records : Pass) (filter : Filter) (info : StoreInfo)
    (noted taken : List Sample) : Prop where
  query : storeQuery query.io filter.report s query.file = .ok info
  window : window.selected b filter = .ok noted
  records : records.selected b filter = .ok taken
  ne_nil : noted ≠ []
  length_eq : taken.length = noted.length

/-- The bytes that they make. -/
def extractedBytes (report : UInt8) (recordSize : ℕ) (noted taken : List Sample) : List UInt8 :=
  datasetWith (datasetFront report recordSize (UInt16.ofNat noted.length)
    ⟨firstSequence noted, lastSequence noted⟩) (recordBytes recordSize taken)

section

variable {s : State b} {query window records : Pass} {filter : Filter} {path : CString}
  {info : StoreInfo} {noted taken : List Sample} {fs fs' : Fs}

/-- What is left to do when the header is known. -/
def extractWith (b : Build) (records : Pass) (filter : Filter) (path : CString) (info : StoreInfo)
    (noted : List Sample) : Program (Except Errno UInt16) := do
  let _ ← fsUnlink (extractTemporary path)
  match ← fsOpen (extractTemporary path) .CREATE_TRUNC with
  | .error e => pure (.error e)
  | .ok file =>
    commitDataset path file (fillDataset b filter records info.recordSize
      (datasetFront filter.report info.recordSize (UInt16.ofNat noted.length)
        ⟨firstSequence noted, lastSequence noted⟩ ++ putBe32 0) (UInt16.ofNat noted.length) file)

theorem ofNat_length_inj {xs ys : List Sample} (hxs : xs.length < 2 ^ 16)
    (hys : ys.length < 2 ^ 16) (h : UInt16.ofNat xs.length = UInt16.ofNat ys.length) :
    xs.length = ys.length := by
  have hnat := congrArg UInt16.toNat h
  rwa [UInt16.toNat_ofNat', UInt16.toNat_ofNat', Nat.mod_eq_of_lt hxs, Nat.mod_eq_of_lt hys] at hnat

/-- A path is refused before anything is read. -/
theorem storeExtract_refused (s : State b) (query window records : Pass) (filter : Filter)
    (hpath : path.length = 0 ∨ path.length ≥ extractPathMax) :
    storeExtract s query window records (some filter) (some path) = pure (.error .EINVAL) :=
  if_pos hpath

/-- **The extraction** is refused, or goes on with the header of the window. -/
theorem storeExtract_eq (s : State b) (query window records : Pass) (filter : Filter)
    (hpath : path.length ≠ 0 ∧ path.length < extractPathMax) :
    (∃ e, storeExtract s query window records (some filter) (some path) = pure (.error e) ∧
      ¬ ∃ info noted, storeQuery query.io filter.report s query.file = .ok info ∧
        window.selected b filter = .ok noted ∧ noted ≠ []) ∨
    ∃ info noted, storeQuery query.io filter.report s query.file = .ok info ∧
      window.selected b filter = .ok noted ∧ noted ≠ [] ∧
      storeExtract s query window records (some filter) (some path) =
        extractWith b records filter path info noted := by
  unfold storeExtract
  dsimp only
  rw [if_neg (not_or.2 ⟨hpath.1, not_le.2 hpath.2⟩), walk_selected]
  cases hquery : storeQuery query.io filter.report s query.file with
  | error e => exact Or.inl ⟨e, rfl, by rintro ⟨_, _, ⟨⟩, -⟩⟩
  | ok info =>
    cases hwindow : window.selected b filter with
    | error e => exact Or.inl ⟨e, rfl, by rintro ⟨_, _, -, ⟨⟩, -⟩⟩
    | ok noted =>
      have hlen := Pass.length_selected hwindow
      by_cases hne : noted = []
      · subst hne
        refine Or.inl ⟨.ENOENT, if_pos rfl, ?_⟩
        rintro ⟨_, _, -, ⟨⟩, hne⟩
        exact hne rfl
      · have hzero : ¬ UInt16.ofNat noted.length = 0 := fun h =>
          hne (List.length_eq_zero_iff.1 (@ofNat_length_inj noted [] hlen (by decide) h))
        refine Or.inr ⟨info, noted, rfl, rfl, hne, ?_⟩
        show (match visitAll noteWindow noted 0 ⟨0, 0⟩ with | (selected, selection) => _) = _
        rw [visitAll_noteWindow hne hlen]
        exact if_neg hzero

/-- **All that a call does**, whatever the file system does. -/
theorem replaces_extractWith (htaken : ∀ samples, records.selected b filter = .ok samples →
    samples = taken) : Replaces path (extractedBytes filter.report info.recordSize noted taken) fs
      (extractWith b records filter path info noted) (fun r fs' =>
        (∀ e, r = .error e → SameName path fs fs') ∧ ∀ n, r = .ok n →
          (records.selected b filter = .ok taken ∧
            UInt16.ofNat taken.length = UInt16.ofNat noted.length) ∧
          fs'.content path = some (extractedBytes filter.report info.recordSize noted taken))
      fs := by
  refine (replaces_unlink (ne_extractTemporary path) (SameName.refl path fs)).bind
    fun _ fs₁ h₁ => ?_
  refine (replaces_open (ne_extractTemporary path) h₁).bind ?_
  rintro (e | file) fs₂ ⟨hsame, hok⟩
  · exact ⟨fun _ _ => hsame, by rintro _ ⟨⟩⟩
  refine replaces_commitDataset ?_
  refine (replaces_fillDataset records _ _ (length_datasetFront ..) (hok file rfl)).post ?_
  rintro r fs₃ ⟨hsame₃, hfilled⟩
  refine ⟨hsame₃, fun n hr => ?_⟩
  obtain ⟨-, samples, hselected, hlength, hfilling⟩ := hfilled n hr
  obtain rfl := htaken samples hselected
  exact ⟨⟨hselected, hlength⟩, hfilling⟩

/-- **The end of a call.**  An error leaves the file at the path as it was; a call that returns 0
leaves what the passes make. -/
theorem extract_ends {r : Except Errno UInt16} (hend : Prog.Ends FsStep
    (storeExtract s query window records (some filter) (some path)) fs r fs') :
    (∀ e, r = .error e → SameName path fs fs') ∧ ∀ n, r = .ok n → ∃ info noted taken,
      Extracted s query window records filter info noted taken ∧
        fs'.content path = some (extractedBytes filter.report info.recordSize noted taken) := by
  have hrefused : ∀ e, storeExtract s query window records (some filter) (some path) =
      pure (.error e) → (∀ e, r = .error e → SameName path fs fs') ∧ ∀ n, r ≠ .ok n := by
    intro e heq
    rw [heq] at hend
    obtain ⟨rfl, rfl⟩ := Prog.ends_ret_iff.1 hend
    exact ⟨fun _ _ => SameName.refl path fs', by rintro _ ⟨⟩⟩
  by_cases hpath : path.length = 0 ∨ path.length ≥ extractPathMax
  · obtain ⟨herror, hno⟩ := hrefused _ (storeExtract_refused s query window records filter hpath)
    exact ⟨herror, fun n hr => absurd hr (hno n)⟩
  rw [not_or, not_le] at hpath
  rcases storeExtract_eq s query window records filter hpath with
    ⟨e, heq, -⟩ | ⟨info, noted, hquery, hwindow, hne, heq⟩
  · obtain ⟨herror, hno⟩ := hrefused e heq
    exact ⟨herror, fun n hr => absurd hr (hno n)⟩
  · obtain ⟨taken, htaken⟩ : ∃ taken, ∀ samples, records.selected b filter = .ok samples →
        samples = taken := by
      refine ⟨(records.selected b filter).toOption.getD [], fun samples hselected => ?_⟩
      rw [hselected]
      rfl
    rw [heq] at hend
    obtain ⟨herror, hdone⟩ := hend.post (replaces_extractWith htaken) fun _ => rfl
    refine ⟨herror, fun n hr => ?_⟩
    obtain ⟨⟨hrecords, hcount⟩, hcontent⟩ := hdone n hr
    exact ⟨info, noted, taken, ⟨hquery, hwindow, hrecords, hne, ofNat_length_inj
      (Pass.length_selected hrecords) (Pass.length_selected hwindow) hcount⟩, hcontent⟩

/-! ### A call that goes through -/

theorem ends_writeAllLoop (file : Handle) (bytes : List UInt8) (fs : Fs) :
    ∃ file' fs', Prog.Ends FsStep (writeAllLoop bytes.length file bytes) fs (.ok file') fs' := by
  rcases bytes with _ | ⟨c, bytes⟩
  · exact ⟨file, fs, Prog.ends_pure⟩
  · have hstep : FsStep (.fsWrite file (c :: bytes)) fs
        (.ok ((c :: bytes).length, ⟨file.id, file.pos + (c :: bytes).length⟩))
        (fs.writeData file ((c :: bytes).take (c :: bytes).length)) := ⟨le_rfl, rfl, rfl⟩
    have hrest : writeAllLoop bytes.length ⟨file.id, file.pos + (c :: bytes).length⟩
        ((c :: bytes).drop (c :: bytes).length) =
          pure (.ok ⟨file.id, file.pos + (c :: bytes).length⟩) := by
      rw [List.drop_length]
      cases bytes <;> rfl
    refine ⟨⟨file.id, file.pos + (c :: bytes).length⟩,
      fs.writeData file ((c :: bytes).take (c :: bytes).length),
      Prog.Ends.bind (Prog.ends_perform hstep) ?_⟩
    dsimp only
    rw [if_neg (List.length_pos_iff.2 (List.cons_ne_nil c bytes)).ne', hrest]
    exact Prog.ends_pure

theorem ends_visitWith (samples : List Sample) (position : UInt16) (file : Handle) (crc : UInt32)
    (recordSize : ℕ) (fs : Fs) : ∃ state fs', state.error = none ∧
      Prog.Ends FsStep (visitWith writeOne samples position ⟨file, crc, recordSize, none⟩) fs
        (position + UInt16.ofNat samples.length, state) fs' := by
  induction samples generalizing position file crc fs with
  | nil =>
    refine ⟨⟨file, crc, recordSize, none⟩, fs, rfl, ?_⟩
    rw [show position + UInt16.ofNat ([] : List Sample).length = position from
      UInt16.add_zero position]
    exact Prog.ends_pure
  | cons x samples ih =>
    obtain ⟨file', fs₁, hwritten⟩ := ends_writeAllLoop file (x.data.take recordSize) fs
    obtain ⟨state, fs₂, hnone, hrest⟩ := ih (position + 1) file'
      (crc32Update crc (x.data.take recordSize)) fs₁
    refine ⟨state, fs₂, hnone, ?_⟩
    rw [List.length_cons, UInt16.ofNat_add, UInt16.add_comm (UInt16.ofNat _), ← UInt16.add_assoc]
    exact Prog.Ends.bind (hwritten.bind Prog.ends_pure) hrest

theorem ends_fillDataset (hselected : records.selected b filter = .ok taken) (recordSize : ℕ)
    (header : List UInt8) (file : Handle) (fs : Fs) : ∃ fs', Prog.Ends FsStep
      (fillDataset b filter records recordSize header (UInt16.ofNat taken.length) file) fs
        (.ok (UInt16.ofNat taken.length)) fs' := by
  have hheader : FsStep (.fsWrite file header) fs
      (.ok (header.length, ⟨file.id, file.pos + header.length⟩))
      (fs.writeData file (header.take header.length)) := ⟨le_rfl, rfl, rfl⟩
  obtain ⟨state, fs₁, hnone, hvisited⟩ := ends_visitWith taken 0
    ⟨file.id, file.pos + header.length⟩ (crc32 header) recordSize
    (fs.writeData file (header.take header.length))
  rw [UInt16.zero_add] at hvisited
  have hseek : FsStep (.fsSeek state.file datasetCrcOffset) fs₁
      (.ok ⟨state.file.id, datasetCrcOffset⟩) fs₁ := ⟨rfl, by rintro _ ⟨⟩; rfl⟩
  have hpatch : FsStep (.fsWrite ⟨state.file.id, datasetCrcOffset⟩ (putBe32 state.crc)) fs₁
      (.ok (4, ⟨state.file.id, datasetCrcOffset + 4⟩))
      (fs₁.writeData ⟨state.file.id, datasetCrcOffset⟩ ((putBe32 state.crc).take 4)) :=
    ⟨(length_putBe32 _).ge, rfl, rfl⟩
  have hsync : FsStep (.fsSync state.file)
      (fs₁.writeData ⟨state.file.id, datasetCrcOffset⟩ ((putBe32 state.crc).take 4)) none
      (fs₁.writeData ⟨state.file.id, datasetCrcOffset⟩ ((putBe32 state.crc).take 4)) := rfl
  have hpatched : Prog.Ends FsStep (patchChecksum state.file state.crc) fs₁ none
      (fs₁.writeData ⟨state.file.id, datasetCrcOffset⟩ ((putBe32 state.crc).take 4)) :=
    Prog.Ends.bind (Prog.ends_perform hseek)
      (Prog.Ends.bind (Prog.ends_perform hpatch) Prog.ends_pure)
  refine ⟨fs₁.writeData ⟨state.file.id, datasetCrcOffset⟩ ((putBe32 state.crc).take 4),
    Prog.Ends.bind (Prog.ends_perform hheader) ?_⟩
  dsimp only
  rw [if_neg (not_not.2 rfl), walkWith_selected, hselected]
  refine Prog.Ends.bind (Prog.Ends.bind hvisited Prog.ends_pure) ?_
  dsimp only
  rw [hnone]
  dsimp only
  rw [if_neg (not_not.2 rfl)]
  exact Prog.Ends.bind hpatched (Prog.Ends.bind (Prog.ends_perform hsync) Prog.ends_pure)

/-- **On an empty file system** a call whose passes select as many records goes through. -/
theorem extract_reaches (hpath : path.length ≠ 0 ∧ path.length < extractPathMax)
    (h : Extracted s query window records filter info noted taken) :
    ∃ n fs', Prog.Ends FsStep (storeExtract s query window records (some filter) (some path))
      Fs.empty (.ok n) fs' := by
  have heq : storeExtract s query window records (some filter) (some path) =
      extractWith b records filter path info noted := by
    rcases storeExtract_eq s query window records filter hpath with
      ⟨e, -, hno⟩ | ⟨info', noted', hquery, hwindow, -, heq⟩
    · exact absurd ⟨info, noted, h.query, h.window, h.ne_nil⟩ hno
    · cases hquery.symm.trans h.query
      cases hwindow.symm.trans h.window
      exact heq
  rw [heq]
  have hunlink : FsStep (.fsUnlink (extractTemporary path)) Fs.empty (some .ENOENT) Fs.empty := rfl
  have hopen : FsStep (.fsOpen (extractTemporary path) .CREATE_TRUNC) Fs.empty (.ok ⟨0, 0⟩)
      (Fs.empty.create (extractTemporary path)) := Or.inr ⟨rfl, rfl, rfl, rfl⟩
  have hopens : Replaces path [] Fs.empty (fsOpen (extractTemporary path) .CREATE_TRUNC) _ _ :=
    replaces_open (ne_extractTemporary path) (SameName.refl path Fs.empty)
  obtain ⟨-, hok⟩ := (Prog.ends_perform hopen).post hopens fun _ => rfl
  obtain ⟨fs₁, hfill⟩ := ends_fillDataset h.records info.recordSize
    (datasetFront filter.report info.recordSize (UInt16.ofNat noted.length)
      ⟨firstSequence noted, lastSequence noted⟩ ++ putBe32 0) ⟨0, 0⟩
    (Fs.empty.create (extractTemporary path))
  rw [h.length_eq] at hfill
  have hfills : Replaces path [] Fs.empty (fillDataset b filter records _ _ _ _) _ _ :=
    replaces_fillDataset records info.recordSize (UInt16.ofNat noted.length)
      (length_datasetFront filter.report info.recordSize (UInt16.ofNat noted.length)
        ⟨firstSequence noted, lastSequence noted⟩) (hok ⟨0, 0⟩ rfl)
  obtain ⟨hsame, hfilled⟩ := hfill.post hfills fun _ => rfl
  obtain ⟨-, samples, -, -, file', hfilling⟩ := hfilled _ rfl
  have hclose : FsStep (.fsClose ⟨0, 0⟩) fs₁ none fs₁ := rfl
  have hrename : FsStep (.fsRename (extractTemporary path) path) fs₁ none
      (fs₁.rename (extractTemporary path) path) := by
    refine ⟨⟨_, hfilling.names⟩, ?_, rfl⟩
    rw [hsame.1]
    exact fun hdir => by cases hdir
  exact ⟨_, _, Prog.Ends.bind (Prog.ends_perform hunlink) (Prog.Ends.bind (Prog.ends_perform hopen)
    (Prog.Ends.bind hfill (Prog.Ends.bind (Prog.ends_perform hclose)
      (Prog.Ends.bind (Prog.ends_perform hrename) Prog.ends_pure))))⟩

end

/-! ### What an extraction leaves -/

/-- **An extraction is sound**: whatever the file system does, the file at the path is afterwards
what it was or a complete dataset, and it is what it was if the call fails. -/
def ExtractSound (s : State b) (query window records : Pass) (filter : Filter) (path : CString) :
    Prop :=
  ∀ fs fs' r, Prog.Ends FsStep (storeExtract s query window records (some filter) (some path)) fs r
      fs' →
    (SameName path fs fs' ∨
      ∃ bytes, fs'.content path = some bytes ∧ IsDataset b filter records bytes) ∧
    ∀ e, r = .error e → SameName path fs fs'

/-- The last two walks agree: if the first pass reads the store, and the store of the second and that
of the third have as many records that the filter selects, then these have the same first sequence
and the same last, and those of the third have the size that the first has read. -/
def PassesAgree (s : State b) (query window records : Pass) (filter : Filter) : Prop :=
  ∀ info noted taken, storeQuery query.io filter.report s query.file = .ok info →
    window.selected b filter = .ok noted → records.selected b filter = .ok taken →
    noted ≠ [] → taken.length = noted.length →
    firstSequence taken = firstSequence noted ∧ lastSequence taken = lastSequence noted ∧
      ∀ x ∈ taken, x.length = info.recordSize

theorem storeQuery_size {io : ReaderIo} {report : UInt8} {s : State b}
    {file : Option (List UInt8)} {info : StoreInfo} (h : storeQuery io report s file = .ok info) :
    info.recordSize ≤ b.sampleBytes := by
  unfold storeQuery at h
  split_ifs at h
  split at h
  · cases h
  · next reader hopen =>
    cases h
    exact readerOpen_size hopen

/-- **What the passes make is a dataset** if and only if they agree. -/
theorem isDataset_extractedBytes_iff {s : State b} {query window records : Pass} {filter : Filter}
    {info : StoreInfo} {noted taken : List Sample}
    (h : Extracted s query window records filter info noted taken) :
    IsDataset b filter records (extractedBytes filter.report info.recordSize noted taken) ↔
      firstSequence taken = firstSequence noted ∧ lastSequence taken = lastSequence noted ∧
        ∀ x ∈ taken, x.length = info.recordSize := by
  have hlen := Pass.length_selected h.records
  have hbytes := b.sampleBytes_range.2
  constructor
  · rintro ⟨recordSize, samples, hne, hsamples, hmem, heq⟩
    obtain ⟨x, hx⟩ := List.exists_mem_of_ne_nil samples hne
    have hsize := storeQuery_size h.query
    have hrecord := (hmem x hx).1.length_le
    rw [(hmem x hx).2.1] at hrecord
    obtain ⟨hfront, hrecords⟩ := datasetWith_inj
      ((length_datasetFront ..).trans (length_datasetFront ..).symm) heq
    obtain ⟨rfl, hcount, hwindow⟩ := datasetFront_inj (by omega) (by omega) hfront
    have hlength := ofNat_length_inj (Pass.length_selected h.window) hsamples hcount
    have htaken : ∀ y ∈ taken, records.Stored b filter.report y ∧ y.length = info.recordSize := by
      intro y hy
      have hstored := (Pass.selected_mem h.records hy).1
      exact ⟨hstored, (hstored.length_eq (hmem x hx).1).trans (hmem x hx).2.1⟩
    have hsequences := sequences_eq htaken (fun y hy => ⟨(hmem y hy).1, (hmem y hy).2.1⟩)
      (h.length_eq.trans hlength) hrecords
    obtain ⟨hfirst, hlast⟩ := Hk.Window.mk.inj hwindow
    refine ⟨?_, ?_, fun y hy => (htaken y hy).2⟩
    · rw [hfirst]
      exact congrArg (List.headD · 0) hsequences
    · rw [hlast]
      exact congrArg (List.getLastD · 0) hsequences
  · rintro ⟨hfirst, hlast, hsizes⟩
    refine ⟨info.recordSize, taken, ?_, hlen, fun x hx => ?_, ?_⟩
    · intro hnil
      have hzero := h.length_eq
      rw [hnil] at hzero
      exact h.ne_nil (List.length_eq_zero_iff.1 hzero.symm)
    · obtain ⟨hstored, hmatches⟩ := Pass.selected_mem h.records hx
      exact ⟨hstored, hsizes x hx, hmatches⟩
    · unfold extractedBytes datasetOf
      rw [hfirst, hlast, h.length_eq]

/-- A sound extraction that goes through has passes that agree. -/
theorem ExtractSound.agree {s : State b} {query window records : Pass} {filter : Filter}
    {path : CString} (hsound : ExtractSound s query window records filter path)
    (hpath : path.length ≠ 0 ∧ path.length < extractPathMax) :
    PassesAgree s query window records filter := by
  intro info noted taken hquery hwindow hrecords hne hlength
  have h : Extracted s query window records filter info noted taken :=
    ⟨hquery, hwindow, hrecords, hne, hlength⟩
  obtain ⟨n, fs', hend⟩ := extract_reaches hpath h
  obtain ⟨info', noted', taken', h', hcontent⟩ := (extract_ends hend).2 n rfl
  cases h'.query.symm.trans h.query
  cases h'.window.symm.trans h.window
  cases h'.records.symm.trans h.records
  rcases (hsound _ _ _ hend).1 with hsame | ⟨bytes, hbytes, hdataset⟩
  · rw [hsame.2] at hcontent
    cases hcontent
  · rw [hcontent] at hbytes
    cases hbytes
    exact (isDataset_extractedBytes_iff h).1 hdataset

/-- **When an extraction is sound.**  The path is refused, or the last two walks agree.  Whether the
store is the same file in both is not looked at, only how many records they select. -/
theorem extract_sound_iff (s : State b) (query window records : Pass) (filter : Filter)
    (path : CString) : ExtractSound s query window records filter path ↔
      path.length = 0 ∨ path.length ≥ extractPathMax ∨
        PassesAgree s query window records filter := by
  constructor
  · intro hsound
    by_cases hpath : path.length = 0 ∨ path.length ≥ extractPathMax
    · exact or_assoc.1 (Or.inl hpath)
    · rw [not_or, not_le] at hpath
      exact Or.inr (Or.inr (hsound.agree hpath))
  · intro hcond fs fs' r hend
    by_cases hpath : path.length = 0 ∨ path.length ≥ extractPathMax
    · rw [storeExtract_refused s query window records filter hpath] at hend
      obtain ⟨rfl, rfl⟩ := Prog.ends_ret_iff.1 hend
      exact ⟨Or.inl (SameName.refl path fs'), fun _ _ => SameName.refl path fs'⟩
    have hagree := (or_assoc.2 hcond).resolve_left hpath
    obtain ⟨herror, hdone⟩ := extract_ends hend
    refine ⟨?_, herror⟩
    rcases r with e | n
    · exact Or.inl (herror e rfl)
    · obtain ⟨info, noted, taken, h, hcontent⟩ := hdone n rfl
      exact Or.inr ⟨_, hcontent, (isDataset_extractedBytes_iff h).2
        (hagree _ _ _ h.query h.window h.records h.ne_nil h.length_eq)⟩

deriving instance DecidableEq for Sample

/-- A record of one byte. -/
def ringSample (sequence : UInt16) : Sample :=
  ⟨0, sequence, 1, 0, 11, [1, 0] ++ (putBe16 sequence ++ ([0, 0, 0, 0, 1, 0, 0] ++
    List.replicate 21 0))⟩

/-- A store of eight records that is full, with the sequences 0 to 7. -/
def fullRing : List UInt8 :=
  storeHeader smallBuild 0 11 ++
    recordBytes 11 ((List.range 8).map fun i => ringSample (UInt16.ofNat i))

/-- The same store after a flush of the record 8. -/
def movedRing : List UInt8 :=
  (flushRecords 11 [(slotOf smallBuild 8, .ok (ringSample 8))] [.done 0, .done 11] fullRing).2.1

/-- **A flush between the two walks** leaves a header with the sequences 0 and 7 in front of the
records 1 to 8, and the call returns 0. -/
theorem extract_across_flush : ¬ ExtractSound (State.reset smallBuild)
    ⟨.working, some fullRing⟩ ⟨.working, some fullRing⟩ ⟨.working, some movedRing⟩ (Filter.zeroed 0)
    (.ofString "/kfsw/hk.dat") := by
  intro hsound
  obtain ⟨hfirst, -⟩ := hsound.agree (by decide) ⟨11, 8, 8, 0, 7, 0⟩
    ((List.range 8).map fun i => ringSample (UInt16.ofNat i))
    ((List.range 8).map fun i => ringSample (UInt16.ofNat (i + 1)))
    (by decide +kernel) (by decide +kernel) (by decide +kernel) (by decide) rfl
  exact absurd hfirst (by decide)

end KfswServices.Hk
