/-
# Reading the store back

`src/hk/hk_reader.c`: the file of a store is opened and every slot read once, for the newest
sequence and the number of records (`reader_open`).  A walk then takes the sequences from the oldest
on, which is as far behind the newest as there are records, and visits those that are found in their
slots.

In a file whose slots hold some records (`RingFile`), the sequences that a walk takes are those of
the records if and only if these are consecutive (`RingFile.readsBack_iff`).
-/

import KfswServices.Hk.Store
import KfswServices.Library.Latest

namespace KfswServices.Hk

open Library

variable {b : Build}

/-! ### Reading -/

/-- `struct kfsw_hk_store_filter`. -/
structure Filter where
  report : UInt8
  fromSequence : UInt16
  toSequence : UInt16
  fromSeconds : UInt32
  toSeconds : UInt32
  withoutFlags : UInt8

/-- A zeroed filter, apart from the report. -/
def Filter.zeroed (report : UInt8) : Filter := ⟨report, 0, 0, 0, 0, 0⟩

/-- `struct store_reader`. -/
structure Reader where
  file : List UInt8
  recordSize : ℕ
  capacity : ℕ
  newest : UInt16
  written : UInt16

/-- `struct kfsw_hk_store_info`. -/
structure StoreInfo where
  recordSize : ℕ
  capacity : ℕ
  records : UInt16
  oldest : UInt16
  newest : UInt16
  intervalMs : UInt32
  deriving DecidableEq

/-- What a reader is answered: whether there is storage, `fs_open`, and the failures of the reads:
of the header, of the slots, and of the records. -/
structure ReaderIo where
  ready : Bool
  opened : Option Errno
  reads : ℕ → Option Errno

/-- There is storage, and it answers everything. -/
def ReaderIo.working : ReaderIo := ⟨true, none, fun _ => none⟩

/-- `read_at`. -/
def readAt (failed : Option Errno) (file : List UInt8) (offset size : ℕ) :
    Except Errno (List UInt8) :=
  match failed with
  | some e => .error e
  | none =>
    let data := region file offset size
    if data.length < size then .error .EBADMSG else .ok data

/-- `slot_belongs`. -/
def slotBelongs (record : List UInt8) (report : UInt8) (capacity slot : ℕ) : Bool :=
  record.headD 0 = protocolVersion ∧ record.getD 1 0 = report ∧
    (getBe16 (record.drop 2)).toNat % capacity = slot

/-- The loop of `reader_open` over the slots, `turns` of which are still to come. -/
def scanSlots (io : ReaderIo) (report : UInt8) (recordSize capacity : ℕ) (file : List UInt8) :
    ℕ → ℕ → Option UInt16 → UInt16 → Option UInt16 × UInt16
  | 0, _, newest, written => (newest, written)
  | turns + 1, slot, newest, written =>
    match readAt (io.reads (slot + 1)) file (slotOffset recordSize slot) recordSize with
    -- a file shorter than its capacity
    | .error _ => (newest, written)
    | .ok record =>
      if record.headD 0 = 0 then
        scanSlots io report recordSize capacity file turns (slot + 1) newest written
      else if !slotBelongs record report capacity slot then
        scanSlots io report recordSize capacity file turns (slot + 1) newest written
      else
        scanSlots io report recordSize capacity file turns (slot + 1)
          (newer newest (getBe16 (record.drop 2))) (written + 1)

/-- `reader_open`. -/
def readerOpen (b : Build) (io : ReaderIo) (report : UInt8) (file : Option (List UInt8)) :
    Except Errno Reader :=
  if !io.ready then .error .ENODEV
  else
    match openExisting io.opened file with
    | .error e => .error e
    | .ok bytes =>
      match readAt (io.reads 0) bytes 0 storeHeaderSize with
      | .error e => .error e
      | .ok header =>
        if header.take 4 ≠ storeMagic ∨ header.getD 4 0 ≠ storeVersion ∨
            header.getD 5 0 ≠ report then
          .error .EBADMSG
        else
          let recordSize := (getBe16 (header.drop 6)).toNat
          let capacity := (getBe32 (header.drop 8)).toNat
          if recordSize = 0 ∨ recordSize > b.sampleBytes ∨ capacity = 0 then .error .EBADMSG
          else
            let (newest, written) := scanSlots io report recordSize capacity bytes capacity 0 none 0
            .ok ⟨bytes, recordSize, capacity, newest.getD 0, if newest.isSome then written else 0⟩

/-- `reader_oldest`. -/
def readerOldest (reader : Reader) : UInt16 := reader.newest - (reader.written - 1)

/-- `reader_record`. -/
def readerRecord (b : Build) (failed : Option Errno) (reader : Reader) (report : UInt8)
    (sequence : UInt16) : Except Errno Sample :=
  let slot := sequence.toNat % reader.capacity
  match readAt failed reader.file (slotOffset reader.recordSize slot) reader.recordSize with
  | .error e => .error e
  | .ok record =>
    let data := record ++ List.replicate (b.sampleBytes - reader.recordSize) 0
    if data.headD 0 = 0 ∨ !slotBelongs data report reader.capacity slot ∨
        getBe16 (data.drop 2) ≠ sequence then
      .error .ENOENT
    else
      .ok ⟨getBe32 (data.drop 4), sequence, data.getD 8 0, data.getD 9 0, reader.recordSize, data⟩

/-- `sequence_within`. -/
def sequenceWithin (filter : Filter) (sequence : UInt16) : Bool :=
  !(filter.fromSequence ≠ 0 && (sequence - filter.fromSequence).toInt16 < 0) &&
    !(filter.toSequence ≠ 0 && 0 < (sequence - filter.toSequence).toInt16)

/-- `sample_matches`. -/
def sampleMatches (filter : Filter) (sample : Sample) : Bool :=
  sequenceWithin filter sample.sequence &&
    !(filter.fromSeconds ≠ 0 && sample.seconds < filter.fromSeconds) &&
    !(filter.toSeconds ≠ 0 && filter.toSeconds < sample.seconds) &&
    !(filter.withoutFlags ≠ 0 && sample.flags &&& filter.withoutFlags ≠ 0)

/-! ### Walking -/

variable {σ : Type}

/-- What is done with a record at a position: whether to go on. -/
abbrev Visitor (σ : Type) : Type := Sample → UInt16 → σ → Bool × σ

/-- The visitor that is not there. -/
def Visitor.none : Visitor Unit := fun _ _ state => (true, state)

/-- The loop of `walk`, `turns` of which are still to come. -/
def walkLoop (b : Build) (io : ReaderIo) (filter : Filter) (reader : Reader) (visitor : Visitor σ) :
    ℕ → UInt16 → UInt16 → σ → UInt16 × σ
  | 0, _, position, state => (position, state)
  | turns + 1, index, position, state =>
    match readerRecord b (io.reads (reader.capacity + 1 + index.toNat)) reader filter.report
      (readerOldest reader + index) with
    | .error _ => walkLoop b io filter reader visitor turns (index + 1) position state
    | .ok sample =>
      if !sampleMatches filter sample then
        walkLoop b io filter reader visitor turns (index + 1) position state
      else
        match visitor sample position state with
        | (true, state) =>
          walkLoop b io filter reader visitor turns (index + 1) (position + 1) state
        | (false, state) => (position + 1, state)

/-- `walk`, on the file of the report: how many records matched, and what the visitor has. -/
def walk (b : Build) (io : ReaderIo) (filter : Filter) (file : Option (List UInt8))
    (visitor : Visitor σ) (state : σ) : Except Errno (UInt16 × σ) :=
  if filter.report.toNat ≥ b.reports then .error .EINVAL
  else
    match readerOpen b io filter.report file with
    | .error e => .error e
    | .ok reader => .ok (walkLoop b io filter reader visitor reader.written.toNat 0 0 state)

/-- `kfsw_hk_store_query`. -/
def storeQuery (io : ReaderIo) (report : UInt8) (s : State b) (file : Option (List UInt8)) :
    Except Errno StoreInfo :=
  if report.toNat ≥ b.reports then .error .EINVAL
  else
    match readerOpen b io report file with
    | .error e => .error e
    | .ok reader =>
      .ok ⟨reader.recordSize, reader.capacity, reader.written,
        if reader.written ≠ 0 then readerOldest reader else 0,
        if reader.written ≠ 0 then reader.newest else 0, (s.stores report).interval.ms⟩

/-- `kfsw_hk_store_count`. -/
def storeCount (b : Build) (io : ReaderIo) (filter : Filter) (file : Option (List UInt8)) :
    Except Errno UInt16 :=
  match walk b io filter file .none () with
  | .error e => .error e
  | .ok (matched, _) => .ok matched

/-- `take_one`. -/
def takeOne (wanted : UInt16) : Visitor (Option Sample) := fun sample position found =>
  if position ≠ wanted then (true, found) else (false, some sample)

/-- `kfsw_hk_store_read`. -/
def storeRead (b : Build) (io : ReaderIo) (filter : Filter) (index : UInt16)
    (file : Option (List UInt8)) : Except Errno Sample :=
  match walk b io filter file (takeOne index) Option.none with
  | .error e => .error e
  | .ok (_, some sample) => .ok sample
  | .ok (_, Option.none) => .error .ENOENT

/-! ### A file of records -/

/-- A sample that begins with its frame, as long as a record. -/
structure Framed (report : UInt8) (recordSize : ℕ) (x : Sample) : Prop where
  length : x.length = recordSize
  header_le : headerSize ≤ recordSize
  data_le : recordSize ≤ x.data.length
  frame : x.data.take headerSize = protocolVersion :: report :: (putBe16 x.sequence ++
    (putBe32 x.seconds ++ [x.entryCount, x.flags]))

/-- What is read of a sample that was stored: its bytes up to its length. -/
def Sample.filed (b : Build) (x : Sample) : Sample :=
  { x with data := x.data.take x.length ++ List.replicate (b.sampleBytes - x.length) 0 }

/-- The record in a slot: of the one sample of the slot, or zeros. -/
def slotRecord (b : Build) (recordSize : ℕ) (present : List Sample) (slot : ℕ) : List UInt8 :=
  match present.find? fun x => slotOf b x.sequence = slot with
  | some x => x.data.take recordSize
  | none => List.replicate recordSize 0

/-- A store file whose slots hold some samples, no two of one slot. -/
structure RingFile (b : Build) (report : UInt8) (recordSize : ℕ) (present : List Sample)
    (file : List UInt8) : Prop where
  header : file.take storeHeaderSize = storeHeader b report recordSize
  size_le : recordSize ≤ b.sampleBytes
  framed : ∀ x ∈ present, Framed report recordSize x
  nodup : (present.map fun x => slotOf b x.sequence).Nodup
  slots : ∃ count ≤ b.storeCapacity, file.length = slotOffset recordSize count ∧
    (∀ x ∈ present, slotOf b x.sequence < count) ∧
    ∀ slot < count, region file (slotOffset recordSize slot) recordSize =
      slotRecord b recordSize present slot

/-- The record of a sample, field by field. -/
theorem Framed.record {report : UInt8} {recordSize : ℕ} {x : Sample}
    (h : Framed report recordSize x) :
    ∃ rest, x.data.take recordSize = protocolVersion :: report :: (putBe16 x.sequence ++
      (putBe32 x.seconds ++ (x.entryCount :: x.flags :: rest))) := by
  obtain ⟨-, hheader, -, hframe⟩ := h
  obtain ⟨rest, hrest⟩ : ∃ rest, x.data.take recordSize = x.data.take headerSize ++ rest := by
    refine ⟨(x.data.take recordSize).drop headerSize, ?_⟩
    conv_lhs => rw [← List.take_append_drop headerSize (x.data.take recordSize), List.take_take,
      Nat.min_eq_left hheader]
  refine ⟨rest, ?_⟩
  rw [hrest, hframe]
  simp

/-- A slot is read as far as the file goes. -/
theorem readAt_none {file : List UInt8} {offset size : ℕ} :
    readAt none file offset size = if file.length < offset + size then
      if size = 0 then .ok [] else .error .EBADMSG else .ok (region file offset size) := by
  unfold readAt
  dsimp only
  rw [length_region]
  by_cases hsize : size = 0
  · subst hsize
    simp [region]
  · by_cases hlong : file.length < offset + size
    · rw [if_pos (by omega), if_pos hlong, if_neg hsize]
    · rw [if_neg (by omega), if_neg hlong]

namespace RingFile

variable {report : UInt8} {recordSize : ℕ} {present : List Sample} {file : List UInt8}

/-- A slot is read, or the file ends before it. -/
theorem readAt_slot (h : RingFile b report recordSize present file) (hsize : 0 < recordSize)
    (slot : ℕ) : readAt none file (slotOffset recordSize slot) recordSize =
        .ok (slotRecord b recordSize present slot) ∨
      (∃ e, readAt none file (slotOffset recordSize slot) recordSize = .error e) ∧
        ∀ later, slot ≤ later → present.find? (fun x => slotOf b x.sequence = later) = none := by
  obtain ⟨count, -, hlen, hlt, hregion⟩ := h.slots
  rw [readAt_none, hlen]
  by_cases hslot : slot < count
  · have hin : ¬ slotOffset recordSize count < slotOffset recordSize slot + recordSize := by
      have hmul := Nat.mul_le_mul_right recordSize (Nat.succ_le_of_lt hslot)
      unfold slotOffset
      rw [Nat.succ_mul] at hmul
      omega
    rw [if_neg hin, hregion slot hslot]
    exact Or.inl rfl
  · have hout : slotOffset recordSize count < slotOffset recordSize slot + recordSize := by
      have hmul := Nat.mul_le_mul_right recordSize (not_lt.1 hslot)
      unfold slotOffset
      omega
    rw [if_pos hout, if_neg (by omega)]
    refine Or.inr ⟨⟨_, rfl⟩, fun later hle => List.find?_eq_none.2 fun x hx => ?_⟩
    have hcount := hlt x hx
    rw [decide_eq_true_iff]
    omega

/-- What is found from a slot on. -/
def found (b : Build) (present : List Sample) (slot turns : ℕ) : List Sample :=
  (List.range' slot turns).filterMap fun slot => present.find? fun x => slotOf b x.sequence = slot

/-- **The scan** finds the records, slot by slot. -/
theorem scanSlots_eq (h : RingFile b report recordSize present file)
    (hsize : headerSize ≤ recordSize) (turns slot : ℕ) (newest : Option UInt16) (written : UInt16) :
    scanSlots .working report recordSize b.storeCapacity file turns slot newest written =
      ((found b present slot turns).foldl (fun newest x => newer newest x.sequence) newest,
        written + UInt16.ofNat (found b present slot turns).length) := by
  induction turns generalizing slot newest written with
  | zero => exact Prod.ext rfl (UInt16.add_zero written).symm
  | succ turns ih =>
    have hfound : found b present slot (turns + 1) =
        (present.find? fun x => slotOf b x.sequence = slot).toList ++
          found b present (slot + 1) turns := by
      unfold found
      rw [List.range'_succ, List.filterMap_cons]
      cases present.find? fun x => slotOf b x.sequence = slot <;> rfl
    unfold scanSlots
    rcases h.readAt_slot (lt_of_lt_of_le (by decide) hsize) slot with hread | ⟨⟨e, hread⟩, hnone⟩
    · rw [show ReaderIo.working.reads (slot + 1) = none from rfl, hread, hfound]
      unfold slotRecord
      cases hfind : present.find? fun x => slotOf b x.sequence = slot with
      | none =>
        have hzero : (List.replicate recordSize (0 : UInt8)).headD 0 = 0 := by
          cases recordSize <;> rfl
        dsimp only
        rw [if_pos hzero, ih]
        rfl
      | some x =>
        have hkey : slotOf b x.sequence = slot := by simpa using List.find?_some hfind
        obtain ⟨rest, hrecord⟩ := (h.framed x (List.mem_of_find?_eq_some hfind)).record
        obtain ⟨a, c, hsequence, hget⟩ := exists_putBe16 x.sequence
        rw [hsequence] at hrecord
        have hbelongs :
            slotBelongs (x.data.take recordSize) report b.storeCapacity slot = true := by
          rw [hrecord]
          unfold slotBelongs
          rw [decide_eq_true_iff]
          exact ⟨rfl, rfl, (congrArg (fun q => q.toNat % b.storeCapacity) (hget _)).trans hkey⟩
        have hnewest : getBe16 ((x.data.take recordSize).drop 2) = x.sequence := by
          rw [hrecord]
          exact hget _
        have hversion : ¬ (x.data.take recordSize).headD 0 = 0 := by
          rw [hrecord]
          exact show ¬ protocolVersion = 0 by decide
        dsimp only
        rw [if_neg hversion, if_neg (by rw [hbelongs]; decide), hnewest, ih]
        refine Prod.ext rfl ?_
        show written + 1 + UInt16.ofNat (found b present (slot + 1) turns).length =
          written + UInt16.ofNat ((found b present (slot + 1) turns).length + 1)
        rw [UInt16.ofNat_add, UInt16.add_assoc, UInt16.add_comm 1]
        rfl
    · have hempty : found b present slot (turns + 1) = [] := by
        refine List.filterMap_eq_nil_iff.2 fun later hlater => hnone later ?_
        exact (List.mem_range'_1.1 hlater).1
      rw [show ReaderIo.working.reads (slot + 1) = none from rfl, hread, hempty]
      exact Prod.ext rfl (UInt16.add_zero written).symm

/-- What is found in all slots are the records. -/
theorem found_perm (h : RingFile b report recordSize present file) :
    (found b present 0 b.storeCapacity).Perm present := by
  have hcap := b.storeCapacity_range.1
  have hfound : (found b present 0 b.storeCapacity).Nodup := by
    refine List.Nodup.filterMap (fun slot other x hx hx' => ?_) List.nodup_range'
    have hslot : slotOf b x.sequence = slot := by simpa using List.find?_some hx
    have hother : slotOf b x.sequence = other := by simpa using List.find?_some hx'
    rw [← hslot, hother]
  refine (List.perm_ext_iff_of_nodup hfound h.nodup.of_map).2 fun x => ?_
  unfold found
  rw [List.mem_filterMap]
  constructor
  · rintro ⟨slot, -, hx⟩
    exact List.mem_of_find?_eq_some hx
  · intro hx
    refine ⟨slotOf b x.sequence, List.mem_range'_1.2 ⟨Nat.zero_le _, ?_⟩,
      find?_of_nodup (fun x => slotOf b x.sequence) h.nodup hx⟩
    rw [Nat.zero_add]
    exact Nat.mod_lt _ (by omega)

end RingFile

/-! ### Consecutive sequences -/

/-- Sequences that count up from the first one, past 65535 if need be. -/
def Consecutive (sequences : List UInt16) : Prop :=
  sequences = (List.range sequences.length).map fun i => sequences.headD 0 + UInt16.ofNat i

theorem Consecutive.get {sequences : List UInt16} (h : Consecutive sequences) {i : ℕ} {q : UInt16}
    (hq : sequences[i]? = some q) : q = sequences.headD 0 + UInt16.ofNat i := by
  have hi := (List.getElem?_eq_some_iff.1 hq).1
  unfold Consecutive at h
  rw [h, List.getElem?_map, List.getElem?_range hi] at hq
  exact (Option.some.inj hq).symm

/-- The comparison of the C code: a difference that is not negative as a signed one. -/
theorem newer_add (q : UInt16) {i j : ℕ} (hi : i < 2 ^ 15) (hj : j < 2 ^ 15) :
    newer (some (q + UInt16.ofNat i)) (q + UInt16.ofNat j) = some (q + UInt16.ofNat (max i j)) := by
  have hdiff : q + UInt16.ofNat j - (q + UInt16.ofNat i) = UInt16.ofNat j - UInt16.ofNat i := by
    grind
  have hpos : 0 < (UInt16.ofNat j - UInt16.ofNat i).toInt16.toInt ↔ i < j := by
    rw [← Int16.toInt_toBitVec, UInt16.toBitVec_toInt16, UInt16.toBitVec_sub,
      BitVec.toInt_eq_toNat_cond, BitVec.toNat_sub, UInt16.toNat_toBitVec, UInt16.toNat_toBitVec,
      UInt16.toNat_ofNat', UInt16.toNat_ofNat']
    split_ifs <;> omega
  show (if 0 < _ then _ else _) = _
  rw [hdiff]
  split_ifs with h
  · rw [Nat.max_eq_right (hpos.1 h).le]
  · rw [Nat.max_eq_left (not_lt.1 (mt hpos.2 h))]

/-- **The newest** of consecutive sequences, in any order, is the last one. -/
theorem foldl_newer (q : UInt16) {m : ℕ} (hm : m ≤ 2 ^ 15) (sequences : List UInt16)
    (hin : ∀ r ∈ sequences, ∃ i < m, r = q + UInt16.ofNat i) (newest : Option UInt16)
    (hnewest : ∀ r, newest = some r → ∃ i < m, r = q + UInt16.ofNat i)
    (hlast : q + UInt16.ofNat (m - 1) ∈ sequences ∨ newest = some (q + UInt16.ofNat (m - 1))) :
    sequences.foldl newer newest = some (q + UInt16.ofNat (m - 1)) := by
  induction sequences generalizing newest with
  | nil =>
    rcases hlast with hlast | hlast
    · cases hlast
    · exact hlast
  | cons r sequences ih =>
    obtain ⟨⟨j, hj, rfl⟩, hrest⟩ := List.forall_mem_cons.1 hin
    rw [List.foldl_cons]
    cases newest with
    | none =>
      refine ih hrest _ (fun r hr => ⟨j, hj, (Option.some.inj hr).symm⟩) ?_
      rcases hlast with hlast | hlast
      · rcases List.mem_cons.1 hlast with heq | hlast
        · exact Or.inr (congrArg some heq.symm)
        · exact Or.inl hlast
      · cases hlast
    | some n =>
      obtain ⟨i, hi, rfl⟩ := hnewest n rfl
      rw [newer_add q (hi.trans_le hm) (hj.trans_le hm)]
      refine ih hrest _ (fun r hr => ⟨max i j, max_lt hi hj, (Option.some.inj hr).symm⟩) ?_
      -- whichever of the two is the last one is no less than the other
      have hinj : ∀ {k : ℕ}, k < m → q + UInt16.ofNat (m - 1) = q + UInt16.ofNat k → k = m - 1 := by
        intro k hk heq
        have heq' := congrArg UInt16.toNat ((UInt16.add_right_inj q).1 heq)
        rw [UInt16.toNat_ofNat', UInt16.toNat_ofNat'] at heq'
        omega
      rcases hlast with hlast | hlast
      · rcases List.mem_cons.1 hlast with heq | hlast
        · have hj' := hinj hj heq
          exact Or.inr (congrArg (fun k => some (q + UInt16.ofNat k)) (by omega))
        · exact Or.inl hlast
      · have hi' := hinj hi (Option.some.inj hlast).symm
        exact Or.inr (congrArg (fun k => some (q + UInt16.ofNat k)) (by omega))

/-! ### What a walk visits -/

/-- What a visitor makes of some records. -/
def visitAll (visitor : Visitor σ) : List Sample → UInt16 → σ → UInt16 × σ
  | [], position, state => (position, state)
  | sample :: samples, position, state =>
    match visitor sample position state with
    | (true, state) => visitAll visitor samples (position + 1) state
    | (false, state) => (position + 1, state)

/-- The records that are found from an index on and match. -/
def matching (b : Build) (io : ReaderIo) (filter : Filter) (reader : Reader) (index turns : ℕ) :
    List Sample :=
  (List.range' index turns).filterMap fun i =>
    match readerRecord b (io.reads (reader.capacity + 1 + i)) reader filter.report
      (readerOldest reader + UInt16.ofNat i) with
    | .error _ => none
    | .ok sample => if sampleMatches filter sample then some sample else none

/-- The first turn of a walk. -/
theorem matching_succ (io : ReaderIo) (filter : Filter) (reader : Reader) (index turns : ℕ) :
    matching b io filter reader index (turns + 1) =
      (match readerRecord b (io.reads (reader.capacity + 1 + index)) reader filter.report
          (readerOldest reader + UInt16.ofNat index) with
        | .error _ => []
        | .ok sample => if sampleMatches filter sample then [sample] else []) ++
          matching b io filter reader (index + 1) turns := by
  unfold matching
  rw [List.range'_succ, List.filterMap_cons]
  cases readerRecord b (io.reads (reader.capacity + 1 + index)) reader filter.report
    (readerOldest reader + UInt16.ofNat index) with
  | error e => rfl
  | ok sample => by_cases hmatches : sampleMatches filter sample = true <;> simp [hmatches]

theorem length_matching_le (io : ReaderIo) (filter : Filter) (reader : Reader)
    (index turns : ℕ) : (matching b io filter reader index turns).length ≤ turns := by
  refine (List.length_filterMap_le _ _).trans ?_
  rw [List.length_range']

/-- **A walk** visits what is found and matches. -/
theorem walkLoop_eq (io : ReaderIo) (filter : Filter) (reader : Reader) (visitor : Visitor σ)
    (turns index : ℕ) (position : UInt16) (state : σ) (h : index + turns < 2 ^ 16) :
    walkLoop b io filter reader visitor turns (UInt16.ofNat index) position state =
      visitAll visitor (matching b io filter reader index turns) position state := by
  induction turns generalizing index position state with
  | zero => rfl
  | succ turns ih =>
    have hnext : UInt16.ofNat index + 1 = UInt16.ofNat (index + 1) :=
      (UInt16.ofNat_add index 1).symm
    have hindex : (UInt16.ofNat index).toNat = index := by
      rw [UInt16.toNat_ofNat', Nat.mod_eq_of_lt (by omega)]
    have ih := ih (index + 1)
    unfold walkLoop
    rw [matching_succ, hindex, hnext]
    cases readerRecord b (io.reads (reader.capacity + 1 + index)) reader filter.report
      (readerOldest reader + UInt16.ofNat index) with
    | error e => exact ih _ _ (by omega)
    | ok sample =>
      dsimp only
      by_cases hmatches : sampleMatches filter sample = true
      · rw [hmatches, Bool.not_true, if_neg Bool.false_ne_true, if_pos rfl, List.singleton_append]
        unfold visitAll
        rcases visitor sample position state with ⟨_ | _, state⟩
        · rfl
        · exact ih _ _ (by omega)
      · rw [Bool.not_eq_true] at hmatches
        rw [hmatches, Bool.not_false, if_pos rfl, if_neg Bool.false_ne_true, List.nil_append]
        exact ih _ _ (by omega)

/-- The records that are found from an index on. -/
def walked (b : Build) (reader : Reader) (report : UInt8) (index turns : ℕ) : List Sample :=
  (List.range' index turns).filterMap fun i =>
    (readerRecord b none reader report (readerOldest reader + UInt16.ofNat i)).toOption

theorem sampleMatches_zeroed (report : UInt8) (sample : Sample) :
    sampleMatches (Filter.zeroed report) sample = true := by
  simp [sampleMatches, sequenceWithin, Filter.zeroed]

/-- **A walk with no conditions** visits what is found. -/
theorem walkLoop_zeroed (report : UInt8) (reader : Reader) (visitor : Visitor σ)
    (turns index : ℕ) (position : UInt16) (state : σ) (h : index + turns < 2 ^ 16) :
    walkLoop b .working (Filter.zeroed report) reader visitor turns (UInt16.ofNat index) position
        state = visitAll visitor (walked b reader report index turns) position state := by
  have hmatching : matching b .working (Filter.zeroed report) reader index turns =
      walked b reader report index turns := by
    refine List.filterMap_congr fun i _ => ?_
    rw [show ReaderIo.working.reads (reader.capacity + 1 + i) = none from rfl,
      show (Filter.zeroed report).report = report from rfl]
    cases readerRecord b none reader report (readerOldest reader + UInt16.ofNat i) with
    | error e => rfl
    | ok sample => exact if_pos (sampleMatches_zeroed report sample)
  rw [walkLoop_eq _ _ _ _ _ _ _ _ h, hmatching]

/-- No visitor counts. -/
theorem visitAll_none (samples : List Sample) (position : UInt16) :
    (visitAll .none samples position ()).1 = position + UInt16.ofNat samples.length := by
  induction samples generalizing position with
  | nil => exact (UInt16.add_zero position).symm
  | cons sample samples ih =>
    refine (ih (position + 1)).trans ?_
    rw [List.length_cons, UInt16.ofNat_add, UInt16.add_assoc, UInt16.add_comm 1]
    rfl

/-- The visitor that notes every record. -/
def noteAll : Visitor (List Sample) := fun sample _ seen => (true, seen ++ [sample])

theorem visitAll_noteAll (samples : List Sample) (position : UInt16) (seen : List Sample) :
    (visitAll noteAll samples position seen).2 = seen ++ samples := by
  induction samples generalizing position seen with
  | nil => exact (List.append_nil seen).symm
  | cons sample samples ih =>
    refine (ih (position + 1) (seen ++ [sample])).trans ?_
    rw [List.append_assoc, List.singleton_append]

/-- `take_one` takes the record of an index. -/
theorem visitAll_takeOne (samples : List Sample) (wanted : UInt16) (k : ℕ)
    (hlen : k + samples.length ≤ 2 ^ 16) (hk : k ≤ wanted.toNat) :
    (visitAll (takeOne wanted) samples (UInt16.ofNat k) none).2 = samples[wanted.toNat - k]? := by
  induction samples generalizing k with
  | nil => simp [visitAll]
  | cons sample samples ih =>
    rw [List.length_cons] at hlen
    unfold visitAll takeOne
    by_cases heq : UInt16.ofNat k = wanted
    · have hwanted : wanted.toNat = k := by
        rw [← heq, UInt16.toNat_ofNat']
        omega
      rw [if_neg (not_not.2 heq), hwanted, Nat.sub_self]
      rfl
    · have hne : wanted.toNat ≠ k := by
        rintro rfl
        exact heq UInt16.ofNat_toNat
      rw [if_pos heq]
      have hnext : UInt16.ofNat k + 1 = UInt16.ofNat (k + 1) :=
      (UInt16.ofNat_add k 1).symm
      dsimp only
      rw [hnext]
      refine (ih (k + 1) (by omega) (by omega)).trans ?_
      rw [show wanted.toNat - k = wanted.toNat - (k + 1) + 1 by omega, List.getElem?_cons_succ]

namespace RingFile

variable {report : UInt8} {recordSize : ℕ} {present : List Sample} {file : List UInt8}

/-- The reader of a file. -/
def reader (b : Build) (recordSize : ℕ) (present : List Sample) (file : List UInt8) : Reader :=
  ⟨file, recordSize, b.storeCapacity, ((found b present 0 b.storeCapacity).foldl
      (fun newest x => newer newest x.sequence) none).getD 0, UInt16.ofNat present.length⟩

section

variable (h : RingFile b report recordSize present file)
include h

theorem length_le : present.length ≤ b.storeCapacity := by
  have hcap := b.storeCapacity_range.1
  rw [← h.found_perm.length_eq]
  refine (List.length_filterMap_le _ _).trans ?_
  rw [List.length_range']

/-- **The file opens.** -/
theorem readerOpen_eq (hsize : headerSize ≤ recordSize) :
    readerOpen b .working report (some file) = .ok (reader b recordSize present file) := by
  have hcap := b.storeCapacity_range
  have hle := h.size_le
  have hbytes := b.sampleBytes_range
  have hsize' : 10 ≤ recordSize := hsize
  have hread : readAt none file 0 storeHeaderSize = .ok (storeHeader b report recordSize) := by
    obtain ⟨count, -, hlen, -⟩ := h.slots
    rw [readAt_none, hlen, if_neg (by unfold slotOffset; omega)]
    exact congrArg Except.ok h.header
  have hheader := headerOf_storeHeader b report hle
  unfold headerOf at hheader
  obtain ⟨-, hmagic, hversion, hreport, hgot, hcapacity⟩ := of_decide_eq_true hheader
  have hread' : ¬ ((storeHeader b report recordSize).take 4 ≠ storeMagic ∨
      (storeHeader b report recordSize).getD 4 0 ≠ storeVersion ∨
      (storeHeader b report recordSize).getD 5 0 ≠ report) :=
    not_or.2 ⟨not_not.2 hmagic, not_or.2 ⟨not_not.2 hversion, not_not.2 hreport⟩⟩
  unfold readerOpen
  rw [if_neg (show ¬ (!ReaderIo.working.ready) = true by decide),
    show openExisting ReaderIo.working.opened (some file) = .ok file from rfl]
  dsimp only
  rw [show ReaderIo.working.reads 0 = none from rfl, hread]
  dsimp only
  rw [hgot, hcapacity, if_neg hread', if_neg (by omega),
    h.scanSlots_eq hsize]
  refine congrArg Except.ok (congrArg (Reader.mk file recordSize b.storeCapacity _) ?_)
  rw [← h.found_perm.length_eq, UInt16.zero_add]
  cases found b present 0 b.storeCapacity with
  | nil => rfl
  | cons x rest =>
    have hsome : ∀ (xs : List Sample) (newest : UInt16),
        ((xs.foldl (fun newest x => newer newest x.sequence) (some newest)).isSome) = true := by
      intro xs
      induction xs with
      | nil => exact fun _ => rfl
      | cons y ys ih =>
        intro newest
        rw [List.foldl_cons]
        unfold newer
        dsimp only
        split_ifs
        · exact ih _
        · exact ih _
    exact if_pos (hsome rest x.sequence)

theorem nodup_sequence : (present.map Sample.sequence).Nodup := by
  refine List.Nodup.of_map (fun q => q.toNat % b.storeCapacity) ?_
  rw [List.map_map]
  exact h.nodup

end

/-- What is made of the bytes that are read. -/
theorem readerRecord_of_read (reader : Reader) (report : UInt8) (sequence : UInt16)
    {record data : List UInt8} (hread : readAt none reader.file (slotOffset reader.recordSize
      (sequence.toNat % reader.capacity)) reader.recordSize = .ok record)
    (hdata : record ++ List.replicate (b.sampleBytes - reader.recordSize) 0 = data) :
    readerRecord b none reader report sequence =
      if data.headD 0 = 0 ∨ (!slotBelongs data report reader.capacity
          (sequence.toNat % reader.capacity)) = true ∨ getBe16 (data.drop 2) ≠ sequence then
        .error .ENOENT
      else
        .ok ⟨getBe32 (data.drop 4), sequence, data.getD 8 0, data.getD 9 0, reader.recordSize,
          data⟩ := by
  unfold readerRecord
  dsimp only
  rw [hread]
  subst hdata
  rfl

theorem readerRecord_of_error (reader : Reader) (report : UInt8) (sequence : UInt16) {e : Errno}
    (hread : readAt none reader.file (slotOffset reader.recordSize
      (sequence.toNat % reader.capacity)) reader.recordSize = .error e) :
    readerRecord b none reader report sequence = .error e := by
  unfold readerRecord
  dsimp only
  rw [hread]

/-- **A record is found** by its sequence. -/
theorem readerRecord_eq (h : RingFile b report recordSize present file)
    (hsize : headerSize ≤ recordSize) (sequence : UInt16) :
    (readerRecord b none (reader b recordSize present file) report sequence).toOption =
      (present.find? fun x => x.sequence = sequence).map (Sample.filed b) := by
  have hsize' : 10 ≤ recordSize := hsize
  have hother : ∀ x ∈ present, slotOf b x.sequence = slotOf b sequence → x.sequence ≠ sequence →
      present.find? (fun x => x.sequence = sequence) = none := by
    intro x hx hslot hne
    refine List.find?_eq_none.2 fun y hy => ?_
    rw [decide_eq_true_iff]
    rintro rfl
    exact hne (congrArg Sample.sequence (List.inj_on_of_nodup_map h.nodup hx hy hslot))
  rcases h.readAt_slot (by omega) (slotOf b sequence) with hread | ⟨⟨e, hread⟩, hnone⟩
  · obtain ⟨data, hdata⟩ : ∃ data, slotRecord b recordSize present (slotOf b sequence) ++
        List.replicate (b.sampleBytes - recordSize) 0 = data := ⟨_, rfl⟩
    rw [readerRecord_of_read (reader b recordSize present file) report sequence hread hdata]
    unfold slotRecord at hdata
    cases hfind : present.find? fun x => slotOf b x.sequence = slotOf b sequence with
    | none =>
      rw [hfind] at hdata
      have hzero : data.headD 0 = 0 := by
        obtain ⟨n, rfl⟩ := Nat.exists_eq_add_of_le' hsize'
        rw [← hdata]
        rfl
      rw [if_pos (Or.inl hzero), List.find?_eq_none.2 fun x hx => ?_]
      · rfl
      · rw [decide_eq_true_iff]
        rintro rfl
        exact List.find?_eq_none.1 hfind x hx (decide_eq_true rfl)
    | some x =>
      have hx := List.mem_of_find?_eq_some hfind
      have hslot : slotOf b x.sequence = slotOf b sequence := by simpa using List.find?_some hfind
      have hframed := h.framed x hx
      obtain ⟨rest, hrecord⟩ := hframed.record
      obtain ⟨a, c, hputSequence, hgetSequence⟩ := exists_putBe16 x.sequence
      obtain ⟨e, f, g, i, hputSeconds, hgetSeconds⟩ := exists_putBe32 x.seconds
      have hfiled : (x.filed b).data = data := by
        rw [← hdata, hfind]
        show x.data.take x.length ++ _ = x.data.take recordSize ++ _
        rw [hframed.length]
      have hbytes : data =
          protocolVersion :: report :: a :: c :: e :: f :: g :: i :: x.entryCount :: x.flags ::
            (rest ++ List.replicate (b.sampleBytes - recordSize) 0) := by
        rw [← hdata, hfind]
        show x.data.take recordSize ++ _ = _
        rw [hrecord, hputSequence, hputSeconds]
        rfl
      have hgot : getBe16 (data.drop 2) = x.sequence := by
        rw [hbytes]
        exact hgetSequence _
      have hseconds : getBe32 (data.drop 4) = x.seconds := by
        rw [hbytes]
        exact hgetSeconds _
      by_cases hsequence : x.sequence = sequence
      · subst hsequence
        have hbelongs : slotBelongs data report b.storeCapacity
            (x.sequence.toNat % b.storeCapacity) = true := by
          unfold slotBelongs
          rw [decide_eq_true_iff, hgot, hbytes]
          exact ⟨rfl, rfl, rfl⟩
        have hversion : ¬ data.headD 0 = 0 := by
          rw [hbytes]
          exact show ¬ protocolVersion = 0 by decide
        have hfind' : present.find? (fun y => y.sequence = x.sequence) = some x :=
          find?_of_nodup Sample.sequence h.nodup_sequence hx
        rw [hfind', if_neg (not_or.2 ⟨hversion, not_or.2 ⟨by
          rw [show (reader b recordSize present file).capacity = b.storeCapacity from rfl, hbelongs]
          decide, not_not.2 hgot⟩⟩), hseconds]
        have hcount : data.getD 8 0 = x.entryCount := by
          rw [hbytes]
          rfl
        have hflags : data.getD 9 0 = x.flags := by
          rw [hbytes]
          rfl
        rw [hcount, hflags, ← hfiled]
        show some _ = some (x.filed b)
        rw [show (reader b recordSize present file).recordSize = recordSize from rfl,
          ← hframed.length]
        rfl
      · rw [if_pos (Or.inr (Or.inr (by rw [hgot]; exact hsequence))), hother x hx hslot hsequence]
        rfl
  · rw [readerRecord_of_error (reader b recordSize present file) report sequence hread,
      List.find?_eq_none.2 fun x hx => ?_]
    · rfl
    · rw [decide_eq_true_iff]
      rintro rfl
      exact List.find?_eq_none.1 (hnone _ le_rfl) x hx (decide_eq_true rfl)

/-- The items of all places. -/
theorem filterMap_range_getElem? {α : Type} (xs : List α) :
    ((List.range xs.length).filterMap fun i => xs[i]?) = xs := by
  induction xs with
  | nil => rfl
  | cons x xs ih =>
    rw [List.length_cons, List.range_succ_eq_map, List.filterMap_cons, List.filterMap_map]
    exact congrArg (x :: ·) ih

/-- The oldest sequence that is taken. -/
def oldest (b : Build) (recordSize : ℕ) (present : List Sample) (file : List UInt8) : UInt16 :=
  readerOldest (reader b recordSize present file)

/-- The records that a walk finds. -/
def visited (b : Build) (recordSize : ℕ) (present : List Sample) (file : List UInt8) :
    List Sample :=
  (List.range present.length).filterMap fun i =>
    (present.find? fun x => x.sequence = oldest b recordSize present file + UInt16.ofNat i).map
      (Sample.filed b)

section

variable (h : RingFile b report recordSize present file)
include h

/-- **A walk over the file.** -/
theorem walk_eq (hsize : headerSize ≤ recordSize)
    (hreport : report.toNat < b.reports) (visitor : Visitor σ) (state : σ) :
    walk b .working (Filter.zeroed report) (some file) visitor state =
      .ok (visitAll visitor (visited b recordSize present file) 0 state) := by
  have hcap := b.storeCapacity_range.2
  have hle := h.length_le
  have hwritten : (reader b recordSize present file).written.toNat = present.length := by
    show (UInt16.ofNat present.length).toNat = _
    rw [UInt16.toNat_ofNat', Nat.mod_eq_of_lt (by omega)]
  have hwalked : walked b (reader b recordSize present file) report 0 present.length =
      visited b recordSize present file := by
    unfold walked visited
    rw [← List.range_eq_range']
    exact List.filterMap_congr fun i _ => h.readerRecord_eq hsize _
  unfold walk
  rw [show (Filter.zeroed report).report = report from rfl, if_neg (not_le.2 hreport),
    h.readerOpen_eq hsize]
  dsimp only
  rw [hwritten, ← hwalked]
  exact congrArg Except.ok
    (walkLoop_zeroed report _ visitor present.length 0 0 state (by omega))

theorem storeQuery_eq
    (hsize : headerSize ≤ recordSize) (hreport : report.toNat < b.reports) (s : State b) :
    storeQuery .working report s (some file) =
      .ok ⟨recordSize, b.storeCapacity, UInt16.ofNat present.length,
        if UInt16.ofNat present.length ≠ 0 then oldest b recordSize present file else 0,
        if UInt16.ofNat present.length ≠ 0 then (reader b recordSize present file).newest else 0,
        (s.stores report).interval.ms⟩ := by
  unfold storeQuery
  rw [if_neg (not_le.2 hreport), h.readerOpen_eq hsize]
  rfl

/-- **The sequences that are taken** are those of the records, if these are consecutive. -/
theorem visited_eq (hconsecutive : Consecutive (present.map Sample.sequence)) :
    visited b recordSize present file = present.map (Sample.filed b) ∧
      (present ≠ [] → (reader b recordSize present file).newest =
        (present.map Sample.sequence).headD 0 + UInt16.ofNat (present.length - 1) ∧
        oldest b recordSize present file = (present.map Sample.sequence).headD 0) := by
  have hcap := b.storeCapacity_range.2
  have hle := h.length_le
  have hsequence : ∀ i x, present[i]? = some x →
      x.sequence = (present.map Sample.sequence).headD 0 + UInt16.ofNat i :=
    fun i x hx => hconsecutive.get (by rw [List.getElem?_map, hx]; rfl)
  unfold Consecutive at hconsecutive
  rw [List.length_map] at hconsecutive
  obtain ⟨q, hq⟩ : ∃ q, (present.map Sample.sequence).headD 0 = q := ⟨_, rfl⟩
  rw [hq] at hconsecutive hsequence ⊢
  have hfold : present ≠ [] → (reader b recordSize present file).newest =
      q + UInt16.ofNat (present.length - 1) := by
    intro hne
    have hpos := List.length_pos_iff.2 hne
    have hperm := h.found_perm.map Sample.sequence
    have hnewest := foldl_newer q (show present.length ≤ 2 ^ 15 by omega)
      ((found b present 0 b.storeCapacity).map Sample.sequence) (fun r hr => by
        rw [hperm.mem_iff, hconsecutive] at hr
        obtain ⟨i, hi, rfl⟩ := List.mem_map.1 hr
        exact ⟨i, List.mem_range.1 hi, rfl⟩) none (fun _ hr => by cases hr) (Or.inl (by
        rw [hperm.mem_iff, hconsecutive]
        exact List.mem_map.2 ⟨_, List.mem_range.2 (by omega), rfl⟩))
    rw [List.foldl_map] at hnewest
    exact congrArg (Option.getD · 0) hnewest
  have hoffset : present ≠ [] → oldest b recordSize present file = q := by
    intro hne
    have hpos := List.length_pos_iff.2 hne
    show (reader b recordSize present file).newest - (UInt16.ofNat present.length - 1) = q
    rw [hfold hne]
    have hpred : UInt16.ofNat present.length - 1 = UInt16.ofNat (present.length - 1) := by
      conv_lhs => rw [show present.length = present.length - 1 + 1 by omega, UInt16.ofNat_add]
      exact UInt16.add_sub_cancel _ _
    rw [hpred, UInt16.add_sub_cancel]
  refine ⟨?_, fun hne => ⟨hfold hne, hoffset hne⟩⟩
  by_cases hne : present = []
  · subst hne
    rfl
  · unfold visited
    rw [hoffset hne]
    have hfind : ∀ i ∈ List.range present.length,
        ((present.find? fun x => x.sequence = q + UInt16.ofNat i).map (Sample.filed b)) =
          present[i]?.map (Sample.filed b) := by
      intro i hi
      have hget := List.getElem?_eq_getElem (List.mem_range.1 hi)
      rw [hget, ← hsequence i _ hget]
      exact congrArg (Option.map (Sample.filed b))
        (find?_of_nodup Sample.sequence h.nodup_sequence (List.getElem_mem _))
    rw [List.filterMap_congr hfind, ← List.map_filterMap, filterMap_range_getElem?]

end

/-- The other way round: a walk that finds as many records as there are takes their sequences. -/
theorem consecutive_of_visited
    (hvisited : visited b recordSize present file = present.map (Sample.filed b)) :
    Consecutive (present.map Sample.sequence) := by
  have hall := List.filterMap_length_eq_length.1 (show (visited b recordSize present file).length =
    (List.range present.length).length by rw [hvisited, List.length_map, List.length_range])
  have hsequences : (visited b recordSize present file).map Sample.sequence =
      (List.range present.length).map fun i =>
        oldest b recordSize present file + UInt16.ofNat i := by
    unfold visited
    rw [List.map_filterMap, ← List.filterMap_eq_map]
    refine List.filterMap_congr fun i hi => ?_
    obtain ⟨x, hx⟩ := Option.isSome_iff_exists.1 (hall i hi)
    obtain ⟨y, hy, rfl⟩ := Option.map_eq_some_iff.1 hx
    have hkey : y.sequence = oldest b recordSize present file + UInt16.ofNat i := by
      simpa using List.find?_some hy
    rw [hy]
    exact congrArg some hkey
  have hmap : present.map Sample.sequence = (List.range present.length).map fun i =>
      oldest b recordSize present file + UInt16.ofNat i := by
    rw [← hsequences, hvisited, List.map_map]
    rfl
  unfold Consecutive
  rw [List.length_map]
  have hhead : ∀ i ∈ List.range present.length, oldest b recordSize present file + UInt16.ofNat i =
      (present.map Sample.sequence).headD 0 + UInt16.ofNat i := by
    intro i hi
    have hpos : 0 < present.length := by
      have := List.mem_range.1 hi
      omega
    obtain ⟨n, hn⟩ := Nat.exists_eq_add_of_le' hpos
    rw [hmap, hn, List.range_succ_eq_map]
    exact congrArg (· + UInt16.ofNat i) (UInt16.add_zero _).symm
  exact hmap.trans (List.map_congr_left hhead)

end RingFile

/-! ### Reading back -/

/-- **The store reads back** as some records: a walk with no conditions visits them in their order,
as many are counted as a query has, each index below is read, and the oldest and the newest are the
first and the last. -/
structure ReadsBack (report : UInt8) (s : State b) (file : Option (List UInt8))
    (present : List Sample) : Prop where
  walk : ∃ matched, walk b .working (Filter.zeroed report) file noteAll [] =
    .ok (matched, present.map (Sample.filed b))
  query : ∃ info, storeQuery .working report s file = .ok info ∧
    storeCount b .working (Filter.zeroed report) file = .ok info.records ∧
    info.records.toNat = present.length ∧
    (∀ x, present.head? = some x → info.oldest = x.sequence) ∧
    ∀ x, present.getLast? = some x → info.newest = x.sequence
  read : ∀ index : UInt16, storeRead b .working (Filter.zeroed report) index file =
    match present[index.toNat]? with
    | some x => .ok (x.filed b)
    | none => .error .ENOENT

/-- **A file of records reads back** if and only if their sequences are consecutive. -/
theorem RingFile.readsBack_iff {report : UInt8} {recordSize : ℕ} {present : List Sample}
    {file : List UInt8} (h : RingFile b report recordSize present file)
    (hsize : headerSize ≤ recordSize) (hreport : report.toNat < b.reports) (s : State b) :
    ReadsBack report s (some file) present ↔ Consecutive (present.map Sample.sequence) := by
  have hcap := b.storeCapacity_range.2
  have hle := h.length_le
  constructor
  · intro hback
    obtain ⟨matched, hwalk⟩ := hback.walk
    rw [h.walk_eq hsize hreport] at hwalk
    have hseen := congrArg Prod.snd (Except.ok.inj hwalk)
    rw [visitAll_noteAll] at hseen
    exact consecutive_of_visited hseen
  · intro hconsecutive
    obtain ⟨hvisited, hends⟩ := h.visited_eq hconsecutive
    have hlength : (UInt16.ofNat present.length).toNat = present.length := by
      rw [UInt16.toNat_ofNat', Nat.mod_eq_of_lt (by omega)]
    have hsome : ∀ {x}, x ∈ present → present ≠ [] ∧ UInt16.ofNat present.length ≠ 0 := by
      intro x hx
      refine ⟨List.ne_nil_of_mem hx, fun h0 => ?_⟩
      have hpos := List.length_pos_of_mem hx
      have hzero := congrArg UInt16.toNat h0
      rw [hlength] at hzero
      exact hpos.ne' hzero
    have hget : ∀ i x, present[i]? = some x →
        x.sequence = (present.map Sample.sequence).headD 0 + UInt16.ofNat i :=
      fun i x hx => hconsecutive.get (by rw [List.getElem?_map, hx]; rfl)
    refine ⟨⟨(visitAll noteAll (present.map (Sample.filed b)) 0 []).1, ?_⟩,
      ⟨_, h.storeQuery_eq hsize hreport s, ?_, hlength, fun x hx => ?_, fun x hx => ?_⟩,
      fun index => ?_⟩
    · rw [h.walk_eq hsize hreport, hvisited]
      exact congrArg Except.ok (Prod.ext rfl (visitAll_noteAll _ _ _))
    · unfold storeCount
      rw [h.walk_eq hsize hreport, hvisited]
      refine congrArg Except.ok ((visitAll_none _ _).trans ?_)
      rw [List.length_map, UInt16.zero_add]
    · obtain ⟨hne, hcount⟩ := hsome (List.mem_of_head? hx)
      rw [List.head?_eq_getElem?] at hx
      refine (if_pos hcount).trans ((hends hne).2.trans ?_)
      rw [hget 0 x hx]
      exact (UInt16.add_zero _).symm
    · obtain ⟨hne, hcount⟩ := hsome (List.mem_of_getLast? hx)
      rw [List.getLast?_eq_getElem?] at hx
      exact (if_pos hcount).trans ((hends hne).1.trans (hget _ x hx).symm)
    · have htake := visitAll_takeOne (present.map (Sample.filed b)) index 0
        (by rw [List.length_map]; omega) (Nat.zero_le _)
      rw [Nat.sub_zero, List.getElem?_map] at htake
      unfold storeRead
      rw [h.walk_eq hsize hreport, hvisited]
      rcases hvisit : visitAll (takeOne index) (present.map (Sample.filed b)) 0 none with
        ⟨matched, r⟩
      rw [show UInt16.ofNat 0 = 0 from rfl, hvisit] at htake
      cases hx : present[index.toNat]? with
      | none =>
        rw [hx] at htake
        obtain rfl : r = none := htake
        rfl
      | some x =>
        rw [hx] at htake
        obtain rfl : r = some (x.filed b) := htake
        rfl

end KfswServices.Hk
