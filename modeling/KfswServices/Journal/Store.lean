/-
# The journal file

`src/journal/journal_store.c`.  The file is a header and a ring of record slots: the
record with sequence `s` has slot `(s - 1) % capacity`.  Opening scans the slots,
appending writes one, and reading picks a record by age.

The file system is outside the repository.  An operation is given the answers of the
calls it makes (`FsEnv`).  A write that reports an error, or whose sync or close does,
leaves the slot as it was, or as it should be, or torn: in a state that is no record
(`Left`).  What a reset can leave is the file after each call, a write passing through
each of its prefixes (`through`).

`Store.Matches` says that the fields in memory describe the file; opening establishes
it and an append that succeeds keeps it.
-/

import KfswServices.Journal.Record

namespace KfswServices.Journal

open Library

/-- `CONFIG_KFSW_JOURNAL_CAPACITY`, `CONFIG_KFSW_JOURNAL_QUEUE_DEPTH` and
`CONFIG_KFSW_JOURNAL_MIN_SEVERITY`, in their Kconfig ranges. -/
structure Config where
  capacity : ℕ
  queueDepth : ℕ
  minSeverity : UInt8
  capacity_ge : 8 ≤ capacity
  capacity_le : capacity ≤ 256
  depth_ge : 4 ≤ queueDepth
  depth_le : queueDepth ≤ 64
  severity_ge : 1 ≤ minSeverity
  severity_le : minSeverity ≤ 3

/-- The slot of a sequence. -/
def Config.slotOf (cfg : Config) (sequence : ℕ) : ℕ := (sequence - 1) % cfg.capacity

/-- Where a slot stands in the file. -/
def slotOffset (slot : ℕ) : ℕ := headerSize + slot * recordSize

/-- The size of a full journal. -/
def Config.fileSize (cfg : Config) : ℕ := headerSize + cfg.capacity * recordSize

/-- What is at `KFSW_JOURNAL_PATH`. -/
inductive Entry
  | absent
  | directory
  | file (bytes : List UInt8)
  deriving DecidableEq

/-- The bytes of the file. -/
def Entry.contents : Entry → List UInt8
  | .file bytes => bytes
  | _ => []

/-- The bytes of a slot, as far as the file has them. -/
def slotBytes (bytes : List UInt8) (slot : ℕ) : List UInt8 :=
  region bytes (slotOffset slot) recordSize

/-- The record in a slot: whole, decodable, and in the slot of its sequence. -/
def recordAt (cfg : Config) (bytes : List UInt8) (slot : ℕ) : Option Record :=
  if (slotBytes bytes slot).length ≠ recordSize then none
  else (decode (slotBytes bytes slot)).filter fun r => cfg.slotOf r.sequence = slot

/-- The file with a slot written. -/
def writeSlot (bytes : List UInt8) (slot : ℕ) (data : List UInt8) : List UInt8 :=
  splice 0 bytes (slotOffset slot) data

/-- **What a write that failed leaves**: the file as it was, the slot written, or the slot
torn, with the header and the other slots as they were. -/
inductive Left (cfg : Config) (bytes : List UInt8) (slot : ℕ) (data : List UInt8) :
    List UInt8 → Prop
  | unchanged : Left cfg bytes slot data bytes
  | written : Left cfg bytes slot data (writeSlot bytes slot data)
  | torn (left : List UInt8) (header : left.take headerSize = bytes.take headerSize)
      (others : ∀ i, i ≠ slot → slotBytes left i = slotBytes bytes i)
      (lower : bytes.length ≤ left.length)
      (upper : left.length ≤ (writeSlot bytes slot data).length)
      (damaged : recordAt cfg left slot = none) : Left cfg bytes slot data left

/-- The answers of the file system to the calls of one operation, and what a failed write
leaves.  A lookup that fails says something other than that there is no file. -/
structure FsEnv (cfg : Config) where
  /-- `kfsw_storage_is_ready`. -/
  ready : Bool
  stat : Option Errno
  openFile : Option Errno
  seek : Option Errno
  /-- The `n`-th read: the header, then the slots. -/
  read : ℕ → Option Errno
  write : Option Errno
  sync : Option Errno
  close : Option Errno
  unlink : Option Errno
  /-- What a creation that failed leaves when the unlink fails too. -/
  leftHeader : List UInt8
  leftSlot : List UInt8 → ℕ → List UInt8 → List UInt8
  stat_ne : stat ≠ some .ENOENT
  leftHeader_le : leftHeader.length ≤ headerSize
  leftSlot_left : ∀ bytes slot data, Left cfg bytes slot data (leftSlot bytes slot data)

/-- Working storage: every call succeeds. -/
def FsEnv.working (cfg : Config) : FsEnv cfg where
  ready := true
  stat := none
  openFile := none
  seek := none
  read _ := none
  write := none
  sync := none
  close := none
  unlink := none
  leftHeader := []
  leftSlot bytes _ _ := bytes
  stat_ne := nofun
  leftHeader_le := Nat.zero_le _
  leftSlot_left _ _ _ := .unchanged

/-- `struct kfsw_journal_store`. -/
structure Store where
  sequences : List ℕ
  nextSequence : ℕ
  highestBoot : ℕ
  held : ℕ
  corrupt : ℕ
  ready : Bool
  deriving DecidableEq

/-- The store `kfsw_journal_store_open` starts from. -/
def Store.zero (cfg : Config) : Store := ⟨List.replicate cfg.capacity 0, 1, 0, 0, 0, false⟩

/-- The store after a reset: static memory. -/
def Store.blank (cfg : Config) : Store := { Store.zero cfg with nextSequence := 0 }

/-- A record found in a slot. -/
def Store.note (s : Store) (slot : ℕ) (r : Record) : Store :=
  { s with
    sequences := s.sequences.set slot r.sequence
    nextSequence := max s.nextSequence (r.sequence + 1)
    highestBoot := max s.highestBoot r.boot
    held := s.held + 1 }

/-- A slot that holds something else. -/
def Store.spoiled (s : Store) : Store := { s with corrupt := s.corrupt + 1 }

/-- The loop of `kfsw_journal_store_open` over `n` slots from slot `i` on. -/
def scanFrom (cfg : Config) (env : FsEnv cfg) (bytes : List UInt8) :
    ℕ → ℕ → Store → Except Errno Store
  | 0, _, s => .ok s
  | n + 1, i, s =>
    match env.read (i + 1) with
    | some e => .error e
    | none =>
      if (slotBytes bytes i).length = 0 then .ok s
      else if (slotBytes bytes i).length ≠ recordSize then .ok s.spoiled
      else
        match decode (slotBytes bytes i) with
        | none => scanFrom cfg env bytes n (i + 1) s.spoiled
        | some r =>
          if cfg.slotOf r.sequence ≠ i then scanFrom cfg env bytes n (i + 1) s.spoiled
          else scanFrom cfg env bytes n (i + 1) (s.note i r)

/-- What an operation on the file leaves: what is at the path, the store, the return value,
and what was at the path on the way. -/
structure Opened where
  entry : Entry
  store : Store
  result : Option Errno
  through : List Entry

/-- The prefixes of a write, from none to all of it. -/
def prefixes (data : List UInt8) : List (List UInt8) :=
  (List.range (data.length + 1)).map data.take

/-- An open that changes nothing and fails. -/
def Opened.refuse (cfg : Config) (entry : Entry) (e : Errno) : Opened :=
  ⟨entry, Store.zero cfg, some e, []⟩

/-- The creation of the file. -/
def createFile (cfg : Config) (env : FsEnv cfg) : Opened :=
  match env.openFile with
  | some e => .refuse cfg .absent e
  | none =>
    let through := (prefixes (header cfg.capacity)).map Entry.file
    match env.write.or (env.sync.or env.close) with
    | some e =>
      ⟨if env.unlink = none then .absent else .file env.leftHeader, Store.zero cfg, some e, through⟩
    | none =>
      ⟨.file (header cfg.capacity), { Store.zero cfg with ready := true }, none, through⟩

/-- The scan of a file. -/
def scanFile (cfg : Config) (env : FsEnv cfg) (bytes : List UInt8) : Opened :=
  match env.openFile with
  | some e => .refuse cfg (.file bytes) e
  | none =>
    match env.read 0 with
    | some e => .refuse cfg (.file bytes) e
    | none =>
      if ¬ HeaderValid cfg.capacity (bytes.take headerSize) then .refuse cfg (.file bytes) .EBADMSG
      else
        match scanFrom cfg env bytes cfg.capacity 0 (Store.zero cfg) with
        | .error e => .refuse cfg (.file bytes) e
        | .ok s => ⟨.file bytes, { s with ready := env.close = none }, env.close, []⟩

/-- `kfsw_journal_store_open`. -/
def storeOpen (cfg : Config) (env : FsEnv cfg) (entry : Entry) : Opened :=
  if !env.ready then .refuse cfg entry .ENODEV
  else
    match env.stat with
    | some e => .refuse cfg entry e
    | none =>
      match entry with
      | .absent => createFile cfg env
      | .directory => .refuse cfg entry .EFBIG
      | .file bytes =>
        if bytes.length > cfg.fileSize then .refuse cfg entry .EFBIG else scanFile cfg env bytes

/-- What an append leaves: what is at the path, the store, the record with its sequence, the
return value, and what was at the path on the way. -/
structure Appended where
  entry : Entry
  store : Store
  record : Record
  result : Option Errno
  through : List Entry

/-- The sequence an append uses: the one the record has, or the next one. -/
def Store.number (s : Store) (r : Record) : Record :=
  if r.sequence = 0 then { r with sequence := s.nextSequence } else r

/-- The end of an append that succeeded. -/
def Store.append (s : Store) (slot : ℕ) (r : Record) : Store :=
  { s with
    sequences := s.sequences.set slot r.sequence
    nextSequence := max s.nextSequence (r.sequence + 1)
    highestBoot := max s.highestBoot r.boot
    held := if s.sequences.getD slot 0 = 0 then s.held + 1 else s.held }

/-- `fs_open` without the flag that creates. -/
def openExisting (entry : Entry) : Option Errno → Except Errno (List UInt8)
  | some e => .error e
  | none =>
    match entry with
    | .absent => .error .ENOENT
    | .directory => .error .EISDIR
    | .file bytes => .ok bytes

/-- The part of `kfsw_journal_store_append` that writes the slot. -/
def writeRecord (cfg : Config) (env : FsEnv cfg) (entry : Entry) (s : Store) (r : Record) :
    Appended :=
  let slot := cfg.slotOf r.sequence
  match openExisting entry env.openFile with
  | .error e => ⟨entry, { s with ready := false }, r, some e, []⟩
  | .ok bytes =>
    match env.seek with
    | some e => ⟨entry, { s with ready := false }, r, some e, []⟩
    | none =>
      let through := (prefixes (encode r)).map fun p => Entry.file (writeSlot bytes slot p)
      match env.write.or (env.sync.or env.close) with
      | some e =>
        ⟨.file (env.leftSlot bytes slot (encode r)), { s with ready := false }, r, some e, through⟩
      | none => ⟨.file (writeSlot bytes slot (encode r)), s.append slot r, r, none, through⟩

/-- `kfsw_journal_store_append`. -/
def storeAppend (cfg : Config) (env : FsEnv cfg) (entry : Entry) (s : Store) (r : Record) :
    Appended :=
  if !s.ready || !env.ready then ⟨entry, s, r, some .ENODEV, []⟩
  else if r.boot = 0 ∨ r.boot = uint64Max ∨ r.event.payload.length > Event.maxPayloadSize ∨
      r.event.severity > Event.Severity.CRITICAL.toByte then ⟨entry, s, r, some .EINVAL, []⟩
  else
    let r := s.number r
    if r.sequence = uint64Max ∨ r.sequence > s.nextSequence then
      ⟨entry, s, r, some .EOVERFLOW, []⟩
    else if s.sequences.getD (cfg.slotOf r.sequence) 0 > r.sequence then
      ⟨entry, s, r, some .ESTALE, []⟩
    else writeRecord cfg env entry s r

/-- The inner loop of `kfsw_journal_store_get`, from slot `i` on: the largest sequence below
the ceiling, and its slot. -/
def newestBelow (ceiling : ℕ) : ℕ → List ℕ → ℕ × ℕ → ℕ × ℕ
  | _, [], best => best
  | i, s :: rest, best =>
    newestBelow ceiling (i + 1) rest (if s > best.1 ∧ s < ceiling then (s, i) else best)

/-- The outer loop: the sequence of rank `age`, and its slot. -/
def ranked (sequences : List ℕ) : ℕ → ℕ × ℕ
  | 0 => newestBelow uint64Max 0 sequences (0, 0)
  | age + 1 =>
    let (ceiling, slot) := ranked sequences age
    newestBelow ceiling 0 sequences (0, slot)

/-- `kfsw_journal_store_get`. -/
def storeGet (cfg : Config) (env : FsEnv cfg) (entry : Entry) (s : Store) (age : ℕ) :
    Except Errno Record :=
  if !s.ready then .error .ENODEV
  else if s.held ≤ age then .error .ENOENT
  else
    let (sequence, slot) := ranked s.sequences age
    match openExisting entry env.openFile with
    | .error e => .error e
    | .ok bytes =>
      match env.seek with
      | some e => .error e
      | none =>
        match env.read 0 with
        | some e => .error e
        | none =>
          if (slotBytes bytes slot).length ≠ recordSize then .error .EBADMSG
          else
            match decode (slotBytes bytes slot) with
            | none => .error .EBADMSG
            | some r =>
              if r.sequence ≠ sequence then .error .EBADMSG
              else
                match env.close with
                | some e => .error e
                | none => .ok r

/-! ### Slots -/

theorem slotOf_lt (cfg : Config) (sequence : ℕ) : cfg.slotOf sequence < cfg.capacity :=
  Nat.mod_lt _ (by have := cfg.capacity_ge; omega)

/-- Neighbouring sequences have different slots: there are at least two. -/
theorem slotOf_pred_ne (cfg : Config) {sequence : ℕ} (h : 1 < sequence) :
    cfg.slotOf (sequence - 1) ≠ cfg.slotOf sequence := by
  intro heq
  have hc := cfg.capacity_ge
  have hmod : (sequence - 1 - 1) % cfg.capacity = (sequence - 1) % cfg.capacity := heq
  have hzero := Nat.sub_mod_eq_zero_of_mod_eq hmod.symm
  rw [show sequence - 1 - (sequence - 1 - 1) = 1 by omega, Nat.mod_eq_of_lt (by omega)] at hzero
  omega

variable {cfg : Config} {bytes : List UInt8} {slot : ℕ} {r : Record}

theorem recordAt_eq_some :
    recordAt cfg bytes slot = some r ↔ (slotBytes bytes slot).length = recordSize ∧
      decode (slotBytes bytes slot) = some r ∧ cfg.slotOf r.sequence = slot := by
  unfold recordAt
  by_cases h : (slotBytes bytes slot).length = recordSize
  · rw [if_neg (not_not.2 h), Option.filter_eq_some_iff]
    simp [h]
  · simp [h]

/-- A record in a slot: its numbers are in range, its slot is its own, and the file reaches
behind it. -/
theorem of_recordAt (h : recordAt cfg bytes slot = some r) :
    r.Numbered ∧ cfg.slotOf r.sequence = slot ∧ slotOffset slot + recordSize ≤ bytes.length := by
  obtain ⟨hlen, hdec, hslot⟩ := recordAt_eq_some.1 h
  refine ⟨numbered_of_decode hdec, hslot, ?_⟩
  rw [slotBytes, length_region] at hlen
  simp only [recordSize] at *
  omega

theorem slot_lt_of_recordAt {i : ℕ} {q : Record} (h : recordAt cfg bytes i = some q) :
    i < cfg.capacity := by
  rw [← (of_recordAt h).2.1]
  exact slotOf_lt cfg _

theorem recordAt_congr {left : List UInt8} (h : slotBytes left slot = slotBytes bytes slot) :
    recordAt cfg left slot = recordAt cfg bytes slot := by
  unfold recordAt
  rw [h]

/-- The slot that was written holds the record. -/
theorem recordAt_writeSlot_self (bytes : List UInt8) (hvalid : r.event.Valid) (hnum : r.Numbered) :
    recordAt cfg (writeSlot bytes (cfg.slotOf r.sequence) (encode r)) (cfg.slotOf r.sequence) =
      some r := by
  have hlen : (encode r).length = recordSize := length_encode hvalid.2.2.2
  have hslot : slotBytes (writeSlot bytes (cfg.slotOf r.sequence) (encode r))
      (cfg.slotOf r.sequence) = encode r := by
    unfold slotBytes writeSlot
    rw [← hlen]
    exact region_splice_self 0 bytes _ (encode r)
  rw [recordAt_eq_some, hslot]
  exact ⟨hlen, decode_encode hvalid hnum, rfl⟩

/-- Another slot is as it was, when it lies in the file or the file reaches up to the slot that
is written. -/
theorem slotBytes_writeSlot_ne {i : ℕ} {data : List UInt8}
    (hin : slotOffset slot ≤ bytes.length ∨ slotOffset i + recordSize ≤ bytes.length)
    (hdata : data.length ≤ recordSize) (hne : i ≠ slot) :
    slotBytes (writeSlot bytes slot data) i = slotBytes bytes i := by
  unfold slotBytes writeSlot
  rcases Nat.lt_or_gt_of_ne hne with h | h
  · have hbefore : slotOffset i + recordSize ≤ slotOffset slot := by
      have : (i + 1) * recordSize ≤ slot * recordSize := Nat.mul_le_mul_right _ h
      unfold slotOffset
      simp only [recordSize] at *
      omega
    exact region_splice_before 0 data (hin.elim hbefore.trans id) hbefore
  · refine region_splice_behind 0 bytes ?_
    have : (slot + 1) * recordSize ≤ i * recordSize := Nat.mul_le_mul_right _ h
    unfold slotOffset
    simp only [recordSize] at *
    omega

/-- The records in other slots stay. -/
theorem recordAt_writeSlot_ne {i : ℕ} {data : List UInt8} (h : recordAt cfg bytes i = some r)
    (hdata : data.length ≤ recordSize) (hne : i ≠ slot) :
    recordAt cfg (writeSlot bytes slot data) i = some r := by
  rw [recordAt_congr (slotBytes_writeSlot_ne (.inr (of_recordAt h).2.2) hdata hne), h]

theorem take_writeSlot (hlen : headerSize ≤ bytes.length) (slot : ℕ) (data : List UInt8) :
    (writeSlot bytes slot data).take headerSize = bytes.take headerSize := by
  have hle : headerSize ≤ slotOffset slot := Nat.le_add_right _ _
  have hfront : (bytes.take (slotOffset slot)).length = min (slotOffset slot) bytes.length :=
    List.length_take
  unfold writeSlot splice
  rw [List.take_append_of_le_length (by omega), List.take_take, Nat.min_eq_left hle]

/-! ### The store in memory -/

/-- The sequence in a slot, 0 for none. -/
def sequenceAt (cfg : Config) (bytes : List UInt8) (slot : ℕ) : ℕ :=
  ((recordAt cfg bytes slot).map Record.sequence).getD 0

theorem sequenceAt_eq_zero : sequenceAt cfg bytes slot = 0 ↔ recordAt cfg bytes slot = none := by
  unfold sequenceAt
  cases h : recordAt cfg bytes slot with
  | none => simp
  | some r => simpa using (of_recordAt h).1.1

/-- The fields of the store describe the first `n` slots of the file. -/
structure Store.MatchesTo (cfg : Config) (bytes : List UInt8) (n : ℕ) (s : Store) : Prop where
  sequences : s.sequences = (List.range cfg.capacity).map fun i =>
    if i < n then sequenceAt cfg bytes i else 0
  next_gt : ∀ i < n, ∀ r, recordAt cfg bytes i = some r → r.sequence < s.nextSequence
  next_reached : s.nextSequence = 1 ∨
    ∃ i < n, ∃ r, recordAt cfg bytes i = some r ∧ s.nextSequence = r.sequence + 1
  boot_ge : ∀ i < n, ∀ r, recordAt cfg bytes i = some r → r.boot ≤ s.highestBoot
  boot_lt : s.highestBoot < uint64Max
  held : s.held = s.sequences.countP (· ≠ 0)

/-- **The store describes the file.** -/
def Store.Matches (cfg : Config) (bytes : List UInt8) (s : Store) : Prop :=
  s.MatchesTo cfg bytes cfg.capacity

theorem matchesTo_zero (cfg : Config) (bytes : List UInt8) :
    (Store.zero cfg).MatchesTo cfg bytes 0 := by
  refine ⟨?_, by simp, .inl rfl, by simp, by simp [Store.zero], ?_⟩
  · simp [Store.zero]
  · simp [Store.zero, List.countP_replicate]

variable {s : Store}

/-- A slot without a record adds nothing. -/
theorem Store.MatchesTo.skip {n : ℕ} (h : s.MatchesTo cfg bytes n)
    (hnone : recordAt cfg bytes n = none) : s.MatchesTo cfg bytes (n + 1) := by
  have hzero := sequenceAt_eq_zero.2 hnone
  refine ⟨?_, ?_, ?_, ?_, h.boot_lt, h.held⟩
  · rw [h.sequences]
    refine List.map_congr_left fun i _ => ?_
    rcases Nat.lt_trichotomy i n with hi | rfl | hi
    · simp [hi, Nat.lt_succ_of_lt hi]
    · simp [hzero]
    · simp [show ¬ i < n by omega, show ¬ i < n + 1 by omega]
  · intro i hi r hr
    rcases Nat.lt_succ_iff_lt_or_eq.1 hi with hi | rfl
    · exact h.next_gt i hi r hr
    · rw [hnone] at hr
      cases hr
  · rcases h.next_reached with h1 | ⟨i, hi, r, hr, hn⟩
    · exact .inl h1
    · exact .inr ⟨i, Nat.lt_succ_of_lt hi, r, hr, hn⟩
  · intro i hi r hr
    rcases Nat.lt_succ_iff_lt_or_eq.1 hi with hi | rfl
    · exact h.boot_ge i hi r hr
    · rw [hnone] at hr
      cases hr

/-- A slot with a record is noted. -/
theorem Store.MatchesTo.note {n : ℕ} (h : s.MatchesTo cfg bytes n) (hn : n < cfg.capacity)
    (hr : recordAt cfg bytes n = some r) : (s.note n r).MatchesTo cfg bytes (n + 1) := by
  have hat : sequenceAt cfg bytes n = r.sequence := by simp [sequenceAt, hr]
  obtain ⟨⟨hs0, -, -, hb⟩, -, -⟩ := of_recordAt hr
  have hlen : n < s.sequences.length := by rw [h.sequences]; simpa using hn
  have hold : s.sequences[n] = 0 := by simp [h.sequences]
  refine ⟨?_, ?_, ?_, ?_, max_lt h.boot_lt hb, ?_⟩
  · show s.sequences.set n r.sequence = _
    rw [h.sequences]
    refine List.ext_getElem (by simp) fun i hi hi' => ?_
    simp only [List.getElem_set, List.getElem_map, List.getElem_range]
    rcases Nat.lt_trichotomy i n with hlt | rfl | hlt
    · simp [hlt, Nat.lt_succ_of_lt hlt, hlt.ne']
    · simp [hat]
    · simp [show ¬ i < n by omega, show ¬ i < n + 1 by omega, hlt.ne]
  · intro i hi q hq
    show q.sequence < max s.nextSequence (r.sequence + 1)
    rcases Nat.lt_succ_iff_lt_or_eq.1 hi with hi | rfl
    · exact lt_max_of_lt_left (h.next_gt i hi q hq)
    · rw [hr] at hq
      obtain rfl := Option.some.inj hq
      exact lt_max_of_lt_right (Nat.lt_succ_self _)
  · rcases le_total s.nextSequence (r.sequence + 1) with hle | hle
    · exact .inr ⟨n, Nat.lt_succ_self n, r, hr, max_eq_right hle⟩
    · have hmax : (s.note n r).nextSequence = s.nextSequence := max_eq_left hle
      rw [hmax]
      rcases h.next_reached with h1 | ⟨i, hi, q, hq, hnext⟩
      · exact .inl h1
      · exact .inr ⟨i, Nat.lt_succ_of_lt hi, q, hq, hnext⟩
  · intro i hi q hq
    show q.boot ≤ max s.highestBoot r.boot
    rcases Nat.lt_succ_iff_lt_or_eq.1 hi with hi | rfl
    · exact le_max_of_le_left (h.boot_ge i hi q hq)
    · rw [hr] at hq
      obtain rfl := Option.some.inj hq
      exact le_max_right _ _
  · show s.held + 1 = (s.sequences.set n r.sequence).countP (· ≠ 0)
    rw [List.countP_set hlen, h.held, hold]
    simp [hs0]

/-- Behind a slot that is not whole the file has nothing. -/
theorem recordAt_of_short {i j : ℕ} (h : (slotBytes bytes i).length ≠ recordSize) (hij : i ≤ j) :
    recordAt cfg bytes j = none := by
  have hle : slotOffset i ≤ slotOffset j :=
    Nat.add_le_add_left (Nat.mul_le_mul_right _ hij) _
  have hshort : (slotBytes bytes j).length ≠ recordSize := by
    rw [slotBytes, length_region] at *
    omega
  unfold recordAt
  rw [if_pos hshort]

theorem Store.MatchesTo.spoiled {n : ℕ} (h : s.MatchesTo cfg bytes n) :
    s.spoiled.MatchesTo cfg bytes n :=
  ⟨h.sequences, h.next_gt, h.next_reached, h.boot_ge, h.boot_lt, h.held⟩

/-- Slots without a record, up to the last. -/
theorem Store.MatchesTo.finish {n : ℕ} (h : s.MatchesTo cfg bytes n) (k : ℕ)
    (hnone : ∀ j, n ≤ j → recordAt cfg bytes j = none) : s.MatchesTo cfg bytes (n + k) := by
  induction k with
  | zero => exact h
  | succ k ih => exact ih.skip (hnone _ (Nat.le_add_right _ _))

/-- **The scan finds the records of the file.** -/
theorem scanFrom_matches {env : FsEnv cfg} {n i : ℕ} {t : Store} (hn : i + n = cfg.capacity)
    (hs : s.MatchesTo cfg bytes i) (h : scanFrom cfg env bytes n i s = .ok t) :
    t.Matches cfg bytes := by
  induction n generalizing i s with
  | zero =>
    obtain rfl := Except.ok.inj h
    obtain rfl : i = cfg.capacity := by omega
    exact hs
  | succ n ih =>
    rw [scanFrom] at h
    cases hread : env.read (i + 1) with
    | some e => simp [hread] at h
    | none =>
      simp only [hread] at h
      by_cases hwhole : (slotBytes bytes i).length = recordSize
      · rw [if_neg (by rw [hwhole]; decide), if_neg (not_not.2 hwhole)] at h
        cases hdec : decode (slotBytes bytes i) with
        | none =>
          simp only [hdec] at h
          have hnone : recordAt cfg bytes i = none := by simp [recordAt, hdec]
          exact ih (by omega) (hs.skip hnone).spoiled h
        | some r =>
          simp only [hdec] at h
          by_cases hslot : cfg.slotOf r.sequence = i
          · rw [if_neg (not_not.2 hslot)] at h
            have hr : recordAt cfg bytes i = some r := recordAt_eq_some.2 ⟨hwhole, hdec, hslot⟩
            exact ih (by omega) (hs.note (by omega) hr) h
          · rw [if_pos hslot] at h
            have hnone : recordAt cfg bytes i = none := by simp [recordAt, hdec, hslot]
            exact ih (by omega) (hs.skip hnone).spoiled h
      · -- the file ends here: what is left of it is no record
        have hfinish := hs.finish (n + 1) fun j => recordAt_of_short hwhole
        rw [hn] at hfinish
        by_cases hempty : (slotBytes bytes i).length = 0
        · rw [if_pos hempty] at h
          obtain rfl := Except.ok.inj h
          exact hfinish
        · rw [if_neg hempty, if_pos hwhole] at h
          obtain rfl := Except.ok.inj h
          exact hfinish.spoiled

theorem Store.Matches.ready (h : s.Matches cfg bytes) (b : Bool) :
    ({ s with ready := b } : Store).Matches cfg bytes :=
  ⟨h.sequences, h.next_gt, h.next_reached, h.boot_ge, h.boot_lt, h.held⟩

/-- The sequence the store has for a slot is the one in the file. -/
theorem Store.Matches.getD (h : s.Matches cfg bytes) {i : ℕ} (hi : i < cfg.capacity) :
    s.sequences.getD i 0 = sequenceAt cfg bytes i := by
  simp [h.sequences, hi]

/-- The numbering does not leave 64 bits. -/
theorem Store.Matches.next_le (h : s.Matches cfg bytes) : s.nextSequence ≤ uint64Max := by
  rcases h.next_reached with h1 | ⟨i, -, q, hq, hnext⟩
  · rw [h1]
    decide
  · have := (of_recordAt hq).1.2.1
    omega

/-- A file that `kfsw_journal_store_open` may scan: not too large, with a valid header. -/
def Accepted (cfg : Config) (bytes : List UInt8) : Prop :=
  bytes.length ≤ cfg.fileSize ∧ HeaderValid cfg.capacity (bytes.take headerSize)

instance (cfg : Config) (bytes : List UInt8) : Decidable (Accepted cfg bytes) :=
  inferInstanceAs (Decidable (_ ∧ _))

theorem Accepted.headerSize_le (h : Accepted cfg bytes) : headerSize ≤ bytes.length := by
  have hlen := h.2.1
  rw [List.length_take] at hlen
  omega

theorem accepted_header (cfg : Config) : Accepted cfg (header cfg.capacity) := by
  have hlen := length_header cfg.capacity
  refine ⟨hlen.trans_le (Nat.le_add_right _ _), ?_⟩
  rw [← hlen, List.take_length]
  exact (headerValid_iff _ _).2 rfl

/-- A file with a header only holds no record. -/
theorem recordAt_of_le_header (h : bytes.length ≤ headerSize) (i : ℕ) :
    recordAt cfg bytes i = none := by
  by_contra hne
  obtain ⟨r, hr⟩ := Option.ne_none_iff_exists'.1 hne
  have hle := (of_recordAt hr).2.2
  have : headerSize ≤ slotOffset i := Nat.le_add_right _ _
  simp only [recordSize] at hle
  omega

theorem matches_of_le_header (h : bytes.length ≤ headerSize) :
    (Store.zero cfg).Matches cfg bytes := by
  have hfinish := (matchesTo_zero cfg bytes).finish cfg.capacity fun j _ => recordAt_of_le_header h j
  rwa [Nat.zero_add] at hfinish

/-- **What an open does.**  It succeeds, on a file it accepts or has just created, with a store
that describes it; or it fails, with a store that is not ready, and changes nothing unless there
was no file. -/
theorem storeOpen_cases (cfg : Config) (env : FsEnv cfg) (entry : Entry) :
    (∃ bytes, (storeOpen cfg env entry).result = none ∧
      (storeOpen cfg env entry).entry = .file bytes ∧ Accepted cfg bytes ∧
      (storeOpen cfg env entry).store.Matches cfg bytes ∧
      (storeOpen cfg env entry).store.ready = true ∧
      (entry = .file bytes ∨ entry = .absent ∧ bytes = header cfg.capacity)) ∨
    (∃ e, (storeOpen cfg env entry).result = some e ∧
      (storeOpen cfg env entry).store.ready = false ∧
      ((storeOpen cfg env entry).entry = entry ∨ entry = .absent ∧
        ∃ left, (storeOpen cfg env entry).entry = .file left ∧ left.length ≤ headerSize)) := by
  unfold storeOpen
  cases env.ready with
  | false => exact .inr ⟨_, rfl, rfl, .inl rfl⟩
  | true =>
    cases env.stat with
    | some e => exact .inr ⟨_, rfl, rfl, .inl rfl⟩
    | none =>
      cases entry with
      | directory => exact .inr ⟨_, rfl, rfl, .inl rfl⟩
      | absent =>
        simp only [Bool.not_true, Bool.false_eq_true, if_false]
        unfold createFile
        cases env.openFile with
        | some e => exact .inr ⟨_, rfl, rfl, .inl rfl⟩
        | none =>
          simp only
          cases env.write.or (env.sync.or env.close) with
          | some e =>
            refine .inr ⟨e, rfl, rfl, ?_⟩
            by_cases hu : env.unlink = none
            · exact .inl (if_pos hu)
            · exact .inr ⟨trivial, env.leftHeader, if_neg hu, env.leftHeader_le⟩
          | none =>
            exact .inl ⟨_, rfl, rfl, accepted_header cfg,
              (matches_of_le_header (length_header _).le).ready true, rfl, .inr ⟨trivial, rfl⟩⟩
      | file bytes =>
        simp only [Bool.not_true, Bool.false_eq_true, if_false]
        by_cases hbig : bytes.length > cfg.fileSize
        · rw [if_pos hbig]
          exact .inr ⟨_, rfl, rfl, .inl rfl⟩
        · rw [if_neg hbig]
          unfold scanFile
          cases env.openFile with
          | some e => exact .inr ⟨_, rfl, rfl, .inl rfl⟩
          | none =>
            cases env.read 0 with
            | some e => exact .inr ⟨_, rfl, rfl, .inl rfl⟩
            | none =>
              by_cases hh : HeaderValid cfg.capacity (bytes.take headerSize)
              · simp only [if_neg (not_not.2 hh)]
                cases hscan : scanFrom cfg env bytes cfg.capacity 0 (Store.zero cfg) with
                | error e => exact .inr ⟨_, rfl, rfl, .inl rfl⟩
                | ok s =>
                  have hm := scanFrom_matches (Nat.zero_add _) (matchesTo_zero cfg bytes) hscan
                  cases hclose : env.close with
                  | some e => exact .inr ⟨e, rfl, by simp, .inl rfl⟩
                  | none =>
                    exact .inl ⟨bytes, rfl, rfl, ⟨not_lt.1 hbig, hh⟩, hm.ready _, by simp,
                      .inl rfl⟩
              · simp only [if_pos hh]
                exact .inr ⟨_, rfl, rfl, .inl rfl⟩

/-- A store that noted an append describes the file that was left, if its slot holds the record and
the others are as they were. -/
theorem Store.Matches.append_others {bytes' : List UInt8} (h : s.Matches cfg bytes)
    (hnum : r.Numbered) (hstale : s.sequences.getD slot 0 ≤ r.sequence)
    (hself : recordAt cfg bytes' slot = some r)
    (hother : ∀ i, i ≠ slot → recordAt cfg bytes' i = recordAt cfg bytes i) :
    (s.append slot r).Matches cfg bytes' := by
  have hsl : slot < cfg.capacity := slot_lt_of_recordAt hself
  have hlen : slot < s.sequences.length := by rw [h.sequences]; simpa using hsl
  refine ⟨?_, ?_, ?_, ?_, max_lt h.boot_lt hnum.2.2.2, ?_⟩
  · show s.sequences.set slot r.sequence = _
    rw [h.sequences]
    refine List.ext_getElem (by simp) fun i hi hi' => ?_
    have hic : i < cfg.capacity := by simpa using hi'
    simp only [List.getElem_set, List.getElem_map, List.getElem_range, hic, if_true]
    by_cases his : slot = i
    · subst his
      simp [sequenceAt, hself]
    · simp [his, sequenceAt, hother i (Ne.symm his)]
  · intro i hi q hq
    show q.sequence < max s.nextSequence (r.sequence + 1)
    by_cases his : i = slot
    · rw [his, hself] at hq
      obtain rfl := Option.some.inj hq
      exact lt_max_of_lt_right (Nat.lt_succ_self _)
    · rw [hother i his] at hq
      exact lt_max_of_lt_left (h.next_gt i hi q hq)
  · rcases le_total s.nextSequence (r.sequence + 1) with hle | hle
    · exact .inr ⟨slot, hsl, r, hself, max_eq_right hle⟩
    · have hmax : (s.append slot r).nextSequence = s.nextSequence := max_eq_left hle
      rw [hmax]
      rcases h.next_reached with h1 | ⟨i, hi, q, hq, hnext⟩
      · exact .inl h1
      · by_cases his : i = slot
        · -- the highest record was in this slot, and this one is not below it
          have hseq : s.sequences.getD slot 0 = q.sequence := by
            rw [h.getD hsl, sequenceAt, ← his, hq]
            rfl
          have heq : s.nextSequence = r.sequence + 1 := by omega
          exact .inr ⟨slot, hsl, r, hself, heq⟩
        · exact .inr ⟨i, hi, q, by rw [hother i his]; exact hq, hnext⟩
  · intro i hi q hq
    show q.boot ≤ max s.highestBoot r.boot
    by_cases his : i = slot
    · rw [his, hself] at hq
      obtain rfl := Option.some.inj hq
      exact le_max_right _ _
    · rw [hother i his] at hq
      exact le_max_of_le_left (h.boot_ge i hi q hq)
  · show (if s.sequences.getD slot 0 = 0 then s.held + 1 else s.held) =
      (s.sequences.set slot r.sequence).countP (· ≠ 0)
    have hget : s.sequences.getD slot 0 = s.sequences[slot] := by
      rw [List.getD_eq_getElem?_getD, List.getElem?_eq_getElem hlen, Option.getD_some]
    rw [List.countP_set hlen, hget, h.held]
    by_cases hz : s.sequences[slot] = 0
    · simp [hz, hnum.1]
    · have hpos : 0 < s.sequences.countP (· ≠ 0) :=
        List.countP_pos_iff.2 ⟨_, List.getElem_mem hlen, by simpa using hz⟩
      rw [if_neg hz, if_pos (by simpa using hz), if_pos (by simpa using hnum.1)]
      omega

/-- **An append that succeeds is described by the store afterwards.** -/
theorem Store.Matches.append (h : s.Matches cfg bytes) (hvalid : r.event.Valid)
    (hnum : r.Numbered) (hgap : slotOffset (cfg.slotOf r.sequence) ≤ bytes.length)
    (hstale : s.sequences.getD (cfg.slotOf r.sequence) 0 ≤ r.sequence) :
    (s.append (cfg.slotOf r.sequence) r).Matches cfg
      (writeSlot bytes (cfg.slotOf r.sequence) (encode r)) :=
  h.append_others hnum hstale (recordAt_writeSlot_self bytes hvalid hnum) fun _ hi =>
    recordAt_congr (slotBytes_writeSlot_ne (.inl hgap) (length_encode hvalid.2.2.2).le hi)

/-! ### What an append can do -/

theorem number_event (s : Store) (p : Record) :
    (s.number p).event = p.event ∧ (s.number p).boot = p.boot := by
  unfold Store.number
  split <;> exact ⟨rfl, rfl⟩

/-- **An append is refused, or it writes.**  A refusal changes the file and the store in
nothing; it may have numbered the record. -/
theorem storeAppend_cases (cfg : Config) (env : FsEnv cfg) (entry : Entry) (s : Store) (r : Record) :
    (∃ e r', (r' = r ∨ s.ready = true ∧ r' = s.number r) ∧
      storeAppend cfg env entry s r = ⟨entry, s, r', some e, []⟩) ∨
    (s.ready = true ∧ r.boot ≠ 0 ∧ r.boot ≠ uint64Max ∧
      (s.number r).sequence ≠ uint64Max ∧ (s.number r).sequence ≤ s.nextSequence ∧
      s.sequences.getD (cfg.slotOf (s.number r).sequence) 0 ≤ (s.number r).sequence ∧
      storeAppend cfg env entry s r = writeRecord cfg env entry s (s.number r)) := by
  unfold storeAppend
  by_cases hready : (!s.ready || !env.ready) = true
  · rw [if_pos hready]
    exact .inl ⟨_, r, .inl rfl, rfl⟩
  · rw [if_neg hready]
    have hs : s.ready = true := by
      rw [Bool.or_eq_true, not_or] at hready
      simpa using hready.1
    simp only
    split_ifs with hinvalid hover hstale
    · exact .inl ⟨_, r, .inl rfl, rfl⟩
    · exact .inl ⟨_, _, .inr ⟨hs, rfl⟩, rfl⟩
    · exact .inl ⟨_, _, .inr ⟨hs, rfl⟩, rfl⟩
    · rw [not_or, not_or] at hinvalid
      rw [not_or] at hover
      exact .inr ⟨hs, hinvalid.1, hinvalid.2.1, hover.1, not_lt.1 hover.2, not_lt.1 hstale, rfl⟩

/-- **What a write of a record does**: it does not get to the slot, it fails there, or it
succeeds. -/
theorem writeRecord_cases (cfg : Config) (env : FsEnv cfg) (entry : Entry) (s : Store) (r : Record) :
    (∃ e, writeRecord cfg env entry s r = ⟨entry, { s with ready := false }, r, some e, []⟩) ∨
    ∃ bytes, entry = .file bytes ∧
      ((∃ e left, Left cfg bytes (cfg.slotOf r.sequence) (encode r) left ∧
        writeRecord cfg env entry s r = ⟨.file left, { s with ready := false }, r, some e,
          (prefixes (encode r)).map fun p =>
            Entry.file (writeSlot bytes (cfg.slotOf r.sequence) p)⟩) ∨
      writeRecord cfg env entry s r =
        ⟨.file (writeSlot bytes (cfg.slotOf r.sequence) (encode r)),
          s.append (cfg.slotOf r.sequence) r, r, none,
          (prefixes (encode r)).map fun p =>
            Entry.file (writeSlot bytes (cfg.slotOf r.sequence) p)⟩) := by
  unfold writeRecord
  cases hopen : openExisting entry env.openFile with
  | error e => exact .inl ⟨e, rfl⟩
  | ok bytes =>
    cases env.seek with
    | some e => exact .inl ⟨e, rfl⟩
    | none =>
      have hentry : entry = .file bytes := by
        unfold openExisting at hopen
        split at hopen
        · cases hopen
        · split at hopen
          · cases hopen
          · cases hopen
          · rw [Except.ok.inj hopen]
      right
      refine ⟨bytes, hentry, ?_⟩
      simp only
      cases env.write.or (env.sync.or env.close) with
      | some e => exact .inl ⟨e, _, env.leftSlot_left _ _ _, rfl⟩
      | none => exact .inr rfl

/-- What an append on working storage leaves when it succeeds. -/
def Appended.wrote (cfg : Config) (bytes : List UInt8) (s : Store) (r : Record) : Appended :=
  ⟨.file (writeSlot bytes (cfg.slotOf r.sequence) (encode r)), s.append (cfg.slotOf r.sequence) r,
    r, none, (prefixes (encode r)).map fun p =>
      Entry.file (writeSlot bytes (cfg.slotOf r.sequence) p)⟩

theorem writeRecord_working (cfg : Config) (bytes : List UInt8) (s : Store) (r : Record) :
    writeRecord cfg (.working cfg) (.file bytes) s r = .wrote cfg bytes s r := rfl

/-- The file keeps its form under a write of one slot. -/
theorem accepted_writeSlot (h : Accepted cfg bytes) (hslot : slot < cfg.capacity)
    {data : List UInt8} (hdata : data.length ≤ recordSize) :
    Accepted cfg (writeSlot bytes slot data) := by
  refine ⟨?_, by rw [take_writeSlot h.headerSize_le]; exact h.2⟩
  have hle : (slot + 1) * recordSize ≤ cfg.capacity * recordSize := Nat.mul_le_mul_right _ hslot
  have hfile := h.1
  rw [writeSlot, length_splice]
  unfold slotOffset Config.fileSize at *
  simp only [recordSize] at *
  omega

/-- **What a failed write leaves**: a file of the same form, the other slots as they were, and
in its slot the old record, the new one, or none. -/
theorem Left.spec {left : List UInt8} (hvalid : r.event.Valid) (hnum : r.Numbered)
    (hacc : Accepted cfg bytes) (hgap : slotOffset (cfg.slotOf r.sequence) ≤ bytes.length)
    (h : Left cfg bytes (cfg.slotOf r.sequence) (encode r) left) : Accepted cfg left ∧
      (∀ i, i ≠ cfg.slotOf r.sequence → recordAt cfg left i = recordAt cfg bytes i) ∧
      (recordAt cfg left (cfg.slotOf r.sequence) = recordAt cfg bytes (cfg.slotOf r.sequence) ∨
        recordAt cfg left (cfg.slotOf r.sequence) = none ∨
        recordAt cfg left (cfg.slotOf r.sequence) = some r) := by
  have hlen := length_encode hvalid.2.2.2
  have hwritten := accepted_writeSlot hacc (slotOf_lt cfg r.sequence) hlen.le
  cases h with
  | unchanged => exact ⟨hacc, fun _ _ => rfl, .inl rfl⟩
  | written =>
    refine ⟨hwritten, fun i hi => ?_, .inr (.inr (recordAt_writeSlot_self bytes hvalid hnum))⟩
    exact recordAt_congr (slotBytes_writeSlot_ne (.inl hgap) hlen.le hi)
  | torn _ hheader hothers _ hupper hdamaged =>
    refine ⟨⟨hupper.trans hwritten.1, ?_⟩, fun i hi => recordAt_congr (hothers i hi),
      .inr (.inl hdamaged)⟩
    rw [hheader]
    exact hacc.2

/-- Eight slots, a queue of four, and every event but those of severity INFO. -/
def smallConfig : Config :=
  ⟨8, 4, 1, by decide, by decide, by decide, by decide, by decide, by decide⟩

end KfswServices.Journal
