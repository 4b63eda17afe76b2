/-
# The parameter snapshot

`src/parameter/parameter_persistence.c`: the persistent parameters of a node in one file.  A
header with a length and a checksum, then one entry for each parameter, by name.  A load reads the
file twice: a first pass looks at every entry, and only if it finds nothing to refuse does a second
pass write.

The buffer that a load reads is the octets of the file and no others: a read outside of them is
`Stop.outside` (`persistLoad_inside` says that there is none).
-/

import KfswServices.Library.Crc32
import KfswServices.Library.Splice
import KfswServices.Param.Wire

namespace KfswServices.Param

open Library

/-- `KFSW_PARAM_PERSIST_MAX_BYTES`. -/
abbrev persistMaxBytes : ℕ := 2048

/-- `KFSW_PARAM_PERSIST_MAX_ENTRY_COUNT`. -/
abbrev persistMaxEntryCount : ℕ := 64

/-- `KFSW_PARAM_PERSIST_HEADER_SIZE`. -/
abbrev persistHeaderSize : ℕ := 20

/-- `KFSW_PARAM_PERSIST_CRC_OFFSET`. -/
abbrev persistCrcOffset : ℕ := 16

/-- `KFSW_PARAM_PERSIST_ENTRY_HEADER_SIZE`. -/
abbrev persistEntryHeaderSize : ℕ := 4

/-- `KFSW_PARAM_PERSIST_MAGIC`: `KPAR`. -/
def persistMagic : List UInt8 := [0x4b, 0x50, 0x41, 0x52]

/-- `KFSW_PARAM_PERSIST_VERSION`. -/
abbrev persistVersion : UInt16 := 1

/-! ### Saving -/

/-- One entry of a snapshot. -/
def snapshotEntry (name : List UInt8) (type : UInt8) (value : List UInt8) : List UInt8 :=
  UInt8.ofNat name.length :: type :: (putBe16 (UInt16.ofNat value.length) ++ (name ++ value))

/-- The header of a snapshot in front of its checksum. -/
def snapshotFront (payloadSize count : ℕ) : List UInt8 :=
  persistMagic ++ (putBe16 persistVersion ++ (putBe16 (UInt16.ofNat persistHeaderSize) ++
    (putBe32 (UInt32.ofNat payloadSize) ++ (putBe16 (UInt16.ofNat count) ++ putBe16 0))))

/-- A snapshot with this checksum. -/
def snapshotBytes (payload : List UInt8) (count : ℕ) (crc : UInt32) : List UInt8 :=
  snapshotFront payload.length count ++ (putBe32 crc ++ payload)

namespace Node

variable {ω : Type} (cfg : Config) (owner : Owner ω)

/-- The loop of `build_snapshot`: the octets behind the header and the entries in them. -/
def buildEntries : List Entry → List UInt8 → ℕ → Node ω →
    Except Errno (List UInt8 × ℕ) × Node ω
  | [], payload, count, n => (.ok (payload, count), n)
  | entry :: entries, payload, count, n =>
    if entry.info.node ≠ 0 ∨ !entry.persistent then buildEntries entries payload count n
    else
      let name := entry.info.name
      if name.length = 0 ∨ nameMax < name.length then (.error .ENAMETOOLONG, n)
      else
        match wireTypeOf entry with
        | .error _ => buildEntries entries payload count n
        | .ok (type, valueSize) =>
          let reserved := if entry.info.type = .STRING ∨ entry.info.type = .DATA then
            entry.info.arraySize else valueSize
          let offset := persistHeaderSize + payload.length + persistEntryHeaderSize + name.length
          if persistMaxEntryCount ≤ count ∨ persistMaxBytes < offset + reserved.toNat then
            (.error .E2BIG, n)
          else
            match n.wireEncode cfg owner entry (persistMaxBytes - offset) with
            | (.error e, n) => (.error e, n)
            | (.ok octets, n) =>
              buildEntries entries (payload ++ snapshotEntry name.bytes type octets) (count + 1) n

/-- `build_snapshot`. -/
def buildSnapshot (n : Node ω) : Except Errno (List UInt8) × Node ω :=
  match n.buildEntries cfg owner n.service.entries [] 0 with
  | (.error e, n) => (.error e, n)
  | (.ok (payload, count), n) =>
    (.ok (snapshotBytes payload count (crc32 (snapshotBytes payload count 0))), n)

end Node

/-! ### Loading -/

/-- Why a load stops: an `errno`, or a read outside the octets of the file. -/
inductive Stop
  | errno (e : Errno)
  | outside
  deriving DecidableEq

/-- A read of `len` octets of the file. -/
def readAt (data : List UInt8) (offset len : ℕ) : Except Stop (List UInt8) :=
  if offset + len ≤ data.length then .ok (region data offset len) else .error .outside

/-- `struct persist_entry`. -/
structure PersistEntry where
  name : List UInt8
  type : UInt8
  value : List UInt8

/-- `name_size` in the header of an entry. -/
def headerNameSize (header : List UInt8) : ℕ := (header.headD 0).toNat

/-- `value_size` in the header of an entry. -/
def headerValueSize (header : List UInt8) : ℕ := (getBe16 (header.drop 2)).toNat

/-- `next_entry`. -/
def nextEntry (cfg : Config) (data : List UInt8) (offset : ℕ) :
    Except Stop (PersistEntry × ℕ) :=
  if data.length < offset + persistEntryHeaderSize then .error (.errno .EBADMSG)
  else
    match readAt data offset persistEntryHeaderSize with
    | .error e => .error e
    | .ok header =>
      let nameSize := headerNameSize header
      let valueSize := headerValueSize header
      let offset := offset + persistEntryHeaderSize
      if nameSize = 0 ∨ nameMax < nameSize ∨ valueSize = 0 ∨ cfg.stringMax < valueSize ∨
          data.length < offset + (nameSize + valueSize) then .error (.errno .EBADMSG)
      else
        match readAt data offset nameSize with
        | .error e => .error e
        | .ok name =>
          match readAt data (offset + nameSize) valueSize with
          | .error e => .error e
          | .ok value => .ok (⟨name, header.getD 1 0, value⟩, offset + (nameSize + valueSize))

/-- Some entries, one after the other, and where they end. -/
def nextEntries (cfg : Config) (data : List UInt8) :
    ℕ → ℕ → Except Stop (List PersistEntry × ℕ)
  | 0, offset => .ok ([], offset)
  | count + 1, offset =>
    match nextEntry cfg data offset with
    | .error e => .error e
    | .ok (entry, offset) =>
      match nextEntries cfg data count offset with
      | .error e => .error e
      | .ok (entries, offset) => .ok (entry :: entries, offset)

/-- `validate_snapshot`: the number of entries, and the buffer with its checksum cleared. -/
def validateSnapshot (cfg : Config) (data : List UInt8) : Except Stop (ℕ × List UInt8) :=
  if data.length < persistHeaderSize then .error (.errno .EMSGSIZE)
  else
    match readAt data 0 persistHeaderSize with
    | .error e => .error e
    | .ok header =>
      let payloadSize := (getBe32 (header.drop 8)).toNat
      let entryCount := (getBe16 (header.drop 12)).toNat
      let cleared := splice 0 data persistCrcOffset (putBe32 0)
      if header.take 4 ≠ persistMagic then .error (.errno .EBADMSG)
      else if getBe16 (header.drop 4) ≠ persistVersion then .error (.errno .EPROTONOSUPPORT)
      else if (getBe16 (header.drop 6)).toNat ≠ persistHeaderSize ∨ getBe16 (header.drop 14) ≠ 0 then
        .error (.errno .EBADMSG)
      else if payloadSize ≠ data.length - persistHeaderSize ∨ persistMaxEntryCount < entryCount then
        .error (.errno .EMSGSIZE)
      else if crc32 cleared ≠ getBe32 (header.drop persistCrcOffset) then .error (.errno .EBADMSG)
      else
        match nextEntries cfg cleared entryCount persistHeaderSize with
        | .error e => .error e
        | .ok (_, offset) =>
          if offset ≠ data.length then .error (.errno .EBADMSG) else .ok (entryCount, cleared)

/-- `entry_matches`. -/
def entryMatches (entry : Entry) (persist : PersistEntry) : Bool :=
  match wireTypeOf entry with
  | .error _ => false
  | .ok (type, valueSize) =>
    if type ≠ persist.type then false
    else if type = wireString then persist.value.length ≤ entry.info.arraySize.toNat
    else valueSize.toNat = persist.value.length

namespace Node

variable {ω : Type} (cfg : Config) (owner : Owner ω)

/-- One turn of `walk_snapshot`: the entry is ignored, or it is refused, or its value is written. -/
def walkEntry (entryCount : ℕ) (apply : Bool) (persist : PersistEntry) (n : Node ω) :
    Option Stop × Node ω :=
  match findName n.service (CString.scan persist.name) with
  | none => (none, n)
  | some entry =>
    if !entry.persistent then (none, n)
    else if !entryMatches entry persist then (none, n)
    else if entry.definition.apply.isSome ∧ entryCount ≠ 1 then (some (.errno .ENOTSUP), n)
    else
      match wireDecode cfg entry persist.type persist.value with
      | .error _ => (none, n)
      | .ok value =>
        if apply then
          ((n.wireApply owner entry value).1.map .errno, (n.wireApply owner entry value).2)
        else (none, n)

/-- `walk_snapshot`, with `count` entries still to come. -/
def walkSnapshot (data : List UInt8) (entryCount : ℕ) (apply : Bool) :
    ℕ → ℕ → Node ω → Option Stop × Node ω
  | 0, _, n => (none, n)
  | count + 1, offset, n =>
    match nextEntry cfg data offset with
    | .error e => (some e, n)
    | .ok (persist, offset) =>
      match n.walkEntry cfg owner entryCount apply persist with
      | (some e, n) => (some e, n)
      | (none, n) => walkSnapshot data entryCount apply count offset n

/-- `apply_snapshot`. -/
def applySnapshot (data : List UInt8) (entryCount : ℕ) (n : Node ω) : Option Stop × Node ω :=
  match n.walkSnapshot cfg owner data entryCount false entryCount persistHeaderSize with
  | (some e, n) => (some e, n)
  | (none, n) => n.walkSnapshot cfg owner data entryCount true entryCount persistHeaderSize

end Node

/-- What the file system answers to a load: whether the storage is ready, whether the path is a
file and how large, `fs_open`, each `fs_read`, and `fs_close`. -/
structure Reading where
  ready : Bool
  stat : Except Errno (Bool × ℕ)
  opened : Option Errno
  reads : List (Except Errno (List UInt8))
  closed : Option Errno

/-- `read_all`, which says `short` where the file ends early. -/
def readAll (short : Errno) (size : ℕ) :
    List (Except Errno (List UInt8)) → List UInt8 → Except Errno (List UInt8)
  | [], data => if data.length < size then .error short else .ok data
  | read :: reads, data =>
    if data.length < size then
      match read with
      | .error e => .error e
      | .ok [] => .error short
      | .ok (b :: chunk) =>
        readAll short size reads (data ++ (b :: chunk).take (size - data.length))
    else .ok data

/-- `fs_open`, `read_all` and `fs_close`. -/
def Reading.content (short : Errno) (r : Reading) (size : ℕ) : Except Errno (List UInt8) :=
  match r.opened with
  | some e => .error e
  | none =>
    match readAll short size r.reads [] with
    | .error e => .error e
    | .ok data =>
      match r.closed with
      | some e => .error e
      | none => .ok data

/-- `persist_load`. -/
def Node.persistLoad {ω : Type} (cfg : Config) (owner : Owner ω) (r : Reading) (n : Node ω) :
    Option Stop × Node ω :=
  if !n.service.initialized || !r.ready then (some (.errno .EACCES), n)
  else
    match r.stat with
    | .error e => (some (.errno e), n)
    | .ok (isFile, size) =>
      if !isFile ∨ size < persistHeaderSize ∨ persistMaxBytes < size then
        (some (.errno .EMSGSIZE), n)
      else
        match r.content .EMSGSIZE size with
        | .error e => (some (.errno e), n)
        | .ok data =>
          match validateSnapshot cfg data with
          | .error e => (some e, n)
          | .ok (entryCount, data) => n.applySnapshot cfg owner data entryCount

/-! ### Reading the file -/

theorem readAt_of_le {data : List UInt8} {offset len : ℕ} (h : offset + len ≤ data.length) :
    readAt data offset len = .ok (region data offset len) := if_pos h

/-- An entry of these sizes lies inside the file. -/
structure EntryInside (cfg : Config) (data : List UInt8) (offset nameSize valueSize : ℕ) :
    Prop where
  name : nameSize ≠ 0
  nameMax : nameSize ≤ nameMax
  value : valueSize ≠ 0
  valueMax : valueSize ≤ cfg.stringMax
  fits : offset + persistEntryHeaderSize + (nameSize + valueSize) ≤ data.length

/-- **`next_entry` reads inside the file**, or refuses. -/
theorem nextEntry_cases (cfg : Config) (data : List UInt8) (offset : ℕ) :
    (¬ EntryInside cfg data offset (headerNameSize (region data offset persistEntryHeaderSize))
          (headerValueSize (region data offset persistEntryHeaderSize)) ∧
        nextEntry cfg data offset = .error (.errno .EBADMSG)) ∨
      ∃ header nameSize valueSize, header = region data offset persistEntryHeaderSize ∧
        nameSize = headerNameSize header ∧ valueSize = headerValueSize header ∧
          EntryInside cfg data offset nameSize valueSize ∧ nextEntry cfg data offset = .ok
            (⟨region data (offset + persistEntryHeaderSize) nameSize, header.getD 1 0,
              region data (offset + persistEntryHeaderSize + nameSize) valueSize⟩,
              offset + persistEntryHeaderSize + (nameSize + valueSize)) := by
  unfold nextEntry
  by_cases hheader : data.length < offset + persistEntryHeaderSize
  · refine Or.inl ⟨fun h => ?_, if_pos hheader⟩
    have hfits := h.fits
    omega
  · rw [if_neg hheader, readAt_of_le (not_lt.1 hheader)]
    generalize hh : region data offset persistEntryHeaderSize = header
    dsimp only
    generalize hn : headerNameSize header = nameSize
    generalize hv : headerValueSize header = valueSize
    by_cases hsizes : nameSize = 0 ∨ nameMax < nameSize ∨ valueSize = 0 ∨
        cfg.stringMax < valueSize ∨
          data.length < offset + persistEntryHeaderSize + (nameSize + valueSize)
    · refine Or.inl ⟨fun h => ?_, if_pos hsizes⟩
      rcases hsizes with h' | h' | h' | h' | h'
      · exact h.name h'
      · exact absurd h.nameMax (by omega)
      · exact h.value h'
      · exact absurd h.valueMax (by omega)
      · exact absurd h.fits (by omega)
    · rw [if_neg hsizes]
      simp only [not_or, not_lt] at hsizes
      obtain ⟨hname, hmax, hvalue, hstring, hend⟩ := hsizes
      rw [readAt_of_le (by omega), readAt_of_le (by omega)]
      exact Or.inr ⟨header, nameSize, valueSize, rfl, hn.symm, hv.symm,
        ⟨hname, hmax, hvalue, hstring, hend⟩, rfl⟩

/-- **No entry is read outside the file.** -/
theorem nextEntry_inside (cfg : Config) (data : List UInt8) (offset : ℕ) :
    nextEntry cfg data offset ≠ .error .outside := by
  rcases nextEntry_cases cfg data offset with ⟨-, h⟩ | ⟨_, _, _, -, -, -, -, h⟩ <;> rw [h] <;>
    exact fun h => by cases h

theorem nextEntries_inside (cfg : Config) (data : List UInt8) (count offset : ℕ) :
    nextEntries cfg data count offset ≠ .error .outside := by
  induction count generalizing offset with
  | zero => exact fun h => by cases h
  | succ count ih =>
    unfold nextEntries
    cases hnext : nextEntry cfg data offset with
    | error e =>
      intro h
      cases h
      exact nextEntry_inside cfg data offset hnext
    | ok next =>
      obtain ⟨entry, offset⟩ := next
      dsimp only
      cases hrest : nextEntries cfg data count offset with
      | error e =>
        intro h
        cases h
        exact ih offset hrest
      | ok rest => exact fun h => by cases h

/-- **No octet outside the file is read** to validate it. -/
theorem validateSnapshot_inside (cfg : Config) (data : List UInt8) :
    validateSnapshot cfg data ≠ .error .outside := by
  unfold validateSnapshot
  by_cases hsize : data.length < persistHeaderSize
  · rw [if_pos hsize]
    exact fun h => by cases h
  · rw [if_neg hsize, readAt_of_le (by omega)]
    dsimp only
    cases hnext : nextEntries cfg (splice 0 data persistCrcOffset (putBe32 0))
        (getBe16 ((region data 0 persistHeaderSize).drop 12)).toNat persistHeaderSize with
    | error e =>
      have he : e ≠ .outside := fun h => nextEntries_inside _ _ _ _ (h ▸ hnext)
      split_ifs <;> simp [he]
    | ok rest =>
      dsimp only
      split_ifs <;> simp

/-- **A snapshot that is validated** is made of its entries. -/
theorem validateSnapshot_ok {cfg : Config} {data cleared : List UInt8} {count : ℕ}
    (h : validateSnapshot cfg data = .ok (count, cleared)) :
    cleared = splice 0 data persistCrcOffset (putBe32 0) ∧ ∃ entries,
      nextEntries cfg cleared count persistHeaderSize = .ok (entries, data.length) := by
  unfold validateSnapshot at h
  by_cases hsize : data.length < persistHeaderSize
  · rw [if_pos hsize] at h
    cases h
  · rw [if_neg hsize, readAt_of_le (by omega)] at h
    simp only [ite_error_eq_ok] at h
    obtain ⟨-, -, -, -, -, h⟩ := h
    cases hnext : nextEntries cfg (splice 0 data persistCrcOffset (putBe32 0))
        (getBe16 ((region data 0 persistHeaderSize).drop 12)).toNat persistHeaderSize with
    | error e => rw [hnext] at h; cases h
    | ok next =>
      obtain ⟨entries, offset⟩ := next
      simp only [hnext, ite_error_eq_ok, not_not, Except.ok.injEq, Prod.mk.injEq] at h
      obtain ⟨rfl, rfl, rfl⟩ := h
      exact ⟨rfl, entries, hnext⟩

/-! ### A snapshot that has been built -/

@[simp] theorem length_snapshotEntry (name value : List UInt8) (type : UInt8) :
    (snapshotEntry name type value).length =
      persistEntryHeaderSize + (name.length + value.length) := by
  simp only [snapshotEntry, List.length_cons, List.length_append, length_putBe16,
    persistEntryHeaderSize]
  omega

/-- An entry that has been written is read back. -/
theorem nextEntry_snapshotEntry {cfg : Config} {name value : List UInt8} (type : UInt8)
    (front rest : List UInt8) (hname : name ≠ []) (hnameMax : name.length ≤ nameMax)
    (hvalue : value ≠ []) (hvalueMax : value.length ≤ cfg.stringMax)
    (hsize : value.length < 2 ^ 16) :
    nextEntry cfg (front ++ (snapshotEntry name type value ++ rest)) front.length = .ok
      (⟨name, type, value⟩, (front ++ snapshotEntry name type value).length) := by
  have hnamePos := List.length_pos_iff.2 hname
  have hvaluePos := List.length_pos_iff.2 hvalue
  have hheader : region (front ++ (snapshotEntry name type value ++ rest)) front.length
      persistEntryHeaderSize =
        UInt8.ofNat name.length :: type :: putBe16 (UInt16.ofNat value.length) := by
    rw [region, List.drop_left]
    simp [snapshotEntry]
  have hn : headerNameSize (UInt8.ofNat name.length :: type ::
      putBe16 (UInt16.ofNat value.length)) = name.length := by
    show (UInt8.ofNat name.length).toNat = name.length
    rw [UInt8.toNat_ofNat']
    exact Nat.mod_eq_of_lt (Nat.lt_of_le_of_lt hnameMax (by decide))
  have hv : headerValueSize (UInt8.ofNat name.length :: type ::
      putBe16 (UInt16.ofNat value.length)) = value.length := by
    have hget := getBe16_putBe16 (UInt16.ofNat value.length) []
    rw [List.append_nil] at hget
    show (getBe16 (putBe16 (UInt16.ofNat value.length))).toNat = value.length
    rw [hget, UInt16.toNat_ofNat']
    exact Nat.mod_eq_of_lt hsize
  have hlen : (front ++ (snapshotEntry name type value ++ rest)).length =
      front.length + (persistEntryHeaderSize + (name.length + value.length) + rest.length) := by
    simp only [List.length_append, length_snapshotEntry]
  have hregion : ∀ o len, region (front ++ (snapshotEntry name type value ++ rest))
      (front.length + persistEntryHeaderSize + o) len = region (name ++ (value ++ rest)) o len := by
    intro o len
    have hsplit : front ++ (snapshotEntry name type value ++ rest) =
        (front ++ UInt8.ofNat name.length :: type :: putBe16 (UInt16.ofNat value.length)) ++
          (name ++ (value ++ rest)) := by
      simp [snapshotEntry]
    have hfront : (front ++ UInt8.ofNat name.length :: type ::
        putBe16 (UInt16.ofNat value.length)).length = front.length + persistEntryHeaderSize := by
      simp
    rw [hsplit, ← hfront, region, List.drop_length_add_append]
    rfl
  rcases nextEntry_cases cfg (front ++ (snapshotEntry name type value ++ rest)) front.length with
    ⟨houtside, -⟩ | ⟨header, nameSize, valueSize, rfl, rfl, rfl, -, h⟩
  · rw [hheader, hn, hv] at houtside
    refine absurd ⟨by omega, hnameMax, by omega, hvalueMax, ?_⟩ houtside
    rw [hlen]
    omega
  · rw [h, hheader, hn, hv, ← Nat.add_zero (front.length + persistEntryHeaderSize), hregion,
      Nat.add_zero, hregion]
    simp only [region, List.drop_zero, List.take_left, List.drop_left, List.length_append,
      length_snapshotEntry, Nat.add_assoc]
    rfl

/-- An entry that the format can hold. -/
structure PersistEntry.Holds (cfg : Config) (e : PersistEntry) : Prop where
  name : e.name ≠ []
  nameMax : e.name.length ≤ nameMax
  value : e.value ≠ []
  valueMax : e.value.length ≤ cfg.stringMax
  size : e.value.length < 2 ^ 16

/-- Entries, one after the other. -/
def payloadOf (entries : List PersistEntry) : List UInt8 :=
  entries.flatMap fun e => snapshotEntry e.name e.type e.value

variable {entries : List PersistEntry}

/-- **Entries that have been written are read back.** -/
theorem nextEntries_payload {cfg : Config} (h : ∀ e ∈ entries, e.Holds cfg) (front : List UInt8) :
    nextEntries cfg (front ++ payloadOf entries) entries.length front.length =
      .ok (entries, (front ++ payloadOf entries).length) := by
  induction entries generalizing front with
  | nil => simp [nextEntries, payloadOf]
  | cons e entries ih =>
    have he := h e List.mem_cons_self
    have hsplit : payloadOf (e :: entries) =
        snapshotEntry e.name e.type e.value ++ payloadOf entries := rfl
    have hrest := ih (fun e' he' => h e' (List.mem_cons_of_mem _ he'))
      (front ++ snapshotEntry e.name e.type e.value)
    rw [List.append_assoc] at hrest
    rw [hsplit, List.length_cons, nextEntries, nextEntry_snapshotEntry e.type front
      (payloadOf entries) he.name he.nameMax he.value he.valueMax he.size]
    dsimp only
    rw [hrest]

@[simp] theorem length_snapshotFront (payloadSize count : ℕ) :
    (snapshotFront payloadSize count).length = persistCrcOffset := by
  simp [snapshotFront, persistMagic]

/-- The entries of a snapshot that has been built. -/
theorem nextEntries_built {cfg : Config} (h : ∀ e ∈ entries, e.Holds cfg) (count : ℕ)
    (crc : UInt32) : nextEntries cfg (snapshotBytes (payloadOf entries) count crc) entries.length
      persistHeaderSize = .ok (entries, (snapshotBytes (payloadOf entries) count crc).length) := by
  have hfront : (snapshotFront (payloadOf entries).length count ++ putBe32 crc).length =
      persistHeaderSize := by simp
  have hread := nextEntries_payload h
    (snapshotFront (payloadOf entries).length count ++ putBe32 crc)
  rwa [hfront, List.append_assoc] at hread

/-- **A snapshot that has been built is validated**, with its entries in it. -/
theorem validateSnapshot_built {cfg : Config} (h : ∀ e ∈ entries, e.Holds cfg)
    (hcount : entries.length ≤ persistMaxEntryCount) (hsize : (payloadOf entries).length < 2 ^ 32) :
    validateSnapshot cfg (snapshotBytes (payloadOf entries) entries.length
        (crc32 (snapshotBytes (payloadOf entries) entries.length 0))) =
      .ok (entries.length, snapshotBytes (payloadOf entries) entries.length 0) := by
  generalize hcrc : crc32 (snapshotBytes (payloadOf entries) entries.length 0) = crc
  generalize hpayload : payloadOf entries = payload at *
  have hlen : ∀ crc, (snapshotBytes payload entries.length crc).length =
      persistHeaderSize + payload.length := by
    intro crc
    simp only [snapshotBytes, List.length_append, length_snapshotFront, length_putBe32,
      persistCrcOffset, persistHeaderSize]
    omega
  have hheader : region (snapshotBytes payload entries.length crc) 0 persistHeaderSize =
      snapshotFront payload.length entries.length ++ putBe32 crc := by
    rw [region, List.drop_zero, snapshotBytes, ← List.append_assoc, List.take_left' (by simp)]
  have hcleared : splice 0 (snapshotBytes payload entries.length crc) persistCrcOffset
      (putBe32 0) = snapshotBytes payload entries.length 0 := by
    have hfront : (snapshotFront payload.length entries.length ++ putBe32 crc).length =
        persistCrcOffset + (putBe32 0).length := by simp
    rw [splice, hlen, snapshotBytes, List.take_left' (length_snapshotFront _ _), ← List.append_assoc
      (snapshotFront _ _) (putBe32 crc), List.drop_left' hfront, Nat.sub_eq_zero_of_le
      (by simp only [persistCrcOffset, persistHeaderSize]; omega)]
    rfl
  set header := snapshotFront payload.length entries.length ++ putBe32 crc with hfields
  have hmagic : header.take 4 =
      persistMagic := rfl
  have hversion : getBe16 (header.drop 4) =
      persistVersion := getBe16_putBe16 _ _
  have hheaderSize : getBe16 (header.drop 6) =
      UInt16.ofNat persistHeaderSize := getBe16_putBe16 _ _
  have hreserved : getBe16 (header.drop 14) =
      0 := getBe16_putBe16 _ _
  have hpayloadSize :
      (getBe32 (header.drop 8)).toNat =
        payload.length := by
    have hget : getBe32 (header.drop 8) =
        UInt32.ofNat payload.length := getBe32_putBe32 _ _
    rw [hget, UInt32.toNat_ofNat', Nat.mod_eq_of_lt hsize]
  have hcountSize :
      (getBe16 (header.drop 12)).toNat =
        entries.length := by
    have hget : getBe16 (header.drop 12) =
        UInt16.ofNat entries.length := getBe16_putBe16 _ _
    rw [hget, UInt16.toNat_ofNat', Nat.mod_eq_of_lt (Nat.lt_of_le_of_lt hcount (by decide))]
  have hchecksum : getBe32 (header.drop persistCrcOffset) = crc := by
    rw [List.drop_left' (length_snapshotFront _ _)]
    exact (congrArg getBe32 (List.append_nil _).symm).trans (getBe32_putBe32 crc [])
  have hentries : nextEntries cfg (snapshotBytes payload entries.length 0) entries.length
      persistHeaderSize = .ok (entries, (snapshotBytes payload entries.length crc).length) := by
    rw [hlen, ← hlen 0, ← hpayload]
    exact nextEntries_built h _ 0
  unfold validateSnapshot
  rw [if_neg (by rw [hlen]; omega), readAt_of_le (by rw [hlen]; omega), hheader]
  dsimp only
  rw [hmagic, hversion, hheaderSize, hreserved, hpayloadSize, hcountSize, hcleared, hchecksum,
    hentries, if_neg (by simp), if_neg (by simp), if_neg (by decide), if_neg ?_,
    if_neg (by simp [hcrc])]
  · exact if_neg (by simp)
  · rw [hlen]
    simp only [persistHeaderSize, persistMaxEntryCount] at hcount ⊢
    omega

end KfswServices.Param
