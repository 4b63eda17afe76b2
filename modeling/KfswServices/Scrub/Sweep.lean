/-
# The image scrub

`src/scrub/scrub.c`: every region that holds an image is read again and its CRC-32 compared with a
reference that was learned on command.  How much is read comes from the image's own header, and a
reference of zero says that none was learned.

The calls of the service are taken one after the other, each with the flash it finds.
`measure_readable` says what a sweep of a readable region measures.
-/

import Mathlib.Logic.Function.Basic
import KfswServices.Basic
import KfswServices.Library.BigEndian
import KfswServices.Library.LittleEndian
import KfswServices.Library.Count
import KfswServices.Library.Splice

namespace KfswServices.Scrub

open Library

/-- `enum kfsw_scrub_region`. -/
inductive Region
  | SLOT0 | SLOT1 | GOLDEN
  deriving DecidableEq, Repr

def Region.toByte : Region → UInt8
  | .SLOT0 => 0
  | .SLOT1 => 1
  | .GOLDEN => 2

/-- The regions in the order of their ids. -/
def regions : List Region := [.SLOT0, .SLOT1, .GOLDEN]

/-- `enum kfsw_scrub_state`. -/
inductive ScrubState
  | EMPTY | UNKNOWN | OK | MISMATCH | UNREADABLE | ABSENT
  deriving DecidableEq, Repr

/-- The build: which regions have a partition, how large it is and where its image starts, and
`CONFIG_KFSW_PARAM_PERSISTENCE` and `CONFIG_KFSW_EVENT`. -/
structure Build where
  present : Region → Bool
  size : Region → ℕ
  imageOffset : Region → ℕ
  size_lt : ∀ r, size r < 2 ^ 32
  persistence : Bool
  event : Bool

/-- A flash area of a size as a call finds it: its bytes, whether it opens, and which reads the
driver fails. -/
structure Area (size : ℕ) where
  bytes : List UInt8
  length_bytes : bytes.length = size
  opens : Bool
  fails : ℕ → ℕ → Bool

/-- The area can be read. -/
structure Area.Readable {size : ℕ} (area : Area size) : Prop where
  opens : area.opens = true
  reads : ∀ offset length, area.fails offset length = false

/-- `flash_area_read`, which refuses what lies outside the area. -/
def Area.read {size : ℕ} (area : Area size) (offset length : ℕ) : Option (List UInt8) :=
  if offset + length ≤ size ∧ area.fails offset length = false then
    some (region area.bytes offset length)
  else none

/-- The flash of a build. -/
abbrev Flash (b : Build) := ∀ r, Area (b.size r)

/-- `IMAGE_HEADER_MAGIC`. -/
def imageHeaderMagic : UInt32 := 0x96f3b83d

/-- `IMAGE_HEADER_READ`. -/
abbrev imageHeaderRead : ℕ := 16

/-- `SCRUB_CHUNK`. -/
abbrev scrubChunk : ℕ := 256

/-- `image_length`.  The header was read behind the offset, so the difference that bounds the
length does not wrap; the sum that is bounded does. -/
def imageLength (b : Build) (r : Region) (area : Area (b.size r)) : Except Errno UInt32 :=
  match area.read (b.imageOffset r) imageHeaderRead with
  | none => .error Errno.EIO
  | some header =>
    let headerSize := UInt32.ofNat (getLe (region header 8 2))
    let imageSize := getLe32 (header.drop 12)
    if getLe32 header ≠ imageHeaderMagic then .error .ENOENT
    else if headerSize = 0 ∨ imageSize = 0 then .error .ENOENT
    else if b.size r - b.imageOffset r < (headerSize + imageSize).toNat then .error .ENOENT
    else .ok (headerSize + imageSize)

/-- The loop of `measure`: whether every read succeeded, and the checksum of what was read. -/
def crcFrom {size : ℕ} (area : Area size) (offset length done : ℕ) (crc : UInt32) :
    Bool × UInt32 :=
  if done < length then
    match area.read (offset + done) (min scrubChunk (length - done)) with
    | none => (false, crc)
    | some chunk =>
      crcFrom area offset length (done + min scrubChunk (length - done)) (crc32Update crc chunk)
  else (true, crc)
termination_by length - done
decreasing_by
  have : 0 < scrubChunk := by decide
  omega

/-- What `measure` returns and leaves in its two results. -/
structure Measurement where
  result : Option Errno
  bytes : UInt32
  crc : UInt32
  deriving DecidableEq

/-- `measure`, into results that start at zero. -/
def measure (b : Build) (r : Region) (area : Area (b.size r)) : Measurement :=
  if !area.opens then ⟨some Errno.EIO, 0, 0⟩
  else
    match imageLength b r area with
    | .error e => ⟨some e, 0, 0⟩
    | .ok length =>
      match crcFrom area (b.imageOffset r) length.toNat 0 0 with
      | (true, crc) => ⟨none, length, crc⟩
      | (false, crc) => ⟨some Errno.EIO, 0, crc⟩

/-- What a measurement says against a reference. -/
def judge (reference : UInt32) (m : Measurement) : ScrubState :=
  match m.result with
  | some .ENOENT => .EMPTY
  | some _ => .UNREADABLE
  | none => if reference = 0 then .UNKNOWN else if reference = m.crc then .OK else .MISMATCH

/-- `struct kfsw_scrub_result`, the name apart. -/
structure Result where
  state : ScrubState
  bytes : UInt32
  measured : UInt32
  reference : UInt32
  deriving DecidableEq

/-- The statics of `scrub.c`, with the references the parameter snapshot holds and the payloads
handed to `kfsw_event_emit`. -/
structure Node where
  references : Region → UInt32
  saved : Region → UInt32
  results : Region → Result
  mismatching : Region → Bool
  sweeps : UInt32
  mismatches : UInt32
  lastSweepMs : UInt32
  running : Bool
  emitted : List (List UInt8)

/-- A node that boots with references. -/
def bootNode (b : Build) (references saved : Region → UInt32) : Node where
  references := references
  saved := saved
  results r := ⟨if b.present r then .UNKNOWN else .ABSENT, 0, 0, 0⟩
  mismatching _ := false
  sweeps := 0
  mismatches := 0
  lastSweepMs := 0
  running := false
  emitted := []

/-- `record`. -/
def Node.record (s : Node) (r : Region) (state : ScrubState) (bytes measured : UInt32) : Node :=
  { s with results := Function.update s.results r ⟨state, bytes, measured, s.references r⟩ }

/-- What `sweep_one` does with the state it found: a mismatch is counted once. -/
def Node.latch (b : Build) (s : Node) (r : Region) (state : ScrubState) (measured : UInt32) :
    Node :=
  if state = .MISMATCH then
    if s.mismatching r then s
    else { s with
      mismatching := Function.update s.mismatching r true
      mismatches := saturatingInc s.mismatches
      emitted := s.emitted ++ if b.event then [r.toByte :: putBe32 measured] else [] }
  else { s with mismatching := Function.update s.mismatching r false }

/-- The state a sweep of the region finds. -/
def Node.found (b : Build) (s : Node) (flash : Flash b) (r : Region) : ScrubState :=
  if b.present r then judge (s.references r) (measure b r (flash r)) else .ABSENT

/-- `sweep_one`; it returns `-ENODEV` for a region that is not present. -/
def Node.sweepOne (b : Build) (s : Node) (flash : Flash b) (r : Region) : Node :=
  if b.present r then
    let m := measure b r (flash r)
    (s.record r (judge (s.references r) m) m.bytes m.crc).latch b r (judge (s.references r) m) m.crc
  else s.record r .ABSENT 0 0

/-- `kfsw_scrub_learn`, behind its sweep, when the region was measured. -/
def Node.adopt (s : Node) (r : Region) : Node :=
  { s with
    references := Function.update s.references r (s.results r).measured
    results := Function.update s.results r
      { s.results r with reference := (s.results r).measured, state := .OK }
    mismatching := Function.update s.mismatching r false }

/-- `kfsw_scrub_learn`, and whether it adopted the measurement; `persist` is what
`kfsw_param_persist_save` would return. -/
def Node.learn (b : Build) (s : Node) (flash : Flash b) (r : Region) (persist : Option Errno) :
    Option Errno × Bool × Node :=
  let s := s.sweepOne b flash r
  if !b.present r then (some .ENODEV, false, s)
  else if (s.results r).state = .EMPTY then (some .ENOENT, false, s)
  else if (s.results r).state = .UNREADABLE then (some Errno.EIO, false, s)
  else
    let s := s.adopt r
    if b.persistence then
      if persist = none then (none, true, { s with saved := s.references })
      else (some Errno.EIO, true, s)
    else (none, true, s)

/-- The references a node boots with, if the snapshot is read back. -/
def Node.restored (b : Build) (s : Node) (readBack : Bool) : Region → UInt32 :=
  if b.persistence && readBack then s.saved else fun _ => 0

/-! ## What is measured -/

/-- The chunks that were read add up to the checksum of what they cover. -/
theorem crcFrom_true {size : ℕ} {area : Area size} {offset length : ℕ} (done : ℕ)
    (crc : UInt32) {c : UInt32} (h : crcFrom area offset length done crc = (true, c)) :
    c = crc32Update crc (region area.bytes (offset + done) (length - done)) := by
  induction hn : length - done using Nat.strong_induction_on generalizing done crc with
  | _ n ih =>
    unfold crcFrom at h
    by_cases hlt : done < length
    · rw [if_pos hlt] at h
      have hpos : 0 < min scrubChunk (length - done) := by
        have : 0 < scrubChunk := by decide
        omega
      cases hread : area.read (offset + done) (min scrubChunk (length - done)) with
      | none =>
        rw [hread] at h
        cases h
      | some chunk =>
        rw [hread] at h
        have hchunk : chunk = region area.bytes (offset + done) (min scrubChunk (length - done)) := by
          unfold Area.read at hread
          split_ifs at hread
          exact (Option.some.inj hread).symm
        have hsplit : n = min scrubChunk (length - done) +
            (length - (done + min scrubChunk (length - done))) := by omega
        rw [ih _ (by omega) _ _ h rfl, hchunk, ← crc32Update_append, ← Nat.add_assoc,
          ← region_add, ← hsplit]
    · rw [if_neg hlt] at h
      rw [← hn, show length - done = 0 by omega, ← (Prod.mk.inj h).2]
      simp [region]

/-- Every chunk of a readable image is read. -/
theorem crcFrom_readable {size : ℕ} {area : Area size} (h : area.Readable) {offset length : ℕ}
    (hfit : offset + length ≤ size) (done : ℕ) (crc : UInt32) (hdone : done ≤ length) :
    (crcFrom area offset length done crc).1 = true := by
  induction hn : length - done using Nat.strong_induction_on generalizing done crc with
  | _ n ih =>
    unfold crcFrom
    by_cases hlt : done < length
    · have hpos : 0 < min scrubChunk (length - done) := by
        have : 0 < scrubChunk := by decide
        omega
      have hread : area.read (offset + done) (min scrubChunk (length - done)) =
          some (region area.bytes (offset + done) (min scrubChunk (length - done))) :=
        if_pos ⟨by omega, h.reads _ _⟩
      rw [if_pos hlt, hread]
      exact ih _ (by omega) _ _ (by omega) rfl
    · rw [if_neg hlt]

variable {b : Build}

/-- The length an image has in its area. -/
theorem imageLength_fits {r : Region} {area : Area (b.size r)} {length : UInt32}
    (h : imageLength b r area = .ok length) : b.imageOffset r + length.toNat ≤ b.size r := by
  unfold imageLength at h
  cases hread : area.read (b.imageOffset r) imageHeaderRead with
  | none =>
    rw [hread] at h
    cases h
  | some header =>
    rw [hread] at h
    obtain ⟨-, h⟩ := ite_error_eq_ok.1 h
    obtain ⟨-, h⟩ := ite_error_eq_ok.1 h
    obtain ⟨hlen, h⟩ := ite_error_eq_ok.1 h
    obtain rfl := Except.ok.inj h
    unfold Area.read at hread
    split_ifs at hread with hbound
    have hoffset := hbound.1
    omega

/-- The bytes of an image of some length. -/
def image (b : Build) (r : Region) (area : Area (b.size r)) (length : ℕ) : List UInt8 :=
  region area.bytes (b.imageOffset r) length

/-- What was measured is the image its header describes. -/
theorem measure_ok {r : Region} {area : Area (b.size r)} (h : (measure b r area).result = none) :
    imageLength b r area = .ok (measure b r area).bytes ∧
      (measure b r area).crc = crc32 (image b r area (measure b r area).bytes.toNat) := by
  unfold measure at h ⊢
  by_cases hopens : area.opens = true
  swap
  · rw [if_pos (by simpa using hopens)] at h
    cases h
  rw [if_neg (by simpa using hopens)] at h ⊢
  cases hlength : imageLength b r area with
  | error e =>
    rw [hlength] at h
    cases h
  | ok length =>
    simp only [hlength] at h ⊢
    rcases hcrc : crcFrom area (b.imageOffset r) length.toNat 0 0 with ⟨_ | _, crc⟩
    · rw [hcrc] at h
      cases h
    · exact ⟨rfl, crcFrom_true 0 0 hcrc⟩

/-- **A sweep of a readable region measures the image its header describes**, or finds none. -/
theorem measure_readable {r : Region} {area : Area (b.size r)} (h : area.Readable) :
    measure b r area =
      match imageLength b r area with
      | .error e => ⟨some e, 0, 0⟩
      | .ok length => ⟨none, length, crc32 (image b r area length.toNat)⟩ := by
  unfold measure
  rw [h.opens]
  cases hlength : imageLength b r area with
  | error e => rfl
  | ok length =>
    have hread := crcFrom_readable h (imageLength_fits hlength) 0 0 (Nat.zero_le _)
    rcases hcrc : crcFrom area (b.imageOffset r) length.toNat 0 0 with ⟨_ | _, crc⟩
    · rw [hcrc] at hread
      cases hread
    · obtain rfl := crcFrom_true 0 0 hcrc
      simp only [hcrc]
      rfl

/-! ## What a sweep records, and what is learned -/

/-- The latch changes neither the results nor the references. -/
theorem latch_frame (b : Build) (s : Node) (r : Region) (state : ScrubState) (measured : UInt32) :
    (s.latch b r state measured).results = s.results ∧
      (s.latch b r state measured).references = s.references ∧
      (s.latch b r state measured).saved = s.saved := by
  unfold Node.latch
  by_cases hstate : state = .MISMATCH
  · rw [if_pos hstate]
    by_cases hlatched : s.mismatching r = true
    · rw [if_pos hlatched]
      exact ⟨rfl, rfl, rfl⟩
    · rw [if_neg hlatched]
      exact ⟨rfl, rfl, rfl⟩
  · rw [if_neg hstate]
    exact ⟨rfl, rfl, rfl⟩

/-- A sweep of a region that is present records its measurement. -/
theorem sweepOne_results (s : Node) (flash : Flash b) {r : Region} (h : b.present r = true) :
    (s.sweepOne b flash r).results r =
      ⟨judge (s.references r) (measure b r (flash r)), (measure b r (flash r)).bytes,
        (measure b r (flash r)).crc, s.references r⟩ := by
  unfold Node.sweepOne
  rw [if_pos h, (latch_frame ..).1]
  exact Function.update_self ..

/-- What a sweep records is what it found. -/
theorem sweepOne_state (s : Node) (flash : Flash b) (r : Region) :
    ((s.sweepOne b flash r).results r).state = s.found b flash r := by
  by_cases h : b.present r = true
  · rw [sweepOne_results s flash h, Node.found, if_pos h]
  · unfold Node.sweepOne Node.found
    rw [if_neg h, if_neg h]
    show (Function.update s.results r _ r).state = .ABSENT
    rw [Function.update_self]

/-- A sweep leaves the references, and what is saved of them, alone. -/
theorem sweepOne_references (s : Node) (flash : Flash b) (r : Region) :
    (s.sweepOne b flash r).references = s.references ∧ (s.sweepOne b flash r).saved = s.saved := by
  unfold Node.sweepOne
  by_cases h : b.present r = true
  · rw [if_pos h]
    exact (latch_frame ..).2
  · rw [if_neg h]
    exact ⟨rfl, rfl⟩

/-- A state that is neither empty nor unreadable was measured. -/
theorem judge_measured {reference : UInt32} {m : Measurement} :
    judge reference m ≠ .EMPTY ∧ judge reference m ≠ .UNREADABLE ↔ m.result = none := by
  unfold judge
  split
  · rename_i h
    simp [h]
  · rename_i e _ h
    simp [h]
  · rename_i h
    refine iff_of_true ?_ h
    split_ifs
    · exact ⟨by decide, by decide⟩
    · exact ⟨by decide, by decide⟩
    · exact ⟨by decide, by decide⟩

/-- Without a reference nothing matches. -/
theorem judge_zero (m : Measurement) : judge 0 m ≠ .OK := by
  unfold judge
  split
  · decide
  · decide
  · rw [if_pos rfl]
    decide

/-- The region is there, and its image was read. -/
def Measures (b : Build) (flash : Flash b) (r : Region) : Prop :=
  b.present r = true ∧ (measure b r (flash r)).result = none

/-- **What learning does.**  A region that cannot be measured is not learned; one that can is, even
if the reference cannot be saved. -/
theorem learn_cases (s : Node) (flash : Flash b) (r : Region) (persist : Option Errno) :
    (¬ Measures b flash r ∧ ∃ e, s.learn b flash r persist = (some e, false, s.sweepOne b flash r)) ∨
      (Measures b flash r ∧ b.persistence = true ∧ persist ≠ none ∧
        s.learn b flash r persist = (some Errno.EIO, true, (s.sweepOne b flash r).adopt r)) ∨
      (Measures b flash r ∧ (b.persistence = true → persist = none) ∧
        s.learn b flash r persist = (none, true, { (s.sweepOne b flash r).adopt r with
          saved := if b.persistence then ((s.sweepOne b flash r).adopt r).references
            else s.saved })) := by
  have hsaved : ((s.sweepOne b flash r).adopt r).saved = s.saved := (sweepOne_references s flash r).2
  by_cases hpresent : b.present r = true
  swap
  · exact .inl ⟨fun h => hpresent h.1, .ENODEV, if_pos (by simpa using hpresent)⟩
  have hstate := sweepOne_results s flash hpresent
  unfold Node.learn
  rw [if_neg (by simpa using hpresent), hstate]
  by_cases hempty : judge (s.references r) (measure b r (flash r)) = .EMPTY
  · refine .inl ⟨fun h => (judge_measured.2 h.2).1 hempty, .ENOENT, if_pos hempty⟩
  by_cases hunread : judge (s.references r) (measure b r (flash r)) = .UNREADABLE
  · refine .inl ⟨fun h => (judge_measured.2 h.2).2 hunread, Errno.EIO, ?_⟩
    dsimp only
    rw [if_neg hempty, if_pos hunread]
  have hmeasures : Measures b flash r := ⟨hpresent, judge_measured.1 ⟨hempty, hunread⟩⟩
  dsimp only
  rw [if_neg hempty, if_neg hunread]
  by_cases hpersistence : b.persistence = true
  swap
  · refine .inr (.inr ⟨hmeasures, fun h => absurd h hpersistence, ?_⟩)
    rw [if_neg hpersistence, if_neg hpersistence, ← hsaved]
  rw [if_pos hpersistence]
  by_cases hpersist : persist = none
  · refine .inr (.inr ⟨hmeasures, fun _ => hpersist, ?_⟩)
    rw [if_pos hpersist, if_pos hpersistence]
  · refine .inr (.inl ⟨hmeasures, hpersistence, hpersist, ?_⟩)
    rw [if_neg hpersist]

end KfswServices.Scrub
