/-
# The log history

`src/log_history.c`.  A ring of records in RAM, each in the slot of its sequence, and a header
with the next sequence and a checksum.  The ring is kept over a reset; once per boot the header
decides whether it belongs to the image (`restoreOnce`).

The header is the bytes a little-endian target has in memory, with the padding in front of the
64-bit counter.  `cbvprintf_package` is outside the repository: what it returns and leaves in the
record is part of the call.
-/

import KfswServices.Basic
import KfswServices.Library.LittleEndian
import Mathlib.Logic.Function.Basic

namespace KfswServices.Log

open Library

/-- `KFSW_LOG_ENCODED_SIZE`. -/
abbrev encodedSize : ℕ := 128

/-- `KFSW_LOG_HISTORY_MAX_READ`. -/
abbrev maxRead : ℕ := 32

/-- `CONFIG_KFSW_LOG_HISTORY_DEPTH` in its Kconfig range, `image_identity()`, and what the compiler
puts into the padding of a header it assigns. -/
structure Config where
  depth : ℕ
  image : UInt32
  padding : UInt32
  depth_ge : 1 ≤ depth
  depth_le : depth ≤ 128

/-- `struct kfsw_log_encoded`; `data` is the whole array. -/
structure Encoded where
  sequence : UInt64
  uptimeMs : UInt64
  module : UInt8
  severity : UInt8
  truncated : Bool
  package : Bool
  size : UInt16
  data : List UInt8
  deriving DecidableEq, Repr

/-- `struct kfsw_log_retained_header`. -/
structure Header where
  magic : UInt32
  version : UInt32
  depth : UInt32
  recordSize : UInt32
  image : UInt32
  padding : UInt32
  nextSequence : UInt64
  crc : UInt32
  deriving DecidableEq, Repr

/-- `KFSW_LOG_RETAINED_MAGIC`. -/
abbrev retainedMagic : UInt32 := 0x4B464C48

/-- `KFSW_LOG_RETAINED_VERSION`. -/
abbrev retainedVersion : UInt32 := 2

/-- `sizeof(struct kfsw_log_encoded)`. -/
abbrev encodedStructSize : UInt32 := 152

/-- The bytes in front of the counter. -/
def Header.front (h : Header) : List UInt8 :=
  putLe32 h.magic ++ (putLe32 h.version ++ (putLe32 h.depth ++ (putLe32 h.recordSize ++
    (putLe32 h.image ++ putLe32 h.padding))))

/-- `header_crc`. -/
def Header.checksum (h : Header) : UInt32 := crc32 (h.front ++ putLe64 h.nextSequence)

/-- `publish_header`. -/
def Header.publish (h : Header) : Header := { h with crc := h.checksum }

/-- The checks on a header that do not concern the counter. -/
def Header.Owned (cfg : Config) (h : Header) : Prop :=
  h.magic = retainedMagic ∧ h.version = retainedVersion ∧ h.depth = UInt32.ofNat cfg.depth ∧
    h.recordSize = encodedStructSize ∧ h.image = cfg.image ∧ h.crc = h.checksum

instance (cfg : Config) (h : Header) : Decidable (h.Owned cfg) :=
  inferInstanceAs (Decidable (_ ∧ _ ∧ _ ∧ _ ∧ _ ∧ _))

/-- The checks of `restore_once`. -/
def Header.Valid (cfg : Config) (h : Header) : Prop := h.Owned cfg ∧ 0 < h.nextSequence

instance (cfg : Config) (h : Header) : Decidable (h.Valid cfg) :=
  inferInstanceAs (Decidable (_ ∧ _))

/-- The header of an empty ring, before it is published. -/
def Header.start (cfg : Config) : Header :=
  ⟨retainedMagic, retainedVersion, UInt32.ofNat cfg.depth, encodedStructSize, cfg.image,
    cfg.padding, 1, 0⟩

/-- The statics of `log_history.c`. -/
structure Ring where
  records : ℕ → Encoded
  header : Header
  restored : Bool

/-- After a reset: the ring is what was in RAM. -/
def Ring.boot (records : ℕ → Encoded) (header : Header) : Ring := ⟨records, header, false⟩

/-- `restore_once`. -/
def Ring.restoreOnce (cfg : Config) (s : Ring) : Ring :=
  if s.restored then s
  else
    { s with
      restored := true
      header := if s.header.Valid cfg then s.header else (Header.start cfg).publish }

/-- The arguments of an append, the uptime it reads, and what `cbvprintf_package` returns and
leaves in the array; `text` is the message up to its NUL. -/
structure Call where
  module : UInt8
  severity : UInt8
  truncated : Bool
  text : List UInt8
  uptimeMs : UInt64
  packaged : ℤ
  packagedData : List UInt8

/-- The record an append makes. -/
def Call.record (c : Call) (sequence : UInt64) : Encoded :=
  if 0 < c.packaged then
    ⟨sequence, c.uptimeMs, c.module, c.severity, c.truncated, true,
      UInt16.ofNat c.packaged.toNat, c.packagedData⟩
  else
    let length := if c.text.length < encodedSize then c.text.length else encodedSize - 1
    ⟨sequence, c.uptimeMs, c.module, c.severity, c.truncated || decide (encodedSize ≤ c.text.length),
      false, UInt16.ofNat length, c.text.take length ++ c.packagedData.drop length⟩

/-- The index of a slot: `(sequence - 1U) % ARRAY_SIZE(records)`. -/
def Config.slotOf (cfg : Config) (sequence : UInt64) : ℕ := (sequence - 1).toNat % cfg.depth

/-- `kfsw_log_history_append`. -/
def Ring.append (cfg : Config) (s : Ring) (c : Call) : Ring :=
  let s := s.restoreOnce cfg
  { s with
    records := Function.update s.records (cfg.slotOf s.header.nextSequence)
      (c.record s.header.nextSequence)
    header := { s.header with nextSequence := s.header.nextSequence + 1 }.publish }

/-- Appends, one after the other. -/
def Ring.appends (cfg : Config) (s : Ring) (calls : List Call) : Ring :=
  calls.foldl (.append cfg) s

/-- `struct kfsw_log_history_window`. -/
structure Window where
  first : UInt64
  «end» : UInt64
  overwritten : UInt64
  deriving DecidableEq, Repr

/-- `held` of `kfsw_log_history_window`. -/
def Header.held (cfg : Config) (h : Header) : UInt64 :=
  min (h.nextSequence - 1) (UInt64.ofNat cfg.depth)

/-- `kfsw_log_history_window`, as it answers after `restore_once`. -/
def Ring.window (cfg : Config) (s : Ring) (count : UInt16) : Except Errno Window :=
  if count = 0 ∨ count.toNat > maxRead then .error .EINVAL
  else
    let h := (s.restoreOnce cfg).header
    .ok ⟨h.nextSequence - min (h.held cfg) count.toUInt64, h.nextSequence,
      h.nextSequence - 1 - h.held cfg⟩

/-- `kfsw_log_history_get_encoded`, as it answers after `restore_once`. -/
def Ring.getEncoded (cfg : Config) (s : Ring) (sequence : UInt64) : Except Errno Encoded :=
  let s := s.restoreOnce cfg
  if sequence = 0 ∨ s.header.nextSequence ≤ sequence ∨
      (s.header.nextSequence - sequence).toNat > cfg.depth then .error .ENOENT
  else
    let held := s.records (cfg.slotOf sequence)
    if held.sequence ≠ sequence ∨ held.size.toNat > encodedSize then .error .ENOENT
    else .ok held

/-! ### What a ring answers -/

@[simp] theorem restoreOnce_records (cfg : Config) (s : Ring) :
    (s.restoreOnce cfg).records = s.records := by
  unfold Ring.restoreOnce
  split_ifs <;> rfl

/-- The sequence is among those the header counts as held. -/
def Header.Holds (cfg : Config) (h : Header) (q : UInt64) : Prop :=
  0 < q.toNat ∧ q.toNat < h.nextSequence.toNat ∧ h.nextSequence.toNat - q.toNat ≤ cfg.depth

/-- **What is read by its sequence**: a record in its slot that the header counts as held. -/
theorem getEncoded_eq_ok {cfg : Config} {s : Ring} {q : UInt64} {r : Encoded} :
    s.getEncoded cfg q = .ok r ↔ (s.restoreOnce cfg).header.Holds cfg q ∧
      s.records (cfg.slotOf q) = r ∧ r.sequence = q ∧ r.size.toNat ≤ encodedSize := by
  have hzero : q = 0 ↔ q.toNat = 0 := UInt64.toNat_inj.symm
  have hheld : (q = 0 ∨ (s.restoreOnce cfg).header.nextSequence ≤ q ∨
      ((s.restoreOnce cfg).header.nextSequence - q).toNat > cfg.depth) ↔
      ¬ (s.restoreOnce cfg).header.Holds cfg q := by
    unfold Header.Holds
    rw [hzero, UInt64.le_iff_toNat_le]
    by_cases hle : (s.restoreOnce cfg).header.nextSequence.toNat ≤ q.toNat
    · simp only [hle, true_or, or_true, true_iff]
      omega
    · rw [UInt64.toNat_sub_of_le _ _ (UInt64.le_iff_toNat_le.2 (by omega))]
      omega
  unfold Ring.getEncoded
  simp only [restoreOnce_records]
  constructor
  · intro h
    split_ifs at h with hout hbad
    rw [hheld, not_not] at hout
    rw [not_or, not_not, not_lt] at hbad
    obtain rfl := Except.ok.inj h
    exact ⟨hout, rfl, hbad⟩
  · rintro ⟨hholds, rfl, hseq, hsize⟩
    rw [if_neg (mt hheld.1 (not_not.2 hholds)), if_neg (by rw [hseq]; simpa using hsize)]

theorem Header.held_toNat (cfg : Config) (h : Header) :
    (h.held cfg).toNat = min (h.nextSequence - 1).toNat cfg.depth := by
  have hdepth := cfg.depth_le
  have hd : (UInt64.ofNat cfg.depth).toNat = cfg.depth := UInt64.toNat_ofNat_of_lt' (by
    simp only [UInt64.size]
    omega)
  show (if h.nextSequence - 1 ≤ UInt64.ofNat cfg.depth then h.nextSequence - 1
    else UInt64.ofNat cfg.depth).toNat = _
  split_ifs with hle <;> rw [UInt64.le_iff_toNat_le, hd] at hle <;> omega

/-- What the header counts as held is in every window it announces. -/
theorem window_of_holds {cfg : Config} {s : Ring} {q : UInt64}
    (h : (s.restoreOnce cfg).header.Holds cfg q) {count : UInt16} (hpos : count ≠ 0)
    (hle : count.toNat ≤ maxRead) :
    ∃ w, s.window cfg count = .ok w ∧ w.overwritten < q ∧ q < w.end := by
  unfold Ring.window
  rw [if_neg (by rw [not_or, not_lt]; exact ⟨hpos, hle⟩)]
  refine ⟨_, rfl, ?_, UInt64.lt_iff_toNat_lt.2 h.2.1⟩
  obtain ⟨h1, h2, h3⟩ := h
  have hone : (1 : UInt64) ≤ (s.restoreOnce cfg).header.nextSequence :=
    UInt64.le_iff_toNat_le.2 (by rw [UInt64.toNat_one]; omega)
  have hheld := (s.restoreOnce cfg).header.held_toNat cfg
  have hsub : ((s.restoreOnce cfg).header.nextSequence - 1).toNat =
      (s.restoreOnce cfg).header.nextSequence.toNat - 1 := by
    rw [UInt64.toNat_sub_of_le _ _ hone]
    rfl
  rw [UInt64.lt_iff_toNat_lt, UInt64.toNat_sub_of_le, hsub]
  · omega
  · rw [UInt64.le_iff_toNat_le]
    omega

end KfswServices.Log
