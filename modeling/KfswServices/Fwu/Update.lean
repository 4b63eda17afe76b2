/-
# The firmware update service

`src/fwu/fwu.c`, in a build that binds a target partition.  An image is received
into the secondary slot in order, checked, flushed and offered to the bootloader.

The flash map, `stream_flash` and MCUboot are outside the repository.  Each
operation is given the answers of the calls it may make (`Env`): what a call
returns, and what it makes of the slot.  Any answer is allowed, except that a
call keeps the promises of `Env.Lawful`: a flush that succeeds has put the bytes
the stream accepted into the slot at the stream's offset, and the bootloader
writes only to the trailer, the last sector of the partition.

The calls themselves are recorded, with the state each was made in (`Effect`).
-/

import KfswServices.Basic
import KfswServices.Library.Crc32

namespace KfswServices.Fwu

open Library

/-- `enum kfsw_fwu_state`. -/
inductive State
  | IDLE
  | RECEIVING
  | READY
  | FAILED
  | VERIFIED
  deriving DecidableEq, Repr

/-- `struct kfsw_fwu_status`, without `target_bound`, which is constant. -/
structure Status where
  totalSize : ℕ
  received : ℕ
  expectedCrc32 : UInt32
  actualCrc32 : UInt32
  started : UInt32
  completed : UInt32
  failed : UInt32
  state : State
  swapScheduled : Bool
  deriving DecidableEq

/-- The swap types of MCUboot. -/
inductive SwapType
  | NONE
  | TEST
  | PERM
  | REVERT
  | FAIL
  deriving DecidableEq, Repr

/-- What the build and the device fix: `fwu_sector_size()`, 0 when the query fails,
`KFSW_FWU_PARTITION_SIZE`, `CONFIG_KFSW_FWU_SLOT_OFFSET_SECTORS` and
`CONFIG_KFSW_FWU_MCUBOOT`.  A partition is made of whole sectors, and the sectors
skipped at its start have an address of 32 bits. -/
structure Config where
  sector : ℕ
  partition : ℕ
  offsetSectors : ℕ
  mcuboot : Bool
  sector_lt : sector < 2 ^ 31
  partition_lt : partition < 2 ^ 32
  sector_dvd : sector ∣ partition
  offset_lt : offsetSectors * sector < 2 ^ 32

/-- `kfsw_fwu_slot_write_offset`. -/
def slotWriteOffset (cfg : Config) : ℕ :=
  if cfg.offsetSectors = 0 then 0 else cfg.sector * cfg.offsetSectors % 2 ^ 32

/-- `kfsw_fwu_max_image_size`, in `uint32_t` arithmetic. -/
def maxImageSize (cfg : Config) : ℕ :=
  let offset := slotWriteOffset cfg
  let trailer := cfg.sector
  if cfg.sector = 0 then 0
  else if (offset + trailer) % 2 ^ 32 ≥ cfg.partition then 0
  else (cfg.partition + 2 ^ 33 - offset - trailer) % 2 ^ 32

/-- `struct stream_flash_ctx`: the offset of the stream in the partition, and the
bytes it has accepted since it was initialised. -/
structure Stream where
  base : ℕ
  accepted : List UInt8

/-- The statics of `fwu.c`, the secondary slot, and what `mcuboot_swap_type()`
reports. -/
structure Service where
  status : Status
  readers : ℕ
  stream : Stream
  slot : ℕ → UInt8
  swapType : SwapType

/-- After a reset, over a slot that holds anything. -/
def Service.boot (slot : ℕ → UInt8) (swapType : SwapType) : Service :=
  ⟨⟨0, 0, 0, 0, 0, 0, 0, .IDLE, false⟩, 0, ⟨0, []⟩, slot, swapType⟩

/-- What a call into the flash returns, and what it makes of the slot. -/
structure Answer where
  result : Option Errno
  slot : (ℕ → UInt8) → ℕ → UInt8

/-- The answers one operation may get. -/
structure Env where
  /-- `flash_area_open` and `flash_area_flatten` of `fwu_erase_slot`. -/
  eraseOpen : Option Errno
  flatten : Answer
  /-- `flash_area_open` and `stream_flash_init` of `kfsw_fwu_begin`. -/
  areaOpen : Option Errno
  streamInit : Option Errno
  /-- `stream_flash_buffered_write`, with a span and as a flush. -/
  streamWrite : Answer
  flush : Answer
  /-- `boot_request_upgrade`, and the swap type after it. -/
  upgrade : Answer
  swapAfter : SwapType

/-- A call that changes the slot or the boot record. -/
inductive EffectKind
  | erase
  | write
  | upgrade
  deriving DecidableEq

/-- A call, and the state it was made in. -/
structure Effect where
  kind : EffectKind
  before : Service

/-- What an operation leaves: the service, the return value, the calls it made. -/
structure Outcome where
  service : Service
  result : Option Errno
  effects : List Effect

/-- An operation that returns at once. -/
def Service.refuse (s : Service) (e : Errno) : Outcome := ⟨s, some e, []⟩

/-- `secondary_needed_for_revert`. -/
def Service.neededForRevert (cfg : Config) (s : Service) : Bool :=
  cfg.mcuboot && s.swapType = .REVERT

/-- The transfer failed. -/
def Service.fail (s : Service) : Service :=
  { s with status := { s.status with state := .FAILED, failed := s.status.failed + 1 } }

/-- `kfsw_fwu_secondary_acquire`. -/
def Service.acquire (s : Service) : Outcome :=
  if s.status.state = .RECEIVING ∨ s.status.state = .FAILED then s.refuse .EBUSY
  else ⟨{ s with readers := (s.readers + 1) % 2 ^ 32 }, none, []⟩

/-- `kfsw_fwu_secondary_release`; its assertion is that there is a reader. -/
def Service.release (s : Service) : Outcome :=
  ⟨{ s with readers := if s.readers = 0 then 2 ^ 32 - 1 else s.readers - 1 }, none, []⟩

/-- `fwu_erase_slot`. -/
def Service.eraseSlot (env : Env) (s : Service) : Outcome :=
  match env.eraseOpen with
  | some e => s.refuse e
  | none => ⟨{ s with slot := env.flatten.slot s.slot }, env.flatten.result, [⟨.erase, s⟩]⟩

/-- `kfsw_fwu_begin`. -/
def Service.begin (cfg : Config) (env : Env) (s : Service) (total : ℕ) (crc : UInt32) : Outcome :=
  if total = 0 then s.refuse .EINVAL
  else if total > maxImageSize cfg then s.refuse .EFBIG
  else if s.status.state = .RECEIVING ∨ s.readers ≠ 0 ∨ s.neededForRevert cfg then s.refuse .EBUSY
  else
    let erased := s.eraseSlot env
    match erased.result with
    | some e => ⟨erased.service.fail, some e, erased.effects⟩
    | none =>
      match env.areaOpen with
      | some e => ⟨erased.service.fail, some e, erased.effects⟩
      | none =>
        match env.streamInit with
        | some e => ⟨erased.service.fail, some e, erased.effects⟩
        | none =>
          let status := { s.status with
            totalSize := total
            expectedCrc32 := crc
            received := 0
            actualCrc32 := 0
            swapScheduled := false
            state := .RECEIVING
            started := s.status.started + 1 }
          let stream := Stream.mk (slotWriteOffset cfg) []
          ⟨{ erased.service with status := status, stream := stream }, none, erased.effects⟩

/-- `kfsw_fwu_write`; the data may be NULL. -/
def Service.write (env : Env) (s : Service) (offset : ℕ) (data : Option (List UInt8)) : Outcome :=
  match data with
  | none => s.refuse .EINVAL
  | some data =>
    if data.length = 0 then s.refuse .EINVAL
    else if s.status.state ≠ .RECEIVING then s.refuse .EINVAL
    else if offset ≠ s.status.received then s.refuse .ESPIPE
    else if offset + data.length > s.status.totalSize then s.refuse .EFBIG
    else
      match env.streamWrite.result with
      | some e => ⟨{ s.fail with slot := env.streamWrite.slot s.slot }, some e, [⟨.write, s⟩]⟩
      | none =>
        let status := { s.status with
          actualCrc32 := crc32Update s.status.actualCrc32 data
          received := s.status.received + data.length }
        let stream := Stream.mk s.stream.base (s.stream.accepted ++ data)
        ⟨{ s with status := status, stream := stream, slot := env.streamWrite.slot s.slot }, none,
          [⟨.write, s⟩]⟩

/-- `fwu_verify_locked`. -/
def Service.verify (env : Env) (s : Service) : Outcome :=
  if s.status.state = .VERIFIED then ⟨s, none, []⟩
  else if s.status.state ≠ .RECEIVING then s.refuse .EINVAL
  else if s.status.received ≠ s.status.totalSize then s.refuse .EAGAIN
  else if s.status.actualCrc32 ≠ s.status.expectedCrc32 then
    let erased := s.eraseSlot env
    ⟨erased.service.fail, some .EILSEQ, erased.effects⟩
  else
    match env.flush.result with
    | some e => ⟨{ s.fail with slot := env.flush.slot s.slot }, some e, [⟨.write, s⟩]⟩
    | none =>
      let status := { s.status with state := .VERIFIED }
      ⟨{ s with status := status, slot := env.flush.slot s.slot }, none, [⟨.write, s⟩]⟩

/-- The end of `kfsw_fwu_finish`. -/
def Service.ready (s : Service) (swapScheduled : Bool) : Service :=
  { s with status := { s.status with
      swapScheduled := swapScheduled
      state := .READY
      completed := s.status.completed + 1 } }

/-- After the bootloader was asked. -/
def Service.asked (env : Env) (s : Service) : Service :=
  { s with slot := env.upgrade.slot s.slot, swapType := env.swapAfter }

/-- `kfsw_fwu_finish`. -/
def Service.finish (cfg : Config) (env : Env) (s : Service) : Outcome :=
  if s.readers ≠ 0 then s.refuse .EBUSY
  else
    let verified := s.verify env
    match verified.result with
    | some e => ⟨verified.service, some e, verified.effects⟩
    | none =>
      if !cfg.mcuboot then
        ⟨verified.service.ready verified.service.status.swapScheduled, none, verified.effects⟩
      else
        let asked := verified.service.asked env
        let effects := verified.effects ++ [⟨.upgrade, verified.service⟩]
        match env.upgrade.result with
        | some e => ⟨asked.fail, some e, effects⟩
        | none =>
          if env.swapAfter ≠ .TEST then ⟨asked.fail, some Errno.EIO, effects⟩
          else ⟨asked.ready true, none, effects⟩

/-- The failures an abort counts: that of a transfer it interrupts. -/
def Service.aborted (s : Service) : UInt32 :=
  if s.status.state = .RECEIVING then s.status.failed + 1 else s.status.failed

/-- `kfsw_fwu_abort`. -/
def Service.abort (cfg : Config) (env : Env) (s : Service) : Outcome :=
  if s.readers ≠ 0 ∨ s.neededForRevert cfg then s.refuse .EBUSY
  else
    let counted := { s with status := { s.status with failed := s.aborted } }
    let erased := counted.eraseSlot env
    match erased.result with
    | some e =>
      let status := { erased.service.status with state := .FAILED }
      ⟨{ erased.service with status := status }, some e, erased.effects⟩
    | none =>
      let status := { erased.service.status with
        totalSize := 0
        received := 0
        expectedCrc32 := 0
        actualCrc32 := 0
        swapScheduled := false
        state := .IDLE }
      ⟨{ erased.service with status := status }, none, erased.effects⟩

/-- The operations of the service. -/
inductive Call
  | begin (total : ℕ) (crc : UInt32)
  | write (offset : ℕ) (data : Option (List UInt8))
  | verify
  | finish
  | abort
  | acquire
  | release
  deriving DecidableEq

/-- One operation, under `fwu_lock`. -/
def Service.exec (cfg : Config) (env : Env) (s : Service) : Call → Outcome
  | .begin total crc => s.begin cfg env total crc
  | .write offset data => s.write env offset data
  | .verify => s.verify env
  | .finish => s.finish cfg env
  | .abort => s.abort cfg env
  | .acquire => s.acquire
  | .release => s.release

/-! ### What each operation can do -/

/-- An erase that is not reached, or is made, and may leave anything in the slot. -/
theorem Service.eraseSlot_cases (env : Env) (s : Service) :
    (∃ e, s.eraseSlot env = ⟨s, some e, []⟩) ∨
      s.eraseSlot env =
        ⟨{ s with slot := env.flatten.slot s.slot }, env.flatten.result, [⟨.erase, s⟩]⟩ := by
  unfold Service.eraseSlot
  cases env.eraseOpen with
  | none => exact .inr rfl
  | some e => exact .inl ⟨e, rfl⟩

/-- The slot is free to be erased for a new transfer. -/
def Service.Free (cfg : Config) (s : Service) : Prop :=
  s.readers = 0 ∧ s.neededForRevert cfg = false

/-- **What a begin does**: it refuses; it fails with the slot perhaps erased; or it
starts a transfer over an erased slot. -/
theorem Service.begin_cases (cfg : Config) (env : Env) (s : Service) (total : ℕ) (crc : UInt32) :
    (∃ e, s.begin cfg env total crc = s.refuse e) ∨
    (s.Free cfg ∧ s.status.state ≠ .RECEIVING ∧ ∃ e slot effects,
      s.begin cfg env total crc = ⟨{ s.fail with slot := slot }, some e, effects⟩ ∧
      (effects = [] ∨ effects = [⟨.erase, s⟩])) ∨
    (s.Free cfg ∧ s.status.state ≠ .RECEIVING ∧ 0 < total ∧ total ≤ maxImageSize cfg ∧
      s.begin cfg env total crc =
        ⟨{ s with
            slot := env.flatten.slot s.slot
            stream := ⟨slotWriteOffset cfg, []⟩
            status := { s.status with
              totalSize := total
              expectedCrc32 := crc
              received := 0
              actualCrc32 := 0
              swapScheduled := false
              state := .RECEIVING
              started := s.status.started + 1 } }, none, [⟨.erase, s⟩]⟩) := by
  unfold Service.begin
  split_ifs with hzero hbig hbusy
  · exact .inl ⟨_, rfl⟩
  · exact .inl ⟨_, rfl⟩
  · exact .inl ⟨_, rfl⟩
  · simp only [not_or, Bool.not_eq_true, Decidable.not_not] at hbusy
    obtain ⟨hrecv, hreaders, hrevert⟩ := hbusy
    right
    rcases s.eraseSlot_cases env with ⟨e, he⟩ | he
    · exact .inl ⟨⟨hreaders, hrevert⟩, hrecv, e, s.slot, [], by simp only [he]; rfl, .inl rfl⟩
    · simp only [he]
      cases env.flatten.result with
      | some e => exact .inl ⟨⟨hreaders, hrevert⟩, hrecv, e, _, _, rfl, .inr rfl⟩
      | none =>
        cases env.areaOpen with
        | some e => exact .inl ⟨⟨hreaders, hrevert⟩, hrecv, e, _, _, rfl, .inr rfl⟩
        | none =>
          cases env.streamInit with
          | some e => exact .inl ⟨⟨hreaders, hrevert⟩, hrecv, e, _, _, rfl, .inr rfl⟩
          | none =>
            exact .inr ⟨⟨hreaders, hrevert⟩, hrecv, Nat.pos_of_ne_zero hzero, not_lt.1 hbig, rfl⟩

/-- **What a write does**: it refuses; the stream fails; or the span is appended. -/
theorem Service.write_cases (env : Env) (s : Service) (offset : ℕ) (data : Option (List UInt8)) :
    (∃ e, s.write env offset data = s.refuse e) ∨
    (s.status.state = .RECEIVING ∧ ∃ e,
      s.write env offset data =
        ⟨{ s.fail with slot := env.streamWrite.slot s.slot }, some e, [⟨.write, s⟩]⟩) ∨
    (s.status.state = .RECEIVING ∧ ∃ span, data = some span ∧ span.length ≠ 0 ∧
      offset = s.status.received ∧ s.status.received + span.length ≤ s.status.totalSize ∧
      s.write env offset data =
        ⟨{ s with
            slot := env.streamWrite.slot s.slot
            stream := ⟨s.stream.base, s.stream.accepted ++ span⟩
            status := { s.status with
              actualCrc32 := crc32Update s.status.actualCrc32 span
              received := s.status.received + span.length } }, none, [⟨.write, s⟩]⟩) := by
  cases data with
  | none => exact .inl ⟨_, rfl⟩
  | some span =>
    unfold Service.write
    simp only
    split_ifs with hempty hstate hoffset hbig
    · exact .inl ⟨_, rfl⟩
    · exact .inl ⟨_, rfl⟩
    · exact .inl ⟨_, rfl⟩
    · exact .inl ⟨_, rfl⟩
    · simp only [ne_eq, Decidable.not_not] at hstate hoffset
      subst hoffset
      right
      cases env.streamWrite.result with
      | some e => exact .inl ⟨hstate, e, rfl⟩
      | none => exact .inr ⟨hstate, span, rfl, hempty, rfl, not_lt.1 hbig, rfl⟩

/-- **What a verification does**: nothing, when the transfer is verified; it
refuses; it fails, with the slot erased or written; or the transfer becomes
VERIFIED. -/
theorem Service.verify_cases (env : Env) (s : Service) :
    (s.status.state = .VERIFIED ∧ s.verify env = ⟨s, none, []⟩) ∨
    (s.status.state ≠ .VERIFIED ∧ ∃ e, s.verify env = s.refuse e) ∨
    (s.status.state = .RECEIVING ∧ ∃ e slot effects,
      s.verify env = ⟨{ s.fail with slot := slot }, some e, effects⟩ ∧
      ∀ fx ∈ effects, fx.before = s ∧ fx.kind ≠ .upgrade) ∨
    (s.status.state = .RECEIVING ∧ s.status.received = s.status.totalSize ∧
      s.status.actualCrc32 = s.status.expectedCrc32 ∧ env.flush.result = none ∧
      s.verify env =
        ⟨{ s with
            slot := env.flush.slot s.slot
            status := { s.status with state := .VERIFIED } }, none, [⟨.write, s⟩]⟩) := by
  unfold Service.verify
  split_ifs with hver hstate hlen hcrc
  · exact .inl ⟨hver, rfl⟩
  · exact .inr (.inl ⟨hver, _, rfl⟩)
  · exact .inr (.inl ⟨hver, _, rfl⟩)
  · simp only [ne_eq, Decidable.not_not] at hstate
    refine .inr (.inr (.inl ⟨hstate, ?_⟩))
    rcases s.eraseSlot_cases env with ⟨e, he⟩ | he
    · exact ⟨_, s.slot, [], by simp only [he]; rfl, by simp⟩
    · exact ⟨_, _, [⟨.erase, s⟩], by simp only [he]; rfl, by simp⟩
  · simp only [ne_eq, Decidable.not_not] at hstate hlen hcrc
    right; right
    cases hf : env.flush.result with
    | some e => exact .inl ⟨hstate, e, _, [⟨.write, s⟩], rfl, by simp⟩
    | none => exact .inr ⟨hstate, hlen, hcrc, rfl, rfl⟩

/-- **What a finish does**: it refuses; its verification fails; or from the verified
service it goes to READY, at once or through the bootloader, which may fail it. -/
theorem Service.finish_cases (cfg : Config) (env : Env) (s : Service) :
    (∃ e, s.finish cfg env = s.refuse e) ∨
    (s.readers = 0 ∧ ∃ e v effects, s.verify env = ⟨v, some e, effects⟩ ∧
      s.finish cfg env = ⟨v, some e, effects⟩) ∨
    (s.readers = 0 ∧ ∃ v effects, s.verify env = ⟨v, none, effects⟩ ∧
      ((cfg.mcuboot = false ∧ s.finish cfg env = ⟨v.ready v.status.swapScheduled, none, effects⟩) ∨
      (cfg.mcuboot = true ∧ ∃ e, s.finish cfg env =
        ⟨(v.asked env).fail, some e, effects ++ [⟨.upgrade, v⟩]⟩) ∨
      (cfg.mcuboot = true ∧ env.swapAfter = .TEST ∧ s.finish cfg env =
        ⟨(v.asked env).ready true, none, effects ++ [⟨.upgrade, v⟩]⟩))) := by
  unfold Service.finish
  by_cases hreaders : s.readers = 0
  · rw [if_neg (not_not.2 hreaders)]
    right
    obtain ⟨v, result, effects⟩ := s.verify env
    cases result with
    | some e => exact .inl ⟨hreaders, e, v, effects, rfl, rfl⟩
    | none =>
      refine .inr ⟨hreaders, v, effects, rfl, ?_⟩
      cases hm : cfg.mcuboot with
      | false => exact .inl ⟨rfl, rfl⟩
      | true =>
        right
        cases env.upgrade.result with
        | some e => exact .inl ⟨rfl, e, rfl⟩
        | none =>
          by_cases hswap : env.swapAfter = .TEST
          · exact .inr ⟨rfl, hswap, by simp [hswap]⟩
          · exact .inl ⟨rfl, Errno.EIO, by simp [hswap]⟩
  · rw [if_pos hreaders]
    exact .inl ⟨_, rfl⟩

/-- **What an abort does**: it refuses; its erase fails; or the service is idle over
an erased slot. -/
theorem Service.abort_cases (cfg : Config) (env : Env) (s : Service) :
    (∃ e, s.abort cfg env = s.refuse e) ∨
    (s.Free cfg ∧ ∃ e slot effects, s.abort cfg env =
        ⟨{ s with
            slot := slot
            status := { s.status with failed := s.aborted, state := .FAILED } }, some e, effects⟩ ∧
      ∀ fx ∈ effects, fx.kind = .erase ∧ fx.before.readers = s.readers ∧
        fx.before.swapType = s.swapType) ∨
    (s.Free cfg ∧ ∃ effects, s.abort cfg env =
        ⟨{ s with
            slot := env.flatten.slot s.slot
            status := { s.status with
              totalSize := 0
              received := 0
              expectedCrc32 := 0
              actualCrc32 := 0
              swapScheduled := false
              state := .IDLE
              failed := s.aborted } }, none, effects⟩ ∧
      ∀ fx ∈ effects, fx.kind = .erase ∧ fx.before.readers = s.readers ∧
        fx.before.swapType = s.swapType) := by
  unfold Service.abort
  by_cases hbusy : s.readers ≠ 0 ∨ s.neededForRevert cfg
  · rw [if_pos hbusy]
    exact .inl ⟨_, rfl⟩
  · rw [if_neg hbusy]
    simp only [not_or, Bool.not_eq_true, Decidable.not_not] at hbusy
    right
    set counted := { s with status := { s.status with failed := s.aborted } } with hcounted
    rcases counted.eraseSlot_cases env with ⟨e, he⟩ | he
    · exact .inl ⟨hbusy, e, s.slot, [], by simp only [he]; rfl, by simp⟩
    · simp only [he]
      cases env.flatten.result with
      | some e => exact .inl ⟨hbusy, e, _, [⟨.erase, counted⟩], rfl, by simp [hcounted]⟩
      | none => exact .inr ⟨hbusy, [⟨.erase, counted⟩], rfl, by simp [hcounted]⟩

/-- **What is relied on of the flash and the bootloader.**  After a flush that
succeeded, the slot holds the bytes the stream accepted, from the stream's offset on;
and a request for an upgrade writes to the last sector only. -/
structure Env.Lawful (cfg : Config) (env : Env) (s : Service) : Prop where
  flushed : env.flush.result = none → ∀ k (h : k < s.stream.accepted.length),
    env.flush.slot s.slot (s.stream.base + k) = s.stream.accepted[k]
  trailer : ∀ slot k, k < cfg.partition - cfg.sector ∨ cfg.partition ≤ k →
    env.upgrade.slot slot k = slot k

/-- The slot with bytes written into it. -/
def overlay (slot : ℕ → UInt8) (base : ℕ) (bytes : List UInt8) (k : ℕ) : UInt8 :=
  if base ≤ k then bytes.getD (k - base) (slot k) else slot k

/-- The answers of a flash without faults, and of a bootloader that schedules the
swap: an erase leaves ones, a flush writes what the stream has accepted. -/
def Service.faultless (s : Service) : Env where
  eraseOpen := none
  flatten := ⟨none, fun _ _ => 255⟩
  areaOpen := none
  streamInit := none
  streamWrite := ⟨none, fun slot => slot⟩
  flush := ⟨none, fun slot => overlay slot s.stream.base s.stream.accepted⟩
  upgrade := ⟨none, fun slot => slot⟩
  swapAfter := .TEST

theorem Service.faultless_lawful (cfg : Config) (s : Service) : s.faultless.Lawful cfg s := by
  refine ⟨fun _ k hk => ?_, fun _ _ _ => rfl⟩
  simp only [Service.faultless, overlay]
  rw [if_pos (Nat.le_add_right _ _), Nat.add_sub_cancel_left, List.getD_eq_getElem?_getD,
    List.getElem?_eq_getElem hk, Option.getD_some]

/-- Four sectors of 4 KiB, of which the image skips one. -/
def smallConfig : Config := ⟨4096, 16384, 1, true, by decide, by decide, by decide, by decide⟩

end KfswServices.Fwu
