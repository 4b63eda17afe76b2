/-
# What the slot holds when the bootloader is asked

Over every run of the update service, with any failures of the flash, of the stream
and of the bootloader: in VERIFIED and in READY the slot holds, from the write offset
on, exactly the spans accepted since the transfer began, and their CRC-32 is the one
that was declared.  The bootloader is asked for an upgrade in no other state.

The transfer is followed by one invariant, `UpdateInv`.  While it is RECEIVING, what
the stream has accepted is what the history accepted, and the running checksum is
its checksum; a flush turns that into bytes in the slot.  The trailer the
bootloader writes lies outside the image: `trailer_disjoint`.
-/

import KfswServices.Fwu.Update
import KfswServices.Library.Run

namespace KfswServices.Fwu

open Library

/-- An operation and what it came to, or a change of the bootloader's record. -/
inductive UpdateEvent
  | call (c : Call) (result : Option Errno) (effects : List Effect)
  | swapType (t : SwapType)

/-- One operation under `fwu_lock`, or a change of what the bootloader reports. -/
inductive UpdateStep (cfg : Config) : Service → UpdateEvent → Service → Prop
  | call {s : Service} (c : Call) (env : Env) (hlaw : env.Lawful cfg s) :
      UpdateStep cfg s (.call c (s.exec cfg env c).result (s.exec cfg env c).effects)
        (s.exec cfg env c).service
  | swapType {s : Service} (t : SwapType) :
      UpdateStep cfg s (.swapType t) { s with swapType := t }

/-- The image after one more event: a begin that succeeded starts it, a write that
succeeded appends its span. -/
def imageAfter (image : List UInt8) : UpdateEvent → List UInt8
  | .call (.begin _ _) none _ => []
  | .call (.write _ (some span)) none _ => image ++ span
  | _ => image

/-- The spans accepted since the last begin that succeeded, in order. -/
def acceptedImage (es : List UpdateEvent) : List UInt8 := es.foldl imageAfter []

theorem acceptedImage_snoc (es : List UpdateEvent) (e : UpdateEvent) :
    acceptedImage (es ++ [e]) = imageAfter (acceptedImage es) e := by
  simp [acceptedImage]

/-- The slot bytes `[offset, offset + size)`. -/
def Service.bytes (s : Service) (offset size : ℕ) : List UInt8 :=
  (List.range size).map fun k => s.slot (offset + k)

/-- The slot holds the image, and the image is the one that was declared. -/
structure Intact (cfg : Config) (image : List UInt8) (s : Service) : Prop where
  bytes : s.bytes (slotWriteOffset cfg) s.status.totalSize = image
  received : s.status.received = s.status.totalSize
  crc : crc32 image = s.status.expectedCrc32

/-! ### The trailer -/

theorem slotWriteOffset_eq (cfg : Config) : slotWriteOffset cfg = cfg.offsetSectors * cfg.sector := by
  unfold slotWriteOffset
  split_ifs with h
  · rw [h, Nat.zero_mul]
  · rw [Nat.mul_comm, Nat.mod_eq_of_lt cfg.offset_lt]

variable {cfg : Config}

/-- **No byte of an image lies in the last sector of the partition.** -/
theorem trailer_disjoint {total k : ℕ} (htotal : total ≤ maxImageSize cfg) (hk : k < total) :
    slotWriteOffset cfg + k < cfg.partition - cfg.sector ∨
      cfg.partition ≤ slotWriteOffset cfg + k := by
  have hp := cfg.partition_lt
  have hs := cfg.sector_lt
  have ho := cfg.offset_lt
  rw [← slotWriteOffset_eq] at ho
  simp only [maxImageSize] at htotal
  split_ifs at htotal with hzero hfull
  · omega
  · omega
  · by_cases hwrap : slotWriteOffset cfg + cfg.sector < 2 ^ 32
    · left
      omega
    · -- the sectors skipped and the trailer reach past 32 bits, the partition does not
      right
      obtain ⟨m, hm⟩ := cfg.sector_dvd
      have hlt : cfg.sector * m < cfg.sector * (cfg.offsetSectors + 1) := by
        rw [← hm, Nat.mul_succ, Nat.mul_comm cfg.sector, ← slotWriteOffset_eq]
        omega
      have hle : m ≤ cfg.offsetSectors := by
        have := Nat.lt_of_mul_lt_mul_left hlt
        omega
      calc cfg.partition = cfg.sector * m := hm
        _ ≤ cfg.sector * cfg.offsetSectors := Nat.mul_le_mul_left _ hle
        _ = slotWriteOffset cfg := by rw [slotWriteOffset_eq, Nat.mul_comm]
        _ ≤ slotWriteOffset cfg + k := Nat.le_add_right _ _

variable {env : Env} {s : Service}

/-- What the bootloader writes leaves the bytes of an image alone. -/
theorem bytes_asked {v : Service} (hlaw : env.Lawful cfg s) {total : ℕ}
    (htotal : total ≤ maxImageSize cfg) :
    (v.asked env).bytes (slotWriteOffset cfg) total = v.bytes (slotWriteOffset cfg) total := by
  refine List.map_congr_left fun k hk => ?_
  exact hlaw.trailer v.slot _ (trailer_disjoint htotal (List.mem_range.1 hk))

/-! ### The invariant -/

/-- The transfer, against the image its history accepted. -/
def UpdateInv (cfg : Config) (image : List UInt8) (s : Service) : Prop :=
  match s.status.state with
  | .RECEIVING => s.status.totalSize ≤ maxImageSize cfg ∧ s.status.received = image.length ∧
      s.status.actualCrc32 = crc32 image ∧ s.stream = ⟨slotWriteOffset cfg, image⟩
  | .VERIFIED | .READY => s.status.totalSize ≤ maxImageSize cfg ∧ Intact cfg image s
  | .IDLE | .FAILED => True

variable {image : List UInt8}

theorem updateInv_of_failed (h : s.status.state = .FAILED) : UpdateInv cfg image s := by
  unfold UpdateInv
  rw [h]
  trivial

/-- The invariant does not look at the readers or the bootloader's record. -/
theorem UpdateInv.congr {t : Service} (h : UpdateInv cfg image s) (hstatus : t.status = s.status)
    (hstream : t.stream = s.stream) (hslot : t.slot = s.slot) : UpdateInv cfg image t := by
  obtain ⟨status, readers, stream, slot, swapType⟩ := s
  obtain ⟨status', readers', stream', slot', swapType'⟩ := t
  obtain rfl : status' = status := hstatus
  obtain rfl : stream' = stream := hstream
  obtain rfl : slot' = slot := hslot
  unfold UpdateInv at h ⊢
  cases hst : status'.state <;> simp only [hst] at h ⊢
  · exact h
  · exact ⟨h.1, h.2.bytes, h.2.received, h.2.crc⟩
  · exact ⟨h.1, h.2.bytes, h.2.received, h.2.crc⟩

section

variable (hlaw : env.Lawful cfg s)
include hlaw

/-- A flush makes the accepted bytes the bytes of the slot. -/
theorem bytes_flushed (hflush : env.flush.result = none)
    (hstream : s.stream = ⟨slotWriteOffset cfg, image⟩) :
    ((List.range image.length).map fun k => env.flush.slot s.slot (slotWriteOffset cfg + k)) =
      image := by
  refine List.ext_getElem (by simp) fun k hk hk' => ?_
  have hflushed := hlaw.flushed hflush k (by rw [hstream]; exact hk')
  simpa [hstream] using hflushed

/-- Verification, in `verify` and in `finish`. -/
theorem updateInv_verify (h : UpdateInv cfg image s) : UpdateInv cfg image (s.verify env).service ∧
      ((s.verify env).result = none → (s.verify env).service.status.state = .VERIFIED) := by
  rcases s.verify_cases env with ⟨hst, he⟩ | ⟨-, e, he⟩ | ⟨-, e, slot, effects, he, -⟩ |
      ⟨hst, hlen, hcrc, hflush, he⟩
  · rw [he]
    exact ⟨h, fun _ => hst⟩
  · rw [he]
    exact ⟨h, nofun⟩
  · rw [he]
    exact ⟨updateInv_of_failed rfl, nofun⟩
  · unfold UpdateInv at h
    rw [hst] at h
    obtain ⟨hmax, hrecv, hactual, hstream⟩ := h
    rw [he]
    refine ⟨⟨hmax, ?_, hlen, by rw [← hactual]; exact hcrc⟩, fun _ => rfl⟩
    have hsize : s.status.totalSize = image.length := hlen.symm.trans hrecv
    simp only [Service.bytes, hsize]
    exact bytes_flushed hlaw hflush hstream

/-- A verified service offered to the bootloader. -/
theorem updateInv_asked {v : Service} (h : UpdateInv cfg image v)
    (hv : v.status.state = .VERIFIED) (scheduled : Bool) :
    UpdateInv cfg image ((v.asked env).ready scheduled) := by
  unfold UpdateInv at h
  rw [hv] at h
  obtain ⟨hmax, hintact⟩ := h
  exact ⟨hmax, (bytes_asked hlaw hmax).trans hintact.bytes, hintact.received, hintact.crc⟩

theorem updateInv_finish (h : UpdateInv cfg image s) :
    UpdateInv cfg image (s.finish cfg env).service ∧
      ∀ fx ∈ (s.finish cfg env).effects, fx.kind = .upgrade →
        fx.before.status.state = .VERIFIED ∧ UpdateInv cfg image fx.before := by
  obtain ⟨hverify, hverified⟩ := updateInv_verify hlaw h
  -- a verification never asks the bootloader
  have hplain : ∀ fx ∈ (s.verify env).effects, fx.kind ≠ .upgrade := by
    rcases s.verify_cases env with ⟨-, he⟩ | ⟨-, e, he⟩ | ⟨-, e, slot, effects, he, hfx⟩ |
        ⟨-, -, -, -, he⟩
    · simp [he]
    · simp [he, Service.refuse]
    · rw [he]
      exact fun fx hmem => (hfx fx hmem).2
    · simp [he]
  rcases s.finish_cases cfg env with ⟨e, he⟩ | ⟨-, e, v, effects, hv, he⟩ |
      ⟨-, v, effects, hv, ⟨-, he⟩ | ⟨-, e, he⟩ | ⟨-, -, he⟩⟩
  · rw [he]
    exact ⟨h, by simp [Service.refuse]⟩
  · rw [hv] at hverify hplain
    rw [he]
    exact ⟨hverify, fun fx hmem hk => absurd hk (hplain fx hmem)⟩
  all_goals
    rw [hv] at hverify hverified hplain
    have hstate := hverified rfl
    rw [he]
  · refine ⟨?_, fun fx hmem hk => absurd hk (hplain fx hmem)⟩
    unfold UpdateInv at hverify
    rw [hstate] at hverify
    exact ⟨hverify.1, hverify.2.bytes, hverify.2.received, hverify.2.crc⟩
  · refine ⟨updateInv_of_failed rfl, fun fx hmem hk => ?_⟩
    rcases List.mem_append.1 hmem with hmem | hmem
    · exact absurd hk (hplain fx hmem)
    · rw [List.mem_singleton.1 hmem]
      exact ⟨hstate, hverify⟩
  · refine ⟨updateInv_asked hlaw hverify hstate true, fun fx hmem hk => ?_⟩
    rcases List.mem_append.1 hmem with hmem | hmem
    · exact absurd hk (hplain fx hmem)
    · rw [List.mem_singleton.1 hmem]
      exact ⟨hstate, hverify⟩

end

/-- **One operation keeps the invariant**, and asks the bootloader only for a
verified image. -/
theorem updateInv_exec (c : Call) (hlaw : env.Lawful cfg s) (h : UpdateInv cfg image s) :
    UpdateInv cfg (imageAfter image (.call c (s.exec cfg env c).result (s.exec cfg env c).effects))
        (s.exec cfg env c).service ∧ ∀ fx ∈ (s.exec cfg env c).effects, fx.kind = .upgrade →
        fx.before.status.state = .VERIFIED ∧ UpdateInv cfg image fx.before := by
  cases c with
  | begin total crc =>
    simp only [Service.exec]
    rcases s.begin_cases cfg env total crc with ⟨e, he⟩ | ⟨-, -, e, slot, effects, he, hfx⟩ |
        ⟨-, -, -, hmax, he⟩
    · rw [he]
      exact ⟨h, by simp [Service.refuse]⟩
    · rw [he]
      refine ⟨updateInv_of_failed rfl, fun fx hmem hk => ?_⟩
      rcases hfx with rfl | rfl
      · cases hmem
      · rw [List.mem_singleton.1 hmem] at hk
        cases hk
    · rw [he]
      exact ⟨⟨hmax, rfl, by simp [crc32, imageAfter], rfl⟩, by simp⟩
  | write offset data =>
    simp only [Service.exec]
    rcases s.write_cases env offset data with ⟨e, he⟩ | ⟨-, e, he⟩ |
        ⟨hst, span, rfl, -, -, hfits, he⟩
    · rw [he]
      refine ⟨?_, by simp [Service.refuse]⟩
      cases data <;> exact h
    · rw [he]
      exact ⟨updateInv_of_failed rfl, by simp⟩
    · unfold UpdateInv at h
      rw [hst] at h
      obtain ⟨hmax, hrecv, hcrc, hstream⟩ := h
      rw [he]
      unfold UpdateInv
      simp only [hst, imageAfter]
      refine ⟨⟨hmax, ?_, ?_, ?_⟩, by simp⟩
      · rw [List.length_append, hrecv]
      · rw [hcrc, crc32, crc32, crc32Update_append]
      · rw [hstream]
  | verify =>
    refine ⟨(updateInv_verify hlaw h).1, ?_⟩
    simp only [Service.exec]
    rcases s.verify_cases env with ⟨-, he⟩ | ⟨-, e, he⟩ | ⟨-, e, slot, effects, he, hfx⟩ |
        ⟨-, -, -, -, he⟩
    · simp [he]
    · simp [he, Service.refuse]
    · rw [he]
      exact fun fx hmem hk => absurd hk (hfx fx hmem).2
    · simp [he]
  | finish => exact updateInv_finish hlaw h
  | abort =>
    simp only [Service.exec]
    rcases s.abort_cases cfg env with ⟨e, he⟩ | ⟨-, e, slot, effects, he, hfx⟩ |
        ⟨-, effects, he, hfx⟩
    · rw [he]
      exact ⟨h, by simp [Service.refuse]⟩
    · rw [he]
      refine ⟨updateInv_of_failed rfl, fun fx hmem hk => ?_⟩
      rw [(hfx fx hmem).1] at hk
      cases hk
    · rw [he]
      refine ⟨trivial, fun fx hmem hk => ?_⟩
      rw [(hfx fx hmem).1] at hk
      cases hk
  | acquire =>
    simp only [Service.exec, Service.acquire]
    split_ifs with hbusy
    · exact ⟨h, by simp [Service.refuse]⟩
    · exact ⟨h.congr rfl rfl rfl, by simp⟩
  | release =>
    simp only [Service.exec, Service.release, imageAfter]
    exact ⟨h.congr rfl rfl rfl, by simp⟩

/-- **The invariant holds in every run.** -/
theorem updateInv_run {slot : ℕ → UInt8} {swapType : SwapType} {es : List UpdateEvent}
    (hr : Run (UpdateStep cfg) (Service.boot slot swapType) es s) :
    UpdateInv cfg (acceptedImage es) s := by
  refine hr.invariant (I := fun es s => UpdateInv cfg (acceptedImage es) s) trivial ?_
  intro es s e t h hs
  rw [acceptedImage_snoc]
  cases hs with
  | call c env hlaw => exact (updateInv_exec c hlaw h).1
  | swapType t => exact h.congr rfl rfl rfl

theorem UpdateInv.intact (h : UpdateInv cfg image s)
    (hst : s.status.state = .VERIFIED ∨ s.status.state = .READY) : Intact cfg image s := by
  unfold UpdateInv at h
  rcases hst with hst | hst
  · rw [hst] at h
    exact h.2
  · rw [hst] at h
    exact h.2

/-- **Slot integrity.**  In VERIFIED and READY the slot holds the image that was
accepted and declared, and the bootloader is only ever asked for such an image. -/
theorem slot_integrity {cfg : Config} {slot : ℕ → UInt8} {swapType : SwapType}
    {es : List UpdateEvent} {s : Service}
    (hr : Run (UpdateStep cfg) (Service.boot slot swapType) es s) :
    (s.status.state = .VERIFIED ∨ s.status.state = .READY → Intact cfg (acceptedImage es) s) ∧
      ∀ before after c result effects fx, es = before ++ .call c result effects :: after →
        fx ∈ effects → fx.kind = .upgrade →
        fx.before.status.state = .VERIFIED ∧ Intact cfg (acceptedImage before) fx.before := by
  refine ⟨(updateInv_run hr).intact, ?_⟩
  rintro before after c result effects fx rfl hmem hk
  obtain ⟨m, m', hm, hstep, -⟩ := run_split_iff.1 hr
  generalize he : UpdateEvent.call c result effects = e at hstep
  cases hstep with
  | call c' env hlaw =>
    cases he
    obtain ⟨hstate, hinv⟩ := (updateInv_exec c hlaw (updateInv_run hm)).2 fx hmem hk
    exact ⟨hstate, hinv.intact (.inl hstate)⟩
  | swapType t => cases he

/-- Operations, one after the other, on a flash without faults. -/
def Service.execAll (cfg : Config) (s : Service) : List Call → List UpdateEvent × Service
  | [] => ([], s)
  | c :: cs =>
    let o := s.exec cfg s.faultless c
    let (es, t) := o.service.execAll cfg cs
    (.call c o.result o.effects :: es, t)

theorem run_execAll (cfg : Config) (cs : List Call) : ∀ s : Service,
    Run (UpdateStep cfg) s (s.execAll cfg cs).1 (s.execAll cfg cs).2 := by
  induction cs with
  | nil => exact fun s => .nil s
  | cons c cs ih => exact fun s => .cons (.call c _ (s.faultless_lawful cfg)) (ih _)

/-- Three bytes, received in two spans and finished. -/
def threeBytes : List UpdateEvent × Service :=
  (Service.boot (fun _ => 0) .NONE).execAll smallConfig
    [.begin 3 (crc32 [1, 2, 3]), .write 0 (some [1, 2]), .write 2 (some [3]), .finish]

/-- Three bytes are received, checked and offered to the bootloader. -/
theorem slot_integrity_three : threeBytes.2.status.state = .READY ∧
    acceptedImage threeBytes.1 = [1, 2, 3] ∧
    Intact smallConfig (acceptedImage threeBytes.1) threeBytes.2 := by
  have hready : threeBytes.2.status.state = .READY := by decide +kernel
  have hrun : Run (UpdateStep smallConfig) (Service.boot (fun _ => 0) .NONE) threeBytes.1
    threeBytes.2 := run_execAll smallConfig _ _
  exact ⟨hready, by decide +kernel, (slot_integrity hrun).1 (.inr hready)⟩

end KfswServices.Fwu
