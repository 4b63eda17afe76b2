/-
# What the node makes of the blocks it is sent

`handle_block` of `src/fwu/fwu_lite_protocol.c` finds the block it expects by dividing the bytes it
holds by the size of a block.  Only the last block of an image may have another size, so as long as
the image is not complete these bytes are whole blocks, and when it is complete nothing is written
behind it.  So after a BEGIN, whatever is sent until the next BEGIN or ABORT, in whatever order and
however often, the accepted blocks are numbered from 0 on, and each is in its place
(`blocks_received`).

A request that is not answered with OK writes nothing, apart from two ends of a transfer: an image
that does not have the checksum declared is erased, and an image that the bootloader does not take
has been flushed.
-/

import KfswServices.Fwu.Integrity
import KfswServices.Fwu.Lite

namespace KfswServices.Fwu.Lite

open Library

/-- A request, the status of its reply, and the call it made with what that returned. -/
structure Exchange where
  request : Message
  status : Status
  call : Option (Call × Option Errno)
  deriving DecidableEq

/-- A block that was answered with OK. -/
def Exchange.accepted (e : Exchange) : Bool :=
  e.request.opcode = Opcode.BLOCK.toByte && e.status = .OK

/-- No call into the flash fails; the bootloader may refuse. -/
structure FlashOk (env : Env) : Prop where
  eraseOpen : env.eraseOpen = none
  flatten : env.flatten.result = none
  areaOpen : env.areaOpen = none
  streamInit : env.streamInit = none
  streamWrite : env.streamWrite.result = none
  flush : env.flush.result = none

/-- One request of `kfsw_fwu_lite_handle` that neither begins nor aborts a transfer. -/
inductive ExchangeStep (lite : Settings) (cfg : Config) : Service → Exchange → Service → Prop
  | handle {s : Service} (m : Message) (env : Env) (hlaw : env.Lawful cfg s) (hflash : FlashOk env)
      (hbegin : m.opcode ≠ Opcode.BEGIN.toByte) (habort : m.opcode ≠ Opcode.ABORT.toByte) :
      ExchangeStep lite cfg s
        ⟨m, (handle lite cfg env s m).status, (handle lite cfg env s m).call⟩
        (handle lite cfg env s m).service

/-- The blocks accepted, in order. -/
def acceptedBlocks (es : List Exchange) : List Message := (es.filter (·.accepted)).map (·.request)

/-- The bytes accepted. -/
def receivedImage (es : List Exchange) : List UInt8 := (acceptedBlocks es).flatMap (·.data)

/-- The image has these bytes at this offset. -/
def HeldAt (image : List UInt8) (offset : ℕ) (data : List UInt8) : Prop :=
  ∃ pre post, image = pre ++ (data ++ post) ∧ pre.length = offset

theorem HeldAt.append {image data : List UInt8} {offset : ℕ} (h : HeldAt image offset data)
    (more : List UInt8) : HeldAt (image ++ more) offset data := by
  obtain ⟨pre, post, rfl, hlen⟩ := h
  exact ⟨pre, post ++ more, by simp, hlen⟩

/-- Everything but the counters, the state and the slot is left. -/
structure Kept (s t : Service) : Prop where
  received : t.status.received = s.status.received
  total : t.status.totalSize = s.status.totalSize
  stream : t.stream = s.stream

theorem Kept.refl (s : Service) : Kept s s := ⟨rfl, rfl, rfl⟩

/-- What a verification leaves. -/
theorem verify_kept (env : Env) (s : Service) : Kept s (s.verify env).service := by
  rcases s.verify_cases env with ⟨-, he⟩ | ⟨-, e, he⟩ | ⟨-, e, slot, effects, he, -⟩ |
      ⟨-, -, -, -, he⟩
  all_goals
    rw [he]
    exact ⟨rfl, rfl, rfl⟩

theorem finish_kept (cfg : Config) (env : Env) (s : Service) :
    Kept s (s.finish cfg env).service := by
  have hverify := verify_kept env s
  rcases s.finish_cases cfg env with ⟨e, he⟩ | ⟨-, e, v, effects, hv, he⟩ |
      ⟨-, v, effects, hv, ⟨-, he⟩ | ⟨-, e, he⟩ | ⟨-, -, he⟩⟩
  · rw [he]
    exact .refl s
  all_goals
    rw [hv] at hverify
    rw [he]
    exact ⟨hverify.received, hverify.total, hverify.stream⟩

/-! ### One request -/

/-- A block that passes the checks. -/
structure Expected (lite : Settings) (status : Fwu.Status) (m : Message) : Prop where
  nonempty : m.data.length ≠ 0
  receiving : status.state = .RECEIVING
  index : m.blockIndex.toNat = status.received / lite.blockSize
  short : (status.received + m.data.length) % 2 ^ 32 < status.totalSize →
    m.data.length = lite.blockSize
  crc : crc32 m.data = m.argument

theorem checkBlock_eq_none {lite : Settings} {status : Fwu.Status} {m : Message}
    (h : checkBlock lite status m = none) : Expected lite status m := by
  unfold checkBlock at h
  split_ifs at h with hempty hstate hindex hshort hcrc
  rw [not_not] at hstate hindex hcrc
  exact ⟨hempty, hstate, hindex, fun hlt => by_contra fun hne => hshort ⟨hlt, hne⟩, hcrc⟩

theorem checkBlock_ne_ok (lite : Settings) (status : Fwu.Status) (m : Message) :
    checkBlock lite status m ≠ some .OK := by
  unfold checkBlock
  split_ifs <;> nofun

variable {lite : Settings} {cfg : Config} {env : Env} {s : Service} {m : Message}

theorem toByte_of_ofByte {b : UInt8} {op : Opcode} (h : Opcode.ofByte? b = some op) :
    b = op.toByte := by
  unfold Opcode.ofByte? at h
  split_ifs at h with h₁ h₂ h₃ h₄ h₅ h₆
  all_goals
    obtain rfl := Option.some.inj h
    assumption

/-- What is made of a request that neither begins nor aborts a transfer. -/
theorem handle_cases (lite : Settings) (cfg : Config) (env : Env) (s : Service)
    (hbegin : m.opcode ≠ Opcode.BEGIN.toByte) (habort : m.opcode ≠ Opcode.ABORT.toByte) :
    (m.opcode = Opcode.BLOCK.toByte ∧ handle lite cfg env s m = handleBlock lite cfg env s m) ∨
    (m.opcode ≠ Opcode.BLOCK.toByte ∧ ∃ status, handle lite cfg env s m = reject s status) ∨
    (m.opcode = Opcode.VERIFY.toByte ∧ handle lite cfg env s m = perform cfg env s .verify) ∨
    (m.opcode = Opcode.START_FLASHING.toByte ∧
      handle lite cfg env s m = perform cfg env s .finish) := by
  unfold handle
  cases hop : Opcode.ofByte? m.opcode with
  | none =>
    refine .inr (.inl ⟨fun hblock => ?_, _, rfl⟩)
    rw [hblock] at hop
    cases hop
  | some op =>
    have hbyte := toByte_of_ofByte hop
    cases op with
    | BEGIN => exact absurd hbyte hbegin
    | BLOCK => exact .inl ⟨hbyte, rfl⟩
    | STATUS => exact .inr (.inl ⟨by rw [hbyte]; decide, _, rfl⟩)
    | VERIFY => exact .inr (.inr (.inl ⟨hbyte, rfl⟩))
    | START_FLASHING => exact .inr (.inr (.inr ⟨hbyte, rfl⟩))
    | ABORT => exact absurd hbyte habort

/-- A write that fails, though the flash does not, is refused. -/
theorem write_refused (hflash : env.streamWrite.result = none) {offset : ℕ}
    {data : Option (List UInt8)} {e : Errno} (h : (s.write env offset data).result = some e) :
    (s.write env offset data).service = s := by
  unfold Service.write at h ⊢
  cases data with
  | none => rfl
  | some span =>
    simp only [hflash] at h ⊢
    split_ifs at h ⊢
    all_goals rfl

variable (lite cfg s m) in
/-- **A block** is appended and answered with OK, or changes nothing. -/
theorem handleBlock_cases (hflash : env.streamWrite.result = none) :
    (Expected lite s.status m ∧ s.status.received + m.data.length ≤ s.status.totalSize ∧
      (s.write env s.status.received (some m.data)).result = none ∧
      handleBlock lite cfg env s m = ⟨(s.write env s.status.received (some m.data)).service, .OK,
        some (.write s.status.received (some m.data), none)⟩) ∨
    ((handleBlock lite cfg env s m).status ≠ .OK ∧ (handleBlock lite cfg env s m).service = s) := by
  unfold handleBlock
  cases hcheck : checkBlock lite s.status m with
  | some status =>
    refine .inr ⟨fun hok => ?_, rfl⟩
    obtain rfl : status = .OK := hok
    exact checkBlock_ne_ok lite s.status m hcheck
  | none =>
    simp only [perform, Service.exec]
    cases hres : (s.write env s.status.received (some m.data)).result with
    | some e =>
      right
      refine ⟨fun hok => ?_, write_refused hflash hres⟩
      cases statusForErrno_eq_ok.1 hok
    | none =>
      refine .inl ⟨checkBlock_eq_none hcheck, ?_, rfl, rfl⟩
      rcases s.write_cases env s.status.received (some m.data) with ⟨e, he⟩ | ⟨-, e, he⟩ |
          ⟨-, span, hspan, -, -, hfits, -⟩
      · rw [he] at hres
        cases hres
      · rw [he] at hres
        cases hres
      · obtain rfl := Option.some.inj hspan
        exact hfits

/-- An image that is complete and does not have the checksum declared. -/
def Mismatched (s : Service) : Prop :=
  s.status.state = .RECEIVING ∧ s.status.received = s.status.totalSize ∧
    s.status.actualCrc32 ≠ s.status.expectedCrc32

/-- An image that is complete and has it. -/
def CompleteImage (s : Service) : Prop :=
  s.status.state = .VERIFIED ∨ (s.status.state = .RECEIVING ∧
    s.status.received = s.status.totalSize ∧ s.status.actualCrc32 = s.status.expectedCrc32)

/-- A verification that fails, though the flash does not, is refused or erases the image. -/
theorem verify_failed (hflash : env.flush.result = none) {e : Errno}
    (h : (s.verify env).result = some e) : (s.verify env).service = s ∨
      (e = .EILSEQ ∧ Mismatched s ∧ (s.verify env).service.status.state = .FAILED) := by
  unfold Service.verify at h ⊢
  simp only [hflash] at h ⊢
  split_ifs at h ⊢ with hverified hstate hlen hcrc
  · exact .inl rfl
  · exact .inl rfl
  · rw [not_not] at hstate hlen
    exact .inr ⟨(Option.some.inj h).symm, ⟨hstate, hlen, hcrc⟩, rfl⟩

theorem verify_complete (h : (s.verify env).result = none) : CompleteImage s := by
  rcases s.verify_cases env with ⟨hst, -⟩ | ⟨-, e, he⟩ | ⟨-, e, slot, effects, he, -⟩ |
      ⟨hst, hlen, hcrc, -, -⟩
  · exact .inl hst
  · rw [he] at h
    cases h
  · rw [he] at h
    cases h
  · exact .inr ⟨hst, hlen, hcrc⟩

/-- A finish that fails, though the flash does not, is refused, erases the image, or has the
bootloader refuse it. -/
theorem finish_failed (hflash : env.flush.result = none) {e : Errno}
    (h : (s.finish cfg env).result = some e) : (s.finish cfg env).service = s ∨
      (e = .EILSEQ ∧ Mismatched s ∧ (s.finish cfg env).service.status.state = .FAILED) ∨
      (CompleteImage s ∧ (s.finish cfg env).service.status.state = .FAILED) := by
  rcases s.finish_cases cfg env with ⟨e', he⟩ | ⟨-, e', v, effects, hv, he⟩ |
      ⟨-, v, effects, hv, ⟨-, he⟩ | ⟨-, e', he⟩ | ⟨-, -, he⟩⟩
  · exact .inl (by rw [he]; rfl)
  · rw [he] at h ⊢
    obtain rfl : e' = e := Option.some.inj h
    have hfailed := verify_failed (s := s) hflash (e := e') (by rw [hv])
    rw [hv] at hfailed
    exact hfailed.imp id .inl
  · rw [he] at h
    cases h
  · rw [he]
    exact .inr (.inr ⟨verify_complete (by rw [hv]), rfl⟩)
  · rw [he] at h
    cases h

/-- The two ends of a transfer that are answered with an error, and change the slot. -/
inductive Ended (s : Service) (e : Exchange) (t : Service) : Prop
  /-- The image is erased. -/
  | mismatched (hop : e.request.opcode = Opcode.VERIFY.toByte ∨
        e.request.opcode = Opcode.START_FLASHING.toByte)
      (hstatus : e.status = .BAD_IMAGE) (hs : Mismatched s) (ht : t.status.state = .FAILED)
  /-- The image was flushed, and the bootloader does not take it. -/
  | refused (hop : e.request.opcode = Opcode.START_FLASHING.toByte) (hs : CompleteImage s)
      (ht : t.status.state = .FAILED)

/-- **A request that is not answered with OK** writes nothing, or ends the transfer. -/
theorem not_ok_step {e : Exchange} {t : Service} (h : ExchangeStep lite cfg s e t)
    (hstatus : e.status ≠ .OK) :
    t.status.received = s.status.received ∧ (t.slot = s.slot ∨ Ended s e t) := by
  cases h with
  | handle m env hlaw hflash hbegin habort =>
    -- a call that did not return 0
    have hresult : ∀ c, (perform cfg env s c).status ≠ .OK →
        ∃ e, (s.exec cfg env c).result = some e := by
      intro c hc
      exact Option.ne_none_iff_exists'.1 fun hnone => hc (statusForErrno_eq_ok.2 hnone)
    dsimp only at hstatus
    rcases handle_cases lite cfg env s hbegin habort with ⟨hop, he⟩ | ⟨-, status, he⟩ | ⟨hop, he⟩ |
        ⟨hop, he⟩
    · rw [he] at hstatus ⊢
      rcases handleBlock_cases lite cfg s m hflash.streamWrite with
        ⟨-, -, -, hblock⟩ | ⟨-, hblock⟩
      · rw [hblock] at hstatus
        exact absurd rfl hstatus
      · rw [hblock]
        exact ⟨rfl, .inl rfl⟩
    · rw [he]
      exact ⟨rfl, .inl rfl⟩
    · rw [he] at hstatus
      obtain ⟨e, hres⟩ := hresult .verify hstatus
      have hverify := verify_failed hflash.flush hres
      refine ⟨by rw [he]; exact (verify_kept env s).received, ?_⟩
      rw [he]
      rcases hverify with hsame | ⟨rfl, hmis, hfailed⟩
      · exact .inl (congrArg Service.slot hsame)
      · refine .inr (.mismatched (.inl hop) ?_ hmis hfailed)
        show statusForErrno (s.verify env).result = .BAD_IMAGE
        rw [show (s.verify env).result = some .EILSEQ from hres]
        rfl
    · rw [he] at hstatus
      obtain ⟨e, hres⟩ := hresult .finish hstatus
      have hfinish := finish_failed hflash.flush hres
      refine ⟨by rw [he]; exact (finish_kept cfg env s).received, ?_⟩
      rw [he]
      rcases hfinish with hsame | ⟨rfl, hmis, hfailed⟩ | ⟨hcomplete, hfailed⟩
      · exact .inl (congrArg Service.slot hsame)
      · refine .inr (.mismatched (.inr hop) ?_ hmis hfailed)
        show statusForErrno (s.finish cfg env).result = .BAD_IMAGE
        rw [show (s.finish cfg env).result = some .EILSEQ from hres]
        rfl
      · exact .inr (.refused hop hcomplete hfailed)

/-! ### Many requests -/

theorem acceptedBlocks_snoc (es : List Exchange) (e : Exchange) : acceptedBlocks (es ++ [e]) =
    acceptedBlocks es ++ if e.accepted then [e.request] else [] := by
  unfold acceptedBlocks
  cases h : e.accepted <;> simp [h]

theorem receivedImage_snoc (es : List Exchange) (e : Exchange) : receivedImage (es ++ [e]) =
    receivedImage es ++ if e.accepted then e.request.data else [] := by
  unfold receivedImage
  rw [acceptedBlocks_snoc]
  cases h : e.accepted <;> simp

/-- An accepted block has the checksum it came with, was written at the place its index gives, and
is there in the image. -/
structure Placed (lite : Settings) (image : List UInt8) (e : Exchange) : Prop where
  crc : crc32 e.request.data = e.request.argument
  call : e.call = some
    (.write (e.request.blockIndex.toNat * lite.blockSize) (some e.request.data), none)
  held : HeldAt image (e.request.blockIndex.toNat * lite.blockSize) e.request.data

/-- The transfer, against the blocks its history accepted.  Until the image is complete it is made
of whole blocks. -/
structure BlocksInv (lite : Settings) (cfg : Config) (total : ℕ) (es : List Exchange)
    (s : Service) : Prop where
  size : s.status.totalSize = total
  stream : s.stream = ⟨slotWriteOffset cfg, receivedImage es⟩
  received : s.status.received = (receivedImage es).length
  le : (receivedImage es).length ≤ total
  update : UpdateInv cfg (receivedImage es) s
  aligned : (receivedImage es).length < total →
    (receivedImage es).length = (acceptedBlocks es).length * lite.blockSize
  numbered : (acceptedBlocks es).map (·.blockIndex.toNat) = List.range (acceptedBlocks es).length
  placed : ∀ e ∈ es, e.accepted = true → Placed lite (receivedImage es) e

variable {total : ℕ} {es : List Exchange}

/-- A request of which nothing is accepted. -/
theorem BlocksInv.other (h : BlocksInv lite cfg total es s) {e : Exchange} {t : Service}
    (he : e.accepted = false) (hkept : Kept s t) (hupdate : UpdateInv cfg (receivedImage es) t) :
    BlocksInv lite cfg total (es ++ [e]) t := by
  have himage : receivedImage (es ++ [e]) = receivedImage es := by
    rw [receivedImage_snoc, he]
    exact List.append_nil _
  have hblocks : acceptedBlocks (es ++ [e]) = acceptedBlocks es := by
    rw [acceptedBlocks_snoc, he]
    exact List.append_nil _
  refine ⟨hkept.total.trans h.size, ?_, ?_, ?_, ?_, ?_, ?_, fun e' he' hacc => ?_⟩
  · rw [hkept.stream, himage, h.stream]
  · rw [hkept.received, himage, h.received]
  · rw [himage]
    exact h.le
  · rw [himage]
    exact hupdate
  · rw [himage, hblocks]
    exact h.aligned
  · rw [hblocks]
    exact h.numbered
  · rw [himage]
    rcases List.mem_append.1 he' with hmem | hmem
    · exact h.placed e' hmem hacc
    · rw [List.mem_singleton.1 hmem, he] at hacc
      cases hacc

/-- A block that is accepted. -/
theorem BlocksInv.block (h : BlocksInv lite cfg total es s) (htotal : total < 2 ^ 32)
    (hlaw : env.Lawful cfg s) {e : Exchange} (hacc : e.accepted = true)
    (hexpected : Expected lite s.status e.request)
    (hfits : s.status.received + e.request.data.length ≤ s.status.totalSize)
    (hres : (s.write env s.status.received (some e.request.data)).result = none)
    (hcall : e.call = some (.write s.status.received (some e.request.data), none)) :
    BlocksInv lite cfg total (es ++ [e])
      (s.write env s.status.received (some e.request.data)).service := by
  have himage := receivedImage_snoc es e
  have hblocks := acceptedBlocks_snoc es e
  rw [hacc, if_pos rfl] at himage hblocks
  have hlen := hexpected.nonempty
  rw [h.size, h.received] at hfits
  -- the image was not complete, so it is whole blocks, and this is the next
  have hwhole := h.aligned (by omega)
  have hpos : 0 < lite.blockSize := by
    have := lite.block_ge
    omega
  have hindex : e.request.blockIndex.toNat = (acceptedBlocks es).length := by
    rw [hexpected.index, h.received, hwhole, Nat.mul_div_cancel _ hpos]
  have hshort := hexpected.short
  rw [h.size, h.received, Nat.mod_eq_of_lt (by omega)] at hshort
  have hupdate := (updateInv_exec (.write s.status.received (some e.request.data))
    (show env.Lawful cfg s from hlaw) h.update).1
  simp only [Service.exec, hres, imageAfter] at hupdate
  rcases s.write_cases env s.status.received (some e.request.data) with ⟨e', he⟩ | ⟨-, e', he⟩ |
      ⟨-, span, hspan, -, -, -, he⟩
  · rw [he] at hres
    cases hres
  · rw [he] at hres
    cases hres
  obtain rfl := Option.some.inj hspan
  refine ⟨by rw [he]; exact h.size, ?_, ?_, ?_, ?_, ?_, ?_, fun e' he' hacc' => ?_⟩
  · rw [he, himage, h.stream]
  · rw [he, himage, List.length_append, ← h.received]
  · rw [himage, List.length_append]
    exact hfits
  · rw [himage]
    exact hupdate
  · rw [himage, hblocks, List.length_append, List.length_append, List.length_singleton]
    intro hlt
    rw [hshort hlt, hwhole, Nat.succ_mul]
  · rw [hblocks, List.map_append, h.numbered, List.length_append, List.length_singleton,
      List.range_succ, ← hindex]
    rfl
  · rw [himage]
    rcases List.mem_append.1 he' with hmem | hmem
    · obtain ⟨hcrc, hcall', hheld⟩ := h.placed e' hmem hacc'
      exact ⟨hcrc, hcall', hheld.append _⟩
    · obtain rfl := List.mem_singleton.1 hmem
      refine ⟨hexpected.crc, ?_, receivedImage es, [], by rw [List.append_nil], ?_⟩
      · rw [hcall, h.received, hwhole, hindex]
      · rw [hwhole, hindex]

/-- **One request keeps the invariant.** -/
theorem blocksInv_step (htotal : total < 2 ^ 32) {e : Exchange} {t : Service}
    (h : BlocksInv lite cfg total es s) (hs : ExchangeStep lite cfg s e t) :
    BlocksInv lite cfg total (es ++ [e]) t := by
  cases hs with
  | handle m env hlaw hflash hbegin habort =>
    rcases handle_cases lite cfg env s hbegin habort with ⟨hop, he⟩ | ⟨hop, status, he⟩ |
        ⟨hop, he⟩ | ⟨hop, he⟩
    · rw [he]
      rcases handleBlock_cases lite cfg s m hflash.streamWrite with
        ⟨hexpected, hfits, hres, hblock⟩ | ⟨hstatus, hblock⟩
      · rw [hblock]
        refine h.block htotal hlaw ?_ hexpected hfits hres rfl
        simp [Exchange.accepted, hop]
      · rw [hblock]
        exact h.other (by simp [Exchange.accepted, hstatus]) (.refl s) h.update
    · rw [he]
      exact h.other (by simp [Exchange.accepted, hop]) (.refl s) h.update
    · rw [he]
      refine h.other ?_ (verify_kept env s) (updateInv_verify hlaw h.update).1
      have hne : Opcode.VERIFY.toByte ≠ Opcode.BLOCK.toByte := by decide
      simp [Exchange.accepted, hop, hne]
    · rw [he]
      refine h.other ?_ (finish_kept cfg env s) (updateInv_finish hlaw h.update).1
      have hne : Opcode.START_FLASHING.toByte ≠ Opcode.BLOCK.toByte := by decide
      simp [Exchange.accepted, hop, hne]

/-- A BEGIN that was answered with OK. -/
theorem blocksInv_begin {s₀ : Service} (hop : m.opcode = Opcode.BEGIN.toByte)
    (hok : (handle lite cfg env s₀ m).status = .OK) :
    BlocksInv lite cfg m.argument.toNat [] (handle lite cfg env s₀ m).service := by
  rw [handle_of_begin hop] at hok ⊢
  have hres : (s₀.begin cfg env m.argument.toNat m.extra).result = none :=
    statusForErrno_eq_ok.1 hok
  show BlocksInv lite cfg m.argument.toNat [] (s₀.begin cfg env m.argument.toNat m.extra).service
  rcases s₀.begin_cases cfg env m.argument.toNat m.extra with ⟨e, he⟩ |
      ⟨-, -, e, slot, effects, he, -⟩ | ⟨-, -, -, hmax, he⟩
  · rw [he] at hres
    cases hres
  · rw [he] at hres
    cases hres
  · rw [he]
    exact ⟨rfl, rfl, rfl, Nat.zero_le _, ⟨hmax, rfl, by simp [crc32, receivedImage, acceptedBlocks],
      rfl⟩, fun _ => (Nat.zero_mul _).symm, rfl, fun _ he => absurd he List.not_mem_nil⟩

theorem blocksInv_run {s₀ : Service} (hop : m.opcode = Opcode.BEGIN.toByte)
    (hok : (handle lite cfg env s₀ m).status = .OK)
    (hr : Run (ExchangeStep lite cfg) (handle lite cfg env s₀ m).service es s) :
    BlocksInv lite cfg m.argument.toNat es s :=
  hr.invariant (I := fun es s => BlocksInv lite cfg m.argument.toNat es s) (blocksInv_begin hop hok)
    fun _ _ _ _ h hs => blocksInv_step m.argument.toNat_lt h hs

/-- What the slot holds of an image, where the image holds it. -/
theorem bytes_of_heldAt {image data : List UInt8} {base offset size : ℕ}
    (himage : s.bytes base size = image) (h : HeldAt image offset data) :
    s.bytes (base + offset) data.length = data := by
  obtain ⟨pre, post, himage', rfl⟩ := h
  have hsize : image.length = size := by
    rw [← himage]
    simp [Service.bytes]
  refine List.ext_getElem (by simp [Service.bytes]) fun k hk hk' => ?_
  have hlt : pre.length + k < size := by
    rw [← hsize, himage', List.length_append, List.length_append]
    omega
  have hget : (s.bytes base size)[pre.length + k]? = some data[k] := by
    rw [himage, himage', List.getElem?_append_right (by omega), Nat.add_sub_cancel_left,
      List.getElem?_append_left hk', List.getElem?_eq_getElem hk']
  have hslot : (s.bytes base size)[pre.length + k]? = some (s.slot (base + (pre.length + k))) := by
    simp [Service.bytes, hlt]
  rw [hslot] at hget
  rw [← Option.some.inj hget]
  simp [Service.bytes, Nat.add_assoc]

/-- What is promised of the blocks of a transfer: an accepted block has the checksum it came with,
was written at the offset of its index, and is there in what the stream has taken and, once the
image is verified, in the slot; none is accepted twice; and the bytes held are theirs. -/
structure BlocksReceived (lite : Settings) (cfg : Config) (total : ℕ) (es : List Exchange)
    (s : Service) : Prop where
  placed : ∀ e ∈ es, e.accepted = true → Placed lite s.stream.accepted e
  base : s.stream.base = slotWriteOffset cfg
  slot : s.status.state = .VERIFIED ∨ s.status.state = .READY → ∀ e ∈ es, e.accepted = true →
    s.bytes (slotWriteOffset cfg + e.request.blockIndex.toNat * lite.blockSize)
      e.request.data.length = e.request.data
  once : ((acceptedBlocks es).map (·.blockIndex)).Nodup
  received : s.status.received = ((acceptedBlocks es).map (·.data.length)).sum
  size : s.status.totalSize = total
  le : s.status.received ≤ total

/-- **A block upload is idempotent for each block**, after a BEGIN and until the next BEGIN or
ABORT, whatever is sent in between.  A request that is not answered with OK leaves the bytes held
and the slot, unless it ends the transfer. -/
theorem blocks_received {s₀ : Service} (hop : m.opcode = Opcode.BEGIN.toByte)
    (hok : (handle lite cfg env s₀ m).status = .OK)
    (hr : Run (ExchangeStep lite cfg) (handle lite cfg env s₀ m).service es s) :
    BlocksReceived lite cfg m.argument.toNat es s ∧
      ∀ e t, ExchangeStep lite cfg s e t → e.status ≠ .OK →
        t.status.received = s.status.received ∧ (t.slot = s.slot ∨ Ended s e t) := by
  have h := blocksInv_run hop hok hr
  refine ⟨⟨?_, ?_, fun hstate e he hacc => ?_, ?_, ?_, h.size, ?_⟩, fun _ _ => not_ok_step⟩
  · rw [h.stream]
    exact h.placed
  · rw [h.stream]
  · exact bytes_of_heldAt (h.update.intact hstate).bytes (h.placed e he hacc).held
  · refine List.Nodup.of_map UInt16.toNat ?_
    rw [List.map_map]
    exact (congrArg List.Nodup h.numbered).mpr List.nodup_range
  · rw [h.received, receivedImage, List.length_flatMap]
  · rw [h.received]
    exact h.le

/-! ### Two ends of a transfer -/

/-- Blocks of 64 bytes. -/
def wideSettings : Settings := ⟨64, 256, 16383, 4, by decide, by decide, by decide⟩

/-- A stream with a buffer of 64 bytes, which writes such a block at once. -/
def writesThrough (s : Service) (data : List UInt8) : Env :=
  { s.faultless with
    streamWrite :=
      ⟨none, fun slot => overlay slot (s.stream.base + s.stream.accepted.length) data⟩ }

/-- The bytes of a block. -/
def wideImage : List UInt8 := List.replicate 64 0xA5

/-- The declaration of an image, with some checksum. -/
def wideBegin (total crc : UInt32) : Message := ⟨Opcode.BEGIN.toByte, 0, 0, total, crc, []⟩

/-- A block of it. -/
def wideBlock (index : UInt16) : Message :=
  ⟨Opcode.BLOCK.toByte, 0, index, crc32 wideImage, 0, wideImage⟩

/-- The node after the declaration. -/
def wideBegun (total crc : UInt32) : Service :=
  (handle wideSettings smallConfig (Service.boot (fun _ => 0) .NONE).faultless
    (Service.boot (fun _ => 0) .NONE) (wideBegin total crc)).service

/-- The exchange of a block that is written at an offset. -/
def wideExchange (index : UInt16) (offset : ℕ) : Exchange :=
  ⟨wideBlock index, .OK, some (.write offset (some wideImage), none)⟩

/-- The node after another block. -/
def wideNext (s : Service) : Service :=
  (s.write (writesThrough s wideImage) s.status.received (some wideImage)).service

/-- The node that holds an image of one block. -/
def wideHeld (crc : UInt32) : Service := wideNext (wideBegun 64 crc)

theorem wideBegin_ok (crc : UInt32) : (handle wideSettings smallConfig
    (Service.boot (fun _ => 0) .NONE).faultless (Service.boot (fun _ => 0) .NONE)
    (wideBegin 64 crc)).status = .OK := rfl

/-- A block is handled. -/
theorem wide_handled (s : Service) (index : UInt16) :
    ExchangeStep wideSettings smallConfig s ⟨wideBlock index,
      (handleBlock wideSettings smallConfig (writesThrough s wideImage) s (wideBlock index)).status,
      (handleBlock wideSettings smallConfig (writesThrough s wideImage) s (wideBlock index)).call⟩
      (handleBlock wideSettings smallConfig (writesThrough s wideImage) s
        (wideBlock index)).service := by
  have hbegin : Opcode.BLOCK.toByte ≠ Opcode.BEGIN.toByte := by decide
  have habort : Opcode.BLOCK.toByte ≠ Opcode.ABORT.toByte := by decide
  have h : ExchangeStep wideSettings smallConfig s _ _ := .handle (wideBlock index)
    (writesThrough s wideImage)
    ⟨(s.faultless_lawful smallConfig).flushed, (s.faultless_lawful smallConfig).trailer⟩
    ⟨rfl, rfl, rfl, rfl, rfl, rfl⟩ hbegin habort
  rwa [handle_of_block rfl] at h

/-- The block that is expected is accepted, if it is written. -/
theorem wide_accepted {s : Service} {index : UInt16} (hstate : s.status.state = .RECEIVING)
    (hreceived : s.status.received = 64 * index.toNat)
    (hres : (s.write (writesThrough s wideImage) s.status.received (some wideImage)).result = none) :
    ExchangeStep wideSettings smallConfig s (wideExchange index s.status.received) (wideNext s) := by
  have hcheck : checkBlock wideSettings s.status (wideBlock index) = none := by
    have hindex : (wideBlock index).blockIndex.toNat =
        s.status.received / wideSettings.blockSize := by
      rw [hreceived]
      exact (Nat.mul_div_cancel_left _ (by decide)).symm
    have hsize : (wideBlock index).data.length = wideSettings.blockSize := rfl
    have hcrc : crc32 (wideBlock index).data = (wideBlock index).argument := rfl
    unfold checkBlock
    rw [if_neg (by rw [hsize]; decide), if_neg (not_not.2 hstate), if_neg (not_not.2 hindex),
      if_neg (fun h => h.2 hsize), if_neg (not_not.2 hcrc)]
  have h := wide_handled s index
  unfold handleBlock at h
  rw [hcheck] at h
  simp only [perform, Service.exec, show (wideBlock index).data = wideImage from rfl, hres] at h
  exact h

/-- Another block is refused. -/
theorem wide_refused {s : Service} {index : UInt16} {expected : ℕ}
    (hstate : s.status.state = .RECEIVING) (hreceived : s.status.received = 64 * expected)
    (hne : index.toNat ≠ expected) :
    ExchangeStep wideSettings smallConfig s ⟨wideBlock index, .OUT_OF_ORDER, none⟩ s := by
  have hcheck : checkBlock wideSettings s.status (wideBlock index) = some .OUT_OF_ORDER := by
    have hindex : (wideBlock index).blockIndex.toNat ≠
        s.status.received / wideSettings.blockSize := by
      rw [hreceived]
      exact fun h => hne (h.trans (Nat.mul_div_cancel_left expected (by decide)))
    have hsize : (wideBlock index).data.length = wideSettings.blockSize := rfl
    unfold checkBlock
    rw [if_neg (by rw [hsize]; decide), if_neg (not_not.2 hstate), if_pos hindex]
  have h := wide_handled s index
  unfold handleBlock at h
  rw [hcheck] at h
  exact h

theorem wide_run (crc : UInt32) : Run (ExchangeStep wideSettings smallConfig) (wideBegun 64 crc)
    [wideExchange 0 0] (wideHeld crc) :=
  .single (wide_accepted rfl rfl rfl)

/-- Two blocks, of which the second comes too early and the first comes twice. -/
theorem wide_run_two : Run (ExchangeStep wideSettings smallConfig) (wideBegun 128 0)
    [⟨wideBlock 1, .OUT_OF_ORDER, none⟩, wideExchange 0 0, ⟨wideBlock 0, .OUT_OF_ORDER, none⟩,
      wideExchange 1 64] (wideNext (wideNext (wideBegun 128 0))) :=
  .cons (@wide_refused _ 1 0 rfl rfl (by decide)) (.cons (wide_accepted rfl rfl rfl)
    (.cons (@wide_refused _ 0 1 rfl rfl (by decide))
      (.single (wide_accepted rfl rfl rfl))))

/-- Each of them is accepted once. -/
theorem blocks_received_wide : BlocksReceived wideSettings smallConfig 128
    [⟨wideBlock 1, .OUT_OF_ORDER, none⟩, wideExchange 0 0, ⟨wideBlock 0, .OUT_OF_ORDER, none⟩,
      wideExchange 1 64] (wideNext (wideNext (wideBegun 128 0))) :=
  (blocks_received (m := wideBegin 128 0) rfl rfl wide_run_two).1

/-- A request with no more than an opcode. -/
def plainRequest (op : Opcode) : Message := ⟨op.toByte, 0, 0, 0, 0, []⟩

/-- **A VERIFY that erases the slot.**  The image is complete and does not have the checksum that
was declared; the answer is BAD_IMAGE. -/
theorem mismatch_erases : ¬ ∀ (lite : Settings) (cfg : Config) (env : Env) (s₀ : Service)
    (m : Message) (es : List Exchange) (s t : Service) (e : Exchange),
    m.opcode = Opcode.BEGIN.toByte → (handle lite cfg env s₀ m).status = .OK →
      Run (ExchangeStep lite cfg) (handle lite cfg env s₀ m).service es s →
      ExchangeStep lite cfg s e t → e.status ≠ .OK →
      t.status.received = s.status.received ∧ t.slot = s.slot := by
  intro h
  have hcrc : crc32 wideImage ≠ crc32 wideImage + 1 := by
    intro heq
    have hnat := congrArg UInt32.toNat heq
    rw [UInt32.toNat_add, UInt32.toNat_one] at hnat
    omega
  have hverify : (wideHeld (crc32 wideImage + 1)).verify
      (wideHeld (crc32 wideImage + 1)).faultless =
      ⟨{ (wideHeld (crc32 wideImage + 1)).fail with slot := fun _ => 255 }, some .EILSEQ,
        [⟨.erase, wideHeld (crc32 wideImage + 1)⟩]⟩ := by
    have hstate : (wideHeld (crc32 wideImage + 1)).status.state = .RECEIVING := rfl
    have hlen : (wideHeld (crc32 wideImage + 1)).status.received =
        (wideHeld (crc32 wideImage + 1)).status.totalSize := rfl
    have hactual : (wideHeld (crc32 wideImage + 1)).status.actualCrc32 ≠
        (wideHeld (crc32 wideImage + 1)).status.expectedCrc32 := hcrc
    unfold Service.verify
    rw [if_neg (by rw [hstate]; decide), if_neg (not_not.2 hstate), if_neg (not_not.2 hlen),
      if_pos hactual]
    rfl
  have hstep : ExchangeStep wideSettings smallConfig _ _ _ := .handle (plainRequest .VERIFY)
    (wideHeld (crc32 wideImage + 1)).faultless
    ((wideHeld (crc32 wideImage + 1)).faultless_lawful smallConfig)
    ⟨rfl, rfl, rfl, rfl, rfl, rfl⟩ (by decide) (by decide)
  rw [handle_of_verify rfl] at hstep
  simp only [perform, Service.exec, hverify] at hstep
  have hsame := (h _ _ _ _ (wideBegin 64 (crc32 wideImage + 1)) _ _ _ _ rfl (wideBegin_ok _)
    (wide_run _) hstep (by decide)).2
  exact absurd (congrFun hsame 4096) (by decide)

/-- A bootloader that writes to the trailer, and does not report the swap. -/
def unscheduled (s : Service) : Env :=
  { s.faultless with
    upgrade := ⟨none, fun slot k => if k = 16383 then 0 else slot k⟩
    swapAfter := .NONE }

theorem unscheduled_lawful (s : Service) : (unscheduled s).Lawful smallConfig s := by
  refine ⟨(s.faultless_lawful smallConfig).flushed, fun slot k hk => ?_⟩
  have hlast : smallConfig.partition - smallConfig.sector = 12288 := rfl
  have hend : smallConfig.partition = 16384 := rfl
  rw [hlast, hend] at hk
  exact if_neg (by omega)

/-- **A START_FLASHING that is refused** by the bootloader has written to the slot. -/
theorem refusal_writes : ∃ s e t, s = wideHeld (crc32 wideImage) ∧
    ExchangeStep wideSettings smallConfig s e t ∧ e.status = .FAILED ∧ t.slot ≠ s.slot := by
  set s := wideHeld (crc32 wideImage) with hs
  have hstate : s.status.state = .RECEIVING := rfl
  have hlen : s.status.received = s.status.totalSize := rfl
  have hcrc : s.status.actualCrc32 = s.status.expectedCrc32 := rfl
  have hverify : s.verify (unscheduled s) =
      ⟨{ s with
          slot := (unscheduled s).flush.slot s.slot
          status := { s.status with state := .VERIFIED } }, none, [⟨.write, s⟩]⟩ := by
    unfold Service.verify
    rw [if_neg (by rw [hstate]; decide), if_neg (not_not.2 hstate), if_neg (not_not.2 hlen),
      if_neg (not_not.2 hcrc)]
    rfl
  have hstep : ExchangeStep wideSettings smallConfig _ _ _ := .handle
    (plainRequest .START_FLASHING) (unscheduled s) (unscheduled_lawful s)
    ⟨rfl, rfl, rfl, rfl, rfl, rfl⟩ (by decide) (by decide)
  have hfinish : handle wideSettings smallConfig (unscheduled s) s (plainRequest .START_FLASHING) =
      perform smallConfig (unscheduled s) s .finish := rfl
  rw [hfinish] at hstep
  simp only [perform, Service.exec, Service.finish, hverify] at hstep
  refine ⟨s, _, _, rfl, hstep, rfl, fun hsame => ?_⟩
  exact absurd (congrFun hsame 16383) (by decide)

end KfswServices.Fwu.Lite
