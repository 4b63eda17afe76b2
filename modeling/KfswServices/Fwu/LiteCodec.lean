/-
# The codec of the block upload protocol

`kfsw_fwu_lite_encode` and `kfsw_fwu_lite_decode` of `src/fwu/fwu_lite_protocol.c`, on buffers of
any size.  Twelve bytes and more are the bytes of a message (`exists_bytes`), so what is decoded of
a buffer can be read off the message (`decode_bytes`).

The size of the payload is taken in 16 bits before it is compared with the block size.  A buffer
with `2 ^ 16` bytes of payload or more is accepted if what is left of its size fits a block, and
then most of it is dropped (`codec_exact_iff`).
-/

import KfswServices.Fwu.Lite

namespace KfswServices.Fwu.Lite

open Library

/-- A buffer with a header is the bytes of a message. -/
theorem exists_bytes {buffer : List UInt8} (h : headerSize ≤ buffer.length) :
    ∃ m : Message, m.bytes = buffer := by
  match buffer, h with
  | o :: s :: a :: b :: c :: d :: e :: f :: g :: i :: j :: k :: data, _ =>
    refine ⟨⟨o, s, getBe16 [a, b], getBe32 [c, d, e, f], getBe32 [g, i, j, k], data⟩, ?_⟩
    rw [Message.bytes, putBe16_getBe16, putBe32_getBe32, putBe32_getBe32]
    rfl

@[simp] theorem length_bytes (m : Message) : m.bytes.length = headerSize + m.data.length := by
  simp only [Message.bytes, List.length_append, List.length_cons, List.length_nil, length_putBe16,
    length_putBe32, headerSize]
  omega

/-- **What is decoded of the bytes of a message**: the message, with as much of its payload as 16
bits of the size say. -/
theorem decode_bytes (lite : Settings) (m : Message) :
    decode lite m.bytes =
      if Opcode.ofByte? m.opcode = none then .error .EBADMSG
      else if lite.blockSize < m.data.length % 2 ^ 16 then .error .EMSGSIZE
      else .ok { m with data := m.data.take (m.data.length % 2 ^ 16) } := by
  obtain ⟨i₀, i₁, hi, gi⟩ := exists_putBe16 m.blockIndex
  obtain ⟨a₀, a₁, a₂, a₃, ha, ga⟩ := exists_putBe32 m.argument
  obtain ⟨x₀, x₁, x₂, x₃, hx, gx⟩ := exists_putBe32 m.extra
  have hlong : ¬ m.bytes.length < headerSize := by
    rw [length_bytes]
    omega
  have hsize : m.bytes.length - headerSize = m.data.length := by
    rw [length_bytes]
    omega
  have hbytes : m.bytes = m.opcode :: m.status :: i₀ :: i₁ :: a₀ :: a₁ :: a₂ :: a₃ :: x₀ :: x₁ ::
      x₂ :: x₃ :: m.data := by
    rw [Message.bytes, hi, ha, hx]
    rfl
  unfold decode
  rw [if_neg hlong, hsize, hbytes]
  simp only [headerSize, List.getD_cons_zero, List.getD_cons_succ, List.drop_succ_cons,
    List.drop_zero, gi, ga, gx, gt_iff_lt]

/-- What is to hold of a buffer: it is accepted if it is a header with at most a block behind it and
a known opcode, and then it is what the decoded message is encoded as. -/
structure Exact (lite : Settings) (buffer : List UInt8) : Prop where
  accepted : (∃ m, decode lite buffer = .ok m) ↔ headerSize ≤ buffer.length ∧
    buffer.length ≤ headerSize + lite.blockSize ∧ Opcode.ofByte? (buffer.getD 0 0) ≠ none
  reproduced : ∀ m, decode lite buffer = .ok m →
    ∀ capacity, buffer.length ≤ capacity → encode lite capacity m = .ok buffer

/-- A buffer that is refused, and should be. -/
theorem exact_of_refused {lite : Settings} {buffer : List UInt8} {e : Errno}
    (h : decode lite buffer = .error e)
    (hno : ¬ (headerSize ≤ buffer.length ∧ buffer.length ≤ headerSize + lite.blockSize ∧
      Opcode.ofByte? (buffer.getD 0 0) ≠ none)) : Exact lite buffer := by
  refine ⟨⟨?_, fun hyes => absurd hyes hno⟩, ?_⟩
  · rintro ⟨m, hm⟩
    rw [h] at hm
    cases hm
  · intro m hm
    rw [h] at hm
    cases hm

/-- The size of the payload is not what is left of it in 16 bits, and that fits a block. -/
def Wraps (lite : Settings) (buffer : List UInt8) : Prop :=
  Opcode.ofByte? (buffer.getD 0 0) ≠ none ∧ headerSize + 2 ^ 16 ≤ buffer.length ∧
    (buffer.length - headerSize) % 2 ^ 16 ≤ lite.blockSize

/-- **The codec.**  A message with a known opcode and at most a block of payload is what its
encoding is decoded as.  A buffer is accepted exactly if it should be, and then reproduced, unless
its size wraps round to one that fits. -/
theorem codec_exact_iff (lite : Settings) :
    (∀ (m : Message) (capacity : ℕ), Opcode.ofByte? m.opcode ≠ none →
        m.data.length ≤ lite.blockSize → headerSize + m.data.length ≤ capacity →
          ∃ bytes, encode lite capacity m = .ok bytes ∧ decode lite bytes = .ok m) ∧
      ∀ buffer : List UInt8, Exact lite buffer ↔ ¬ Wraps lite buffer := by
  have hblock := lite.block_le
  constructor
  · intro m capacity hop hdata hcapacity
    have hencode : encode lite capacity m = .ok m.bytes := by
      rw [encode, if_neg (not_lt.2 hdata), if_neg (not_lt.2 hcapacity)]
    exact ⟨m.bytes, hencode, decode_encode hencode hop⟩
  · intro buffer
    constructor
    · rintro h ⟨hop, hlong, hfits⟩
      obtain ⟨m, rfl⟩ := exists_bytes (show headerSize ≤ buffer.length by omega)
      rw [length_bytes] at hlong hfits
      have hop' : Opcode.ofByte? m.opcode ≠ none := hop
      have hok := decode_bytes lite m
      rw [if_neg hop', if_neg (by omega)] at hok
      have haccepted := (h.accepted.1 ⟨_, hok⟩).2.1
      rw [length_bytes] at haccepted
      omega
    · intro hwraps
      by_cases hshort : buffer.length < headerSize
      · exact exact_of_refused (if_pos hshort) fun h => absurd h.1 (not_le.2 hshort)
      obtain ⟨m, rfl⟩ := exists_bytes (not_lt.1 hshort)
      have hop : Opcode.ofByte? (m.bytes.getD 0 0) = Opcode.ofByte? m.opcode := rfl
      have hdecode := decode_bytes lite m
      unfold Wraps at hwraps
      rw [length_bytes, hop] at hwraps
      by_cases hunknown : Opcode.ofByte? m.opcode = none
      · rw [if_pos hunknown] at hdecode
        exact exact_of_refused hdecode fun h => absurd (hop.trans hunknown) h.2.2
      rw [if_neg hunknown] at hdecode
      by_cases hlarge : lite.blockSize < m.data.length
      · -- what is left of the size in 16 bits is too large as well
        have hleft : lite.blockSize < m.data.length % 2 ^ 16 := by
          by_contra hfits
          refine hwraps ⟨hunknown, ?_, ?_⟩
          · omega
          · omega
        rw [if_pos hleft] at hdecode
        refine exact_of_refused hdecode fun h => ?_
        rw [length_bytes] at h
        omega
      · have hmod : m.data.length % 2 ^ 16 = m.data.length := Nat.mod_eq_of_lt (by omega)
        rw [hmod, if_neg hlarge, List.take_length] at hdecode
        refine ⟨⟨fun _ => ⟨?_, ?_, ?_⟩, fun _ => ⟨m, hdecode⟩⟩, ?_⟩
        · rw [length_bytes]
          omega
        · rw [length_bytes]
          omega
        · rw [hop]
          exact hunknown
        · intro m' hm' capacity hcapacity
          obtain rfl := Except.ok.inj (hdecode.symm.trans hm')
          rw [length_bytes] at hcapacity
          rw [encode, if_neg hlarge, if_neg (not_lt.2 hcapacity)]

/-- **A payload that is dropped.**  A STATUS with `2 ^ 16` bytes behind its header is accepted, as
one without a payload. -/
theorem long_status_accepted : ¬ ∀ buffer : List UInt8, Exact smallSettings buffer := by
  intro h
  obtain ⟨data, hdata⟩ : ∃ data : List UInt8, data.length = 2 ^ 16 :=
    ⟨List.replicate (2 ^ 16) 0, List.length_replicate⟩
  have hdecode := decode_bytes smallSettings ⟨3, 0, 0, 0, 0, data⟩
  have hknown : Opcode.ofByte? 3 ≠ none := by decide
  rw [if_neg hknown, hdata, if_neg (by decide)] at hdecode
  have hlong := ((h _).accepted.1 ⟨_, hdecode⟩).2.1
  rw [length_bytes, hdata] at hlong
  exact absurd hlong (by decide)

end KfswServices.Fwu.Lite
