/-
# The codec of the file transfer

What `kfsw_ftp_protocol_encode` and `kfsw_ftp_protocol_decode` of `src/ftp/ftp_protocol.c` are to
each other, on all messages and all buffers.  Twenty-four bytes and more are a header with
something behind it, and if the two lengths of the header add up to what is behind it, the bytes are
those of a message (`eq_bytes`).

`protocolDecodeWithin` is the decoder once more, as it reads the buffer; a read outside of it would
be a failure, and there is none (`protocolDecodeWithin_eq`).
-/

import KfswServices.Ftp.Protocol
import KfswServices.Library.Within

namespace KfswServices.Ftp

open Library

/-- What the encoder accepts, and what comes of it. -/
theorem protocolEncode_eq_ok {capacity : ℕ} {m : Message} {bytes : List UInt8} :
    protocolEncode capacity m = .ok bytes ↔
      ¬ (m.opcode < opMkdirRequest ∨ opGetResult < m.opcode) ∧ m.path.length ≤ maxPathSize ∧
        m.data.length ≤ chunkSize ∧
        protocolHeaderSize + m.path.length + m.data.length ≤ capacity ∧ bytes = m.bytes := by
  unfold protocolEncode
  rw [ite_error_eq_ok, ite_error_eq_ok, ← or_assoc, not_or, not_or (p := maxPathSize < _), not_lt,
    not_lt, not_lt, Except.ok.injEq, eq_comm (a := bytes), and_assoc, and_assoc]
  exact Iff.rfl

theorem length_bytes (m : Message) :
    m.bytes.length = protocolHeaderSize + m.path.length + m.data.length := by
  simp only [Message.bytes, List.length_append, List.length_cons, List.length_nil,
    length_putBe16, length_putBe32, protocolHeaderSize]
  omega

/-- A buffer with a header. -/
theorem exists_header {buffer : List UInt8} (h : protocolHeaderSize ≤ buffer.length) :
    ∃ (version opcode flags status : UInt8) (requestId offset totalSize crc32 : UInt32)
      (pathSize dataSize : UInt16) (rest : List UInt8),
      buffer = [version, opcode, flags, status] ++ (putBe32 requestId ++ (putBe32 offset ++
        (putBe32 totalSize ++ (putBe32 crc32 ++ (putBe16 pathSize ++ (putBe16 dataSize ++
          rest)))))) := by
  have hheader : protocolHeaderSize = 24 := rfl
  obtain ⟨v, o, f, s, bs, rfl⟩ : ∃ v o f s bs, buffer = v :: o :: f :: s :: bs := by
    match buffer, h with
    | v :: o :: f :: s :: bs, _ => exact ⟨v, o, f, s, bs, rfl⟩
  simp only [List.length_cons] at h
  obtain ⟨requestId, bs, rfl, hlen⟩ := exists_eq_putBe32 (show 4 ≤ bs.length by omega)
  obtain ⟨offset, bs, rfl, hlen'⟩ := exists_eq_putBe32 (show 4 ≤ bs.length by omega)
  obtain ⟨totalSize, bs, rfl, hlen''⟩ := exists_eq_putBe32 (show 4 ≤ bs.length by omega)
  obtain ⟨crc32, bs, rfl, hlen₃⟩ := exists_eq_putBe32 (show 4 ≤ bs.length by omega)
  obtain ⟨pathSize, bs, rfl, hlen₄⟩ := exists_eq_putBe16 (show 2 ≤ bs.length by omega)
  obtain ⟨dataSize, bs, rfl, -⟩ := exists_eq_putBe16 (show 2 ≤ bs.length by omega)
  exact ⟨v, o, f, s, requestId, offset, totalSize, crc32, pathSize, dataSize, bs, rfl⟩

/-- **A buffer that is accepted** is the bytes of the message that comes of it. -/
theorem eq_bytes {buffer : List UInt8} {m : Message} (h : protocolDecode buffer = .ok m) :
    buffer = m.bytes ∧ ¬ (m.opcode < opMkdirRequest ∨ opGetResult < m.opcode) ∧
      m.path.length ≤ maxPathSize ∧ m.data.length ≤ chunkSize ∧ 0 ∉ m.path := by
  have hlong : protocolHeaderSize ≤ buffer.length := by
    by_contra hshort
    rw [protocolDecode, if_pos (not_le.1 hshort)] at h
    cases h
  obtain ⟨v, o, f, s, requestId, offset, totalSize, crc32, pathSize, dataSize, rest, rfl⟩ :=
    exists_header hlong
  obtain ⟨i₀, i₁, i₂, i₃, hi, gi⟩ := exists_putBe32 requestId
  obtain ⟨o₀, o₁, o₂, o₃, ho, go⟩ := exists_putBe32 offset
  obtain ⟨t₀, t₁, t₂, t₃, ht, gt⟩ := exists_putBe32 totalSize
  obtain ⟨c₀, c₁, c₂, c₃, hc, gc⟩ := exists_putBe32 crc32
  obtain ⟨p₀, p₁, hp, gp⟩ := exists_putBe16 pathSize
  obtain ⟨d₀, d₁, hd, gd⟩ := exists_putBe16 dataSize
  rw [hi, ho, ht, hc, hp, hd] at h
  simp only [protocolDecode, List.cons_append, List.nil_append, List.length_cons,
    List.getD_cons_zero, List.getD_cons_succ, List.drop_succ_cons, List.drop_zero, gp, gd, gi, go,
    gt, gc, ← List.drop_drop, ite_error_eq_ok, Except.ok.injEq, not_not] at h
  obtain ⟨-, rfl, hop, hsizes, htotal, hnul, rfl⟩ := h
  rw [not_or, not_lt, not_lt] at hsizes
  have hrest : pathSize.toNat + dataSize.toNat = rest.length := by
    have hheader : protocolHeaderSize = 24 := rfl
    omega
  have hpath : (rest.take pathSize.toNat).length = pathSize.toNat := by
    rw [List.length_take]
    omega
  have hdata : ((rest.drop pathSize.toNat).take dataSize.toNat).length = dataSize.toNat := by
    rw [List.length_take, List.length_drop]
    omega
  have hall : (rest.drop pathSize.toNat).take dataSize.toNat = rest.drop pathSize.toNat := by
    rw [List.take_of_length_le]
    rw [List.length_drop]
    omega
  refine ⟨?_, hop, hpath.trans_le hsizes.1, hdata.trans_le hsizes.2, hnul⟩
  show _ = Message.bytes _
  unfold Message.bytes
  simp only [hpath, hdata, UInt16.ofNat_toNat]
  rw [hall, List.take_append_drop]

/-- `kfsw_ftp_protocol_decode`, with its reads of the buffer. -/
def protocolDecodeWithin (buffer : List UInt8) : Option (Except Errno Message) :=
  if buffer.length < protocolHeaderSize then some (.error .EMSGSIZE)
  else do
    let version ← byteAt buffer 0
    if version ≠ protocolVersion then return .error .EPROTONOSUPPORT
    else
      let opcode ← byteAt buffer 1
      if opcode < opMkdirRequest ∨ opGetResult < opcode then return .error .ENOTSUP
      else
        let flags ← byteAt buffer 2
        let status ← byteAt buffer 3
        let requestId ← be32At buffer 4
        let offset ← be32At buffer 8
        let totalSize ← be32At buffer 12
        let crc32 ← be32At buffer 16
        let pathSize := (← be16At buffer 20).toNat
        let dataSize := (← be16At buffer 22).toNat
        if maxPathSize < pathSize ∨ chunkSize < dataSize then return .error .EMSGSIZE
        else if protocolHeaderSize + pathSize + dataSize ≠ buffer.length then
          return .error .EMSGSIZE
        else
          let path ← bytesAt buffer protocolHeaderSize pathSize
          let data ← bytesAt buffer (protocolHeaderSize + pathSize) dataSize
          if 0 ∈ path then return .error .EBADMSG
          else return .ok ⟨opcode, flags, status, requestId, offset, totalSize, crc32, path, data⟩

/-- **The decoder stays inside the buffer**, whatever is in it. -/
theorem protocolDecodeWithin_eq (buffer : List UInt8) :
    protocolDecodeWithin buffer = some (protocolDecode buffer) := by
  have hheader : protocolHeaderSize = 24 := rfl
  unfold protocolDecodeWithin protocolDecode
  by_cases hshort : buffer.length < protocolHeaderSize
  · rw [if_pos hshort, if_pos hshort]
  have hlong : 24 ≤ buffer.length := not_lt.1 hshort
  rw [if_neg hshort, if_neg hshort]
  simp only [byteAt_eq (show 0 < buffer.length by omega),
    byteAt_eq (show 1 < buffer.length by omega), byteAt_eq (show 2 < buffer.length by omega),
    byteAt_eq (show 3 < buffer.length by omega), be32At_eq (show 4 + 4 ≤ buffer.length by omega),
    be32At_eq (show 8 + 4 ≤ buffer.length by omega),
    be32At_eq (show 12 + 4 ≤ buffer.length by omega),
    be32At_eq (show 16 + 4 ≤ buffer.length by omega),
    be16At_eq (show 20 + 2 ≤ buffer.length by omega),
    be16At_eq (show 22 + 2 ≤ buffer.length by omega), Option.bind_eq_bind, Option.bind_some]
  by_cases hversion : buffer.getD 0 0 ≠ protocolVersion
  · rw [if_pos hversion, if_pos hversion]
    rfl
  rw [if_neg hversion, if_neg hversion]
  by_cases hop : buffer.getD 1 0 < opMkdirRequest ∨ opGetResult < buffer.getD 1 0
  · rw [if_pos hop, if_pos hop]
    rfl
  rw [if_neg hop, if_neg hop]
  by_cases hsizes : maxPathSize < (getBe16 (buffer.drop 20)).toNat ∨
      chunkSize < (getBe16 (buffer.drop 22)).toNat
  · rw [if_pos hsizes, if_pos hsizes]
    rfl
  rw [if_neg hsizes, if_neg hsizes]
  by_cases htotal : protocolHeaderSize + (getBe16 (buffer.drop 20)).toNat +
      (getBe16 (buffer.drop 22)).toNat ≠ buffer.length
  · rw [if_pos htotal, if_pos htotal]
    rfl
  rw [if_neg htotal, if_neg htotal, bytesAt_eq (by omega), bytesAt_eq (by omega), Option.bind_some,
    Option.bind_some]
  split
  · rfl
  · rfl

/-- **The codec.**  A message without a terminator in its path is what its encoding is decoded as; a
buffer that is accepted is what the message that comes of it is encoded as; the decoder stays inside
the buffer; and of what the encoder makes it refuses only what has a terminator in the path. -/
theorem protocol_codec :
    (∀ (capacity : ℕ) (m : Message) (bytes : List UInt8), protocolEncode capacity m = .ok bytes →
      0 ∉ m.path → protocolDecode bytes = .ok m) ∧
    (∀ (buffer : List UInt8) (m : Message) (capacity : ℕ), protocolDecode buffer = .ok m →
      buffer.length ≤ capacity → protocolEncode capacity m = .ok buffer) ∧
    (∀ buffer : List UInt8, protocolDecodeWithin buffer = some (protocolDecode buffer)) ∧
    ∀ (capacity : ℕ) (m : Message) (bytes : List UInt8), protocolEncode capacity m = .ok bytes →
      ((∃ e, protocolDecode bytes = .error e) ↔ 0 ∈ m.path) := by
  refine ⟨?_, ?_, protocolDecodeWithin_eq, ?_⟩
  · intro capacity m bytes h hnul
    obtain ⟨hop, hpath, hdata, -, rfl⟩ := protocolEncode_eq_ok.1 h
    rw [protocolDecode_bytes hop hpath hdata, if_neg hnul]
  · intro buffer m capacity h hcapacity
    obtain ⟨rfl, hop, hpath, hdata, -⟩ := eq_bytes h
    rw [length_bytes] at hcapacity
    exact protocolEncode_eq_ok.2 ⟨hop, hpath, hdata, hcapacity, rfl⟩
  · intro capacity m bytes h
    obtain ⟨hop, hpath, hdata, -, rfl⟩ := protocolEncode_eq_ok.1 h
    rw [protocolDecode_bytes hop hpath hdata]
    constructor
    · rintro ⟨e, he⟩
      by_contra hnul
      rw [if_neg hnul] at he
      cases he
    · intro hnul
      exact ⟨.EBADMSG, if_pos hnul⟩

end KfswServices.Ftp
