/-
# What a sweep reads

`image_length` and the loop of `measure` of `src/scrub/scrub.c`: which bytes of an area are read,
for any header.

The two sizes of a header are added in 32 bits.  As long as the sum does not wrap round to what is
still an image in the area, the length is the sum, the chunks are the bytes of the image, each once
and in order, and the checksum is theirs (`measure_exact_iff`).
-/

import KfswServices.Scrub.Sweep

namespace KfswServices.Scrub

open Library

/-- The size of the header, as the header says it. -/
def headerSize (header : List UInt8) : ℕ := getLe (region header 8 2)

/-- The size of what is behind the header, as the header says it. -/
def imageSize (header : List UInt8) : ℕ := (getLe32 (header.drop 12)).toNat

theorem headerSize_lt (header : List UInt8) : headerSize header < 2 ^ 32 := by
  have hlt := getLe_lt (region header 8 2)
  have hpow : 256 ^ (region header 8 2).length ≤ 256 ^ 2 :=
    Nat.pow_le_pow_right (by decide) (by rw [length_region]; omega)
  exact lt_of_lt_of_le hlt (hpow.trans (by decide))

theorem imageSize_lt (header : List UInt8) : imageSize header < 2 ^ 32 :=
  (getLe32 (header.drop 12)).toNat_lt

/-- The reads of the loop of `measure`, as offsets in the area and lengths. -/
def spans (offset length done : ℕ) : List (ℕ × ℕ) :=
  if done < length then
    (offset + done, min scrubChunk (length - done)) ::
      spans offset length (done + min scrubChunk (length - done))
  else []
termination_by length - done
decreasing_by
  have : 0 < scrubChunk := by decide
  omega

/-- Some reads, and the checksum over what they give. -/
def readSpans {size : ℕ} (area : Area size) : List (ℕ × ℕ) → UInt32 → Bool × UInt32
  | [], crc => (true, crc)
  | (offset, length) :: rest, crc =>
    match area.read offset length with
    | none => (false, crc)
    | some chunk => readSpans area rest (crc32Update crc chunk)

/-- The loop makes these reads. -/
theorem crcFrom_eq_readSpans {size : ℕ} (area : Area size) (offset length done : ℕ) (crc : UInt32) :
    crcFrom area offset length done crc = readSpans area (spans offset length done) crc := by
  induction hn : length - done using Nat.strong_induction_on generalizing done crc with
  | _ n ih =>
    unfold crcFrom spans
    by_cases hlt : done < length
    · have hpos : 0 < min scrubChunk (length - done) := by
        have : 0 < scrubChunk := by decide
        omega
      rw [if_pos hlt, if_pos hlt, readSpans]
      cases area.read (offset + done) (min scrubChunk (length - done)) with
      | none => rfl
      | some chunk => exact ih _ (by omega) _ _ rfl
    · rw [if_neg hlt, if_neg hlt]
      rfl

/-- **The reads are the range**, every offset once and in order. -/
theorem spans_range (offset length done : ℕ) :
    (spans offset length done).flatMap (fun s => List.range' s.1 s.2) =
      List.range' (offset + done) (length - done) := by
  induction hn : length - done using Nat.strong_induction_on generalizing done with
  | _ n ih =>
    unfold spans
    by_cases hlt : done < length
    · have hpos : 0 < min scrubChunk (length - done) := by
        have : 0 < scrubChunk := by decide
        omega
      have hsplit : n = min scrubChunk (length - done) +
          (length - (done + min scrubChunk (length - done))) := by omega
      rw [if_pos hlt, List.flatMap_cons, ih _ (by omega) _ rfl, ← Nat.add_assoc]
      conv_rhs => rw [hsplit, ← List.range'_append_1]
    · rw [if_neg hlt, ← hn, show length - done = 0 by omega]
      rfl

/-- A read is of some bytes, of a chunk at most, and inside the range. -/
theorem mem_spans {offset length done : ℕ} {s : ℕ × ℕ} (h : s ∈ spans offset length done) :
    0 < s.2 ∧ s.2 ≤ scrubChunk ∧ offset + done ≤ s.1 ∧ s.1 + s.2 ≤ offset + length := by
  induction hn : length - done using Nat.strong_induction_on generalizing done with
  | _ n ih =>
    unfold spans at h
    by_cases hlt : done < length
    · have hpos : 0 < scrubChunk := by decide
      rw [if_pos hlt, List.mem_cons] at h
      rcases h with rfl | h
      · dsimp only
        omega
      · have hrest := ih _ (by omega) h rfl
        omega
    · rw [if_neg hlt] at h
      cases h

variable {b : Build} {r : Region}

/-- **What `image_length` returns**: the sum of the two sizes, as 32 bits have it. -/
theorem imageLength_eq_ok_iff {area : Area (b.size r)} {length : UInt32} :
    imageLength b r area = .ok length ↔ ∃ header,
      area.read (b.imageOffset r) imageHeaderRead = some header ∧
        getLe32 header = imageHeaderMagic ∧ headerSize header ≠ 0 ∧ imageSize header ≠ 0 ∧
        (headerSize header + imageSize header) % 2 ^ 32 ≤ b.size r - b.imageOffset r ∧
        length.toNat = (headerSize header + imageSize header) % 2 ^ 32 := by
  unfold imageLength
  cases area.read (b.imageOffset r) imageHeaderRead with
  | none => simp
  | some header =>
    have hheader : (UInt32.ofNat (getLe (region header 8 2))).toNat = headerSize header := by
      rw [UInt32.toNat_ofNat']
      exact Nat.mod_eq_of_lt (headerSize_lt header)
    have hzero : UInt32.ofNat (getLe (region header 8 2)) = 0 ↔ headerSize header = 0 := by
      rw [← UInt32.toNat_inj, hheader]
      rfl
    have hzero' : getLe32 (header.drop 12) = 0 ↔ imageSize header = 0 := by
      rw [← UInt32.toNat_inj]
      rfl
    have hsum : (UInt32.ofNat (getLe (region header 8 2)) + getLe32 (header.drop 12)).toNat =
        (headerSize header + imageSize header) % 2 ^ 32 := by
      rw [UInt32.toNat_add, hheader]
      rfl
    dsimp only
    rw [ite_error_eq_ok, ite_error_eq_ok, ite_error_eq_ok, hzero, hzero', hsum]
    constructor
    · rintro ⟨hmagic, hsizes, hfit, hlength⟩
      rw [not_or] at hsizes
      refine ⟨header, rfl, not_not.1 hmagic, hsizes.1, hsizes.2, not_lt.1 hfit, ?_⟩
      rw [← Except.ok.inj hlength, hsum]
    · rintro ⟨_, hread, hmagic, hheader, himage, hfit, hlength⟩
      obtain rfl := Option.some.inj hread
      refine ⟨not_not.2 hmagic, not_or.2 ⟨hheader, himage⟩, not_lt.2 hfit, congrArg _ ?_⟩
      rw [← UInt32.toNat_inj, hsum, hlength]

/-- What is to hold of a length that `image_length` returns. -/
structure Exact (b : Build) (r : Region) (area : Area (b.size r)) (length : UInt32) : Prop where
  /-- It is the sum of the two sizes. -/
  sum : ∀ header, area.read (b.imageOffset r) imageHeaderRead = some header →
    length.toNat = headerSize header + imageSize header
  /-- The image lies in its area. -/
  fits : b.imageOffset r + length.toNat ≤ b.size r
  /-- The reads are the bytes of the image, each once and in order. -/
  ranges : (spans (b.imageOffset r) length.toNat 0).flatMap (fun s => List.range' s.1 s.2) =
    List.range' (b.imageOffset r) length.toNat
  /-- Every read fills a part of the chunk, and none leaves the area. -/
  inside : ∀ s ∈ spans (b.imageOffset r) length.toNat 0,
    0 < s.2 ∧ s.2 ≤ scrubChunk ∧ s.1 + s.2 ≤ b.size r
  /-- They are what `measure` reads, up to one that the driver fails. -/
  reads : area.opens = true → measure b r area =
    match readSpans area (spans (b.imageOffset r) length.toNat 0) 0 with
    | (true, crc) => ⟨none, length, crc⟩
    | (false, crc) => ⟨some Errno.EIO, 0, crc⟩
  /-- What is measured is the checksum of the image. -/
  crc : (measure b r area).result = none →
    (measure b r area).crc = crc32 (image b r area length.toNat)

/-- The header can be read, and its sizes wrap round to an image that would fit. -/
def Wraps (b : Build) (r : Region) (area : Area (b.size r)) : Prop :=
  ∃ header, area.read (b.imageOffset r) imageHeaderRead = some header ∧
    getLe32 header = imageHeaderMagic ∧ headerSize header ≠ 0 ∧
    2 ^ 32 ≤ headerSize header + imageSize header ∧
    headerSize header + imageSize header - 2 ^ 32 ≤ b.size r - b.imageOffset r

/-- **What is measured**, all but the sum. -/
theorem exact_of_sum {area : Area (b.size r)} {length : UInt32}
    (h : imageLength b r area = .ok length)
    (hsum : ∀ header, area.read (b.imageOffset r) imageHeaderRead = some header →
      length.toNat = headerSize header + imageSize header) : Exact b r area length := by
  have hfits := imageLength_fits h
  refine ⟨hsum, hfits, spans_range _ _ 0, fun s hs => ?_, fun hopens => ?_, fun hresult => ?_⟩
  · have hspan := mem_spans hs
    omega
  · unfold measure
    rw [hopens, if_neg (by decide), h]
    dsimp only
    exact crcFrom_eq_readSpans area (b.imageOffset r) length.toNat 0 0 ▸ rfl
  · obtain ⟨hlength, hcrc⟩ := measure_ok hresult
    rw [h] at hlength
    rw [hcrc, ← Except.ok.inj hlength]

/-- **The length of an image.**  For every area, whatever its header says: a length that
`image_length` returns is the sum of the two sizes, it fits, and `measure` reads the bytes of the
image, each once and in order, and takes their checksum, exactly if the sum does not wrap round to a
length that is left in the area. -/
theorem measure_exact_iff (b : Build) (r : Region) (area : Area (b.size r)) :
    (∀ length, imageLength b r area = .ok length → Exact b r area length) ↔ ¬ Wraps b r area := by
  constructor
  · rintro h ⟨header, hread, hmagic, hheader, hwrap, hfit⟩
    have hheaderLt := headerSize_lt header
    have himageLt := imageSize_lt header
    have hmod : (headerSize header + imageSize header) % 2 ^ 32 =
        headerSize header + imageSize header - 2 ^ 32 := by omega
    have hlength : (UInt32.ofNat (headerSize header + imageSize header)).toNat =
        (headerSize header + imageSize header) % 2 ^ 32 := UInt32.toNat_ofNat'
    have hok := imageLength_eq_ok_iff.2
      ⟨header, hread, hmagic, hheader, by omega, by rw [hmod]; exact hfit, hlength⟩
    have hsum := (h _ hok).sum header hread
    omega
  · intro hwraps length hlength
    refine exact_of_sum hlength fun header hread => ?_
    obtain ⟨header', hread', hmagic, hheader, himage, hfit, hsum⟩ := imageLength_eq_ok_iff.1 hlength
    rw [hread] at hread'
    obtain rfl := Option.some.inj hread'
    have hheaderLt := headerSize_lt header
    have himageLt := imageSize_lt header
    by_contra hne
    refine hwraps ⟨header, hread, hmagic, hheader, ?_, ?_⟩
    · omega
    · omega

/-- A partition of 64 bytes. -/
def smallBuild : Build := ⟨(· = .SLOT0), fun _ => 64, fun _ => 0, fun _ => by decide, true, true⟩

/-- An image whose size has decayed to `0xfffffff0`. -/
def decayedArea : Area 64 :=
  ⟨[0x3d, 0xb8, 0xf3, 0x96, 0, 0, 0, 0, 0x20, 0, 0, 0, 0xf0, 0xff, 0xff, 0xff] ++
    List.replicate 48 0xff, rfl, true, fun _ _ => false⟩

/-- **A size that wraps round.**  The header says `0x20` and `0xfffffff0` bytes, and 16 bytes are
measured. -/
theorem measures_wrapped : ¬ ∀ length, imageLength smallBuild .SLOT0 decayedArea = .ok length →
    Exact smallBuild .SLOT0 decayedArea length := by
  intro h
  have hlength : imageLength smallBuild .SLOT0 decayedArea = .ok 16 := by decide +kernel
  have hread : decayedArea.read 0 imageHeaderRead =
      some [0x3d, 0xb8, 0xf3, 0x96, 0, 0, 0, 0, 0x20, 0, 0, 0, 0xf0, 0xff, 0xff, 0xff] := by
    decide +kernel
  have hsum := (h 16 hlength).sum _ hread
  exact absurd hsum (by decide +kernel)

end KfswServices.Scrub
