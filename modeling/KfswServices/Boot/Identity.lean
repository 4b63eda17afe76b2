/-
# The identity of the running image

`running_image_id` of `src/boot_diagnostics.c`, with every read of the active slot and every sum and
difference it computes in 32 bits.  The identity is the SHA256 record of the image, the first one
that a walk over complete records of the TLV area comes to (`FirstSha256`).

The header is read before anything is compared with the size of the area.  In an area that has room
for a header, every read is inside, nothing wraps round, and an identity is found exactly if there
is one (`identified_iff`).
-/

import KfswServices.Fwu.Extent

namespace KfswServices.Boot

open Library
open Fwu (littleEndian headerSize tlvSize imageMagic tlvInfoMagic toNat_littleEndian)

/-- `KFSW_BOOT_IMAGE_ID_SIZE`. -/
abbrev imageIdSize : ℕ := 32

/-- `IMAGE_TLV_SHA256`. -/
abbrev tlvSha256 : ℕ := 0x10

/-- A turn of the walk comes nearer to the end, also where the offset is behind it. -/
theorem turn_lt {stop offset length : UInt32} (hleft : ¬ stop - offset < 4)
    (hrest : ¬ length > stop - (offset + 4)) :
    (stop - (offset + 4 + length)).toNat < (stop - offset).toNat := by
  rw [UInt32.not_lt, UInt32.le_iff_toNat_le] at hleft hrest
  have hword : (4 : UInt32).toNat = 4 := rfl
  have hstop := stop.toNat_lt
  have hoffset := offset.toNat_lt
  have hlength := length.toNat_lt
  rw [UInt32.toNat_sub] at hleft hrest ⊢
  rw [UInt32.toNat_sub]
  rw [UInt32.toNat_add] at hrest
  rw [UInt32.toNat_add, UInt32.toNat_add]
  omega

/-- The loop of `running_image_id`. -/
def walkRecords (offset stop : UInt32) : Reader Errno (Except Errno (List UInt8)) := do
  let left ← sub32 stop offset
  if left.1 < 4 then return .error .ENOENT
  else
    match ← readBytes offset.toNat tlvSize with
    | .error e => return .error e
    | .ok tlv =>
      let body ← add32 offset 4
      let length := UInt32.ofNat (littleEndian tlv 2 2)
      let rest ← sub32 stop body.1
      if length > rest.1 then return .error .EBADMSG
      else if littleEndian tlv 0 2 = tlvSha256 ∧ length = 32 then
        readBytes body.1.toNat length.toNat
      else
        let next ← add32 body.1 length
        walkRecords next.1 stop
termination_by (stop - offset).toNat
decreasing_by
  rename_i hleft hrest _
  obtain ⟨left, rfl⟩ := left
  obtain ⟨body, rfl⟩ := body
  obtain ⟨rest, rfl⟩ := rest
  obtain ⟨next, rfl⟩ := next
  exact turn_lt hleft hrest

/-- The middle of `running_image_id`: the TLV area at `offset`. -/
def walkArea (size offset : UInt32) : Reader Errno (Except Errno (List UInt8)) := do
  let left ← sub32 size offset
  if left.1 < 4 then return .error .EBADMSG
  else
    match ← readBytes offset.toNat tlvSize with
    | .error e => return .error e
    | .ok info =>
      let length := UInt32.ofNat (littleEndian info 2 2)
      if littleEndian info 0 2 ≠ tlvInfoMagic ∨ length < 4 then return .error .EBADMSG
      else
        let left ← sub32 size offset
        if length > left.1 then return .error .EBADMSG
        else
          let stop ← add32 offset length
          let first ← add32 offset 4
          walkRecords first.1 stop.1

/-- `running_image_id`, once the header has been read. -/
def walkImage (size : UInt32) (header : List UInt8) :
    Reader Errno (Except Errno (List UInt8)) :=
  let hdrSize := UInt32.ofNat (littleEndian header 8 2)
  let bodySize := UInt32.ofNat (littleEndian header 12 4)
  let protectedSize := UInt32.ofNat (littleEndian header 10 2)
  if littleEndian header 0 4 ≠ imageMagic ∨ hdrSize > size then return .error .EBADMSG
  else do
    let left ← sub32 size hdrSize
    if bodySize > left.1 then return .error .EBADMSG
    else
      let left ← sub32 size hdrSize
      let left ← sub32 left.1 bodySize
      if protectedSize > left.1 then return .error .EBADMSG
      else
        let body ← add32 hdrSize bodySize
        let offset ← add32 body.1 protectedSize
        walkArea size offset.1

/-- `running_image_id`: the active slot, opened as an area of some size, or the error of that. -/
def runningImageId (opened : Except Errno UInt32) : Reader Errno (Except Errno (List UInt8)) :=
  match opened with
  | .error e => return .error e
  | .ok size => do
    match ← readBytes 0 headerSize with
    | .error e => return .error e
    | .ok header => walkImage size header

/-! ### What it should find -/

/-- A complete record at an offset, in front of `stop`: its type and its length. -/
structure Record (content : ℕ → UInt8) (offset stop type length : ℕ) : Prop where
  type_eq : littleEndian (window content offset tlvSize) 0 2 = type
  length_eq : littleEndian (window content offset tlvSize) 2 2 = length
  complete : offset + tlvSize + length ≤ stop

/-- The walk over complete records from `offset` to `stop` comes first to the SHA256 record whose
bytes are at `body`. -/
inductive FirstSha256 (content : ℕ → UInt8) (stop : ℕ) : ℕ → ℕ → Prop
  | here {offset : ℕ} (h : Record content offset stop tlvSha256 imageIdSize) :
      FirstSha256 content stop offset (offset + tlvSize)
  | next {offset type length body : ℕ} (h : Record content offset stop type length)
      (hother : ¬ (type = tlvSha256 ∧ length = imageIdSize))
      (hnext : FirstSha256 content stop (offset + tlvSize + length) body) :
      FirstSha256 content stop offset body

/-- A TLV area at `offset` in an area of `size` bytes that its info says is of `total` bytes. -/
structure AreaAt (content : ℕ → UInt8) (size offset total : ℕ) : Prop where
  magic : littleEndian (window content offset tlvSize) 0 2 = tlvInfoMagic
  total_eq : littleEndian (window content offset tlvSize) 2 2 = total
  info : tlvSize ≤ total
  fits : offset + total ≤ size

/-- The header has its magic, and the unprotected TLV area is behind what it describes. -/
structure HeaderAt (content : ℕ → UInt8) (size offset : ℕ) : Prop where
  magic : littleEndian (window content 0 headerSize) 0 4 = imageMagic
  offset_eq : littleEndian (window content 0 headerSize) 8 2 +
    littleEndian (window content 0 headerSize) 12 4 +
    littleEndian (window content 0 headerSize) 10 2 = offset
  fits : offset ≤ size

/-- **The identity** of the image in an area of `size` bytes. -/
def HasIdentity (content : ℕ → UInt8) (size : ℕ) (image : List UInt8) : Prop :=
  ∃ offset total body, HeaderAt content size offset ∧ AreaAt content size offset total ∧
    FirstSha256 content (offset + total) (offset + tlvSize) body ∧
    image = window content body imageIdSize

/-! ### What it finds -/

/-- What is found is what there is; without a failure, what there is is found. -/
def Finds {α : Type} (fails : Prop) (r : Except Errno α) (P : α → Prop) : Prop :=
  (∀ a, r = .ok a → P a) ∧ (¬ fails → ∀ a, P a → r = .ok a)

/-- Nothing is found where there is nothing. -/
theorem Finds.nothing {α : Type} {fails : Prop} {e : Errno} {P : α → Prop} (h : ∀ a, ¬ P a) :
    Finds fails (.error e) P :=
  ⟨fun _ ha => (by cases ha), fun _ a ha => absurd ha (h a)⟩

/-- Nothing is found after a failure. -/
theorem Finds.failed {α : Type} {fails : Prop} {e : Errno} {P : α → Prop} (h : fails) :
    Finds fails (.error e) P :=
  ⟨fun _ ha => (by cases ha), fun hno => absurd h hno⟩

section

variable {content : ℕ → UInt8} {fails : Prop}

/-- The walk begins with a complete record. -/
theorem FirstSha256.record {stop offset body : ℕ} (h : FirstSha256 content stop offset body) :
    ∃ type length, Record content offset stop type length := by
  cases h with
  | here h => exact ⟨_, _, h⟩
  | next h _ _ => exact ⟨_, _, h⟩

/-- Where the walk comes to, from its first record. -/
theorem firstSha256_iff {stop offset type length body : ℕ}
    (h : Record content offset stop type length) :
    FirstSha256 content stop offset body ↔
      if type = tlvSha256 ∧ length = imageIdSize then body = offset + tlvSize
      else FirstSha256 content stop (offset + tlvSize + length) body := by
  obtain ⟨rfl, rfl, hcomplete⟩ := h
  constructor
  · intro hfirst
    cases hfirst with
    | here h => rw [if_pos ⟨h.type_eq, h.length_eq⟩]
    | next h hother hnext =>
      obtain ⟨rfl, rfl, -⟩ := h
      rw [if_neg hother]
      exact hnext
  · intro hif
    by_cases hsha : littleEndian (window content offset tlvSize) 0 2 = tlvSha256 ∧
        littleEndian (window content offset tlvSize) 2 2 = imageIdSize
    · rw [if_pos hsha] at hif
      subst hif
      exact .here ⟨hsha.1, hsha.2, hsha.2 ▸ hcomplete⟩
    · rw [if_neg hsha] at hif
      exact .next ⟨rfl, rfl, hcomplete⟩ hsha hif

/-- **The walk** stays in the area and finds the first SHA256 record. -/
theorem walkRecords_traced (content : ℕ → UInt8) (fails : Prop) {size : ℕ}
    {offset stop : UInt32} (hle : offset.toNat ≤ stop.toNat) (hstop : stop.toNat ≤ size) :
    Traced content fails size (walkRecords offset stop) fun r =>
      Finds fails r fun image => ∃ body, FirstSha256 content stop.toNat offset.toNat body ∧
        image = window content body imageIdSize := by
  have hmax := stop.toNat_lt
  have hword : (4 : UInt32).toNat = 4 := rfl
  have htlv : tlvSize = 4 := rfl
  induction hn : stop.toNat - offset.toNat using Nat.strong_induction_on generalizing offset with
  | _ n ih =>
    rw [walkRecords]
    refine Traced.sub hle fun left hleft => ?_
    have hfour : left.1 < 4 ↔ stop.toNat - offset.toNat < 4 := by
      rw [UInt32.lt_iff_toNat_lt, hleft, hword]
    by_cases hshort : left.1 < 4
    · rw [if_pos hshort]
      refine Traced.pure (Finds.nothing ?_)
      rintro _ ⟨body, hfirst, -⟩
      obtain ⟨type, length, hrecord⟩ := hfirst.record
      have hcomplete := hrecord.complete
      have hroom := hfour.1 hshort
      omega
    rw [if_neg hshort]
    have hroom : 4 ≤ stop.toNat - offset.toNat := not_lt.1 (mt hfour.2 hshort)
    refine Traced.read (by omega) ?_ fun hf e => Traced.pure (Finds.failed hf)
    refine Traced.add (by omega) fun body hbody => ?_
    rw [hword] at hbody
    refine Traced.sub (by omega) fun rest hrest => ?_
    have hlength := toNat_littleEndian (window content offset.toNat tlvSize) 2
      (show 2 ≤ 4 by decide)
    generalize UInt32.ofNat (littleEndian (window content offset.toNat tlvSize) 2 2) = length
      at hlength ⊢
    have hover : length > rest.1 ↔ length.toNat > stop.toNat - (offset.toNat + 4) := by
      rw [gt_iff_lt, UInt32.lt_iff_toNat_lt, hrest, hbody]
    by_cases hlong : length > rest.1
    · rw [if_pos hlong]
      refine Traced.pure (Finds.nothing ?_)
      rintro _ ⟨body, hfirst, -⟩
      obtain ⟨type, length', hrecord⟩ := hfirst.record
      have hcomplete := hrecord.complete
      have hsame := hrecord.length_eq
      have hroom' := hover.1 hlong
      omega
    rw [if_neg hlong]
    have hfits : length.toNat ≤ stop.toNat - (offset.toNat + 4) := not_lt.1 (mt hover.2 hlong)
    have hrecord : Record content offset.toNat stop.toNat
        (littleEndian (window content offset.toNat tlvSize) 0 2) length.toNat :=
      ⟨rfl, hlength.symm, by omega⟩
    have hid : length = 32 ↔ length.toNat = imageIdSize := by
      rw [← UInt32.toNat_inj]
      exact Iff.rfl
    simp only [firstSha256_iff hrecord, ← hid]
    by_cases hsha : littleEndian (window content offset.toNat tlvSize) 0 2 = tlvSha256 ∧
        length = 32
    · simp only [if_pos hsha]
      have hlast := hid.1 hsha.2
      refine Traced.readBytes (by omega) ?_ fun hf e => Finds.failed hf
      rw [hbody, hlast]
      refine ⟨?_, ?_⟩
      · rintro image himage
        exact ⟨_, rfl, (Except.ok.inj himage).symm⟩
      · rintro - image ⟨body, rfl, rfl⟩
        rfl
    · simp only [if_neg hsha]
      refine Traced.add (by omega) fun next hnext => ?_
      rw [hbody] at hnext
      have hrec := ih _ (by omega) (show next.1.toNat ≤ stop.toNat by omega) rfl
      rw [hnext] at hrec
      exact hrec

/-- **The TLV area.** -/
theorem walkArea_traced (content : ℕ → UInt8) (fails : Prop) {size offset : UInt32}
    (hle : offset.toNat ≤ size.toNat) :
    Traced content fails size.toNat (walkArea size offset) fun r =>
      Finds fails r fun image => ∃ total body, AreaAt content size.toNat offset.toNat total ∧
        FirstSha256 content (offset.toNat + total) (offset.toNat + tlvSize) body ∧
          image = window content body imageIdSize := by
  have hmax := size.toNat_lt
  have hword : (4 : UInt32).toNat = 4 := rfl
  have htlv : tlvSize = 4 := rfl
  unfold walkArea
  refine Traced.sub hle fun left hleft => ?_
  have hfour : left.1 < 4 ↔ size.toNat - offset.toNat < 4 := by
    rw [UInt32.lt_iff_toNat_lt, hleft, hword]
  by_cases hshort : left.1 < 4
  · rw [if_pos hshort]
    refine Traced.pure (Finds.nothing ?_)
    rintro _ ⟨total, body, harea, -⟩
    have hinfo := harea.info
    have hfits := harea.fits
    have hroom := hfour.1 hshort
    omega
  rw [if_neg hshort]
  have hroom : 4 ≤ size.toNat - offset.toNat := not_lt.1 (mt hfour.2 hshort)
  refine Traced.read (by omega) ?_ fun hf e => Traced.pure (Finds.failed hf)
  have hlength := toNat_littleEndian (window content offset.toNat tlvSize) 2
    (show 2 ≤ 4 by decide)
  dsimp only
  generalize UInt32.ofNat (littleEndian (window content offset.toNat tlvSize) 2 2) = length
    at hlength ⊢
  have hsmall : length < 4 ↔ length.toNat < 4 := UInt32.lt_iff_toNat_lt
  by_cases hbad : littleEndian (window content offset.toNat tlvSize) 0 2 ≠ tlvInfoMagic ∨
      length < 4
  · rw [if_pos hbad]
    refine Traced.pure (Finds.nothing ?_)
    rintro _ ⟨total, body, harea, -⟩
    rcases hbad with hmagic | hbad
    · exact hmagic harea.magic
    · have hinfo := harea.info
      have htotal := harea.total_eq
      have hlow := hsmall.1 hbad
      omega
  rw [if_neg hbad]
  rw [not_or, not_not, hsmall] at hbad
  refine Traced.sub hle fun left hleft => ?_
  have hover : length > left.1 ↔ length.toNat > size.toNat - offset.toNat := by
    rw [gt_iff_lt, UInt32.lt_iff_toNat_lt, hleft]
  by_cases hlong : length > left.1
  · rw [if_pos hlong]
    refine Traced.pure (Finds.nothing ?_)
    rintro _ ⟨total, body, harea, -⟩
    have hfits := harea.fits
    have htotal := harea.total_eq
    have hhigh := hover.1 hlong
    omega
  rw [if_neg hlong]
  have hfits : length.toNat ≤ size.toNat - offset.toNat := not_lt.1 (mt hover.2 hlong)
  refine Traced.add (by omega) fun stop hstop => ?_
  refine Traced.add (by omega) fun first hfirst => ?_
  refine (walkRecords_traced content fails (show first.1.toNat ≤ stop.1.toNat by omega)
    (show stop.1.toNat ≤ size.toNat by omega)).post fun r hr => ?_
  rw [hstop, hfirst] at hr
  have harea : AreaAt content size.toNat offset.toNat length.toNat :=
    ⟨hbad.1, hlength.symm, by omega, by omega⟩
  refine ⟨fun image himage => ?_, fun hno image himage => hr.2 hno image ?_⟩
  · obtain ⟨body, hbody⟩ := hr.1 image himage
    exact ⟨_, body, harea, hbody⟩
  · obtain ⟨total, body, harea', hbody⟩ := himage
    obtain rfl : total = length.toNat := harea'.total_eq.symm.trans hlength.symm
    exact ⟨body, hbody⟩

/-- **The sizes of the header.** -/
theorem walkImage_traced (content : ℕ → UInt8) (fails : Prop) (size : UInt32) :
    Traced content fails size.toNat (walkImage size (window content 0 headerSize)) fun r =>
      Finds fails r (HasIdentity content size.toNat) := by
  have hmax := size.toNat_lt
  unfold walkImage HasIdentity
  have hhdr := toNat_littleEndian (window content 0 headerSize) 8 (show 2 ≤ 4 by decide)
  have hprot := toNat_littleEndian (window content 0 headerSize) 10 (show 2 ≤ 4 by decide)
  have hbody := toNat_littleEndian (window content 0 headerSize) 12 (show 4 ≤ 4 by decide)
  dsimp only
  generalize UInt32.ofNat (littleEndian (window content 0 headerSize) 8 2) = hdrSize at hhdr ⊢
  generalize UInt32.ofNat (littleEndian (window content 0 headerSize) 10 2) = protectedSize
    at hprot ⊢
  generalize UInt32.ofNat (littleEndian (window content 0 headerSize) 12 4) = bodySize
    at hbody ⊢
  -- what the header describes is behind the area, or the magic is missing
  have hnone : (∀ offset, ¬ HeaderAt content size.toNat offset) →
      ∀ image, ¬ ∃ offset total body, HeaderAt content size.toNat offset ∧
        AreaAt content size.toNat offset total ∧
        FirstSha256 content (offset + total) (offset + tlvSize) body ∧
        image = window content body imageIdSize := by
    rintro h image ⟨offset, _, _, hheader, -⟩
    exact h offset hheader
  have hover : hdrSize > size ↔ hdrSize.toNat > size.toNat := UInt32.lt_iff_toNat_lt
  by_cases hbad : littleEndian (window content 0 headerSize) 0 4 ≠ imageMagic ∨ hdrSize > size
  · rw [if_pos hbad]
    refine Traced.pure (Finds.nothing (hnone fun offset hheader => ?_))
    rcases hbad with hmagic | hbad
    · exact hmagic hheader.magic
    · have hoffset := hheader.offset_eq
      have hfits := hheader.fits
      have hhigh := hover.1 hbad
      omega
  rw [if_neg hbad]
  rw [not_or, not_not, hover, not_lt] at hbad
  refine Traced.sub hbad.2 fun left hleft => ?_
  have hover' : bodySize > left.1 ↔ bodySize.toNat > size.toNat - hdrSize.toNat := by
    rw [gt_iff_lt, UInt32.lt_iff_toNat_lt, hleft]
  by_cases hlong : bodySize > left.1
  · rw [if_pos hlong]
    refine Traced.pure (Finds.nothing (hnone fun offset hheader => ?_))
    have hoffset := hheader.offset_eq
    have hfits := hheader.fits
    have hhigh := hover'.1 hlong
    omega
  rw [if_neg hlong]
  have hfits : bodySize.toNat ≤ size.toNat - hdrSize.toNat := not_lt.1 (mt hover'.2 hlong)
  refine Traced.sub hbad.2 fun left' hleft' => ?_
  refine Traced.sub (by omega) fun rest hrest => ?_
  rw [hleft'] at hrest
  have hover'' : protectedSize > rest.1 ↔
      protectedSize.toNat > size.toNat - hdrSize.toNat - bodySize.toNat := by
    rw [gt_iff_lt, UInt32.lt_iff_toNat_lt, hrest]
  by_cases hlong' : protectedSize > rest.1
  · rw [if_pos hlong']
    refine Traced.pure (Finds.nothing (hnone fun offset hheader => ?_))
    have hoffset := hheader.offset_eq
    have hfits' := hheader.fits
    have hhigh := hover''.1 hlong'
    omega
  rw [if_neg hlong']
  have hfits' : protectedSize.toNat ≤ size.toNat - hdrSize.toNat - bodySize.toNat :=
    not_lt.1 (mt hover''.2 hlong')
  refine Traced.add (by omega) fun body hbody' => ?_
  refine Traced.add (by omega) fun offset hoffset => ?_
  rw [hbody'] at hoffset
  refine (walkArea_traced content fails (by omega)).post fun r hr => ?_
  have hheader : HeaderAt content size.toNat offset.1.toNat :=
    ⟨hbad.1, by omega, by omega⟩
  refine ⟨fun image himage => ?_, fun hno image himage => hr.2 hno image ?_⟩
  · obtain ⟨total, body, hrest⟩ := hr.1 image himage
    exact ⟨_, total, body, hheader, hrest⟩
  · obtain ⟨at', total, body, hheader', hrest⟩ := himage
    obtain rfl : at' = offset.1.toNat := hheader'.offset_eq.symm.trans hheader.offset_eq
    exact ⟨total, body, hrest⟩

end

/-- What is to hold of an area of `size` bytes: the lookup ends, stays in the area and does not wrap
round, also when reads fail; what it returns is the identity of the image, and without a failure it
returns one if there is one. -/
structure Identified (content : ℕ → UInt8) (size : UInt32) : Prop where
  ends : ∀ fails, ¬ (runningImageId (.ok size)).Endless (Medium content fails) ()
  finds : ∀ fails, Traced content fails size.toNat (runningImageId (.ok size)) fun r =>
    Finds fails r (HasIdentity content size.toNat)

/-- **The identity is looked up as it should be** exactly in an area with room for a header. -/
theorem identified_iff (content : ℕ → UInt8) (size : UInt32) :
    Identified content size ↔ headerSize ≤ size.toNat := by
  constructor
  · intro h
    have hread := (h.finds False () trivial (.ok (window content 0 headerSize)) () (.inl rfl)).1
    exact (Nat.zero_add _).symm.trans_le hread
  · intro hsize
    refine ⟨fun fails => Prog.not_endless _ _ _, fun fails => ?_⟩
    show Traced content fails size.toNat (readBytes 0 headerSize >>= _) _
    refine Traced.read ((Nat.zero_add _).trans_le hsize) ?_
      fun hf e => Traced.pure (Finds.failed hf)
    exact walkImage_traced content fails size

/-- **The header of a small area is read past its end.** -/
theorem small_area_overread : ¬ ∀ size, Identified (fun _ => 0xff) size := by
  intro h
  have hread : 0 + 32 ≤ 16 :=
    ((h 16).finds False () trivial (.ok (window _ 0 headerSize)) () (.inl rfl)).1
  exact absurd hread (by decide)

end KfswServices.Boot
