/-
# The firmware slots as files

`src/fwu/fwu_fs.c`: `/kfsw/boot/firmware_1.bin` and `firmware_2.bin` read the two
image slots.  A file extends from the image header over the body and its TLV areas;
`imageExtent` finds that extent in whatever the slot holds.

`openImage` is the part of the source's `open_image` between its two calls of the
update service.  A reader of the secondary slot registers before it and, when it
fails, leaves after it; `KfswServices.Fwu.Readers` has those steps.

The layout of the header and of the TLV records is that of MCUboot's
`bootutil/image.h`.
-/

import KfswServices.Fwu.Update

namespace KfswServices.Fwu

/-- The two image slots, in the order of `slot_names`. -/
inductive Slot
  | primary
  | secondary
  deriving DecidableEq, Repr

/-- `slot_names`. -/
def Slot.name : Slot → CString
  | primary => CString.ofString "firmware_1.bin"
  | secondary => CString.ofString "firmware_2.bin"

/-- `BOOT_ROOT`. -/
def bootRoot : CString := CString.ofString "/kfsw/boot"

/-- `slot_number`. -/
def slotNumber (path : CString) : Except Errno Slot :=
  if path = bootRoot ++ CString.ofString "/" ++ Slot.primary.name then .ok .primary
  else if path = bootRoot ++ CString.ofString "/" ++ Slot.secondary.name then .ok .secondary
  else .error .ENOENT

/-- An open flash area: its size, the size of its last page or the error of that
query, its content, and the reads of it that fail. -/
structure Area where
  size : ℕ
  lastPage : Except Errno ℕ
  content : ℕ → UInt8
  fault : ℕ → ℕ → Option Errno

/-- `flash_area_read`. -/
def Area.read (a : Area) (offset size : ℕ) : Except Errno (List UInt8) :=
  match a.fault offset size with
  | some e => .error e
  | none => .ok ((List.range size).map fun k => a.content (offset + k))

/-- A little-endian field of some bytes read from the flash. -/
def littleEndian (bytes : List UInt8) (offset size : ℕ) : ℕ :=
  ((bytes.drop offset).take size).foldr (fun b n => b.toNat + 256 * n) 0

/-- `sizeof(struct image_header)`. -/
abbrev headerSize : ℕ := 32

/-- `sizeof(struct image_tlv_info)` and of `struct image_tlv`. -/
abbrev tlvSize : ℕ := 4

/-- `IMAGE_MAGIC`. -/
abbrev imageMagic : ℕ := 0x96f3b83d

/-- `IMAGE_TLV_INFO_MAGIC`. -/
abbrev tlvInfoMagic : ℕ := 0x6907

/-- `IMAGE_TLV_PROT_INFO_MAGIC`. -/
abbrev tlvProtInfoMagic : ℕ := 0x6908

/-- The loop of `tlv_extent` over the records up to `stop`.  Each record takes four
bytes at least, so as many turns as there are bytes are enough. -/
def tlvRecords (a : Area) (stop : ℕ) : ℕ → ℕ → Except Errno Unit
  | 0, _ => .ok ()
  | fuel + 1, position =>
    if position ≥ stop then .ok ()
    else if stop - position < tlvSize then .error .EBADMSG
    else
      match a.read position tlvSize with
      | .error e => .error e
      | .ok tlv =>
        let length := littleEndian tlv 2 2
        if length > stop - (position + tlvSize) then .error .EBADMSG
        else tlvRecords a stop fuel (position + tlvSize + length)

/-- `tlv_extent`: the size of a TLV area. -/
def tlvExtent (a : Area) (offset limit magic : ℕ) : Except Errno ℕ :=
  if offset > limit ∨ limit - offset < tlvSize then .error .EBADMSG
  else
    match a.read offset tlvSize with
    | .error e => .error e
    | .ok info =>
      let size := littleEndian info 2 2
      if littleEndian info 0 2 ≠ magic ∨ size < tlvSize ∨ size > limit - offset then
        .error .EBADMSG
      else (tlvRecords a (offset + size) size (offset + tlvSize)).map fun _ => size

/-- Where a file starts in its slot, and its size. -/
structure Extent where
  start : ℕ
  size : ℕ
  deriving DecidableEq

/-- The TLV areas of `image_extent`, from `position` on: where they end. -/
def tlvAreas (a : Area) (position limit protectedSize : ℕ) : Except Errno ℕ :=
  let plain (position : ℕ) :=
    (tlvExtent a position limit tlvInfoMagic).map fun size => position + size
  if protectedSize = 0 then plain position
  else
    match tlvExtent a position limit tlvProtInfoMagic with
    | .error e => .error e
    | .ok size => if size ≠ protectedSize then .error .EBADMSG else plain (position + size)

/-- `image_extent`. -/
def imageExtent (a : Area) (start : ℕ) : Except Errno Extent :=
  match a.lastPage with
  | .error e => .error e
  | .ok page =>
    if page ≥ a.size then .error .EBADMSG
    else
      let limit := a.size - page
      if start > limit ∨ limit - start < headerSize then .error .EBADMSG
      else
        match a.read start headerSize with
        | .error e => .error e
        | .ok header =>
          if littleEndian header 0 4 ≠ imageMagic then .error .ENOENT
          else
            let hdrSize := littleEndian header 8 2
            let protectedSize := littleEndian header 10 2
            let bodySize := littleEndian header 12 4
            if hdrSize < headerSize ∨ hdrSize > limit - start ∨ bodySize = 0 ∨
                bodySize > limit - start - hdrSize then .error .EBADMSG
            else
              (tlvAreas a (start + hdrSize + bodySize) limit protectedSize).map fun stop =>
                ⟨start, stop - start⟩

/-- The middle of `open_image`: open the area and locate the header, at the base of
the slot or, for an incoming image, at the write offset. -/
def openImage (cfg : Config) (slot : Slot) (area : Except Errno Area) : Except Errno Extent :=
  match area with
  | .error e => .error e
  | .ok a =>
    match imageExtent a 0 with
    | .error .ENOENT =>
      if slot = .secondary ∧ cfg.offsetSectors ≠ 0 then
        if slotWriteOffset cfg = 0 then .error Errno.EIO else imageExtent a (slotWriteOffset cfg)
      else .error .ENOENT
    | result => result

end KfswServices.Fwu
