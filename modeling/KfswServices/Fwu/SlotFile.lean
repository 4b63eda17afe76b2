/-
# Reading a firmware file

`slot_read`, `slot_seek` and `slot_tell` of `src/fwu/fwu_fs.c` on a file that `image_extent` has
found.  The position never leaves the file, a read gives the bytes of the extent from the position
on, unless a read of the flash fails, and nothing is read beside the area (`firmware_file_exact`).
-/

import KfswServices.Fwu.Extent
import KfswServices.Library.Splice

namespace KfswServices.Fwu

open Library

/-- `FS_SEEK_SET`, `FS_SEEK_CUR` and `FS_SEEK_END`. -/
abbrev seekSet : ℤ := 0
abbrev seekCur : ℤ := 1
abbrev seekEnd : ℤ := 2

/-- `slot_read`. -/
def slotRead (file : SlotFile) (size : ℕ) :
    Reader Errno (Except Errno (List UInt8) × SlotFile) := do
  let left ← sub32 file.size file.position
  let size := min size left.1.toNat
  if size ≠ 0 then
    let offset ← add32 file.start file.position
    match ← readBytes offset.1.toNat size with
    | .error e => return (.error e, file)
    | .ok bytes =>
      let position ← add32 file.position (UInt32.ofNat size)
      return (.ok bytes, { file with position := position.1 })
  else return (.ok [], file)

/-- Where a position is sought from. -/
def SlotFile.base (file : SlotFile) (whence : ℤ) : ℤ :=
  if whence = seekCur then file.position.toNat
  else if whence = seekEnd then file.size.toNat
  else 0

/-- `slot_seek`.  The offset and the two bounds are 64-bit integers far from their limits. -/
def slotSeek (file : SlotFile) (offset whence : ℤ) : Except Errno SlotFile :=
  let base := file.base whence
  if (whence ≠ seekCur ∧ whence ≠ seekEnd ∧ whence ≠ seekSet) ∨
      offset < -base ∨ offset > file.size.toNat - base then .error .EINVAL
  else .ok { file with position := UInt32.ofInt (base + offset) }

/-- `slot_tell`. -/
def slotTell (file : SlotFile) : ℕ := file.position.toNat

/-- A call on an open file. -/
inductive SlotCall
  | read (size : ℕ)
  | seek (offset whence : ℤ)
  | tell

/-- What it returns. -/
inductive SlotReply
  | read (result : Except Errno (List UInt8))
  | seek (result : Option Errno)
  | tell (position : ℕ)

/-- A call is served, on a flash with this content whose reads may fail. -/
inductive Serves (content : ℕ → UInt8) (fails : Prop) :
    SlotFile → SlotCall × SlotReply → SlotFile → Prop
  | read {file file' : SlotFile} {size : ℕ} {result : Except Errno (List UInt8)}
      (h : Prog.Ends (Medium content fails) (slotRead file size) () (result, file') ()) :
      Serves content fails file (.read size, .read result) file'
  | seek {file file' : SlotFile} {offset whence : ℤ} (h : slotSeek file offset whence = .ok file') :
      Serves content fails file (.seek offset whence, .seek none) file'
  | refuse {file : SlotFile} {offset whence : ℤ} {e : Errno}
      (h : slotSeek file offset whence = .error e) :
      Serves content fails file (.seek offset whence, .seek (some e)) file
  | tell (file : SlotFile) : Serves content fails file (.tell, .tell (slotTell file)) file

/-- An open file: the position is in it, and it lies in the area. -/
structure SlotFile.Within (file : SlotFile) (size : ℕ) : Prop where
  position : file.position.toNat ≤ file.size.toNat
  extent : file.start.toNat + file.size.toNat ≤ size

/-- The bytes of a file. -/
def SlotFile.bytes (content : ℕ → UInt8) (file : SlotFile) : List UInt8 :=
  window content file.start.toNat file.size.toNat

/-- A position that can be sought: the origin is known, and it lies in the file or at its end. -/
def SlotFile.SeekTo (file : SlotFile) (offset whence : ℤ) : Prop :=
  whence ∈ [seekSet, seekCur, seekEnd] ∧ 0 ≤ file.base whence + offset ∧
    file.base whence + offset ≤ file.size.toNat

/-- What a call should return, and what it should leave. -/
def Served (content : ℕ → UInt8) (fails : Prop) (file : SlotFile) :
    SlotCall → SlotReply → SlotFile → Prop
  | .read size, .read (.ok bytes), file' =>
    bytes = region (file.bytes content) file.position.toNat size ∧ file'.start = file.start ∧
      file'.size = file.size ∧ file'.position.toNat = file.position.toNat + bytes.length
  | .read _, .read (.error _), file' => fails ∧ file' = file
  | .seek offset whence, .seek none, file' =>
    file'.start = file.start ∧ file'.size = file.size ∧
      (file'.position.toNat : ℤ) = file.base whence + offset ∧ file.SeekTo offset whence
  | .seek offset whence, .seek (some e), file' =>
    e = .EINVAL ∧ ¬ file.SeekTo offset whence ∧ file' = file
  | .tell, .tell position, file' => position = file.position.toNat ∧ file' = file
  | _, _, _ => False

section

variable {content : ℕ → UInt8} {fails : Prop} {file : SlotFile} {size : ℕ}

/-- A part of some bytes of a medium. -/
theorem region_window (content : ℕ → UInt8) (start size offset length : ℕ) :
    region (window content start size) offset length =
      window content (start + offset) (min length (size - offset)) := by
  refine List.ext_getElem ?_ fun k hk hk' => ?_
  · rw [length_region, length_window, length_window]
  · simp only [region, window, List.getElem_take, List.getElem_drop, List.getElem_map,
      List.getElem_range, Nat.add_assoc]

/-- **A read** stays in the extent, and gives what lies at the position. -/
theorem slotRead_traced (content : ℕ → UInt8) (fails : Prop) (hsize : size < 2 ^ 32)
    (h : file.Within size) (length : ℕ) : Traced content fails size (slotRead file length) fun r =>
      Served content fails file (.read length) (.read r.1) r.2 := by
  have hposition := h.position
  have hextent := h.extent
  have hmax := file.size.toNat_lt
  have hregion := region_window content file.start.toNat file.size.toNat file.position.toNat length
  unfold slotRead
  refine Traced.sub hposition fun left hleft => ?_
  dsimp only
  rw [hleft]
  by_cases hsome : min length (file.size.toNat - file.position.toNat) ≠ 0
  · rw [if_pos hsome]
    refine Traced.add (by omega) fun offset hoffset => ?_
    refine Traced.read (by omega) ?_ fun hfails e => Traced.pure ⟨hfails, rfl⟩
    dsimp only
    have hword : (UInt32.ofNat (min length (file.size.toNat - file.position.toNat))).toNat =
        min length (file.size.toNat - file.position.toNat) := by
      rw [UInt32.toNat_ofNat', Nat.mod_eq_of_lt (by omega)]
    refine Traced.add (by omega) fun position hnext => Traced.pure ⟨?_, rfl, rfl, ?_⟩
    · rw [SlotFile.bytes, hregion, hoffset]
    · rw [length_window]
      exact hnext.trans (by rw [hword])
  · rw [if_neg hsome]
    refine Traced.pure ⟨?_, rfl, rfl, rfl⟩
    rw [SlotFile.bytes, hregion, not_not.1 hsome]
    rfl

/-- What is served leaves the position in the file. -/
theorem Served.within {call : SlotCall} {reply : SlotReply} {file' : SlotFile}
    (h : file.Within size) (hs : Served content fails file call reply file') :
    file'.start = file.start ∧ file'.size = file.size ∧ file'.Within size := by
  have hposition := h.position
  have hextent := h.extent
  match call, reply, hs with
  | .read n, .read (.ok bytes), hs =>
    obtain ⟨hbytes, hstart, hsize, hnext⟩ := hs
    have hlen : bytes.length ≤ file.size.toNat - file.position.toNat := by
      rw [hbytes, length_region, SlotFile.bytes, length_window]
      exact Nat.min_le_right _ _
    exact ⟨hstart, hsize, by rw [hnext, hsize]; omega, by rw [hstart, hsize]; exact hextent⟩
  | .read n, .read (.error e), hs =>
    obtain rfl : file' = file := hs.2
    exact ⟨rfl, rfl, h⟩
  | .seek offset whence, .seek none, hs =>
    obtain ⟨hstart, hsize, hnext, -, -, hhigh⟩ := hs
    exact ⟨hstart, hsize, by rw [hsize]; omega, by rw [hstart, hsize]; exact hextent⟩
  | .seek offset whence, .seek (some e), hs =>
    obtain rfl : file' = file := hs.2.2
    exact ⟨rfl, rfl, h⟩
  | .tell, .tell position, hs =>
    obtain rfl : file' = file := hs.2
    exact ⟨rfl, rfl, h⟩

/-- What `slot_seek` checks. -/
theorem seekTo_iff (file : SlotFile) (offset whence : ℤ) :
    file.SeekTo offset whence ↔ ¬ ((whence ≠ seekCur ∧ whence ≠ seekEnd ∧ whence ≠ seekSet) ∨
      offset < -file.base whence ∨ offset > file.size.toNat - file.base whence) := by
  unfold SlotFile.SeekTo
  generalize file.base whence = base
  simp only [List.mem_cons, List.not_mem_nil, or_false, seekSet, seekCur, seekEnd]
  omega

/-- **Every call is served** as it should be. -/
theorem Serves.served (hsize : size < 2 ^ 32) (h : file.Within size) {call : SlotCall}
    {reply : SlotReply} {file' : SlotFile} (hs : Serves content fails file (call, reply) file') :
    Served content fails file call reply file' := by
  have hposition := h.position
  have hmax := file.size.toNat_lt
  cases hs with
  | read hend => exact hend.post (slotRead_traced content fails hsize h _) fun _ => trivial
  | seek hseek =>
    unfold slotSeek at hseek
    dsimp only at hseek
    rw [ite_error_eq_ok, ← seekTo_iff] at hseek
    obtain ⟨hto, hfile⟩ := hseek
    obtain rfl := Except.ok.inj hfile
    refine ⟨rfl, rfl, ?_, hto⟩
    have hlow := hto.2.1
    have hhigh := hto.2.2
    dsimp only
    rw [UInt32.ofInt, UInt32.toNat_ofNat', Nat.mod_eq_of_lt (by omega)]
    omega
  | @refuse offset whence e hseek =>
    unfold slotSeek at hseek
    dsimp only at hseek
    by_cases hto : file.SeekTo offset whence
    · rw [if_neg ((seekTo_iff file offset whence).1 hto)] at hseek
      cases hseek
    · rw [if_pos (not_not.1 (mt (seekTo_iff file offset whence).2 hto))] at hseek
      exact ⟨(Except.error.inj hseek).symm, hto, rfl⟩
  | tell => exact ⟨rfl, rfl⟩

end

/-- What the extent of a file is to be, and what is to hold after every sequence of calls on it: a read
reads in the area, and if no read of the flash fails, it gives the bytes at the position. -/
structure SlotFile.Exact (flash : FlashArea) (content : ℕ → UInt8) (fails : Prop)
    (start : UInt32) (file : SlotFile) : Prop where
  start_eq : file.start = start
  extent : ∃ page, flash.lastPage = .ok page ∧
    file.start.toNat + file.size.toNat + page.toNat ≤ flash.size.toNat
  image : ∃ hdrSize bodySize protectedSize,
    ImageAt content file.start.toNat file.size.toNat hdrSize bodySize protectedSize
  calls : ∀ calls now, Run (Serves content fails) file calls now →
    now.bytes content = file.bytes content ∧ now.position.toNat ≤ file.size.toNat ∧
      (∀ length, Traced content fails flash.size.toNat (slotRead now length) (fun _ => True) ∧
        ∃ next, ∀ r, (slotRead now length).Ends (Medium content False) () r () ↔
          r = (.ok (region (file.bytes content) now.position.toNat length), next)) ∧
      ∀ call reply next, Serves content fails now (call, reply) next →
        Served content fails now call reply next

/-- A header, a body of four bytes and a TLV area with one record. -/
def smallImage : List UInt8 :=
  [61, 184, 243, 150, 0, 0, 0, 0, 32, 0, 0, 0, 4, 0, 0, 0] ++ List.replicate 16 0 ++
    [222, 173, 190, 239] ++ [7, 105, 12, 0, 16, 0, 4, 0, 1, 2, 3, 4]

end KfswServices.Fwu
