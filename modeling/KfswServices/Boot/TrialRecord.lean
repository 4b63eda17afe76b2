/-
# The record of a trial boot

`load_record` of `src/boot_diagnostics.c`, and what `kfsw_boot_record_image` changes in the bytes it
has loaded.  A record is 80 bytes, big-endian:

| offset | size | field |
| ---: | ---: | --- |
| 0 | 4 | `KBT1` |
| 4 | 32 | image |
| 36 | 4 | attempts |
| 40 | 1 | whether the image is on trial |
| 41 | 1 | reason of the last revert |
| 42 | 1 | whether a revert was pending |
| 43 | 1 | zero |
| 44 | 32 | image that was replaced |
| 76 | 4 | CRC-32 of the bytes before |

The change made to the bytes is `TrialRecord.boot` (`updateRecord_parts`).  What is loaded is all of
the file or an error, which is `ENOENT` only if there is no file (`loadRecord_some`).
-/

import KfswServices.Boot.Identity
import KfswServices.Library.BigEndian
import KfswServices.Library.Splice

namespace KfswServices.Boot

open Library

/-- `RECORD_IMAGE_OFFSET`. -/
abbrev imageOffset : ℕ := 4

/-- `RECORD_ATTEMPTS_OFFSET`. -/
abbrev attemptsOffset : ℕ := 36

/-- `RECORD_TRIAL_OFFSET`. -/
abbrev trialOffset : ℕ := 40

/-- `RECORD_REASON_OFFSET`. -/
abbrev reasonOffset : ℕ := 41

/-- `RECORD_REVERT_OFFSET`. -/
abbrev revertOffset : ℕ := 42

/-- `RECORD_PREVIOUS_IMAGE_OFFSET`. -/
abbrev previousImageOffset : ℕ := 44

/-- `RECORD_CRC_OFFSET`. -/
abbrev crcOffset : ℕ := 76

/-- `RECORD_SIZE`. -/
abbrev recordSize : ℕ := 80

/-- `KBT1`. -/
def recordMagic : List UInt8 := [0x4B, 0x42, 0x54, 0x31]

/-- `UINT32_MAX`. -/
abbrev uint32Max : UInt32 := 0xffffffff

/-- `enum kfsw_boot_revert_reason`. -/
inductive RevertReason
  | NONE | UNCONFIRMED_REPLACED | REPLACED_UNKNOWN
  deriving DecidableEq, Repr

def RevertReason.toByte : RevertReason → UInt8
  | .NONE => 0
  | .UNCONFIRMED_REPLACED => 1
  | .REPLACED_UNKNOWN => 2

/-- The identity of an image. -/
abbrev ImageId : Type := {bytes : List UInt8 // bytes.length = imageIdSize}

/-- `bool`, as it is stored. -/
def flag (b : Bool) : UInt8 := if b then 1 else 0

/-! ### The bytes that are written -/

/-- An image on trial that is not the one running has been replaced. -/
def noteReplaced (image : ImageId) (record : List UInt8) : List UInt8 :=
  if record.getD trialOffset 0 ≠ 0 ∧ region record imageOffset imageIdSize ≠ image.val then
    let reason := if record.getD revertOffset 0 ≠ 0 then RevertReason.UNCONFIRMED_REPLACED
      else .REPLACED_UNKNOWN
    let record := splice 0 record reasonOffset [reason.toByte]
    splice 0 record previousImageOffset (region record imageOffset imageIdSize)
  else record

/-- `attempts`. -/
def countAttempts (image : ImageId) (confirmed : Bool) (record : List UInt8) : UInt32 :=
  let attempts := getBe32 (record.drop attemptsOffset)
  let attempts := if confirmed ∨ region record imageOffset imageIdSize ≠ image.val then 0
    else attempts
  if !confirmed ∧ attempts < uint32Max - 1 then attempts + 1 else attempts

/-- What `kfsw_boot_record_image` makes of the record it has loaded, and `attempts`. -/
def updateRecord (image : ImageId) (confirmed revertPending : Bool) (record : List UInt8) :
    List UInt8 × UInt32 :=
  let record := noteReplaced image record
  let attempts := countAttempts image confirmed record
  let record := splice 0 record imageOffset image.val
  let record := splice 0 record attemptsOffset (putBe32 attempts)
  let record := splice 0 record trialOffset [if confirmed then 0 else 1]
  let record := splice 0 record revertOffset [if revertPending then 1 else 0]
  (splice 0 record crcOffset (putBe32 (crc32 (record.take crcOffset))), attempts)

/-! ### What they say -/

/-- What a record says. -/
structure TrialRecord where
  image : ImageId
  attempts : UInt32
  trial : Bool
  reason : RevertReason
  revert : Bool
  previous : ImageId
  bounded : attempts.toNat < 2 ^ 32 - 1

namespace TrialRecord

/-- The parts of a record, with these last bytes. -/
def parts (r : TrialRecord) (crc : List UInt8) : List (List UInt8) :=
  [recordMagic, r.image.val, putBe32 r.attempts, [flag r.trial], [r.reason.toByte], [flag r.revert],
    [0], r.previous.val, crc]

/-- The bytes the checksum covers. -/
def body (r : TrialRecord) : List UInt8 := (r.parts []).flatten

/-- The bytes of a record. -/
def bytes (r : TrialRecord) : List UInt8 := (r.parts (putBe32 (crc32 r.body))).flatten

/-- The record before the first boot. -/
def fresh : TrialRecord where
  image := ⟨List.replicate imageIdSize 0, rfl⟩
  attempts := 0
  trial := false
  reason := .NONE
  revert := false
  previous := ⟨List.replicate imageIdSize 0, rfl⟩
  bounded := by decide

/-- One more attempt, of this image. -/
def counted (r : TrialRecord) (image : ImageId) (confirmed : Bool) : UInt32 :=
  let attempts := if confirmed ∨ r.image ≠ image then 0 else r.attempts
  if !confirmed ∧ attempts < uint32Max - 1 then attempts + 1 else attempts

/-- **The number of attempts saturates** below its largest value. -/
theorem toNat_counted (r : TrialRecord) (image : ImageId) (confirmed : Bool) :
    (r.counted image confirmed).toNat =
      if confirmed then 0 else if r.image = image then min (r.attempts.toNat + 1) (2 ^ 32 - 2)
      else 1 := by
  have hbounded := r.bounded
  have hmax : (uint32Max - 1).toNat = 2 ^ 32 - 2 := rfl
  unfold counted
  dsimp only
  cases confirmed with
  | true => rfl
  | false =>
    by_cases himage : r.image = image
    · have hsame : ¬ (false = true ∨ r.image ≠ image) := by simp [himage]
      rw [if_neg hsame, if_neg Bool.false_ne_true, if_pos himage]
      by_cases hlt : r.attempts < uint32Max - 1
      · rw [if_pos ⟨rfl, hlt⟩, UInt32.toNat_add, UInt32.toNat_one]
        rw [UInt32.lt_iff_toNat_lt, hmax] at hlt
        omega
      · rw [if_neg (fun h => hlt h.2)]
        rw [UInt32.lt_iff_toNat_lt, hmax] at hlt
        omega
    · rw [if_pos (Or.inr himage), if_neg Bool.false_ne_true, if_neg himage]
      rfl

/-- What the record says once it is noted that its image was replaced. -/
def replacedBy (r : TrialRecord) (image : ImageId) : TrialRecord :=
  if r.trial ∧ r.image ≠ image then
    { r with
      reason := if r.revert then .UNCONFIRMED_REPLACED else .REPLACED_UNKNOWN
      previous := r.image }
  else r

/-- **A boot of an image.** -/
def boot (r : TrialRecord) (image : ImageId) (confirmed revertPending : Bool) : TrialRecord where
  image := image
  attempts := r.counted image confirmed
  trial := !confirmed
  reason := (r.replacedBy image).reason
  revert := revertPending
  previous := (r.replacedBy image).previous
  bounded := by
    rw [toNat_counted]
    split_ifs <;> omega

@[simp] theorem replacedBy_image (r : TrialRecord) (image : ImageId) :
    (r.replacedBy image).image = r.image := by
  unfold replacedBy
  split_ifs <;> rfl

@[simp] theorem replacedBy_attempts (r : TrialRecord) (image : ImageId) :
    (r.replacedBy image).attempts = r.attempts := by
  unfold replacedBy
  split_ifs <;> rfl

/-- The sizes of the parts. -/
def sizes : List ℕ := [4, 32, 4, 1, 1, 1, 1, 32, 4]

theorem length_parts (r : TrialRecord) {crc : List UInt8} (hcrc : crc.length = 4) :
    (r.parts crc).map List.length = sizes := by
  simp only [parts, List.map_cons, List.map_nil, r.image.property, r.previous.property,
    length_putBe32, hcrc]
  rfl

theorem parts_flatten (r : TrialRecord) (crc : List UInt8) :
    (r.parts crc).flatten = r.body ++ crc := by
  simp only [body, parts, List.flatten_cons, List.flatten_nil, List.append_nil, List.append_assoc]

@[simp] theorem length_body (r : TrialRecord) : r.body.length = crcOffset := by
  have h := length_flatten_take (r.length_parts (length_putBe32 0)) 9
  rw [List.take_of_length_le (by rfl), parts_flatten, List.length_append, length_putBe32] at h
  exact Nat.add_right_cancel h

@[simp] theorem length_bytes (r : TrialRecord) : r.bytes.length = recordSize := by
  rw [bytes, parts_flatten, List.length_append, length_body, length_putBe32]

section

variable (r : TrialRecord) {crc : List UInt8} (hcrc : crc.length = 4)
include hcrc

theorem drop_parts (k : ℕ) :
    (r.parts crc).flatten.drop (sizes.take k).sum = ((r.parts crc).drop k).flatten :=
  drop_flatten (r.length_parts hcrc) k

theorem region_image : region (r.parts crc).flatten imageOffset imageIdSize = r.image.val := by
  have h := r.drop_parts hcrc 1
  unfold region
  rw [show imageOffset = (sizes.take 1).sum from rfl, h]
  exact List.take_left' r.image.property

theorem getBe32_attempts : getBe32 ((r.parts crc).flatten.drop attemptsOffset) = r.attempts := by
  have h := r.drop_parts hcrc 2
  rw [show attemptsOffset = (sizes.take 2).sum from rfl, h]
  exact getBe32_putBe32 _ _

/-- A part of one byte. -/
theorem getD_parts {k : ℕ} {b : UInt8} {rest : List (List UInt8)}
    (h : (r.parts crc).drop k = [b] :: rest) :
    (r.parts crc).flatten.getD (sizes.take k).sum 0 = b := by
  rw [List.getD_eq_getElem?_getD, ← List.head?_drop, r.drop_parts hcrc, h]
  rfl

theorem getD_trial : (r.parts crc).flatten.getD trialOffset 0 = flag r.trial :=
  r.getD_parts hcrc (k := 3) rfl

theorem getD_reason : (r.parts crc).flatten.getD reasonOffset 0 = r.reason.toByte :=
  r.getD_parts hcrc (k := 4) rfl

theorem getD_revert : (r.parts crc).flatten.getD revertOffset 0 = flag r.revert :=
  r.getD_parts hcrc (k := 5) rfl

/-! ### What is written -/

/-- **That an image was replaced** is noted in the bytes. -/
theorem noteReplaced_parts (image : ImageId) :
    noteReplaced image (r.parts crc).flatten = ((r.replacedBy image).parts crc).flatten := by
  have hflag : ∀ b, flag b ≠ 0 ↔ b = true := by decide
  have hiff : flag r.trial ≠ 0 ∧ r.image.val ≠ image.val ↔ r.trial ∧ r.image ≠ image := by
    rw [hflag, Ne, Ne, ← Subtype.ext_iff]
  have hnoted : ∀ reason : RevertReason,
      splice 0 (splice 0 (r.parts crc).flatten reasonOffset [reason.toByte]) previousImageOffset
          (region (splice 0 (r.parts crc).flatten reasonOffset [reason.toByte]) imageOffset
            imageIdSize) =
        (({ r with reason := reason, previous := r.image } : TrialRecord).parts crc).flatten := by
    intro reason
    have hreason : splice 0 (r.parts crc).flatten reasonOffset [reason.toByte] =
        (({ r with reason := reason } : TrialRecord).parts crc).flatten :=
      splice_flatten 0 (r.length_parts hcrc) (k := 4) rfl
    rw [hreason, region_image _ hcrc]
    exact splice_flatten 0 (length_parts _ hcrc) (k := 7) (by rw [r.image.property]; rfl)
  unfold noteReplaced replacedBy
  rw [r.getD_trial hcrc, r.region_image hcrc, r.getD_revert hcrc]
  by_cases h : r.trial ∧ r.image ≠ image
  · rw [if_pos (hiff.2 h), if_pos h]
    simp only [hflag]
    exact hnoted _
  · rw [if_neg (mt hiff.1 h), if_neg h]

/-- The number of attempts is read from the bytes. -/
theorem countAttempts_parts (image : ImageId) (confirmed : Bool) :
    countAttempts image confirmed (r.parts crc).flatten = r.counted image confirmed := by
  have himage : r.image.val ≠ image.val ↔ r.image ≠ image := by rw [Ne, Ne, ← Subtype.ext_iff]
  unfold countAttempts counted
  rw [r.getBe32_attempts hcrc, r.region_image hcrc]
  simp only [himage]

/-- **What is written is the record of the boot.** -/
theorem updateRecord_parts (image : ImageId) (confirmed revertPending : Bool) :
    updateRecord image confirmed revertPending (r.parts crc).flatten =
      ((r.boot image confirmed revertPending).bytes,
        (r.boot image confirmed revertPending).attempts) := by
  set u := r.boot image confirmed revertPending with hu
  have hattempts : countAttempts image confirmed ((r.replacedBy image).parts crc).flatten =
      u.attempts := by
    rw [countAttempts_parts _ hcrc, counted, replacedBy_image, replacedBy_attempts]
    rfl
  have hlen := (r.replacedBy image).length_parts hcrc
  have hlen₁ : (List.set _ 1 image.val).map List.length = sizes :=
    map_length_set hlen (by rw [image.property]; rfl)
  have hlen₂ : (List.set _ 2 (putBe32 u.attempts)).map List.length = sizes :=
    map_length_set hlen₁ rfl
  have hlen₃ : (List.set _ 3 [if confirmed then (0 : UInt8) else 1]).map List.length = sizes :=
    map_length_set hlen₂ rfl
  have hbody : splice 0 (splice 0 (splice 0 (splice 0 ((r.replacedBy image).parts crc).flatten
      imageOffset image.val) attemptsOffset (putBe32 u.attempts)) trialOffset
      [if confirmed then 0 else 1]) revertOffset [if revertPending then 1 else 0] =
        (u.parts crc).flatten := by
    rw [show imageOffset = (sizes.take 1).sum from rfl,
      splice_flatten 0 hlen (by rw [image.property]; rfl),
      show attemptsOffset = (sizes.take 2).sum from rfl, splice_flatten 0 hlen₁ rfl,
      show trialOffset = (sizes.take 3).sum from rfl, splice_flatten 0 hlen₂ rfl,
      show revertOffset = (sizes.take 5).sum from rfl, splice_flatten 0 hlen₃ rfl]
    have htrial : (if confirmed then (0 : UInt8) else 1) = flag u.trial := by
      cases confirmed <;> rfl
    rw [htrial]
    rfl
  unfold updateRecord
  dsimp only
  rw [r.noteReplaced_parts hcrc, hattempts, hbody]
  have hcovered : (u.parts crc).flatten.take crcOffset = u.body := by
    rw [parts_flatten, List.take_left' u.length_body]
  rw [hcovered]
  congr 1
  exact splice_flatten 0 (u.length_parts hcrc) (k := 8) rfl

end

end TrialRecord

/-! ### The bytes that are read -/

/-- The checks of `load_record` on the bytes. -/
def Accepted (record : List UInt8) : Prop :=
  record.take 4 = recordMagic ∧ record.getD trialOffset 0 ≤ 1 ∧
    record.getD reasonOffset 0 ≤ RevertReason.REPLACED_UNKNOWN.toByte ∧
    record.getD revertOffset 0 ≤ 1 ∧ getBe32 (record.drop attemptsOffset) ≠ uint32Max ∧
    getBe32 (record.drop crcOffset) = crc32 (record.take crcOffset)

instance (record : List UInt8) : Decidable (Accepted record) :=
  inferInstanceAs (Decidable (_ ∧ _ ∧ _ ∧ _ ∧ _ ∧ _))

/-- **A record that was written is accepted.** -/
theorem TrialRecord.accepted_bytes (r : TrialRecord) : Accepted r.bytes := by
  have hcrc := length_putBe32 (crc32 r.body)
  have hflag : ∀ b, flag b ≤ 1 := by decide
  unfold Accepted bytes
  rw [r.getD_trial hcrc, r.getD_reason hcrc, r.getD_revert hcrc, r.getBe32_attempts hcrc]
  refine ⟨rfl, hflag _, ?_, hflag _, ?_, ?_⟩
  · cases r.reason <;> decide
  · intro h
    have hbounded := r.bounded
    rw [h] at hbounded
    exact absurd hbounded (by decide)
  · rw [parts_flatten, List.take_left' r.length_body, List.drop_left' r.length_body]
    exact getBe32_putBe32 _ []

/-- What the storage does in a call: whether it is ready, how `fs_open` fails, how each `fs_read`
fails or how many bytes more than one it may get, how `fs_close` and `kfsw_snapshot_write` fail.
With `ENOENT` they say that there is no file, so none of them says it of a file that there is. -/
structure StorageIo where
  ready : Bool
  opened : Option Errno
  reads : ℕ → Except Errno ℕ
  closed : Option Errno
  written : Option Errno
  opened_ne : opened ≠ some .ENOENT
  reads_ne : ∀ n, reads n ≠ .error .ENOENT
  closed_ne : closed ≠ some .ENOENT

namespace StorageIo

/-- The `n`-th `fs_read`: `len` bytes at `offset` or fewer, but one if there is one. -/
def fsRead (io : StorageIo) (n : ℕ) (content : List UInt8) (offset len : ℕ) :
    Except Errno (List UInt8) :=
  (io.reads n).map fun more => region content offset (min len (more + 1))

/-- The loop of `load_record`, with what it has got in `n` turns. -/
def fill (io : StorageIo) (content : List UInt8) (n : ℕ) (record : List UInt8) :
    Except Errno (ℕ × List UInt8) :=
  if record.length < recordSize then
    match io.fsRead n content record.length (recordSize - record.length) with
    | .error e => .error e
    | .ok [] => .error .EBADMSG
    | .ok (b :: got) => io.fill content (n + 1) (record ++ b :: got)
  else .ok (n, record)
termination_by recordSize - record.length
decreasing_by
  rw [List.length_append, List.length_cons]
  omega

/-- What `load_record` has read when it closes the file: a record and nothing behind it. -/
def readFile (io : StorageIo) (content : List UInt8) : Except Errno (List UInt8) :=
  match io.fill content 0 [] with
  | .error e => .error e
  | .ok (n, record) =>
    match io.fsRead n content recordSize 1 with
    | .ok [] => .ok record
    | _ => .error .EBADMSG

/-- `load_record`; a file that there is has some bytes. -/
def loadRecord (io : StorageIo) (file : Option (List UInt8)) : Except Errno (List UInt8) :=
  match io.opened, file with
  | some e, _ => .error e
  | none, none => .error .ENOENT
  | none, some content =>
    match io.readFile content, io.closed with
    | .error e, _ => .error e
    | .ok _, some e => .error e
    | .ok record, none => if Accepted record then .ok record else .error .EBADMSG

/-- Nothing fails. -/
structure Works (io : StorageIo) : Prop where
  ready : io.ready = true
  opened : io.opened = none
  reads : ∀ n e, io.reads n ≠ .error e
  closed : io.closed = none
  written : io.written = none

section

variable (io : StorageIo) {content : List UInt8}

/-- A read fails, or gets something if there is something. -/
theorem fsRead_cases (n offset len : ℕ) :
    (∃ e, e ≠ .ENOENT ∧ io.fsRead n content offset len = .error e ∧ ¬ io.Works) ∨
      ∃ more, io.fsRead n content offset len =
        .ok (region content offset (min len (more + 1))) := by
  cases hread : io.reads n with
  | error e =>
    refine Or.inl ⟨e, fun h => io.reads_ne n (h ▸ hread), ?_, fun hworks => hworks.reads n e hread⟩
    rw [fsRead, hread]
    rfl
  | ok more =>
    refine Or.inr ⟨more, ?_⟩
    rw [fsRead, hread]
    rfl

/-- **The loop reads the file from its beginning.** -/
theorem fill_cases (n : ℕ) (record : List UInt8) (hle : record.length ≤ recordSize)
    (hbegins : record <+: content) : (∃ e, e ≠ .ENOENT ∧ io.fill content n record = .error e ∧
        (io.Works → content.length < recordSize)) ∨
      ∃ m, io.fill content n record = .ok (m, content.take recordSize) ∧
        recordSize ≤ content.length := by
  induction n, record using fill.induct io content with
  | case1 n record hlt e hread =>
    rcases io.fsRead_cases n record.length (recordSize - record.length) with ⟨e', he, h, hworks⟩ | h
    · obtain rfl := Except.error.inj (h.symm.trans hread)
      refine Or.inl ⟨e', he, ?_, fun hw => absurd hw hworks⟩
      rw [fill, if_pos hlt, hread]
    · obtain ⟨more, h⟩ := h
      cases h.symm.trans hread
  | case2 n record hlt hread =>
    refine Or.inl ⟨.EBADMSG, by decide, ?_, fun hw => ?_⟩
    · rw [fill, if_pos hlt, hread]
    · rcases io.fsRead_cases n record.length (recordSize - record.length)
        with ⟨_, _, _, hworks⟩ | ⟨more, h⟩
      · exact absurd hw hworks
      · have hnil := congrArg List.length (Except.ok.inj (h.symm.trans hread))
        rw [length_region, List.length_nil] at hnil
        omega
  | case3 n record hlt b got hread ih =>
    rcases io.fsRead_cases n record.length (recordSize - record.length)
      with ⟨e, -, h, -⟩ | ⟨more, h⟩
    · cases h.symm.trans hread
    · have hgot := Except.ok.inj (h.symm.trans hread)
      have hlen := congrArg List.length hgot
      rw [length_region] at hlen
      have hnext : record ++ b :: got <+: content := by
        conv_lhs => rw [List.prefix_iff_eq_take.1 hbegins, ← hgot]
        rw [region, ← List.take_add]
        exact List.take_prefix _ _
      rw [fill, if_pos hlt, hread]
      refine ih ?_ hnext
      rw [List.length_append]
      omega
  | case4 n record hge =>
    have hfull : record.length = recordSize := by omega
    refine Or.inr ⟨n, ?_, hfull ▸ hbegins.length_le⟩
    rw [fill, if_neg hge, ← hfull, ← List.prefix_iff_eq_take.1 hbegins]

/-- **What is read is the file**, if it has the size of a record. -/
theorem readFile_cases (content : List UInt8) : (∃ e, e ≠ .ENOENT ∧ io.readFile content = .error e ∧
        (io.Works → content.length ≠ recordSize)) ∨ io.readFile content = .ok content := by
  have hbegins : [] <+: content := List.nil_prefix
  rcases io.fill_cases 0 [] (Nat.zero_le _) hbegins with ⟨e, he, h, hworks⟩ | ⟨m, h, hlen⟩
  · refine Or.inl ⟨e, he, ?_, fun hw => (hworks hw).ne⟩
    rw [readFile, h]
  · rcases io.fsRead_cases m recordSize 1 with ⟨e, he, hread, hworks⟩ | ⟨more, hread⟩
    · refine Or.inl ⟨.EBADMSG, by decide, ?_, fun hw => absurd hw hworks⟩
      rw [readFile, h]
      dsimp only
      rw [hread]
    · by_cases hlong : recordSize < content.length
      · have hrest : (region content recordSize (min 1 (more + 1))).length ≠ 0 := by
          rw [length_region]
          omega
        refine Or.inl ⟨.EBADMSG, by decide, ?_, fun _ => hlong.ne'⟩
        rw [readFile, h]
        dsimp only
        rw [hread]
        cases hr : region content recordSize (min 1 (more + 1)) with
        | nil => exact absurd (by rw [hr]; rfl) hrest
        | cons b bs => rfl
      · have hrest : region content recordSize (min 1 (more + 1)) = [] := by
          rw [← List.length_eq_zero_iff, length_region]
          omega
        refine Or.inr ?_
        rw [readFile, h]
        dsimp only
        rw [hread, hrest, List.take_of_length_le (not_lt.1 hlong)]

/-- **What is loaded is the file**; an error is not that there is none. -/
theorem loadRecord_some (content : List UInt8) :
    (∃ e, e ≠ .ENOENT ∧ io.loadRecord (some content) = .error e ∧
        (io.Works → content.length = recordSize → ¬ Accepted content)) ∨
      io.loadRecord (some content) = .ok content := by
  unfold loadRecord
  cases hopened : io.opened with
  | some e =>
    refine Or.inl ⟨e, fun h => io.opened_ne (h ▸ hopened), rfl, fun hw => ?_⟩
    cases hopened.symm.trans hw.opened
  | none =>
    rcases io.readFile_cases content with ⟨e, he, h, hworks⟩ | h
    · refine Or.inl ⟨e, he, ?_, fun hw hlen => absurd hlen (hworks hw)⟩
      dsimp only
      rw [h]
    · cases hclosed : io.closed with
      | some e =>
        refine Or.inl ⟨e, fun h => io.closed_ne (h ▸ hclosed), ?_, fun hw => ?_⟩
        · dsimp only
          rw [h]
        · cases hclosed.symm.trans hw.closed
      | none =>
        dsimp only
        rw [h]
        dsimp only
        by_cases haccepted : Accepted content
        · rw [if_pos haccepted]
          exact Or.inr rfl
        · rw [if_neg haccepted]
          exact Or.inl ⟨.EBADMSG, by decide, rfl, fun _ _ => haccepted⟩

/-- Without a file nothing is loaded. -/
theorem loadRecord_none : ∃ e, io.loadRecord none = .error e ∧ (io.Works → e = .ENOENT) := by
  unfold loadRecord
  cases hopened : io.opened with
  | some e => exact ⟨e, rfl, fun hw => by cases hopened.symm.trans hw.opened⟩
  | none => exact ⟨.ENOENT, rfl, fun _ => rfl⟩

end

end StorageIo

end KfswServices.Boot
