/-
# A journal record on disk

`encode` and `decode` of `src/journal/journal_store.c`.  A record is 72 bytes,
big-endian:

| offset | size | field |
| ---: | ---: | --- |
| 0 | 4 | `KFE1` |
| 4 | 1 | version, 1 |
| 5 | 1 | whether the UTC time is valid |
| 6 | 2 | record size, 72 |
| 8 | 8 | sequence |
| 16 | 8 | boot |
| 24 | 8 | monotonic time of the event |
| 32 | 8 | UTC seconds |
| 40 | 4 | sequence of the event |
| 44 | 2 | source |
| 46 | 2 | event identifier |
| 48 | 1 | severity |
| 49 | 1 | payload size |
| 50 | 2 | zero |
| 52 | 16 | payload, zero behind its end |
| 68 | 4 | CRC-32 of the bytes before |

The file header is 16 bytes, and the only bytes accepted as one (`headerValid_iff`).
-/

import KfswServices.Event.Record
import KfswServices.Library.BigEndian
import KfswServices.Library.Crc32
import KfswServices.Library.Splice

namespace KfswServices.Journal

open Library

/-- `KFSW_JOURNAL_HEADER_SIZE`. -/
abbrev headerSize : ℕ := 16

/-- `KFSW_JOURNAL_RECORD_SIZE`. -/
abbrev recordSize : ℕ := 72

/-- `UINT64_MAX`. -/
abbrev uint64Max : ℕ := 2 ^ 64 - 1

/-- `struct kfsw_journal_record`.  The 64-bit sequence and boot numbers are natural
numbers; no operation takes one past `UINT64_MAX`. -/
structure Record where
  sequence : ℕ
  boot : ℕ
  utcSeconds : Int64
  utcValid : Bool
  event : Event.Record
  deriving DecidableEq, Repr

/-- The bytes the checksum covers. -/
def Record.body (r : Record) : List UInt8 :=
  [0x4B, 0x46, 0x45, 0x31, 1, if r.utcValid then 1 else 0] ++ (putBe16 72 ++
    (putBe64 (UInt64.ofNat r.sequence) ++ (putBe64 (UInt64.ofNat r.boot) ++
      (putBe64 r.event.monotonicUs ++ (putBe64 r.utcSeconds.toUInt64 ++
        (putBe32 r.event.sequence ++ (putBe16 r.event.source ++ (putBe16 r.event.id ++
          ([r.event.severity, UInt8.ofNat r.event.payload.length, 0, 0] ++ (r.event.payload ++
            List.replicate (Event.maxPayloadSize - r.event.payload.length) 0))))))))))

/-- `encode`. -/
def encode (r : Record) : List UInt8 := r.body ++ putBe32 (crc32 r.body)

/-- The checks of `decode` on the bytes. -/
def Wellformed (bytes : List UInt8) : Prop :=
  bytes.take 4 = [0x4B, 0x46, 0x45, 0x31] ∧ bytes.getD 4 0 = 1 ∧ bytes.getD 5 0 ≤ 1 ∧
    getBe16 (bytes.drop 6) = 72 ∧ getBe32 (bytes.drop 68) = crc32 (bytes.take 68) ∧
    Event.Source.BOOT.toUInt16 ≤ getBe16 (bytes.drop 44) ∧
    getBe16 (bytes.drop 44) ≤ Event.Source.RESMON.toUInt16 ∧
    bytes.getD 48 0 ≤ Event.Severity.CRITICAL.toByte ∧
    (bytes.getD 49 0).toNat ≤ Event.maxPayloadSize ∧ bytes.getD 50 0 = 0 ∧ bytes.getD 51 0 = 0

instance (bytes : List UInt8) : Decidable (Wellformed bytes) :=
  inferInstanceAs (Decidable (_ ∧ _ ∧ _ ∧ _ ∧ _ ∧ _ ∧ _ ∧ _ ∧ _ ∧ _ ∧ _))

/-- The fields `decode` reads. -/
def readRecord (bytes : List UInt8) : Record where
  sequence := (getBe64 (bytes.drop 8)).toNat
  boot := (getBe64 (bytes.drop 16)).toNat
  utcSeconds := (getBe64 (bytes.drop 32)).toInt64
  utcValid := bytes.getD 5 0 ≠ 0
  event :=
    { monotonicUs := getBe64 (bytes.drop 24)
      sequence := getBe32 (bytes.drop 40)
      source := getBe16 (bytes.drop 44)
      id := getBe16 (bytes.drop 46)
      severity := bytes.getD 48 0
      payload := (bytes.drop 52).take (bytes.getD 49 0).toNat }

/-- The numbers a record may carry. -/
def Record.Numbered (r : Record) : Prop :=
  r.sequence ≠ 0 ∧ r.sequence < uint64Max ∧ r.boot ≠ 0 ∧ r.boot < uint64Max

instance (r : Record) : Decidable r.Numbered := inferInstanceAs (Decidable (_ ∧ _ ∧ _ ∧ _))

/-- `decode`; each refusal is `-EBADMSG`. -/
def decode (bytes : List UInt8) : Option Record :=
  if ¬ Wellformed bytes then none
  else if ¬ (readRecord bytes).Numbered then none
  else some (readRecord bytes)

/-- A record that decodes carries numbers in range. -/
theorem numbered_of_decode {bytes : List UInt8} {r : Record} (h : decode bytes = some r) :
    r.Numbered := by
  unfold decode at h
  split_ifs at h with h₁ h₂
  obtain rfl := Option.some.inj h
  exact h₂

@[simp] theorem length_body {r : Record} (h : r.event.payload.length ≤ Event.maxPayloadSize) :
    r.body.length = 68 := by
  have h16 : r.event.payload.length ≤ 16 := h
  simp only [Record.body, Event.maxPayloadSize, List.length_append, List.length_cons,
    List.length_nil, List.length_replicate, length_putBe16, length_putBe32, length_putBe64]
  omega

@[simp] theorem length_encode {r : Record} (h : r.event.payload.length ≤ Event.maxPayloadSize) :
    (encode r).length = recordSize := by
  rw [encode, List.length_append, length_body h, length_putBe32]

/-- **A record survives the disk.** -/
theorem decode_encode {r : Record} (hvalid : r.event.Valid) (hnum : r.Numbered) :
    decode (encode r) = some r := by
  obtain ⟨hlow, hhigh, hsev, hpay⟩ := hvalid
  obtain ⟨hs₀, hs₁, hb₀, hb₁⟩ := hnum
  have hbody := length_body hpay
  have hsplit : (encode r).take 68 = r.body ∧ (encode r).drop 68 = putBe32 (crc32 r.body) := by
    rw [encode, ← hbody]
    exact ⟨List.take_left, List.drop_left⟩
  have hseq : (UInt64.ofNat r.sequence).toNat = r.sequence :=
    UInt64.toNat_ofNat_of_lt' (by simp only [UInt64.size, uint64Max] at *; omega)
  have hboot : (UInt64.ofNat r.boot).toNat = r.boot :=
    UInt64.toNat_ofNat_of_lt' (by simp only [UInt64.size, uint64Max] at *; omega)
  have hsize : (UInt8.ofNat r.event.payload.length).toNat = r.event.payload.length :=
    UInt8.toNat_ofNat_of_lt' (lt_of_le_of_lt hpay (by decide))
  have hcrc : getBe32 ((encode r).drop 68) = crc32 ((encode r).take 68) := by
    rw [hsplit.1, hsplit.2]
    simpa using getBe32_putBe32 (crc32 r.body) []
  -- name every octet in front of the payload, so that each field is read at its offset
  obtain ⟨l₀, l₁, hl, gl⟩ := exists_putBe16 72
  obtain ⟨s₀, s₁, s₂, s₃, s₄, s₅, s₆, s₇, hs, gs⟩ := exists_putBe64 (UInt64.ofNat r.sequence)
  obtain ⟨b₀, b₁, b₂, b₃, b₄, b₅, b₆, b₇, hb, gb⟩ := exists_putBe64 (UInt64.ofNat r.boot)
  obtain ⟨m₀, m₁, m₂, m₃, m₄, m₅, m₆, m₇, hm, gm⟩ := exists_putBe64 r.event.monotonicUs
  obtain ⟨u₀, u₁, u₂, u₃, u₄, u₅, u₆, u₇, hu, gu⟩ := exists_putBe64 r.utcSeconds.toUInt64
  obtain ⟨e₀, e₁, e₂, e₃, he, ge⟩ := exists_putBe32 r.event.sequence
  obtain ⟨c₀, c₁, hc, gc⟩ := exists_putBe16 r.event.source
  obtain ⟨i₀, i₁, hi, gi⟩ := exists_putBe16 r.event.id
  have hbytes : encode r =
      0x4B :: 0x46 :: 0x45 :: 0x31 :: 1 :: (if r.utcValid then 1 else 0) :: l₀ :: l₁ ::
      s₀ :: s₁ :: s₂ :: s₃ :: s₄ :: s₅ :: s₆ :: s₇ :: b₀ :: b₁ :: b₂ :: b₃ :: b₄ :: b₅ :: b₆ :: b₇ ::
      m₀ :: m₁ :: m₂ :: m₃ :: m₄ :: m₅ :: m₆ :: m₇ :: u₀ :: u₁ :: u₂ :: u₃ :: u₄ :: u₅ :: u₆ :: u₇ ::
      e₀ :: e₁ :: e₂ :: e₃ :: c₀ :: c₁ :: i₀ :: i₁ :: r.event.severity ::
      UInt8.ofNat r.event.payload.length :: 0 :: 0 :: (r.event.payload ++
        (List.replicate (Event.maxPayloadSize - r.event.payload.length) 0 ++
          putBe32 (crc32 r.body))) := by
    simp only [encode, Record.body, hl, hs, hb, hm, hu, he, hc, hi, List.cons_append,
      List.nil_append, List.append_assoc]
  have hwf : Wellformed (encode r) := by
    refine ⟨?_, ?_, ?_, ?_, hcrc, ?_, ?_, ?_, ?_, ?_, ?_⟩ <;> rw [hbytes]
    · rfl
    · rfl
    · show (if r.utcValid then (1 : UInt8) else 0) ≤ 1
      split_ifs <;> decide
    · exact gl _
    · exact hlow.trans_eq (gc _).symm
    · exact (gc _).trans_le hhigh
    · exact hsev
    · exact hsize.trans_le hpay
    · rfl
    · rfl
  have hread : readRecord (encode r) = r := by
    have hs' := fun bs => congrArg UInt64.toNat (gs bs)
    have hb' := fun bs => congrArg UInt64.toNat (gb bs)
    rw [hseq] at hs'
    rw [hboot] at hb'
    unfold readRecord
    rw [hbytes]
    simp only [List.drop_succ_cons, List.drop_zero, List.getD_cons_succ, List.getD_cons_zero, hs', hb',
      gm, gu, ge, gc, gi, hsize, List.take_left, Int64.toInt64_toUInt64]
    cases r with
    | mk sequence boot utcSeconds utcValid event => cases utcValid <;> rfl
  unfold decode
  rw [if_neg (not_not.2 hwf), hread, if_neg (not_not.2 ⟨hs₀, hs₁, hb₀, hb₁⟩)]

/-! ### The file header -/

/-- The first twelve bytes of the header. -/
def headerBody (capacity : ℕ) : List UInt8 :=
  [0x4B, 0x46, 0x4A, 0x31, 1, 0] ++ (putBe16 72 ++ putBe32 (UInt32.ofNat capacity))

/-- The header `kfsw_journal_store_open` writes. -/
def header (capacity : ℕ) : List UInt8 :=
  headerBody capacity ++ putBe32 (crc32 (headerBody capacity))

@[simp] theorem length_header (capacity : ℕ) : (header capacity).length = headerSize := by
  simp [header, headerBody]

/-- The header checks of `kfsw_journal_store_open`, on the bytes it read. -/
def HeaderValid (capacity : ℕ) (bytes : List UInt8) : Prop :=
  bytes.length = headerSize ∧ bytes.take 4 = [0x4B, 0x46, 0x4A, 0x31] ∧ bytes.getD 4 0 = 1 ∧
    bytes.getD 5 0 = 0 ∧ getBe16 (bytes.drop 6) = 72 ∧
    getBe32 (bytes.drop 8) = UInt32.ofNat capacity ∧
    getBe32 (bytes.drop 12) = crc32 (bytes.take 12)

instance (capacity : ℕ) (bytes : List UInt8) : Decidable (HeaderValid capacity bytes) :=
  inferInstanceAs (Decidable (_ ∧ _ ∧ _ ∧ _ ∧ _ ∧ _ ∧ _))

/-- **Only the header that is written is accepted.** -/
theorem headerValid_iff (capacity : ℕ) (bytes : List UInt8) :
    HeaderValid capacity bytes ↔ bytes = header capacity := by
  constructor
  · rintro ⟨hlen, hmagic, h4, h5, h6, h8, h12⟩
    obtain ⟨a₀, a₁, a₂, a₃, a₄, a₅, a₆, a₇, a₈, a₉, a₁₀, a₁₁, a₁₂, a₁₃, a₁₄, a₁₅, rfl⟩ :
        ∃ a₀ a₁ a₂ a₃ a₄ a₅ a₆ a₇ a₈ a₉ a₁₀ a₁₁ a₁₂ a₁₃ a₁₄ a₁₅, bytes =
          [a₀, a₁, a₂, a₃, a₄, a₅, a₆, a₇, a₈, a₉, a₁₀, a₁₁, a₁₂, a₁₃, a₁₄, a₁₅] := by
      rcases bytes with _ | ⟨a₀, _ | ⟨a₁, _ | ⟨a₂, _ | ⟨a₃, _ | ⟨a₄, _ | ⟨a₅, _ | ⟨a₆, _ | ⟨a₇, _ |
        ⟨a₈, _ | ⟨a₉, _ | ⟨a₁₀, _ | ⟨a₁₁, _ | ⟨a₁₂, _ | ⟨a₁₃, _ | ⟨a₁₄, _ |
        ⟨a₁₅, _ | ⟨a₁₆, tail⟩⟩⟩⟩⟩⟩⟩⟩⟩⟩⟩⟩⟩⟩⟩⟩⟩
      all_goals first
        | exact ⟨_, _, _, _, _, _, _, _, _, _, _, _, _, _, _, _, rfl⟩
        | simp [headerSize] at hlen
    simp only [List.take_succ_cons, List.take_zero, List.cons.injEq, and_true] at hmagic
    obtain ⟨rfl, rfl, rfl, rfl⟩ := hmagic
    obtain rfl : a₄ = 1 := h4
    obtain rfl : a₅ = 0 := h5
    have p6 : putBe16 72 = [a₆, a₇] := by
      rw [← h6]
      exact putBe16_getBe16 a₆ a₇ _
    have p8 : putBe32 (UInt32.ofNat capacity) = [a₈, a₉, a₁₀, a₁₁] := by
      rw [← h8]
      exact putBe32_getBe32 a₈ a₉ a₁₀ a₁₁ _
    have hbody : headerBody capacity = [0x4B, 0x46, 0x4A, 0x31, 1, 0, a₆, a₇, a₈, a₉, a₁₀, a₁₁] := by
      rw [headerBody, p6, p8]
      rfl
    have p12 : putBe32 (crc32 (headerBody capacity)) = [a₁₂, a₁₃, a₁₄, a₁₅] := by
      have hc : getBe32 [a₁₂, a₁₃, a₁₄, a₁₅] = crc32 (headerBody capacity) := by
        rw [hbody]
        exact h12
      rw [← hc]
      exact putBe32_getBe32 a₁₂ a₁₃ a₁₄ a₁₅ []
    rw [header, p12, hbody]
    rfl
  · rintro rfl
    obtain ⟨l₀, l₁, hl, gl⟩ := exists_putBe16 72
    obtain ⟨c₀, c₁, c₂, c₃, hc, gc⟩ := exists_putBe32 (UInt32.ofNat capacity)
    have hbody : headerBody capacity =
        [0x4B, 0x46, 0x4A, 0x31, 1, 0, l₀, l₁, c₀, c₁, c₂, c₃] := by
      rw [headerBody, hl, hc]
      rfl
    obtain ⟨k₀, k₁, k₂, k₃, hk, gk⟩ := exists_putBe32 (crc32 (headerBody capacity))
    have hbytes : header capacity =
        [0x4B, 0x46, 0x4A, 0x31, 1, 0, l₀, l₁, c₀, c₁, c₂, c₃, k₀, k₁, k₂, k₃] := by
      rw [header, hk, hbody]
      rfl
    rw [hbytes]
    exact ⟨rfl, rfl, rfl, rfl, gl _, gc _, (gk []).trans (congrArg crc32 hbody)⟩

end KfswServices.Journal
