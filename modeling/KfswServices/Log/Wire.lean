/-
# Remote reads on the wire

The packets of `src/log_remote.c`, version 2.  Integers are big-endian; every reply starts with
the version, its type and the requester's nonce.

| reply | behind the header |
| --- | --- |
| start | format, first, end, overwritten |
| message | sequence, uptime, module, severity, flags, length, data, perhaps a CRC-32 of the text |
| event | sequence, boot, UTC, whether it is valid, monotonic time, source, id, severity, length, payload |
| end | status, records sent |

What the server sends is parsed as what it stands for (`parseReply_bytes`).
-/

import KfswServices.Journal.Record
import KfswServices.Log.History

namespace KfswServices.Log

open Library

/-- `WIRE_VERSION`. -/
abbrev wireVersion : UInt8 := 2

/-- `WIRE_DATA_MAX`. -/
abbrev wireDataMax : ℕ := 190

/-- `TEXT_CRC_SIZE`. -/
abbrev textCrcSize : ℕ := 4

/-- `REQUEST_SIZE`, `HEADER_SIZE`, `START_SIZE`, `MESSAGE_HEADER_SIZE`, `EVENT_HEADER_SIZE` and
`END_SIZE`. -/
abbrev requestSize : ℕ := 13
abbrev headerSize : ℕ := 10
abbrev startSize : ℕ := 35
abbrev messageHeaderSize : ℕ := 30
abbrev eventHeaderSize : ℕ := 49
abbrev endSize : ℕ := 13

/-- `enum kfsw_log_remote_stream`. -/
inductive Stream
  | LOG
  | JOURNAL
  deriving DecidableEq, Repr

def Stream.toByte : Stream → UInt8
  | LOG => 0
  | JOURNAL => 1

/-- The status of an end. -/
inductive Status
  | COMPLETE
  | CHANGED
  | NO_BUFFER
  | NOT_SERVED
  deriving DecidableEq, Repr

def Status.toByte : Status → UInt8
  | COMPLETE => 0
  | CHANGED => 1
  | NO_BUFFER => 2
  | NOT_SERVED => 3

/-- `KFSW_LOG_REMOTE_TEXT` and `KFSW_LOG_REMOTE_DICTIONARY`. -/
abbrev formatText : UInt8 := 0
abbrev formatDictionary : UInt8 := 1

/-- What a request asks for. -/
structure Request where
  stream : Stream
  minimum : UInt8
  count : UInt16
  nonce : UInt64
  deriving DecidableEq, Repr

/-- The request `kfsw_log_remote_read` sends. -/
def Request.bytes (r : Request) : List UInt8 :=
  [wireVersion, r.stream.toByte, r.minimum] ++ (putBe16 r.count ++ putBe64 r.nonce)

/-- The checks of `serve`; what they refuse gets no reply. -/
def parseRequest (p : List UInt8) : Option Request :=
  if p.length ≠ requestSize ∨ p.getD 0 0 ≠ wireVersion ∨ p.getD 1 0 > Stream.JOURNAL.toByte ∨
      p.getD 2 0 > 3 then none
  else
    let count := getBe16 (p.drop 3)
    if count = 0 ∨ count.toNat > maxRead then none
    else some ⟨if p.getD 1 0 = Stream.JOURNAL.toByte then .JOURNAL else .LOG, p.getD 2 0, count,
      getBe64 (p.drop 5)⟩

/-- `struct kfsw_log_remote_start`. -/
structure Start where
  format : UInt8
  first : UInt64
  «end» : UInt64
  overwritten : UInt64
  deriving DecidableEq, Repr

/-- `struct kfsw_log_remote_message`; `data` is its first `size` bytes, and `textCrc` stands for
`text_crc_present` and `text_crc`. -/
structure Message where
  sequence : UInt64
  uptimeMs : UInt64
  module : UInt8
  severity : UInt8
  truncated : Bool
  package : Bool
  textCrc : Option UInt32
  data : List UInt8
  deriving DecidableEq, Repr

/-- `FLAG_TRUNCATED`, `FLAG_PACKAGE` and `FLAG_TEXT_CRC`. -/
def Message.flags (m : Message) : UInt8 :=
  (if m.truncated then 1 else 0) ||| (if m.package then 2 else 0) |||
    (if m.textCrc.isSome then 4 else 0)

/-- A reply of the server. -/
inductive Reply
  | start (s : Start)
  | message (m : Message)
  | event (r : Journal.Record)
  | ended (status : Status) (sent : UInt16)
  deriving DecidableEq, Repr

/-- The `TYPE_` of a reply. -/
def Reply.type : Reply → UInt8
  | start _ => 0
  | message _ => 1
  | ended _ _ => 2
  | event _ => 3

/-- The payload of an event that is sent. -/
def eventPayload (r : Journal.Record) : List UInt8 := r.event.payload.take Event.maxPayloadSize

/-- What stands behind the header. -/
def Reply.body : Reply → List UInt8
  | start s => s.format :: (putBe64 s.first ++ (putBe64 s.end ++ putBe64 s.overwritten))
  | message m =>
    putBe64 m.sequence ++ (putBe64 m.uptimeMs ++
      ([m.module, m.severity, m.flags, UInt8.ofNat m.data.length] ++
        (m.data ++ (m.textCrc.map putBe32).getD [])))
  | event r =>
    putBe64 (UInt64.ofNat r.sequence) ++ (putBe64 (UInt64.ofNat r.boot) ++
      (putBe64 r.utcSeconds.toUInt64 ++ ((if r.utcValid then 1 else 0) ::
        (putBe64 r.event.monotonicUs ++ (putBe16 r.event.source ++ (putBe16 r.event.id ++
          ([r.event.severity, UInt8.ofNat (eventPayload r).length] ++ eventPayload r)))))))
  | ended status sent => status.toByte :: putBe16 sent

/-- `new_reply` and what is put behind it. -/
def Reply.bytes (nonce : UInt64) (r : Reply) : List UInt8 :=
  wireVersion :: r.type :: (putBe64 nonce ++ r.body)

/-! ### Parsing -/

/-- `parse_start`. -/
def parseStart (p : List UInt8) : Option Start :=
  if p.length ≠ startSize then none
  else some ⟨p.getD 10 0, getBe64 (p.drop 11), getBe64 (p.drop 19), getBe64 (p.drop 27)⟩

/-- `parse_message`. -/
def parseMessage (p : List UInt8) : Option Message :=
  let length := if messageHeaderSize ≤ p.length then (p.getD 29 0).toNat else 0
  let textCrc := messageHeaderSize ≤ p.length ∧ p.getD 28 0 &&& 4 ≠ 0
  let trailer := if textCrc then textCrcSize else 0
  if p.length < messageHeaderSize ∨ p.length ≠ messageHeaderSize + length + trailer ∨
      length + trailer > wireDataMax ∨ (textCrc ∧ p.getD 28 0 &&& 2 = 0) then none
  else some {
    sequence := getBe64 (p.drop 10)
    uptimeMs := getBe64 (p.drop 18)
    module := p.getD 26 0
    severity := p.getD 27 0
    truncated := p.getD 28 0 &&& 1 ≠ 0
    package := p.getD 28 0 &&& 2 ≠ 0
    textCrc := if textCrc then some (getBe32 (p.drop (messageHeaderSize + length))) else none
    data := (p.drop 30).take length }

/-- `parse_event`; the event's own sequence does not travel. -/
def parseEvent (p : List UInt8) : Option Journal.Record :=
  let length := if eventHeaderSize < p.length then (p.getD 48 0).toNat else 0
  if p.length < eventHeaderSize ∨ p.length ≠ eventHeaderSize + length ∨
      length > Event.maxPayloadSize then none
  else some {
    sequence := (getBe64 (p.drop 10)).toNat
    boot := (getBe64 (p.drop 18)).toNat
    utcSeconds := (getBe64 (p.drop 26)).toInt64
    utcValid := p.getD 34 0 ≠ 0
    event :=
      { monotonicUs := getBe64 (p.drop 35)
        sequence := 0
        source := getBe16 (p.drop 43)
        id := getBe16 (p.drop 45)
        severity := p.getD 47 0
        payload := (p.drop 49).take length } }

/-- What a packet is read as; the status of an end is kept as its byte. -/
inductive Received
  | start (s : Start)
  | message (m : Message)
  | event (r : Journal.Record)
  | ended (status : UInt8)
  deriving DecidableEq, Repr

/-- The parsing of `handle_reply`; each refusal is `-EBADMSG`. -/
def parseReply (p : List UInt8) : Option Received :=
  if p.getD 1 0 = 0 then (parseStart p).map .start
  else if p.getD 1 0 = 1 then (parseMessage p).map .message
  else if p.getD 1 0 = 3 then (parseEvent p).map .event
  else if p.getD 1 0 = 2 then if p.length ≠ endSize then none else some (.ended (p.getD 10 0))
  else none

/-- A journal record as it arrives. -/
def received (r : Journal.Record) : Journal.Record :=
  { r with
    sequence := (UInt64.ofNat r.sequence).toNat
    boot := (UInt64.ofNat r.boot).toNat
    event := { r.event with sequence := 0, payload := eventPayload r } }

/-- What a reply arrives as. -/
def Reply.received : Reply → Received
  | start s => .start s
  | message m => .message m
  | event r => .event (Log.received r)
  | ended status _ => .ended status.toByte

/-- A message that fits into a packet; a checksum goes with a package. -/
def Message.Fits (m : Message) : Prop :=
  m.data.length + (if m.textCrc.isSome then textCrcSize else 0) ≤ wireDataMax ∧
    (m.textCrc.isSome = true → m.package = true)

def Reply.Fits : Reply → Prop
  | message m => m.Fits
  | _ => True

/-! ### What is sent is what arrives -/

theorem parseStart_bytes (nonce : UInt64) (s : Start) :
    parseStart ((Reply.start s).bytes nonce) = some s := by
  obtain ⟨format, first, stop, overwritten⟩ := s
  obtain ⟨n₀, n₁, n₂, n₃, n₄, n₅, n₆, n₇, hn, -⟩ := exists_putBe64 nonce
  obtain ⟨f₀, f₁, f₂, f₃, f₄, f₅, f₆, f₇, hf, gf⟩ := exists_putBe64 first
  obtain ⟨e₀, e₁, e₂, e₃, e₄, e₅, e₆, e₇, he, ge⟩ := exists_putBe64 stop
  obtain ⟨o₀, o₁, o₂, o₃, o₄, o₅, o₆, o₇, ho, go⟩ := exists_putBe64 overwritten
  simp [Reply.bytes, Reply.body, Reply.type, hn, hf, he, ho, parseStart, gf, ge, go]

/-- The bits of the flags. -/
theorem flags_bits (m : Message) :
    (m.flags &&& 1 ≠ 0 ↔ m.truncated = true) ∧ (m.flags &&& 2 ≠ 0 ↔ m.package = true) ∧
      (m.flags &&& 4 ≠ 0 ↔ m.textCrc.isSome = true) := by
  unfold Message.flags
  cases m.truncated <;> cases m.package <;> cases m.textCrc.isSome <;> decide

theorem parseMessage_bytes (nonce : UInt64) {m : Message} (hfits : m.Fits) :
    parseMessage ((Reply.message m).bytes nonce) = some m := by
  obtain ⟨hsize, hpackage⟩ := hfits
  obtain ⟨ht, hp, hc⟩ := flags_bits m
  obtain ⟨n₀, n₁, n₂, n₃, n₄, n₅, n₆, n₇, hn, -⟩ := exists_putBe64 nonce
  obtain ⟨s₀, s₁, s₂, s₃, s₄, s₅, s₆, s₇, hs, gs⟩ := exists_putBe64 m.sequence
  obtain ⟨u₀, u₁, u₂, u₃, u₄, u₅, u₆, u₇, hu, gu⟩ := exists_putBe64 m.uptimeMs
  set trailer := (m.textCrc.map putBe32).getD [] with htrailer
  have htlen : trailer.length = if m.textCrc.isSome then textCrcSize else 0 := by
    rw [htrailer]
    cases m.textCrc with
    | none => rfl
    | some c => exact length_putBe32 c
  have hbytes : (Reply.message m).bytes nonce =
      wireVersion :: 1 :: n₀ :: n₁ :: n₂ :: n₃ :: n₄ :: n₅ :: n₆ :: n₇ ::
      s₀ :: s₁ :: s₂ :: s₃ :: s₄ :: s₅ :: s₆ :: s₇ :: u₀ :: u₁ :: u₂ :: u₃ :: u₄ :: u₅ :: u₆ :: u₇ ::
      m.module :: m.severity :: m.flags :: UInt8.ofNat m.data.length :: (m.data ++ trailer) := by
    simp [Reply.bytes, Reply.body, Reply.type, hn, hs, hu, htrailer]
  have hlen : (UInt8.ofNat m.data.length).toNat = m.data.length := by
    refine UInt8.toNat_ofNat_of_lt' ?_
    simp only [UInt8.size, wireDataMax] at *
    omega
  set p := (Reply.message m).bytes nonce with hpdef
  have hplen : p.length = 30 + m.data.length + trailer.length := by
    rw [hbytes]
    simp only [List.length_cons, List.length_append]
    omega
  have hge : messageHeaderSize ≤ p.length := by
    rw [hplen]
    simp only [messageHeaderSize]
    omega
  have hflags : p.getD 28 0 = m.flags := by rw [hbytes]; rfl
  have hsizeByte : p.getD 29 0 = UInt8.ofNat m.data.length := by rw [hbytes]; rfl
  have hseq : getBe64 (p.drop 10) = m.sequence := by rw [hbytes]; exact gs _
  have hup : getBe64 (p.drop 18) = m.uptimeMs := by rw [hbytes]; exact gu _
  have hmod : p.getD 26 0 = m.module := by rw [hbytes]; rfl
  have hsev : p.getD 27 0 = m.severity := by rw [hbytes]; rfl
  have hdata : p.drop 30 = m.data ++ trailer := by rw [hbytes]; rfl
  have hcrc : p.drop (30 + m.data.length) = trailer := by
    rw [← List.drop_drop, hdata, List.drop_left]
  have hchecks : ¬ (p.length < messageHeaderSize ∨
      p.length ≠ messageHeaderSize + m.data.length + (if m.textCrc.isSome then textCrcSize else 0) ∨
      m.data.length + (if m.textCrc.isSome then textCrcSize else 0) > wireDataMax ∨
      (m.textCrc.isSome = true ∧ m.flags &&& 2 = 0)) := by
    rintro (h | h | h | ⟨h, hz⟩)
    · omega
    · exact h (by rw [hplen, htlen])
    · exact absurd hsize (not_le.2 h)
    · exact hp.2 (hpackage h) hz
  unfold parseMessage
  simp only [hge, if_true, true_and, hsizeByte, hlen, hflags, hc, ht, hp, hseq, hup, hmod, hsev,
    hdata, List.take_left, hcrc]
  rw [if_neg hchecks]
  obtain ⟨sequence, uptimeMs, module, severity, truncated, package, textCrc, data⟩ := m
  cases textCrc with
  | none => simp
  | some c =>
    have hget : getBe32 trailer = c := by
      rw [htrailer]
      simpa using getBe32_putBe32 c []
    simp [hget]

theorem parseEvent_bytes (nonce : UInt64) (r : Journal.Record) :
    parseEvent ((Reply.event r).bytes nonce) = some (received r) := by
  obtain ⟨n₀, n₁, n₂, n₃, n₄, n₅, n₆, n₇, hn, -⟩ := exists_putBe64 nonce
  obtain ⟨s₀, s₁, s₂, s₃, s₄, s₅, s₆, s₇, hs, gs⟩ := exists_putBe64 (UInt64.ofNat r.sequence)
  obtain ⟨b₀, b₁, b₂, b₃, b₄, b₅, b₆, b₇, hb, gb⟩ := exists_putBe64 (UInt64.ofNat r.boot)
  obtain ⟨u₀, u₁, u₂, u₃, u₄, u₅, u₆, u₇, hu, gu⟩ := exists_putBe64 r.utcSeconds.toUInt64
  obtain ⟨m₀, m₁, m₂, m₃, m₄, m₅, m₆, m₇, hm, gm⟩ := exists_putBe64 r.event.monotonicUs
  obtain ⟨c₀, c₁, hc, gc⟩ := exists_putBe16 r.event.source
  obtain ⟨i₀, i₁, hi, gi⟩ := exists_putBe16 r.event.id
  set payload := eventPayload r with hpayload
  have hbytes : (Reply.event r).bytes nonce =
      wireVersion :: 3 :: n₀ :: n₁ :: n₂ :: n₃ :: n₄ :: n₅ :: n₆ :: n₇ ::
      s₀ :: s₁ :: s₂ :: s₃ :: s₄ :: s₅ :: s₆ :: s₇ :: b₀ :: b₁ :: b₂ :: b₃ :: b₄ :: b₅ :: b₆ :: b₇ ::
      u₀ :: u₁ :: u₂ :: u₃ :: u₄ :: u₅ :: u₆ :: u₇ :: (if r.utcValid then 1 else 0) ::
      m₀ :: m₁ :: m₂ :: m₃ :: m₄ :: m₅ :: m₆ :: m₇ :: c₀ :: c₁ :: i₀ :: i₁ ::
      r.event.severity :: UInt8.ofNat payload.length :: payload := by
    simp [Reply.bytes, Reply.body, Reply.type, hn, hs, hb, hu, hm, hc, hi, hpayload]
  have hsize : payload.length ≤ Event.maxPayloadSize := List.length_take_le _ _
  have hlen : (UInt8.ofNat payload.length).toNat = payload.length :=
    UInt8.toNat_ofNat_of_lt' (lt_of_le_of_lt hsize (by decide))
  set p := (Reply.event r).bytes nonce with hpdef
  have hplen : p.length = 49 + payload.length := by
    rw [hbytes]
    simp only [List.length_cons]
    omega
  have hlength : (if eventHeaderSize < p.length then (p.getD 48 0).toNat else 0) =
      payload.length := by
    have h48 : p.getD 48 0 = UInt8.ofNat payload.length := by rw [hbytes]; rfl
    rw [h48, hlen, hplen]
    simp only [eventHeaderSize]
    split_ifs <;> omega
  have hchecks : ¬ (p.length < eventHeaderSize ∨ p.length ≠ eventHeaderSize + payload.length ∨
      payload.length > Event.maxPayloadSize) := by
    simp only [eventHeaderSize, hplen]
    omega
  unfold parseEvent
  simp only [hlength]
  rw [if_neg hchecks, hbytes]
  simp only [List.drop_succ_cons, List.drop_zero, List.getD_cons_succ, List.getD_cons_zero, gs, gb,
    gu, gm, gc, gi, List.take_length, Int64.toInt64_toUInt64, received, ← hpayload]
  cases r.utcValid <;> rfl

/-- **What is sent is what arrives.** -/
theorem parseReply_bytes (nonce : UInt64) {r : Reply} (hfits : r.Fits) :
    parseReply (r.bytes nonce) = some r.received := by
  have htype : (r.bytes nonce).getD 1 0 = r.type := rfl
  unfold parseReply
  rw [htype]
  cases r with
  | start s => simp [Reply.type, parseStart_bytes, Reply.received]
  | message m => simp [Reply.type, parseMessage_bytes nonce hfits, Reply.received]
  | event r => simp [Reply.type, parseEvent_bytes, Reply.received]
  | ended status sent =>
    obtain ⟨n₀, n₁, n₂, n₃, n₄, n₅, n₆, n₇, hn, -⟩ := exists_putBe64 nonce
    simp [Reply.type, Reply.bytes, Reply.body, Reply.received, hn]

/-- A packet of this read: long enough, of this version, with the nonce. -/
def Ours (nonce : UInt64) (p : List UInt8) : Prop :=
  headerSize ≤ p.length ∧ p.getD 0 0 = wireVersion ∧ (p.drop 2).take 8 = putBe64 nonce

instance (nonce : UInt64) (p : List UInt8) : Decidable (Ours nonce p) :=
  inferInstanceAs (Decidable (_ ∧ _ ∧ _))

theorem ours_bytes (nonce : UInt64) (r : Reply) : Ours nonce (r.bytes nonce) := by
  have hlen := length_putBe64 nonce
  refine ⟨?_, rfl, ?_⟩
  · simp only [Reply.bytes, List.length_cons, List.length_append, hlen, headerSize]
    omega
  · show (putBe64 nonce ++ r.body).take 8 = putBe64 nonce
    exact List.take_left' hlen

end KfswServices.Log
