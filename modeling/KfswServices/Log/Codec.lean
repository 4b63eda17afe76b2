/-
# The two sides of the log codec

`send_message`, `send_event`, `parse_start`, `parse_message` and `parse_event` of
`src/log_remote.c` with every access they make: the server writes its fields one by one into a
buffer that holds anything, the reader reads a packet and fills a struct.  An access outside is a
failure (`none`), and there is none (`sendMessage_eq`, `sendEvent_eq`, `parseMessageWithin_eq`,
`parseEventWithin_eq`).

What arrives is the record that was sent, less the sequence of an event, for which the packet has
no field (`remote_codec`).
-/

import KfswServices.Event.Accounting
import KfswServices.Library.Within
import KfswServices.Log.Serve

namespace KfswServices.Log

open Library

/-- `FLAG_TRUNCATED`, `FLAG_PACKAGE` and `FLAG_TEXT_CRC`. -/
abbrev flagTruncated : UInt8 := 1
abbrev flagPackage : UInt8 := 2
abbrev flagTextCrc : UInt8 := 4

/-! ### Sending -/

/-- `new_reply`; `content` is what the buffer holds before. -/
def newReply (content : ℕ → UInt8) (type : UInt8) (nonce : UInt64) (size : ℕ) :
    Option (List UInt8) := do
  let packet := (List.range size).map content
  let packet ← storeAt packet 0 [wireVersion]
  let packet ← storeAt packet 1 [type]
  storeAt packet 2 (putBe64 nonce)

/-- `send_message`: the packet it sends. -/
def sendMessage (content : ℕ → UInt8) (print : Printer) (nonce : UInt64) (format : UInt8)
    (encoded : Encoded) : Option (List UInt8) := do
  let record := formatRecord print encoded
  let text := cString record.1
  let (data, length, flags) : List UInt8 × ℕ × UInt8 :=
    if format = formatDictionary ∧ encoded.package then
      (encoded.data, encoded.size.toNat,
        (if record.2 then flagTruncated else 0) ||| flagPackage ||| flagTextCrc)
    else
      (text, min text.length wireDataMax,
        if record.2 || decide (text.length > wireDataMax) then flagTruncated else 0)
  let packet ← newReply content 1 nonce
    (messageHeaderSize + length + if flags &&& flagTextCrc ≠ 0 then textCrcSize else 0)
  let packet ← storeAt packet 10 (putBe64 encoded.sequence)
  let packet ← storeAt packet 18 (putBe64 encoded.uptimeMs)
  let packet ← storeAt packet 26 [encoded.module]
  let packet ← storeAt packet 27 [encoded.severity]
  let packet ← storeAt packet 28 [flags]
  let packet ← storeAt packet 29 [UInt8.ofNat length]
  let packet ← storeAt packet 30 (← bytesAt data 0 length)
  if flags &&& flagTextCrc ≠ 0 then
    storeAt packet (messageHeaderSize + length) (putBe32 (crc32 text))
  else return packet

/-- `send_event`: the packet it sends. -/
def sendEvent (content : ℕ → UInt8) (nonce : UInt64) (record : Journal.Record) :
    Option (List UInt8) := do
  let length := min record.event.payload.length Event.maxPayloadSize
  let packet ← newReply content 3 nonce (eventHeaderSize + length)
  let packet ← storeAt packet 10 (putBe64 (UInt64.ofNat record.sequence))
  let packet ← storeAt packet 18 (putBe64 (UInt64.ofNat record.boot))
  let packet ← storeAt packet 26 (putBe64 record.utcSeconds.toUInt64)
  let packet ← storeAt packet 34 [if record.utcValid then 1 else 0]
  let packet ← storeAt packet 35 (putBe64 record.event.monotonicUs)
  let packet ← storeAt packet 43 (putBe16 record.event.source)
  let packet ← storeAt packet 45 (putBe16 record.event.id)
  let packet ← storeAt packet 47 [record.event.severity]
  let packet ← storeAt packet 48 [UInt8.ofNat length]
  storeAt packet 49 (← bytesAt record.event.payload 0 length)

/-! ### Parsing -/

/-- `struct kfsw_log_remote_message`, with the whole of its `data`. -/
structure RemoteMessage where
  sequence : UInt64
  uptimeMs : UInt64
  module : UInt8
  severity : UInt8
  truncated : Bool
  package : Bool
  textCrcPresent : Bool
  textCrc : UInt32
  size : UInt8
  data : List UInt8
  deriving DecidableEq

/-- `struct kfsw_journal_record`, with the whole of its payload. -/
structure RemoteRecord where
  sequence : UInt64
  boot : UInt64
  utcSeconds : Int64
  utcValid : Bool
  event : Event.Slot
  deriving DecidableEq

/-- `parse_start`, with its reads of the packet. -/
def parseStartWithin (packet : List UInt8) : Option (Option Start) :=
  if packet.length ≠ startSize then some none
  else do
    let format ← byteAt packet 10
    let first ← be64At packet 11
    let stop ← be64At packet 19
    let overwritten ← be64At packet 27
    return some ⟨format, first, stop, overwritten⟩

/-- `parse_message`, with its reads of the packet and its writes to `data`. -/
def parseMessageWithin (packet : List UInt8) : Option (Option RemoteMessage) := do
  let length ← (if messageHeaderSize ≤ packet.length then (byteAt packet 29).map UInt8.toNat
    else some 0)
  let textCrc ← (if messageHeaderSize ≤ packet.length then
      (byteAt packet 28).map fun flags => decide (flags &&& flagTextCrc ≠ 0)
    else some false)
  let trailer := if textCrc then textCrcSize else 0
  if packet.length < messageHeaderSize ∨ packet.length ≠ messageHeaderSize + length + trailer ∨
      length + trailer > wireDataMax then return none
  else
    let flags ← byteAt packet 28
    if textCrc ∧ flags &&& flagPackage = 0 then return none
    else
      let sequence ← be64At packet 10
      let uptimeMs ← be64At packet 18
      let module ← byteAt packet 26
      let severity ← byteAt packet 27
      let package := decide (flags &&& flagPackage ≠ 0)
      -- the assignment of the struct clears the array
      let data ← storeAt (List.replicate textSize 0) 0 (← bytesAt packet 30 length)
      let crc ← (if textCrc then be32At packet (messageHeaderSize + length) else some 0)
      let data ← (if package then some data else storeAt data length [0])
      return some ⟨sequence, uptimeMs, module, severity, decide (flags &&& flagTruncated ≠ 0),
        package, textCrc, crc, UInt8.ofNat length, data⟩

/-- `parse_event`, with its reads of the packet and its writes to the payload. -/
def parseEventWithin (packet : List UInt8) : Option (Option RemoteRecord) := do
  let length ← (if eventHeaderSize < packet.length then (byteAt packet 48).map UInt8.toNat
    else some 0)
  if packet.length < eventHeaderSize ∨ packet.length ≠ eventHeaderSize + length ∨
      length > Event.maxPayloadSize then return none
  else
    let sequence ← be64At packet 10
    let boot ← be64At packet 18
    let utcSeconds ← be64At packet 26
    let utcValid ← byteAt packet 34
    let monotonicUs ← be64At packet 35
    let source ← be16At packet 43
    let id ← be16At packet 45
    let severity ← byteAt packet 47
    let payload ← storeAt (List.replicate Event.maxPayloadSize 0) 0 (← bytesAt packet 49 length)
    return some ⟨sequence, boot, utcSeconds.toInt64, decide (utcValid ≠ 0),
      ⟨monotonicUs, 0, source, id, severity, UInt8.ofNat length, payload⟩⟩

/-- A message as it stands in its struct. -/
def Message.remote (m : Message) : RemoteMessage where
  sequence := m.sequence
  uptimeMs := m.uptimeMs
  module := m.module
  severity := m.severity
  truncated := m.truncated
  package := m.package
  textCrcPresent := m.textCrc.isSome
  textCrc := m.textCrc.getD 0
  size := UInt8.ofNat m.data.length
  data := m.data ++ List.replicate (textSize - m.data.length) 0

/-- A journal record as it stands in its struct. -/
def remoteRecord (r : Journal.Record) : RemoteRecord :=
  ⟨UInt64.ofNat r.sequence, UInt64.ofNat r.boot, r.utcSeconds, r.utcValid, r.event.slot⟩

/-! ### The server writes inside its buffer -/

/-- The header of a reply. -/
def replyHeader (type : UInt8) (nonce : UInt64) : List UInt8 := wireVersion :: type :: putBe64 nonce

@[simp] theorem length_replyHeader (type : UInt8) (nonce : UInt64) :
    (replyHeader type nonce).length = headerSize := by
  rw [replyHeader, List.length_cons, List.length_cons, length_putBe64]

theorem newReply_eq (content : ℕ → UInt8) (type : UInt8) (nonce : UInt64) (size : ℕ) :
    newReply content type nonce size =
      storeAt ((List.range size).map content) 0 (replyHeader type nonce) := by
  unfold newReply
  simp only [Option.bind_eq_bind]
  rw [storeAt_then (by rfl), storeAt_append (by rfl)]
  rfl

/-- The parts of a message on the wire. -/
theorem bytes_message (nonce : UInt64) (m : Message) :
    (Reply.message m).bytes nonce = replyHeader 1 nonce ++ putBe64 m.sequence ++
      putBe64 m.uptimeMs ++ [m.module] ++ [m.severity] ++ [m.flags] ++
      [UInt8.ofNat m.data.length] ++ m.data ++ (m.textCrc.map putBe32).getD [] := by
  simp [Reply.bytes, Reply.body, Reply.type, replyHeader]

/-- The parts of an event on the wire. -/
theorem bytes_event (nonce : UInt64) (r : Journal.Record) :
    (Reply.event r).bytes nonce = replyHeader 3 nonce ++ putBe64 (UInt64.ofNat r.sequence) ++
      putBe64 (UInt64.ofNat r.boot) ++ putBe64 r.utcSeconds.toUInt64 ++
      [if r.utcValid then 1 else 0] ++ putBe64 r.event.monotonicUs ++ putBe16 r.event.source ++
      putBe16 r.event.id ++ [r.event.severity] ++ [UInt8.ofNat (eventPayload r).length] ++
      eventPayload r := by
  simp [Reply.bytes, Reply.body, Reply.type, replyHeader]

/-- The fields of a message, written one by one, are its packet. -/
theorem writes_message (content : ℕ → UInt8) (nonce : UInt64) (m : Message) (text : List UInt8)
    (hcrc : m.textCrc = none ∨ m.textCrc = some (crc32 text)) :
    ((newReply content 1 nonce (messageHeaderSize + m.data.length +
        if m.flags &&& flagTextCrc ≠ 0 then textCrcSize else 0)).bind fun packet =>
      (storeAt packet 10 (putBe64 m.sequence)).bind fun packet =>
      (storeAt packet 18 (putBe64 m.uptimeMs)).bind fun packet =>
      (storeAt packet 26 [m.module]).bind fun packet =>
      (storeAt packet 27 [m.severity]).bind fun packet =>
      (storeAt packet 28 [m.flags]).bind fun packet =>
      (storeAt packet 29 [UInt8.ofNat m.data.length]).bind fun packet =>
      (storeAt packet 30 m.data).bind fun packet =>
      if m.flags &&& flagTextCrc ≠ 0 then
        storeAt packet (messageHeaderSize + m.data.length) (putBe32 (crc32 text))
      else some packet) = some ((Reply.message m).bytes nonce) := by
  have hbit : m.flags &&& flagTextCrc ≠ 0 ↔ m.textCrc.isSome = true := (flags_bits m).2.2
  rw [newReply_eq, bytes_message]
  iterate 7 rw [storeAt_then (by simp)]
  rcases hcrc with hcrc | hcrc
  · have hno : ¬ m.flags &&& flagTextCrc ≠ 0 := by simp [hbit, hcrc]
    simp only [if_neg hno, hcrc, Option.map_none, Option.getD_none, List.append_nil]
    rw [Option.bind_fun_some]
    refine storeAt_whole ?_
    simp only [List.length_append, length_replyHeader, length_putBe64, List.length_cons,
      List.length_nil, List.length_map, List.length_range, headerSize, messageHeaderSize]
    omega
  · have hyes : m.flags &&& flagTextCrc ≠ 0 := by simp [hbit, hcrc]
    simp only [if_pos hyes, hcrc, Option.map_some, Option.getD_some]
    rw [storeAt_append]
    · refine storeAt_whole ?_
      simp only [List.length_append, length_replyHeader, length_putBe64, length_putBe32,
        List.length_cons, List.length_nil, List.length_map, List.length_range, headerSize,
        messageHeaderSize, textCrcSize]
    · simp only [List.length_append, length_replyHeader, length_putBe64, List.length_cons,
        List.length_nil, headerSize, messageHeaderSize]
      omega

/-- **`send_message` stays inside its buffer** and leaves nothing of what was there. -/
theorem sendMessage_eq (content : ℕ → UInt8) (print : Printer) (nonce : UInt64) (format : UInt8)
    {e : Encoded} (hdata : e.data.length = encodedSize)
    (hsize : e.package = true → e.size.toNat ≤ encodedSize) :
    sendMessage content print nonce format e =
      some ((Reply.message (toMessage print format e)).bytes nonce) := by
  unfold sendMessage toMessage
  by_cases hd : format = formatDictionary ∧ e.package
  · have hfit : 0 + e.size.toNat ≤ e.data.length := by
      rw [hdata, Nat.zero_add]
      exact hsize hd.2
    have hlen : (e.data.take e.size.toNat).length = e.size.toNat := by
      rw [List.length_take]
      omega
    have h := writes_message content nonce ⟨e.sequence, e.uptimeMs, e.module, e.severity,
      (formatRecord print e).2, true, some (crc32 (cString (formatRecord print e).1)),
      e.data.take e.size.toNat⟩ _ (.inr rfl)
    simp only [if_pos hd, Option.bind_eq_bind, bytesAt_eq hfit, Option.bind_some]
    rw [hlen] at h
    exact h
  · set text := cString (formatRecord print e).1 with htext
    set truncated := (formatRecord print e).2 || decide (text.length > wireDataMax)
    have hlen : (text.take wireDataMax).length = min text.length wireDataMax := by
      rw [List.length_take, min_comm]
    have hflags : (if truncated then flagTruncated else 0) =
        (Message.mk e.sequence e.uptimeMs e.module e.severity truncated false none
          (text.take wireDataMax)).flags := by
      cases truncated
      · show (0 : UInt8) = 0 ||| 0 ||| 0
        decide
      · show (1 : UInt8) = 1 ||| 0 ||| 0
        decide
    have h := writes_message content nonce ⟨e.sequence, e.uptimeMs, e.module, e.severity,
      truncated, false, none, text.take wireDataMax⟩ text (.inl rfl)
    simp only [if_neg hd, Option.bind_eq_bind, ← htext, bytesAt_min, Option.bind_some]
    rw [← hflags, hlen] at h
    exact h

/-- **`send_event` stays inside its buffer** and leaves nothing of what was there. -/
theorem sendEvent_eq (content : ℕ → UInt8) (nonce : UInt64) (r : Journal.Record) :
    sendEvent content nonce r = some ((Reply.event r).bytes nonce) := by
  have hlen : min r.event.payload.length Event.maxPayloadSize = (eventPayload r).length := by
    rw [eventPayload, List.length_take, min_comm]
  unfold sendEvent
  simp only [Option.bind_eq_bind, bytesAt_min, Option.bind_some]
  rw [newReply_eq, bytes_event, hlen, ← eventPayload]
  iterate 9 rw [storeAt_then (by simp)]
  rw [storeAt_append]
  · refine storeAt_whole ?_
    simp only [List.length_append, length_replyHeader, length_putBe64, length_putBe16,
      List.length_cons, List.length_nil, List.length_map, List.length_range, headerSize,
      eventHeaderSize]
  · rfl

/-! ### The reader stays inside the packet -/

theorem parseStartWithin_eq (p : List UInt8) : parseStartWithin p = some (parseStart p) := by
  unfold parseStartWithin parseStart
  by_cases hlen : p.length ≠ startSize
  · rw [if_pos hlen, if_pos hlen]
  have hp : p.length = 35 := not_ne_iff.1 hlen
  rw [if_neg hlen, if_neg hlen, byteAt_eq (by omega), be64At_eq (by omega), be64At_eq (by omega),
    be64At_eq (by omega)]
  rfl

/-- **`parse_event` stays inside the packet and inside its struct**, whatever it is given. -/
theorem parseEventWithin_eq (p : List UInt8) :
    parseEventWithin p = some ((parseEvent p).map remoteRecord) := by
  unfold parseEventWithin parseEvent
  set length := if eventHeaderSize < p.length then (p.getD 48 0).toNat else 0
  have hread : (if eventHeaderSize < p.length then (byteAt p 48).map UInt8.toNat else some 0) =
      some length := byteAt_guarded Nat.lt_of_succ_lt _ _
  simp only [hread, Option.bind_eq_bind, Option.bind_some]
  by_cases hbad : p.length < eventHeaderSize ∨ p.length ≠ eventHeaderSize + length ∨
      length > Event.maxPayloadSize
  · rw [if_pos hbad, if_pos hbad]
    rfl
  obtain ⟨-, hp, hmax⟩ : ¬ p.length < eventHeaderSize ∧ p.length = 49 + length ∧
      length ≤ Event.maxPayloadSize := by
    rw [not_or, not_or] at hbad
    exact ⟨hbad.1, not_ne_iff.1 hbad.2.1, not_lt.1 hbad.2.2⟩
  have hpayload : ((p.drop 49).take length).length = length := by
    rw [List.length_take, List.length_drop]
    omega
  have hstore := storeAt_clear (show ((p.drop 49).take length).length ≤ Event.maxPayloadSize by
    rw [hpayload]
    exact hmax)
  rw [if_neg hbad, if_neg hbad]
  simp only [be64At_eq (show 10 + 8 ≤ p.length by omega),
    be64At_eq (show 18 + 8 ≤ p.length by omega),
    be64At_eq (show 26 + 8 ≤ p.length by omega), byteAt_eq (show 34 < p.length by omega),
    be64At_eq (show 35 + 8 ≤ p.length by omega), be16At_eq (show 43 + 2 ≤ p.length by omega),
    be16At_eq (show 45 + 2 ≤ p.length by omega), byteAt_eq (show 47 < p.length by omega),
    bytesAt_eq (show 49 + length ≤ p.length by omega), hstore, Option.bind_some, Option.map_some]
  simp only [remoteRecord, Event.Record.slot, hpayload, UInt64.ofNat_toNat]
  rfl

/-- **`parse_message` stays inside the packet and inside its struct**, whatever it is given. -/
theorem parseMessageWithin_eq (p : List UInt8) :
    parseMessageWithin p = some ((parseMessage p).map Message.remote) := by
  unfold parseMessageWithin parseMessage
  set length := if messageHeaderSize ≤ p.length then (p.getD 29 0).toNat else 0
  set textCrc := decide (messageHeaderSize ≤ p.length ∧ p.getD 28 0 &&& 4 ≠ 0) with htextCrc
  have hread : (if messageHeaderSize ≤ p.length then (byteAt p 29).map UInt8.toNat else some 0) =
      some length := byteAt_guarded id _ _
  have hflag : (if messageHeaderSize ≤ p.length then
      (byteAt p 28).map fun flags => decide (flags &&& flagTextCrc ≠ 0) else some false) =
      some textCrc := by
    have h28 : messageHeaderSize ≤ p.length → 28 < p.length := Nat.lt_of_succ_lt
    rw [byteAt_guarded h28, htextCrc]
    by_cases hlong : messageHeaderSize ≤ p.length
    · simp [hlong]
    · simp [hlong]
  have hcrc : (messageHeaderSize ≤ p.length ∧ p.getD 28 0 &&& 4 ≠ 0) ↔ textCrc = true := by
    rw [htextCrc, decide_eq_true_iff]
  simp only [hread, hflag, hcrc, Option.bind_eq_bind, Option.bind_some]
  set trailer := if textCrc = true then textCrcSize else 0 with htrailer
  -- the reader splits the checks where the flags are read
  have hchecks : (p.length < messageHeaderSize ∨ p.length ≠ messageHeaderSize + length + trailer ∨
      length + trailer > wireDataMax ∨ textCrc = true ∧ p.getD 28 0 &&& 2 = 0) ↔
      (p.length < messageHeaderSize ∨ p.length ≠ messageHeaderSize + length + trailer ∨
        length + trailer > wireDataMax) ∨ textCrc = true ∧ p.getD 28 0 &&& flagPackage = 0 := by
    rw [or_assoc, or_assoc]
  simp only [hchecks]
  by_cases hbad : p.length < messageHeaderSize ∨ p.length ≠ messageHeaderSize + length + trailer ∨
      length + trailer > wireDataMax
  · rw [if_pos hbad, if_pos (.inl hbad)]
    rfl
  obtain ⟨hge, hp, hmax⟩ : 30 ≤ p.length ∧ p.length = 30 + length + trailer ∧
      length + trailer ≤ 190 := by
    rw [not_or, not_or] at hbad
    exact ⟨not_lt.1 hbad.1, not_ne_iff.1 hbad.2.1, not_lt.1 hbad.2.2⟩
  rw [if_neg hbad, byteAt_eq (show 28 < p.length by omega), Option.bind_some]
  by_cases hplain : textCrc = true ∧ p.getD 28 0 &&& flagPackage = 0
  · rw [if_pos hplain, if_pos (.inr hplain)]
    rfl
  rw [if_neg hplain, if_neg (not_or.2 ⟨hbad, hplain⟩)]
  set data := (p.drop 30).take length with hdata
  have hlen : data.length = length := by
    rw [hdata, List.length_take, List.length_drop]
    omega
  have hstore := storeAt_clear (show data.length ≤ 192 by omega)
  have hnul := storeAt_terminator (show data.length < 192 by omega)
  rw [hlen] at hstore hnul
  have hend : (if decide (p.getD 28 0 &&& flagPackage ≠ 0) = true then
      some (data ++ List.replicate (textSize - length) 0)
      else storeAt (data ++ List.replicate (textSize - length) 0) length [0]) =
      some (data ++ List.replicate (textSize - length) 0) := by
    rw [hnul, ite_self]
  have hcrcRead : (if textCrc = true then be32At p (messageHeaderSize + length) else some 0) =
      some ((if textCrc = true then some (getBe32 (p.drop (messageHeaderSize + length)))
        else none).getD 0) := by
    by_cases hset : textCrc = true
    · have hfour : trailer = 4 := by rw [htrailer, if_pos hset]
      rw [if_pos hset, if_pos hset, be32At_eq (show 30 + length + 4 ≤ p.length by omega)]
      rfl
    · rw [if_neg hset, if_neg hset]
      rfl
  have hpresent : (if textCrc = true then some (getBe32 (p.drop (messageHeaderSize + length)))
      else none).isSome = textCrc := by
    cases textCrc <;> rfl
  simp only [be64At_eq (show 10 + 8 ≤ p.length by omega),
    be64At_eq (show 18 + 8 ≤ p.length by omega),
    byteAt_eq (show 26 < p.length by omega), byteAt_eq (show 27 < p.length by omega),
    bytesAt_eq (show 30 + length ≤ p.length by omega), ← hdata, hstore, hend, hcrcRead,
    Option.bind_some, Option.map_some, Message.remote, hpresent, hlen]
  rfl

/-! ### What is accepted -/

/-- A message is accepted with as many bytes of data as its length byte says. -/
theorem length_of_parseMessage {p : List UInt8} {m : Message} (h : parseMessage p = some m) :
    m.data.length = (p.getD 29 0).toNat ∧ p.length = messageHeaderSize + (p.getD 29 0).toNat +
      if p.getD 28 0 &&& flagTextCrc ≠ 0 then textCrcSize else 0 := by
  unfold parseMessage at h
  by_cases hlong : messageHeaderSize ≤ p.length
  · simp only [hlong, if_true, true_and] at h
    set trailer := if p.getD 28 0 &&& 4 ≠ 0 then textCrcSize else 0 with htrailer
    by_cases hbad : p.length < messageHeaderSize ∨
        p.length ≠ messageHeaderSize + (p.getD 29 0).toNat + trailer ∨
        (p.getD 29 0).toNat + trailer > wireDataMax ∨ p.getD 28 0 &&& 4 ≠ 0 ∧ p.getD 28 0 &&& 2 = 0
    · rw [if_pos hbad] at h
      cases h
    rw [if_neg hbad] at h
    obtain rfl := Option.some.inj h
    rw [not_or, not_or] at hbad
    have hp : p.length = 30 + (p.getD 29 0).toNat + trailer := not_ne_iff.1 hbad.2.1
    refine ⟨?_, hp⟩
    show ((p.drop 30).take (p.getD 29 0).toNat).length = _
    rw [List.length_take, List.length_drop]
    omega
  · simp only [not_le.1 hlong, true_or, if_true] at h
    cases h

/-- An event is accepted with as many bytes of payload as there are; its length byte says so, but of
a packet that ends with that byte it is not looked at. -/
theorem length_of_parseEvent {p : List UInt8} {r : Journal.Record} (h : parseEvent p = some r) :
    p.length = eventHeaderSize + r.event.payload.length ∧
      (eventHeaderSize < p.length → (p.getD 48 0).toNat = r.event.payload.length) := by
  unfold parseEvent at h
  set length := if eventHeaderSize < p.length then (p.getD 48 0).toNat else 0 with hlength
  by_cases hbad : p.length < eventHeaderSize ∨ p.length ≠ eventHeaderSize + length ∨
      length > Event.maxPayloadSize
  · rw [if_pos hbad] at h
    cases h
  rw [if_neg hbad] at h
  obtain rfl := Option.some.inj h
  rw [not_or, not_or] at hbad
  have hp : p.length = 49 + length := not_ne_iff.1 hbad.2.1
  have hpayload : ((p.drop 49).take length).length = length := by
    rw [List.length_take, List.length_drop]
    omega
  show p.length = 49 + ((p.drop 49).take length).length ∧
    (_ → (p.getD 48 0).toNat = ((p.drop 49).take length).length)
  rw [hpayload]
  refine ⟨hp, fun hlong => ?_⟩
  rw [hlength, if_pos hlong]

/-! ### The codec -/

/-- What a struct holds in front of the zeros. -/
theorem take_remote {m : Message} (h : m.data.length ≤ wireDataMax) :
    m.remote.size.toNat = m.data.length ∧ m.remote.data.take m.remote.size.toNat = m.data := by
  have hsize : m.remote.size.toNat = m.data.length := by
    refine UInt8.toNat_ofNat_of_lt' ?_
    simp only [UInt8.size, wireDataMax] at *
    omega
  refine ⟨hsize, ?_⟩
  rw [hsize]
  exact List.take_left

/-- A log record has arrived: with its own fields; in dictionary format a package as its bytes,
marked as its text is and with the checksum of it; all else as the text, cut to what a packet takes
and then marked. -/
structure Arrived (print : Printer) (format : UInt8) (e : Encoded) (m : RemoteMessage) : Prop where
  sequence : m.sequence = e.sequence
  uptimeMs : m.uptimeMs = e.uptimeMs
  module : m.module = e.module
  severity : m.severity = e.severity
  package : m.package = true ↔ format = formatDictionary ∧ e.package = true
  bytes : m.package = true →
    m.truncated = (formatRecord print e).2 ∧ m.size.toNat = e.size.toNat ∧
      m.data.take m.size.toNat = e.data.take e.size.toNat ∧ m.textCrcPresent = true ∧
      m.textCrc = crc32 (cString (formatRecord print e).1)
  text : m.package = false →
    (m.truncated = true ↔ (formatRecord print e).2 = true ∨
      wireDataMax < (cString (formatRecord print e).1).length) ∧
      m.size.toNat = min (cString (formatRecord print e).1).length wireDataMax ∧
      m.data.take m.size.toNat = (cString (formatRecord print e).1).take wireDataMax ∧
      m.textCrcPresent = false

theorem arrived_toMessage (print : Printer) (format : UInt8) {e : Encoded}
    (hdata : e.data.length = encodedSize) (hsize : e.package = true → e.size.toNat ≤ encodedSize) :
    Arrived print format e (toMessage print format e).remote := by
  have hfits : (toMessage print format e).data.length ≤ wireDataMax :=
    (Nat.le_add_right _ _).trans (toMessage_fits print format hsize).1
  obtain ⟨hlength, htake⟩ := take_remote hfits
  by_cases hd : format = formatDictionary ∧ e.package
  · have hm : toMessage print format e = ⟨e.sequence, e.uptimeMs, e.module, e.severity,
        (formatRecord print e).2, true, some (crc32 (cString (formatRecord print e).1)),
        e.data.take e.size.toNat⟩ := if_pos hd
    have hwhole : (e.data.take e.size.toNat).length = e.size.toNat := by
      rw [List.length_take, hdata]
      exact min_eq_left (hsize hd.2)
    rw [hm] at hlength htake ⊢
    exact ⟨rfl, rfl, rfl, rfl, iff_of_true rfl hd,
      fun _ => ⟨rfl, hlength.trans hwhole, htake, rfl, rfl⟩, fun h => by cases h⟩
  · set text := cString (formatRecord print e).1 with htext
    have hm : toMessage print format e = ⟨e.sequence, e.uptimeMs, e.module, e.severity,
        (formatRecord print e).2 || decide (text.length > wireDataMax), false, none,
        text.take wireDataMax⟩ := if_neg hd
    have hcut : (text.take wireDataMax).length = min text.length wireDataMax := by
      rw [List.length_take, min_comm]
    have hmarked : ((formatRecord print e).2 || decide (text.length > wireDataMax)) = true ↔
        (formatRecord print e).2 = true ∨ wireDataMax < text.length := by
      rw [Bool.or_eq_true, decide_eq_true_iff]
    rw [hm] at hlength htake ⊢
    exact ⟨rfl, rfl, rfl, rfl, iff_of_false Bool.false_ne_true hd, (fun h => by cases h),
      fun _ => ⟨hmarked, hlength.trans hcut, htake, rfl⟩⟩

/-- **The codec of remote records.**  The packet that `send_message` makes of a log record, text or
package, is parsed as that record; the packet that `send_event` makes of a journal record is parsed
as that record with 0 for the sequence of its event.  Whatever comes in, the parsers read inside the
packet and write inside their struct, and a message, or an event with payload, is accepted only with
as many bytes of data as its length byte says. -/
theorem remote_codec :
    (∀ (content : ℕ → UInt8) (print : Printer) (nonce : UInt64) (format : UInt8) (e : Encoded),
      e.data.length = encodedSize → (e.package = true → e.size.toNat ≤ encodedSize) →
      ∃ packet m, sendMessage content print nonce format e = some packet ∧
        parseMessageWithin packet = some (some m) ∧ Arrived print format e m) ∧
    (∀ (content : ℕ → UInt8) (nonce : UInt64) (r : Journal.Record),
      r.event.payload.length ≤ Event.maxPayloadSize →
      ∃ packet, sendEvent content nonce r = some packet ∧
        parseEventWithin packet =
          some (some { remoteRecord r with event := { r.event.slot with sequence := 0 } })) ∧
    ∀ p : List UInt8,
      (parseStartWithin p).isSome = true ∧ (parseMessageWithin p).isSome = true ∧
      (parseEventWithin p).isSome = true ∧
      (∀ m, parseMessageWithin p = some (some m) → m.size = p.getD 29 0 ∧
        p.length = messageHeaderSize + (p.getD 29 0).toNat +
          if p.getD 28 0 &&& flagTextCrc ≠ 0 then textCrcSize else 0) ∧
      ∀ r, parseEventWithin p = some (some r) → eventHeaderSize < p.length →
        r.event.payloadSize = p.getD 48 0 ∧ p.length = eventHeaderSize + (p.getD 48 0).toNat := by
  refine ⟨?_, ?_, fun p => ⟨?_, ?_, ?_, ?_, ?_⟩⟩
  · intro content print nonce format e hdata hsize
    refine ⟨_, _, sendMessage_eq content print nonce format hdata hsize, ?_,
      arrived_toMessage print format hdata hsize⟩
    rw [parseMessageWithin_eq, parseMessage_bytes nonce (toMessage_fits print format hsize)]
    rfl
  · intro content nonce r hpayload
    refine ⟨_, sendEvent_eq content nonce r, ?_⟩
    have hwhole : eventPayload r = r.event.payload := List.take_of_length_le hpayload
    rw [parseEventWithin_eq, parseEvent_bytes, Option.map_some]
    simp only [remoteRecord, received, hwhole, UInt64.ofNat_toNat, Event.Record.slot]
  · rw [parseStartWithin_eq]
    rfl
  · rw [parseMessageWithin_eq]
    rfl
  · rw [parseEventWithin_eq]
    rfl
  · intro m h
    rw [parseMessageWithin_eq, Option.some.injEq, Option.map_eq_some_iff] at h
    obtain ⟨m, hm, rfl⟩ := h
    obtain ⟨hdata, hp⟩ := length_of_parseMessage hm
    refine ⟨?_, hp⟩
    show UInt8.ofNat m.data.length = _
    rw [hdata, UInt8.ofNat_toNat]
  · intro r h hlong
    rw [parseEventWithin_eq, Option.some.injEq, Option.map_eq_some_iff] at h
    obtain ⟨r, hr, rfl⟩ := h
    obtain ⟨hp, hbyte⟩ := length_of_parseEvent hr
    rw [hbyte hlong]
    refine ⟨?_, hp⟩
    show UInt8.ofNat r.event.payload.length = _
    rw [← hbyte hlong, UInt8.ofNat_toNat]

/-- A package of three bytes whose text has three characters, and an event with two bytes of
payload. -/
theorem remote_codec_three :
    (∃ packet m, sendMessage (fun _ => 0xAA) (fun _ => [0x48, 0x0A, 0x49]) 9 formatDictionary
        ⟨5, 77, 3, 2, false, true, 3, [1, 2, 3] ++ List.replicate 125 0⟩ = some packet ∧
      parseMessageWithin packet = some (some m) ∧
      Arrived (fun _ => [0x48, 0x0A, 0x49]) formatDictionary
        ⟨5, 77, 3, 2, false, true, 3, [1, 2, 3] ++ List.replicate 125 0⟩ m ∧
      m.size = packet.getD 29 0) ∧
    ∃ packet, sendEvent (fun _ => 0xAA) 9 ⟨1, 2, 3, true, ⟨4, 7, 2, 3, 1, [8, 9]⟩⟩ = some packet ∧
      parseEventWithin packet = some (some ⟨1, 2, 3, true, ⟨4, 0, 2, 3, 1, 2,
        [8, 9] ++ List.replicate 14 0⟩⟩) ∧ 2 = packet.getD 48 0 := by
  constructor
  · obtain ⟨packet, m, hsent, hparse, harrived⟩ := remote_codec.1 (fun _ => 0xAA)
      (fun _ => [0x48, 0x0A, 0x49]) 9 formatDictionary
      ⟨5, 77, 3, 2, false, true, 3, [1, 2, 3] ++ List.replicate 125 0⟩ (by simp) (by decide)
    exact ⟨packet, m, hsent, hparse, harrived, ((remote_codec.2.2 packet).2.2.2.1 m hparse).1⟩
  · obtain ⟨packet, hsent, hparse⟩ := remote_codec.2.1 (fun _ => 0xAA) 9
      ⟨1, 2, 3, true, ⟨4, 7, 2, 3, 1, [8, 9]⟩⟩ (by decide)
    have hbytes := Option.some.inj (hsent.symm.trans (sendEvent_eq _ _ _))
    have hlong : eventHeaderSize < packet.length := by
      rw [hbytes]
      decide
    exact ⟨packet, hsent, hparse, ((remote_codec.2.2 packet).2.2.2.2 _ hparse hlong).1⟩

/-- The sequence of an event does not arrive, and a packet of the bare header is accepted as an
event whatever its length byte says. -/
theorem event_sequence_not_sent :
    (sendEvent (fun _ => 0) 9 ⟨1, 2, 3, true, ⟨4, 7, 2, 3, 1, [8, 9]⟩⟩).bind parseEventWithin ≠
      some (some (remoteRecord ⟨1, 2, 3, true, ⟨4, 7, 2, 3, 1, [8, 9]⟩⟩)) ∧
    ([2, 3] ++ List.replicate 46 0 ++ [5] : List UInt8).length = eventHeaderSize ∧
    parseEventWithin ([2, 3] ++ List.replicate 46 0 ++ [5]) =
      some (some ⟨0, 0, 0, false, ⟨0, 0, 0, 0, 0, 0, List.replicate 16 0⟩⟩) := by
  refine ⟨?_, rfl, ?_⟩
  · rw [sendEvent_eq, Option.bind_some, parseEventWithin_eq, parseEvent_bytes]
    decide
  · rw [parseEventWithin_eq]
    decide

end KfswServices.Log
