/-
# What an upload that returned 0 says about the node

`kfsw_fwu_lite_send_file` and a node that serves its packets, over a link that may
delay, lose, duplicate and reorder the packets of both directions: every packet that
was sent stays in the link, and any of them may arrive at any time.

An exchange reads whatever packet arrives next, and does not look at its opcode.  A
late answer to a BLOCK may so be read as the answer to the VERIFY, and the upload
returns 0 although the node has verified nothing (`late_reply_accepted`).  If what is
read as the answer to the VERIFY and says OK does answer a VERIFY, the node has
verified the file (`upload_sound`): the answer to the BEGIN can be no other
message's, for nothing else was sent before it.
-/

import KfswServices.Fwu.LiteSend
import KfswServices.Library.Run

namespace KfswServices.Fwu.Lite

open Library

/-- The sender, whether it waits for a reply, the node, and the packets in the link. -/
structure Channel where
  sender : Sender
  waiting : Bool
  service : Service
  requests : List (List UInt8)
  replies : List (List UInt8)

/-- Before the first exchange, with nothing in the link. -/
def Channel.start (sender : Sender) (s : Service) : Channel := ⟨sender, false, s, [], []⟩

/-- What is seen of an upload: messages sent, packets served and what came of them, and
what each exchange ended with, a packet, a timeout or no packet to send. -/
inductive UploadEvent
  | send (request : Message)
  | unsent (e : Errno)
  | serve (handled : Option Handled)
  | receive (phase : Phase) (packet : List UInt8)
  | timeout

/-- **A step of an upload.**  An exchange sends its request and waits; the node serves any
packet sent to it, with any answers of its flash; the sender reads any packet sent back,
or nothing until the timeout. -/
inductive UploadStep {lite : Settings} (cfg : Config) (source : Source lite) :
    Channel → UploadEvent → Channel → Prop
  | send {c : Channel} {packet : List UInt8} (hidle : c.waiting = false)
      (hphase : ∀ result, c.sender.phase ≠ .done result)
      (hencode : encode lite lite.bufferSize c.sender.request = .ok packet) :
      UploadStep cfg source c (.send c.sender.request)
        { c with waiting := true, requests := c.requests ++ [packet] }
  | unsent {c : Channel} {e : Errno} (hidle : c.waiting = false)
      (hphase : ∀ result, c.sender.phase ≠ .done result)
      (herror : e = .ENOBUFS ∨ encode lite lite.bufferSize c.sender.request = .error e) :
      UploadStep cfg source c (.unsent e) { c with sender := c.sender.onExchange source (.error e) }
  | serve {c : Channel} {packet : List UInt8} (env : Env) (buffer : Bool)
      (hpacket : packet ∈ c.requests) :
      UploadStep cfg source c (.serve (servePacket lite cfg env buffer c.service packet).handled)
        { c with
          service := (servePacket lite cfg env buffer c.service packet).service c.service
          replies := c.replies ++ (servePacket lite cfg env buffer c.service packet).reply.toList }
  | receive {c : Channel} {packet : List UInt8} (hwaiting : c.waiting = true)
      (hpacket : packet ∈ c.replies) :
      UploadStep cfg source c (.receive c.sender.phase packet)
        { c with waiting := false, sender := c.sender.onExchange source (decode lite packet) }
  | timeout {c : Channel} (hwaiting : c.waiting = true) :
      UploadStep cfg source c .timeout
        { c with waiting := false, sender := c.sender.onExchange source (.error .ETIMEDOUT) }

/-- The node executed a VERIFY that returned 0, for an image with this size and
checksum, and no block was sent after it. -/
def VerifiedAfterBlocks (size : ℕ) (crc : UInt32) (es : List UploadEvent) : Prop :=
  ∃ before handled after, es = before ++ .serve (some handled) :: after ∧
    handled.call = some (.verify, none) ∧
    (handled.service.status.totalSize = size ∧ handled.service.status.received = size) ∧
    (handled.service.status.expectedCrc32 = crc ∧ handled.service.status.actualCrc32 = crc) ∧
    ∀ request, .send request ∈ after → request.opcode ≠ Opcode.BLOCK.toByte

/-- What is read as the answer to the VERIFY, if it says OK, answers a VERIFY. -/
def AnswersVerify (lite : Settings) : UploadEvent → Prop
  | .receive .verify packet =>
    match decode lite packet with
    | .ok reply => reply.status = Status.OK.toByte → reply.opcode = Opcode.VERIFY.toByte
    | .error _ => True
  | _ => True

instance (lite : Settings) (e : UploadEvent) : Decidable (AnswersVerify lite e) := by
  unfold AnswersVerify
  split
  · split <;> infer_instance
  · infer_instance

/-! ### The node, once the file was declared -/

/-- The node's transfer is of the file; and if it is VERIFIED, it was checked. -/
structure Begun (size : ℕ) (crc : UInt32) (s : Service) : Prop where
  total : s.status.totalSize = size
  expected : s.status.expectedCrc32 = crc
  verified : s.status.state = .VERIFIED → s.status.received = size ∧ s.status.actualCrc32 = crc

/-- The request that declares the file. -/
def Declares (size : ℕ) (crc : UInt32) (m : Message) : Prop :=
  m.opcode = Opcode.BEGIN.toByte ∧ m.argument.toNat = size ∧ m.extra = crc

variable {lite : Settings} {cfg : Config} {source : Source lite} {size : ℕ} {crc : UInt32}
  {es : List UploadEvent} {c : Channel} {s : Service} {m : Message}

theorem Begun.fail (h : Begun size crc s) (slot : ℕ → UInt8) :
    Begun size crc { s.fail with slot := slot } :=
  ⟨h.total, h.expected, nofun⟩

theorem handle_of_declares (h : Declares size crc m) (env : Env) (s : Service) :
    handle lite cfg env s m = perform cfg env s (.begin size crc) := by
  obtain ⟨hop, rfl, rfl⟩ := h
  exact handle_of_begin hop cfg env s

/-- **A declaration** keeps a transfer of the same file, and starts one if it succeeds. -/
theorem begun_begin (env : Env) :
    (Begun size crc s → Begun size crc (s.begin cfg env size crc).service) ∧
      ((s.begin cfg env size crc).result = none →
        Begun size crc (s.begin cfg env size crc).service) := by
  rcases s.begin_cases cfg env size crc with ⟨e, he⟩ | ⟨-, -, e, slot, effects, he, -⟩ |
      ⟨-, -, -, -, he⟩
  · rw [he]
    exact ⟨id, nofun⟩
  · rw [he]
    exact ⟨fun h => h.fail slot, nofun⟩
  · rw [he]
    exact ⟨fun _ => ⟨rfl, rfl, nofun⟩, fun _ => ⟨rfl, rfl, nofun⟩⟩

theorem Begun.write (h : Begun size crc s) (env : Env) (offset : ℕ) (data : Option (List UInt8)) :
    Begun size crc (s.write env offset data).service := by
  rcases s.write_cases env offset data with ⟨e, he⟩ | ⟨-, e, he⟩ | ⟨hstate, span, -, -, -, -, he⟩
  · rw [he]
    exact h
  · rw [he]
    exact h.fail _
  · rw [he]
    refine ⟨h.total, h.expected, fun hverified => ?_⟩
    exact absurd (hstate.symm.trans hverified) nofun

/-- **A verification** keeps the transfer, and is of the file if it succeeds. -/
theorem Begun.verify (h : Begun size crc s) (env : Env) : Begun size crc (s.verify env).service ∧
      ((s.verify env).result = none → (s.verify env).service.status.state = .VERIFIED) := by
  rcases s.verify_cases env with ⟨hstate, he⟩ | ⟨-, e, he⟩ | ⟨-, e, slot, effects, he, -⟩ |
      ⟨-, hlen, hcrc, -, he⟩
  · rw [he]
    exact ⟨h, fun _ => hstate⟩
  · rw [he]
    exact ⟨h, nofun⟩
  · rw [he]
    exact ⟨h.fail slot, nofun⟩
  · rw [he]
    refine ⟨⟨h.total, h.expected, fun _ => ?_⟩, fun _ => rfl⟩
    exact ⟨hlen.trans h.total, hcrc.trans h.expected⟩

/-- **A message of the upload** keeps the transfer. -/
theorem Begun.handle (h : Begun size crc s) (hm : Declares size crc m ∨
    m.opcode = Opcode.BLOCK.toByte ∨ m.opcode = Opcode.VERIFY.toByte) (env : Env) :
    Begun size crc (handle lite cfg env s m).service := by
  rcases hm with hm | hm | hm
  · rw [handle_of_declares hm]
    exact (begun_begin env).1 h
  · rw [handle_of_block hm, handleBlock]
    split
    · exact h
    · exact h.write env _ _
  · rw [handle_of_verify hm]
    exact (h.verify env).1

/-! ### The sender -/

/-- The function has given up. -/
def Sender.GaveUp (x : Sender) : Prop := ∃ e, x.phase = .done (some e)

/-- The function is in the exchange of a block or of the verification. -/
def Sender.Going (x : Sender) : Prop :=
  (x.phase = .block ∧ x.request.opcode = Opcode.BLOCK.toByte) ∨
    (x.phase = .verify ∧ x.request.opcode = Opcode.VERIFY.toByte)

theorem Sender.nextBlock_cases (source : Source lite) (x : Sender) :
    (x.nextBlock source).GaveUp ∨ (x.nextBlock source).Going := by
  unfold Sender.nextBlock
  split_ifs with hmore
  · split
    · exact .inl ⟨_, rfl⟩
    · split_ifs with hempty
      · exact .inl ⟨_, rfl⟩
      · exact .inr (.inl ⟨rfl, rfl⟩)
  · exact .inr (.inr ⟨rfl, rfl⟩)

variable {x : Sender}

theorem Sender.again_cases (lite : Settings) (hphase : x.phase = .block)
    (hrequest : x.request.opcode = Opcode.BLOCK.toByte) (e : Errno) :
    (x.again lite e).GaveUp ∨ (x.again lite e).Going := by
  unfold Sender.again
  simp only
  split_ifs with hlast
  · exact .inl ⟨_, rfl⟩
  · exact .inr (.inl ⟨hphase, hrequest⟩)

/-- **What the exchange of a block can lead to.** -/
theorem Sender.onExchange_block (hphase : x.phase = .block)
    (hrequest : x.request.opcode = Opcode.BLOCK.toByte) (result : Except Errno Message) :
    (x.onExchange source result).GaveUp ∨ (x.onExchange source result).Going := by
  have hagain := Sender.again_cases lite hphase hrequest
  unfold Sender.onExchange
  rw [hphase]
  cases result with
  | error e =>
    cases e with
    | ETIMEDOUT => exact hagain _
    | _ => exact .inl ⟨_, rfl⟩
  | ok reply =>
    simp only
    split_ifs with haccepted hfatal
    · exact Sender.nextBlock_cases source _
    · exact .inl ⟨_, rfl⟩
    · exact hagain _

/-- **What the exchange of the declaration can lead to**: it goes on only after an OK. -/
theorem Sender.onExchange_begin (hphase : x.phase = .begin) (result : Except Errno Message) :
    (x.onExchange source result).GaveUp ∨ ((x.onExchange source result).Going ∧
        ∃ reply, result = .ok reply ∧ reply.status = Status.OK.toByte) := by
  unfold Sender.onExchange
  rw [hphase]
  cases result with
  | error e => exact .inl ⟨_, rfl⟩
  | ok reply =>
    simp only
    split_ifs with hstatus
    · exact .inl ⟨_, rfl⟩
    · split
      · exact .inl ⟨_, rfl⟩
      · refine (Sender.nextBlock_cases source x).imp_right fun hgoing => ⟨hgoing, reply, rfl, ?_⟩
        exact not_not.1 hstatus

/-- **What the exchange of the verification can lead to**: it returns 0 only after an OK. -/
theorem Sender.onExchange_verify (hphase : x.phase = .verify) (result : Except Errno Message) :
    (x.onExchange source result).GaveUp ∨ ((x.onExchange source result).phase = .done none ∧
        ∃ reply, result = .ok reply ∧ reply.status = Status.OK.toByte) := by
  unfold Sender.onExchange
  rw [hphase]
  cases result with
  | error e => exact .inl ⟨_, rfl⟩
  | ok reply =>
    simp only
    split_ifs with hstatus
    · exact .inl ⟨_, rfl⟩
    · exact .inr ⟨rfl, reply, rfl, not_not.1 hstatus⟩

/-! ### The invariant -/

/-- All blocks have been sent. -/
def Phase.Late (p : Phase) : Prop := p ≠ .begin ∧ p ≠ .block

/-- A request in the link, by what the sender has come to. -/
def Asked (size : ℕ) (crc : UInt32) (c : Channel) (m : Message) : Prop :=
  Declares size crc m ∨
    (m.opcode = Opcode.BLOCK.toByte ∧ c.sender.phase ≠ .begin) ∨
    (m.opcode = Opcode.VERIFY.toByte ∧ c.sender.phase.Late ∧ Begun size crc c.service)

/-- What a reply in the link stands for. -/
structure Replied (size : ℕ) (crc : UInt32) (es : List UploadEvent) (c : Channel) (m : Message) :
    Prop where
  first : c.sender.phase = .begin → m.opcode = Opcode.BEGIN.toByte
  begun : m.opcode = Opcode.BEGIN.toByte → m.status = Status.OK.toByte → Begun size crc c.service
  verified : m.opcode = Opcode.VERIFY.toByte → m.status = Status.OK.toByte →
    c.sender.phase.Late ∧ VerifiedAfterBlocks size crc es

/-- The exchange the sender is in. -/
def Current (size : ℕ) (crc : UInt32) (es : List UploadEvent) (c : Channel) : Prop :=
  match c.sender.phase with
  | .begin => Declares size crc c.sender.request
  | .block => c.sender.request.opcode = Opcode.BLOCK.toByte ∧ Begun size crc c.service
  | .verify => c.sender.request.opcode = Opcode.VERIFY.toByte ∧ Begun size crc c.service
  | .done none => VerifiedAfterBlocks size crc es
  | .done (some _) => True

/-- The invariant of an upload: what the sender is at, and what is in the link. -/
structure SoundInv (lite : Settings) (size : ℕ) (crc : UInt32) (es : List UploadEvent) (c : Channel) :
    Prop where
  current : Current size crc es c
  requests : ∀ p ∈ c.requests, ∃ m, decode lite p = .ok m ∧ Asked size crc c m
  replies : ∀ p ∈ c.replies, ∃ m, decode lite p = .ok m ∧ Replied size crc es c m

variable {e : UploadEvent}

/-- A verification stays after the blocks while no block is sent. -/
theorem VerifiedAfterBlocks.snoc (h : VerifiedAfterBlocks size crc es)
    (he : ∀ request, e = .send request → request.opcode ≠ Opcode.BLOCK.toByte) :
    VerifiedAfterBlocks size crc (es ++ [e]) := by
  obtain ⟨before, handled, after, rfl, hcall, hsize, hcrc, hafter⟩ := h
  refine ⟨before, handled, after ++ [e], by simp, hcall, hsize, hcrc, fun request hmem => ?_⟩
  rcases List.mem_append.1 hmem with hmem | hmem
  · exact hafter request hmem
  · exact he request (List.mem_singleton.1 hmem).symm

section

variable (h : SoundInv lite size crc es c)
include h

section

variable (he : ∀ request, e ≠ .send request)
include he

/-- The sender moves on: what is in the link stands for the same. -/
theorem SoundInv.moved {waiting : Bool} (hbegin : x.phase ≠ .begin)
    (hlate : c.sender.phase.Late → x.phase.Late)
    (hcurrent : Current size crc (es ++ [e]) { c with sender := x, waiting := waiting }) :
    SoundInv lite size crc (es ++ [e]) { c with sender := x, waiting := waiting } := by
  refine ⟨hcurrent, fun p hp => ?_, fun p hp => ?_⟩
  · obtain ⟨m, hm, hasked⟩ := h.requests p hp
    refine ⟨m, hm, ?_⟩
    rcases hasked with hasked | ⟨hop, -⟩ | ⟨hop, hl, hbegun⟩
    · exact .inl hasked
    · exact .inr (.inl ⟨hop, hbegin⟩)
    · exact .inr (.inr ⟨hop, hlate hl, hbegun⟩)
  · obtain ⟨m, hm, hreplied⟩ := h.replies p hp
    refine ⟨m, hm, fun hphase => absurd hphase hbegin, hreplied.begun, fun hop hok => ?_⟩
    obtain ⟨hl, hverified⟩ := hreplied.verified hop hok
    exact ⟨hlate hl, hverified.snoc fun request heq => absurd heq (he request)⟩

theorem SoundInv.gaveUp {waiting : Bool} (hx : x.GaveUp) :
    SoundInv lite size crc (es ++ [e]) { c with sender := x, waiting := waiting } := by
  obtain ⟨error, hphase⟩ := hx
  refine h.moved he (by rw [hphase]; exact nofun) (fun _ => by rw [hphase]; exact ⟨nofun, nofun⟩) ?_
  unfold Current
  simp only [hphase]

theorem SoundInv.going {waiting : Bool} (hx : x.Going) (hlate : ¬ c.sender.phase.Late)
    (hbegun : Begun size crc c.service) :
    SoundInv lite size crc (es ++ [e]) { c with sender := x, waiting := waiting } := by
  rcases hx with ⟨hphase, hop⟩ | ⟨hphase, hop⟩
  · refine h.moved he (by rw [hphase]; exact nofun) (fun hl => absurd hl hlate) ?_
    unfold Current
    simp only [hphase]
    exact ⟨hop, hbegun⟩
  · refine h.moved he (by rw [hphase]; exact nofun) (fun hl => absurd hl hlate) ?_
    unfold Current
    simp only [hphase]
    exact ⟨hop, hbegun⟩

end

/-- **An exchange that is over** keeps the invariant, when a reply that says OK was in the
link, and answers a VERIFY if it was read as the answer to one. -/
theorem SoundInv.exchanged (result : Except Errno Message)
    {waiting : Bool} (he : ∀ request, e ≠ .send request)
    (hresult : ∀ reply, result = .ok reply → reply.status = Status.OK.toByte →
      Replied size crc es c reply ∧
        (c.sender.phase = .verify → reply.opcode = Opcode.VERIFY.toByte)) :
    SoundInv lite size crc (es ++ [e])
      { c with sender := c.sender.onExchange source result, waiting := waiting } := by
  have hcurrent := h.current
  unfold Current at hcurrent
  cases hphase : c.sender.phase with
  | begin =>
    rcases Sender.onExchange_begin hphase result with hx | ⟨hx, reply, hreply, hok⟩
    · exact h.gaveUp he hx
    · obtain ⟨hreplied, -⟩ := hresult reply hreply hok
      refine h.going he hx ?_ (hreplied.begun (hreplied.first hphase) hok)
      rw [hphase]
      exact fun hl => hl.1 rfl
  | block =>
    rw [hphase] at hcurrent
    rcases Sender.onExchange_block hphase hcurrent.1 result with hx | hx
    · exact h.gaveUp he hx
    · refine h.going he hx ?_ hcurrent.2
      rw [hphase]
      exact fun hl => hl.2 rfl
  | verify =>
    rcases Sender.onExchange_verify hphase result with hx | ⟨hx, reply, hreply, hok⟩
    · exact h.gaveUp he hx
    · obtain ⟨hreplied, hop⟩ := hresult reply hreply hok
      have hverified := (hreplied.verified (hop hphase) hok).2
      refine h.moved he (by rw [hx]; exact nofun) (fun _ => by rw [hx]; exact ⟨nofun, nofun⟩) ?_
      unfold Current
      simp only [hx]
      exact hverified.snoc fun request heq => absurd heq (he request)
  | done r =>
    have hsame : c.sender.onExchange source result = c.sender := by
      unfold Sender.onExchange
      rw [hphase]
    rw [hsame]
    refine h.moved he (by rw [hphase]; exact nofun) id ?_
    unfold Current
    rw [hphase] at hcurrent
    simp only [hphase]
    cases r with
    | none => exact hcurrent.snoc fun request heq => absurd heq (he request)
    | some error => trivial

/-- The request of an exchange: its opcode is known, it is one of the upload, and it is no
block once all blocks were sent. -/
theorem SoundInv.asked (hphase : ∀ result, c.sender.phase ≠ .done result) :
    Opcode.ofByte? c.sender.request.opcode ≠ none ∧ Asked size crc c c.sender.request ∧
      (c.sender.phase.Late → c.sender.request.opcode ≠ Opcode.BLOCK.toByte) := by
  have hcurrent := h.current
  unfold Current at hcurrent
  unfold Asked
  cases hp : c.sender.phase with
  | begin =>
    rw [hp] at hcurrent
    exact ⟨by rw [hcurrent.1]; exact nofun, .inl hcurrent, fun hl => absurd rfl hl.1⟩
  | block =>
    rw [hp] at hcurrent
    exact ⟨by rw [hcurrent.1]; exact nofun, .inr (.inl ⟨hcurrent.1, nofun⟩),
      fun hl => absurd rfl hl.2⟩
  | verify =>
    rw [hp] at hcurrent
    refine ⟨by rw [hcurrent.1]; exact nofun,
      .inr (.inr ⟨hcurrent.1, ⟨nofun, nofun⟩, hcurrent.2⟩), fun _ => ?_⟩
    rw [hcurrent.1]
    decide
  | done r => exact absurd hp (hphase r)

/-- **A request that is sent** keeps the invariant: no block is sent once a VERIFY was. -/
theorem SoundInv.sent {packet : List UInt8} (hphase : ∀ result, c.sender.phase ≠ .done result)
    (hencode : encode lite lite.bufferSize c.sender.request = .ok packet) :
    SoundInv lite size crc (es ++ [.send c.sender.request])
      { c with waiting := true, requests := c.requests ++ [packet] } := by
  obtain ⟨hop, hasked, hblock⟩ := h.asked hphase
  refine ⟨?_, fun p hp => ?_, fun p hp => ?_⟩
  · have hcurrent := h.current
    unfold Current at hcurrent ⊢
    cases hp : c.sender.phase with
    | done r => exact absurd hp (hphase r)
    | _ => simpa only [hp] using hcurrent
  · rcases List.mem_append.1 hp with hp | hp
    · exact h.requests p hp
    · rw [List.mem_singleton.1 hp]
      exact ⟨_, decode_encode hencode hop, hasked⟩
  · obtain ⟨m, hm, hreplied⟩ := h.replies p hp
    refine ⟨m, hm, hreplied.first, hreplied.begun, fun hopcode hok => ?_⟩
    obtain ⟨hl, hverified⟩ := hreplied.verified hopcode hok
    refine ⟨hl, hverified.snoc fun request heq => ?_⟩
    rw [← UploadEvent.send.inj heq]
    exact hblock hl

end

/-- The answer to a VERIFY, when the node's transfer is of the file. -/
theorem verified_of_handle (hop : m.opcode = Opcode.VERIFY.toByte) (hbegun : Begun size crc s)
    {env : Env} (hok : (handle lite cfg env s m).status = .OK) (es : List UploadEvent) :
    VerifiedAfterBlocks size crc (es ++ [.serve (some (handle lite cfg env s m))]) := by
  rw [handle_of_verify hop] at hok ⊢
  have hresult : (s.verify env).result = none := statusForErrno_eq_ok.1 hok
  obtain ⟨hafter, hstate⟩ := hbegun.verify env
  obtain ⟨hreceived, hactual⟩ := hafter.verified (hstate hresult)
  refine ⟨es, _, [], rfl, ?_, ⟨hafter.total, hreceived⟩, ⟨hafter.expected, hactual⟩, nofun⟩
  show some (Call.verify, (s.verify env).result) = _
  rw [hresult]

/-- The reply to a message of the upload. -/
theorem Asked.replied (hasked : Asked size crc c m) (env : Env) {d : Channel}
    (hsender : d.sender = c.sender) (hservice : d.service = (handle lite cfg env c.service m).service) :
    Replied size crc (es ++ [.serve (some (handle lite cfg env c.service m))]) d
      ((handle lite cfg env c.service m).reply lite m) := by
  refine ⟨fun hphase => ?_, fun hop hok => ?_, fun hop hok => ?_⟩
  · rw [hsender] at hphase
    rcases hasked with hasked | ⟨-, hbegin⟩ | ⟨-, hlate, -⟩
    · exact hasked.1
    · exact absurd hphase hbegin
    · exact absurd hphase hlate.1
  · have hstatus := Status.toByte_inj.1 hok
    rw [hservice]
    rcases hasked with hasked | ⟨hblock, -⟩ | ⟨hverify, -⟩
    · rw [handle_of_declares hasked] at hstatus ⊢
      exact (begun_begin env).2 (statusForErrno_eq_ok.1 hstatus)
    · exact absurd (hop.symm.trans hblock) (by decide)
    · exact absurd (hop.symm.trans hverify) (by decide)
  · rw [hsender]
    rcases hasked with hasked | ⟨hblock, -⟩ | ⟨hverify, hlate, hbegun⟩
    · exact absurd (hop.symm.trans hasked.1) (by decide)
    · exact absurd (hop.symm.trans hblock) (by decide)
    · exact ⟨hlate, verified_of_handle hverify hbegun (Status.toByte_inj.1 hok) es⟩

/-- **A packet that is served** keeps the invariant. -/
theorem SoundInv.served (h : SoundInv lite size crc es c) {packet : List UInt8} (env : Env)
    (buffer : Bool) (hpacket : packet ∈ c.requests) :
    SoundInv lite size crc
      (es ++ [.serve (servePacket lite cfg env buffer c.service packet).handled])
      { c with
        service := (servePacket lite cfg env buffer c.service packet).service c.service
        replies := c.replies ++ (servePacket lite cfg env buffer c.service packet).reply.toList } := by
  obtain ⟨m, hm, hasked⟩ := h.requests packet hpacket
  rw [servePacket_eq hm]
  have hkeeps : Begun size crc c.service →
      Begun size crc (handle lite cfg env c.service m).service := fun hbegun =>
    hbegun.handle (hasked.imp_right (.imp And.left And.left)) env
  have hsnoc : VerifiedAfterBlocks size crc es →
      VerifiedAfterBlocks size crc (es ++ [.serve (some (handle lite cfg env c.service m))]) :=
    fun hverified => hverified.snoc nofun
  refine ⟨?_, fun p hp => ?_, fun p hp => ?_⟩
  · have hcurrent := h.current
    unfold Current at hcurrent ⊢
    cases hphase : c.sender.phase with
    | begin => simpa only [hphase] using hcurrent
    | block =>
      simp only [hphase] at hcurrent ⊢
      exact ⟨hcurrent.1, hkeeps hcurrent.2⟩
    | verify =>
      simp only [hphase] at hcurrent ⊢
      exact ⟨hcurrent.1, hkeeps hcurrent.2⟩
    | done r =>
      cases r with
      | none =>
        simp only [hphase] at hcurrent ⊢
        exact hsnoc hcurrent
      | some error => simp only
  · obtain ⟨m', hm', hasked'⟩ := h.requests p hp
    refine ⟨m', hm', hasked'.imp_right (.imp_right fun hverify => ?_)⟩
    exact ⟨hverify.1, hverify.2.1, hkeeps hverify.2.2⟩
  · rcases List.mem_append.1 hp with hp | hp
    · obtain ⟨m', hm', hreplied⟩ := h.replies p hp
      refine ⟨m', hm', hreplied.first, fun hop hok => hkeeps (hreplied.begun hop hok),
        fun hop hok => ?_⟩
      obtain ⟨hlate, hverified⟩ := hreplied.verified hop hok
      exact ⟨hlate, hsnoc hverified⟩
    · cases buffer with
      | false => cases hp
      | true =>
        rw [List.mem_singleton.1 hp]
        exact ⟨_, decode_reply _ (opcode_of_decode hm), hasked.replied env rfl rfl⟩

/-- **One step keeps the invariant**, when its event meets the condition. -/
theorem soundInv_step {d : Channel} (h : SoundInv lite size crc es c)
    (hstep : UploadStep cfg source c e d) (hanswers : AnswersVerify lite e) :
    SoundInv lite size crc (es ++ [e]) d := by
  cases hstep with
  | send hidle hphase hencode => exact h.sent hphase hencode
  | unsent hidle hphase herror => exact h.exchanged _ nofun nofun
  | serve env buffer hpacket => exact h.served env buffer hpacket
  | @receive packet hwaiting hpacket =>
    refine h.exchanged _ nofun fun reply hreply hok => ?_
    obtain ⟨m, hm, hreplied⟩ := h.replies packet hpacket
    obtain rfl : m = reply := Except.ok.inj (hm.symm.trans hreply)
    refine ⟨hreplied, fun hphase => ?_⟩
    rw [hphase] at hanswers
    simp only [AnswersVerify, hm] at hanswers
    exact hanswers hok
  | timeout hwaiting => exact h.exchanged _ nofun nofun

/-- The function before its first exchange has given up, or declares the file. -/
theorem sendFile_cases (lite : Settings) (node : ℕ) (file : List UInt8) (connected : Bool) :
    (sendFile lite node (some (.ok file)) connected).GaveUp ∨
      sendFile lite node (some (.ok file)) connected =
        Sender.initial (file.length % 2 ^ 32) (crc32 file) := by
  simp only [sendFile, fileSizeAndCrc_eq]
  split_ifs with haddress hempty hrefused
  · exact .inl ⟨_, rfl⟩
  · exact .inl ⟨_, rfl⟩
  · exact .inl ⟨_, rfl⟩
  · exact .inr rfl

theorem soundInv_start {node : ℕ} {file : List UInt8} (hsize : file.length < 2 ^ 32)
    (connected : Bool) (s : Service) : SoundInv lite file.length (crc32 file) []
      (Channel.start (sendFile lite node (some (.ok file)) connected) s) := by
  refine ⟨?_, nofun, nofun⟩
  unfold Current Channel.start
  rcases sendFile_cases lite node file connected with ⟨e, he⟩ | he
  · simp only [he]
  · simp only [he, Sender.initial, Nat.mod_eq_of_lt hsize]
    refine ⟨rfl, ?_, rfl⟩
    rw [UInt32.toNat_ofNat', Nat.mod_eq_of_lt hsize]

/-- **The invariant holds in every run** whose VERIFY is answered by an answer to a
VERIFY. -/
theorem soundInv_run {node : ℕ} {file : List UInt8} {connected : Bool}
    (hsize : file.length < 2 ^ 32) (hr : Run (UploadStep cfg source)
      (Channel.start (sendFile lite node (some (.ok file)) connected) s) es c)
    (hanswers : ∀ e ∈ es, AnswersVerify lite e) : SoundInv lite file.length (crc32 file) es c := by
  refine hr.invariant (I := fun es c => (∀ e ∈ es, AnswersVerify lite e) →
    SoundInv lite file.length (crc32 file) es c) (fun _ => soundInv_start hsize connected s) ?_
    hanswers
  intro es c e d h hstep hanswers
  simp only [List.mem_append, List.mem_singleton] at hanswers
  exact soundInv_step (h fun e he => hanswers e (.inl he)) hstep (hanswers e (.inr rfl))

/-- **An upload that returned 0 was verified.**  In every run of `kfsw_fwu_lite_send_file`
for a file of less than 4 GiB in which what is read as the answer to the VERIFY and says OK
answers a VERIFY: if it returns 0, the node executed a VERIFY after the last block was
sent, which returned 0 for an image with the size and the checksum of the file. -/
theorem upload_sound {node : ℕ} {file : List UInt8} {connected : Bool}
    (hsize : file.length < 2 ^ 32) (hr : Run (UploadStep cfg source)
      (Channel.start (sendFile lite node (some (.ok file)) connected) s) es c)
    (hanswers : ∀ e ∈ es, AnswersVerify lite e) (hdone : c.sender.phase = .done none) :
    VerifiedAfterBlocks file.length (crc32 file) es := by
  have hcurrent := (soundInv_run hsize hr hanswers).current
  unfold Current at hcurrent
  rw [hdone] at hcurrent
  exact hcurrent

/-! ### Runs on a flash without faults -/

/-- A step by what it takes: the packet of that number is served or read. -/
inductive Act
  | send
  | serve (k : ℕ)
  | receive (k : ℕ)
  | timeout

/-- What the step comes to, if it can be taken. -/
def Channel.act (cfg : Config) (source : Source lite) (c : Channel) :
    Act → Option (UploadEvent × Channel)
  | .send =>
    match c.waiting, c.sender.phase, encode lite lite.bufferSize c.sender.request with
    | true, _, _ => none
    | _, .done _, _ => none
    | _, _, .error _ => none
    | _, _, .ok packet => some (.send c.sender.request,
        { c with waiting := true, requests := c.requests ++ [packet] })
  | .serve k =>
    (c.requests[k]?).map fun packet =>
      let served := servePacket lite cfg c.service.faultless true c.service packet
      (.serve served.handled,
        { c with service := served.service c.service, replies := c.replies ++ served.reply.toList })
  | .receive k =>
    if c.waiting then
      (c.replies[k]?).map fun packet =>
        (.receive c.sender.phase packet,
          { c with waiting := false, sender := c.sender.onExchange source (decode lite packet) })
    else none
  | .timeout =>
    if c.waiting then
      some (.timeout,
        { c with waiting := false, sender := c.sender.onExchange source (.error .ETIMEDOUT) })
    else none

theorem Channel.act_step {a : Act} {d : Channel} (h : c.act cfg source a = some (e, d)) :
    UploadStep cfg source c e d := by
  cases a with
  | send =>
    simp only [Channel.act] at h
    split at h
    · cases h
    · cases h
    · cases h
    · rename_i hencode hwaiting hphase
      obtain ⟨rfl, rfl⟩ := Prod.mk.inj (Option.some.inj h)
      exact .send (by simpa using hwaiting) hphase hencode
  | serve k =>
    obtain ⟨packet, hpacket, heq⟩ := Option.map_eq_some_iff.1 h
    obtain ⟨rfl, rfl⟩ := Prod.mk.inj heq
    exact .serve _ true (List.mem_of_getElem? hpacket)
  | receive k =>
    simp only [Channel.act] at h
    split_ifs at h with hwaiting
    obtain ⟨packet, hpacket, heq⟩ := Option.map_eq_some_iff.1 h
    obtain ⟨rfl, rfl⟩ := Prod.mk.inj heq
    exact .receive hwaiting (List.mem_of_getElem? hpacket)
  | timeout =>
    simp only [Channel.act] at h
    split_ifs at h with hwaiting
    obtain ⟨rfl, rfl⟩ := Prod.mk.inj (Option.some.inj h)
    exact .timeout hwaiting

/-- Steps, one after the other. -/
def Channel.play (cfg : Config) (source : Source lite) (c : Channel) :
    List Act → Option (List UploadEvent × Channel)
  | [] => some ([], c)
  | a :: as =>
    match c.act cfg source a with
    | none => none
    | some (e, d) => (d.play cfg source as).map fun r => (e :: r.1, r.2)

/-- What is played is a run. -/
theorem Channel.run_play (as : List Act) : ∀ {c d : Channel} {es : List UploadEvent},
    c.play cfg source as = some (es, d) → Run (UploadStep cfg source) c es d := by
  induction as with
  | nil =>
    intro c d es h
    obtain ⟨rfl, rfl⟩ := Prod.mk.inj (Option.some.inj h)
    exact .nil c
  | cons a as ih =>
    intro c d es h
    simp only [Channel.play] at h
    split at h
    · cases h
    · rename_i e c' hact
      obtain ⟨r, hr, heq⟩ := Option.map_eq_some_iff.1 h
      obtain ⟨rfl, rfl⟩ := Prod.mk.inj heq
      exact .cons (Channel.act_step hact) (ih hr)

/-- A file of one block. -/
def oneBlock : List UInt8 := List.replicate 16 0xA5

/-- An upload of the block to a node that was just started. -/
def oneBlockStart : Channel :=
  Channel.start (sendFile smallSettings 1 (some (.ok oneBlock)) true)
    (Service.boot (fun _ => 255) .NONE)

/-- A verification that returned 0. -/
def UploadEvent.verifies : UploadEvent → Bool
  | .serve (some handled) => handled.call = some (.verify, none)
  | _ => false

/-- Every exchange is answered. -/
def plainActs : List Act :=
  [.send, .serve 0, .receive 0, .send, .serve 1, .receive 1, .send, .serve 2, .receive 2]

/-- An upload in which every exchange is answered was verified. -/
theorem upload_sound_plain : ∃ es c,
    Run (UploadStep smallConfig (Source.ofFile smallSettings oneBlock)) oneBlockStart es c ∧
      (∀ e ∈ es, AnswersVerify smallSettings e) ∧ c.sender.phase = .done none ∧
      VerifiedAfterBlocks oneBlock.length (crc32 oneBlock) es := by
  have heval : ((oneBlockStart.play smallConfig (Source.ofFile smallSettings oneBlock) plainActs).map
      fun r => (r.2.sender.phase, decide (∀ e ∈ r.1, AnswersVerify smallSettings e))) =
      some (.done none, true) := by
    decide +kernel
  obtain ⟨⟨es, c⟩, hplay, heq⟩ := Option.map_eq_some_iff.1 heval
  obtain ⟨hdone, hanswers⟩ := Prod.mk.inj heq
  have hrun := Channel.run_play plainActs hplay
  have hanswers := of_decide_eq_true hanswers
  exact ⟨es, c, hrun, hanswers, hdone, upload_sound (by decide) hrun hanswers hdone⟩

/-- The reply to the block is late: the block is sent again, the node asks for the next
one, and the late reply is read as the answer to the VERIFY, which is never served. -/
def lateActs : List Act :=
  [.send, .serve 0, .receive 0, .send, .serve 1, .timeout, .send, .serve 2, .receive 2, .send,
    .receive 1]

/-- **A late reply to a block ends the upload with 0**, and the node has verified
nothing. -/
theorem late_reply_accepted : ∃ es c,
    Run (UploadStep smallConfig (Source.ofFile smallSettings oneBlock)) oneBlockStart es c ∧
      c.sender.phase = .done none ∧ ¬ VerifiedAfterBlocks oneBlock.length (crc32 oneBlock) es := by
  have heval : ((oneBlockStart.play smallConfig (Source.ofFile smallSettings oneBlock) lateActs).map
      fun r => (r.2.sender.phase, r.1.any UploadEvent.verifies)) = some (.done none, false) := by
    decide +kernel
  obtain ⟨⟨es, c⟩, hplay, heq⟩ := Option.map_eq_some_iff.1 heval
  obtain ⟨hdone, hnone⟩ := Prod.mk.inj heq
  refine ⟨es, c, Channel.run_play lateActs hplay, hdone, ?_⟩
  rintro ⟨before, handled, after, rfl, hcall, -⟩
  have hverifies := List.any_eq_false.1 hnone (.serve (some handled)) (by simp)
  simp [UploadEvent.verifies, hcall] at hverifies

end KfswServices.Fwu.Lite
