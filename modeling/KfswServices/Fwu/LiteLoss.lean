/-
# An upload over a link that loses packets

`kfsw_fwu_lite_send_file` against a node without faults, over a link that may lose
the request or the reply of any BLOCK exchange.  With at most as many losses for each
block as there are retries, the upload should complete.

It does for the blocks in the middle: the node is one block ahead, and asks for the
block the sender would send next.  Two things break this.  The node names the block it
expects by the bytes it holds, and after a short last block that is still the last one:
when its reply is lost, the block that is sent again is taken for bytes past the end.
And the node compares 16 bits of a block index with all of its own, so block 65536 is
never accepted.  `upload_completes_iff` says that nothing else can go wrong.
-/

import KfswServices.Fwu.Integrity
import KfswServices.Fwu.LiteSend
import KfswServices.Library.Reach

namespace KfswServices.Fwu.Lite

open Library

/-- What the link does with the two packets of an exchange. -/
inductive Fate
  | delivered
  | requestLost
  | replyLost
  deriving DecidableEq

/-- The two ends of an upload. -/
structure Upload where
  sender : Sender
  service : Service

/-- `exchange`, over the link, with a node whose flash has no faults. -/
def Upload.exchange {lite : Settings} (cfg : Config) (source : Source lite) (fate : Fate) (u : Upload) :
    Upload :=
  match encode lite lite.bufferSize u.sender.request with
  | .error e => ⟨u.sender.onExchange source (.error e), u.service⟩
  | .ok packet =>
    if fate = .requestLost then ⟨u.sender.onExchange source (.error .ETIMEDOUT), u.service⟩
    else
      let served := servePacket lite cfg u.service.faultless true u.service packet
      match fate, served.reply with
      | .delivered, some reply =>
        ⟨u.sender.onExchange source (decode lite reply), served.service u.service⟩
      | _, _ => ⟨u.sender.onExchange source (.error .ETIMEDOUT), served.service u.service⟩

/-- The next exchange of an upload.  The link may lose the packets of block `i` at its
attempt `a` as `losses i a` says; it delivers the other messages. -/
def Upload.step {lite : Settings} (cfg : Config) (source : Source lite) (losses : ℕ → ℕ → Fate)
    (u : Upload) : Upload :=
  match u.sender.phase with
  | .done _ => u
  | .block => u.exchange cfg source (losses u.sender.block u.sender.attempt)
  | _ => u.exchange cfg source .delivered

/-- The upload of a file to a node, after some exchanges. -/
def uploadAfter (lite : Settings) (cfg : Config) (node : ℕ) (file : List UInt8)
    (losses : ℕ → ℕ → Fate) (s : Service) (exchanges : ℕ) : Upload :=
  (Upload.step cfg (Source.ofFile lite file) losses)^[exchanges]
    ⟨sendFile lite node (some (.ok file)) true, s⟩

/-- `kfsw_fwu_lite_send_file` has returned 0, and the node is VERIFIED with the bytes of
the file. -/
def Upload.Complete (cfg : Config) (file : List UInt8) (u : Upload) : Prop :=
  u.sender.phase = .done none ∧ u.service.status.state = .VERIFIED ∧
    u.service.status.totalSize = file.length ∧
    u.service.bytes (slotWriteOffset cfg) file.length = file

/-- Of the attempts a block has, which are one more than the retries, at most as many are
lost as there are retries. -/
def LossesWithin (lite : Settings) (file : List UInt8) (losses : ℕ → ℕ → Fate) : Prop :=
  ∀ i, i * lite.blockSize < file.length →
    (List.range (lite.retries.toNat + 1)).countP (fun a => losses i a ≠ .delivered) ≤
      lite.retries.toNat

/-- No reply of block `i` is lost before one of its exchanges succeeds. -/
def OnlyRequestsLost (lite : Settings) (losses : ℕ → ℕ → Fate) (i : ℕ) : Prop :=
  ∃ a ≤ lite.retries.toNat, losses i a = .delivered ∧ ∀ b < a, losses i b = .requestLost

/-- One of the attempts of a block succeeds. -/
theorem LossesWithin.exists_delivered {lite : Settings} {file : List UInt8} {losses : ℕ → ℕ → Fate}
    (h : LossesWithin lite file losses) {i : ℕ} (hi : i * lite.blockSize < file.length) :
    ∃ a ≤ lite.retries.toNat, losses i a = .delivered := by
  by_contra hnone
  push Not at hnone
  have hall : (List.range (lite.retries.toNat + 1)).countP (fun a => losses i a ≠ .delivered) =
      (List.range (lite.retries.toNat + 1)).length := by
    refine List.countP_eq_length.2 fun a ha => ?_
    rw [List.mem_range] at ha
    simpa using hnone a (by omega)
  have hle := h i hi
  rw [hall, List.length_range] at hle
  omega

/-! ### The node -/

/-- The node is receiving the file and holds its first `n` bytes. -/
structure Holding (cfg : Config) (file : List UInt8) (n : ℕ) (s : Service) : Prop where
  state : s.status.state = .RECEIVING
  total : s.status.totalSize = file.length
  expected : s.status.expectedCrc32 = crc32 file
  received : s.status.received = n
  actual : s.status.actualCrc32 = crc32 (file.take n)
  stream : s.stream = ⟨slotWriteOffset cfg, file.take n⟩
  le : n ≤ file.length

/-- The bytes of block `i`. -/
def chunk (lite : Settings) (file : List UInt8) (i : ℕ) : List UInt8 :=
  (file.drop (i * lite.blockSize)).take lite.blockSize

/-- The request that carries block `i`. -/
def blockMessage (lite : Settings) (file : List UInt8) (i : ℕ) : Message :=
  ⟨Opcode.BLOCK.toByte, 0, UInt16.ofNat i, crc32 (chunk lite file i), 0, chunk lite file i⟩

theorem length_chunk (lite : Settings) (file : List UInt8) (i : ℕ) :
    (chunk lite file i).length = min lite.blockSize (file.length - i * lite.blockSize) := by
  rw [chunk, List.length_take, List.length_drop]

/-- A block of the file is not empty. -/
theorem length_chunk_ne_zero {lite : Settings} {file : List UInt8} {i : ℕ}
    (hi : i * lite.blockSize < file.length) : (chunk lite file i).length ≠ 0 := by
  have := lite.block_ge
  rw [length_chunk]
  omega

/-- The bytes before a block, and the block, are the bytes before the next. -/
theorem take_append_chunk (lite : Settings) (file : List UInt8) (i : ℕ) :
    file.take (i * lite.blockSize) ++ chunk lite file i = file.take ((i + 1) * lite.blockSize) := by
  rw [chunk, Nat.succ_mul, List.take_add]

/-- The checks of a block of the file, at a node that receives the file: its index, and
that only the last is short. -/
theorem Holding.checkBlock_eq {lite : Settings} {cfg : Config} {file : List UInt8} {n i : ℕ}
    {s : Service} (h : Holding cfg file n s) (hi : i * lite.blockSize < file.length) :
    checkBlock lite s.status (blockMessage lite file i) =
      if i % 2 ^ 16 ≠ n / lite.blockSize then some .OUT_OF_ORDER
      else if (n + (chunk lite file i).length) % 2 ^ 32 < file.length ∧
        (chunk lite file i).length ≠ lite.blockSize then some .INVALID
      else none := by
  unfold checkBlock
  simp only [blockMessage, UInt16.toNat_ofNat']
  rw [if_neg (length_chunk_ne_zero hi), if_neg (not_not.2 h.state), h.received, h.total]
  simp

/-- A block of the file that passes the checks is written. -/
theorem handle_blockMessage (lite : Settings) (cfg : Config) (env : Env) (s : Service)
    (file : List UInt8) (i : ℕ) :
    handle lite cfg env s (blockMessage lite file i) =
      match checkBlock lite s.status (blockMessage lite file i) with
      | some status => reject s status
      | none => perform cfg env s (.write s.status.received (some (chunk lite file i))) := rfl

/-- **A block the node does not expect** changes nothing. -/
theorem Holding.handle_other {lite : Settings} {cfg : Config} {file : List UInt8} {n i : ℕ}
    {s : Service} (h : Holding cfg file n s) (hi : i * lite.blockSize < file.length)
    (hne : i % 2 ^ 16 ≠ n / lite.blockSize) (env : Env) :
    handle lite cfg env s (blockMessage lite file i) = reject s .OUT_OF_ORDER := by
  rw [handle_blockMessage, h.checkBlock_eq hi, if_pos hne]

/-- **The block the node expects** is written. -/
theorem Holding.handle_next {lite : Settings} {cfg : Config} {file : List UInt8} {i : ℕ}
    {s : Service} (h : Holding cfg file (i * lite.blockSize) s)
    (hi : i * lite.blockSize < file.length) (hindex : i < 2 ^ 16) (hlen : file.length < 2 ^ 32) :
    (handle lite cfg s.faultless s (blockMessage lite file i)).status = .OK ∧
      Holding cfg file (min ((i + 1) * lite.blockSize) file.length)
        (handle lite cfg s.faultless s (blockMessage lite file i)).service := by
  have hblock := lite.block_ge
  have hend : i * lite.blockSize + (chunk lite file i).length =
      min ((i + 1) * lite.blockSize) file.length := by
    rw [length_chunk, Nat.succ_mul]
    omega
  have hshort : ¬ ((i * lite.blockSize + (chunk lite file i).length) % 2 ^ 32 < file.length ∧
      (chunk lite file i).length ≠ lite.blockSize) := by
    rw [length_chunk]
    omega
  have hexpected : ¬ i % 2 ^ 16 ≠ i * lite.blockSize / lite.blockSize := by
    rw [Nat.mod_eq_of_lt hindex, Nat.mul_div_cancel _ (by omega)]
    exact not_not.2 rfl
  have hwrite : s.write s.faultless s.status.received (some (chunk lite file i)) =
      ⟨{ s with
          stream := ⟨s.stream.base, s.stream.accepted ++ chunk lite file i⟩
          status := { s.status with
            actualCrc32 := crc32Update s.status.actualCrc32 (chunk lite file i)
            received := s.status.received + (chunk lite file i).length } }, none,
        [⟨.write, s⟩]⟩ := by
    simp only [Service.write]
    rw [if_neg (length_chunk_ne_zero hi), if_neg (not_not.2 h.state), if_neg (not_not.2 rfl),
      if_neg (by rw [h.received, h.total, hend]; omega)]
    rfl
  have htake : file.take (min ((i + 1) * lite.blockSize) file.length) =
      file.take ((i + 1) * lite.blockSize) := List.take_eq_take_min.symm
  rw [handle_blockMessage, h.checkBlock_eq hi, if_neg hexpected, if_neg hshort]
  simp only [perform, Service.exec, hwrite]
  refine ⟨rfl, h.state, h.total, h.expected, ?_, ?_, ?_, by omega⟩
  · show s.status.received + _ = _
    rw [h.received, hend]
  · show crc32Update s.status.actualCrc32 _ = _
    rw [h.actual, crc32, crc32, ← crc32Update_append, take_append_chunk, htake]
  · show Stream.mk s.stream.base _ = _
    rw [h.stream, take_append_chunk, htake]

/-- **A short last block that comes again** is taken for bytes past the end of the
image, and refused as too large. -/
theorem Holding.handle_past {lite : Settings} {cfg : Config} {file : List UInt8} {i : ℕ}
    {s : Service} (h : Holding cfg file file.length s) (hi : i * lite.blockSize < file.length)
    (hindex : i < 2 ^ 16) (hshort : file.length < (i + 1) * lite.blockSize) (env : Env) :
    (handle lite cfg env s (blockMessage lite file i)).service = s ∧
      ((handle lite cfg env s (blockMessage lite file i)).status = .INVALID ∨
        (handle lite cfg env s (blockMessage lite file i)).status = .TOO_LARGE) := by
  have hexpected : ¬ i % 2 ^ 16 ≠ file.length / lite.blockSize := by
    rw [Nat.mod_eq_of_lt hindex, not_not]
    exact (Nat.div_eq_of_lt_le hi.le hshort).symm
  rw [handle_blockMessage, h.checkBlock_eq hi, if_neg hexpected]
  split_ifs with hwrap
  · exact ⟨rfl, .inl rfl⟩
  · have hwrite : s.write env s.status.received (some (chunk lite file i)) = s.refuse .EFBIG := by
      have hne := length_chunk_ne_zero hi
      simp only [Service.write]
      rw [if_neg hne, if_neg (not_not.2 h.state), if_neg (not_not.2 rfl),
        if_pos (by rw [h.received, h.total]; omega)]
    simp only [perform, Service.exec, hwrite]
    exact ⟨rfl, .inr rfl⟩

theorem maxImageSize_lt (cfg : Config) : maxImageSize cfg < 2 ^ 32 := by
  simp only [maxImageSize]
  split_ifs <;> omega

/-- The request that declares the file. -/
def beginMessage (file : List UInt8) : Message :=
  ⟨Opcode.BEGIN.toByte, 0, 0, UInt32.ofNat file.length, crc32 file, []⟩

theorem handle_beginMessage (lite : Settings) {cfg : Config} {file : List UInt8}
    (hmax : file.length ≤ maxImageSize cfg) (env : Env) (s : Service) :
    handle lite cfg env s (beginMessage file) =
      perform cfg env s (.begin file.length (crc32 file)) := by
  have hlen : file.length < 2 ^ 32 := lt_of_le_of_lt hmax (maxImageSize_lt cfg)
  rw [handle_of_begin rfl]
  show perform cfg env s (.begin (UInt32.ofNat file.length).toNat (crc32 file)) = _
  rw [UInt32.toNat_ofNat', Nat.mod_eq_of_lt hlen]

/-- **A file that fits is declared** to a node that is free, and the node holds none of
it yet. -/
theorem handle_begin_free (lite : Settings) {cfg : Config} {file : List UInt8} {s : Service}
    (hpos : 1 ≤ file.length) (hmax : file.length ≤ maxImageSize cfg)
    (hstate : s.status.state ≠ .RECEIVING) (hfree : s.Free cfg) :
    (handle lite cfg s.faultless s (beginMessage file)).status = .OK ∧
      Holding cfg file 0 (handle lite cfg s.faultless s (beginMessage file)).service := by
  have hbusy : ¬ (s.status.state = .RECEIVING ∨ s.readers ≠ 0 ∨ s.neededForRevert cfg = true) := by
    simp [hstate, hfree.1, hfree.2]
  rw [handle_beginMessage lite hmax]
  simp only [perform, Service.exec, Service.begin]
  rw [if_neg (by omega), if_neg (by omega), if_neg hbusy]
  exact ⟨rfl, rfl, rfl, rfl, rfl, (crc32Update_nil 0).symm, rfl, Nat.zero_le _⟩

/-- A node that is not free answers with BUSY. -/
theorem handle_begin_busy (lite : Settings) {cfg : Config} {file : List UInt8} {s : Service}
    (hpos : 1 ≤ file.length) (hmax : file.length ≤ maxImageSize cfg)
    (hbusy : ¬ (s.status.state ≠ .RECEIVING ∧ s.Free cfg)) (env : Env) :
    (handle lite cfg env s (beginMessage file)).status = .BUSY := by
  have hbusy' : s.status.state = .RECEIVING ∨ s.readers ≠ 0 ∨ s.neededForRevert cfg = true := by
    by_contra hnot
    simp only [not_or, Bool.not_eq_true, Decidable.not_not] at hnot
    exact hbusy ⟨hnot.1, hnot.2⟩
  rw [handle_beginMessage lite hmax]
  simp only [perform, Service.exec, Service.begin]
  rw [if_neg (by omega), if_neg (by omega), if_pos hbusy']
  rfl

/-- **A node that holds the whole file verifies it**, and has its bytes in the slot. -/
theorem Holding.handle_verify {cfg : Config} {file : List UInt8} {s : Service}
    (h : Holding cfg file file.length s) (lite : Settings) {request : Message}
    (hop : request.opcode = Opcode.VERIFY.toByte) :
    (handle lite cfg s.faultless s request).status = .OK ∧
      (handle lite cfg s.faultless s request).service.status.state = .VERIFIED ∧
      (handle lite cfg s.faultless s request).service.status.totalSize = file.length ∧
      (handle lite cfg s.faultless s request).service.bytes (slotWriteOffset cfg) file.length =
        file := by
  have hverify : s.verify s.faultless =
      ⟨{ s with
          slot := s.faultless.flush.slot s.slot
          status := { s.status with state := .VERIFIED } }, none, [⟨.write, s⟩]⟩ := by
    unfold Service.verify
    rw [if_neg (by rw [h.state]; decide), if_neg (not_not.2 h.state),
      if_neg (not_not.2 (h.received.trans h.total.symm)), if_neg]
    · rfl
    · rw [h.actual, h.expected, List.take_length]
      exact not_not.2 rfl
  have hstream := h.stream
  rw [List.take_length] at hstream
  rw [handle_of_verify hop, perform, show s.exec cfg s.faultless .verify = _ from hverify]
  exact ⟨rfl, rfl, h.total, bytes_flushed (s.faultless_lawful cfg) rfl hstream⟩

/-! ### One exchange -/

/-- **What an exchange comes to**: the node handles the request unless it was lost, and
the sender reads its reply unless one of the two was. -/
theorem Upload.exchange_eq {lite : Settings} (cfg : Config) (source : Source lite) (fate : Fate)
    {u : Upload} (hlen : u.sender.request.data.length ≤ lite.blockSize)
    (hop : Opcode.ofByte? u.sender.request.opcode ≠ none) :
    u.exchange cfg source fate =
      let h := handle lite cfg u.service.faultless u.service u.sender.request
      match fate with
      | .requestLost => ⟨u.sender.onExchange source (.error .ETIMEDOUT), u.service⟩
      | .replyLost => ⟨u.sender.onExchange source (.error .ETIMEDOUT), h.service⟩
      | .delivered =>
        ⟨u.sender.onExchange source (.ok (h.reply lite u.sender.request)), h.service⟩ := by
  have hencode := encode_eq_ok lite hlen
  have hserved := servePacket_eq (decode_encode hencode hop) cfg u.service.faultless true u.service
  unfold Upload.exchange
  simp only [hencode, hserved, Served.service]
  cases fate with
  | requestLost => rfl
  | replyLost => rfl
  | delivered => simp [decode_reply _ hop]

/-- The sender is at attempt `a` of block `i`, and the node holds the first `n` bytes. -/
structure Sending (lite : Settings) (cfg : Config) (file : List UInt8) (i a n : ℕ) (u : Upload) :
    Prop where
  phase : u.sender.phase = .block
  size : u.sender.size = file.length
  block : u.sender.block = i
  sent : u.sender.sent = i * lite.blockSize
  attempt : u.sender.attempt = a
  request : u.sender.request = blockMessage lite file i
  more : i * lite.blockSize < file.length
  node : Holding cfg file n u.service

/-- The sender asks for the verification, and the node holds the file. -/
structure Verifying (cfg : Config) (file : List UInt8) (u : Upload) : Prop where
  phase : u.sender.phase = .verify
  opcode : u.sender.request.opcode = Opcode.VERIFY.toByte
  data : u.sender.request.data = []
  node : Holding cfg file file.length u.service

/-- The upload has failed. -/
def Upload.Failed (u : Upload) : Prop := ∃ e, u.sender.phase = .done (some e)

variable {lite : Settings} {cfg : Config} {file : List UInt8} {losses : ℕ → ℕ → Fate} {i a n m : ℕ}
  {u : Upload} {s : Service}

/-- Past block `i - 1`: at the first attempt of block `i`, or at the end of the file. -/
def Past (lite : Settings) (cfg : Config) (file : List UInt8) (i : ℕ) (u : Upload) : Prop :=
  Sending lite cfg file i 0 (i * lite.blockSize) u ∨
    (file.length ≤ i * lite.blockSize ∧ Verifying cfg file u)

section

variable (h : Sending lite cfg file i a n u)
include h

/-- The next block of the file, or the verification. -/
theorem Sending.past (hlen : file.length < 2 ^ 32)
    (hnode : Holding cfg file (min ((i + 1) * lite.blockSize) file.length) s) :
    Past lite cfg file (i + 1) ⟨u.sender.advance (Source.ofFile lite file), s⟩ := by
  have hmore := h.more
  have hsent : (u.sender.sent + u.sender.request.data.length) % 2 ^ 32 =
      min ((i + 1) * lite.blockSize) file.length := by
    rw [h.sent, h.request]
    show (_ + (chunk lite file i).length) % _ = _
    rw [length_chunk, Nat.succ_mul]
    omega
  unfold Sender.advance Sender.nextBlock
  simp only [hsent, h.size, h.block]
  by_cases hnext : (i + 1) * lite.blockSize < file.length
  · have hmin : min ((i + 1) * lite.blockSize) file.length = (i + 1) * lite.blockSize :=
      Nat.min_eq_left hnext.le
    rw [hmin] at hnode ⊢
    rw [if_pos hnext]
    show Past lite cfg file (i + 1) ⟨if (chunk lite file (i + 1)).length = 0 then _ else _, s⟩
    rw [if_neg (length_chunk_ne_zero hnext)]
    refine .inl ⟨rfl, rfl, rfl, rfl, rfl, ?_, hnext, hnode⟩
    simp only [Sender.blockRequest, h.request]
    rfl
  · rw [not_lt] at hnext
    rw [Nat.min_eq_right hnext] at hnode ⊢
    rw [if_neg (lt_irrefl _)]
    exact .inr ⟨hnext, rfl, rfl, rfl, hnode⟩

/-- The block is sent again while there are retries. -/
theorem Sending.again (hnode : Holding cfg file m s) (ha : a < lite.retries.toNat) (e : Errno) :
    Sending lite cfg file i (a + 1) m ⟨u.sender.again lite e, s⟩ := by
  unfold Sender.again
  simp only [h.attempt]
  rw [if_neg (by omega)]
  exact ⟨h.phase, h.size, h.block, h.sent, rfl, h.request, h.more, hnode⟩

/-- And with none left the upload fails. -/
theorem Sending.again_last (ha : lite.retries.toNat ≤ a)
    (e : Errno) (s : Service) : Upload.Failed ⟨u.sender.again lite e, s⟩ := by
  unfold Sender.again
  simp only [h.attempt]
  rw [if_pos (by omega)]
  exact ⟨e, rfl⟩

/-- **The exchange of a block.** -/
theorem Sending.step_eq (losses : ℕ → ℕ → Fate) :
    u.step cfg (Source.ofFile lite file) losses =
      let handled := handle lite cfg u.service.faultless u.service (blockMessage lite file i)
      match losses i a with
      | .requestLost => ⟨u.sender.again lite .ETIMEDOUT, u.service⟩
      | .replyLost => ⟨u.sender.again lite .ETIMEDOUT, handled.service⟩
      | .delivered =>
        ⟨u.sender.onExchange (Source.ofFile lite file)
          (.ok (handled.reply lite (blockMessage lite file i))), handled.service⟩ := by
  have hlen : u.sender.request.data.length ≤ lite.blockSize := by
    rw [h.request]
    exact List.length_take_le _ _
  have hop : Opcode.ofByte? u.sender.request.opcode ≠ none := by
    rw [h.request]
    exact nofun
  have htimeout : u.sender.onExchange (Source.ofFile lite file) (.error .ETIMEDOUT) =
      u.sender.again lite .ETIMEDOUT := by
    unfold Sender.onExchange
    rw [h.phase]
  unfold Upload.step
  simp only [h.phase, h.block, h.attempt]
  rw [Upload.exchange_eq cfg _ _ hlen hop, h.request, htimeout]

/-- A block that is accepted. -/
theorem Sending.onExchange_accepted {reply : Message} (hreply : u.sender.accepted reply) :
    u.sender.onExchange (Source.ofFile lite file) (.ok reply) =
      u.sender.advance (Source.ofFile lite file) := by
  unfold Sender.onExchange
  simp only [h.phase]
  rw [if_pos hreply]

/-- A block that is not accepted is given up, or sent again. -/
theorem Sending.onExchange_refused {reply : Message} (hreply : ¬ u.sender.accepted reply) :
    u.sender.onExchange (Source.ofFile lite file) (.ok reply) = u.sender.finish (some Errno.EIO) ∨
      u.sender.onExchange (Source.ofFile lite file) (.ok reply) = u.sender.again lite Errno.EIO := by
  unfold Sender.onExchange
  simp only [h.phase]
  rw [if_neg hreply]
  split_ifs with hstatus
  · exact .inl rfl
  · exact .inr rfl

end

/-! ### A block that gets through -/

/-- The node has not had the block: it takes it. -/
theorem Sending.answered_next (h : Sending lite cfg file i a (i * lite.blockSize) u)
    (hindex : i < 2 ^ 16) (hlen : file.length < 2 ^ 32) :
    let handled := handle lite cfg u.service.faultless u.service (blockMessage lite file i)
    Holding cfg file (min ((i + 1) * lite.blockSize) file.length) handled.service ∧
      u.sender.accepted (handled.reply lite (blockMessage lite file i)) := by
  obtain ⟨hstatus, hnode⟩ := h.node.handle_next h.more hindex hlen
  refine ⟨hnode, .inl ?_⟩
  show Status.toByte _ = _
  rw [hstatus]

/-- The node has had the block, and it was full: it asks for the next one. -/
theorem Sending.answered_again (h : Sending lite cfg file i a ((i + 1) * lite.blockSize) u) :
    let handled := handle lite cfg u.service.faultless u.service (blockMessage lite file i)
    Holding cfg file ((i + 1) * lite.blockSize) handled.service ∧
      u.sender.accepted (handled.reply lite (blockMessage lite file i)) := by
  have hblock := lite.block_ge
  have hdiv : (i + 1) * lite.blockSize / lite.blockSize = i + 1 := Nat.mul_div_cancel _ (by omega)
  have hhandle := h.node.handle_other h.more (i := i) (by rw [hdiv]; omega) u.service.faultless
  simp only [hhandle]
  refine ⟨h.node, .inr ⟨rfl, ?_⟩⟩
  show UInt16.ofNat (u.service.status.received / lite.blockSize) = UInt16.ofNat u.sender.block + 1
  rw [h.node.received, hdiv, h.block, UInt16.ofNat_add]
  rfl

/-- A full block is accepted whether or not the node has had it. -/
theorem Sending.answered_full (h : Sending lite cfg file i a n u) (hindex : i < 2 ^ 16)
    (hlen : file.length < 2 ^ 32) (hfull : (i + 1) * lite.blockSize ≤ file.length)
    (hn : n = i * lite.blockSize ∨ n = (i + 1) * lite.blockSize) :
    let handled := handle lite cfg u.service.faultless u.service (blockMessage lite file i)
    Holding cfg file ((i + 1) * lite.blockSize) handled.service ∧
      u.sender.accepted (handled.reply lite (blockMessage lite file i)) := by
  rcases hn with rfl | rfl
  · simpa only [Nat.min_eq_left hfull] using h.answered_next hindex hlen
  · exact h.answered_again

/-- A delivered exchange in which the block is accepted. -/
theorem Sending.delivered (h : Sending lite cfg file i a n u) (hlen : file.length < 2 ^ 32)
    (hdelivered : losses i a = .delivered)
    (hanswered : let handled := handle lite cfg u.service.faultless u.service (blockMessage lite file i)
      Holding cfg file (min ((i + 1) * lite.blockSize) file.length) handled.service ∧
        u.sender.accepted (handled.reply lite (blockMessage lite file i))) :
    Past lite cfg file (i + 1) (u.step cfg (Source.ofFile lite file) losses) := by
  rw [h.step_eq losses, hdelivered]
  simp only [h.onExchange_accepted hanswered.2]
  exact h.past hlen hanswered.1

/-- **A full block gets through** if one of the attempts left is delivered, whatever was
lost before. -/
theorem Sending.full (hindex : i < 2 ^ 16) (hlen : file.length < 2 ^ 32)
    (hfull : (i + 1) * lite.blockSize ≤ file.length) {d : ℕ} (hd : a + d ≤ lite.retries.toNat)
    (hdelivered : losses i (a + d) = .delivered) (h : Sending lite cfg file i a n u)
    (hn : n = i * lite.blockSize ∨ n = (i + 1) * lite.blockSize) :
    Reaches (Upload.step cfg (Source.ofFile lite file) losses) (Past lite cfg file (i + 1)) u := by
  have hmin : min ((i + 1) * lite.blockSize) file.length = (i + 1) * lite.blockSize :=
    Nat.min_eq_left hfull
  induction d generalizing a n u with
  | zero =>
    have hanswered := h.answered_full hindex hlen hfull hn
    exact .next (.now (h.delivered hlen hdelivered (by rwa [hmin])))
  | succ d ih =>
    have hanswered := h.answered_full hindex hlen hfull hn
    have hlater : losses i (a + 1 + d) = .delivered := by
      rwa [Nat.add_assoc, Nat.add_comm 1]
    cases hfate : losses i a with
    | delivered => exact .next (.now (h.delivered hlen hfate (by rwa [hmin])))
    | requestLost =>
      refine .next (ih (by omega) hlater ?_ hn)
      rw [h.step_eq losses, hfate]
      exact h.again h.node (by omega) _
    | replyLost =>
      -- the node may now be one block ahead
      refine .next (ih (by omega) hlater ?_ (.inr rfl))
      rw [h.step_eq losses, hfate]
      exact h.again hanswered.1 (by omega) _

/-- A full block gets through, with the losses the retries make up for. -/
theorem Sending.full_block (h : Sending lite cfg file i 0 (i * lite.blockSize) u)
    (hindex : i < 2 ^ 16) (hlen : file.length < 2 ^ 32)
    (hfull : (i + 1) * lite.blockSize ≤ file.length) (hloss : LossesWithin lite file losses) :
    Reaches (Upload.step cfg (Source.ofFile lite file) losses) (Past lite cfg file (i + 1)) u := by
  obtain ⟨d, hd, hdelivered⟩ := hloss.exists_delivered h.more
  rw [← Nat.zero_add d] at hd hdelivered
  exact Sending.full hindex hlen hfull hd hdelivered h (.inl rfl)

/-- **A block of which only requests are lost** gets through. -/
theorem Sending.requests_lost (hindex : i < 2 ^ 16) (hlen : file.length < 2 ^ 32) {d : ℕ}
    (hd : a + d ≤ lite.retries.toNat) (hdelivered : losses i (a + d) = .delivered)
    (hlost : ∀ b < a + d, losses i b = .requestLost)
    (h : Sending lite cfg file i a (i * lite.blockSize) u) :
    Reaches (Upload.step cfg (Source.ofFile lite file) losses) (Past lite cfg file (i + 1)) u := by
  induction d generalizing a u with
  | zero => exact .next (.now (h.delivered hlen hdelivered (h.answered_next hindex hlen)))
  | succ d ih =>
    have hshift : a + 1 + d = a + (d + 1) := by omega
    have hagain : Sending lite cfg file i (a + 1) (i * lite.blockSize)
        (u.step cfg (Source.ofFile lite file) losses) := by
      rw [h.step_eq losses, hlost a (by omega)]
      exact h.again h.node (by omega) _
    exact .next (ih (by omega) (by rwa [hshift]) (by rwa [hshift]) hagain)

/-! ### A block that does not -/

/-- The node refuses block `i` and stays as it is. -/
def Stuck (lite : Settings) (cfg : Config) (file : List UInt8) (i n : ℕ) : Prop :=
  ∀ a u, Sending lite cfg file i a n u →
    let handled := handle lite cfg u.service.faultless u.service (blockMessage lite file i)
    handled.service = u.service ∧ ¬ u.sender.accepted (handled.reply lite (blockMessage lite file i))

/-- The block is sent again, or the upload fails. -/
theorem Sending.again_cases (h : Sending lite cfg file i a n u) (hnode : Holding cfg file m s)
    (e : Errno) : Upload.Failed ⟨u.sender.again lite e, s⟩ ∨
      (a < lite.retries.toNat ∧ Sending lite cfg file i (a + 1) m ⟨u.sender.again lite e, s⟩) := by
  rcases Nat.lt_or_ge a lite.retries.toNat with ha | ha
  · exact .inr ⟨ha, h.again hnode ha e⟩
  · exact .inl (h.again_last ha e s)

theorem Sending.stuck_step (hstuck : Stuck lite cfg file i n) (h : Sending lite cfg file i a n u)
    (losses : ℕ → ℕ → Fate) :
    Upload.Failed (u.step cfg (Source.ofFile lite file) losses) ∨ (a < lite.retries.toNat ∧
      Sending lite cfg file i (a + 1) n (u.step cfg (Source.ofFile lite file) losses)) := by
  obtain ⟨hservice, hrefused⟩ := hstuck a u h
  rw [h.step_eq losses]
  simp only [hservice]
  cases losses i a with
  | requestLost => exact h.again_cases h.node _
  | replyLost => exact h.again_cases h.node _
  | delivered =>
    rcases h.onExchange_refused hrefused with heq | heq
    · simp only [heq]
      exact .inl ⟨_, rfl⟩
    · simp only [heq]
      exact h.again_cases h.node _

/-- **A block the node refuses** makes the upload fail, whatever is lost. -/
theorem Sending.stuck (hstuck : Stuck lite cfg file i n) (h : Sending lite cfg file i a n u)
    (losses : ℕ → ℕ → Fate) :
    Reaches (Upload.step cfg (Source.ofFile lite file) losses) Upload.Failed u := by
  -- by induction on the attempts that are left
  induction hleft : lite.retries.toNat - a generalizing a u with
  | zero =>
    rcases h.stuck_step hstuck losses with hfailed | ⟨ha, -⟩
    · exact .next (.now hfailed)
    · omega
  | succ k ih =>
    rcases h.stuck_step hstuck losses with hfailed | ⟨ha, hagain⟩
    · exact .next (.now hfailed)
    · exact .next (ih hagain (by omega))

/-- Block 65536 has index 0, which the node never expects again. -/
theorem stuck_index (lite : Settings) (cfg : Config) (file : List UInt8) :
    Stuck lite cfg file (2 ^ 16) (2 ^ 16 * lite.blockSize) := by
  intro a u h
  have hblock := lite.block_ge
  have hdiv : 2 ^ 16 * lite.blockSize / lite.blockSize = 2 ^ 16 := Nat.mul_div_cancel _ (by omega)
  have hhandle := h.node.handle_other h.more (by rw [hdiv]; norm_num) u.service.faultless
  simp only [hhandle]
  refine ⟨rfl, ?_⟩
  rintro (hok | ⟨-, hnext⟩)
  · have hstatus : Status.OUT_OF_ORDER.toByte = Status.OK.toByte := hok
    exact absurd hstatus (by decide)
  · have hindex : UInt16.ofNat (u.service.status.received / lite.blockSize) =
        UInt16.ofNat u.sender.block + 1 := hnext
    rw [h.node.received, hdiv, h.block] at hindex
    exact absurd hindex (by decide)

/-- A short last block that the node holds. -/
theorem stuck_short (hindex : i < 2 ^ 16) (hshort : file.length < (i + 1) * lite.blockSize) :
    Stuck lite cfg file i file.length := by
  intro a u h
  obtain ⟨hservice, hstatus⟩ := h.node.handle_past h.more hindex hshort u.service.faultless
  refine ⟨hservice, ?_⟩
  rintro (hok | ⟨hok, -⟩)
  · rcases hstatus with hstatus | hstatus <;>
      exact absurd ((Status.toByte_inj.1 hok).symm.trans hstatus) nofun
  · rcases hstatus with hstatus | hstatus <;>
      exact absurd ((Status.toByte_inj.1 hok).symm.trans hstatus) nofun

/-- **A short last block of which a reply is lost** before an exchange succeeds makes the
upload fail. -/
theorem Sending.reply_lost (hindex : i < 2 ^ 16) (hlen : file.length < 2 ^ 32)
    (hshort : file.length < (i + 1) * lite.blockSize) (hnot : ¬ OnlyRequestsLost lite losses i)
    (hlost : ∀ b < a, losses i b = .requestLost) (ha : a ≤ lite.retries.toNat)
    (h : Sending lite cfg file i a (i * lite.blockSize) u) :
    Reaches (Upload.step cfg (Source.ofFile lite file) losses) Upload.Failed u := by
  induction hk : lite.retries.toNat - a generalizing a u with
  | zero =>
    refine .next (.now ?_)
    rw [h.step_eq losses]
    cases hfate : losses i a with
    | delivered => exact absurd ⟨a, ha, hfate, hlost⟩ hnot
    | requestLost => exact h.again_last (by omega) _ _
    | replyLost => exact h.again_last (by omega) _ _
  | succ k ih =>
    refine .next ?_
    rw [h.step_eq losses]
    cases hfate : losses i a with
    | delivered => exact absurd ⟨a, ha, hfate, hlost⟩ hnot
    | requestLost =>
      refine ih (fun b hb => ?_) (by omega) (h.again h.node (by omega) _) (by omega)
      rcases Nat.lt_succ_iff_lt_or_eq.1 hb with hb | rfl
      · exact hlost b hb
      · exact hfate
    | replyLost =>
      -- the node holds the whole file and takes the block for more of it
      have hnode := (h.answered_next hindex hlen).1
      rw [Nat.min_eq_right hshort.le] at hnode
      exact (h.again hnode (by omega) _).stuck (stuck_short hindex hshort) losses

/-! ### The whole upload -/

/-- An upload of a file that is not empty begins with the declaration of the file. -/
theorem sendFile_eq {node : ℕ} (hnode : 0 < node) (hnode' : node < lite.broadcast)
    (hpos : 1 ≤ file.length) (hlen : file.length < 2 ^ 32) :
    sendFile lite node (some (.ok file)) true = Sender.initial file.length (crc32 file) := by
  simp only [sendFile, fileSizeAndCrc_eq, Nat.mod_eq_of_lt hlen]
  rw [if_neg (by omega), if_neg (by omega)]
  rfl

/-- The exchange of the declaration. -/
theorem step_initial (cfg : Config) (losses : ℕ → ℕ → Fate) (s : Service) :
    Upload.step cfg (Source.ofFile lite file) losses ⟨Sender.initial file.length (crc32 file), s⟩ =
      let handled := handle lite cfg s.faultless s (beginMessage file)
      ⟨(Sender.initial file.length (crc32 file)).onExchange (Source.ofFile lite file)
        (.ok (handled.reply lite (beginMessage file))), handled.service⟩ := by
  have hop : Opcode.ofByte? (Sender.initial file.length (crc32 file)).request.opcode ≠ none := nofun
  exact Upload.exchange_eq cfg _ .delivered (Nat.zero_le _) hop

/-- A node that is free is sent the first block. -/
theorem sending_first (lite : Settings) (hpos : 1 ≤ file.length) (hmax : file.length ≤ maxImageSize cfg)
    (hstate : s.status.state ≠ .RECEIVING) (hfree : s.Free cfg) (losses : ℕ → ℕ → Fate) :
    Sending lite cfg file 0 0 (0 * lite.blockSize) (Upload.step cfg (Source.ofFile lite file) losses
        ⟨Sender.initial file.length (crc32 file), s⟩) := by
  obtain ⟨hstatus, hnode⟩ := handle_begin_free lite hpos hmax hstate hfree
  have hfirst : 0 * lite.blockSize < file.length := by omega
  have hchunk : ((file.drop (0 * lite.blockSize)).take lite.blockSize).length ≠ 0 :=
    length_chunk_ne_zero hfirst
  rw [step_initial]
  simp only [Sender.onExchange, Sender.initial]
  rw [if_neg (by show ¬ Status.toByte _ ≠ _; rw [hstatus]; exact not_not.2 rfl)]
  simp only [Source.ofFile, Sender.nextBlock]
  rw [if_pos (show 0 < file.length from hpos), if_neg hchunk]
  refine ⟨rfl, rfl, rfl, ?_, rfl, rfl, hfirst, by rwa [Nat.zero_mul]⟩
  rw [Nat.zero_mul]

/-- A node that is not refuses the upload. -/
theorem failed_busy (hpos : 1 ≤ file.length) (hmax : file.length ≤ maxImageSize cfg)
    (hbusy : ¬ (s.status.state ≠ .RECEIVING ∧ s.Free cfg)) (losses : ℕ → ℕ → Fate) :
    Upload.Failed (Upload.step cfg (Source.ofFile lite file) losses
      ⟨Sender.initial file.length (crc32 file), s⟩) := by
  have hstatus := handle_begin_busy lite hpos hmax hbusy s.faultless
  rw [step_initial]
  simp only [Sender.onExchange, Sender.initial]
  rw [if_pos (by show Status.toByte _ ≠ _; rw [hstatus]; decide)]
  exact ⟨_, rfl⟩

/-- **Every block up to the last is reached**, and every block up to 65536. -/
theorem Sending.reaches (hlen : file.length < 2 ^ 32) (hloss : LossesWithin lite file losses)
    (h : Sending lite cfg file 0 0 (0 * lite.blockSize) u) (i : ℕ) (hindex : i ≤ 2 ^ 16)
    (hi : i * lite.blockSize < file.length) :
    Reaches (Upload.step cfg (Source.ofFile lite file) losses)
      (Sending lite cfg file i 0 (i * lite.blockSize)) u := by
  induction i with
  | zero => exact .now h
  | succ i ih =>
    have hprev : i * lite.blockSize < file.length := by
      rw [Nat.succ_mul] at hi
      omega
    refine (ih (by omega) hprev).bind fun v hv => ?_
    refine (hv.full_block (by omega) hlen hi.le hloss).mono fun w hw => ?_
    rcases hw with hw | ⟨hend, -⟩
    · exact hw
    · omega

/-- The verification of an upload that got through. -/
theorem Verifying.complete (h : Verifying cfg file u) (losses : ℕ → ℕ → Fate) :
    Upload.Complete cfg file (u.step cfg (Source.ofFile lite file) losses) := by
  have hlen : u.sender.request.data.length ≤ lite.blockSize := by
    rw [h.data]
    exact Nat.zero_le _
  have hop : Opcode.ofByte? u.sender.request.opcode ≠ none := by
    rw [h.opcode]
    exact nofun
  obtain ⟨hstatus, hverified⟩ := h.node.handle_verify lite h.opcode
  unfold Upload.step
  simp only [h.phase]
  rw [Upload.exchange_eq cfg _ _ hlen hop]
  refine ⟨?_, hverified⟩
  simp only [Sender.onExchange, h.phase]
  rw [if_neg (by show ¬ Status.toByte _ ≠ _; rw [hstatus]; exact not_not.2 rfl)]
  rfl

/-- Past the last block, one more exchange completes the upload. -/
theorem complete_of_past (h : Past lite cfg file i u) (hend : file.length ≤ i * lite.blockSize)
    (losses : ℕ → ℕ → Fate) :
    Reaches (Upload.step cfg (Source.ofFile lite file) losses) (Upload.Complete cfg file) u := by
  rcases h with h | ⟨-, h⟩
  · exact absurd h.more (not_lt.2 hend)
  · exact .next (.now (h.complete losses))

/-- An upload that is over stays as it is. -/
theorem step_of_done {source : Source lite} {result : Option Errno}
    (h : u.sender.phase = .done result) : u.step cfg source losses = u := by
  unfold Upload.step
  rw [h]

/-- **An upload that fails is never complete.** -/
theorem not_complete_of_failed {source : Source lite}
    (h : Reaches (Upload.step cfg source losses) Upload.Failed u) :
    ¬ Reaches (Upload.step cfg source losses) (Upload.Complete cfg file) u := by
  intro hcomplete
  obtain ⟨v, ⟨e, hfailed⟩, hdone, -⟩ := Reaches.meet (P := Upload.Failed)
    (Q := Upload.Complete cfg file)
    (fun v hv => by obtain ⟨e, he⟩ := hv; rw [step_of_done he]; exact ⟨e, he⟩)
    (fun v hv => by rw [step_of_done hv.1]; exact hv) h hcomplete
  rw [hfailed] at hdone
  cases hdone

theorem not_complete_of_failed_after {node : ℕ}
    (h : (uploadAfter lite cfg node file losses s n).Failed) :
    ¬ ∃ n, (uploadAfter lite cfg node file losses s n).Complete cfg file :=
  not_complete_of_failed ⟨n, h⟩

/-- **When an upload completes.**  With at most as many losses for each block as there are
retries, the upload of a file that fits returns 0 and leaves the node VERIFIED with its
bytes if and only if the node was free, the file has at most 65536 blocks, and the last
block is full or none of its replies is lost before one of its exchanges succeeds. -/
theorem upload_completes_iff {node : ℕ} (hnode : 0 < node) (hnode' : node < lite.broadcast)
    (hpos : 1 ≤ file.length) (hmax : file.length ≤ maxImageSize cfg)
    (hloss : LossesWithin lite file losses) :
    (∃ n, (uploadAfter lite cfg node file losses s n).Complete cfg file) ↔
      (s.status.state ≠ .RECEIVING ∧ s.Free cfg) ∧ file.length ≤ 2 ^ 16 * lite.blockSize ∧
        (lite.blockSize ∣ file.length ∨
          OnlyRequestsLost lite losses (file.length / lite.blockSize)) := by
  have hblock := lite.block_ge
  have hlen : file.length < 2 ^ 32 := lt_of_le_of_lt hmax (maxImageSize_lt cfg)
  unfold uploadAfter
  rw [sendFile_eq hnode hnode' hpos hlen]
  show Reaches (Upload.step cfg (Source.ofFile lite file) losses) (Upload.Complete cfg file)
    ⟨Sender.initial file.length (crc32 file), s⟩ ↔ _
  by_cases hfree : s.status.state ≠ .RECEIVING ∧ s.Free cfg
  swap
  · exact iff_of_false (not_complete_of_failed (.next (.now (failed_busy hpos hmax hfree losses))))
      fun h => hfree h.1
  have hfirst := sending_first lite hpos hmax hfree.1 hfree.2 losses
  by_cases hcount : file.length ≤ 2 ^ 16 * lite.blockSize
  swap
  · -- block 65536 is reached and never accepted
    have hstuck := (hfirst.reaches hlen hloss (2 ^ 16) le_rfl (by omega)).bind fun v hv =>
      hv.stuck (stuck_index lite cfg file) losses
    exact iff_of_false (not_complete_of_failed (.next hstuck)) fun h => hcount h.2.1
  by_cases hdvd : lite.blockSize ∣ file.length
  · -- the last block is full
    refine iff_of_true (.next ?_) ⟨hfree, hcount, .inl hdvd⟩
    obtain ⟨q, hq⟩ := hdvd
    obtain ⟨i, rfl⟩ : ∃ i, q = i + 1 := Nat.exists_eq_succ_of_ne_zero fun h => by subst h; omega
    rw [Nat.mul_comm] at hq
    have hi : i * lite.blockSize < file.length := by
      rw [hq, Nat.succ_mul]
      omega
    have hindex : i < 2 ^ 16 := by
      rw [hq] at hcount
      exact Nat.lt_of_succ_le (Nat.le_of_mul_le_mul_right hcount (by omega))
    refine (hfirst.reaches hlen hloss i hindex.le hi).bind fun v hv => ?_
    exact (hv.full_block hindex hlen hq.ge hloss).bind fun w hw => complete_of_past hw hq.le losses
  · -- the last block is short
    have hi : file.length / lite.blockSize * lite.blockSize < file.length :=
      lt_of_le_of_ne (Nat.div_mul_le_self _ _) fun h => hdvd ⟨_, by rw [Nat.mul_comm, h]⟩
    have hshort : file.length < (file.length / lite.blockSize + 1) * lite.blockSize := by
      rw [Nat.mul_comm]
      exact Nat.lt_mul_div_succ _ (by omega)
    have hindex : file.length / lite.blockSize < 2 ^ 16 :=
      Nat.lt_of_mul_lt_mul_right (lt_of_lt_of_le hi hcount)
    have hlast := hfirst.reaches hlen hloss _ hindex.le hi
    by_cases honly : OnlyRequestsLost lite losses (file.length / lite.blockSize)
    · refine iff_of_true (.next (hlast.bind fun v hv => ?_)) ⟨hfree, hcount, .inr honly⟩
      obtain ⟨d, hd, hdelivered, hlost⟩ := honly
      rw [← Nat.zero_add d] at hd hdelivered hlost
      exact (Sending.requests_lost hindex hlen hd hdelivered hlost hv).bind fun w hw =>
        complete_of_past hw hshort.le losses
    · have hfails := hlast.bind fun v hv =>
        Sending.reply_lost hindex hlen hshort honly (fun b hb => absurd hb (Nat.not_lt_zero _))
          (Nat.zero_le _) hv
      exact iff_of_false (not_complete_of_failed (.next hfails)) fun h =>
        h.2.2.elim hdvd honly

/-- Two blocks, the second of one byte. -/
def smallFile : List UInt8 := List.replicate 17 0xA5

/-- The first request of each block is lost. -/
def firstRequestLost (_ a : ℕ) : Fate := if a = 0 then .requestLost else .delivered

/-- The file of two blocks arrives although the first request of each is lost. -/
theorem upload_completes_small : ∃ n,
    (uploadAfter smallSettings smallConfig 1 smallFile firstRequestLost
      (Service.boot (fun _ => 255) .NONE) n).Complete smallConfig smallFile := by
  have hloss : LossesWithin smallSettings smallFile firstRequestLost := by
    intro i hi
    show (List.range 5).countP (fun a => firstRequestLost 0 a ≠ .delivered) ≤ 4
    decide
  refine (upload_completes_iff (by decide) (by decide) (by decide) (by decide) hloss).2 ?_
  refine ⟨⟨by decide, by decide, by decide⟩, by decide, .inr ⟨1, by decide, rfl, fun b hb => ?_⟩⟩
  obtain rfl : b = 0 := by omega
  rfl

/-- The first reply to the second block is lost. -/
def secondReplyLost (i a : ℕ) : Fate := if i = 1 ∧ a = 0 then .replyLost else .delivered

/-- **The upload of 17 bytes in blocks of 16 fails when one reply is lost**, that to its
last block. -/
theorem last_reply_lost_fails : 1 ≤ smallFile.length ∧ smallFile.length ≤ maxImageSize smallConfig ∧
      LossesWithin smallSettings smallFile secondReplyLost ∧
      ¬ ∃ n, (uploadAfter smallSettings smallConfig 1 smallFile secondReplyLost
        (Service.boot (fun _ => 255) .NONE) n).Complete smallConfig smallFile := by
  refine ⟨by decide, by decide, fun i hi => ?_, ?_⟩
  · have hi : i * 16 < 17 := hi
    obtain rfl | rfl : i = 0 ∨ i = 1 := by omega
    · decide
    · decide
  · have hphase : (uploadAfter smallSettings smallConfig 1 smallFile secondReplyLost
        (Service.boot (fun _ => 255) .NONE) 4).sender.phase = .done (some Errno.EIO) := by
      decide +kernel
    exact not_complete_of_failed_after ⟨_, hphase⟩

end KfswServices.Fwu.Lite
