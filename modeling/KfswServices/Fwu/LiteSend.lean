/-
# Sending an image file, block by block

`src/fwu/fwu_lite_csp.c`.  `kfsw_fwu_lite_send_file` declares the size and the
checksum of a file, sends its blocks one at a time, and asks for a verification.
Each message is an exchange: a packet is sent, and whatever packet arrives next
before the timeout is read as its reply.

The sender is a machine that is told what each exchange came to
(`Sender.onExchange`).  It is in one of the three exchanges of the function, or
done with the value the function returns.
-/

import KfswServices.Fwu.Lite

namespace KfswServices.Fwu.Lite

open Library

/-- `file_size_and_crc` after some reads: the bytes still to be read, and at most
`reads` more reads. -/
def fileSizeAndCrcFrom (lite : Settings) : ℕ → List UInt8 → ℕ → UInt32 → ℕ × UInt32
  | 0, _, total, running => (total, running)
  | reads + 1, rest, total, running =>
    let chunk := rest.take lite.blockSize
    if chunk.length = 0 then (total, running)
    else fileSizeAndCrcFrom lite reads (rest.drop lite.blockSize)
      ((total + chunk.length) % 2 ^ 32) (crc32Update running chunk)

/-- `file_size_and_crc`; every read but the last takes at least one byte. -/
def fileSizeAndCrc (lite : Settings) (file : List UInt8) : ℕ × UInt32 :=
  fileSizeAndCrcFrom lite (file.length + 1) file 0 0

theorem fileSizeAndCrcFrom_eq (lite : Settings) (reads : ℕ) : ∀ (rest : List UInt8) (total : ℕ)
    (running : UInt32), rest.length < reads → total < 2 ^ 32 →
    fileSizeAndCrcFrom lite reads rest total running =
      ((total + rest.length) % 2 ^ 32, crc32Update running rest) := by
  have hblock := lite.block_ge
  induction reads with
  | zero => exact fun rest _ _ h => absurd h (Nat.not_lt_zero _)
  | succ reads ih =>
    intro rest total running hreads htotal
    unfold fileSizeAndCrcFrom
    by_cases hempty : (rest.take lite.blockSize).length = 0
    · have hrest : rest = [] := by
        rw [List.length_take] at hempty
        exact List.eq_nil_of_length_eq_zero (by omega)
      subst hrest
      rw [if_pos hempty, crc32Update_nil, List.length_nil, Nat.add_zero, Nat.mod_eq_of_lt htotal]
    · rw [List.length_take] at hempty
      simp only [List.length_take]
      rw [if_neg hempty, ih _ _ _ (by rw [List.length_drop]; omega) (Nat.mod_lt _ (by norm_num)),
        ← crc32Update_append, List.take_append_drop, List.length_drop, Nat.mod_add_mod]
      congr 2
      omega

/-- **What `file_size_and_crc` computes**: the size in 32 bits, and the checksum. -/
theorem fileSizeAndCrc_eq (lite : Settings) (file : List UInt8) :
    fileSizeAndCrc lite file = (file.length % 2 ^ 32, crc32 file) := by
  rw [fileSizeAndCrc, fileSizeAndCrcFrom_eq lite _ _ _ _ (Nat.lt_succ_self _) (by norm_num),
    Nat.zero_add]
  rfl

/-- The file when it is opened again: what `source_open` returns, and what each
`source_read` returns, which is at most one block. -/
structure Source (lite : Settings) where
  opened : Option Errno
  read : ℕ → Except Errno (List UInt8)
  read_le : ∀ n chunk, read n = .ok chunk → chunk.length ≤ lite.blockSize

/-- A file that stays as it was and can be read. -/
def Source.ofFile (lite : Settings) (file : List UInt8) : Source lite where
  opened := none
  read n := .ok ((file.drop (n * lite.blockSize)).take lite.blockSize)
  read_le n chunk h := by
    obtain rfl := Except.ok.inj h
    exact List.length_take_le _ _

/-- The exchange `kfsw_fwu_lite_send_file` is in, or what it returned. -/
inductive Phase
  | begin
  | block
  | verify
  | done (result : Option Errno)
  deriving DecidableEq

/-- The locals of `kfsw_fwu_lite_send_file`.  `block` counts the blocks that are done;
the 16-bit `index` is its remainder. -/
structure Sender where
  size : ℕ
  crc : UInt32
  phase : Phase
  request : Message
  block : ℕ
  sent : ℕ
  attempt : ℕ
  resent : ℕ
  deriving DecidableEq

/-- The `uint16_t index`. -/
def Sender.index (s : Sender) : UInt16 := UInt16.ofNat s.block

/-- The function returns. -/
def Sender.finish (s : Sender) (result : Option Errno) : Sender := { s with phase := .done result }

/-- The locals before the first exchange. -/
def Sender.initial (size : ℕ) (crc : UInt32) : Sender :=
  ⟨size, crc, .begin, ⟨Opcode.BEGIN.toByte, 0, 0, UInt32.ofNat size, crc, []⟩, 0, 0, 0, 0⟩

/-- `kfsw_fwu_lite_send_file` up to its first exchange.  The path may be NULL, reading the
file may fail, and the node may not accept the connection. -/
def sendFile (lite : Settings) (node : ℕ) (path : Option (Except Errno (List UInt8)))
    (connected : Bool) : Sender :=
  match path with
  | none => (Sender.initial 0 0).finish (some .EINVAL)
  | some first =>
    if node = 0 ∨ node ≥ lite.broadcast then (Sender.initial 0 0).finish (some .EINVAL)
    else
      match first with
      | .error e => (Sender.initial 0 0).finish (some e)
      | .ok file =>
        let (size, crc) := fileSizeAndCrc lite file
        if size = 0 then (Sender.initial size crc).finish (some .EINVAL)
        else if !connected then (Sender.initial size crc).finish (some .ENOTCONN)
        else Sender.initial size crc

/-- The request of a block. -/
def Sender.blockRequest (s : Sender) (chunk : List UInt8) : Message where
  opcode := Opcode.BLOCK.toByte
  status := s.request.status
  blockIndex := s.index
  argument := crc32 chunk
  extra := 0
  data := chunk

/-- The head of the block loop: read the next block, or leave the loop and ask for the
verification. -/
def Sender.nextBlock {lite : Settings} (source : Source lite) (s : Sender) : Sender :=
  if s.sent < s.size then
    match source.read s.block with
    | .error e => s.finish (some e)
    | .ok chunk =>
      if chunk.length = 0 then s.finish (some Errno.EIO)
      else { s with phase := .block, request := s.blockRequest chunk, attempt := 0 }
  else
    { s with phase := .verify, request := { s.request with opcode := Opcode.VERIFY.toByte, data := [] } }

/-- The block is done. -/
def Sender.advance {lite : Settings} (source : Source lite) (s : Sender) : Sender :=
  Sender.nextBlock source
    { s with sent := (s.sent + s.request.data.length) % 2 ^ 32, block := s.block + 1 }

/-- The block is sent again, unless that was the last try. -/
def Sender.again (lite : Settings) (s : Sender) (e : Errno) : Sender :=
  let s' := { s with attempt := s.attempt + 1, resent := (s.resent + 1) % 2 ^ 32 }
  if s.attempt + 1 > lite.retries.toNat then s'.finish (some e) else s'

/-- The node has the block: it says so, or it asks for the next one. -/
def Sender.accepted (s : Sender) (reply : Message) : Prop :=
  reply.status = Status.OK.toByte ∨
    (reply.status = Status.OUT_OF_ORDER.toByte ∧ reply.blockIndex = s.index + 1)

instance (s : Sender) (reply : Message) : Decidable (s.accepted reply) :=
  inferInstanceAs (Decidable (_ ∨ _))

/-- **One exchange is over**, with what `exchange` returned. -/
def Sender.onExchange {lite : Settings} (source : Source lite) (s : Sender)
    (result : Except Errno Message) : Sender :=
  match s.phase, result with
  | .begin, .error e => s.finish (some e)
  | .begin, .ok reply =>
    if reply.status ≠ Status.OK.toByte then s.finish (some Errno.EIO)
    else
      match source.opened with
      | some e => s.finish (some e)
      | none => s.nextBlock source
  | .block, .error .ETIMEDOUT => s.again lite .ETIMEDOUT
  | .block, .error e => s.finish (some e)
  | .block, .ok reply =>
    if s.accepted reply then s.advance source
    else if reply.status ≠ Status.BAD_BLOCK.toByte ∧ reply.status ≠ Status.OUT_OF_ORDER.toByte then
      s.finish (some Errno.EIO)
    else s.again lite Errno.EIO
  | .verify, .error e => s.finish (some e)
  | .verify, .ok reply =>
    if reply.status ≠ Status.OK.toByte then s.finish (some .EILSEQ) else s.finish none
  | .done _, _ => s

end KfswServices.Fwu.Lite
