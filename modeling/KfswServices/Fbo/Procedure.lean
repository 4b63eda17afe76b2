/-
# Procedures

`src/fbo/fbo.c`.  A procedure is a file of lines.  `run_procedure` reads it byte by byte, and
carries out a line once it is complete: a directive (`on-error`, `concurrency`, `wait-until`,
`wait`, `if-event`) or a command of the registry.  Three flags live across the lines: the error
policy, the guard that skips the next line, and the first failure.

The storage, the clocks, the event ring and the other threads are outside of this file, so a
`Host` stands for them; `World` is what its functions and the command handlers see.  The acts a
run makes are for the statements only.
-/

import KfswServices.Event.Record
import KfswServices.Fbo.Schedule

namespace KfswServices.Fbo

open Command Library

/-- What the build fixes: `CONFIG_KFSW_FBO_LINES_MAX` to `CONFIG_KFSW_FBO_EVENT_LOOKBACK`, with
the ranges of `Kconfig`. -/
structure Limits where
  linesMax : ℕ
  bytesMax : ℕ
  lineMax : ℕ
  waitMaxS : ℕ
  lookback : ℕ
  linesMax_range : 1 ≤ linesMax ∧ linesMax ≤ 4096
  bytesMax_range : 128 ≤ bytesMax ∧ bytesMax ≤ 1048576
  lineMax_range : 32 ≤ lineMax ∧ lineMax ≤ 512
  waitMaxS_range : 1 ≤ waitMaxS ∧ waitMaxS ≤ 86400
  lookback_range : 1 ≤ lookback ∧ lookback ≤ 256

/-- `INT32_MAX`. -/
abbrev int32Max : ℕ := 2147483647

/-- `KFSW_FBO_EVENT_STARTED`. -/
abbrev eventStarted : UInt16 := 1

/-- `KFSW_FBO_EVENT_LINE_FAILED`. -/
abbrev eventLineFailed : UInt16 := 2

/-- `KFSW_FBO_EVENT_FINISHED`. -/
abbrev eventFinished : UInt16 := 3

/-- `KFSW_FBO_EVENT_INTERLEAVED`. -/
abbrev eventInterleaved : UInt16 := 7

/-- `struct kfsw_fbo_status`, without what `kfsw_fbo_run` and the thread's own loop keep. -/
structure ProcedureStatus where
  name : CString
  linesRun : UInt32
  linesFailed : UInt32
  linesSkipped : UInt32
  linesInterleaved : UInt32
  refusedDirect : UInt32
  line : UInt16
  exclusive : Bool
  deriving DecidableEq

/-- The static `status`, and everything else on the node. -/
structure World (ω : Type*) where
  status : ProcedureStatus
  rest : ω

variable {ω : Type*}

/-- What the service calls: the thread it runs on, `stop_requested`, `kfsw_event_get` by age,
`kfsw_event_emit`, `k_sem_take` on `cancel` for so many milliseconds, the two clocks, and what
the other threads do while a line is carried out.  A wait that no stop cuts short takes time. -/
structure Host (ω : Type*) where
  self : Tid
  stopRequested : World ω → Bool
  events : World ω → List Event.Record
  emit : UInt16 → Event.Severity → List UInt8 → World ω → World ω
  sleep : ℕ → World ω → World ω
  clockSeconds : World ω → Except Errno ℤ
  monotonicMs : World ω → ℕ
  others : Node (World ω) → Node (World ω)
  sleep_advances : ∀ ms w, 0 < ms → stopRequested (sleep ms w) = false →
    monotonicMs w < monotonicMs (sleep ms w)

/-- The procedure's file as `fs_open`, `fs_read` and `fs_close` give it: what the first and the
last return, the bytes, and the error that reading the byte at a position gives. -/
structure ProcedureFile where
  opened : Option Errno
  content : List UInt8
  readError : ℕ → Option Errno
  closed : Option Errno

/-- A file on a storage that works. -/
def ProcedureFile.working (content : List UInt8) : ProcedureFile :=
  ⟨none, content, fun _ => none, none⟩

/-! ### One line -/

/-- Change the static `status`. -/
def updateStatus (f : ProcedureStatus → ProcedureStatus) (n : Node (World ω)) : Node (World ω) :=
  { n with world := { n.world with status := f n.world.status } }

/-- `kfsw_fbo_note`. -/
def note (h : Host ω) (id : UInt16) (severity : Event.Severity) (detail : ℕ)
    (n : Node (World ω)) : Node (World ω) :=
  { n with world := h.emit id severity (putBe16 (UInt16.ofNat detail)) n.world }

/-- `event_seen`. -/
def eventSeen (lim : Limits) (h : Host ω) (source id : UInt16) (w : World ω) : Bool :=
  ((h.events w).take lim.lookback).any fun e => e.source = source && e.id = id

/-- The argument words of `run_command_line`. -/
def parseArguments : List CString → List ArgType → Except Errno (List Arg)
  | word :: words, type :: types =>
    if word.length > maxTextSize then .error .ENAMETOOLONG
    else
      match parseArg word type with
      | .error e => .error e
      | .ok a => (parseArguments words types).map (a :: ·)
  | _, _ => .ok []

/-- `run_command_line`, with the words behind the name. -/
def runCommandLine (h : Host ω) (name : CString) (words : List CString) (n : Node (World ω)) :
    Option Errno × Node (World ω) :=
  match find n name with
  | .error e => (some e, n)
  | .ok d =>
    if words.length ≠ d.argTypes.length then (some .EINVAL, n)
    else
      match parseArguments words d.argTypes with
      | .error e => (some e, n)
      | .ok args =>
        let r := Command.invoke h.self name args n
        match r.outcome with
        | some e => (some e, r.node)
        | none => (if r.result.status = .OK then none else some Errno.EIO, r.node)

/-- `claim`. -/
def claim (h : Host ω) (exclusive : Bool) (n : Node (World ω)) :
    Option Errno × Node (World ω) :=
  match claimAcquire h.self (if exclusive then .EXCLUSIVE else .SHARED)
      (some n.world.status.name) n.claim with
  | (c, some e) => (some e, { n with claim := c })
  | (c, none) =>
    (none, updateStatus (fun st => { st with exclusive := exclusive }) { n with claim := c })

/-- The loop of `wait_until`. -/
def waitLoop (lim : Limits) (h : Host ω) (deadline : ℕ) (target tolerance : ℤ) (first : Bool)
    (w : World ω) : Option Errno × World ω :=
  if h.stopRequested w then (some .ECANCELED, w)
  else
    match h.clockSeconds w with
    | .error e => (some e, w)
    | .ok seconds =>
      if deadline ≤ h.monotonicMs w then (some .ETIMEDOUT, w)
      else if target ≤ seconds then
        (if seconds - target ≤ tolerance then none else some .ETIME, w)
      else if first ∧ target - seconds > lim.waitMaxS then (some .ERANGE, w)
      else waitLoop lim h deadline target tolerance false (h.sleep 100 w)
termination_by if h.stopRequested w then 0 else deadline + 1 - h.monotonicMs w
decreasing_by
  rename_i hstop hdeadline _ _
  have hadv := h.sleep_advances 100 w (by decide)
  rw [if_neg hstop]
  split_ifs with hwoken
  · omega
  · have := hadv (by simpa using hwoken)
    omega

/-- `wait_until`. -/
def waitUntil (lim : Limits) (h : Host ω) (target tolerance : UInt32) (n : Node (World ω)) :
    Option Errno × Node (World ω) :=
  let r := waitLoop lim h (h.monotonicMs n.world + lim.waitMaxS * 1000) target.toNat
    tolerance.toNat true n.world
  (r.1, { n with world := r.2 })

/-- A word read with `KFSW_COMMAND_TYPE_U32`. -/
def parseU32 (word : CString) : Option UInt32 :=
  match parseArg word .u32 with
  | .ok (.u32 v) => some v
  | _ => none

/-- What `run_line` leaves: its return value, the two flags, and the node. -/
structure LineRun (ω : Type*) where
  outcome : Option Errno
  skipNext : Bool
  stopOnError : Bool
  node : Node (World ω)

/-- `run_line`. -/
def runLine (lim : Limits) (h : Host ω) (text : CString) (skipNext stopOnError : Bool)
    (n : Node (World ω)) : LineRun ω :=
  match tokenise (maxArgs + 2) text with
  | [] => ⟨none, skipNext, stopOnError, n⟩
  | name :: words =>
    if words.length + 1 > maxArgs + 1 then ⟨some .E2BIG, skipNext, stopOnError, n⟩
    else if name = CString.ofString "on-error" then
      match words with
      | [policy] =>
        if policy = CString.ofString "stop" then ⟨none, skipNext, true, n⟩
        else if policy = CString.ofString "continue" then ⟨none, skipNext, false, n⟩
        else ⟨some .EINVAL, skipNext, stopOnError, n⟩
      | _ => ⟨some .EINVAL, skipNext, stopOnError, n⟩
    else if name = CString.ofString "concurrency" then
      match words with
      | [mode] =>
        if mode = CString.ofString "exclusive" then
          ⟨(claim h true n).1, skipNext, stopOnError, (claim h true n).2⟩
        else if mode = CString.ofString "shared" then
          ⟨(claim h false n).1, skipNext, stopOnError, (claim h false n).2⟩
        else ⟨some .EINVAL, skipNext, stopOnError, n⟩
      | _ => ⟨some .EINVAL, skipNext, stopOnError, n⟩
    else if name = CString.ofString "wait-until" then
      match words with
      | [target, tolerance] =>
        match parseU32 target, parseU32 tolerance with
        | some target, some tolerance =>
          if target = 0 ∨ target.toNat > int32Max ∨ tolerance.toNat > lim.waitMaxS then
            ⟨some .EINVAL, skipNext, stopOnError, n⟩
          else
            ⟨(waitUntil lim h target tolerance n).1, skipNext, stopOnError,
              (waitUntil lim h target tolerance n).2⟩
        | _, _ => ⟨some .EINVAL, skipNext, stopOnError, n⟩
      | _ => ⟨some .EINVAL, skipNext, stopOnError, n⟩
    else if name = CString.ofString "wait" then
      match words with
      | [seconds] =>
        match parseU32 seconds with
        | some seconds =>
          if seconds.toNat > lim.waitMaxS then ⟨some .EINVAL, skipNext, stopOnError, n⟩
          else
            let w := h.sleep (seconds.toNat * 1000) n.world
            ⟨if h.stopRequested w then some .ECANCELED else none, skipNext, stopOnError,
              { n with world := w }⟩
        | none => ⟨some .EINVAL, skipNext, stopOnError, n⟩
      | _ => ⟨some .EINVAL, skipNext, stopOnError, n⟩
    else if name = CString.ofString "if-event" then
      match words with
      | [source, id, verb] =>
        if verb ≠ CString.ofString "skip" then ⟨some .EINVAL, skipNext, stopOnError, n⟩
        else
          match parseU32 source, parseU32 id with
          | some source, some id =>
            if source.toNat > 65535 ∨ id.toNat > 65535 then
              ⟨some .EINVAL, skipNext, stopOnError, n⟩
            else
              ⟨none, !eventSeen lim h source.toUInt16 id.toUInt16 n.world, stopOnError, n⟩
          | _, _ => ⟨some .EINVAL, skipNext, stopOnError, n⟩
      | _ => ⟨some .EINVAL, skipNext, stopOnError, n⟩
    else
      ⟨(runCommandLine h name words n).1, skipNext, stopOnError, (runCommandLine h name words n).2⟩

/-! ### Reading a line -/

/-- The string in a buffer, once it is terminated. -/
def bufferText (used : List UInt8) : CString :=
  ⟨used.takeWhile (· ≠ 0), zero_notMem_takeWhile used⟩

/-- What `read_line` leaves: its return value, the text in `current`, what of the file is still
to be read, the bytes read so far, and `*at_end`. -/
structure LineRead where
  result : Option Errno
  text : CString
  rest : List UInt8
  bytes : ℕ
  atEnd : Bool

/-- What ends a read before its byte: a stop, or an error of `fs_read`. -/
def interrupted (file : ProcedureFile) (stop : Bool) (bytes : ℕ) : Option Errno :=
  if stop then some .ECANCELED else file.readError bytes

/-- The return value of `read_line` at the end of a line. -/
def overflowResult (overflowed : Bool) : Option Errno :=
  if overflowed then some .ENAMETOOLONG else none

/-- `read_line`, with what it has put into the buffer and whether it had to leave something out;
`stop` is `stop_requested` while it reads.  An error leaves the buffer without a terminator, and
nobody reads it then. -/
def readLine (lim : Limits) (file : ProcedureFile) (stop : Bool) :
    List UInt8 → ℕ → List UInt8 → Bool → LineRead
  | [], bytes, used, overflowed =>
    match interrupted file stop bytes with
    | some e => ⟨some e, CString.empty, [], bytes, false⟩
    | none => ⟨overflowResult overflowed, bufferText used, [], bytes, true⟩
  | c :: rest, bytes, used, overflowed =>
    match interrupted file stop bytes with
    | some e => ⟨some e, CString.empty, c :: rest, bytes, false⟩
    | none =>
      if lim.bytesMax ≤ bytes then ⟨some .EFBIG, CString.empty, rest, bytes, false⟩
      else if c = 10 then
        ⟨overflowResult overflowed, bufferText used, rest, bytes + 1, false⟩
      else if c = 13 then readLine lim file stop rest (bytes + 1) used overflowed
      else if lim.lineMax ≤ used.length + 1 then readLine lim file stop rest (bytes + 1) used true
      else readLine lim file stop rest (bytes + 1) (used ++ [c]) overflowed

/-! ### The run -/

/-- What a run does with a line of the file: it ignores it, skips it, fails it unread, runs its
text, or ends there with an error. -/
inductive Act
  | ignored
  | skipped (number : ℕ)
  | overlong (number : ℕ)
  | ran (number : ℕ) (text : CString) (outcome : Option Errno)
  | refused (e : Errno)
  deriving DecidableEq

/-- The locals of `run_procedure`, and the node. -/
structure Progress (ω : Type*) where
  lineNumber : ℕ
  skipNext : Bool
  stopOnError : Bool
  outcome : Option Errno
  intrusions : ℕ
  refusals : ℕ
  node : Node (World ω)

/-- The locals before the first line. -/
def Progress.start (n : Node (World ω)) : Progress ω := ⟨0, false, true, none, 0, 0, n⟩

/-- `line_number++`. -/
def Progress.advance (s : Progress ω) : Progress ω := { s with lineNumber := s.lineNumber + 1 }

/-- A skipped line: `skip_next = false`, and `kfsw_fbo_count_skipped`. -/
def Progress.skip (s : Progress ω) : Progress ω :=
  { s with
    skipNext := false
    node := updateStatus (fun st =>
      { st with line := UInt16.ofNat s.lineNumber, linesSkipped := st.linesSkipped + 1 }) s.node }

/-- `kfsw_fbo_count_line`. -/
def countLine (number : ℕ) (outcome : Option Errno) (n : Node (World ω)) : Node (World ω) :=
  updateStatus (fun st =>
    { st with
      line := UInt16.ofNat number
      linesRun := st.linesRun + 1
      linesFailed := if outcome = none then st.linesFailed else st.linesFailed + 1 }) n

/-- `account_for_others`, after the other threads have had their turn. -/
def Progress.accountForOthers (h : Host ω) (s : Progress ω) : Progress ω :=
  let n := h.others s.node
  let c := n.claim
  let n :=
    if c.intrusions > s.intrusions then
      note h eventInterleaved .WARNING s.lineNumber
        (updateStatus (fun st => { st with linesInterleaved := st.linesInterleaved + 1 }) n)
    else n
  { s with
    intrusions := c.intrusions
    refusals := c.refusals
    node := updateStatus (fun st =>
      { st with refusedDirect :=
          st.refusedDirect + (UInt32.ofNat c.refusals - UInt32.ofNat s.refusals) }) n }

/-- What is recorded of a line that was counted: the counters, the commands underneath it, and
an event when it failed. -/
def Progress.record (h : Host ω) (outcome : Option Errno) (s : Progress ω) : Progress ω :=
  let s := { s with node := countLine s.lineNumber outcome s.node }.accountForOthers h
  if outcome = none then s
  else { s with node := note h eventLineFailed .ERROR s.lineNumber s.node }

/-- The end of the loop's body, for a counted line: the outcome of the run, and whether it goes
on. -/
def Progress.settle (h : Host ω) (act : Act) (outcome : Option Errno) (s : Progress ω) :
    Act × Progress ω × Bool :=
  let s := s.record h outcome
  match outcome with
  | none => (act, s, true)
  | some e =>
    (act, { s with outcome := if s.outcome = none ∨ e = .ECANCELED then some e else s.outcome },
      !(s.stopOnError || e = .ECANCELED))

/-- The loop's body behind `read_line`, for a line that was complete or too long. -/
def lineStep (lim : Limits) (h : Host ω) (overlong : Bool) (text : CString) (s : Progress ω) :
    Act × Progress ω × Bool :=
  let line := text.dropWhile isBlank
  if !overlong && (line.length = 0 || line.bytes.head? = some 35) then (.ignored, s, true)
  else if s.lineNumber = lim.linesMax then
    (.refused .E2BIG, { s with outcome := some .E2BIG }, false)
  else
    let s := s.advance
    if !overlong && s.skipNext then (.skipped s.lineNumber, s.skip, true)
    else if overlong then s.settle h (.overlong s.lineNumber) (some .ENAMETOOLONG)
    else
      let r := runLine lim h line s.skipNext s.stopOnError s.node
      { s with skipNext := r.skipNext, stopOnError := r.stopOnError, node := r.node }.settle h
        (.ran s.lineNumber line r.outcome) r.outcome

/-- The loop of `run_procedure`.  Every turn takes a byte of the file or a line number, so the
turns it is called with are enough. -/
def procedureLoop (lim : Limits) (h : Host ω) (file : ProcedureFile) :
    ℕ → List UInt8 → ℕ → Bool → Progress ω → List Act × Progress ω
  | 0, _, _, _, s => ([], s)
  | turns + 1, rest, bytes, atEnd, s =>
    if atEnd then ([], s)
    else
      let r := readLine lim file (h.stopRequested s.node.world) rest bytes [] false
      if r.result ≠ none ∧ r.result ≠ some .ENAMETOOLONG then
        ((r.result.map Act.refused).toList, { s with outcome := r.result })
      else
        match lineStep lim h (r.result = some .ENAMETOOLONG) r.text s with
        | (act, s, true) =>
          let (acts, s) := procedureLoop lim h file turns r.rest r.bytes r.atEnd s
          (act :: acts, s)
        | (act, s, false) => ([act], s)

/-- A whole run: what it did with each line it came to, the value it returned, and the node it
left. -/
structure Report (ω : Type*) where
  acts : List Act
  result : Option Errno
  node : Node (World ω)

/-- `run_procedure` between `fs_open` and its loop. -/
def begin (h : Host ω) (n : Node (World ω)) : Progress ω :=
  Progress.start (note h eventStarted .INFO 0 (claim h false n).2)

/-- `run_procedure` behind its loop. -/
def finish (h : Host ω) (closed : Option Errno) (run : List Act × Progress ω) : Report ω :=
  let result := run.2.outcome.or closed
  let s := run.2.accountForOthers h
  let n := updateStatus (fun st => { st with exclusive := false })
    { s.node with claim := (claimRelease h.self s.node.claim).1 }
  ⟨run.1, result,
    note h eventFinished (if result = none then .INFO else .ERROR) s.lineNumber n⟩

/-- `run_procedure`, on the file that its path names. -/
def runProcedure (lim : Limits) (h : Host ω) (file : ProcedureFile) (n : Node (World ω)) :
    Report ω :=
  match file.opened with
  | some e => ⟨[], some e, n⟩
  | none =>
    finish h file.closed
      (procedureLoop lim h file (file.content.length + lim.linesMax + 1) file.content 0 false
        (begin h n))

end KfswServices.Fbo
