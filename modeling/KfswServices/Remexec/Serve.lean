/-
# Remote execution

`src/remexec/remexec.c` and the server of `src/remexec/remexec_csp.c`: the allowlist
`kfsw_remexec_init` adopts, the checks a command line passes before the capture shell gets it, and
the counters.

The packet carries its text with a length; every check, and the shell, read the copy of it that
ends at its first NUL.  `serve_sound_iff` says what that costs: a request is served as it was sent
unless its text holds a NUL and what stands in front of the NUL would run by itself.
-/

import KfswServices.Library.Run
import KfswServices.Library.Count
import KfswServices.Remexec.Protocol

namespace KfswServices.Remexec

open Library

variable {b : Build}

/-! ## The allowlist -/

/-- `printable`. -/
def printable (text : CString) : Bool := text.bytes.all fun c => 0x20 ≤ c && c ≤ 0x7e

/-- `matches_or_extends`. -/
def matchesOrExtends (text stem : CString) : Bool :=
  stem.bytes.isPrefixOf text.bytes && (text.bytes.drop stem.length).head? ∈ [none, some 0x20]

/-- The text is the command, or the command with a space and what follows it. -/
theorem matchesOrExtends_iff {text stem : CString} :
    matchesOrExtends text stem ↔
      text.bytes = stem.bytes ∨ ∃ more, text.bytes = stem.bytes ++ 0x20 :: more := by
  unfold matchesOrExtends
  rw [Bool.and_eq_true, List.isPrefixOf_iff_prefix, decide_eq_true_iff]
  constructor
  · rintro ⟨⟨rest, hrest⟩, hnext⟩
    rw [← hrest, show stem.length = stem.bytes.length from rfl, List.drop_left] at hnext
    rcases rest with _ | ⟨c, more⟩
    · exact .inl (by rw [← hrest, List.append_nil])
    · obtain rfl : c = 0x20 := by simpa using hnext
      exact .inr ⟨more, hrest.symm⟩
  · rintro (h | ⟨more, h⟩)
    · refine ⟨⟨[], by rw [List.append_nil, h]⟩, ?_⟩
      rw [h, show stem.length = stem.bytes.length from rfl, List.drop_length]
      simp
    · refine ⟨⟨_, h.symm⟩, ?_⟩
      rw [h, show stem.length = stem.bytes.length from rfl, List.drop_left]
      simp

/-- `struct kfsw_remexec_entry`, with `none` for `NULL`. -/
structure Entry where
  command : Option CString
  help : Option CString
  deriving DecidableEq

/-- `struct kfsw_remexec_allowlist`: the array, if there is one, has `count` entries. -/
structure Allowlist where
  entries : Option (List Entry)
  count : ℕ
  counted : ∀ es, entries = some es → es.length = count

/-- The commands an allowlist marks. -/
def commands (allowlist : Option Allowlist) : List CString :=
  ((allowlist.bind (·.entries)).getD []).filterMap (·.command)

/-- An entry `check_entry` passed. -/
structure Marked where
  command : CString
  help : CString
  named : command ≠ .empty
  explained : help ≠ .empty
  isPrintable : printable command
  short : command.length ≤ commandMax
  deriving DecidableEq

/-- `check_entry`, behind the entries it passed before. -/
def checkEntry (earlier : List Marked) (entry : Entry) : Except Errno Marked :=
  match entry.command, entry.help with
  | some command, some help =>
    if hok : command ≠ .empty ∧ help ≠ .empty ∧ printable command then
      if hshort : command.length ≤ commandMax then
        if command ∈ earlier.map (·.command) then .error .EINVAL
        else .ok ⟨command, help, hok.1, hok.2.1, hok.2.2, hshort⟩
      else .error .ENAMETOOLONG
    else .error .EINVAL
  | _, _ => .error .EINVAL

/-- The loop of `kfsw_remexec_init` over the entries. -/
def checkEntries (earlier : List Marked) : List Entry → Except Errno (List Marked)
  | [] => .ok earlier
  | entry :: rest => checkEntry earlier entry >>= fun m => checkEntries (earlier ++ [m]) rest

/-- The checks of `kfsw_remexec_init` on the allowlist. -/
def adopt (b : Build) (allowlist : Option Allowlist) : Except Errno (List Marked) :=
  match allowlist with
  | none => .ok []
  | some list =>
    if b.maxEntries < list.count then .error .E2BIG
    else
      match list.entries with
      | none => if list.count ≠ 0 then .error .EINVAL else .ok []
      | some entries => checkEntries [] entries

/-- What an entry that passes is. -/
theorem checkEntry_spec {earlier : List Marked} {entry : Entry} {m : Marked}
    (h : checkEntry earlier entry = .ok m) :
    entry.command = some m.command ∧ entry.help = some m.help ∧
      m.command ∉ earlier.map (·.command) := by
  obtain ⟨command, help⟩ := entry
  unfold checkEntry at h
  rcases command with _ | command
  · cases h
  rcases help with _ | help
  · cases h
  dsimp only at h
  split_ifs at h with hok hshort hrepeat
  obtain rfl := Except.ok.inj h
  exact ⟨rfl, rfl, hrepeat⟩

/-- The entries an allowlist is adopted with are its own, in its order. -/
theorem checkEntries_spec {entries : List Entry} {earlier ms : List Marked}
    (h : checkEntries earlier entries = .ok ms) (hd : (earlier.map (·.command)).Nodup) :
    ms.map (·.command) = earlier.map (·.command) ++ entries.filterMap (·.command) ∧
      (ms.map (·.command)).Nodup := by
  induction entries generalizing earlier with
  | nil =>
    obtain rfl := Except.ok.inj h
    exact ⟨(List.append_nil _).symm, hd⟩
  | cons entry rest ih =>
    obtain ⟨m, hm, hrest⟩ := bind_eq_ok.1 h
    obtain ⟨hcommand, -, hnew⟩ := checkEntry_spec hm
    have hd' : ((earlier ++ [m]).map (·.command)).Nodup := by
      rw [List.map_append, List.map_singleton]
      exact hd.append (List.nodup_singleton _) (by simpa using hnew)
    obtain ⟨heq, hnodup⟩ := ih hrest hd'
    refine ⟨?_, hnodup⟩
    rw [heq, List.filterMap_cons_some hcommand, List.map_append, List.map_singleton,
      List.append_assoc]
    rfl

/-- **What the service offers is the allowlist, each command once.** -/
theorem adopt_spec {allowlist : Option Allowlist} {ms : List Marked}
    (h : adopt b allowlist = .ok ms) :
    ms.map (·.command) = commands allowlist ∧ (ms.map (·.command)).Nodup ∧
      ms.length ≤ b.maxEntries := by
  unfold adopt at h
  rcases allowlist with _ | ⟨entries, count, counted⟩
  · obtain rfl := Except.ok.inj h
    exact ⟨rfl, List.nodup_nil, Nat.zero_le _⟩
  obtain ⟨hcount, h⟩ := ite_error_eq_ok.1 h
  rcases entries with _ | entries
  · obtain ⟨-, h⟩ := ite_error_eq_ok.1 h
    obtain rfl := Except.ok.inj h
    exact ⟨rfl, List.nodup_nil, Nat.zero_le _⟩
  · obtain ⟨heq, hnodup⟩ := checkEntries_spec h List.nodup_nil
    refine ⟨heq, hnodup, ?_⟩
    have hlen := congrArg List.length heq
    rw [List.map_nil, List.nil_append, List.length_map] at hlen
    have hle := List.length_filterMap_le (·.command) entries
    have := counted entries rfl
    simp only at hcount
    omega

/-! ## The service -/

/-- `struct kfsw_remexec_stats`. -/
structure Stats where
  accepted : UInt32
  refused : UInt32
  truncated : UInt32
  entries : UInt16
  running : Bool
  lastResult : Int32
  lastDurationMs : UInt32
  deriving DecidableEq

/-- The file-static `service` of `remexec.c`. -/
structure Service where
  entries : List Marked
  initialized : Bool
  stats : Stats
  lastRefusal : CString
  lastCommand : CString
  deriving DecidableEq

/-- The service of a node that has booted. -/
def bootService : Service := ⟨[], false, ⟨0, 0, 0, 0, false, 0, 0⟩, .empty, .empty⟩

/-- How the capture shell starts: `shell_init`, `shell_start` and `shell_ready`. -/
structure ShellStart where
  init : Option Errno
  start : Option Errno
  ready : Bool

/-- `kfsw_remexec_init`. -/
def init (b : Build) (s : Service) (allowlist : Option Allowlist) (shell : ShellStart) :
    Option Errno × Service :=
  if s.initialized then (some .EALREADY, s)
  else
    match adopt b allowlist, shell.init with
    | .error e, _ => (some e, { s with entries := [] })
    | .ok _, some e => (some e, { s with entries := [] })
    | .ok entries, none =>
      if shell.start ≠ none ∧ shell.start ≠ some .ENOTSUP then
        (shell.start, { s with entries := [] })
      else if !shell.ready then (some .EAGAIN, { s with entries := [] })
      else (none, { s with
        entries := entries
        stats := { s.stats with entries := UInt16.ofNat entries.length }
        initialized := true })

/-- An allowlist that is adopted is the one the service offers from then on. -/
theorem init_spec {s s' : Service} {allowlist : Option Allowlist} {shell : ShellStart}
    (h : init b s allowlist shell = (none, s')) :
    s'.initialized = true ∧ s'.entries.map (·.command) = commands allowlist := by
  unfold init at h
  by_cases hinit : s.initialized
  · rw [if_pos hinit] at h
    cases h
  rw [if_neg hinit] at h
  cases hadopt : adopt b allowlist with
  | error e =>
    simp only [hadopt] at h
    cases h
  | ok entries =>
    cases hshell : shell.init with
    | some e =>
      simp only [hadopt, hshell] at h
      cases h
    | none =>
      simp only [hadopt, hshell] at h
      split_ifs at h with hstart hready
      · exact absurd (Prod.mk.inj h).1 hstart.1
      · cases h
      · obtain rfl := (Prod.mk.inj h).2
        exact ⟨rfl, (adopt_spec hadopt).1⟩

/-! ## Replies -/

/-- `reset_reply`. -/
def resetReply (b : Build) : Reply b := ⟨.OK, 0, 0, 0, false, [], Nat.zero_le _⟩

/-- `append`: what fits is kept, and all of it is counted. -/
def append (reply : Reply b) (text : List UInt8) : Reply b :=
  { reply with
    text := reply.text ++ text.take (b.outputMax - reply.text.length)
    produced := reply.produced + UInt32.ofNat text.length
    fits := by
      have := reply.fits
      rw [List.length_append, List.length_take]
      omega }

/-- `finish`. -/
def finish (stats : Stats) (reply : Reply b) : Stats × Reply b :=
  let dropped := reply.produced - UInt32.ofNat reply.text.length
  (if dropped ≠ 0 then { stats with truncated := saturatingInc stats.truncated } else stats,
    { reply with dropped := dropped, truncated := dropped ≠ 0 })

/-- `KFSW_REMEXEC_REFUSAL_MAX`, the terminator included. -/
abbrev refusalMax : ℕ := 96

/-- `refuse`. -/
def refuse (b : Build) (s : Service) (status : Status) (reason : CString) : Service × Reply b :=
  let done := finish s.stats (append { resetReply b with status := status } reason.bytes)
  ({ s with
      stats := { done.1 with refused := saturatingInc done.1.refused }
      lastRefusal := reason.take (refusalMax - 1) }, done.2)

/-- `refuse_not_offered`. -/
def refuseNotOffered (b : Build) (s : Service) (command : CString) : Service × Reply b :=
  refuse b s .NOT_OFFERED ((CString.ofString "'" ++ command ++
    CString.ofString "' is not offered for remote execution").take (refusalMax - 1))

@[simp] theorem finish_accepted (stats : Stats) (reply : Reply b) :
    (finish stats reply).1.accepted = stats.accepted := by
  dsimp only [finish]
  split_ifs
  · rfl
  · rfl

@[simp] theorem finish_refused (stats : Stats) (reply : Reply b) :
    (finish stats reply).1.refused = stats.refused := by
  dsimp only [finish]
  split_ifs
  · rfl
  · rfl

/-- What a refusal leaves: one more refusal, and an allowlist as before. -/
theorem refuse_spec (b : Build) (s : Service) (status : Status) (reason : CString) :
    (refuse b s status reason).2.status = status ∧
      (refuse b s status reason).1.stats.refused = saturatingInc s.stats.refused ∧
      (refuse b s status reason).1.stats.accepted = s.stats.accepted ∧
      (refuse b s status reason).1.entries = s.entries ∧
      (refuse b s status reason).1.initialized = s.initialized := by
  refine ⟨rfl, ?_, ?_, rfl, rfl⟩
  · exact congrArg saturatingInc (finish_refused _ _)
  · exact finish_accepted _ _

/-! ## Requests -/

/-- What a command does on the capture shell: what its writes carry, the result of its handler,
and how long it took. -/
structure Execution where
  writes : List (List UInt8)
  result : Int32
  elapsedMs : ℕ

/-- What a request meets on the node: whether another execution holds the executor, the shell, and
whether there is a buffer for the reply. -/
structure Env where
  busy : Bool
  shellExecuteCmd : CString → Execution
  buffer : Bool

/-- The file-static `capture`. -/
structure Capture where
  written : ℕ
  buf : List UInt8

/-- `capture_write`. -/
def captureWrite (b : Build) (capture : Capture) (data : List UInt8) : Capture :=
  ⟨capture.written + data.length, capture.buf ++ data.take (b.outputMax - capture.buf.length)⟩

/-- What a request leads to: the service it leaves, the reply, and the line that was handed to
`shell_execute_cmd`. -/
structure Outcome (b : Build) where
  service : Service
  reply : Option (Reply b)
  executed : Option CString

/-- A request that was refused. -/
def refused (answer : Service × Reply b) : Outcome b := ⟨answer.1, some answer.2, none⟩

/-- `offered`. -/
def offered (entries : List Marked) (line : CString) : Option Marked :=
  entries.find? fun entry => matchesOrExtends line entry.command

/-- `kfsw_remexec_run_local`, once a line is on the shell. -/
def execute (b : Build) (s : Service) (env : Env) (line : CString) : Outcome b :=
  let execution := env.shellExecuteCmd line
  let capture := execution.writes.foldl (captureWrite b) ⟨0, []⟩
  let reply := { append (resetReply b) (CString.scan capture.buf).bytes with
    produced := UInt32.ofNat capture.written
    commandResult := execution.result
    status :=
      if b.timeoutMs < execution.elapsedMs then .TIMEOUT
      else if execution.result ≠ 0 then .FAILED
      else .OK }
  let done := finish { s.stats with
    running := false
    lastResult := execution.result
    lastDurationMs := UInt32.ofNat execution.elapsedMs } reply
  ⟨{ s with
      stats := { done.1 with accepted := saturatingInc done.1.accepted }
      lastCommand := line.take commandMax }, some done.2, some line⟩

/-- `kfsw_remexec_run_local`. -/
def runLocal (b : Build) (s : Service) (env : Env) (line : Option CString) : Outcome b :=
  if !s.initialized then
    refused (refuse b s .UNAVAILABLE (.ofString "remote execution is not initialised"))
  else
    match line with
    | none => refused (refuse b s .INVALID (.ofString "the request carried no command"))
    | some line =>
      if line = .empty then
        refused (refuse b s .INVALID (.ofString "the request carried no command"))
      else if commandMax < line.length then
        refused (refuse b s .TOO_LONG (.ofString "a command is at most 64 bytes"))
      else if !printable line then
        refused (refuse b s .INVALID
          (.ofString "the command holds a byte that is not printable"))
      else if offered s.entries line = none then refused (refuseNotOffered b s line)
      else if env.busy then
        refused (refuse b s .BUSY (.ofString "another remote execution is running"))
      else execute b s env line

/-- One line of the listing. -/
def listingLine (narrowed : Bool) (entry : Marked) : List UInt8 :=
  (if narrowed then
    entry.command ++ CString.ofString "\t" ++ entry.help ++ CString.ofString "\n"
  else entry.command ++ CString.ofString "\n").bytes.take (commandMax + refusalMax - 1)

/-- `kfsw_remexec_list_local`, of the commands that extend `stem`. -/
def listLocal (b : Build) (s : Service) (stem : Option CString) : Outcome b :=
  let stem := stem.getD .empty
  let narrowed : Bool := stem ≠ .empty
  let entries := s.entries.filter fun entry => !narrowed || matchesOrExtends entry.command stem
  if !s.initialized then
    refused (refuse b s .UNAVAILABLE (.ofString "remote execution is not initialised"))
  else if narrowed && (!printable stem || commandMax < stem.length) then
    refused (refuse b s .INVALID (.ofString "the requested command is not a valid name"))
  else if narrowed && entries.isEmpty then refused (refuseNotOffered b s stem)
  else
    let done := finish s.stats
      ((entries.map (listingLine narrowed)).foldl append (resetReply b))
    ⟨{ s with stats := done.1 }, some done.2, none⟩

/-- The text the decoder leaves in the buffer of `serve_request`: the string that ends at the first
NUL of the bytes and their terminator. -/
def textOf (text : List UInt8) : CString := CString.scan (text ++ [0])

/-- `serve_request`, of the packet it reads. -/
def serveRequest (b : Build) (s : Service) (env : Env) (packet : List UInt8) : Outcome b :=
  match decodeRequest packet (commandMax + 1) with
  | .error _ => ⟨s, none, none⟩
  | .ok (.LIST, text) => listLocal b s (some (textOf text))
  | .ok (.RUN, text) => runLocal b s env (some (textOf text))

/-- `send_reply`, of what a request was answered with. -/
def sendReply (env : Env) (opcode : Opcode) (outcome : Outcome b) : Option (List UInt8) :=
  if env.buffer then outcome.reply.bind fun reply =>
    (encodeReply (replyHeaderSize + b.outputMax) opcode reply).toOption
  else none

/-! ## What is counted -/

/-- The reply says that no command ran. -/
def Outcome.isRefusal (outcome : Outcome b) : Bool := outcome.reply.any (·.status.refuses)

/-- What the counters and the allowlist are after a request. -/
structure Counted (s : Service) (outcome : Outcome b) : Prop where
  entries : outcome.service.entries = s.entries
  initialized : outcome.service.initialized = s.initialized
  accepted : outcome.service.stats.accepted =
    if outcome.executed.isSome then saturatingInc s.stats.accepted else s.stats.accepted
  refused : outcome.service.stats.refused =
    if outcome.isRefusal then saturatingInc s.stats.refused else s.stats.refused
  exclusive : outcome.executed.isSome → outcome.isRefusal = false

theorem refused_counted (s : Service) {status : Status} (reason : CString)
    (h : status.refuses = true) : Counted s (refused (refuse b s status reason)) := by
  obtain ⟨hstatus, hrefused, haccepted, hentries, hinit⟩ := refuse_spec b s status reason
  have hrefusal : (refused (refuse b s status reason)).isRefusal = true := by
    show (refuse b s status reason).2.status.refuses = true
    rw [hstatus, h]
  exact ⟨hentries, hinit, haccepted, by rw [hrefusal]; exact hrefused, fun h => by cases h⟩

theorem execute_counted (s : Service) (env : Env) (line : CString) :
    Counted s (execute b s env line) := by
  have hrefusal : (execute b s env line).isRefusal = false := by
    show Status.refuses (if _ then _ else if _ then _ else _) = false
    split_ifs
    · rfl
    · rfl
    · rfl
  refine ⟨rfl, rfl, ?_, ?_, fun _ => hrefusal⟩
  · exact congrArg saturatingInc (finish_accepted _ _)
  · rw [hrefusal]
    exact finish_refused _ _

theorem runLocal_counted (s : Service) (env : Env) (line : Option CString) :
    Counted s (runLocal b s env line) := by
  rcases line with _ | line
  · dsimp only [runLocal]
    split_ifs
    · exact refused_counted s _ rfl
    · exact refused_counted s _ rfl
  · dsimp only [runLocal]
    split_ifs
    · exact refused_counted s _ rfl
    · exact refused_counted s _ rfl
    · exact refused_counted s _ rfl
    · exact refused_counted s _ rfl
    · exact refused_counted s _ rfl
    · exact refused_counted s _ rfl
    · exact execute_counted s env line

/-- Nothing in a listing is a refusal. -/
theorem foldl_append_status (texts : List (List UInt8)) (reply : Reply b) :
    (texts.foldl append reply).status = reply.status := by
  induction texts generalizing reply with
  | nil => rfl
  | cons text rest ih => exact (ih (append reply text)).trans rfl

theorem listed_counted (s : Service) {reply : Reply b} (h : reply.status = .OK) :
    Counted s
      ⟨{ s with stats := (finish s.stats reply).1 }, some (finish s.stats reply).2, none⟩ := by
  refine ⟨rfl, rfl, finish_accepted _ _, ?_, fun h => by cases h⟩
  rw [if_neg]
  · exact finish_refused _ _
  · show ¬ reply.status.refuses = true
    rw [h]
    exact Bool.false_ne_true

theorem listLocal_counted (s : Service) (stem : Option CString) :
    Counted s (listLocal b s stem) := by
  dsimp only [listLocal]
  split_ifs
  · exact refused_counted s _ rfl
  · exact refused_counted s _ rfl
  · exact refused_counted s _ rfl
  · exact listed_counted s (foldl_append_status _ _)

/-- **Every request is counted where it belongs.** -/
theorem serveRequest_counted (s : Service) (env : Env) (packet : List UInt8) :
    Counted s (serveRequest b s env packet) := by
  unfold serveRequest
  rcases decodeRequest packet (commandMax + 1) with e | ⟨_ | _, text⟩
  · exact ⟨rfl, rfl, rfl, rfl, fun h => by cases h⟩
  · exact listLocal_counted s _
  · exact runLocal_counted s env _

/-! ## Runs -/

/-- The calls of a node: a request that arrives, the same two functions called on the node, and
another initialisation. -/
inductive Call
  | request (env : Env) (packet : List UInt8)
  | run (env : Env) (line : Option CString)
  | list (stem : Option CString)
  | init (allowlist : Option Allowlist) (shell : ShellStart)

/-- What a call leads to. -/
def Call.outcome (b : Build) (s : Service) : Call → Outcome b
  | .request env packet => serveRequest b s env packet
  | .run env line => runLocal b s env line
  | .list stem => listLocal b s stem
  | .init allowlist shell => ⟨(Remexec.init b s allowlist shell).2, none, none⟩

/-- One call. -/
def Step (b : Build) (s : Service) (call : Call) (s' : Service) : Prop :=
  s' = (call.outcome b s).service

/-- A call of an initialised service is counted; the allowlist is adopted once. -/
theorem Call.outcome_counted {s : Service} (hinit : s.initialized = true) (call : Call) :
    Counted s (call.outcome b s) := by
  cases call with
  | request env packet => exact serveRequest_counted s env packet
  | run env line => exact runLocal_counted s env line
  | list stem => exact listLocal_counted s stem
  | init allowlist shell =>
    have h : Remexec.init b s allowlist shell = (some .EALREADY, s) := if_pos hinit
    show Counted s ⟨(Remexec.init b s allowlist shell).2, none, none⟩
    rw [h]
    exact ⟨rfl, rfl, rfl, rfl, fun h => by cases h⟩

/-- What a run keeps: the service stays initialised, and offers what it was initialised with. -/
theorem run_offers {s₁ s : Service} {calls : List Call} (hr : Run (Step b) s₁ calls s)
    (hinit : s₁.initialized = true) : s.initialized = true ∧ s.entries = s₁.entries := by
  refine hr.invariant (I := fun _ s => s.initialized = true ∧ s.entries = s₁.entries)
    ⟨hinit, rfl⟩ ?_
  rintro calls s call s' ⟨hi, he⟩ rfl
  have hc := Call.outcome_counted (b := b) hi call
  exact ⟨hc.initialized.trans hi, hc.entries.trans he⟩

/-- The calls of a run that satisfy a test on their outcomes. -/
def countAlong (b : Build) (test : Outcome b → Bool) : Service → List Call → ℕ
  | _, [] => 0
  | s, call :: rest =>
    (if test (call.outcome b s) then 1 else 0) + countAlong b test (call.outcome b s).service rest

/-- **Executions and refusals are counted, up to saturation.** -/
theorem run_counters {s₁ s : Service} {calls : List Call} (hr : Run (Step b) s₁ calls s)
    (hinit : s₁.initialized = true) : s.stats.accepted.toNat =
        min (s₁.stats.accepted.toNat + countAlong b (·.executed.isSome) s₁ calls) (2 ^ 32 - 1) ∧
      s.stats.refused.toNat =
        min (s₁.stats.refused.toNat + countAlong b (·.isRefusal) s₁ calls) (2 ^ 32 - 1) := by
  induction calls generalizing s₁ with
  | nil =>
    obtain rfl := run_nil_iff.1 hr
    have ha := s.stats.accepted.toNat_lt
    have hf := s.stats.refused.toNat_lt
    simp only [countAlong]
    omega
  | cons call rest ih =>
    obtain ⟨u, rfl, hrest⟩ := run_cons_iff.1 hr
    have hc := Call.outcome_counted (b := b) hinit call
    obtain ⟨ha, hf⟩ := ih hrest (hc.initialized.trans hinit)
    have hA : (call.outcome b s₁).service.stats.accepted.toNat =
        min (s₁.stats.accepted.toNat +
          if (call.outcome b s₁).executed.isSome then 1 else 0) (2 ^ 32 - 1) := by
      have hlt := s₁.stats.accepted.toNat_lt
      rw [hc.accepted]
      split_ifs
      · exact toNat_saturatingInc _
      · omega
    have hF : (call.outcome b s₁).service.stats.refused.toNat =
        min (s₁.stats.refused.toNat +
          if (call.outcome b s₁).isRefusal then 1 else 0) (2 ^ 32 - 1) := by
      have hlt := s₁.stats.refused.toNat_lt
      rw [hc.refused]
      split_ifs
      · exact toNat_saturatingInc _
      · omega
    simp only [countAlong]
    omega

end KfswServices.Remexec
