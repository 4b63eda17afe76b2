/-
# The command registry, the claim and dispatch

`src/command/command.c`.  The registry is frozen at startup; `dispatch` looks a
definition's arguments over, asks the claim, runs the handler and records the
outcome.  Handlers belong to the application, so a definition carries any
function of the arguments and of the rest of the node, `ω`.

The claim is the record that `check_claim`, `kfsw_command_claim_acquire` and
`kfsw_command_claim_release` read and write under `claim_lock`; each of them is
one function of the calling thread here.
-/

import KfswServices.Command.Basic

namespace KfswServices.Command

/-- `k_tid_t`: which thread runs. -/
abbrev Tid := ℕ

/-- `UINT32_MAX`, where the claim's counters stop. -/
abbrev uint32Max : ℕ := 4294967295

/-- `enum kfsw_command_claim_mode`. -/
inductive ClaimMode
  | SHARED
  | EXCLUSIVE
  deriving DecidableEq, Repr

/-- `KFSW_COMMAND_CLAIM_NAME_MAX`, the terminator included. -/
abbrev claimNameMax : ℕ := 32

/-- The static `claim` record. -/
structure Claim where
  owner : Option Tid
  mode : ClaimMode
  name : CString
  intrusions : ℕ
  refusals : ℕ
  held : Bool
  deriving DecidableEq

/-- The claim at startup. -/
def Claim.free : Claim := ⟨none, .SHARED, CString.empty, 0, 0, false⟩

/-- The claim is held by a thread other than the caller. -/
def Claim.heldByOther (c : Claim) (self : Tid) : Bool := c.held && c.owner ≠ some self

/-- `if (counter < UINT32_MAX) counter++`. -/
def saturate (n : ℕ) : ℕ := if n < uint32Max then n + 1 else n

/-- `check_claim`: the claim afterwards, and the result of a refusal. -/
def checkClaim (self : Tid) (name : CString) (c : Claim) : Claim × Option Result :=
  if c.heldByOther self then
    if c.mode = .EXCLUSIVE then
      ({ c with refusals := saturate c.refusals },
        some ⟨.BUSY, .print (name ++ CString.ofString " refused while " ++ c.name ++
          CString.ofString " runs")⟩)
    else ({ c with intrusions := saturate c.intrusions }, none)
  else (c, none)

/-- `kfsw_command_claim_acquire`; `owner` may be NULL. -/
def claimAcquire (self : Tid) (mode : ClaimMode) (owner : Option CString) (c : Claim) :
    Claim × Option Errno :=
  match owner with
  | none => (c, some .EINVAL)
  | some owner =>
    if owner.length = 0 ∨ claimNameMax ≤ owner.length then (c, some .EINVAL)
    else if c.heldByOther self then (c, some .EBUSY)
    else
      let c := if c.held then c else { c with intrusions := 0, refusals := 0 }
      ({ c with owner := some self, mode := mode, name := owner, held := true }, none)

/-- `kfsw_command_claim_release`. -/
def claimRelease (self : Tid) (c : Claim) : Claim × Option Errno :=
  if c.heldByOther self then (c, some .EPERM)
  else ({ c with held := false, owner := none }, none)

/-- `struct kfsw_command_definition`, with the fields dispatch reads.  The
handler may change the rest of the node, and leaves a return value and a
result. -/
structure Definition (ω : Type*) where
  id : UInt16
  name : CString
  argTypes : List ArgType
  handler : List Arg → Source → ω → Option Errno × Result × ω

/-- `enum kfsw_event_command_id`. -/
inductive EventId
  | INVOKED
  | UNKNOWN
  | REJECTED
  deriving DecidableEq, Repr

/-- The event `record_outcome` emits. -/
structure Event where
  id : EventId
  commandId : UInt16
  node : UInt16
  status : Status
  deriving DecidableEq

/-- The lifetime totals; `atomic_t` counters. -/
structure Totals where
  invoked : UInt32
  failed : UInt32
  unknown : UInt32
  rejected : UInt32
  deriving DecidableEq

/-- The command service of a node, and the rest of the node its handlers see. -/
structure Node (ω : Type*) where
  registry : List (Definition ω)
  ready : Bool
  claim : Claim
  totals : Totals
  events : List Event
  world : ω

variable {ω : Type*}

/-- `find_by_id`. -/
def findById (n : Node ω) (id : UInt16) : Option (Definition ω) :=
  n.registry.find? (·.id = id)

/-- `find_by_name`. -/
def findByName (n : Node ω) (name : CString) : Option (Definition ω) :=
  n.registry.find? (·.name = name)

/-- `kfsw_command_lookup_id`. -/
def lookupId (n : Node ω) (name : CString) : Except Errno UInt16 :=
  if !n.ready then .error .EACCES
  else
    match findByName n name with
    | none => .error .ENOENT
    | some d => .ok d.id

/-- `check_arguments`: count, types, and no NULL text. -/
def checkArguments (d : Definition ω) (args : List Arg) : Status :=
  if args.map Arg.type ≠ d.argTypes then .INVALID_ARGUMENT
  else if Arg.text none ∈ args then .INVALID_ARGUMENT
  else .OK

/-- The counters of `record_outcome`. -/
def Totals.record (t : Totals) (status : Status) : Totals :=
  let t := { t with invoked := t.invoked + 1 }
  if status = .UNKNOWN then { t with unknown := t.unknown + 1 }
  else if status = .DENIED then { t with rejected := t.rejected + 1 }
  else if status ≠ .OK then { t with failed := t.failed + 1 }
  else t

/-- `record_outcome`. -/
def recordOutcome (id : EventId) (commandId : UInt16) (source : Source) (status : Status)
    (n : Node ω) : Node ω :=
  { n with
    totals := n.totals.record status
    events := n.events ++ [⟨id, commandId, source.node, status⟩] }

/-- One run of a handler: what it was given and what it left. -/
structure HandlerRun where
  commandId : UInt16
  args : List Arg
  source : Source
  outcome : Option Errno
  result : Result
  deriving DecidableEq

/-- What `dispatch` leaves: the node, the result, the return value, and the
handler run if there was one. -/
structure Dispatched (ω : Type*) where
  node : Node ω
  result : Result
  outcome : Option Errno
  ran : Option HandlerRun

/-- FAILED stands in when a handler returns an error without setting a status. -/
def settle (outcome : Option Errno) (r : Result) : Result :=
  if outcome ≠ none ∧ r.status = .OK then { r with status := .FAILED } else r

/-- The part of `dispatch` behind the claim check: the handler, and its record. -/
def runHandler (d : Definition ω) (args : List Arg) (source : Source) (n : Node ω) :
    Dispatched ω :=
  let (outcome, result, world) := d.handler args source n.world
  { node := recordOutcome .INVOKED d.id source (settle outcome result).status
      { n with world := world }
    result := settle outcome result
    outcome := outcome
    ran := some ⟨d.id, args, source, outcome, result⟩ }

/-- `dispatch`, on the thread `self`. -/
def dispatch (self : Tid) (definition : Option (Definition ω)) (args : List Arg)
    (source : Source) (n : Node ω) : Dispatched ω :=
  if !n.ready then ⟨n, { Result.zero with status := .UNAVAILABLE }, some .EACCES, none⟩
  else
    match definition with
    | none =>
      ⟨recordOutcome .UNKNOWN 0 source .UNKNOWN n, { Result.zero with status := .UNKNOWN },
        some .ENOENT, none⟩
    | some d =>
      if checkArguments d args ≠ .OK then
        ⟨recordOutcome .REJECTED d.id source (checkArguments d args) n,
          { Result.zero with status := checkArguments d args }, some .EINVAL, none⟩
      else
        match checkClaim self d.name n.claim with
        | (claim, some refusal) =>
          ⟨recordOutcome .REJECTED d.id source refusal.status { n with claim := claim }, refusal,
            some .EBUSY, none⟩
        | (claim, none) => runHandler d args source { n with claim := claim }

/-- `kfsw_command_invoke_id`. -/
def invokeId (self : Tid) (id : UInt16) (args : List Arg) (source : Source) (n : Node ω) :
    Dispatched ω :=
  dispatch self (findById n id) args source n

/-- `kfsw_command_invoke`. -/
def invoke (self : Tid) (name : CString) (args : List Arg) (n : Node ω) : Dispatched ω :=
  dispatch self (findByName n name) args ⟨0, false, false⟩ n

/-- A claim refusal is never reported as success. -/
theorem checkClaim_refusal_status {self : Tid} {name : CString} {c c' : Claim} {r : Result}
    (h : checkClaim self name c = (c', some r)) : r.status = .BUSY := by
  unfold checkClaim at h
  split_ifs at h
  · obtain rfl := Option.some.inj (Prod.ext_iff.1 h).2
    rfl
  · cases (Prod.ext_iff.1 h).2
  · cases (Prod.ext_iff.1 h).2

/-- A handler run reported as a success is reported unchanged. -/
theorem runHandler_ok {d : Definition ω} {args : List Arg} {source : Source} {n : Node ω}
    (h : (runHandler d args source n).result.status = .OK) : (runHandler d args source n).ran =
      some ⟨d.id, args, source, none, (runHandler d args source n).result⟩ := by
  have hs : ¬ ((d.handler args source n.world).1 ≠ none ∧
      (d.handler args source n.world).2.1.status = .OK) := fun hs => by
    simp only [runHandler, settle, if_pos hs] at h
    cases h
  have hr : (runHandler d args source n).result = (d.handler args source n.world).2.1 := by
    simp only [runHandler, settle, if_neg hs]
  rw [hr] at h ⊢
  have hout : (d.handler args source n.world).1 = none := by
    by_contra hne
    exact hs ⟨hne, h⟩
  simp [runHandler, hout]

/-- **Success means the handler ran**, once, on these arguments, and its own
result is the one reported. -/
theorem dispatch_ok {self : Tid} {definition : Option (Definition ω)} {args : List Arg}
    {source : Source} {n : Node ω} (h : (dispatch self definition args source n).result.status = .OK) :
    ∃ d, definition = some d ∧ (dispatch self definition args source n).ran =
      some ⟨d.id, args, source, none, (dispatch self definition args source n).result⟩ := by
  cases hr : n.ready with
  | false => simp [dispatch, hr] at h
  | true =>
    cases definition with
    | none => simp [dispatch, hr] at h
    | some d =>
      by_cases hargs : checkArguments d args = .OK
      · cases hc : checkClaim self d.name n.claim with
        | mk c refusal =>
          cases refusal with
          | some r =>
            simp [dispatch, hr, hargs, hc, checkClaim_refusal_status hc] at h
          | none =>
            have he : dispatch self (some d) args source n =
                runHandler d args source { n with claim := c } := by
              simp [dispatch, hr, hargs, hc]
            rw [he] at h ⊢
            exact ⟨d, rfl, runHandler_ok h⟩
      · simp [dispatch, hr, hargs] at h

end KfswServices.Command
