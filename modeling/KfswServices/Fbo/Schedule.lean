/-
# The queue of time-tagged releases

`src/fbo/fbo_schedule.c`.  An entry is a command line with a time on one of two
clocks.  `add`, `cancel` and `clear` work on the queue for any caller; the release
thread scans it for the entry that is latest past its time, marks it RUNNING,
runs it and records the outcome.  Each of these is one critical section of
`queue_lock` in the source and one function here.

Milliseconds and seconds are integers: the sums of the source stay far inside
`int64_t`.
-/

import KfswServices.Command.Parse
import KfswServices.Library.BigEndian
import KfswServices.Library.Crc32

namespace KfswServices.Fbo

open Command Library

/-- `KFSW_FBO_SCHEDULE_LINE_MAX`, the terminator included. -/
abbrev lineMax : ℕ := 80

/-- `KFSW_FBO_SCHEDULE_DELAY_MAX_S`: a week. -/
abbrev delayMaxS : ℤ := 604800

/-- `enum kfsw_fbo_time_kind`. -/
inductive TimeKind
  | RELATIVE
  | ABSOLUTE
  deriving DecidableEq, Repr

/-- The value of a kind. -/
def TimeKind.toByte : TimeKind → UInt8
  | RELATIVE => 0
  | ABSOLUTE => 1

/-- `enum kfsw_fbo_entry_status`. -/
inductive EntryStatus
  | SCHEDULED
  | RUNNING
  | COMPLETED
  | FAILED
  | OVERDUE
  | CANCELLED
  deriving DecidableEq, Repr

/-- `struct kfsw_fbo_schedule_entry`, without the seconds left, which only a
reader fills in. -/
structure Entry where
  line : CString
  dueUtc : ℤ
  releasedUtc : ℤ
  delayS : ℤ
  contentHash : UInt32
  result : Option Errno
  node : UInt16
  index : ℕ
  commandId : UInt16
  kind : TimeKind
  status : EntryStatus
  commandStatus : Status
  deriving DecidableEq

/-- `struct slot`.  The serial number of the entry is for the statements only: each
accepted entry gets the next one. -/
structure Slot where
  entry : Entry
  dueUptimeMs : ℤ
  used : Bool
  serial : ℕ
  deriving DecidableEq

/-- A slot as `memset` leaves it. -/
def Slot.zero : Slot :=
  ⟨⟨CString.empty, 0, 0, 0, 0, none, 0, 0, 0, .RELATIVE, .SCHEDULED, .OK⟩, 0, false, 0⟩

/-- The statics of `fbo_schedule.c`. -/
structure Queue where
  slots : List Slot
  latencyS : ℕ
  releases : ℕ
  refusals : ℕ
  overdues : ℕ
  lastError : Option Errno
  deriving DecidableEq

variable {ω : Type*}

/-- What the build and the registry fix: `CONFIG_KFSW_FBO_SCHEDULE_ENTRIES`,
`CONFIG_KFSW_FBO_SCHEDULE_BURST`, `CONFIG_KFSW_COMMAND_CSP` and the frozen command
registry. -/
structure Config (ω : Type*) where
  entries : ℕ
  burst : ℕ
  csp : Bool
  node : Node ω

/-- The queue after a reset. -/
def Queue.empty (cfg : Config ω) (latencyS : ℕ) : Queue :=
  ⟨List.replicate cfg.entries Slot.zero, latencyS, 0, 0, 0, none⟩

/-! ### The text of an entry -/

/-- The characters `tokenise` splits at. -/
def isBlank (c : UInt8) : Bool := c = 32 || c = 9

/-- `tokenise`: at most `max` words of the text. -/
def tokenise : ℕ → CString → List CString
  | 0, _ => []
  | max + 1, text =>
    let rest := text.dropWhile isBlank
    if rest.length = 0 then []
    else rest.takeWhile (fun c => !isBlank c) ::
      tokenise max ((rest.dropWhile fun c => !isBlank c).drop 1)

/-- The loop of `build` over the argument words. -/
def parseWords : List CString → List ArgType → Except Errno (List Arg)
  | word :: words, type :: types =>
    if word.length > maxTextSize then .error .EINVAL
    else
      match parseArg word type with
      | .error e => .error e
      | .ok a => (parseWords words types).map (a :: ·)
  | _, _ => .ok []

/-- `build`: the command and the arguments a text names. -/
def build (n : Node ω) (text : CString) : Except Errno (Definition ω × List Arg) :=
  match tokenise (maxArgs + 2) text with
  | [] => .error .EINVAL
  | name :: words =>
    if words.length > maxArgs then .error .E2BIG
    else
      match find n name with
      | .error e => .error e
      | .ok d =>
        if words.length ≠ d.argTypes.length then .error .EINVAL
        else (parseWords words d.argTypes).map (d, ·)

/-- `content_hash`. -/
def contentHash (kind : TimeKind) (time : ℤ) (node : UInt16) (line : CString) : UInt32 :=
  crc32Update (crc32 (kind.toByte :: (putBe64 (UInt64.ofInt time) ++ (putBe16 node ++ putBe16 0))))
    line.bytes

/-! ### The callers' side -/

/-- `live`. -/
def Slot.live (s : Slot) : Bool :=
  s.used && (s.entry.status = .SCHEDULED || s.entry.status = .RUNNING)

/-- What `kfsw_fbo_schedule_add` leaves: the queue, its return value, and what it
wrote to `*index`. -/
structure Added where
  queue : Queue
  outcome : Option Errno
  index : Option ℕ
  deriving DecidableEq

/-- The wall-clock gate of an absolute entry; `utc` is the clock's reading, none
while it is not set. -/
def clockGate (kind : TimeKind) (time : ℤ) (utc : Option ℤ) (latencyS : ℕ) : Option Errno :=
  match kind with
  | .RELATIVE => none
  | .ABSOLUTE =>
    match utc with
    | none => some .ENODATA
    | some now => if now - time > latencyS then some .ETIME else none

/-- The slot a new entry is written to. -/
def newSlot (serial index : ℕ) (kind : TimeKind) (time : ℤ) (node : UInt16) (line : CString)
    (commandId : UInt16) (mono : ℤ) : Slot where
  entry :=
    { line := line
      dueUtc := if kind = .RELATIVE then 0 else time
      releasedUtc := 0
      delayS := if kind = .RELATIVE then time else 0
      contentHash := contentHash kind time node line
      result := none
      node := node
      index := index
      commandId := commandId
      kind := kind
      status := .SCHEDULED
      commandStatus := .OK }
  dueUptimeMs := if kind = .RELATIVE then mono + time * 1000 else 0
  used := true
  serial := serial

/-- The arguments of `kfsw_fbo_schedule_add`; the kind is none for a value that is
neither, and the line may be NULL. -/
structure Request where
  kind : Option TimeKind
  time : ℤ
  node : UInt16
  line : Option CString

/-- The refusals `kfsw_fbo_schedule_add` counts. -/
def Queue.refuse (q : Queue) : Queue := { q with refusals := (q.refusals + 1) % 4294967296 }

/-- `kfsw_fbo_schedule_add`, with the wall clock it read and the monotonic clock.
`serial` is the number the entry gets if it is accepted. -/
def Queue.add (cfg : Config ω) (q : Queue) (serial : ℕ) (r : Request) (utc : Option ℤ)
    (mono : ℤ) : Added :=
  match r.line, r.kind with
  | some line, some kind =>
    if line.length = 0 ∨ lineMax ≤ line.length ∨ r.time ≤ 0 ∨
        (kind = .RELATIVE ∧ r.time > delayMaxS) then ⟨q, some .EINVAL, none⟩
    else
      match clockGate kind r.time utc q.latencyS with
      | some e => ⟨q.refuse, some e, none⟩
      | none =>
        if !cfg.csp && r.node ≠ 0 then ⟨q, some .ENOTSUP, none⟩
        else
          match build cfg.node line with
          | .error e => ⟨q.refuse, some e, none⟩
          | .ok (d, _) =>
            match q.slots.findIdx? fun s =>
                s.live && s.entry.contentHash = contentHash kind r.time r.node line with
            | some i => ⟨q, some .EEXIST, some i⟩
            | none =>
              match q.slots.findIdx? fun s => !s.used with
              | none => ⟨q.refuse, some .ENOSPC, none⟩
              | some i =>
                let slot := newSlot serial i kind r.time r.node line d.id mono
                ⟨{ q with slots := q.slots.set i slot }, none, some i⟩
  | _, _ => ⟨q, some .EINVAL, none⟩

/-- Set the status of an entry. -/
def Slot.setStatus (s : Slot) (status : EntryStatus) : Slot :=
  { s with entry := { s.entry with status := status } }

/-- `kfsw_fbo_schedule_cancel`. -/
def Queue.cancel (q : Queue) (index : ℕ) : Queue × Option Errno :=
  match q.slots[index]? with
  | none => (q, some .ENOENT)
  | some s =>
    if !s.used then (q, some .ENOENT)
    else if s.entry.status ≠ .SCHEDULED then (q, some .EALREADY)
    else ({ q with slots := q.slots.set index (s.setStatus .CANCELLED) }, none)

/-- Whether `kfsw_fbo_schedule_clear` empties the slot. -/
def Slot.droppable (s : Slot) : Bool := s.used && s.entry.status ≠ .RUNNING

/-- `kfsw_fbo_schedule_clear`: the queue, and the slots dropped. -/
def Queue.clear (q : Queue) : Queue × ℕ :=
  ({ q with slots := q.slots.map fun s => if s.droppable then Slot.zero else s },
    q.slots.countP Slot.droppable)

/-- `KFSW_FBO_SCHEDULE_LATENCY_MAX_S`. -/
abbrev latencyMaxS : ℕ := 3600

/-- `kfsw_fbo_schedule_set_latency_s`, with the floor of `latency_floor_s`. -/
def Queue.setLatency (q : Queue) (floor seconds : ℕ) : Queue × Option Errno :=
  if seconds < floor ∨ seconds > latencyMaxS then (q, some .ERANGE)
  else ({ q with latencyS := seconds }, none)

/-! ### The release thread's side -/

/-- `due_now`: how late the entry is, in seconds, once it is due. -/
def Slot.dueNow (s : Slot) (mono : ℤ) (utc : Option ℤ) : Option ℤ :=
  match s.entry.kind with
  | .RELATIVE => if mono < s.dueUptimeMs then none else some ((mono - s.dueUptimeMs) / 1000)
  | .ABSOLUTE =>
    match utc with
    | none => none
    | some now => if now < s.entry.dueUtc then none else some (now - s.entry.dueUtc)

/-- What one iteration of the scan makes of a slot. -/
inductive Verdict
  /-- Not waiting, or not due. -/
  | leave
  /-- Later than the buffer. -/
  | overdue
  /-- Due, and late by so many seconds. -/
  | due (lateness : ℤ)
  deriving DecidableEq

/-- The tests of the scan. -/
def Slot.examine (s : Slot) (mono : ℤ) (utc : Option ℤ) (latencyS : ℕ) : Verdict :=
  if !s.used || s.entry.status ≠ .SCHEDULED then .leave
  else
    match s.dueNow mono utc with
    | none => .leave
    | some lateness => if lateness > latencyS then .overdue else .due lateness

/-- An entry the scan gives up. -/
def Slot.setOverdue (s : Slot) : Slot :=
  { s with entry := { s.entry with status := .OVERDUE, result := some .ETIME } }

/-- The candidate found so far, if any, is less late. -/
def outranks (lateness : ℤ) : Option (ℕ × ℤ) → Bool
  | none => true
  | some (_, earliest) => lateness > earliest

/-- The scan of `sweep` from slot `i` on, with the candidate found so far and its
lateness. -/
def scanFrom (mono : ℤ) (utc : Option ℤ) (latencyS : ℕ) :
    ℕ → List Slot → Option (ℕ × ℤ) → List Slot × Option (ℕ × ℤ)
  | _, [], best => ([], best)
  | i, s :: rest, best =>
    match s.examine mono utc latencyS with
    | .leave =>
      let (slots, best) := scanFrom mono utc latencyS (i + 1) rest best
      (s :: slots, best)
    | .overdue =>
      let (slots, best) := scanFrom mono utc latencyS (i + 1) rest best
      (s.setOverdue :: slots, best)
    | .due lateness =>
      let (slots, best) := scanFrom mono utc latencyS (i + 1) rest
        (if outranks lateness best then some (i, lateness) else best)
      (s :: slots, best)

/-- The first critical section of an iteration of `sweep`: mark what is overdue,
and choose the candidate. -/
def Queue.select (q : Queue) (mono : ℤ) (utc : Option ℤ) : Queue × Option ℕ :=
  let (slots, best) := scanFrom mono utc q.latencyS 0 q.slots none
  ({ q with
      slots := slots
      overdues := min uint32Max (q.overdues + q.slots.countP fun s =>
        s.examine mono utc q.latencyS = .overdue) }, best.map (·.1))

/-- The first critical section of `release`: mark the slot RUNNING and copy it. -/
def Queue.markRunning (q : Queue) (index : ℕ) (utc : Option ℤ) : Queue × Slot :=
  let s := q.slots.getD index Slot.zero
  let s := { s with entry := { s.entry with status := .RUNNING, releasedUtc := utc.getD 0 } }
  ({ q with slots := q.slots.set index s, releases := saturate q.releases }, s)

/-- `invoke` on the copy: `answer` is what the command's own invocation gives,
when it comes to one. -/
def invoke (cfg : Config ω) (entry : Entry) (answer : Option Errno × Status) :
    Option Errno × Status :=
  match build cfg.node entry.line with
  | .error e => (some e, .OK)
  | .ok _ => if !cfg.csp && entry.node ≠ 0 then (some .ENOTSUP, .OK) else answer

/-- The second critical section of `release`: record the outcome. -/
def Queue.record (q : Queue) (index : ℕ) (outcome : Option Errno) (status : Status) : Queue :=
  let s := q.slots.getD index Slot.zero
  let failed := outcome ≠ none ∨ status ≠ .OK
  let s := { s with entry := { s.entry with
    result := outcome
    commandStatus := status
    status := if failed then .FAILED else .COMPLETED } }
  { q with slots := q.slots.set index s, lastError := if failed then outcome else q.lastError }

/-! ### What the critical sections do -/

variable {utc : Option ℤ}

/-- A slot that is due is in use, waiting, past its time and inside the buffer. -/
theorem Slot.examine_eq_due_iff {s : Slot} {mono : ℤ} {latencyS : ℕ} {l : ℤ} :
    s.examine mono utc latencyS = .due l ↔
      s.used = true ∧ s.entry.status = .SCHEDULED ∧ s.dueNow mono utc = some l ∧ l ≤ latencyS := by
  unfold Slot.examine
  by_cases hu : s.used = true <;> by_cases hs : s.entry.status = .SCHEDULED <;> simp [hu, hs]
  cases hd : s.dueNow mono utc with
  | none => simp
  | some m =>
    by_cases hm : m > latencyS
    · simp only [if_pos hm, reduceCtorEq, Option.some.injEq, false_iff, not_and, not_le]
      rintro rfl
      exact hm
    · simp only [if_neg hm, Verdict.due.injEq, Option.some.injEq]
      constructor
      · rintro rfl
        exact ⟨rfl, not_lt.1 hm⟩
      · exact fun h => h.1

/-- A slot that is given up is in use, waiting and later than the buffer. -/
theorem Slot.examine_eq_overdue_iff {s : Slot} {mono : ℤ} {latencyS : ℕ} :
    s.examine mono utc latencyS = .overdue ↔ s.used = true ∧ s.entry.status = .SCHEDULED ∧
        ∃ l, s.dueNow mono utc = some l ∧ l > latencyS := by
  unfold Slot.examine
  by_cases hu : s.used = true <;> by_cases hs : s.entry.status = .SCHEDULED <;> simp [hu, hs]
  cases hd : s.dueNow mono utc with
  | none => simp
  | some m =>
    by_cases hm : m > latencyS
    · simp [hm]
    · simp [hm]

/-- The slots a scan leaves. -/
theorem scanFrom_slots (mono : ℤ) (utc : Option ℤ) (latencyS : ℕ) (slots : List Slot) :
    ∀ (i : ℕ) (best : Option (ℕ × ℤ)), (scanFrom mono utc latencyS i slots best).1 =
      slots.map fun s => if s.examine mono utc latencyS = .overdue then s.setOverdue else s := by
  induction slots with
  | nil => intro i best; rfl
  | cons s rest ih =>
    intro i best
    cases h : s.examine mono utc latencyS <;> simp [scanFrom, h, ih]

/-- The candidate of a scan is one it was given, or a slot that is due. -/
theorem scanFrom_best {mono : ℤ} {latencyS : ℕ} {slots : List Slot} {j : ℕ} {l : ℤ} :
    ∀ {i : ℕ} {best : Option (ℕ × ℤ)},
      (scanFrom mono utc latencyS i slots best).2 = some (j, l) → best = some (j, l) ∨
        ∃ k s, slots[k]? = some s ∧ j = i + k ∧ s.examine mono utc latencyS = .due l := by
  induction slots with
  | nil => intro i best h; exact .inl h
  | cons s rest ih =>
    intro i best h
    have hshift {best' : Option (ℕ × ℤ)}
        (h : (scanFrom mono utc latencyS (i + 1) rest best').2 = some (j, l)) :
        best' = some (j, l) ∨ ∃ k s', (s :: rest)[k]? = some s' ∧ j = i + k ∧
          s'.examine mono utc latencyS = .due l := by
      rcases ih h with hb | ⟨k, s', hk, hj, hs'⟩
      · exact .inl hb
      · exact .inr ⟨k + 1, s', by simpa using hk, by omega, hs'⟩
    cases hv : s.examine mono utc latencyS with
    | leave => exact hshift (by simpa [scanFrom, hv] using h)
    | overdue => exact hshift (by simpa [scanFrom, hv] using h)
    | due m =>
      simp only [scanFrom, hv] at h
      rcases hshift h with hb | hex
      · split at hb
        · obtain ⟨rfl, rfl⟩ : i = j ∧ m = l := by simpa using hb
          exact .inr ⟨0, s, rfl, rfl, hv⟩
        · exact .inl hb
      · exact .inr hex

/-- What `select` leaves in each slot. -/
theorem Queue.select_slots (q : Queue) (mono : ℤ) (utc : Option ℤ) :
    (q.select mono utc).1.slots = q.slots.map fun s =>
      if s.examine mono utc q.latencyS = .overdue then s.setOverdue else s := by
  rw [Queue.select, ← scanFrom_slots mono utc q.latencyS q.slots 0 none]

/-- The slot `select` chooses is due. -/
theorem Queue.select_due {q : Queue} {mono : ℤ} {i : ℕ} (h : (q.select mono utc).2 = some i) :
    ∃ s l, q.slots[i]? = some s ∧ s.examine mono utc q.latencyS = .due l ∧
      (q.select mono utc).1.slots[i]? = some s := by
  obtain ⟨⟨j, l⟩, hbest, rfl⟩ := Option.map_eq_some_iff.1 h
  rcases scanFrom_best hbest with hno | ⟨k, s, hk, hj, hs⟩
  · cases hno
  · obtain rfl : j = k := by omega
    refine ⟨s, l, hk, hs, ?_⟩
    rw [Queue.select_slots, List.getElem?_map, hk, Option.map_some, hs]
    rfl

/-- What an accepted request has passed, and the definition its line names. -/
structure Accepts (cfg : Config ω) (r : Request) (line : CString) (kind : TimeKind)
    (d : Definition ω) : Prop where
  ofLine : r.line = some line
  ofKind : r.kind = some kind
  nonempty : line.length ≠ 0
  fits : line.length < lineMax
  future : 0 < r.time
  week : kind = .RELATIVE → r.time ≤ delayMaxS
  reachable : cfg.csp = true ∨ r.node = 0
  built : ∃ args, build cfg.node line = .ok (d, args)

/-- **What an add does**: it leaves every slot as it was and fails, or it fills one
that was free, when no live entry has the content. -/
theorem Queue.add_cases (cfg : Config ω) (q : Queue) (serial : ℕ) (r : Request) (utc : Option ℤ)
    (mono : ℤ) : ((q.add cfg serial r utc mono).queue.slots = q.slots ∧
      (q.add cfg serial r utc mono).queue.latencyS = q.latencyS ∧
      (q.add cfg serial r utc mono).outcome ≠ none) ∨
    ∃ i s line kind d, q.slots[i]? = some s ∧ s.used = false ∧ Accepts cfg r line kind d ∧
      (∀ s ∈ q.slots, s.live = true → s.entry.contentHash ≠ contentHash kind r.time r.node line) ∧
      (q.add cfg serial r utc mono).queue.slots =
        q.slots.set i (newSlot serial i kind r.time r.node line d.id mono) ∧
      (q.add cfg serial r utc mono).queue.latencyS = q.latencyS ∧
      (q.add cfg serial r utc mono).outcome = none ∧
      (q.add cfg serial r utc mono).index = some i := by
  unfold Queue.add
  split
  next line kind hline hkind =>
    split
    next => exact .inl ⟨rfl, rfl, by simp⟩
    next hvalid =>
      simp only [not_or, not_and, not_le, not_lt, gt_iff_lt] at hvalid
      obtain ⟨hne, hfits, htime, hweek⟩ := hvalid
      split
      next => exact .inl ⟨rfl, rfl, by simp⟩
      next =>
        split
        next => exact .inl ⟨rfl, rfl, by simp⟩
        next hnode =>
          split
          next => exact .inl ⟨rfl, rfl, by simp⟩
          next d args hbuild =>
            split
            next => exact .inl ⟨rfl, rfl, by simp⟩
            next hdup =>
              split
              next => exact .inl ⟨rfl, rfl, by simp⟩
              next i hfree =>
                right
                obtain ⟨hi, hused, -⟩ := List.findIdx?_eq_some_iff_getElem.1 hfree
                have hreach : cfg.csp = true ∨ r.node = 0 := by
                  cases hc : cfg.csp with
                  | true => exact .inl rfl
                  | false => exact .inr (by simpa [hc] using hnode)
                refine ⟨i, q.slots[i], line, kind, d, List.getElem?_eq_getElem hi,
                  by simpa using hused,
                  ⟨hline, hkind, hne, hfits, htime, hweek, hreach, args, hbuild⟩,
                  fun s hs hlive hhash => ?_, rfl, rfl, rfl, rfl⟩
                have := List.findIdx?_eq_none_iff.1 hdup s hs
                simp [hlive, hhash] at this
  next => exact .inl ⟨rfl, rfl, by simp⟩

section

variable {cfg : Config ω} {r : Request} {line : CString} {kind : TimeKind} {d : Definition ω}
  (h : Accepts cfg r line kind d)
include h

/-- The arguments of an accepted request are valid. -/
theorem Accepts.valid :
    ¬ (line.length = 0 ∨ lineMax ≤ line.length ∨ r.time ≤ 0 ∨
      (kind = .RELATIVE ∧ r.time > delayMaxS)) := by
  rintro (h0 | h1 | h2 | ⟨h3, h4⟩)
  · exact h.nonempty h0
  · exact absurd h.fits (by omega)
  · exact absurd h.future (by omega)
  · exact absurd (h.week h3) (by omega)

/-- What an add comes to when the clock's gate refuses. -/
theorem Accepts.add_gated {q : Queue} {e : Errno}
    (hgate : clockGate kind r.time utc q.latencyS = some e) (serial : ℕ) (mono : ℤ) :
    q.add cfg serial r utc mono = ⟨q.refuse, some e, none⟩ := by
  simp only [Queue.add, h.ofLine, h.ofKind, if_neg h.valid, hgate]

/-- What an add comes to once the request has passed every test but the queue's. -/
theorem Accepts.add_eq {q : Queue}
    (hgate : clockGate kind r.time utc q.latencyS = none) (serial : ℕ) (mono : ℤ) :
    q.add cfg serial r utc mono =
      match q.slots.findIdx? fun s =>
          s.live && s.entry.contentHash = contentHash kind r.time r.node line with
      | some i => ⟨q, some .EEXIST, some i⟩
      | none =>
        match q.slots.findIdx? fun s => !s.used with
        | none => ⟨q.refuse, some .ENOSPC, none⟩
        | some i =>
          let slot := newSlot serial i kind r.time r.node line d.id mono
          ⟨{ q with slots := q.slots.set i slot }, none, some i⟩ := by
  obtain ⟨args, hbuild⟩ := h.built
  have hnode : ¬ (!cfg.csp && decide (r.node ≠ 0)) = true := by
    rcases h.reachable with hcsp | hzero
    · simp [hcsp]
    · simp [hzero]
  simp only [Queue.add, h.ofLine, h.ofKind, if_neg h.valid, hgate, hbuild]
  rw [if_neg hnode]

/-- An accepted request, when no live entry has the content and a slot is free. -/
theorem Accepts.add_eq_new {q : Queue} {i : ℕ}
    (hgate : clockGate kind r.time utc q.latencyS = none) (hnew : ∀ s ∈ q.slots, s.live = true →
      s.entry.contentHash ≠ contentHash kind r.time r.node line)
    (hfree : (q.slots.findIdx? fun s => !s.used) = some i) (serial : ℕ) (mono : ℤ) :
    q.add cfg serial r utc mono =
      ⟨{ q with slots := q.slots.set i (newSlot serial i kind r.time r.node line d.id mono) },
        none, some i⟩ := by
  have hdup : (q.slots.findIdx? fun s =>
      s.live && s.entry.contentHash = contentHash kind r.time r.node line) = none := by
    refine List.findIdx?_eq_none_iff.2 fun s hs => ?_
    cases hl : s.live with
    | false => rfl
    | true => simpa using hnew s hs hl
  rw [h.add_eq hgate, hdup, hfree]

end

/-- **What a cancel does**: it fails and changes nothing, or a waiting entry is
CANCELLED. -/
theorem Queue.cancel_cases (q : Queue) (i : ℕ) :
    ((q.cancel i).1 = q ∧ (q.cancel i).2 ≠ none) ∨
      ∃ s, q.slots[i]? = some s ∧ s.used = true ∧ s.entry.status = .SCHEDULED ∧
        (q.cancel i).1 = { q with slots := q.slots.set i (s.setStatus .CANCELLED) } ∧
        (q.cancel i).2 = none := by
  unfold Queue.cancel
  cases hs : q.slots[i]? with
  | none => exact .inl ⟨rfl, by simp⟩
  | some s =>
    by_cases hu : s.used = true
    · by_cases hst : s.entry.status = .SCHEDULED
      · exact .inr ⟨s, rfl, hu, hst, by simp [hu, hst], by simp [hu, hst]⟩
      · exact .inl (by simp [hu, hst])
    · exact .inl (by simp [hu])

end KfswServices.Fbo
