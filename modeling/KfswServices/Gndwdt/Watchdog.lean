/-
# The ground watchdog

`src/gndwdt/gndwdt.c`: unless it is fed over CSP in time, the node is reset.  The handler of the
timer evaluates the countdown, sets `resetting` and schedules the reset, one step after the other,
each under `gndwdt_lock` by itself; the callers of the service come in between.  The two work items
run on one queue, so that neither handler runs inside the other.

A stop calls a decided reset off, and a feed that is accepted keeps the node up, if neither falls
between an evaluation that expires and the mark, if no stop cancels between the mark and the
scheduling, if the service is not started while a stop is still under way, and if no stop returns
while the reset has begun (`timely_run`).
-/

import KfswServices.Command.Basic
import KfswServices.Library.Count
import KfswServices.Library.Run

namespace KfswServices.Gndwdt

open Library

/-- The build: `CONFIG_KFSW_GNDWDT_*`. -/
structure Build where
  timeoutS : UInt32
  timeoutMinS : UInt32
  timeoutMaxS : UInt32
  enabledAtStart : Bool
  timeoutMinS_range : 7200 ≤ timeoutMinS ∧ timeoutMinS ≤ 432000
  timeoutMaxS_range : timeoutMinS ≤ timeoutMaxS ∧ timeoutMaxS ≤ 432000
  timeoutS_range : timeoutMinS ≤ timeoutS ∧ timeoutS ≤ timeoutMaxS

/-- What `gndwdt_lock` protects. -/
structure State where
  lastContactMs : UInt64
  contacts : UInt32
  lastNode : UInt16
  timeoutS : UInt32
  expiries : UInt32
  enabled : Bool
  running : Bool
  resetting : Bool
  deriving DecidableEq

/-- The state at the reset. -/
def State.reset (b : Build) : State := ⟨0, 0, 0, b.timeoutS, 0, b.enabledAtStart, false, false⟩

/-- `restart_countdown`. -/
def restartCountdown (now : UInt64) (s : State) : State := { s with lastContactMs := now }

/-- `kfsw_gndwdt_start`, under the lock. -/
def start (now : UInt64) (s : State) : Option Errno × State :=
  if s.running then (some .EALREADY, s)
  else (none, restartCountdown now { s with running := true })

/-- `kfsw_gndwdt_stop`, under the lock. -/
def stop (s : State) : Option Errno × State :=
  if !s.running then (some .EALREADY, s)
  else (none, { s with running := false, resetting := false })

/-- `KFSW_GNDWDT_FEED_WORD`. -/
def feedWord : CString := CString.ofString "KFSWWSFK"

/-- What sends a command: `via_csp` and `node`. -/
structure Source where
  viaCsp : Bool
  node : UInt16

/-- `ground_wtd`: its status, and what it returns. -/
def groundWtd (text : CString) (source : Source) (now : UInt64) (s : State) :
    (Command.Status × Option Errno) × State :=
  if text = CString.ofString "get" then ((.OK, none), s)
  else if !source.viaCsp || text ≠ feedWord then ((.DENIED, some .EACCES), s)
  else if !s.running || s.resetting then ((.UNAVAILABLE, some .EAGAIN), s)
  else
    ((.OK, none), { restartCountdown now s with
      lastNode := source.node, contacts := saturatingInc s.contacts })

/-- `kfsw_gndwdt_evaluate`. -/
def evaluate (now : UInt64) (s : State) : Option Errno × State :=
  if !s.running || !s.enabled || s.resetting then (none, s)
  else if ((now - s.lastContactMs) / 1000).toNat < s.timeoutS.toNat then (none, s)
  else (some .ETIMEDOUT, restartCountdown now { s with expiries := saturatingInc s.expiries })

/-- `kfsw_gndwdt_set_timeout_s`. -/
def setTimeoutS (b : Build) (value : UInt32) (s : State) : Option Errno × State :=
  if value < b.timeoutMinS ∨ value > b.timeoutMaxS then (some .ERANGE, s)
  else (none, { s with timeoutS := value })

/-- `kfsw_gndwdt_set_enabled`. -/
def setEnabled (value : Bool) (s : State) : State := { s with enabled := value }

/-- **What an evaluation that expires finds**: a service that runs, is enabled and has not decided
on a reset. -/
theorem evaluate_expired {now : UInt64} {s : State} (h : (evaluate now s).1 = some .ETIMEDOUT) :
    s.running = true ∧ s.enabled = true ∧ s.resetting = false ∧
      (evaluate now s).2 = restartCountdown now { s with expiries := saturatingInc s.expiries } := by
  unfold evaluate at h ⊢
  by_cases hidle : (!s.running || !s.enabled || s.resetting) = true
  · rw [if_pos hidle] at h
    cases h
  · by_cases helapsed : ((now - s.lastContactMs) / 1000).toNat < s.timeoutS.toNat
    · rw [if_neg hidle, if_pos helapsed] at h
      cases h
    · rw [if_neg hidle, if_neg helapsed]
      simp only [Bool.or_eq_true, Bool.not_eq_true', not_or, Bool.not_eq_false,
        Bool.not_eq_true] at hidle
      exact ⟨hidle.1.1, hidle.1.2, hidle.2, rfl⟩

/-- An evaluation changes neither whether the service runs nor whether a reset is decided. -/
theorem evaluate_flags (now : UInt64) (s : State) :
    (evaluate now s).2.running = s.running ∧ (evaluate now s).2.resetting = s.resetting := by
  unfold evaluate
  split_ifs <;> exact ⟨rfl, rfl⟩

/-! ### The system -/

/-- Where the handler of the timer is.  A decision carries the number of the expiry that it is
about. -/
inductive Handler
  | idle
  | evaluating
  | expired (number : ℕ)
  | marked (number : ℕ)
  | finishing
  deriving DecidableEq

/-- The work item of the reset. -/
inductive Reset
  | idle
  | pending (number : ℕ)
  | begun (number : ℕ)
  deriving DecidableEq

/-- The service, with its two work items and the callers that are past the lock: those of
`kfsw_gndwdt_start` that have yet to schedule the timer, and those of `kfsw_gndwdt_stop` that have
yet to cancel the reset, and the timer.  `decided` numbers the expiries. -/
structure System where
  state : State
  timer : Bool
  starting : ℕ
  stopping : ℕ
  cancelling : ℕ
  handler : Handler
  resetWork : Reset
  decided : ℕ
  rebooted : Bool

/-- The system at the reset. -/
def System.reset (b : Build) : System := ⟨.reset b, false, 0, 0, 0, .idle, .idle, 0, false⟩

/-- What happens. -/
inductive Event
  | started
  | startRefused
  | startReturns
  | stopped
  | stopRefused
  | resetCancelled
  | stopReturns
  | set
  | fed
  | notFed (status : Command.Status)
  | timerBegins
  | notExpired
  | expired (number : ℕ)
  | marked
  | notMarked
  | resetScheduled (number : ℕ)
  | timerEnds
  | resetBegins
  | rebooted (number : ℕ)
  deriving DecidableEq

/-- A step of any thread.  After the reboot there is none. -/
inductive Step (b : Build) : System → Event → System → Prop
  | started {u : System} (now : UInt64) (hup : u.rebooted = false)
      (h : (start now u.state).1 = none) :
      Step b u .started { u with state := (start now u.state).2, starting := u.starting + 1 }
  | startRefused {u : System} (now : UInt64) (e : Errno) (hup : u.rebooted = false)
      (h : (start now u.state).1 = some e) :
      Step b u .startRefused { u with state := (start now u.state).2 }
  | startReturns {u : System} (n : ℕ) (hup : u.rebooted = false) (h : u.starting = n + 1) :
      Step b u .startReturns { u with timer := true, starting := n }
  | stopped {u : System} (hup : u.rebooted = false) (h : (stop u.state).1 = none) :
      Step b u .stopped { u with state := (stop u.state).2, stopping := u.stopping + 1 }
  | stopRefused {u : System} (e : Errno) (hup : u.rebooted = false)
      (h : (stop u.state).1 = some e) :
      Step b u .stopRefused { u with state := (stop u.state).2 }
  | resetCancelled {u : System} (n : ℕ) (hup : u.rebooted = false) (h : u.stopping = n + 1) :
      Step b u .resetCancelled
        { u with
          stopping := n
          cancelling := u.cancelling + 1
          resetWork := match u.resetWork with
            | .pending _ => .idle
            | resetWork => resetWork }
  | stopReturns {u : System} (n : ℕ) (hup : u.rebooted = false) (h : u.cancelling = n + 1) :
      Step b u .stopReturns { u with timer := false, cancelling := n }
  | setEnabled {u : System} (value : Bool) (hup : u.rebooted = false) :
      Step b u .set { u with state := setEnabled value u.state }
  | setTimeoutS {u : System} (value : UInt32) (hup : u.rebooted = false) :
      Step b u .set { u with state := (setTimeoutS b value u.state).2 }
  | fed {u : System} (source : Source) (now : UInt64) (hup : u.rebooted = false)
      (h : (groundWtd feedWord source now u.state).1 = (.OK, none)) :
      Step b u .fed { u with state := (groundWtd feedWord source now u.state).2 }
  | notFed {u : System} (text : CString) (source : Source) (now : UInt64) (status : Command.Status)
      (hup : u.rebooted = false) (hstatus : (groundWtd text source now u.state).1.1 = status)
      (h : text ≠ feedWord ∨ status ≠ .OK) :
      Step b u (.notFed status) { u with state := (groundWtd text source now u.state).2 }
  | timerBegins {u : System} (hup : u.rebooted = false) (htimer : u.timer = true)
      (h : u.handler = .idle) (hreset : ∀ k, u.resetWork ≠ .begun k) :
      Step b u .timerBegins { u with timer := false, handler := .evaluating }
  | notExpired {u : System} (now : UInt64) (hup : u.rebooted = false) (h : u.handler = .evaluating)
      (hnow : (evaluate now u.state).1 ≠ some .ETIMEDOUT) :
      Step b u .notExpired { u with state := (evaluate now u.state).2, handler := .finishing }
  | expired {u : System} (now : UInt64) (hup : u.rebooted = false) (h : u.handler = .evaluating)
      (hnow : (evaluate now u.state).1 = some .ETIMEDOUT) :
      Step b u (.expired (u.decided + 1))
        { u with
          state := (evaluate now u.state).2
          handler := .expired (u.decided + 1)
          decided := u.decided + 1 }
  | marked {u : System} (k : ℕ) (hup : u.rebooted = false) (h : u.handler = .expired k)
      (hnot : u.state.resetting = false) :
      Step b u .marked { u with state := { u.state with resetting := true }, handler := .marked k }
  | notMarked {u : System} (k : ℕ) (hup : u.rebooted = false) (h : u.handler = .expired k)
      (hyet : u.state.resetting = true) : Step b u .notMarked { u with handler := .finishing }
  | resetScheduled {u : System} (k : ℕ) (hup : u.rebooted = false) (h : u.handler = .marked k) :
      Step b u (.resetScheduled k) { u with resetWork := .pending k, handler := .finishing }
  | timerEnds {u : System} (hup : u.rebooted = false) (h : u.handler = .finishing) :
      Step b u .timerEnds
        { u with timer := if u.state.running then true else u.timer, handler := .idle }
  | resetBegins {u : System} (k : ℕ) (hup : u.rebooted = false) (h : u.resetWork = .pending k)
      (hhandler : u.handler = .idle) : Step b u .resetBegins { u with resetWork := .begun k }
  | rebooted {u : System} (k : ℕ) (hup : u.rebooted = false) (h : u.resetWork = .begun k) :
      Step b u (.rebooted k) { u with rebooted := true }

/-! ### What is asked of a history -/

/-- A start is followed by a new expiry. -/
def Rearmed (es : List Event) : Prop := ∃ as bs k, es = as ++ .started :: bs ∧ .expired k ∈ bs

/-- After a stop has returned, no reset is scheduled or executed until a start is followed by a new
expiry. -/
def CalledOff (es : List Event) : Prop :=
  ∀ as bs cs, es = as ++ .stopReturns :: (bs ++ cs) → ¬ Rearmed bs →
    ∀ k, .resetScheduled k ∉ bs ∧ .rebooted k ∉ bs

/-- No feed that was accepted is followed by a reset whose expiry was evaluated before it. -/
def KeptUp (es : List Event) : Prop :=
  ∀ as bs, es = as ++ .fed :: bs → ∀ k, .rebooted k ∈ bs → .expired k ∉ as

/-- A reset is decided, and has not been executed or called off. -/
def System.Decided (u : System) : Prop := (∃ k, u.handler = .marked k) ∨ u.resetWork ≠ .idle

/-- Unless a reset is decided, a service that runs accepts a feed. -/
def Accepting (u : System) : Prop :=
  u.state.running = true → ¬ u.Decided → ∀ source now, source.viaCsp = true →
    (groundWtd feedWord source now u.state).1 = (.OK, none)

/-- What may fall where: neither a stop nor a feed that is accepted between an evaluation that
expires and the mark, no cancel of a stop between the mark and the scheduling, no start before a
stop has returned, and no return of a stop between the beginning of the reset and the reboot. -/
def Timely (u : System) : Event → Prop
  | .stopped | .fed => ∀ k, u.handler ≠ .expired k
  | .resetCancelled => ∀ k, u.handler ≠ .marked k
  | .started => u.stopping = 0 ∧ u.cancelling = 0
  | .stopReturns => ∀ k, u.resetWork ≠ .begun k
  | _ => True

/-- A step at a time that is admitted. -/
def TimelyStep (b : Build) (u : System) (e : Event) (u' : System) : Prop :=
  Step b u e u' ∧ Timely u e

variable {b : Build}

/-! ### The invariant -/

/-- While a stop is under way the service does not run; a reset is outstanding only while
`resetting` says so, or the stop that called it off is under way. -/
structure Inv (u : System) : Prop where
  one : u.stopping + u.cancelling ≤ 1
  under : 0 < u.stopping + u.cancelling → u.state.running = false
  expired : ∀ k, u.handler = .expired k →
    u.state.running = true ∧ u.state.resetting = false ∧ u.resetWork = .idle
  marked : ∀ k, u.handler = .marked k → u.resetWork = .idle ∧
    (u.state.running = true ∧ u.state.resetting = true ∨ u.state.running = false ∧ 0 < u.stopping)
  decided : u.state.resetting = true → u.Decided
  clear : u.state.running = true → u.state.resetting = false → u.resetWork = .idle
  pending : u.state.running = false → ∀ k, u.resetWork = .pending k → 0 < u.stopping
  begun : u.state.running = false → ∀ k, u.resetWork = .begun k → 0 < u.stopping + u.cancelling
  down : u.state.running = false → u.state.resetting = false

theorem inv_reset (b : Build) : Inv (System.reset b) :=
  ⟨Nat.zero_le 1, fun _ => rfl, fun _ h => (nomatch h), fun _ h => (nomatch h), fun h => (nomatch h),
    fun h => (nomatch h), fun _ _ h => (nomatch h), fun _ _ h => (nomatch h), fun _ => rfl⟩

variable {u u' : System}

/-- A step that leaves the flags, the stops and the reset alone, and the handler outside a
decision. -/
theorem Inv.same (h : Inv u) (hrunning : u'.state.running = u.state.running)
    (hresetting : u'.state.resetting = u.state.resetting) (hstopping : u'.stopping = u.stopping)
    (hcancelling : u'.cancelling = u.cancelling) (hwork : u'.resetWork = u.resetWork)
    (hhandler : u'.handler = u.handler ∨
      (∀ k, u'.handler ≠ .expired k ∧ u'.handler ≠ .marked k ∧ u.handler ≠ .marked k)) :
    Inv u' := by
  have hdecided : u.Decided → u'.Decided := by
    rintro (⟨k, hk⟩ | hne)
    · rcases hhandler with heq | hcalm
      · exact Or.inl ⟨k, heq.trans hk⟩
      · exact absurd hk (hcalm k).2.2
    · exact Or.inr (hwork ▸ hne)
  refine ⟨?_, ?_, fun k hk => ?_, fun k hk => ?_, fun hres => ?_, ?_, ?_, ?_, ?_⟩
  · rw [hstopping, hcancelling]
    exact h.one
  · rw [hstopping, hcancelling, hrunning]
    exact h.under
  · rw [hrunning, hresetting, hwork]
    rcases hhandler with heq | hcalm
    · exact h.expired k (heq.symm.trans hk)
    · exact absurd hk (hcalm k).1
  · rw [hrunning, hresetting, hwork, hstopping]
    rcases hhandler with heq | hcalm
    · exact h.marked k (heq.symm.trans hk)
    · exact absurd hk (hcalm k).2.1
  · exact hdecided (h.decided (hresetting.symm.trans hres))
  · rw [hrunning, hresetting, hwork]
    exact h.clear
  · rw [hrunning, hwork, hstopping]
    exact h.pending
  · rw [hrunning, hwork, hstopping, hcancelling]
    exact h.begun
  · rw [hrunning, hresetting]
    exact h.down

/-- A start that is admitted finds the service down. -/
theorem start_none {now : UInt64} {s : State} (h : (start now s).1 = none) :
    s.running = false ∧ (start now s).2 = restartCountdown now { s with running := true } := by
  unfold start at h ⊢
  by_cases hrunning : s.running = true
  · rw [if_pos hrunning] at h
    cases h
  · rw [if_neg hrunning]
    exact ⟨Bool.not_eq_true _ ▸ hrunning, rfl⟩

/-- A start that is refused changes nothing. -/
theorem start_some {now : UInt64} {s : State} {e : Errno} (h : (start now s).1 = some e) :
    (start now s).2 = s := by
  unfold start at h ⊢
  split_ifs at h ⊢
  rfl

/-- A stop that is admitted finds the service up. -/
theorem stop_none {s : State} (h : (stop s).1 = none) :
    s.running = true ∧ (stop s).2 = { s with running := false, resetting := false } := by
  unfold stop at h ⊢
  by_cases hrunning : (!s.running) = true
  · rw [if_pos hrunning] at h
    cases h
  · rw [if_neg hrunning]
    exact ⟨by simpa using hrunning, rfl⟩

/-- A stop that is refused changes nothing. -/
theorem stop_some {s : State} {e : Errno} (h : (stop s).1 = some e) : (stop s).2 = s := by
  unfold stop at h ⊢
  split_ifs at h ⊢
  rfl

/-- The command changes neither whether the service runs nor whether a reset is decided. -/
theorem groundWtd_flags (text : CString) (source : Source) (now : UInt64) (s : State) :
    (groundWtd text source now s).2.running = s.running ∧
      (groundWtd text source now s).2.resetting = s.resetting := by
  unfold groundWtd
  split_ifs <;> exact ⟨rfl, rfl⟩

/-- **When a feed is accepted.** -/
theorem groundWtd_feed_iff (source : Source) (now : UInt64) (s : State) :
    (groundWtd feedWord source now s).1 = (.OK, none) ↔
      source.viaCsp = true ∧ s.running = true ∧ s.resetting = false := by
  unfold groundWtd
  rw [if_neg (by decide)]
  cases source.viaCsp <;> cases s.running <;> cases s.resetting <;> simp

/-- Changing the timeout leaves the flags alone. -/
theorem setTimeoutS_flags (b : Build) (value : UInt32) (s : State) :
    (setTimeoutS b value s).2.running = s.running ∧
      (setTimeoutS b value s).2.resetting = s.resetting := by
  unfold setTimeoutS
  split_ifs <;> exact ⟨rfl, rfl⟩

/-- **A step keeps the invariant.** -/
theorem inv_step {e : Event} (h : Inv u) (hstep : TimelyStep b u e u') : Inv u' := by
  obtain ⟨hs, htimely⟩ := hstep
  cases hs with
  | started now hup hok =>
    obtain ⟨hdown, hstate⟩ := start_none hok
    obtain ⟨hstopping, hcancelling⟩ := htimely
    have hres := h.down hdown
    have hidle : u.resetWork = .idle := by
      cases hwork : u.resetWork with
      | idle => rfl
      | pending k =>
        have := h.pending hdown k hwork
        omega
      | begun k =>
        have := h.begun hdown k hwork
        omega
    rw [hstate]
    have hcalm : ∀ k, u.handler ≠ .expired k ∧ u.handler ≠ .marked k := by
      refine fun k => ⟨fun hk => by simp [(h.expired k hk).1] at hdown, fun hk => ?_⟩
      rcases (h.marked k hk).2 with ⟨hup', -⟩ | ⟨-, hpos⟩
      · exact absurd (hup'.symm.trans hdown) (by decide)
      · omega
    refine ⟨h.one, fun hpos => ?_, fun k hk => absurd hk (hcalm k).1,
      fun k hk => absurd hk (hcalm k).2, fun hr => ?_, fun _ _ => hidle, fun hr => (nomatch hr),
      fun hr => (nomatch hr), fun hr => (nomatch hr)⟩
    · have hsum : 0 < u.stopping + u.cancelling := hpos
      omega
    · exact absurd (hres.symm.trans hr) (by decide)
  | startRefused now err hup hrefused =>
    rw [start_some hrefused]
    exact h.same rfl rfl rfl rfl rfl (Or.inl rfl)
  | startReturns n hup hn => exact h.same rfl rfl rfl rfl rfl (Or.inl rfl)
  | stopped hup hok =>
    obtain ⟨hrunning, hstate⟩ := stop_none hok
    have hnone : u.stopping + u.cancelling = 0 := by
      by_contra hpos
      have hdown := h.under (Nat.pos_of_ne_zero hpos)
      exact absurd (hrunning.symm.trans hdown) (by decide)
    rw [hstate]
    -- a reset that is marked stays so, for the cancel of this stop
    refine ⟨?_, fun _ => rfl, fun k hk => absurd hk (htimely k),
      fun k hk => ⟨(h.marked k hk).1, Or.inr ⟨rfl, Nat.succ_pos _⟩⟩, fun hr => (nomatch hr),
      fun hr => (nomatch hr), fun _ _ _ => Nat.succ_pos _, fun _ _ _ => ?_, fun _ => rfl⟩
    · show u.stopping + 1 + u.cancelling ≤ 1
      omega
    · show 0 < u.stopping + 1 + u.cancelling
      omega
  | stopRefused err hup hrefused =>
    rw [stop_some hrefused]
    exact h.same rfl rfl rfl rfl rfl (Or.inl rfl)
  | resetCancelled n hup hn =>
    have hdown := h.under (by omega)
    have hexpired : ∀ k, u.handler ≠ .expired k := fun k hk => by simp [(h.expired k hk).1] at hdown
    have hone := h.one
    refine ⟨?_, fun _ => hdown, fun k hk => absurd hk (hexpired k),
      fun k hk => absurd hk (htimely k), fun hr => ?_, fun hr => ?_, fun _ k hk => ?_,
      fun _ _ _ => ?_, fun _ => h.down hdown⟩
    · show n + (u.cancelling + 1) ≤ 1
      omega
    · exact absurd ((h.down hdown).symm.trans hr) (by decide)
    · exact absurd (hdown.symm.trans hr) (by decide)
    · -- what was pending no longer is
      revert hk
      dsimp only
      cases u.resetWork <;> exact fun hk => (nomatch hk)
    · show 0 < n + (u.cancelling + 1)
      omega
  | stopReturns n hup hn =>
    have hdown := h.under (by omega)
    have hone := h.one
    refine ⟨?_, fun _ => hdown, h.expired, h.marked, h.decided, h.clear, h.pending,
      fun _ k hk => absurd hk (htimely k), h.down⟩
    show u.stopping + n ≤ 1
    omega
  | setEnabled value hup => exact h.same rfl rfl rfl rfl rfl (Or.inl rfl)
  | setTimeoutS value hup =>
    exact h.same (setTimeoutS_flags b value u.state).1 (setTimeoutS_flags b value u.state).2 rfl rfl
      rfl (Or.inl rfl)
  | fed source now hup hok =>
    exact h.same (groundWtd_flags _ source now u.state).1 (groundWtd_flags _ source now u.state).2
      rfl rfl rfl (Or.inl rfl)
  | notFed text source now status hup hstatus hne =>
    exact h.same (groundWtd_flags text source now u.state).1
      (groundWtd_flags text source now u.state).2 rfl rfl rfl (Or.inl rfl)
  | timerBegins hup htimer hidle hreset =>
    exact h.same rfl rfl rfl rfl rfl (Or.inr fun k => ⟨by simp, by simp, by simp [hidle]⟩)
  | notExpired now hup hevaluating hnow =>
    exact h.same (evaluate_flags now u.state).1 (evaluate_flags now u.state).2 rfl rfl rfl
      (Or.inr fun k => ⟨by simp, by simp, by simp [hevaluating]⟩)
  | expired now hup hevaluating hnow =>
    obtain ⟨hrunning, -, hres, hstate⟩ := evaluate_expired hnow
    rw [hstate]
    refine ⟨h.one, h.under, fun k _ => ⟨hrunning, hres, h.clear hrunning hres⟩,
      fun k hk => (nomatch hk), fun hr => absurd (hres.symm.trans hr) (by decide), h.clear,
      h.pending, h.begun, h.down⟩
  | marked k hup hexpired hnot =>
    obtain ⟨hrunning, -, hidle⟩ := h.expired k hexpired
    exact ⟨h.one, h.under, fun k hk => (nomatch hk), fun k _ => ⟨hidle, Or.inl ⟨hrunning, rfl⟩⟩,
      fun _ => Or.inl ⟨k, rfl⟩, fun _ _ => hidle, h.pending, h.begun,
      fun hr => absurd (hrunning.symm.trans hr) (by decide)⟩
  | notMarked k hup hexpired hyet =>
    exact absurd ((h.expired k hexpired).2.1.symm.trans hyet) (by decide)
  | resetScheduled k hup hmarked =>
    refine ⟨h.one, h.under, fun k hk => (nomatch hk), fun k hk => (nomatch hk),
      fun _ => Or.inr (by simp), fun hr hres => ?_, fun hr _ _ => ?_, fun hr _ hk => (nomatch hk),
      h.down⟩
    · rcases (h.marked k hmarked).2 with ⟨-, hres'⟩ | ⟨hdown, -⟩
      · exact absurd (hres'.symm.trans hres) (by decide)
      · exact absurd (hdown.symm.trans hr) (by decide)
    · rcases (h.marked k hmarked).2 with ⟨hrunning, -⟩ | ⟨-, hpos⟩
      · exact absurd (hrunning.symm.trans hr) (by decide)
      · exact hpos
  | timerEnds hup hfinishing =>
    exact h.same rfl rfl rfl rfl rfl (Or.inr fun k => ⟨by simp, by simp, by simp [hfinishing]⟩)
  | resetBegins k hup hpending hidle =>
    refine ⟨h.one, h.under, fun k hk => ?_, fun k hk => ?_, fun _ => Or.inr (by simp),
      fun hr hres => ?_, fun _ k hk => (nomatch hk), fun hr k _ => ?_, h.down⟩
    · exact absurd (hidle.symm.trans hk) (by simp)
    · exact absurd (hidle.symm.trans hk) (by simp)
    · exact absurd ((h.clear hr hres).symm.trans hpending) (by simp)
    · exact Nat.add_pos_left (h.pending hr _ hpending) _
  | rebooted k hup hbegun => exact h.same rfl rfl rfl rfl rfl (Or.inl rfl)

variable {es : List Event}

/-- **A run keeps the invariant.** -/
theorem inv_run (hr : Run (TimelyStep b) (System.reset b) es u) : Inv u :=
  hr.invariant (I := fun _ u => Inv u) (inv_reset b) fun _ _ _ _ => inv_step

/-! ### After a stop -/

/-- Nothing is decided, and no decision is under way. -/
def System.Calm (u : System) : Prop :=
  (∀ k, u.handler ≠ .expired k ∧ u.handler ≠ .marked k) ∧ u.resetWork = .idle

/-- **Without a new expiry** nothing is scheduled or executed. -/
theorem calm_step {e : Event} (h : u.Calm) (hstep : Step b u e u') (hne : ∀ k, e ≠ .expired k) :
    u'.Calm ∧ ∀ k, e ≠ .resetScheduled k ∧ e ≠ .rebooted k := by
  obtain ⟨hhandler, hwork⟩ := h
  cases hstep with
  | resetCancelled n hup hn =>
    refine ⟨⟨hhandler, ?_⟩, fun k => ⟨by simp, by simp⟩⟩
    show (match u.resetWork with | .pending _ => Reset.idle | resetWork => resetWork) = .idle
    rw [hwork]
  | timerBegins | notExpired | timerEnds =>
    exact ⟨⟨fun k => ⟨by simp, by simp⟩, hwork⟩, fun k => ⟨by simp, by simp⟩⟩
  | expired => exact absurd rfl (hne _)
  | marked k hup hexpired => exact absurd hexpired (hhandler k).1
  | notMarked k hup hexpired => exact absurd hexpired (hhandler k).1
  | resetScheduled k hup hmarked => exact absurd hmarked (hhandler k).2
  | resetBegins k hup hpending => exact absurd (hwork.symm.trans hpending) (by simp)
  | rebooted k hup hbegun => exact absurd (hwork.symm.trans hbegun) (by simp)
  | _ => exact ⟨⟨hhandler, hwork⟩, fun k => ⟨by simp, by simp⟩⟩

/-- Without a start the service stays down. -/
theorem down_step {e : Event} (h : u.state.running = false) (hstep : Step b u e u')
    (hne : e ≠ .started) : u'.state.running = false := by
  cases hstep with
  | started => exact absurd rfl hne
  | startRefused now err hup hrefused => rwa [start_some hrefused]
  | stopped hup hok => rw [(stop_none hok).2]
  | stopRefused err hup hrefused => rwa [stop_some hrefused]
  | setTimeoutS value hup => exact (setTimeoutS_flags b value u.state).1.trans h
  | fed source now hup hok => exact (groundWtd_flags _ source now u.state).1.trans h
  | notFed text source now => exact (groundWtd_flags text source now u.state).1.trans h
  | notExpired now => exact (evaluate_flags now u.state).1.trans h
  | expired now => exact (evaluate_flags now u.state).1.trans h
  | _ => exact h

/-- A history that goes on without being rearmed was not rearmed. -/
theorem Rearmed.concat (h : Rearmed es) (e : Event) : Rearmed (es ++ [e]) := by
  obtain ⟨as, bs, k, rfl, hk⟩ := h
  exact ⟨as, bs ++ [e], k, by simp, List.mem_append_left _ hk⟩

/-- From a calm state where the service is down, until it is rearmed. -/
theorem calm_run {m : System} (hr : Run (Step b) m es u) (hcalm : m.Calm)
    (hdown : m.state.running = false) (hnot : ¬ Rearmed es) :
    u.Calm ∧ (.started ∉ es → u.state.running = false) ∧
      ∀ k, .resetScheduled k ∉ es ∧ .rebooted k ∉ es := by
  induction hr with
  | nil => exact ⟨hcalm, fun _ => hdown, fun k => ⟨by simp, by simp⟩⟩
  | @snoc t u es e hr hs ih =>
    obtain ⟨hcalm', hdown', hquiet⟩ := ih fun h => hnot (h.concat e)
    -- an evaluation expires only if the service runs, so after a start
    have hne : ∀ k, e ≠ .expired k := by
      rintro k rfl
      refine hnot ?_
      by_cases hstart : .started ∈ es
      · obtain ⟨as, bs, rfl⟩ := List.append_of_mem hstart
        exact ⟨as, bs ++ [.expired k], k, by simp, by simp⟩
      · cases hs with
        | expired now hup hevaluating hnow =>
          exact absurd ((evaluate_expired hnow).1.symm.trans (hdown' hstart)) (by decide)
    obtain ⟨hcalm'', he⟩ := calm_step hcalm' hs hne
    refine ⟨hcalm'', fun hmem => ?_, fun k => ⟨fun hk => ?_, fun hk => ?_⟩⟩
    · rw [List.mem_append, List.mem_singleton, not_or] at hmem
      exact down_step (hdown' hmem.1) hs (Ne.symm hmem.2)
    · rcases List.mem_append.1 hk with hk | hk
      · exact (hquiet k).1 hk
      · exact (he k).1 (List.mem_singleton.1 hk).symm
    · rcases List.mem_append.1 hk with hk | hk
      · exact (hquiet k).2 hk
      · exact (he k).2 (List.mem_singleton.1 hk).symm

/-- When a stop returns, all is calm. -/
theorem calm_of_stopReturns (h : Inv u) (hstep : TimelyStep b u .stopReturns u') :
    u'.Calm ∧ u'.state.running = false := by
  obtain ⟨hs, htimely⟩ := hstep
  cases hs with
  | stopReturns n hup hn =>
    have hdown := h.under (by omega)
    have hone := h.one
    refine ⟨⟨fun k => ⟨fun hk => ?_, fun hk => ?_⟩, ?_⟩, hdown⟩
    · exact absurd ((h.expired k hk).1.symm.trans hdown) (by decide)
    · rcases (h.marked k hk).2 with ⟨hrunning, -⟩ | ⟨-, hpos⟩
      · exact absurd (hrunning.symm.trans hdown) (by decide)
      · omega
    · show u.resetWork = .idle
      cases hwork : u.resetWork with
      | idle => rfl
      | pending k =>
        have hpos := h.pending hdown k hwork
        omega
      | begun k => exact absurd hwork (htimely k)

/-! ### After a feed -/

/-- A reset is outstanding. -/
def System.Outstanding (u : System) (k : ℕ) : Prop :=
  u.handler = .expired k ∨ u.handler = .marked k ∨ u.resetWork = .pending k ∨ u.resetWork = .begun k

/-- **What a step leaves outstanding** was outstanding, or expires in it; what is executed was
outstanding. -/
theorem outstanding_step {e : Event} (hstep : Step b u e u') :
    u.decided ≤ u'.decided ∧ (∀ k, e = .expired k → k = u'.decided) ∧
      (∀ k, e = .rebooted k → u.Outstanding k) ∧
        ∀ k, u'.Outstanding k → u.Outstanding k ∨ u.decided < k := by
  cases hstep with
  | resetCancelled n hup hn =>
    refine ⟨le_rfl, fun k hk => (nomatch hk), fun k hk => (nomatch hk), fun k hk => Or.inl ?_⟩
    revert hk
    unfold System.Outstanding
    dsimp only
    cases u.resetWork with
    | pending k' => exact fun hk => by simpa using Or.imp_right (Or.imp_right fun h => by simp at h) hk
    | _ => exact id
  | timerBegins | notExpired | timerEnds | notMarked =>
    -- the handler goes where nothing is decided
    exact ⟨le_rfl, fun k hk => (nomatch hk), fun k hk => (nomatch hk), fun k hk =>
      Or.inl (Or.inr (Or.inr ((hk.resolve_left (by simp)).resolve_left (by simp))))⟩
  | expired now hup hevaluating hnow =>
    refine ⟨Nat.le_succ _, fun k hk => (Event.expired.inj hk).symm, fun k hk => (nomatch hk),
      fun k hk => ?_⟩
    rcases hk with hk | hk | hk
    · obtain rfl := Handler.expired.inj hk
      exact Or.inr (Nat.lt_succ_self _)
    · exact (nomatch hk)
    · exact Or.inl (Or.inr (Or.inr hk))
  | marked k' hup hexpired hnot =>
    refine ⟨le_rfl, fun k hk => (nomatch hk), fun k hk => (nomatch hk), fun k hk => Or.inl ?_⟩
    rcases hk with hk | hk | hk
    · exact (nomatch hk)
    · obtain rfl := Handler.marked.inj hk
      exact Or.inl hexpired
    · exact Or.inr (Or.inr hk)
  | resetScheduled k' hup hmarked =>
    refine ⟨le_rfl, fun k hk => (nomatch hk), fun k hk => (nomatch hk), fun k hk => Or.inl ?_⟩
    rcases hk with hk | hk | hk | hk
    · exact (nomatch hk)
    · exact (nomatch hk)
    · obtain rfl := Reset.pending.inj hk
      exact Or.inr (Or.inl hmarked)
    · exact (nomatch hk)
  | resetBegins k' hup hpending hidle =>
    refine ⟨le_rfl, fun k hk => (nomatch hk), fun k hk => (nomatch hk), fun k hk => Or.inl ?_⟩
    rcases hk with hk | hk | hk | hk
    · exact Or.inl hk
    · exact Or.inr (Or.inl hk)
    · exact (nomatch hk)
    · obtain rfl := Reset.begun.inj hk
      exact Or.inr (Or.inr (Or.inl hpending))
  | rebooted k' hup hbegun =>
    refine ⟨le_rfl, fun k hk => (nomatch hk), fun k hk => ?_, fun k hk => Or.inl hk⟩
    obtain rfl := Event.rebooted.inj hk
    exact Or.inr (Or.inr (Or.inr hbegun))
  | _ => exact ⟨le_rfl, fun k hk => (nomatch hk), fun k hk => (nomatch hk), fun k hk => Or.inl hk⟩

/-- The expiries of a history are numbered up to `decided`. -/
theorem expired_le {m : System} (hr : Run (Step b) m es u) :
    m.decided ≤ u.decided ∧ ∀ k, .expired k ∈ es → k ≤ u.decided := by
  induction hr with
  | nil => exact ⟨le_rfl, by simp⟩
  | @snoc t u es e hr hs ih =>
    obtain ⟨hle, hexpired, -, -⟩ := outstanding_step hs
    refine ⟨le_trans ih.1 hle, fun k hk => ?_⟩
    rcases List.mem_append.1 hk with hk | hk
    · exact le_trans (ih.2 k hk) hle
    · exact le_of_eq (hexpired k (List.mem_singleton.1 hk).symm)

/-- What is executed expired after a state with nothing outstanding. -/
theorem rebooted_gt {m : System} (hr : Run (Step b) m es u) (hnone : ∀ k, ¬ m.Outstanding k) :
    (∀ k, u.Outstanding k → m.decided < k) ∧ ∀ k, .rebooted k ∈ es → m.decided < k := by
  induction hr with
  | nil => exact ⟨fun k hk => absurd hk (hnone k), by simp⟩
  | @snoc t u es e hr hs ih =>
    obtain ⟨-, -, hrebooted, hout⟩ := outstanding_step hs
    have hle := (expired_le hr).1
    refine ⟨fun k hk => ?_, fun k hk => ?_⟩
    · rcases hout k hk with hk | hlt
      · exact ih.1 k hk
      · exact lt_of_le_of_lt hle hlt
    · rcases List.mem_append.1 hk with hk | hk
      · exact ih.2 k hk
      · exact ih.1 k (hrebooted k (List.mem_singleton.1 hk).symm)

/-- When a feed is accepted in time, nothing is outstanding. -/
theorem not_outstanding_of_fed (h : Inv u) (hstep : TimelyStep b u .fed u') (k : ℕ) :
    ¬ u.Outstanding k := by
  obtain ⟨hs, htimely⟩ := hstep
  cases hs with
  | fed source now hup hok =>
    obtain ⟨-, hrunning, hres⟩ := (groundWtd_feed_iff source now u.state).1 hok
    have hidle := h.clear hrunning hres
    rintro (hk | hk | hk | hk)
    · exact htimely k hk
    · rcases (h.marked k hk).2 with ⟨-, hres'⟩ | ⟨hdown, -⟩
      · exact absurd (hres.symm.trans hres') (by decide)
      · exact absurd (hrunning.symm.trans hdown) (by decide)
    · exact absurd (hidle.symm.trans hk) (by simp)
    · exact absurd (hidle.symm.trans hk) (by simp)

/-! ### The result -/

/-- A run of steps at times that are admitted is a run. -/
theorem run_of_timely (hr : Run (TimelyStep b) u es u') :
    Run (Step b) u es u' := hr.mono fun _ _ _ h => h.1

/-- **A ground watchdog that is called off does not reset the node**, in every run whose steps fall
at times that are admitted: nothing is scheduled or executed after a stop has returned, until a new
expiry; no feed that was accepted is followed by a reset that expired before it; and a service that
runs accepts a feed unless a reset is decided. -/
theorem timely_run {es : List Event} {u : System}
    (hr : Run (TimelyStep b) (System.reset b) es u) : CalledOff es ∧ KeptUp es ∧ Accepting u := by
  refine ⟨fun as bs cs hsplit hnot k => ?_, fun as bs hsplit k hk hexpired => ?_,
    fun hrunning hnot source now hcsp => ?_⟩
  · subst hsplit
    obtain ⟨m, m', has, hstop, hrest⟩ := run_split_iff.1 hr
    obtain ⟨n, hbs, -⟩ := run_append_iff.1 hrest
    obtain ⟨hcalm, hdown⟩ := calm_of_stopReturns (inv_run has) hstop
    exact (calm_run (run_of_timely hbs) hcalm hdown hnot).2.2 k
  · subst hsplit
    obtain ⟨m, m', has, hfed, hbs⟩ := run_split_iff.1 hr
    have hnone := not_outstanding_of_fed (inv_run has) hfed
    have hlt := (rebooted_gt (run_of_timely (Run.cons hfed hbs)) hnone).2 k
      (List.mem_cons_of_mem _ hk)
    have hle := (expired_le (run_of_timely has)).2 k hexpired
    omega
  · refine (groundWtd_feed_iff source now u.state).2 ⟨hcsp, hrunning, ?_⟩
    by_contra hres
    exact hnot ((inv_run hr).decided (by simpa using hres))

/-! ### Two hours of silence -/

/-- A timeout of two hours. -/
def sampleBuild : Build := ⟨7200, 7200, 432000, true, by decide, by decide, by decide⟩

/-- A feed over CSP. -/
def sampleSource : Source := ⟨true, 10⟩

/-- The node is silent for two hours, and the service is stopped between the mark and the scheduling;
the cancel calls the reset off.  The service is started again, and accepts a feed. -/
theorem timely_run_stopped : ∃ es u, Run (TimelyStep sampleBuild) (System.reset sampleBuild) es u ∧
    es = [.started, .startReturns, .timerBegins, .expired 1, .marked, .stopped, .resetScheduled 1,
      .timerEnds, .resetCancelled, .stopReturns, .started, .startReturns, .fed] ∧
    u.state.running = true ∧ ¬ u.Decided ∧ CalledOff es ∧ KeptUp es ∧ Accepting u := by
  have hr : Run (TimelyStep sampleBuild) (System.reset sampleBuild) _ _ := .cons
    ⟨.started 0 rfl rfl, rfl, rfl⟩ (.cons ⟨.startReturns 0 rfl rfl, trivial⟩ (.cons
    ⟨.timerBegins rfl rfl rfl fun k => by simp [System.reset], trivial⟩ (.cons
    ⟨.expired 7200000 rfl rfl (by decide), trivial⟩ (.cons ⟨.marked 1 rfl rfl (by decide), trivial⟩
    (.cons ⟨.stopped rfl (by decide), fun k => by simp⟩ (.cons
    ⟨.resetScheduled 1 rfl rfl, trivial⟩ (.cons ⟨.timerEnds rfl rfl, trivial⟩ (.cons
    ⟨.resetCancelled 0 rfl rfl, fun k => by simp⟩ (.cons
    ⟨.stopReturns 0 rfl rfl, fun k => by simp⟩ (.cons ⟨.started 7201000 rfl (by decide), rfl, rfl⟩
    (.cons ⟨.startReturns 0 rfl rfl, trivial⟩ (.cons
    ⟨.fed sampleSource 7202000 rfl (by decide), fun k => by simp⟩ (.nil _)))))))))))))
  refine ⟨_, _, hr, rfl, by decide, ?_, timely_run hr⟩
  rintro (⟨k, hk⟩ | hne)
  · cases hk
  · exact hne rfl

/-- A stop between the evaluation and the mark returns, and the reset is scheduled. -/
theorem stop_missed : ∃ u, Run (Step sampleBuild) (System.reset sampleBuild)
    [.started, .startReturns, .timerBegins, .expired 1, .stopped, .resetCancelled, .stopReturns,
      .marked, .resetScheduled 1] u :=
  ⟨_, .cons (.started 0 rfl rfl) (.cons (.startReturns 0 rfl rfl) (.cons
    (.timerBegins rfl rfl rfl fun k => by simp [System.reset]) (.cons
    (.expired 7200000 rfl rfl (by decide)) (.cons (.stopped rfl (by decide)) (.cons
    (.resetCancelled 0 rfl rfl) (.cons (.stopReturns 0 rfl rfl) (.cons
    (.marked 1 rfl rfl (by decide)) (.cons (.resetScheduled 1 rfl rfl) (.nil _)))))))))⟩

/-- A feed between the evaluation and the mark is accepted, and the node is reset. -/
theorem feed_missed : ∃ u, Run (Step sampleBuild) (System.reset sampleBuild)
    [.started, .startReturns, .timerBegins, .expired 1, .fed, .marked, .resetScheduled 1,
      .timerEnds, .resetBegins, .rebooted 1] u :=
  ⟨_, .cons (.started 0 rfl rfl) (.cons (.startReturns 0 rfl rfl) (.cons
    (.timerBegins rfl rfl rfl fun k => by simp [System.reset]) (.cons
    (.expired 7200000 rfl rfl (by decide)) (.cons (.fed sampleSource 7200000 rfl (by decide)) (.cons
    (.marked 1 rfl rfl (by decide)) (.cons (.resetScheduled 1 rfl rfl) (.cons (.timerEnds rfl rfl)
    (.cons (.resetBegins 1 rfl rfl rfl) (.cons (.rebooted 1 rfl rfl) (.nil _))))))))))⟩

/-- A service that is stopped between the evaluation and the mark, and started again, refuses every
feed from then on. -/
theorem feed_refused : ∃ es u, Run (Step sampleBuild) (System.reset sampleBuild) es u ∧
    ¬ Accepting u := by
  refine ⟨_, _, .cons (.started 0 rfl rfl) (.cons (.startReturns 0 rfl rfl) (.cons
    (.timerBegins rfl rfl rfl fun k => by simp [System.reset]) (.cons
    (.expired 7200000 rfl rfl (by decide)) (.cons (.stopped rfl (by decide)) (.cons
    (.marked 1 rfl rfl (by decide)) (.cons (.resetScheduled 1 rfl rfl) (.cons (.timerEnds rfl rfl)
    (.cons (.resetCancelled 0 rfl rfl) (.cons (.stopReturns 0 rfl rfl) (.cons
    (.started 7201000 rfl (by decide)) (.nil _))))))))))), fun h => ?_⟩
  refine absurd (h (by decide) ?_ sampleSource 7201000 rfl) (by decide)
  rintro (⟨k, hk⟩ | hne)
  · cases hk
  · exact hne rfl

/-- None of it holds of every run. -/
theorem watchdog_races :
    (¬ ∀ es u, Run (Step sampleBuild) (System.reset sampleBuild) es u → CalledOff es) ∧
    (¬ ∀ es u, Run (Step sampleBuild) (System.reset sampleBuild) es u → KeptUp es) ∧
    ¬ ∀ es u, Run (Step sampleBuild) (System.reset sampleBuild) es u → Accepting u := by
  refine ⟨fun h => ?_, fun h => ?_, fun h => ?_⟩
  · obtain ⟨u, hr⟩ := stop_missed
    have hnot : ¬ Rearmed [.marked, .resetScheduled 1] := by
      rintro ⟨as, bs, k, heq, hk⟩
      have hmem : Event.started ∈ [Event.marked, .resetScheduled 1] := by rw [heq]; simp
      simp at hmem
    exact (h _ u hr [.started, .startReturns, .timerBegins, .expired 1, .stopped, .resetCancelled]
      [.marked, .resetScheduled 1] [] rfl hnot 1).1 (by simp)
  · obtain ⟨u, hr⟩ := feed_missed
    exact h _ u hr [.started, .startReturns, .timerBegins, .expired 1]
      [.marked, .resetScheduled 1, .timerEnds, .resetBegins, .rebooted 1] rfl 1 (by simp) (by simp)
  · obtain ⟨es, u, hr, hnot⟩ := feed_refused
    exact hnot (h es u hr)

end KfswServices.Gndwdt
