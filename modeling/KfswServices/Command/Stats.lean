/-
# What the command counters count

`record_outcome` and `kfsw_command_get_stats` of `src/command/command.c`, over the runs of
`Command.Claim`: any threads, local and remote callers, nested dispatches.

`struct kfsw_command_stats` promises four totals that saturate: the dispatches, those that name no
registered command, those refused before a handler ran, and those whose handler reported a failure.
`record_outcome` only looks at the final status, and `atomic_inc` wraps.  `stats_report_iff` says for
which runs the totals are the promised ones.
-/

import KfswServices.Command.Claim
import Mathlib.Data.List.Induction

namespace KfswServices.Command

open Library

variable {ω : Type*}

/-- `struct kfsw_command_stats`. -/
structure Stats where
  invoked : UInt32
  failed : UInt32
  unknown : UInt32
  rejected : UInt32
  registered : UInt16
  deriving DecidableEq

/-- The totals, as they are reported. -/
def Totals.toStats (t : Totals) (registered : UInt16) : Stats :=
  ⟨t.invoked, t.failed, t.unknown, t.rejected, registered⟩

/-- `kfsw_command_get_stats`. -/
def getStats (n : Node ω) : Stats := n.totals.toStats (UInt16.ofNat n.registry.length)

/-- The totals after a reset. -/
def Totals.zero : Totals := ⟨0, 0, 0, 0⟩

/-- How a dispatch ended: it named no registered command, its arguments were wrong, an exclusive
claim refused it, or its handler ran and left a return value and a result. -/
inductive Ending
  | unregistered
  | invalid
  | claimed
  | ran (outcome : Option Errno) (result : Result)
  deriving DecidableEq

/-- It was refused before a handler ran, though the command is registered. -/
def Ending.refused : Ending → Bool
  | invalid => true
  | claimed => true
  | _ => false

/-- Its handler ran and reported a failure: an error, or a status other than OK. -/
def Ending.failed : Ending → Bool
  | ran outcome result => outcome ≠ none || result.status ≠ .OK
  | _ => false

/-- The status `record_outcome` is called with. -/
def Ending.status : Ending → Status
  | unregistered => .UNKNOWN
  | invalid => .INVALID_ARGUMENT
  | claimed => .BUSY
  | ran outcome result => (settle outcome result).status

/-- The dispatch that an action brings to its end. -/
def Threads.concluded (s : Threads ω) : Act ω → Option Ending
  | .invoke t definition args _ =>
    if !s.node.ready then none
    else
      match definition with
      | none => some .unregistered
      | some d =>
        if checkArguments d args ≠ .OK then some .invalid
        else if (checkClaim t d.name s.node.claim).2 ≠ none then some .claimed
        else none
  | .finish _ outcome result _ => some (.ran outcome result)
  | _ => none

/-- A step of the threads, with the dispatches that have ended so far. -/
def LoggedStep (p : Threads ω × List Ending) (a : Act ω) (q : Threads ω × List Ending) : Prop :=
  ThreadStep p.1 a q.1 ∧ q.2 = p.2 ++ (p.1.concluded a).toList

/-- A counter that saturates. -/
def saturated (n : ℕ) : UInt32 := UInt32.ofNat (min n uint32Max)

/-- **What the header promises** of the totals, given how the dispatches ended. -/
def Stats.Reports (st : Stats) (log : List Ending) : Prop :=
  st.invoked = saturated log.length ∧
    st.unknown = saturated (log.count .unregistered) ∧
    st.rejected = saturated (log.countP Ending.refused) ∧
    st.failed = saturated (log.countP Ending.failed)

instance (st : Stats) (log : List Ending) : Decidable (st.Reports log) :=
  inferInstanceAs (Decidable (_ ∧ _ ∧ _ ∧ _))

/-- The status tells how the dispatch ended: it was not refused, and its handler set neither
UNKNOWN nor DENIED. -/
def Ending.Told : Ending → Prop
  | unregistered => True
  | invalid => False
  | claimed => False
  | ran _ result => result.status ≠ .UNKNOWN ∧ result.status ≠ .DENIED

/-! ### The code's counters -/

/-- The totals that `record_outcome` leaves. -/
def countAll (log : List Ending) : Totals :=
  log.foldl (fun t e => t.record e.status) .zero

theorem countAll_snoc (log : List Ending) (e : Ending) :
    countAll (log ++ [e]) = (countAll log).record e.status := by
  simp [countAll]

/-- Counted as a failure. -/
def Ending.countedFailed (e : Ending) : Bool :=
  e.status ≠ .OK && e.status ≠ .UNKNOWN && e.status ≠ .DENIED

/-- **What the code counts**, by the final status. -/
theorem countAll_eq (log : List Ending) : countAll log =
      ⟨UInt32.ofNat log.length, UInt32.ofNat (log.countP Ending.countedFailed),
        UInt32.ofNat (log.countP fun e => e.status = .UNKNOWN),
        UInt32.ofNat (log.countP fun e => e.status = .DENIED)⟩ := by
  induction log using List.reverseRecOn with
  | nil => rfl
  | append_singleton log e ih =>
    rw [countAll_snoc, ih]
    cases hs : e.status <;> simp [hs, Totals.record, Ending.countedFailed]

/-- Below the limit a counter counts. -/
theorem saturated_of_le {n : ℕ} (hn : n ≤ uint32Max) : saturated n = UInt32.ofNat n := by
  rw [saturated, Nat.min_eq_left hn]

/-- Two counters below the limit that agree count the same. -/
theorem ofNat_inj_of_le {n m : ℕ} (hn : n ≤ uint32Max) (hm : m ≤ uint32Max)
    (h : UInt32.ofNat n = saturated m) : n = m := by
  rw [saturated_of_le hm] at h
  have hnat := congrArg UInt32.toNat h
  rw [UInt32.toNat_ofNat', UInt32.toNat_ofNat',
    Nat.mod_eq_of_lt (by simp only [uint32Max] at hn; omega),
    Nat.mod_eq_of_lt (by simp only [uint32Max] at hm; omega)] at hnat
  exact hnat

/-- `settle` only turns OK into FAILED. -/
theorem settle_status_iff (outcome : Option Errno) (result : Result) {status : Status}
    (hok : status ≠ .OK) (hfailed : status ≠ .FAILED) :
    (settle outcome result).status = status ↔ result.status = status := by
  unfold settle
  split_ifs with h
  · rw [h.2]
    exact ⟨fun hs => absurd hs.symm hfailed, fun hs => absurd hs.symm hok⟩
  · exact Iff.rfl

/-- For a dispatch that is told apart, the code counts what is promised. -/
theorem Ending.Told.counted {e : Ending} (he : e.Told) :
    e.countedFailed = e.failed ∧ decide (e.status = .UNKNOWN) = decide (e = .unregistered) ∧
      decide (e.status = .DENIED) = e.refused := by
  cases e with
  | unregistered => exact ⟨rfl, rfl, rfl⟩
  | invalid => exact he.elim
  | claimed => exact he.elim
  | ran outcome result =>
    have hstatus : (Ending.ran outcome result).status = (settle outcome result).status := rfl
    have hunknown : (settle outcome result).status ≠ .UNKNOWN := fun h =>
      he.1 ((settle_status_iff outcome result (by decide) (by decide)).1 h)
    have hdenied : (settle outcome result).status ≠ .DENIED := fun h =>
      he.2 ((settle_status_iff outcome result (by decide) (by decide)).1 h)
    refine ⟨?_, ?_, ?_⟩
    · rw [countedFailed, hstatus]
      simp only [hunknown, hdenied, ne_eq, not_false_eq_true, decide_true, Bool.and_true, failed]
      rw [settle]
      by_cases ho : outcome = none <;> by_cases hr : result.status = .OK <;> simp [ho, hr]
    · rw [hstatus]
      simp [hunknown]
    · rw [hstatus]
      simp [hdenied, refused]

/-- **The totals are the promised ones at every point of a log** exactly when every dispatch is
told apart and there are not more than a counter holds. -/
theorem reports_iff (registered : UInt16) (log : List Ending) :
    (∀ pre, pre <+: log → ((countAll pre).toStats registered).Reports pre) ↔
      log.length ≤ uint32Max ∧ ∀ e ∈ log, e.Told := by
  constructor
  · intro h
    have hlen : log.length ≤ uint32Max := by
      by_contra hlong
      have htake : (log.take (uint32Max + 1)).length = uint32Max + 1 := by
        rw [List.length_take]
        omega
      obtain ⟨hinvoked, -⟩ := h _ (List.take_prefix (uint32Max + 1) log)
      rw [countAll_eq, htake] at hinvoked
      have hwrapped : UInt32.ofNat (uint32Max + 1) = saturated (uint32Max + 1) := hinvoked
      exact absurd hwrapped (by decide)
    refine ⟨hlen, fun e he => ?_⟩
    obtain ⟨before, after, rfl⟩ := List.append_of_mem he
    -- the two counters that move with this dispatch agree before it and behind it
    have hbound : ∀ (p : Ending → Bool) (pre : List Ending),
        pre <+: before ++ e :: after → pre.countP p ≤ uint32Max := fun p pre hpre =>
      le_trans List.countP_le_length (le_trans hpre.length_le hlen)
    have hcounts : ∀ pre, pre <+: before ++ e :: after →
        (pre.countP fun e => e.status = .UNKNOWN) = pre.count .unregistered ∧
          (pre.countP fun e => e.status = .DENIED) = pre.countP Ending.refused := by
      intro pre hpre
      obtain ⟨-, hunknown, hrejected, -⟩ := h pre hpre
      rw [countAll_eq] at hunknown hrejected
      exact ⟨ofNat_inj_of_le (hbound _ pre hpre) (hbound _ pre hpre) hunknown,
        ofNat_inj_of_le (hbound _ pre hpre) (hbound _ pre hpre) hrejected⟩
    obtain ⟨hunknown, hrejected⟩ := hcounts before (List.prefix_append _ _)
    obtain ⟨hunknown', hrejected'⟩ := hcounts (before ++ [e]) ⟨after, by simp⟩
    rw [List.countP_append, List.count_append, hunknown] at hunknown'
    rw [List.countP_append, List.countP_append, hrejected] at hrejected'
    cases e with
    | unregistered => trivial
    | invalid => simp [Ending.status, Ending.refused] at hrejected'
    | claimed => simp [Ending.status, Ending.refused] at hrejected'
    | ran outcome result =>
      constructor
      · intro hs
        rw [← settle_status_iff outcome result (by decide) (by decide)] at hs
        simp [Ending.status, hs] at hunknown'
      · intro hs
        rw [← settle_status_iff outcome result (by decide) (by decide)] at hs
        simp [Ending.status, hs, Ending.refused] at hrejected'
  · rintro ⟨hlen, htold⟩ pre hpre
    have hpre_len : pre.length ≤ uint32Max := le_trans hpre.length_le hlen
    have hpre_told : ∀ e ∈ pre, e.Told := fun e he => htold e (hpre.subset he)
    have hfailed : pre.countP Ending.countedFailed = pre.countP Ending.failed :=
      List.countP_congr fun e he => by rw [(hpre_told e he).counted.1]
    have hunknown : (pre.countP fun e => e.status = .UNKNOWN) = pre.count .unregistered :=
      List.countP_congr fun e he => by
        rw [(hpre_told e he).counted.2.1, decide_eq_true_iff, beq_iff_eq]
    have hrejected : (pre.countP fun e => e.status = .DENIED) = pre.countP Ending.refused :=
      List.countP_congr fun e he => by rw [(hpre_told e he).counted.2.2]
    have hle : ∀ p : Ending → Bool, pre.countP p ≤ uint32Max := fun p =>
      le_trans List.countP_le_length hpre_len
    rw [countAll_eq, hfailed, hunknown, hrejected]
    exact ⟨(saturated_of_le hpre_len).symm, (saturated_of_le (hle _)).symm,
      (saturated_of_le (hle _)).symm, (saturated_of_le (hle _)).symm⟩

/-! ### The runs -/

/-- `gate` counts the call if it is refused there, as it was refused. -/
theorem gate_totals {s : Threads ω} (hready : s.node.ready = true) (t : Tid)
    (definition : Option (Definition ω)) (args : List Arg) (source : Source) :
    (gate t definition args source s.node).1.ready = true ∧
      (gate t definition args source s.node).1.totals =
        (s.concluded (.invoke t definition args source)).toList.foldl
          (fun t e => t.record e.status) s.node.totals := by
  unfold gate Threads.concluded
  rw [hready]
  cases definition with
  | none => exact ⟨hready, rfl⟩
  | some d =>
    by_cases hargs : checkArguments d args = .OK
    · rcases hclaim : checkClaim t d.name s.node.claim with ⟨claim, _ | refusal⟩
      · simp [hargs, hclaim]
      · have hbusy := checkClaim_refusal_status hclaim
        simp [hargs, hclaim, recordOutcome, hbusy, Ending.status]
    · have hinvalid : checkArguments d args = .INVALID_ARGUMENT := by
        unfold checkArguments at hargs ⊢
        split_ifs at hargs ⊢ <;> first | rfl | exact absurd rfl hargs
      simp [hinvalid, recordOutcome, Ending.status, hready]

/-- A step counts the dispatch that it ends. -/
theorem threadStep_totals {s u : Threads ω} {a : Act ω} (hready : s.node.ready = true)
    (hs : ThreadStep s a u) : u.node.ready = true ∧ u.node.totals =
        (s.concluded a).toList.foldl (fun t e => t.record e.status) s.node.totals := by
  cases hs with
  | @invoke t definition args source hp =>
    rw [(enter_lock s t definition args source).2.2]
    exact gate_totals hready t definition args source
  | start hf hw hl => exact ⟨hready, rfl⟩
  | finish outcome result world hf hr => exact ⟨hready, rfl⟩
  | acquire mode owner hp => exact ⟨hready, rfl⟩
  | release hp => exact ⟨hready, rfl⟩

variable {q : Threads ω × List Ending}

/-- **The totals of a run** are what `record_outcome` makes of the dispatches that have ended. -/
theorem run_totals {n : Node ω} (hready : n.ready = true) (hzero : n.totals = Totals.zero)
    {acts : List (Act ω)} (hr : Run LoggedStep (Threads.boot n, []) acts q) :
    q.1.node.ready = true ∧ q.1.node.totals = countAll q.2 := by
  induction hr with
  | nil => exact ⟨hready, hzero⟩
  | snoc hr hs ih =>
    obtain ⟨hready', htotals⟩ := ih
    obtain ⟨hready'', htotals'⟩ := threadStep_totals hready' hs.1
    refine ⟨hready'', ?_⟩
    rw [htotals', htotals, hs.2, countAll, countAll, List.foldl_append]

section

variable {p : Threads ω × List Ending} {acts : List (Act ω)} (hr : Run LoggedStep p acts q)
include hr

/-- What has ended stays in the log. -/
theorem run_log_prefix : p.2 <+: q.2 := by
  induction hr with
  | nil => exact List.prefix_rfl
  | snoc hr hs ih => exact ih.trans ⟨_, hs.2.symm⟩

/-- The dispatches of a run end one at a time. -/
theorem run_prefix {pre : List Ending} (hpre : pre <+: q.2) (hp : p.2 <+: pre) :
    ∃ acts₁ acts₂ v, acts = acts₁ ++ acts₂ ∧ Run LoggedStep p acts₁ (v, pre) ∧
      Run LoggedStep (v, pre) acts₂ q := by
  induction hr with
  | nil =>
    obtain rfl := hpre.eq_of_length_le hp.length_le
    exact ⟨[], [], p.1, rfl, .nil p, .nil p⟩
  | @snoc m q es a hr hs ih =>
    by_cases hearlier : pre <+: m.2
    · obtain ⟨acts₁, acts₂, v, rfl, h₁, h₂⟩ := ih hearlier
      exact ⟨acts₁, acts₂ ++ [a], v, by rw [List.append_assoc], h₁, h₂.snoc hs⟩
    · -- the step appends at most one, so that the prefix is all there is now
      have hall : pre = q.2 := by
        have hsplit : pre <+: m.2 ++ (m.1.concluded a).toList := hs.2 ▸ hpre
        rw [hs.2]
        cases hc : m.1.concluded a with
        | none =>
          rw [hc, Option.toList_none, List.append_nil] at hsplit
          exact absurd hsplit hearlier
        | some e =>
          rw [hc, Option.toList_some, List.prefix_concat_iff] at hsplit
          exact hsplit.resolve_right hearlier
      subst hall
      exact ⟨es ++ [a], [], q.1, by rw [List.append_nil], hr.snoc hs, .nil q⟩

end

/-- **When the counters are the promised ones.**  In a run of dispatches the reported totals are
right at every point exactly when there are not more dispatches than a counter holds, none was
refused before its handler, and no handler left the status UNKNOWN or DENIED. -/
theorem stats_report_iff {n : Node ω} (hready : n.ready = true) (hzero : n.totals = Totals.zero)
    {acts : List (Act ω)} {u : Threads ω} {log : List Ending}
    (hr : Run LoggedStep (Threads.boot n, []) acts (u, log)) :
    (∀ acts₁ acts₂ v log₁, acts = acts₁ ++ acts₂ →
      Run LoggedStep (Threads.boot n, []) acts₁ (v, log₁) →
      Run LoggedStep (v, log₁) acts₂ (u, log) → (getStats v.node).Reports log₁) ↔
      log.length ≤ uint32Max ∧ ∀ e ∈ log, e.Told := by
  rw [← reports_iff (UInt16.ofNat 0)]
  constructor
  · intro h pre hpre
    obtain ⟨acts₁, acts₂, v, hacts, h₁, h₂⟩ := run_prefix hr hpre List.nil_prefix
    have hreports := h acts₁ acts₂ v pre hacts h₁ h₂
    rw [getStats, (run_totals hready hzero h₁).2] at hreports
    exact hreports
  · intro h acts₁ acts₂ v log₁ _ h₁ h₂
    have hpre : log₁ <+: log := run_log_prefix h₂
    rw [getStats, (run_totals hready hzero h₁).2]
    exact h log₁ hpre

/-- On a fresh node, one call by thread 1. -/
theorem single_call (definition : Option (Definition Unit)) (args : List Arg) :
    Run LoggedStep (Threads.boot idleNode, []) [.invoke 1 definition args ⟨0, false, false⟩]
      ((Threads.boot idleNode).enter 1 definition args ⟨0, false, false⟩,
        ((Threads.boot idleNode).concluded
          (.invoke 1 definition args ⟨0, false, false⟩)).toList) := by
  refine .single ⟨.invoke _ _ _ ?_, rfl⟩
  rintro ⟨f, rest, hf, -⟩
  cases hf

/-- A call of an unknown command is counted as promised. -/
theorem stats_report_unregistered :
    (getStats ((Threads.boot idleNode).enter 1 (findById idleNode 7) []
      ⟨0, false, false⟩).node).Reports [.unregistered] := by
  have hrun := single_call (findById idleNode 7) []
  refine (stats_report_iff rfl rfl hrun).2 ⟨by decide, ?_⟩ _ [] _ _ (by simp) hrun (.nil _)
  intro e he
  rw [List.mem_singleton.1 he]
  trivial

/-- One argument too many: the call is counted as a failed one, and not as refused. -/
theorem stats_misreport_invalid : ¬ ∀ (n : Node Unit) (acts : List (Act Unit))
    (u : Threads Unit) (log : List Ending), n.ready = true → n.totals = Totals.zero →
      Run LoggedStep (Threads.boot n, []) acts (u, log) → (getStats u.node).Reports log := by
  intro h
  have hreports := h idleNode _ _ _ rfl rfl (single_call (findById idleNode 1) [.text none])
  exact absurd hreports.2.2.1 (by decide)

end KfswServices.Command
