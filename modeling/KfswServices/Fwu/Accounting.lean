/-
# The counters of the update service

`fwu.h` documents three lifetime counters: transfers begun, those that reached READY, and
those that failed or were aborted.  So `started` should be `completed + failed`, and one
more while a transfer is RECEIVING or VERIFIED.

Three exits of `kfsw_fwu_begin` and `kfsw_fwu_abort` break that: a begin that passes its
checks and fails in the flash is counted as failed and not as started, and a VERIFIED
transfer that is aborted, or replaced by a begin, is not counted as anything.
`drift_move` says what each operation does to the balance, and `accounting_iff` that the
counters balance all along a run exactly when none of these exits is taken.

The counters are the 32-bit ones of the source and the balance is theirs; below
2³² it is the balance of the numbers.
-/

import KfswServices.Library.Run
import KfswServices.Fwu.Update
import Mathlib.Data.UInt
import Mathlib.Tactic.Ring

namespace KfswServices.Fwu

open scoped UInt32.CommRing

/-- The transfers that are neither completed nor failed: one, or none. -/
def Status.pending (s : Status) : UInt32 :=
  if s.state = .RECEIVING ∨ s.state = .VERIFIED then 1 else 0

/-- Every transfer begun is completed, failed or still open. -/
def Balanced (s : Service) : Prop :=
  s.status.started = s.status.completed + s.status.failed + s.status.pending

instance (s : Service) : Decidable (Balanced s) := inferInstanceAs (Decidable (_ = _))

/-- What the counters are out of balance by. -/
def drift (s : Service) : UInt32 :=
  s.status.started - (s.status.completed + s.status.failed + s.status.pending)

theorem balanced_iff_drift (s : Service) : Balanced s ↔ drift s = 0 := sub_eq_zero.symm

/-- The checks of `kfsw_fwu_begin` pass, and the slot is erased. -/
def Service.BeginAdmitted (cfg : Config) (s : Service) (total : ℕ) : Prop :=
  total ≠ 0 ∧ total ≤ maxImageSize cfg ∧ s.status.state ≠ .RECEIVING ∧ s.Free cfg

/-- The flash fails a begin: at the erase, at the open or at the stream. -/
def Env.FailsBegin (env : Env) : Prop :=
  env.eraseOpen ≠ none ∨ env.flatten.result ≠ none ∨ env.areaOpen ≠ none ∨ env.streamInit ≠ none

/-- An operation with the answers it gets, or a change of what the bootloader
reports. -/
inductive Move
  | call (c : Call) (env : Env)
  | swapType (t : SwapType)

/-- One move. -/
def Service.move (cfg : Config) (s : Service) : Move → Service
  | .call c env => (s.exec cfg env c).service
  | .swapType t => { s with swapType := t }

/-- The moves, one after the other. -/
def Service.moves (cfg : Config) (s : Service) (ms : List Move) : Service :=
  ms.foldl (Service.move cfg) s

/-- **The moves that keep the balance.**  A begin that is admitted fails in the flash
only over a VERIFIED transfer, which it then counts, and succeeds over none; and no
abort that is admitted finds a VERIFIED transfer. -/
def Keeps (cfg : Config) (s : Service) : Move → Prop
  | .call (.begin total _) env =>
    s.BeginAdmitted cfg total → (env.FailsBegin ↔ s.status.state = .VERIFIED)
  | .call .abort _ => s.Free cfg → s.status.state ≠ .VERIFIED
  | _ => True

/-! ### What each operation does to the balance -/

/-- A begin that is not admitted changes nothing. -/
theorem Service.begin_of_not_admitted {cfg : Config} {s : Service} {total : ℕ} (env : Env)
    (crc : UInt32) (h : ¬ s.BeginAdmitted cfg total) :
    ∃ e, s.begin cfg env total crc = s.refuse e := by
  unfold Service.begin
  split_ifs with hzero hbig hbusy
  · exact ⟨_, rfl⟩
  · exact ⟨_, rfl⟩
  · exact ⟨_, rfl⟩
  · simp only [not_or, Bool.not_eq_true, Decidable.not_not] at hbusy
    exact absurd ⟨hzero, not_lt.1 hbig, hbusy.1, hbusy.2.1, hbusy.2.2⟩ h

/-- A begin that is admitted: the counters and the state after it. -/
theorem Service.begin_of_admitted {cfg : Config} {s : Service} {total : ℕ} (env : Env)
    (crc : UInt32) (h : s.BeginAdmitted cfg total) :
    (env.FailsBegin → (s.begin cfg env total crc).service.status = s.fail.status) ∧
      (¬ env.FailsBegin → (s.begin cfg env total crc).service.status =
        { s.status with
          totalSize := total
          expectedCrc32 := crc
          received := 0
          actualCrc32 := 0
          swapScheduled := false
          state := .RECEIVING
          started := s.status.started + 1 }) := by
  obtain ⟨hzero, hbig, hrecv, hreaders, hrevert⟩ := h
  have hbusy : ¬ (s.status.state = .RECEIVING ∨ s.readers ≠ 0 ∨ s.neededForRevert cfg = true) := by
    simp [hrecv, hreaders, hrevert]
  unfold Service.begin Service.eraseSlot Env.FailsBegin
  rw [if_neg hzero, if_neg (not_lt.2 hbig), if_neg hbusy]
  cases env.eraseOpen with
  | some e => exact ⟨fun _ => rfl, fun h => absurd (.inl nofun) h⟩
  | none =>
    cases env.flatten.result with
    | some e => exact ⟨fun _ => rfl, fun h => absurd (.inr (.inl nofun)) h⟩
    | none =>
      cases env.areaOpen with
      | some e =>
        exact ⟨fun _ => rfl, fun h => absurd (.inr (.inr (.inl nofun))) h⟩
      | none =>
        cases env.streamInit with
        | some e =>
          exact ⟨fun _ => rfl, fun h => absurd (.inr (.inr (.inr nofun))) h⟩
        | none => exact ⟨by simp, fun _ => rfl⟩

/-- The drift looks at the counters and the state only. -/
theorem drift_congr {s t : Service} (h : t.status = s.status) : drift t = drift s := by
  unfold drift
  rw [h]

theorem pending_of_open {s : Status} (h : s.state = .RECEIVING ∨ s.state = .VERIFIED) :
    s.pending = 1 := if_pos h

theorem pending_of_closed {s : Status} (h₁ : s.state ≠ .RECEIVING) (h₂ : s.state ≠ .VERIFIED) :
    s.pending = 0 := if_neg (not_or.2 ⟨h₁, h₂⟩)

/-- An open transfer that fails is counted once. -/
theorem drift_fail {s t : Service} (h : s.status.state = .RECEIVING ∨ s.status.state = .VERIFIED)
    (ht : t.status = s.fail.status) : drift t = drift s := by
  have hs := pending_of_open h
  have hp : t.status.pending = 0 := by
    rw [ht]
    rfl
  unfold drift
  rw [hp, hs, ht]
  show s.status.started - (s.status.completed + (s.status.failed + 1) + 0) = _
  ring

/-- Verification, in `verify` and in `finish`. -/
theorem drift_verify (env : Env) (s : Service) : drift (s.verify env).service = drift s ∧
    ((s.verify env).result = none → (s.verify env).service.status.state = .VERIFIED) := by
  rcases s.verify_cases env with ⟨hst, he⟩ | ⟨-, e, he⟩ | ⟨hst, e, slot, effects, he, -⟩ |
      ⟨hst, -, -, -, he⟩
  · rw [he]
    exact ⟨rfl, fun _ => hst⟩
  · rw [he]
    exact ⟨rfl, nofun⟩
  · rw [he]
    exact ⟨drift_fail (.inl hst) rfl, nofun⟩
  · rw [he]
    refine ⟨?_, fun _ => rfl⟩
    unfold drift
    rw [pending_of_open (.inl hst)]
    rfl

theorem drift_finish (cfg : Config) (env : Env) (s : Service) :
    drift (s.finish cfg env).service = drift s := by
  obtain ⟨hdrift, hverified⟩ := drift_verify env s
  rcases s.finish_cases cfg env with ⟨e, he⟩ | ⟨-, e, v, effects, hv, he⟩ |
      ⟨-, v, effects, hv, hcase⟩
  · rw [he]
    rfl
  · rw [hv] at hdrift
    rw [he]
    exact hdrift
  · rw [hv] at hdrift hverified
    have hst : v.status.state = .VERIFIED := hverified rfl
    -- the transfer is counted once more as completed, and is open no longer
    have hready : ∀ t : Service, t.status = v.status → ∀ b, drift (t.ready b) = drift v := by
      intro t ht b
      have hp : (t.ready b).status.pending = 0 := rfl
      unfold drift
      rw [hp, pending_of_open (.inr hst)]
      show t.status.started - (t.status.completed + 1 + t.status.failed + 0) = _
      rw [ht]
      ring
    rw [← hdrift]
    rcases hcase with ⟨-, he⟩ | ⟨-, e, he⟩ | ⟨-, -, he⟩
    · rw [he]
      exact hready v rfl _
    · rw [he]
      exact drift_fail (.inr hst) rfl
    · rw [he]
      exact hready _ rfl _

/-- **What a begin does to the balance.** -/
theorem drift_begin (cfg : Config) (env : Env) (s : Service) (total : ℕ) (crc : UInt32) :
    drift (s.begin cfg env total crc).service = drift s ↔
      Keeps cfg s (.call (.begin total crc) env) := by
  by_cases hadm : s.BeginAdmitted cfg total
  · obtain ⟨hfail, hok⟩ := s.begin_of_admitted env crc hadm
    have hkeeps : Keeps cfg s (.call (.begin total crc) env) ↔
        (env.FailsBegin ↔ s.status.state = .VERIFIED) := by
      simp [Keeps, hadm]
    rw [hkeeps]
    by_cases hf : env.FailsBegin
    · by_cases hv : s.status.state = .VERIFIED
      · simp only [hf, hv, iff_true]
        exact drift_fail (.inr hv) (hfail hf)
      · -- counted as failed, never as started
        have hp := pending_of_closed hadm.2.2.1 hv
        have hd : drift (s.begin cfg env total crc).service = drift s - 1 := by
          have hp' : (s.begin cfg env total crc).service.status.pending = 0 := by
            rw [hfail hf]
            rfl
          unfold drift
          rw [hp', hp, hfail hf]
          show s.status.started - (s.status.completed + (s.status.failed + 1) + 0) = _
          ring
        simp [hf, hv, hd]
    · have hp' : (s.begin cfg env total crc).service.status.pending = 1 := by
        rw [hok hf]
        rfl
      by_cases hv : s.status.state = .VERIFIED
      · -- started once more, with the transfer it replaces dropped
        have hd : drift (s.begin cfg env total crc).service = drift s + 1 := by
          unfold drift
          rw [hp', pending_of_open (.inr hv), hok hf]
          ring
        simp [hf, hv, hd]
      · have hd : drift (s.begin cfg env total crc).service = drift s := by
          unfold drift
          rw [hp', pending_of_closed hadm.2.2.1 hv, hok hf]
          ring
        simp [hf, hv, hd]
  · obtain ⟨e, he⟩ := s.begin_of_not_admitted env crc hadm
    rw [he]
    simp [Keeps, hadm, Service.refuse]

/-- **What an abort does to the balance.** -/
theorem drift_abort (cfg : Config) (env : Env) (s : Service) :
    drift (s.abort cfg env).service = drift s ↔ Keeps cfg s (.call .abort env) := by
  by_cases hfree : s.Free cfg
  · have hcount : (s.abort cfg env).service.status.started = s.status.started ∧
        (s.abort cfg env).service.status.completed = s.status.completed ∧
        (s.abort cfg env).service.status.failed = s.aborted ∧
        (s.abort cfg env).service.status.pending = 0 := by
      have hbusy : ¬ (s.readers ≠ 0 ∨ s.neededForRevert cfg = true) := by
        simp [hfree.1, hfree.2]
      unfold Service.abort
      rw [if_neg hbusy]
      set counted := { s with status := { s.status with failed := s.aborted } } with hcounted
      rcases counted.eraseSlot_cases env with ⟨e, he⟩ | he
      · simp only [he]
        exact ⟨rfl, rfl, rfl, rfl⟩
      · simp only [he]
        cases env.flatten.result with
        | some e => exact ⟨rfl, rfl, rfl, rfl⟩
        | none => exact ⟨rfl, rfl, rfl, rfl⟩
    obtain ⟨hst, hco, hfa, hpe⟩ := hcount
    have hkeeps : Keeps cfg s (.call .abort env) ↔ s.status.state ≠ .VERIFIED := by
      simp [Keeps, hfree]
    have hd : drift (s.abort cfg env).service =
        s.status.started - (s.status.completed + s.aborted + 0) := by
      unfold drift
      rw [hst, hco, hfa, hpe]
    rw [hkeeps, hd]
    by_cases hv : s.status.state = .VERIFIED
    · have ha : s.aborted = s.status.failed := by
        unfold Service.aborted
        rw [if_neg (by rw [hv]; decide)]
      have hdrift : s.status.started - (s.status.completed + s.aborted + 0) = drift s + 1 := by
        unfold drift
        rw [ha, pending_of_open (.inr hv)]
        ring
      rw [hdrift]
      simp [hv]
    · refine iff_of_true ?_ hv
      by_cases hr : s.status.state = .RECEIVING
      · have ha : s.aborted = s.status.failed + 1 := if_pos hr
        unfold drift
        rw [ha, pending_of_open (.inl hr)]
        ring
      · have ha : s.aborted = s.status.failed := if_neg hr
        unfold drift
        rw [ha, pending_of_closed hr hv]
  · have hbusy : s.readers ≠ 0 ∨ s.neededForRevert cfg = true := by
      by_contra h
      rw [not_or, not_not, Bool.not_eq_true] at h
      exact hfree h
    unfold Service.abort
    rw [if_pos hbusy]
    simp [Keeps, hfree, Service.refuse]

/-- **One move.**  The drift stays exactly over the moves of `Keeps`. -/
theorem drift_move (cfg : Config) (s : Service) (m : Move) :
    drift (s.move cfg m) = drift s ↔ Keeps cfg s m := by
  cases m with
  | swapType t => exact iff_of_true (drift_congr rfl) trivial
  | call c env =>
    cases c with
    | begin total crc => exact drift_begin cfg env s total crc
    | abort => exact drift_abort cfg env s
    | verify => exact iff_of_true (drift_verify env s).1 trivial
    | finish => exact iff_of_true (drift_finish cfg env s) trivial
    | write offset data =>
      refine iff_of_true ?_ trivial
      simp only [Service.move, Service.exec]
      rcases s.write_cases env offset data with ⟨e, he⟩ | ⟨hst, e, he⟩ | ⟨-, span, -, -, -, -, he⟩
      · rw [he]
        rfl
      · rw [he]
        exact drift_fail (.inl hst) rfl
      · rw [he]
        rfl
    | acquire =>
      refine iff_of_true ?_ trivial
      simp only [Service.move, Service.exec, Service.acquire]
      split_ifs with hbusy
      · rfl
      · rfl
    | release => exact iff_of_true rfl trivial

/-! ### Over a run -/

/-- From a balanced state, the run is balanced throughout exactly when every move keeps
the balance. -/
theorem balanced_moves_iff (cfg : Config) (ms : List Move) (s : Service) (hs : Balanced s) :
    (∀ before, before <+: ms → Balanced (s.moves cfg before)) ↔
      ∀ before m, before ++ [m] <+: ms → Keeps cfg (s.moves cfg before) m := by
  have hstep : ∀ s m, Balanced s → (Balanced (s.move cfg m) ↔ Keeps cfg s m) := by
    intro s m hs
    rw [balanced_iff_drift] at hs
    rw [balanced_iff_drift, ← drift_move, hs]
  exact Library.foldl_prefixes_iff (fun _ h => h) (fun s m hs => (hstep s m hs).2)
    (fun s m hs hk h => hk ((hstep s m hs).1 h)) ms s hs

/-- **The accounting.**  From a reset, over any operations with any answers, the
counters balance in every state of the run if and only if every move meets `Keeps` in the
state before it. -/
theorem accounting_iff (cfg : Config) (slot : ℕ → UInt8) (swapType : SwapType) (ms : List Move) :
    (∀ before, before <+: ms → Balanced ((Service.boot slot swapType).moves cfg before)) ↔
      ∀ before m, before ++ [m] <+: ms →
        Keeps cfg ((Service.boot slot swapType).moves cfg before) m :=
  balanced_moves_iff cfg ms _ rfl

/-- One byte is received and verified, and the verified transfer is aborted. -/
def verifiedAborted : Service :=
  let s := Service.boot (fun _ => 0) .NONE
  let s := s.move smallConfig (.call (.begin 1 (Library.crc32 [7])) s.faultless)
  let s := s.move smallConfig (.call (.write 0 (some [7])) s.faultless)
  let s := s.move smallConfig (.call .verify s.faultless)
  s.move smallConfig (.call .abort s.faultless)

/-- **An aborted transfer that nothing counts.**  One transfer was started; none
completed, none failed, and none is open. -/
theorem verified_abort_uncounted : verifiedAborted.status.started = 1 ∧
    verifiedAborted.status.completed = 0 ∧ verifiedAborted.status.failed = 0 ∧
    verifiedAborted.status.state = .IDLE ∧ ¬ Balanced verifiedAborted := by
  decide +kernel

end KfswServices.Fwu
