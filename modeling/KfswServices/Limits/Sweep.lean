/-
# What makes a limit rule fire

`release`, `evaluate` and `kfsw_limits_sweep` of `src/limits/limits.c`.  A sweep reads the parameter
of each rule in turn; a rule whose comparison has held for its dwell releases its action, once.

The streak and the latch of a rule are functions of what the sweeps have seen of it (`runLength`,
`latchedAfter`), and each rule goes through the sweeps as it would alone (`sweep_fires_once`).
-/

import KfswServices.Library.Run
import KfswServices.Limits.Rule

namespace KfswServices.Limits

open Library
open Param (Scalar)

/-- What the node answers a rule in a sweep: `kfsw_param_get`, `kfsw_fbo_schedule_add` and
`kfsw_time_monotonic_ms`. -/
structure Answers where
  read : Except Errno Scalar
  add : Option Errno
  monotonicMs : UInt64

/-- What a sweep sees of a rule; with a comparison that holds, the answer to the release, if one was
attempted. -/
inductive Seen
  | disabled
  | unread (e : Errno)
  | passed (reading : Scalar)
  | held (reading : Scalar) (release : Option (Option Errno))
  deriving DecidableEq

/-- The answer lets the rule latch. -/
def released (answer : Option Errno) : Bool := answer = none || answer = some .EEXIST

/-- The state after an action was released. -/
def State.fire (st : State) (rule : Rule) (monotonicMs : UInt64) : State :=
  { st with
    fires := saturatingInc st.fires
    lastFiredIndex := rule.index
    lastFiredMs := (min monotonicMs 4294967295).toUInt32
    emitted := st.emitted ++ [rule.index :: putBe16 rule.node] }

/-- `release`. -/
def release (a : Answers) (rule : Rule) (st : State) : Bool × State :=
  match a.add with
  | none => (true, st.fire rule a.monotonicMs)
  | some e => if e = .EEXIST then (true, st) else (false, st.noteFailure)

/-- The streak goes up as far as `UINT8_MAX`. -/
def Rule.bump (rule : Rule) : Rule :=
  if rule.streak < 255 then { rule with streak := rule.streak + 1 } else rule

/-- `evaluate`. -/
def evaluate (a : Answers) (rule : Rule) (st : State) : Rule × State × Seen :=
  match a.read with
  | .error e => (rule, st.noteFailure, .unread e)
  | .ok reading =>
    if !holds rule.cmp (order (widen rule.type reading) (widen rule.type rule.bound)) then
      ({ rule with streak := 0, latched := false }, st, .passed reading)
    else
      let rule := rule.bump
      if !rule.latched && rule.streak ≥ rule.dwell then
        let (latched, st) := release a rule st
        ({ rule with latched }, st, .held reading (some a.add))
      else (rule, st, .held reading none)

/-- The loop of `kfsw_limits_sweep` from rule `i` on. -/
def evaluateFrom (answers : ℕ → Answers) : ℕ → List Rule → State → List Rule × State × List Seen
  | _, [], st => ([], st, [])
  | i, rule :: rules, st =>
    let (rule, st, seen) := evaluate (answers i) rule st
    let (rules, st, row) := evaluateFrom answers (i + 1) rules st
    (rule :: rules, st, seen :: row)

/-- `kfsw_limits_sweep`: what it returns, the service, and what was seen of each rule. -/
def Service.sweep (enabled : Bool) (answers : ℕ → Answers) (s : Service) :
    Except Errno ℕ × Service × List Seen :=
  if !enabled then
    (.error .EACCES, { s with rules := s.rules.map fun rule => { rule with streak := 0 } },
      s.rules.map fun _ => .disabled)
  else
    let (rules, st, row) := evaluateFrom answers 0 s.rules s.state
    (.ok rules.length, ⟨rules, { st with sweeps := saturatingInc st.sweeps }⟩, row)

/-- A sweep, seen at each rule. -/
def Step (s : Service) (row : List Seen) (s' : Service) : Prop :=
  ∃ enabled answers, (s.sweep enabled answers).2 = (s', row)

/-- What the sweeps have seen of rule `i`. -/
def history (i : ℕ) (rows : List (List Seen)) : List Seen := rows.filterMap (·[i]?)

/-! ### One rule -/

/-- What a sweep makes of one rule. -/
def Rule.turn (enabled : Bool) (a : Answers) (rule : Rule) : Rule × Seen :=
  if !enabled then ({ rule with streak := 0 }, .disabled)
  else
    let (rule, _, seen) := evaluate a rule Service.reset.state
    (rule, seen)

/-- The state does not show in what happens to a rule. -/
theorem evaluate_turn (a : Answers) (rule : Rule) (st : State) :
    (evaluate a rule st).1 = (rule.turn true a).1 ∧
      (evaluate a rule st).2.2 = (rule.turn true a).2 := by
  unfold Rule.turn evaluate release
  rcases hread : a.read with e | reading
  · exact ⟨rfl, rfl⟩
  · rcases hadd : a.add with _ | e
    · simp only [Bool.not_true, Bool.false_eq_true, if_false]
      split_ifs <;> exact ⟨rfl, rfl⟩
    · simp only [Bool.not_true, Bool.false_eq_true, if_false]
      split_ifs <;> exact ⟨rfl, rfl⟩

/-- The loop takes each rule through its turn. -/
theorem evaluateFrom_eq (answers : ℕ → Answers) (rules : List Rule) (i : ℕ) (st : State) :
    (evaluateFrom answers i rules st).1 =
        rules.mapIdx (fun j rule => (rule.turn true (answers (i + j))).1) ∧
      (evaluateFrom answers i rules st).2.2 =
        rules.mapIdx (fun j rule => (rule.turn true (answers (i + j))).2) := by
  induction rules generalizing i st with
  | nil => exact ⟨rfl, rfl⟩
  | cons rule rules ih =>
    obtain ⟨hrule, hseen⟩ := evaluate_turn (answers i) rule st
    obtain ⟨hrules, hrow⟩ := ih (i + 1) (evaluate (answers i) rule st).2.1
    have hindex : ∀ j, i + 1 + j = i + (j + 1) := fun j => by omega
    simp only [hindex] at hrules hrow
    rw [List.mapIdx_cons, List.mapIdx_cons]
    exact ⟨congrArg₂ List.cons hrule hrules, congrArg₂ List.cons hseen hrow⟩

/-- **A sweep takes each rule through its turn.** -/
theorem sweep_turns (enabled : Bool) (answers : ℕ → Answers) (s : Service) :
    (s.sweep enabled answers).2.1.rules =
        s.rules.mapIdx (fun i rule => (rule.turn enabled (answers i)).1) ∧
      (s.sweep enabled answers).2.2 =
        s.rules.mapIdx (fun i rule => (rule.turn enabled (answers i)).2) := by
  unfold Service.sweep
  cases enabled with
  | false =>
    constructor
    · refine List.ext_getElem? fun i => ?_
      rw [List.getElem?_mapIdx]
      exact List.getElem?_map ..
    · refine List.ext_getElem? fun i => ?_
      rw [List.getElem?_mapIdx]
      exact List.getElem?_map ..
  | true =>
    have h := evaluateFrom_eq answers s.rules 0 s.state
    simp only [Nat.zero_add] at h
    exact h

/-! ### Streak and latch of a history -/

/-- The comparison held. -/
def Seen.isHeld : Seen → Bool
  | .held _ _ => true
  | _ => false

/-- The comparison was false, or the service was disabled. -/
def Seen.breaks : Seen → Bool
  | .disabled | .passed _ => true
  | _ => false

/-- One more sweep of a streak. -/
def Seen.count (n : ℕ) : Seen → ℕ
  | .disabled | .passed _ => 0
  | .unread _ => n
  | .held _ _ => n + 1

/-- One more sweep of a latch. -/
def Seen.latch (latched : Bool) : Seen → Bool
  | .disabled | .unread _ | .held _ none => latched
  | .passed _ => false
  | .held _ (some answer) => released answer

/-- How often the comparison held since it was false or the service disabled. -/
def runLength (h : List Seen) : ℕ := h.foldl Seen.count 0

/-- The action was released, and the comparison has not been false since. -/
def latchedAfter (h : List Seen) : Bool := h.foldl Seen.latch false

theorem runLength_concat (h : List Seen) (e : Seen) :
    runLength (h ++ [e]) = Seen.count (runLength h) e := List.foldl_append

theorem latchedAfter_concat (h : List Seen) (e : Seen) :
    latchedAfter (h ++ [e]) = Seen.latch (latchedAfter h) e := List.foldl_append

/-- **The streak is a stretch without a break.** -/
theorem exists_stretch (h : List Seen) : ∃ a b, h = a ++ b ∧ (∀ e ∈ b, e.breaks = false) ∧
    b.countP Seen.isHeld = runLength h := by
  induction h using List.reverseRecOn with
  | nil => exact ⟨[], [], rfl, by simp, rfl⟩
  | append_singleton h e ih =>
    obtain ⟨a, b, rfl, hb, hcount⟩ := ih
    rw [runLength_concat, ← hcount]
    have hkept : ∀ e, e.breaks = false → ∀ x ∈ b ++ [e], x.breaks = false := fun e he x hx => by
      rcases List.mem_append.1 hx with hx | hx
      · exact hb x hx
      · exact List.mem_singleton.1 hx ▸ he
    cases e with
    | disabled => exact ⟨a ++ b ++ [.disabled], [], by simp, by simp, rfl⟩
    | passed reading => exact ⟨a ++ b ++ [.passed reading], [], by simp, by simp, rfl⟩
    | unread e =>
      refine ⟨a, b ++ [.unread e], by simp, hkept _ rfl, ?_⟩
      rw [List.countP_append]
      rfl
    | held reading r =>
      refine ⟨a, b ++ [.held reading r], by simp, hkept _ rfl, ?_⟩
      rw [List.countP_append]
      rfl

variable {h : List Seen}

/-- Without a break the streak grows. -/
theorem runLength_append_ge {mid : List Seen} (hmid : ∀ e ∈ mid, e.breaks = false) :
    runLength h ≤ runLength (h ++ mid) := by
  induction mid using List.reverseRecOn with
  | nil => rw [List.append_nil]
  | append_singleton mid e ih =>
    rw [← List.append_assoc, runLength_concat]
    have hle := ih fun x hx => hmid x (List.mem_append_left _ hx)
    cases e with
    | disabled => exact absurd (hmid .disabled (by simp)) (by decide)
    | passed reading => exact absurd (hmid (.passed reading) (by simp)) (by simp [Seen.breaks])
    | unread e => exact hle
    | held reading r => exact Nat.le_succ_of_le hle

/-- What a sweep may see of a rule after a history: a reading that is judged rightly, and an attempt
where the rule is not latched and its dwell is over. -/
def Follows (rule : Rule) (h : List Seen) : Seen → Prop
  | .disabled | .unread _ => True
  | .passed reading => ¬ rule.Satisfied reading
  | .held reading r => rule.Satisfied reading ∧
      (r ≠ none ↔ latchedAfter h = false ∧ rule.dwell.toNat ≤ runLength h + 1)

variable {rule : Rule}

/-- **A latch stays** until the comparison is false. -/
theorem latchedAfter_append {mid : List Seen} (hlatched : latchedAfter h = true)
    (hmid : ∀ reading, .passed reading ∉ mid)
    (hfollows : ∀ pre e post, mid = pre ++ e :: post → Follows rule (h ++ pre) e) :
    latchedAfter (h ++ mid) = true := by
  induction mid using List.reverseRecOn with
  | nil => rwa [List.append_nil]
  | append_singleton mid e ih =>
    have hbefore : latchedAfter (h ++ mid) = true :=
      ih (fun reading hx => hmid reading (List.mem_append_left _ hx)) fun pre x post hx =>
        hfollows pre x (post ++ [e]) (by rw [hx, List.append_assoc, List.cons_append])
    have hlast : Follows rule (h ++ mid) e := hfollows mid e [] rfl
    rw [← List.append_assoc, latchedAfter_concat, hbefore]
    cases e with
    | disabled => rfl
    | passed reading => exact absurd (by simp) (hmid reading)
    | unread e => rfl
    | held reading r =>
      -- an attempt would need a rule that is not latched
      obtain rfl : r = none := by
        by_contra hr
        exact absurd (hlast.2.1 hr).1 (by simp [hbefore])
      rfl

/-- A rule that is not latched stays so until it attempts a release. -/
theorem not_latchedAfter_append {mid : List Seen} (hlatched : latchedAfter h = false)
    (hmid : ∀ e ∈ mid, e.isHeld = false) : latchedAfter (h ++ mid) = false := by
  induction mid using List.reverseRecOn with
  | nil => rwa [List.append_nil]
  | append_singleton mid e ih =>
    rw [← List.append_assoc, latchedAfter_concat, ih fun x hx => hmid x (List.mem_append_left _ hx)]
    cases e with
    | disabled => rfl
    | passed reading => rfl
    | unread e => rfl
    | held reading r => exact absurd (hmid (.held reading r) (by simp)) (by simp [Seen.isHeld])

/-! ### A rule through the sweeps -/

/-- The rule after a history. -/
def Rule.after (rule : Rule) (h : List Seen) : Rule :=
  { rule with streak := UInt8.ofNat (min 255 (runLength h)), latched := latchedAfter h }

/-- A rule as it is loaded. -/
def Rule.Fresh (rule : Rule) : Prop := rule.streak = 0 ∧ rule.latched = false

theorem Rule.Fresh.after_nil (h : rule.Fresh) : rule.after [] = rule := by
  obtain ⟨hstreak, hlatched⟩ := h
  unfold Rule.after
  rw [show latchedAfter [] = rule.latched from hlatched.symm,
    show UInt8.ofNat (min 255 (runLength [])) = rule.streak from hstreak.symm]

/-- The streak counts up to 255. -/
theorem streak_succ (n : ℕ) :
    (if UInt8.ofNat (min 255 n) < 255 then UInt8.ofNat (min 255 n) + 1 else UInt8.ofNat (min 255 n)) =
      UInt8.ofNat (min 255 (n + 1)) := by
  have hlt : UInt8.ofNat (min 255 n) < 255 ↔ n < 255 := by
    rw [UInt8.lt_iff_toNat_lt, UInt8.toNat_ofNat_of_lt' (by show min 255 n < 256; omega)]
    show min 255 n < 255 ↔ _
    omega
  by_cases h : n < 255
  · rw [if_pos (hlt.2 h), Nat.min_eq_right (by omega), Nat.min_eq_right (by omega), UInt8.ofNat_add]
    rfl
  · rw [if_neg (mt hlt.1 h), Nat.min_eq_left (by omega), Nat.min_eq_left (by omega)]

/-- The dwell is over once the streak, which stops at 255, has reached it. -/
theorem dwell_le (dwell : UInt8) (n : ℕ) : dwell ≤ UInt8.ofNat (min 255 n) ↔ dwell.toNat ≤ n := by
  have hlt := dwell.toNat_lt
  rw [UInt8.le_iff_toNat_le, UInt8.toNat_ofNat_of_lt' (by show min 255 n < 256; omega)]
  omega

/-- A sweep in which the comparison holds. -/
theorem bump_after (rule : Rule) (h : List Seen) (reading : Scalar) :
    (rule.after h).bump = rule.after (h ++ [.held reading none]) := by
  have hsucc := streak_succ (runLength h)
  unfold Rule.bump Rule.after
  rw [runLength_concat, latchedAfter_concat]
  dsimp only [Seen.count, Seen.latch]
  rw [← hsucc]
  split_ifs <;> rfl

/-- The rule latches if it was released. -/
theorem release_fst (a : Answers) (rule : Rule) (st : State) :
    (release a rule st).1 = released a.add := by
  unfold release
  cases a.add with
  | none => rfl
  | some e =>
    dsimp only
    split_ifs with he
    · rw [he]
      rfl
    · simp [released, he]

/-- **One sweep of a rule.** -/
theorem turn_after (rule : Rule) (h : List Seen) (enabled : Bool) (a : Answers) :
    let e := ((rule.after h).turn enabled a).2
    ((rule.after h).turn enabled a).1 = rule.after (h ++ [e]) ∧ Follows rule h e := by
  have hjudged : ∀ reading, holds (rule.after h).cmp
      (order (widen (rule.after h).type reading) (widen (rule.after h).type (rule.after h).bound)) =
        true ↔ rule.Satisfied reading := holds_iff rule
  unfold Rule.turn
  cases enabled with
  | false =>
    refine ⟨?_, trivial⟩
    simp only [Rule.after, runLength_concat, latchedAfter_concat]
    rfl
  | true =>
    simp only [Bool.not_true, Bool.false_eq_true, if_false]
    unfold evaluate
    cases hread : a.read with
    | error e =>
      refine ⟨?_, trivial⟩
      simp only [Rule.after, runLength_concat, latchedAfter_concat]
      rfl
    | ok reading =>
      dsimp only
      by_cases hsat : rule.Satisfied reading
      swap
      · rw [if_pos (by rw [Bool.not_eq_true', ← Bool.not_eq_true, hjudged]; exact hsat)]
        refine ⟨?_, hsat⟩
        simp only [Rule.after, runLength_concat, latchedAfter_concat]
        rfl
      · rw [if_neg (by rw [(hjudged reading).2 hsat]; decide), bump_after rule h reading]
        have hlatched : (rule.after (h ++ [.held reading none])).latched = latchedAfter h :=
          latchedAfter_concat h _
        have hstreak : (rule.after (h ++ [.held reading none])).streak ≥ rule.dwell ↔
            rule.dwell.toNat ≤ runLength h + 1 := by
          show rule.dwell ≤ UInt8.ofNat (min 255 (runLength (h ++ [.held reading none]))) ↔ _
          rw [dwell_le, runLength_concat]
          rfl
        have hcond : (!(rule.after (h ++ [.held reading none])).latched &&
            decide ((rule.after (h ++ [.held reading none])).streak ≥
              (rule.after (h ++ [.held reading none])).dwell)) = true ↔
            latchedAfter h = false ∧ rule.dwell.toNat ≤ runLength h + 1 := by
          rw [Bool.and_eq_true, Bool.not_eq_true', hlatched, decide_eq_true_iff]
          exact and_congr_right fun _ => hstreak
        by_cases hattempt : latchedAfter h = false ∧ rule.dwell.toNat ≤ runLength h + 1
        · rw [if_pos (hcond.2 hattempt)]
          refine ⟨?_, hsat, iff_of_true (by simp) hattempt⟩
          dsimp only
          rw [release_fst]
          simp only [Rule.after, runLength_concat, latchedAfter_concat]
          rfl
        · rw [if_neg (mt hcond.1 hattempt)]
          exact ⟨rfl, hsat, iff_of_false (by simp) hattempt⟩

/-- The history of a rule grows by what the sweep saw of it. -/
theorem history_concat {i : ℕ} {rows : List (List Seen)} {row : List Seen} {e : Seen}
    (h : row[i]? = some e) : history i (rows ++ [row]) = history i rows ++ [e] := by
  unfold history
  rw [List.filterMap_append, List.filterMap_cons_some (by exact h), List.filterMap_nil]

/-- Every sweep of a history saw what may follow. -/
def Admissible (rule : Rule) (h : List Seen) : Prop :=
  ∀ pre e post, h = pre ++ e :: post → Follows rule pre e

theorem Admissible.concat {e : Seen} (hh : Admissible rule h) (he : Follows rule h e) :
    Admissible rule (h ++ [e]) := by
  intro pre x post hx
  rcases List.eq_nil_or_concat post with rfl | ⟨post, y, rfl⟩
  · obtain ⟨rfl, hxe⟩ := List.append_inj' hx rfl
    exact List.singleton_inj.1 hxe ▸ he
  · rw [List.concat_eq_append, ← List.cons_append, ← List.append_assoc] at hx
    exact hh pre x post (List.append_inj' hx rfl).1

/-- **A rule through the sweeps**: it is where its history says, and goes there alone as well. -/
theorem rule_run {s s' : Service} {rows : List (List Seen)} (hr : Run Step s rows s') {i : ℕ}
    (hi : s.rules[i]? = some rule) (hfresh : rule.Fresh) :
    rows.map (·[i]?) = (history i rows).map some ∧
      s'.rules[i]? = some (rule.after (history i rows)) ∧ Admissible rule (history i rows) ∧
      ∃ t, Run Step ⟨[rule], s.state⟩ (rows.map (·[i]?.toList)) t ∧
        t.rules = [rule.after (history i rows)] := by
  induction hr with
  | nil =>
    refine ⟨rfl, ?_, fun pre e post h => ?_, ⟨[rule], s.state⟩, .nil _, ?_⟩
    · rw [hi, history, List.filterMap_nil, hfresh.after_nil]
    · exact absurd h (by simp [history])
    · rw [history, List.filterMap_nil, hfresh.after_nil]
  | @snoc m s' rows row _ hs ih =>
    obtain ⟨hrows, hm, hadm, t, ht, htrules⟩ := ih
    obtain ⟨enabled, answers, hsweep⟩ := hs
    obtain ⟨hrules, hrow⟩ := sweep_turns enabled answers m
    rw [hsweep] at hrules hrow
    dsimp only at hrules hrow
    obtain ⟨hafter, hfollows⟩ := turn_after rule (history i rows) enabled (answers i)
    set e := ((rule.after (history i rows)).turn enabled (answers i)).2 with he
    have hseen : row[i]? = some e := by
      rw [hrow, List.getElem?_mapIdx, hm]
      rfl
    rw [history_concat hseen]
    refine ⟨?_, ?_, hadm.concat hfollows, ?_⟩
    · rw [List.map_append, List.map_append, hrows, List.map_singleton, hseen]
      rfl
    · rw [hrules, List.getElem?_mapIdx, hm]
      exact congrArg some hafter
    · -- alone, with the answers that the rule got
      obtain ⟨halone, harow⟩ := sweep_turns enabled (fun _ => answers i) t
      rw [htrules] at halone harow
      refine ⟨(t.sweep enabled fun _ => answers i).2.1, ?_, ?_⟩
      · rw [List.map_append, List.map_singleton, hseen]
        exact ht.snoc ⟨enabled, fun _ => answers i, Prod.ext rfl harow⟩
      · rw [halone]
        exact congrArg (fun r => [r]) hafter

/-! ### Once per crossing -/

/-- After a release that failed, the rule attempts again at the next reading that satisfies the
comparison, where the sweeps between are as `when` says. -/
def AttemptsAgain (rule : Rule) (when : Rule → List Seen → Prop) (h : List Seen) : Prop :=
  ∀ pre reading answer mid reading' r post,
    h = pre ++ .held reading (some answer) :: (mid ++ .held reading' r :: post) →
    released answer = false → (∀ e ∈ mid, e.isHeld = false) → when rule mid → r ≠ none

/-- Nothing between them broke the streak, or one reading is enough. -/
def Unbroken (rule : Rule) (mid : List Seen) : Prop :=
  (∀ e ∈ mid, e.breaks = false) ∨ rule.dwell.toNat ≤ 1

/-- **Once per crossing, and after the dwell.** -/
structure FiresOnce (rule : Rule) (when : Rule → List Seen → Prop) (h : List Seen) : Prop where
  judged : (∀ reading r, .held reading r ∈ h → rule.Satisfied reading) ∧
    ∀ reading, .passed reading ∈ h → ¬ rule.Satisfied reading
  dwell : ∀ pre reading answer post, h = pre ++ .held reading (some answer) :: post →
    ∃ a b, pre ++ [.held reading (some answer)] = a ++ b ∧ (∀ e ∈ b, e.breaks = false) ∧
      rule.dwell.toNat ≤ b.countP Seen.isHeld
  once : ∀ pre reading answer mid reading' answer' post,
    h = pre ++ .held reading (some answer) :: (mid ++ .held reading' (some answer') :: post) →
    released answer = true → ∃ reading'', .passed reading'' ∈ mid
  again : AttemptsAgain rule when h

/-- What may follow fires once per crossing. -/
theorem Admissible.firesOnce (hh : Admissible rule h) : FiresOnce rule Unbroken h := by
  refine ⟨⟨fun reading r hmem => ?_, fun reading hmem => ?_⟩, ?_, ?_, ?_⟩
  · obtain ⟨pre, post, hsplit⟩ := List.append_of_mem hmem
    exact (hh pre _ post hsplit).1
  · obtain ⟨pre, post, hsplit⟩ := List.append_of_mem hmem
    exact hh pre _ post hsplit
  · intro pre reading answer post hsplit
    obtain ⟨-, hdwell⟩ := ((hh pre _ post hsplit).2.1 (by simp))
    obtain ⟨a, b, hab, hb, hcount⟩ := exists_stretch (pre ++ [.held reading (some answer)])
    refine ⟨a, b, hab, hb, ?_⟩
    rw [hcount, runLength_concat]
    exact hdwell
  · intro pre reading answer mid reading' answer' post hsplit hreleased
    by_contra hnone
    have hlatched : latchedAfter (pre ++ [.held reading (some answer)]) = true := by
      rw [latchedAfter_concat]
      exact hreleased
    have hsplit' : h = pre ++ [.held reading (some answer)] ++ mid ++
        .held reading' (some answer') :: post := by
      rw [hsplit]
      simp
    have hstill := latchedAfter_append hlatched (fun x hx => hnone ⟨x, hx⟩)
      fun a e b hab => hh _ e (b ++ .held reading' (some answer') :: post) (by
        rw [hsplit', hab]
        simp)
    exact absurd ((hh _ _ post hsplit').2.1 (by simp)).1 (by rw [hstill]; decide)
  · intro pre reading answer mid reading' r post hsplit hfailed hmid hunbroken
    have hsplit' : h = pre ++ [.held reading (some answer)] ++ mid ++ .held reading' r :: post := by
      rw [hsplit]
      simp
    obtain ⟨-, hdwell⟩ := (hh pre _ _ hsplit).2.1 (by simp)
    have hopen : latchedAfter (pre ++ [.held reading (some answer)]) = false := by
      rw [latchedAfter_concat]
      exact hfailed
    refine (hh _ _ post hsplit').2.2 ⟨not_latchedAfter_append hopen hmid, ?_⟩
    rcases hunbroken with hbreaks | hone
    · have hle := runLength_append_ge (h := pre ++ [.held reading (some answer)]) hbreaks
      rw [runLength_concat] at hle
      exact hdwell.trans (hle.trans (Nat.le_succ _))
    · omega

/-- **Limit rules fire once per crossing and only after their dwell**, whatever sweeps come and
whatever they are answered; every sweep sees every rule, and each rule goes through them as it would
alone. -/
theorem sweep_fires_once {s s' : Service} {rows : List (List Seen)}
    (hloaded : ∀ rule ∈ s.rules, rule.Fresh) (hr : Run Step s rows s') {i : ℕ} {rule : Rule}
    (hi : s.rules[i]? = some rule) : FiresOnce rule Unbroken (history i rows) ∧
      rows.map (·[i]?) = (history i rows).map some ∧
      ∃ t, Run Step ⟨[rule], s.state⟩ (rows.map (·[i]?.toList)) t ∧
        t.rules = s'.rules[i]?.toList := by
  obtain ⟨hrows, hafter, hadm, t, ht, htrules⟩ :=
    rule_run hr hi (hloaded rule (List.mem_of_getElem? hi))
  exact ⟨hadm.firesOnce, hrows, t, ht, by rw [htrules, hafter]; rfl⟩

/-- Some sweeps, one after the other. -/
def sweeps : List (Bool × (ℕ → Answers)) → Service → List (List Seen) × Service
  | [], s => ([], s)
  | (enabled, answers) :: rest, s =>
    let (_, s, row) := s.sweep enabled answers
    let (rows, s) := sweeps rest s
    (row :: rows, s)

theorem sweeps_run (inputs : List (Bool × (ℕ → Answers))) (s : Service) :
    Run Step s (sweeps inputs s).1 (sweeps inputs s).2 := by
  induction inputs generalizing s with
  | nil => exact .nil s
  | cons input rest ih =>
    obtain ⟨enabled, answers⟩ := input
    exact .cons ⟨enabled, answers, rfl⟩ (ih _)

/-- A rule on a byte above 90, that has to hold for two sweeps. -/
def sampleRule : Rule :=
  ⟨0, .ofString "stack_worst_used", .U8, .GT, 90, .ofString "90", 2, 0, false, 0,
    .ofString "resmon sample"⟩

/-- The service with this rule. -/
def sampleService : Service := ⟨[sampleRule], Service.reset.state⟩

theorem sampleService_fresh : ∀ rule ∈ sampleService.rules, rule.Fresh :=
  fun _ h => List.mem_singleton.1 h ▸ ⟨rfl, rfl⟩

/-- The reading is 95; the release is answered so. -/
def reading95 (add : Option Errno) : Bool × (ℕ → Answers) := (true, fun _ => ⟨.ok 95, add, 0⟩)

/-- The rule fires in the second sweep, and not in the third. -/
theorem sweep_fires_once_sample :
    FiresOnce sampleRule Unbroken [.held 95 none, .held 95 (some none), .held 95 none] :=
  (sweep_fires_once sampleService_fresh
    (sweeps_run [reading95 none, reading95 none, reading95 none] sampleService)
    (show sampleService.rules[0]? = some sampleRule from rfl)).1

/-- **A disabled sweep delays the next attempt.**  After a release that failed, a disabled sweep makes
the dwell begin anew, so that the next reading that satisfies the comparison is not enough. -/
theorem sweep_delays : ¬ ∀ (s s' : Service) (rows : List (List Seen)),
    (∀ rule ∈ s.rules, rule.Fresh) → Run Step s rows s' → ∀ (i : ℕ) (rule : Rule),
    s.rules[i]? = some rule → FiresOnce rule (fun _ _ => True) (history i rows) := by
  intro h
  have hrun := sweeps_run [reading95 none, reading95 (some .ENOSPC), (false, (reading95 none).2),
    reading95 none] sampleService
  have hfires := h _ _ _ sampleService_fresh hrun 0 sampleRule rfl
  exact hfires.again [.held 95 none] 95 (some .ENOSPC) [.disabled] 95 none [] rfl rfl
    (by decide) trivial rfl

end KfswServices.Limits
