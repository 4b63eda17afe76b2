/-
# Counters and counts

A counter of 32 bits that stops at its largest value (`toNat_saturatingInc`), and what such counters
are compared with: the maximal runs of entries that satisfy a predicate, counted by where they
start, at an entry that satisfies it and has none that does in front of it.  `maximalRuns_concat` is
the rule for a list that grows at its end, as a history does.
-/

import Mathlib.Data.List.Basic
import Mathlib.Data.UInt

namespace KfswServices.Library

/-- One more, unless the counter is at its largest value. -/
def saturatingInc (c : UInt32) : UInt32 := if c = 0xffffffff then c else c + 1

theorem toNat_saturatingInc (c : UInt32) :
    (saturatingInc c).toNat = min (c.toNat + 1) (2 ^ 32 - 1) := by
  have hlt := c.toNat_lt
  unfold saturatingInc
  by_cases h : c = 0xffffffff
  · subst h
    rfl
  · have hne : c.toNat ≠ 2 ^ 32 - 1 := fun heq => h (UInt32.toNat_inj.1 heq)
    rw [if_neg h, UInt32.toNat_add, UInt32.toNat_one]
    omega

variable {α : Type*} {p : α → Bool}

/-- A maximal run starts at index `i`. -/
def startsRun (p : α → Bool) (l : List α) (i : ℕ) : Bool :=
  l[i]?.any p && !(i ≠ 0 && l[i - 1]?.any p)

/-- The number of maximal runs. -/
def maximalRuns (p : α → Bool) (l : List α) : ℕ := (List.range l.length).countP (startsRun p l)

/-- **A new entry starts a run unless it continues the one at the end.** -/
theorem maximalRuns_concat (l : List α) (x : α) :
    maximalRuns p (l ++ [x]) =
      maximalRuns p l + if p x && !l.getLast?.any p then 1 else 0 := by
  have hold : (List.range l.length).countP (startsRun p (l ++ [x])) = maximalRuns p l := by
    refine List.countP_congr fun i hi => ?_
    have hlt := List.mem_range.1 hi
    unfold startsRun
    rw [List.getElem?_append_left hlt, List.getElem?_append_left (by omega)]
  have hnew : startsRun p (l ++ [x]) l.length = (p x && !l.getLast?.any p) := by
    unfold startsRun
    rw [List.getElem?_append_right (Nat.le_refl _), Nat.sub_self, List.getLast?_eq_getElem?]
    rcases l with _ | ⟨y, ys⟩
    · simp
    · rw [List.getElem?_append_left (by simp)]
      simp
  unfold maximalRuns
  rw [List.length_append, List.length_singleton, List.range_succ, List.countP_append, hold,
    List.countP_singleton, hnew]
  rfl

example : maximalRuns id [true, true, false, true] = 2 := by decide

end KfswServices.Library
