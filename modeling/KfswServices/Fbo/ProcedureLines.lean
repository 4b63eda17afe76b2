/-
# A procedure line by line

`read_line` takes a byte at a time and stops at the byte limit; the loop of `run_procedure` takes
a line at a time.  On a storage that works and without a stop request, the run is a script of the
lines that the limit holds, with their carriage returns deleted (`procedureLoop_eq_follow`).  The
bytes of an unfinished line reach nobody.
-/

import KfswServices.Fbo.Procedure
import KfswServices.Library.Run
import KfswServices.Library.Split

namespace KfswServices.Fbo

open Command Library

variable {ω : Type*} {lim : Limits} {h : Host ω} {content : List UInt8}

/-- The bytes of a line, without carriage returns. -/
def deleteCr (xs : List UInt8) : List UInt8 := xs.filter (· ≠ 13)

variable {bytes : ℕ}

/-- **A part of a line** that `read_line` has read, inside the byte limit: what fits is in the
buffer. -/
theorem readLine_append (tail : List UInt8) {pre : List UInt8} (hpre : 10 ∉ pre)
    (hbytes : bytes + pre.length ≤ lim.bytesMax) {used : List UInt8}
    (hused : used.length < lim.lineMax) (overflowed : Bool) :
    readLine lim (.working content) false (pre ++ tail) bytes used overflowed =
      readLine lim (.working content) false tail (bytes + pre.length)
        ((used ++ deleteCr pre).take (lim.lineMax - 1))
        (overflowed || decide (lim.lineMax ≤ (used ++ deleteCr pre).length)) := by
  induction pre generalizing bytes used overflowed with
  | nil =>
    have htake : used.take (lim.lineMax - 1) = used := List.take_of_length_le (by omega)
    have hfits : decide (lim.lineMax ≤ used.length) = false := by simpa using hused
    simp [deleteCr, htake, hfits]
  | cons c pre ih =>
    rw [List.mem_cons, not_or] at hpre
    rw [List.length_cons] at hbytes
    have hc : c ≠ 10 := Ne.symm hpre.1
    rw [List.cons_append, readLine, interrupted, if_neg (by simp)]
    simp only [ProcedureFile.working, if_neg (show ¬ lim.bytesMax ≤ bytes by omega), if_neg hc]
    rw [List.length_cons, show bytes + (pre.length + 1) = bytes + 1 + pre.length by omega]
    by_cases hcr : c = 13
    · have hdel : deleteCr (c :: pre) = deleteCr pre := by simp [deleteCr, hcr]
      rw [if_pos hcr, hdel]
      exact ih hpre.2 (by omega) hused overflowed
    · have hdel : deleteCr (c :: pre) = c :: deleteCr pre := by simp [deleteCr, hcr]
      rw [if_neg hcr, hdel]
      by_cases hfull : lim.lineMax ≤ used.length + 1
      · have hlen : used.length = lim.lineMax - 1 := by omega
        rw [if_pos hfull]
        refine (ih hpre.2 (by omega) hused true).trans ?_
        rw [List.take_left' hlen, List.take_left' hlen]
        congr 1
        simp only [Bool.true_or, List.length_append, List.length_cons]
        rw [Eq.comm, Bool.or_eq_true, decide_eq_true_iff]
        omega
      · rw [if_neg hfull]
        refine (ih hpre.2 (by omega) (by rw [List.length_append]; simp; omega) overflowed).trans ?_
        rw [List.append_assoc]
        rfl

/-- What `read_line` leaves of a whole line. -/
def wholeLine (lim : Limits) (line rest : List UInt8) (bytes : ℕ) (atEnd : Bool) : LineRead :=
  ⟨overflowResult (decide (lim.lineMax ≤ line.length)), bufferText (line.take (lim.lineMax - 1)),
    rest, bytes, atEnd⟩

/-- A line, its newline included, inside the byte limit. -/
theorem readLine_line {pre : List UInt8} (hpre : 10 ∉ pre)
    (hbytes : bytes + pre.length < lim.bytesMax) (post : List UInt8) :
    readLine lim (.working content) false (pre ++ 10 :: post) bytes [] false =
      wholeLine lim (deleteCr pre) post (bytes + pre.length + 1) false := by
  have hrange := lim.lineMax_range
  rw [readLine_append _ hpre (by omega) (by rw [List.length_nil]; omega), List.nil_append,
    Bool.false_or, readLine, interrupted, if_neg (by simp)]
  simp only [ProcedureFile.working,
    if_neg (show ¬ lim.bytesMax ≤ bytes + pre.length by omega), if_true]
  rfl

variable {rest : List UInt8}

/-- The last line, inside the byte limit. -/
theorem readLine_last (hrest : 10 ∉ rest) (hbytes : bytes + rest.length ≤ lim.bytesMax) :
    readLine lim (.working content) false rest bytes [] false =
      wholeLine lim (deleteCr rest) [] (bytes + rest.length) true := by
  have hrange := lim.lineMax_range
  have happend : readLine lim (.working content) false (rest ++ []) bytes [] false = _ :=
    readLine_append [] hrest hbytes (by rw [List.length_nil]; omega) false
  rw [List.append_nil] at happend
  rw [happend, List.nil_append, Bool.false_or, readLine, interrupted, if_neg (by simp)]
  rfl

/-- A line that the byte limit cuts. -/
theorem readLine_cut (hbytes : bytes ≤ lim.bytesMax)
    (hrest : 10 ∉ rest.take (lim.bytesMax - bytes)) (hlen : lim.bytesMax - bytes < rest.length) :
    (readLine lim (.working content) false rest bytes [] false).result = some .EFBIG := by
  have hrange := lim.lineMax_range
  obtain ⟨c, tail, htail⟩ := List.exists_cons_of_ne_nil
    (List.ne_nil_of_length_pos (l := rest.drop (lim.bytesMax - bytes))
      (by rw [List.length_drop]; omega))
  have htake : (rest.take (lim.bytesMax - bytes)).length = lim.bytesMax - bytes := by
    rw [List.length_take]
    omega
  rw [← List.take_append_drop (lim.bytesMax - bytes) rest, htail,
    readLine_append _ hrest (by omega) (by rw [List.length_nil]; omega), readLine, interrupted,
    if_neg (by simp)]
  simp only [ProcedureFile.working, htake,
    if_pos (show lim.bytesMax ≤ bytes + (lim.bytesMax - bytes) by omega)]

/-- The loop's body on a line of the file. -/
def codeStep (lim : Limits) (h : Host ω) (line : List UInt8) (s : Progress ω) :
    Act × Progress ω × Bool :=
  lineStep lim h (decide (lim.lineMax ≤ line.length)) (bufferText (line.take (lim.lineMax - 1))) s

/-- The loop when there are no more lines; `cut` when the byte limit is why. -/
def codeClose (cut : Bool) (s : Progress ω) : List Act × Progress ω :=
  if cut then ([.refused .EFBIG], { s with outcome := some .EFBIG }) else ([], s)

/-- The lines of a file that so many bytes of it hold, and whether it goes on behind them. -/
def linesWithin (limit : ℕ) (content : List UInt8) : List (List UInt8) × Bool :=
  ((splitWithin 10 limit content).1.map deleteCr, (splitWithin 10 limit content).2)

/-- A turn of the loop that reads a whole line, up to its step. -/
theorem procedureLoop_line (hstop : ∀ w, h.stopRequested w = false) {turns : ℕ}
    {line rest' : List UInt8} {bytes' : ℕ} {atEnd : Bool}
    (hr : readLine lim (.working content) false rest bytes [] false =
      wholeLine lim line rest' bytes' atEnd) {s s' : Progress ω} {act : Act} {goOn : Bool}
    (hs : codeStep lim h line s = (act, s', goOn)) :
    procedureLoop lim h (.working content) (turns + 1) rest bytes false s =
      if goOn then
        (act :: (procedureLoop lim h (.working content) turns rest' bytes' atEnd s').1,
          (procedureLoop lim h (.working content) turns rest' bytes' atEnd s').2)
      else ([act], s') := by
  have hok : ¬ ((wholeLine lim line rest' bytes' atEnd).result ≠ none ∧
      (wholeLine lim line rest' bytes' atEnd).result ≠ some .ENAMETOOLONG) := by
    rw [wholeLine, overflowResult]
    split_ifs <;> simp
  have hlong : decide ((wholeLine lim line rest' bytes' atEnd).result = some .ENAMETOOLONG) =
      decide (lim.lineMax ≤ line.length) := by
    rw [wholeLine, overflowResult]
    by_cases hl : lim.lineMax ≤ line.length <;> simp [hl]
  have hstep : lineStep lim h (decide (lim.lineMax ≤ line.length))
      (wholeLine lim line rest' bytes' atEnd).text s = (act, s', goOn) := hs
  rw [procedureLoop, if_neg (by simp), hstop, hr]
  simp only [if_neg hok, hlong, hstep]
  cases goOn <;> rfl

/-- **The loop is a script of the lines.** -/
theorem procedureLoop_eq_follow (hstop : ∀ w, h.stopRequested w = false) {turns : ℕ}
    (hturns : rest.length < turns) (hbytes : bytes ≤ lim.bytesMax) (s : Progress ω) :
    procedureLoop lim h (.working content) turns rest bytes false s =
      follow (codeStep lim h) (codeClose (linesWithin (lim.bytesMax - bytes) rest).2)
        (linesWithin (lim.bytesMax - bytes) rest).1 s := by
  induction turns generalizing rest bytes s with
  | zero => omega
  | succ turns ih =>
    rcases splitWithin_cases 10 (lim.bytesMax - bytes) rest with
      ⟨pre, post, rfl, hpre, hlen⟩ | ⟨hrest, hlen⟩ | ⟨hrest, hlen⟩
    · rw [List.length_append, List.length_cons] at hturns
      have hnext : ∀ s, procedureLoop lim h (.working content) turns post (bytes + pre.length + 1)
          false s = _ := fun s => ih (by omega) (by omega) s
      have hlimit : lim.bytesMax - (bytes + pre.length + 1) =
          lim.bytesMax - bytes - (pre.length + 1) := by omega
      rcases hs : codeStep lim h (deleteCr pre) s with ⟨act, s', goOn⟩
      rw [procedureLoop_line hstop (readLine_line hpre (by omega) post) hs, hnext, linesWithin,
        linesWithin, splitWithin_cons hpre hlen, List.map_cons, hlimit]
      cases goOn with
      | false => rw [follow_stop hs, if_neg (by simp)]
      | true => rw [follow_go hs, if_pos rfl]
    · have hend : ∀ s : Progress ω, procedureLoop lim h (.working content) turns []
          (bytes + rest.length) true s = ([], s) := by
        intro s
        cases turns <;> rfl
      rcases hs : codeStep lim h (deleteCr rest) s with ⟨act, s', goOn⟩
      rw [procedureLoop_line hstop (readLine_last hrest (by omega)) hs, hend, linesWithin,
        splitWithin_last hrest hlen, List.map_cons, List.map_nil]
      cases goOn with
      | false => rw [follow_stop hs, if_neg (by simp)]
      | true =>
        rw [follow_go hs, if_pos rfl, follow_nil]
        rfl
    · have hcut : (readLine lim (.working content) false rest bytes [] false).result = _ :=
        readLine_cut hbytes hrest hlen
      rw [procedureLoop, if_neg (by simp), hstop]
      simp only [hcut]
      rw [linesWithin, splitWithin_cut hrest hlen]
      rfl

end KfswServices.Fbo
