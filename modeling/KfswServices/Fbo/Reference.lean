/-
# What a procedure means

The meaning of a procedure file, line by line (`reference`): delete the carriage returns and split
at the newlines; ignore blank lines and comments; number the others; skip the line behind a guard
whose event is absent; fail a line that is longer than the buffer; run any other line; after a
failure stop, unless the last `on-error` said `continue`; fail the line behind
`CONFIG_KFSW_FBO_LINES_MAX`, and the line that the byte limit cuts.  The value returned is the
first failure.

`run_procedure` is not that for every file.  `runProcedure_eq_reference_iff` says for which it is.
-/

import KfswServices.Fbo.ProcedureLines

namespace KfswServices.Fbo

open Command Library

variable {ω : Type*} {lim : Limits} {h : Host ω} {line : List UInt8} {s : Progress ω}

/-! ### The reference -/

/-- A line that is blank, or a comment. -/
def ignorable (line : List UInt8) : Bool :=
  match line.dropWhile isBlank with
  | [] => true
  | c :: _ => c = 35

/-- The text of a line, from its first character that is not blank. -/
def lineText (line : List UInt8) : CString := (bufferText line).dropWhile isBlank

/-- The words of a line, one more than it may have. -/
def lineWords (text : CString) : List CString := tokenise (maxArgs + 2) text

/-- The source and the id of a guard, `if-event SOURCE ID skip`. -/
def guardOf (words : List CString) : Option (UInt16 × UInt16) :=
  match words with
  | [directive, source, id, verb] =>
    if directive = CString.ofString "if-event" ∧ verb = CString.ofString "skip" then
      match parseU32 source, parseU32 id with
      | some source, some id =>
        if source.toNat > 65535 ∨ id.toNat > 65535 then none
        else some (source.toUInt16, id.toUInt16)
      | _, _ => none
    else none
  | _ => none

/-- Whether a line `on-error POLICY` says to stop. -/
def policyOf (words : List CString) : Option Bool :=
  match words with
  | [directive, policy] =>
    if directive = CString.ofString "on-error" then
      if policy = CString.ofString "stop" then some true
      else if policy = CString.ofString "continue" then some false
      else none
    else none
  | _ => none

/-- The line is a guard whose event is absent. -/
def guardsNext (lim : Limits) (h : Host ω) (text : CString) (w : World ω) : Bool :=
  (guardOf (lineWords text)).any fun g => !eventSeen lim h g.1 g.2 w

/-- The first failure is kept. -/
def Progress.fail (e : Errno) (s : Progress ω) : Progress ω :=
  { s with outcome := s.outcome.or (some e) }

/-- A counted line: a failure stops the run as the policy says. -/
def Progress.conclude (h : Host ω) (act : Act) (outcome : Option Errno) (s : Progress ω) :
    Act × Progress ω × Bool :=
  match outcome with
  | none => (act, s.record h none, true)
  | some e => (act, (s.record h (some e)).fail e, !s.stopOnError)

/-- A line that is run.  Whatever running it did, the guard and the policy are what its words
say. -/
def refRun (lim : Limits) (h : Host ω) (text : CString) (s : Progress ω) :
    Act × Progress ω × Bool :=
  let r := runLine lim h text false s.stopOnError s.node
  { s with
    skipNext := guardsNext lim h text s.node.world
    stopOnError := (policyOf (lineWords text)).getD s.stopOnError
    node := r.node }.conclude h (.ran s.lineNumber text r.outcome) r.outcome

/-- A line that has its number. -/
def refNumbered (lim : Limits) (h : Host ω) (line : List UInt8) (s : Progress ω) :
    Act × Progress ω × Bool :=
  if s.skipNext then (.skipped s.lineNumber, s.skip, true)
  else if lim.lineMax ≤ line.length then
    s.conclude h (.overlong s.lineNumber) (some .ENAMETOOLONG)
  else refRun lim h (lineText line) s

/-- What becomes of a line. -/
def refStep (lim : Limits) (h : Host ω) (line : List UInt8) (s : Progress ω) :
    Act × Progress ω × Bool :=
  if ignorable line then (.ignored, s, true)
  else if s.lineNumber = lim.linesMax then (.refused .E2BIG, s.fail .E2BIG, false)
  else refNumbered lim h line s.advance

/-- The end of the lines; `cut` when the byte limit cuts one. -/
def refClose (cut : Bool) (s : Progress ω) : List Act × Progress ω :=
  if cut then ([.refused .EFBIG], s.fail .EFBIG) else ([], s)

/-- The lines of a file, without the one that the byte limit cuts. -/
def procedureLines (lim : Limits) (content : List UInt8) : List (List UInt8) :=
  if content.length ≤ lim.bytesMax then (deleteCr content).splitOn 10
  else ((deleteCr (content.take lim.bytesMax)).splitOn 10).dropLast

/-- The byte limit cuts a line. -/
def overLimit (lim : Limits) (content : List UInt8) : Bool :=
  decide (lim.bytesMax < content.length)

/-- **What a procedure means.** -/
def reference (lim : Limits) (h : Host ω) (content : List UInt8) (n : Node (World ω)) :
    Report ω :=
  finish h none
    (follow (refStep lim h) (refClose (overLimit lim content)) (procedureLines lim content)
      (begin h n))

/-- What an act fails with. -/
def Act.failure : Act → Option Errno
  | ignored => none
  | skipped _ => none
  | overlong _ => some .ENAMETOOLONG
  | ran _ _ outcome => outcome
  | refused e => some e

/-! ### Bookkeeping -/

@[simp] theorem accountForOthers_outcome (s : Progress ω) :
    (s.accountForOthers h).outcome = s.outcome := rfl

@[simp] theorem accountForOthers_stopOnError (s : Progress ω) :
    (s.accountForOthers h).stopOnError = s.stopOnError := rfl

@[simp] theorem record_outcome (outcome : Option Errno) (s : Progress ω) :
    (s.record h outcome).outcome = s.outcome := by
  rw [Progress.record]
  split_ifs <;> rfl

@[simp] theorem record_stopOnError (outcome : Option Errno) (s : Progress ω) :
    (s.record h outcome).stopOnError = s.stopOnError := by
  rw [Progress.record]
  split_ifs <;> rfl

@[simp] theorem fail_outcome (e : Errno) (s : Progress ω) :
    (s.fail e).outcome = s.outcome.or (some e) := rfl

@[simp] theorem conclude_act (act : Act) (outcome : Option Errno) (s : Progress ω) :
    (s.conclude h act outcome).1 = act := by
  cases outcome <;> rfl

@[simp] theorem conclude_outcome (act : Act) (outcome : Option Errno) (s : Progress ω) :
    (s.conclude h act outcome).2.1.outcome = s.outcome.or outcome := by
  cases outcome <;> simp [Progress.conclude]

@[simp] theorem advance_outcome (s : Progress ω) : s.advance.outcome = s.outcome := rfl

@[simp] theorem skip_outcome (s : Progress ω) : s.skip.outcome = s.outcome := rfl

/-- **A step keeps the first failure**, and adds its own. -/
theorem refStep_outcome (lim : Limits) (h : Host ω) (line : List UInt8) (s : Progress ω) :
    (refStep lim h line s).2.1.outcome = s.outcome.or (refStep lim h line s).1.failure := by
  rw [refStep, refNumbered]
  split_ifs <;> simp [Act.failure, refRun]

/-- **The value returned is the first failure** among the acts of the run. -/
theorem follow_refStep_outcome (cut : Bool) (lines : List (List UInt8)) (s : Progress ω) :
    (follow (refStep lim h) (refClose cut) lines s).2.outcome = s.outcome.or
        ((follow (refStep lim h) (refClose cut) lines s).1.findSome? Act.failure) := by
  induction lines generalizing s with
  | nil =>
    rw [follow_nil, refClose]
    split_ifs <;> simp [Act.failure]
  | cons line rest ih =>
    have hstep := refStep_outcome lim h line s
    rcases hs : refStep lim h line s with ⟨act, s', _ | _⟩ <;> rw [hs] at hstep
    · rw [follow_stop hs, show s'.outcome = _ from hstep]
      cases hf : act.failure <;> simp [hf]
    · rw [follow_go hs, ih, show s'.outcome = _ from hstep, Option.or_assoc]
      congr 1
      cases hf : act.failure <;> simp [hf]

end KfswServices.Fbo
