/-
# Which procedures run as they are meant

The loop of `run_procedure` and the reference take the same step on most lines.  They differ on
a line that is too long and either a comment or under a guard, on a line that starts with NUL, on
a size limit that is met after a failure, and on a command that returns `-ECANCELED`.
`LineConforms` and `Conforms` say just that, and `runProcedure_eq_reference_iff` that there is
nothing else.
-/

import KfswServices.Fbo.Reference

namespace KfswServices.Fbo

open Command Library

variable {ω : Type*} {lim : Limits} {h : Host ω} {line : List UInt8} {s : Progress ω}

/-! ### The flags of a line -/

/-- Only `on-error` with one word has a policy. -/
theorem policyOf_eq_none {name : CString} {words : List CString}
    (hw : name ≠ CString.ofString "on-error" ∨ words.length ≠ 1) :
    policyOf (name :: words) = none := by
  rcases words with _ | ⟨policy, _ | ⟨b, words⟩⟩
  · rfl
  · have hne : name ≠ CString.ofString "on-error" := by simpa using hw
    simp [policyOf, hne]
  · rfl

/-- Only `if-event` with three words is a guard. -/
theorem guardOf_eq_none {name : CString} {words : List CString}
    (hw : name ≠ CString.ofString "if-event" ∨ words.length ≠ 3) :
    guardOf (name :: words) = none := by
  rcases words with _ | ⟨source, _ | ⟨id, _ | ⟨verb, _ | ⟨b, words⟩⟩⟩⟩
  · rfl
  · rfl
  · rfl
  · have hne : name ≠ CString.ofString "if-event" := by simpa using hw
    simp [guardOf, hne]
  · rfl

/-- **The policy is set by `on-error` alone.** -/
theorem runLine_stopOnError (text : CString) (skip stop : Bool) (n : Node (World ω)) :
    (runLine lim h text skip stop n).stopOnError = (policyOf (lineWords text)).getD stop := by
  rw [runLine, lineWords]
  rcases tokenise (maxArgs + 2) text with _ | ⟨name, words⟩
  · rfl
  by_cases hlong : words.length + 1 > maxArgs + 1
  · have hmany : maxArgs = 4 := rfl
    simp only [policyOf_eq_none (Or.inr (show words.length ≠ 1 by omega)), if_pos hlong,
      Option.getD_none]
  simp only [if_neg hlong]
  by_cases he : name = CString.ofString "on-error"
  · subst he
    rcases words with _ | ⟨policy, _ | ⟨b, words⟩⟩
    · rfl
    · simp only [policyOf, if_true]
      split_ifs <;> rfl
    · rfl
  · simp only [policyOf_eq_none (Or.inl he), if_neg he, Option.getD_none]
    repeat' split
    all_goals rfl

/-- **The guard is set by `if-event` alone.** -/
theorem runLine_skipNext (text : CString) (stop : Bool) (n : Node (World ω)) :
    (runLine lim h text false stop n).skipNext = guardsNext lim h text n.world := by
  rw [runLine, guardsNext, lineWords]
  rcases tokenise (maxArgs + 2) text with _ | ⟨name, words⟩
  · rfl
  by_cases hlong : words.length + 1 > maxArgs + 1
  · have hmany : maxArgs = 4 := rfl
    simp only [guardOf_eq_none (Or.inr (show words.length ≠ 3 by omega)), if_pos hlong,
      Option.any_none]
  simp only [if_neg hlong]
  by_cases he : name = CString.ofString "if-event"
  · subst he
    have h1 : CString.ofString "if-event" ≠ CString.ofString "on-error" := by decide
    have h2 : CString.ofString "if-event" ≠ CString.ofString "concurrency" := by decide
    have h3 : CString.ofString "if-event" ≠ CString.ofString "wait-until" := by decide
    have h4 : CString.ofString "if-event" ≠ CString.ofString "wait" := by decide
    simp only [if_neg h1, if_neg h2, if_neg h3, if_neg h4, if_true]
    rcases words with _ | ⟨source, _ | ⟨id, _ | ⟨verb, _ | ⟨b, words⟩⟩⟩⟩
    · rfl
    · rfl
    · rfl
    · by_cases hv : verb = CString.ofString "skip"
      · simp only [guardOf, hv, and_self, if_true, ne_eq, not_true_eq_false, if_false]
        cases parseU32 source <;> cases parseU32 id <;> simp only [Option.any_none]
        split_ifs <;> rfl
      · simp [guardOf, hv]
    · rfl
  · simp only [guardOf_eq_none (Or.inl he), if_neg he, Option.any_none]
    repeat' split
    all_goals rfl
/-! ### Where the two differ -/

/-- The first character that is not blank is NUL. -/
def startsNul (line : List UInt8) : Bool := (line.dropWhile isBlank).head? = some 0

/-- The line is carried out as it is meant: a line to be ignored fits the buffer, another one does
not start with NUL, the line behind the last one is the first failure, and a line under a guard
fits the buffer. -/
def LineConforms (lim : Limits) (line : List UInt8) (s : Progress ω) : Prop :=
  if ignorable line then line.length < lim.lineMax
  else
    (line.length < lim.lineMax → startsNul line = false) ∧
      if s.lineNumber = lim.linesMax then s.outcome = none ∨ s.outcome = some .E2BIG
      else s.skipNext = true → line.length < lim.lineMax

/-- The act is a line that failed with `-ECANCELED`. -/
def Act.cancelled : Act → Bool
  | ran _ _ outcome => outcome = some .ECANCELED
  | _ => false

/-- **The file is carried out as it is meant**, from here on: every line that is come to conforms,
`-ECANCELED` is the first failure and ends the run, and so is the byte limit. -/
def Conforms (lim : Limits) (h : Host ω) (cut : Bool) : List (List UInt8) → Progress ω → Prop
  | [], s => cut = true → s.outcome = none ∨ s.outcome = some .EFBIG
  | line :: rest, s =>
    LineConforms lim line s ∧
      ((refStep lim h line s).1.cancelled = true →
        s.outcome = none ∧ ((refStep lim h line s).2.2 = true → rest = [] ∧ cut = false)) ∧
      ((refStep lim h line s).2.2 = true → Conforms lim h cut rest (refStep lim h line s).2.1)

/-- The outcome of a cancelled run. -/
def Progress.cancel (s : Progress ω) : Progress ω := { s with outcome := some .ECANCELED }

/-- The end of the loop's body is the reference's, but for `-ECANCELED`. -/
theorem settle_eq (act : Act) (outcome : Option Errno) (s : Progress ω) :
    s.settle h act outcome =
      if outcome = some .ECANCELED then (act, (s.conclude h act outcome).2.1.cancel, false)
      else s.conclude h act outcome := by
  rcases outcome with _ | e
  · rfl
  · by_cases he : e = .ECANCELED
    · subst he
      simp [Progress.settle, Progress.conclude, Progress.fail, Progress.cancel]
    · simp only [Progress.settle, Progress.conclude, Progress.fail, record_outcome,
        record_stopOnError, he, Option.some.injEq, or_false, decide_false, Bool.or_false, if_false]
      cases s.outcome <;> rfl

/-- The text of a line, from its first character that is not blank. -/
theorem lineText_bytes (line : List UInt8) :
    (lineText line).bytes = (line.dropWhile isBlank).takeWhile (· ≠ 0) := by
  show (line.takeWhile (· ≠ 0)).dropWhile isBlank = _
  induction line with
  | nil => rfl
  | cons c line ih =>
    by_cases hblank : isBlank c
    · have hc : c ≠ 0 := by
        rintro rfl
        simp [isBlank] at hblank
      simpa [hblank, hc] using ih
    · rw [List.dropWhile_cons_of_neg hblank]
      by_cases hc : c = 0
      · simp [hc]
      · simp [hblank, hc]

/-- The test of the loop's body on a line that fits: it ignores a line that starts with NUL
too. -/
theorem lineText_ignored (line : List UInt8) :
    (decide ((lineText line).length = 0) || decide ((lineText line).bytes.head? = some 35)) =
      (ignorable line || startsNul line) := by
  rw [CString.length, lineText_bytes, ignorable, startsNul]
  rcases line.dropWhile isBlank with _ | ⟨c, rest⟩
  · rfl
  · by_cases hc : c = 0 <;> simp [hc]

/-- What the reference makes of a line, but for a cancelled one, which ends the run. -/
def orCancel (r : Act × Progress ω × Bool) : Act × Progress ω × Bool :=
  if r.1.cancelled then (r.1, r.2.1.cancel, false) else r

theorem settle_eq_orCancel {act : Act} {outcome : Option Errno}
    (hact : act.cancelled = decide (outcome = some .ECANCELED)) (s : Progress ω) :
    s.settle h act outcome = orCancel (s.conclude h act outcome) := by
  rw [settle_eq, orCancel, conclude_act, hact]
  by_cases ho : outcome = some .ECANCELED <;> simp [ho]

/-- The loop's body on a line that does not fit the buffer. -/
theorem codeStep_long (hlong : lim.lineMax ≤ line.length) (s : Progress ω) :
    codeStep lim h line s =
      if s.lineNumber = lim.linesMax then
        (.refused .E2BIG, { s with outcome := some .E2BIG }, false)
      else
        orCancel (s.advance.conclude h (.overlong s.advance.lineNumber) (some .ENAMETOOLONG)) := by
  rw [← settle_eq_orCancel rfl]
  simp [codeStep, lineStep, hlong]

/-- The loop's body on a line that fits the buffer. -/
theorem codeStep_short (hshort : line.length < lim.lineMax) (s : Progress ω) :
    codeStep lim h line s =
      if ignorable line || startsNul line then (.ignored, s, true)
      else if s.lineNumber = lim.linesMax then
        (.refused .E2BIG, { s with outcome := some .E2BIG }, false)
      else if s.skipNext then (.skipped s.advance.lineNumber, s.advance.skip, true)
      else orCancel (refRun lim h (lineText line) s.advance) := by
  have htake : line.take (lim.lineMax - 1) = line := List.take_of_length_le (by omega)
  have hfits : decide (lim.lineMax ≤ line.length) = false := by simpa using hshort
  rw [codeStep, lineStep, hfits, htake, ← lineText, lineText_ignored]
  simp only [Bool.not_false, Bool.true_and]
  congr 2
  by_cases hskip : s.skipNext
  · simp [hskip, Progress.advance]
  · have hguard : s.advance.skipNext = false := by simpa [Progress.advance] using hskip
    rw [hguard]
    simp only [Bool.false_eq_true, if_false, hskip]
    rw [settle_eq_orCancel rfl, refRun, runLine_skipNext, runLine_stopOnError]

/-- A limit that is the first failure. -/
theorem fail_of_first {e : Errno} (ho : s.outcome = none ∨ s.outcome = some e) :
    s.fail e = { s with outcome := some e } := by
  rcases ho with ho | ho <;> simp [Progress.fail, ho]

/-- A limit that comes after another failure. -/
theorem fail_of_not_first {e : Errno} (ho : ¬ (s.outcome = none ∨ s.outcome = some e)) :
    (s.fail e).outcome ≠ some e := by
  rw [not_or] at ho
  cases hs : s.outcome with
  | none => exact absurd hs ho.1
  | some f => simpa [hs] using ho.2

/-- **On a line that conforms**, the two take one step. -/
theorem codeStep_of_conforms (hc : LineConforms lim line s) :
    codeStep lim h line s = orCancel (refStep lim h line s) := by
  rw [LineConforms] at hc
  rw [refStep]
  by_cases hi : ignorable line = true
  · rw [if_pos hi] at hc
    rw [codeStep_short hc, if_pos (by simp [hi]), if_pos hi]
    rfl
  · rw [if_neg hi] at hc ⊢
    obtain ⟨hnul, hstate⟩ := hc
    by_cases hn : s.lineNumber = lim.linesMax
    · rw [if_pos hn] at hstate ⊢
      rw [fail_of_first hstate]
      by_cases hlen : line.length < lim.lineMax
      · rw [codeStep_short hlen, if_neg (by simp [hi, hnul hlen]), if_pos hn]
        rfl
      · rw [codeStep_long (by omega), if_pos hn]
        rfl
    · rw [if_neg hn] at hstate ⊢
      rw [refNumbered]
      by_cases hlen : line.length < lim.lineMax
      · rw [codeStep_short hlen, if_neg (by simp [hi, hnul hlen]), if_neg hn,
          if_neg (show ¬ lim.lineMax ≤ line.length by omega)]
        by_cases hskip : s.skipNext = true
        · rw [if_pos hskip, if_pos (show s.advance.skipNext = true from hskip)]
          rfl
        · rw [if_neg hskip, if_neg (show ¬ s.advance.skipNext = true from hskip)]
      · have hskip : ¬ s.skipNext = true := fun hskip => hlen (hstate hskip)
        rw [codeStep_long (by omega), if_neg hn,
          if_neg (show ¬ s.advance.skipNext = true from hskip), if_pos (by omega)]

/-- A line that does not fit is not ignored, and not skipped. -/
theorem codeStep_long_act (hlong : lim.lineMax ≤ line.length) (s : Progress ω) :
    (codeStep lim h line s).1 = .refused .E2BIG ∨
      (codeStep lim h line s).1 = .overlong s.advance.lineNumber := by
  rw [codeStep_long hlong]
  split_ifs
  · exact Or.inl rfl
  · exact Or.inr rfl

/-- A line that is not ignored. -/
theorem refStep_act_ne_ignored (hi : ¬ ignorable line = true) (s : Progress ω) :
    (refStep lim h line s).1 ≠ .ignored := by
  rw [refStep, refNumbered, refRun, if_neg hi]
  split_ifs <;> simp

/-- **On a line that does not conform**, the two act differently, or end with different values. -/
theorem codeStep_of_not_conforms (hc : ¬ LineConforms lim line s) :
    (codeStep lim h line s).1 ≠ (refStep lim h line s).1 ∨
      ((codeStep lim h line s).2.2 = false ∧ (refStep lim h line s).2.2 = false ∧
        (codeStep lim h line s).2.1.outcome ≠ (refStep lim h line s).2.1.outcome) := by
  rw [LineConforms] at hc
  by_cases hi : ignorable line = true
  · rw [if_pos hi, not_lt] at hc
    left
    rw [refStep, if_pos hi]
    rcases codeStep_long_act (h := h) hc s with hact | hact <;> simp [hact]
  · rw [if_neg hi] at hc
    by_cases hnul : line.length < lim.lineMax ∧ startsNul line = true
    · left
      rw [codeStep_short hnul.1, if_pos (by simp [hnul.2])]
      exact (refStep_act_ne_ignored hi s).symm
    · have hnul' : line.length < lim.lineMax → startsNul line = false := fun hlen => by
        simpa using fun h => hnul ⟨hlen, h⟩
      have hstate := fun h => hc ⟨hnul', h⟩
      by_cases hn : s.lineNumber = lim.linesMax
      · right
        rw [if_pos hn] at hstate
        have hcode : codeStep lim h line s =
            (.refused .E2BIG, { s with outcome := some .E2BIG }, false) := by
          by_cases hlen : line.length < lim.lineMax
          · rw [codeStep_short hlen, if_neg (by simp [hi, hnul' hlen]), if_pos hn]
          · rw [codeStep_long (by omega), if_pos hn]
        rw [hcode, refStep, if_neg hi, if_pos hn]
        exact ⟨rfl, rfl, (fail_of_not_first hstate).symm⟩
      · left
        rw [if_neg hn] at hstate
        obtain ⟨hskip, hlong⟩ := Classical.not_imp.1 hstate
        rw [refStep, if_neg hi, if_neg hn, refNumbered,
          if_pos (show s.advance.skipNext = true from hskip)]
        rcases codeStep_long_act (h := h) (not_lt.1 hlong) s with hact | hact <;> simp [hact]

/-- Only a cancelled line fails with `-ECANCELED`. -/
theorem refStep_failure_of_cancelled (lim : Limits) (h : Host ω) (line : List UInt8)
    (s : Progress ω) : (refStep lim h line s).1.failure = some .ECANCELED ↔
      (refStep lim h line s).1.cancelled = true := by
  rw [refStep, refNumbered, refRun]
  split_ifs <;> simp [Act.failure, Act.cancelled]

/-- The first failure of a run stands from the line on that it fails. -/
theorem follow_refStep_keeps {e : Errno} (cut : Bool) (lines : List (List UInt8))
    (hs : s.outcome = some e) :
    (follow (refStep lim h) (refClose cut) lines s).2.outcome = some e := by
  rw [follow_refStep_outcome, hs, Option.some_or]

/-- A cancelled run, where `-ECANCELED` was the outcome anyway. -/
theorem cancel_of_outcome (hs : s.outcome = some .ECANCELED) : s.cancel = s := by
  rw [Progress.cancel, ← hs]

/-- The run goes on behind a line. -/
theorem follow_ref_ne_nil {cut : Bool} {rest : List (List UInt8)}
    (hrest : ¬ (rest = [] ∧ cut = false)) (s : Progress ω) :
    (follow (refStep lim h) (refClose cut) rest s).1 ≠ [] := by
  rcases rest with _ | ⟨line, rest⟩
  · have hcut : cut = true := by simpa using hrest
    simp [refClose, hcut]
  · intro hnil
    have hhead := congrArg List.head? hnil
    rw [follow_head] at hhead
    cases hhead

/-- **A file that conforms runs as it is meant.** -/
theorem follow_eq_of_conforms {cut : Bool} {lines : List (List UInt8)}
    (hc : Conforms lim h cut lines s) : follow (codeStep lim h) (codeClose cut) lines s =
      follow (refStep lim h) (refClose cut) lines s := by
  induction lines generalizing s with
  | nil =>
    rw [follow_nil, follow_nil, codeClose, refClose]
    by_cases hcut : cut = true
    · rw [if_pos hcut, if_pos hcut, fail_of_first (hc hcut)]
    · rw [if_neg hcut, if_neg hcut]
  | cons line rest ih =>
    obtain ⟨hline, hcancel, hrest⟩ := hc
    have hcode := codeStep_of_conforms (h := h) hline
    have hout := refStep_outcome lim h line s
    have hfail := refStep_failure_of_cancelled lim h line s
    rcases href : refStep lim h line s with ⟨act, s', go⟩
    rw [href] at hcode hcancel hrest hout hfail
    by_cases hact : act.cancelled = true
    · obtain ⟨hnone, hlast⟩ := hcancel hact
      have hs' : s'.cancel = s' := by
        refine cancel_of_outcome (hout.trans ?_)
        rw [hnone, Option.none_or]
        exact hfail.2 hact
      rw [orCancel, if_pos hact, hs'] at hcode
      rw [follow_stop hcode]
      cases go with
      | false => rw [follow_stop href]
      | true =>
        obtain ⟨rfl, rfl⟩ := hlast rfl
        rw [follow_go href]
        rfl
    · rw [orCancel, if_neg hact] at hcode
      cases go with
      | false => rw [follow_stop hcode, follow_stop href]
      | true => rw [follow_go hcode, follow_go href, ih (hrest rfl)]

/-- **A file that runs as it is meant conforms**, if nothing was cancelled before. -/
theorem conforms_of_follow {cut : Bool} {lines : List (List UInt8)}
    (hs : s.outcome ≠ some .ECANCELED)
    (hacts : (follow (codeStep lim h) (codeClose cut) lines s).1 =
      (follow (refStep lim h) (refClose cut) lines s).1)
    (hout : (follow (codeStep lim h) (codeClose cut) lines s).2.outcome =
      (follow (refStep lim h) (refClose cut) lines s).2.outcome) : Conforms lim h cut lines s := by
  induction lines generalizing s with
  | nil =>
    rintro rfl
    by_contra hfirst
    exact fail_of_not_first hfirst hout.symm
  | cons line rest ih =>
    have hline : LineConforms lim line s := by
      by_contra hline
      rcases codeStep_of_not_conforms (h := h) hline with hne | ⟨hcode, href, hne⟩
      · apply hne
        have hhead := congrArg List.head? hacts
        rw [follow_head, follow_head] at hhead
        exact Option.some.inj hhead
      · rcases hc : codeStep lim h line s with ⟨act, s₁, _ | _⟩
        · rcases hr : refStep lim h line s with ⟨act', s₂, _ | _⟩
          · rw [follow_stop hc, follow_stop hr] at hout
            rw [hc, hr] at hne
            exact hne hout
          · rw [hr] at href
            cases href
        · rw [hc] at hcode
          cases hcode
    have hcode := codeStep_of_conforms (h := h) hline
    have houtcome := refStep_outcome lim h line s
    have hfail := refStep_failure_of_cancelled lim h line s
    refine ⟨hline, ?_⟩
    rcases href : refStep lim h line s with ⟨act, s', go⟩
    rw [href] at hcode houtcome hfail
    by_cases hact : act.cancelled = true
    · rw [orCancel, if_pos hact] at hcode
      rw [follow_stop hcode] at hacts hout
      have hnone : s.outcome = none := by
        by_contra hsome
        obtain ⟨e, he⟩ := Option.ne_none_iff_exists'.1 hsome
        rw [follow_refStep_keeps cut (line :: rest) he] at hout
        exact hs (he.trans hout.symm)
      have hlast : go = true → rest = [] ∧ cut = false := by
        rintro rfl
        by_contra hrest
        rw [follow_go href] at hacts
        exact follow_ref_ne_nil hrest s' (List.cons.inj hacts).2.symm
      refine ⟨fun _ => ⟨hnone, hlast⟩, fun hgo => ?_⟩
      obtain ⟨rfl, rfl⟩ := hlast hgo
      exact fun hcut => absurd hcut (by simp)
    · rw [orCancel, if_neg hact] at hcode
      refine ⟨fun hcancel => absurd hcancel hact, ?_⟩
      rintro rfl
      rw [follow_go hcode, follow_go href] at hacts hout
      refine ih ?_ (List.cons.inj hacts).2 hout
      -- the line's own failure is another one, and an earlier one stands
      intro hcanceled
      rw [show s'.outcome = s.outcome.or act.failure from houtcome] at hcanceled
      cases hso : s.outcome with
      | none =>
        rw [hso, Option.none_or] at hcanceled
        exact hact (hfail.1 hcanceled)
      | some e =>
        rw [hso, Option.some_or] at hcanceled
        exact hs (hso.trans hcanceled)

/-- The lines that the byte limit holds, as the loop reads them. -/
theorem linesWithin_eq (lim : Limits) (content : List UInt8) :
    linesWithin lim.bytesMax content = (procedureLines lim content, overLimit lim content) := by
  have hsplit : ∀ xs : List UInt8, (deleteCr xs).splitOn 10 = (xs.splitOn 10).map deleteCr :=
    splitOn_filter (by decide)
  rw [linesWithin, splitWithin, procedureLines, overLimit]
  by_cases hlen : content.length ≤ lim.bytesMax
  · rw [if_pos hlen, if_pos hlen, hsplit, decide_eq_false (by omega)]
  · rw [if_neg hlen, if_neg hlen, hsplit, List.map_dropLast, decide_eq_true (by omega)]

/-- `run_procedure` on a storage that works, without a stop request. -/
theorem runProcedure_eq (hstop : ∀ w, h.stopRequested w = false) (content : List UInt8)
    (n : Node (World ω)) : runProcedure lim h (.working content) n =
      finish h none (follow (codeStep lim h) (codeClose (overLimit lim content))
        (procedureLines lim content) (begin h n)) := by
  have hloop : procedureLoop lim h (.working content) (content.length + lim.linesMax + 1) content 0
      false (begin h n) = _ :=
    procedureLoop_eq_follow hstop (by omega) (Nat.zero_le _) _
  rw [Nat.sub_zero, linesWithin_eq] at hloop
  rw [← hloop]
  rfl

/-- **`run_procedure` carries out what a procedure means exactly when the file conforms.** -/
theorem runProcedure_eq_reference_iff (hstop : ∀ w, h.stopRequested w = false)
    (content : List UInt8) (n : Node (World ω)) :
    runProcedure lim h (.working content) n = reference lim h content n ↔
      Conforms lim h (overLimit lim content) (procedureLines lim content) (begin h n) := by
  rw [runProcedure_eq hstop, reference]
  constructor
  · intro heq
    refine conforms_of_follow (by simp [begin, Progress.start]) (congrArg Report.acts heq) ?_
    simpa [finish] using congrArg Report.result heq
  · intro hc
    rw [follow_eq_of_conforms hc]

instance decidableLineConforms (line : List UInt8) (s : Progress ω) :
    Decidable (LineConforms lim line s) := by
  delta LineConforms
  infer_instance

instance decidableConforms (cut : Bool) :
    ∀ (lines : List (List UInt8)) (s : Progress ω), Decidable (Conforms lim h cut lines s)
  | [], _ => inferInstanceAs (Decidable (_ → _ ∨ _))
  | line :: rest, s =>
    have := decidableConforms cut rest (refStep lim h line s).2.1
    inferInstanceAs (Decidable (_ ∧ (_ → _ ∧ (_ → _ ∧ _)) ∧ (_ → _)))

/-- A small build. -/
def smallLimits : Limits :=
  ⟨4, 128, 32, 10, 8, by decide, by decide, by decide, by decide, by decide⟩

/-- A node on which nothing else happens; its world is the clock. -/
def quietHost : Host ℕ where
  self := 0
  stopRequested _ := false
  events _ := []
  emit _ _ _ w := w
  sleep ms w := { w with rest := w.rest + ms }
  clockSeconds w := .ok (w.rest / 1000)
  monotonicMs w := w.rest
  others n := n
  sleep_advances _ _ hms _ := Nat.lt_add_of_pos_right hms

/-- It has the command `go`. -/
def quietNode : Node (World ℕ) where
  registry := [⟨7, CString.ofString "go", [], fun _ _ w => (none, Result.zero, w)⟩]
  ready := true
  claim := Claim.free
  totals := ⟨0, 0, 0, 0⟩
  events := []
  world := ⟨⟨CString.ofString "proc", 0, 0, 0, 0, 0, 0, false⟩, 0⟩

/-- A comment, a guard whose event is absent, the line it skips, and a line that runs. -/
def plainFile : List UInt8 :=
  (CString.ofString "# start\nif-event 1 9 skip\r\nstop\n\n go\n").bytes

theorem runProcedure_eq_reference_plain :
    runProcedure smallLimits quietHost (.working plainFile) quietNode =
      reference smallLimits quietHost plainFile quietNode :=
  (runProcedure_eq_reference_iff (fun _ => rfl) plainFile quietNode).2 (by decide +kernel)

/-- The line under the guard does not fit the buffer. -/
def leakFile : List UInt8 :=
  (CString.ofString "on-error continue\nif-event 1 9 skip\n").bytes ++
    (List.replicate 40 120 ++ (CString.ofString "\ngo\n").bytes)

/-- **A guard leaks.**  The line it is for is failed, and the one behind is skipped. -/
theorem guard_leaks :
    (runProcedure smallLimits quietHost (.working leakFile) quietNode).acts.drop 2 =
        [.overlong 3, .skipped 4, .ignored] ∧
      (reference smallLimits quietHost leakFile quietNode).acts.drop 2 =
        [.skipped 3, .ran 4 (.ofString "go") none, .ignored] ∧
      runProcedure smallLimits quietHost (.working leakFile) quietNode ≠
        reference smallLimits quietHost leakFile quietNode := by
  have hcode : (runProcedure smallLimits quietHost (.working leakFile) quietNode).acts.drop 2 =
      [.overlong 3, .skipped 4, .ignored] := by decide +kernel
  have href : (reference smallLimits quietHost leakFile quietNode).acts.drop 2 =
      [.skipped 3, .ran 4 (.ofString "go") none, .ignored] := by decide +kernel
  refine ⟨hcode, href, fun heq => ?_⟩
  rw [heq, href] at hcode
  exact absurd hcode (by decide)

end KfswServices.Fbo
