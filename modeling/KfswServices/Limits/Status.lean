/-
# What the status says of the loads

The status of `src/limits/limits.c` after any sequence of `kfsw_limits_load`, against what becomes
of a file by its lines (`File.verdict`): it is taken, it has a first bad line, or it cannot be read
so far.

A load that fails for another reason than a bad line leaves the line and the error of an earlier
one. The status describes the last call exactly as long as no such load comes while there is a line
to be read (`load_status_iff`).
-/

import KfswServices.Limits.Load

namespace KfswServices.Limits

/-! ### The lines of a file -/

/-- The lines that can be read: those that end before the limit, or before the read that fails, and
the last one, if the file ends before. -/
def readable (limit : ℕ) (failure : Option Errno) (bytes : List UInt8) : List (List UInt8) :=
  if bytes.length ≤ limit ∧ failure = none then linesOf bytes
  else (linesOf (bytes.take limit)).dropLast

variable {ω : Type}

/-- The first bad line, counted from 1, and what is wrong with it, with some rules in front. -/
def firstBad (b : Build) (h : Host ω) : ℕ → List (List UInt8) → Option (ℕ × CString)
  | _, [] => none
  | count, line :: rest =>
    match takeLine b h count (line.take (lineBytes - 1)) (decide (lineBytes ≤ line.length)) with
    | .error reason => some (1, reason)
    | .ok rule => (firstBad b h (count + rule.toList.length) rest).map fun bad => (bad.1 + 1, bad.2)

variable {b : Build} {h : Host ω}

/-- **It is the first one**: the line is there, nothing is wrong with the lines in front, and it is
with this one that something is. -/
theorem firstBad_spec {count n : ℕ} {lines : List (List UInt8)} {reason : CString}
    (hbad : firstBad b h count lines = some (n, reason)) :
    0 < n ∧ n ≤ lines.length ∧ firstBad b h count (lines.take (n - 1)) = none ∧
      firstBad b h count (lines.take n) = some (n, reason) := by
  induction lines generalizing count n with
  | nil => cases hbad
  | cons line rest ih =>
    rw [firstBad] at hbad
    rcases htake : takeLine b h count (line.take (lineBytes - 1))
      (decide (lineBytes ≤ line.length)) with reason' | rule
    · rw [htake] at hbad
      obtain ⟨rfl, rfl⟩ := Prod.mk.inj (Option.some.inj hbad)
      refine ⟨Nat.one_pos, ?_, rfl, ?_⟩
      · rw [List.length_cons]
        omega
      · rw [List.take_succ_cons, firstBad, htake]
    · rw [htake] at hbad
      obtain ⟨⟨m, reason'⟩, hrest, hm⟩ := Option.map_eq_some_iff.1 hbad
      obtain ⟨rfl, rfl⟩ := Prod.mk.inj hm
      obtain ⟨hpos, hle, hfront, hline⟩ := ih hrest
      refine ⟨Nat.succ_pos m, ?_, ?_, ?_⟩
      · rw [List.length_cons]
        omega
      · rw [show m + 1 - 1 = m - 1 + 1 by omega, List.take_succ_cons, firstBad, htake]
        exact Option.map_eq_none_iff.2 hfront
      · rw [List.take_succ_cons, firstBad, htake]
        exact Option.map_eq_some_iff.2 ⟨_, hline, rfl⟩

/-- What becomes of a file. -/
inductive Verdict
  | taken
  | bad (line : ℕ) (reason : CString)
  | failed
  deriving DecidableEq

/-- What becomes of the bytes that there are to read. -/
def verdict (b : Build) (h : Host ω) (limit : ℕ) (failure : Option Errno) (count : ℕ)
    (bytes : List UInt8) : Verdict :=
  match firstBad b h count (readable limit failure bytes) with
  | some (line, reason) => .bad line reason
  | none => if bytes.length ≤ limit ∧ failure = none then .taken else .failed

/-- The lines are counted from further on. -/
def Verdict.shift (n : ℕ) : Verdict → Verdict
  | .bad line reason => .bad (n + line) reason
  | v => v

/-- What `parse_file` makes of it. -/
def verdictOf : Except Refusal (List Rule) → Verdict
  | .ok _ => .taken
  | .error ⟨_, line, some reason⟩ => .bad line.toNat reason
  | .error ⟨_, _, none⟩ => .failed

/-! ### What is read -/

theorem linesOf_ne_nil (bytes : List UInt8) : linesOf bytes ≠ [] := by
  unfold linesOf
  simp [List.splitOn_ne_nil]

variable {limit : ℕ} {failure : Option Errno} {pre : List UInt8}

/-- A line with its newline can be read. -/
theorem readable_cons (hpre : 10 ∉ pre) (hfit : pre.length + 1 ≤ limit) (rest : List UInt8) :
    readable limit failure (pre ++ 10 :: rest) =
      deleteCr pre :: readable (limit - (pre.length + 1)) failure rest := by
  have htake : (pre ++ 10 :: rest).take limit =
      pre ++ 10 :: rest.take (limit - (pre.length + 1)) := by
    rw [List.take_append, List.take_of_length_le (by omega),
      show limit - pre.length = limit - (pre.length + 1) + 1 by omega, List.take_succ_cons]
  unfold readable
  rw [htake, linesOf_cons hpre, linesOf_cons hpre, List.dropLast_cons_of_ne_nil (linesOf_ne_nil _),
    List.length_append, List.length_cons]
  by_cases hall : rest.length ≤ limit - (pre.length + 1) ∧ failure = none
  · rw [if_pos hall, if_pos ⟨by omega, hall.2⟩]
  · rw [if_neg hall, if_neg fun h => hall ⟨by omega, h.2⟩]

/-- The last line can be read. -/
theorem readable_last (hpre : 10 ∉ pre) (hfit : pre.length ≤ limit) :
    readable limit none pre = [deleteCr pre] := by
  unfold readable
  rw [if_pos ⟨hfit, rfl⟩, linesOf_last hpre]

variable {xs : List UInt8}

/-- What `read_line` has read. -/
theorem readLine_bytes {used : List UInt8} {bytes : ℕ} {tooLong : Bool} {r : LineRead}
    (h : readLine limit failure xs bytes used tooLong = .ok r) (hbytes : bytes ≤ limit) :
    r.bytes ≤ limit ∧ r.bytes + r.rest.length = bytes + xs.length ∧
      (r.atEnd = true → r.rest = []) := by
  induction xs generalizing bytes used tooLong with
  | nil =>
    cases failure with
    | some e => cases h
    | none =>
      obtain rfl := Except.ok.inj h
      exact ⟨hbytes, rfl, fun _ => rfl⟩
  | cons c xs ih =>
    rw [readLine, ite_error_eq_ok] at h
    obtain ⟨hlimit, h⟩ := h
    rw [List.length_cons]
    split_ifs at h
    · obtain rfl := Except.ok.inj h
      refine ⟨?_, ?_, fun h => by cases h⟩
      · dsimp only
        omega
      · dsimp only
        omega
    · obtain ⟨hle, hcount, hend⟩ := ih h (by omega)
      exact ⟨hle, by omega, hend⟩
    · obtain ⟨hle, hcount, hend⟩ := ih h (by omega)
      exact ⟨hle, by omega, hend⟩
    · obtain ⟨hle, hcount, hend⟩ := ih h (by omega)
      exact ⟨hle, by omega, hend⟩

/-- **Where `read_line` fails** no line can be read, and the file is not at its end. -/
theorem readLine_error {used : List UInt8} {bytes : ℕ} {tooLong : Bool} {e : Errno}
    (h : readLine limit failure xs bytes used tooLong = .error e) :
    10 ∉ xs.take (limit - bytes) ∧ ¬ (xs.length ≤ limit - bytes ∧ failure = none) := by
  induction xs generalizing bytes used tooLong with
  | nil =>
    cases failure with
    | some e => exact ⟨by simp, nofun⟩
    | none => cases h
  | cons c xs ih =>
    unfold readLine at h
    by_cases hlimit : limit < bytes + 1
    · rw [show limit - bytes = 0 by omega]
      exact ⟨by simp, fun hall => absurd hall.1 (by simp)⟩
    rw [if_neg hlimit] at h
    by_cases hnewline : c = 10
    · rw [if_pos hnewline] at h
      cases h
    rw [if_neg hnewline] at h
    have hrest : 10 ∉ xs.take (limit - (bytes + 1)) ∧
        ¬ (xs.length ≤ limit - (bytes + 1) ∧ failure = none) := by
      split_ifs at h
      · exact ih h
      · exact ih h
      · exact ih h
    rw [show limit - bytes = limit - (bytes + 1) + 1 by omega, List.take_succ_cons]
    refine ⟨fun hmem => ?_, fun hall => hrest.2 ⟨?_, hall.2⟩⟩
    · rcases List.mem_cons.1 hmem with hc | hmem
      · exact hnewline hc.symm
      · exact hrest.1 hmem
    · have hlen := hall.1
      rw [List.length_cons] at hlen
      omega

/-- There is no line that can be read. -/
theorem readable_error (hnewline : 10 ∉ xs.take limit)
    (hend : ¬ (xs.length ≤ limit ∧ failure = none)) : readable limit failure xs = [] := by
  unfold readable
  rw [if_neg hend, linesOf_last hnewline, List.dropLast_singleton]

/-! ### What becomes of a file -/

@[simp] theorem Verdict.shift_shift (m n : ℕ) (v : Verdict) :
    (v.shift m).shift n = v.shift (n + m) := by
  cases v with
  | taken => rfl
  | bad line reason => exact congrArg (Verdict.bad · reason) (Nat.add_assoc n m line).symm
  | failed => rfl

/-- What becomes of a line with its newline, and of what is behind it. -/
theorem verdict_cons {count : ℕ} (hpre : 10 ∉ pre) (hfit : pre.length + 1 ≤ limit)
    (rest : List UInt8) :
    verdict b h limit failure count (pre ++ 10 :: rest) =
      match takeLine b h count ((deleteCr pre).take (lineBytes - 1))
        (decide (lineBytes ≤ (deleteCr pre).length)) with
      | .error reason => .bad 1 reason
      | .ok rule => (verdict b h (limit - (pre.length + 1)) failure (count + rule.toList.length)
          rest).shift 1 := by
  unfold verdict
  rw [readable_cons hpre hfit, firstBad]
  cases takeLine b h count ((deleteCr pre).take (lineBytes - 1))
    (decide (lineBytes ≤ (deleteCr pre).length)) with
  | error reason => rfl
  | ok rule =>
    dsimp only
    cases firstBad b h (count + rule.toList.length)
      (readable (limit - (pre.length + 1)) failure rest) with
    | some bad => exact congrArg (Verdict.bad · bad.2) (Nat.add_comm bad.1 1)
    | none =>
      dsimp only [Option.map_none]
      rw [List.length_append, List.length_cons]
      by_cases hall : rest.length ≤ limit - (pre.length + 1) ∧ failure = none
      · rw [if_pos hall, if_pos ⟨by omega, hall.2⟩]
        rfl
      · rw [if_neg hall, if_neg fun h => hall ⟨by omega, h.2⟩]
        rfl

/-- What becomes of the last line. -/
theorem verdict_last {count : ℕ} (hpre : 10 ∉ pre) (hfit : pre.length ≤ limit) :
    verdict b h limit none count pre =
      match takeLine b h count ((deleteCr pre).take (lineBytes - 1))
        (decide (lineBytes ≤ (deleteCr pre).length)) with
      | .error reason => .bad 1 reason
      | .ok _ => .taken := by
  unfold verdict
  rw [readable_last hpre hfit, firstBad]
  cases takeLine b h count ((deleteCr pre).take (lineBytes - 1))
    (decide (lineBytes ≤ (deleteCr pre).length)) with
  | error reason => rfl
  | ok rule => exact if_pos ⟨hfit, rfl⟩

/-- **The loop of `parse_file`** comes to the verdict on what is left. -/
theorem parseFrom_verdict {turns : ℕ} {bytes : ℕ} {number : UInt16} {staged : List Rule}
    (hturns : xs.length < turns) (hbytes : bytes ≤ b.fileBytesMax)
    (hnumber : number.toNat + (b.fileBytesMax - bytes) + 1 < 2 ^ 16) :
    verdictOf (parseFrom b h failure turns xs bytes number staged) =
      (verdict b h (b.fileBytesMax - bytes) failure staged.length xs).shift number.toNat := by
  induction turns generalizing xs bytes number staged with
  | zero => omega
  | succ turns ih =>
    have hnext : (number + 1).toNat = number.toNat + 1 := by
      rw [UInt16.toNat_add]
      exact Nat.mod_eq_of_lt (show number.toNat + 1 < 2 ^ 16 by omega)
    rw [parseFrom]
    rcases hread : readLine b.fileBytesMax failure xs bytes [] false with e | r
    · obtain ⟨hnewline, hend⟩ := readLine_error hread
      unfold verdict
      rw [readable_error hnewline hend, firstBad, if_neg hend]
      rfl
    · obtain ⟨pre, hpre, hcases, hline, hlong⟩ := readLine_spec hread (by decide)
      obtain ⟨hle, hcount, hlast⟩ := readLine_bytes hread hbytes
      rw [List.nil_append] at hline
      rw [List.nil_append, Bool.false_or] at hlong
      dsimp only
      rw [hline, hlong]
      rcases hcases with ⟨rfl, hend⟩ | ⟨rfl, hend, rfl⟩
      · rw [List.length_append, List.length_cons] at hcount hturns
        rw [verdict_cons hpre (by omega), hend]
        rcases takeLine b h staged.length ((deleteCr pre).take (lineBytes - 1))
          (decide (lineBytes ≤ (deleteCr pre).length)) with reason | rule
        · exact congrArg (Verdict.bad · reason) hnext
        · have hrest := @ih r.rest r.bytes (number + 1) (staged ++ rule.toList) (by omega) hle
            (by omega)
          rw [List.length_append, hnext] at hrest
          dsimp only
          rw [if_neg Bool.false_ne_true, hrest, Verdict.shift_shift]
          congr 2
          omega
      · rw [hlast hend, List.length_nil] at hcount
        rw [verdict_last hpre (by omega), hend]
        rcases takeLine b h staged.length ((deleteCr xs).take (lineBytes - 1))
          (decide (lineBytes ≤ (deleteCr xs).length)) with reason | rule
        · exact congrArg (Verdict.bad · reason) hnext
        · rfl

/-- A file has fewer lines than a `uint16_t` counts. -/
theorem fileBytesMax_lt (b : Build) : b.fileBytesMax + 1 < 2 ^ 16 := by
  have hrules := b.maxRules_range.2
  unfold Build.fileBytesMax lineBytes
  omega

/-- What becomes of a file, by its lines. -/
def File.verdict (b : Build) (h : Host ω) (file : File) : Verdict :=
  Limits.verdict b h b.fileBytesMax file.failure 0 file.bytes

/-- **`parse_file`** comes to the verdict on the file. -/
theorem parseFile_verdict (b : Build) (h : Host ω) (file : File) :
    verdictOf (parseFile b h file) = file.verdict b h := by
  have hlt := fileBytesMax_lt b
  have hparse := @parseFrom_verdict ω b h file.failure file.bytes (file.bytes.length + 1) 0 0 []
    (Nat.lt_succ_self _) (Nat.zero_le _) (by rw [Nat.sub_zero]; exact (Nat.zero_add _).symm ▸ hlt)
  unfold parseFile File.verdict
  rw [hparse, Nat.sub_zero, List.length_nil]
  cases Limits.verdict b h b.fileBytesMax file.failure 0 file.bytes with
  | taken => rfl
  | bad line reason => exact congrArg (Verdict.bad · reason) (Nat.zero_add line)
  | failed => rfl

/-- There is room for a rule that is staged. -/
theorem parseFrom_length {turns : ℕ} {bytes : ℕ} {number : UInt16} {staged rules : List Rule}
    (hstaged : staged.length ≤ b.maxRules)
    (hparse : parseFrom b h failure turns xs bytes number staged = .ok rules) :
    rules.length ≤ b.maxRules := by
  induction turns generalizing xs bytes number staged with
  | zero => cases hparse
  | succ turns ih =>
    rw [parseFrom] at hparse
    rcases hread : readLine b.fileBytesMax failure xs bytes [] false with e | r
    · rw [hread] at hparse
      cases hparse
    · rw [hread] at hparse
      dsimp only at hparse
      rcases htake : takeLine b h staged.length r.line r.tooLong with reason | rule
      · rw [htake] at hparse
        cases hparse
      · rw [htake] at hparse
        dsimp only at hparse
        have hroom : (staged ++ rule.toList).length ≤ b.maxRules := by
          cases rule with
          | none =>
            rw [Option.toList_none, List.append_nil]
            exact hstaged
          | some rule =>
            unfold takeLine at htake
            dsimp only at htake
            split_ifs at htake with hpass hlong hfull
            · cases htake
            · rw [Option.toList_some, List.length_append, List.length_singleton]
              omega
        split_ifs at hparse
        · obtain rfl := Except.ok.inj hparse
          exact hroom
        · exact ih hroom hparse

/-! ### Runs of loads -/

/-- A call of `kfsw_limits_load`, with what it finds. -/
structure LoadCall (ω : Type) where
  host : Host ω
  ready : Bool
  fsOpen : CString → Except Errno File
  name : Option CString

/-- The service after a call. -/
def LoadCall.apply (b : Build) (s : Service) (c : LoadCall ω) : Service :=
  (s.load b c.host c.ready c.fsOpen c.name).2

/-- What becomes of the file of a call; there is none without a name, without storage, or if it does
not open. -/
def LoadCall.verdict (b : Build) (c : LoadCall ω) : Verdict :=
  match c.name with
  | none => .failed
  | some name =>
    if plainName name && c.ready then
      match c.fsOpen (rulePath name) with
      | .error _ => .failed
      | .ok file => file.verdict b c.host
    else .failed

/-- The call is refused for a bad line. -/
def LoadCall.refused (b : Build) (c : LoadCall ω) : Bool :=
  match c.verdict b with
  | .bad _ _ => true
  | _ => false

/-- **What a call does**, by the verdict on its file. -/
theorem load_cases (b : Build) (s : Service) (c : LoadCall ω) :
    (c.verdict b = .taken ∧ ∃ rules : List Rule, rules.length ≤ b.maxRules ∧
        s.load b c.host c.ready c.fsOpen c.name = (none, s.take rules)) ∨
      (∃ e line reason, c.verdict b = .bad line.toNat reason ∧
        s.load b c.host c.ready c.fsOpen c.name = (some e, s.refuse ⟨e, line, some reason⟩)) ∨
      (c.verdict b = .failed ∧ ∃ e, s.load b c.host c.ready c.fsOpen c.name = (some e, s)) := by
  unfold Service.load LoadCall.verdict
  cases c.name with
  | none => exact Or.inr (Or.inr ⟨rfl, _, rfl⟩)
  | some name =>
    dsimp only
    cases plainName name with
    | false => exact Or.inr (Or.inr ⟨rfl, _, rfl⟩)
    | true =>
      cases c.ready with
      | false => exact Or.inr (Or.inr ⟨rfl, _, rfl⟩)
      | true =>
        cases c.fsOpen (rulePath name) with
        | error e => exact Or.inr (Or.inr ⟨rfl, _, rfl⟩)
        | ok file =>
          have hverdict := parseFile_verdict b c.host file
          dsimp only
          rcases hparse : parseFile b c.host file with ⟨e, line, reason⟩ | rules
          · rw [hparse] at hverdict
            cases reason with
            | none => exact Or.inr (Or.inr ⟨hverdict.symm, _, rfl⟩)
            | some reason => exact Or.inr (Or.inl ⟨e, line, reason, hverdict.symm, rfl⟩)
          · rw [hparse] at hverdict
            exact Or.inl ⟨hverdict.symm, rules, parseFrom_length (Nat.zero_le _) hparse, rfl⟩

/-- The service after some calls. -/
def afterLoads (b : Build) (calls : List (LoadCall ω)) : Service :=
  calls.foldl (LoadCall.apply b) .reset

theorem afterLoads_concat (b : Build) (calls : List (LoadCall ω)) (c : LoadCall ω) :
    afterLoads b (calls ++ [c]) = c.apply b (afterLoads b calls) := by
  unfold afterLoads
  rw [List.foldl_append]
  rfl

/-- The line and the error that are to be read after a call: those of its first bad line, or none.
-/
def Verdict.shown : Verdict → ℕ × CString
  | .bad line reason => (line, reason)
  | _ => (0, .empty)

/-- What is to hold of the status after some calls and one more. -/
structure Reported (b : Build) (before : List (LoadCall ω)) (c : LoadCall ω) : Prop where
  /-- The line and the error describe the last call. -/
  shown : ((afterLoads b (before ++ [c])).state.errorLine.toNat,
    (afterLoads b (before ++ [c])).state.error) = (c.verdict b).shown
  /-- `rules` is the number of the rules in force. -/
  rules : (afterLoads b (before ++ [c])).state.rules.toNat =
    (afterLoads b (before ++ [c])).rules.length
  /-- `parse_errors` counts the calls that were refused for a bad line. -/
  errors : (afterLoads b (before ++ [c])).state.parseErrors.toNat =
    min ((before ++ [c]).countP (LoadCall.refused b)) (2 ^ 32 - 1)

/-- What holds after any calls. -/
structure Counts (b : Build) (calls : List (LoadCall ω)) (s : Service) : Prop where
  rules : s.state.rules.toNat = s.rules.length
  errors : s.state.parseErrors.toNat = min (calls.countP (LoadCall.refused b)) (2 ^ 32 - 1)
  quiet : s.state.errorLine = 0 → s.state.error = .empty

/-- A line is counted from 1. -/
theorem verdict_pos {count : ℕ} {bytes : List UInt8} {line : ℕ} {reason : CString}
    (hbad : verdict b h limit failure count bytes = .bad line reason) : 0 < line := by
  unfold verdict at hbad
  rcases hfirst : firstBad b h count (readable limit failure bytes) with _ | ⟨n, reason'⟩
  · rw [hfirst] at hbad
    dsimp only at hbad
    split_ifs at hbad
  · rw [hfirst] at hbad
    obtain ⟨rfl, -⟩ := Verdict.bad.inj hbad
    exact (firstBad_spec hfirst).1

theorem LoadCall.verdict_pos {c : LoadCall ω} {line : ℕ} {reason : CString}
    (h : c.verdict b = .bad line reason) : 0 < line := by
  unfold LoadCall.verdict at h
  split at h
  · cases h
  · split_ifs at h
    split at h
    · cases h
    · exact Limits.verdict_pos h

/-- **A call** keeps the counts. -/
theorem Counts.apply {calls : List (LoadCall ω)} {s : Service} (h : Counts b calls s)
    (c : LoadCall ω) : Counts b (calls ++ [c]) (c.apply b s) := by
  have hcount : ∀ refused, c.refused b = refused →
      (calls ++ [c]).countP (LoadCall.refused b) =
        calls.countP (LoadCall.refused b) + if refused then 1 else 0 := by
    rintro _ rfl
    rw [List.countP_append, List.countP_singleton]
  unfold LoadCall.apply
  rcases load_cases b s c with
    ⟨hverdict, rules, hlength, hload⟩ | ⟨e, line, reason, hverdict, hload⟩ | ⟨hverdict, e, hload⟩
  · have hrefused : c.refused b = false := by
      unfold LoadCall.refused
      rw [hverdict]
    have hrange := b.maxRules_range.2
    rw [hload]
    refine ⟨?_, ?_, fun _ => rfl⟩
    · show (UInt8.ofNat rules.length).toNat = rules.length
      rw [UInt8.toNat_ofNat']
      exact Nat.mod_eq_of_lt (by omega)
    · rw [hcount _ hrefused]
      exact h.errors
  · have hrefused : c.refused b = true := by
      unfold LoadCall.refused
      rw [hverdict]
    rw [hload]
    refine ⟨h.rules, ?_, fun hline => ?_⟩
    · have herrors := h.errors
      rw [hcount _ hrefused]
      refine (Library.toNat_saturatingInc _).trans ?_
      show min (s.state.parseErrors.toNat + 1) _ = min (_ + 1) _
      omega
    · have hpos := LoadCall.verdict_pos hverdict
      have hzero : line = 0 := hline
      rw [hzero] at hpos
      exact absurd hpos (lt_irrefl 0)
  · have hrefused : c.refused b = false := by
      unfold LoadCall.refused
      rw [hverdict]
    rw [hload]
    refine ⟨h.rules, ?_, h.quiet⟩
    rw [hcount _ hrefused]
    exact h.errors

theorem counts (b : Build) (calls : List (LoadCall ω)) : Counts b calls (afterLoads b calls) := by
  induction calls using List.reverseRecOn with
  | nil => exact ⟨rfl, rfl, fun _ => rfl⟩
  | append_singleton calls c ih =>
    rw [afterLoads_concat]
    exact ih.apply c

/-- **What is shown after one call**: it is the call's, unless the call fails without a bad line and
leaves the line of another. -/
theorem shown_iff (b : Build) (calls : List (LoadCall ω)) (c : LoadCall ω) :
    ((afterLoads b (calls ++ [c])).state.errorLine.toNat,
        (afterLoads b (calls ++ [c])).state.error) = (c.verdict b).shown ↔
      ¬ (c.verdict b = .failed ∧ (afterLoads b calls).state.errorLine ≠ 0) := by
  have hcounts := counts b calls
  rw [afterLoads_concat]
  unfold LoadCall.apply
  rcases load_cases b (afterLoads b calls) c with
    ⟨hverdict, rules, -, hload⟩ | ⟨e, line, reason, hverdict, hload⟩ | ⟨hverdict, e, hload⟩
  · rw [hload, hverdict]
    exact iff_of_true rfl nofun
  · rw [hload, hverdict]
    exact iff_of_true rfl nofun
  · rw [hload, hverdict]
    constructor
    · rintro h ⟨-, hline⟩
      exact hline (UInt16.toNat_inj.1 (congrArg Prod.fst h))
    · intro h
      have hline : (afterLoads b calls).state.errorLine = 0 := by
        by_contra hne
        exact h ⟨rfl, hne⟩
      exact Prod.ext (congrArg UInt16.toNat hline) (hcounts.quiet hline)

/-- **What the status says.**  Over any calls of `kfsw_limits_load`: after each of them the line and
the error describe that call, `rules` is the size of the set in force and `parse_errors` the number
of the calls that were refused for a bad line, exactly if no call that fails for another reason
comes while there is an error line. -/
theorem load_status_iff (b : Build) (calls : List (LoadCall ω)) :
    (∀ before c, before ++ [c] <+: calls → Reported b before c) ↔
      ∀ before c, before ++ [c] <+: calls →
        ¬ (c.verdict b = .failed ∧ (afterLoads b before).state.errorLine ≠ 0) := by
  constructor
  · intro h before c hc
    exact (shown_iff b before c).1 (h before c hc).shown
  · intro h before c hc
    have hcounts := counts b (before ++ [c])
    exact ⟨(shown_iff b before c).2 (h before c hc), hcounts.rules, hcounts.errors⟩

/-- A file with a line that is no rule, behind a comment. -/
def badFile : File := ⟨(CString.ofString "# rules\nnonsense\n").bytes, none⟩

/-- A load of it. -/
def loadBad : LoadCall Unit :=
  ⟨smallHost, true, fun _ => .ok badFile, some (.ofString "limits.txt")⟩

/-- A load of a file that does not exist. -/
def loadMissing : LoadCall Unit :=
  ⟨smallHost, true, fun _ => .error .ENOENT, some (.ofString "other.txt")⟩

/-- **An error of another call.**  The second call fails because there is no such file, and the
status still has line 2 of the first one. -/
theorem shows_stale_line : ¬ ∀ before c, before ++ [c] <+: [loadBad, loadMissing] →
    Reported smallBuild before c := by
  intro h
  have hshown := (h [loadBad] loadMissing (List.prefix_refl _)).shown
  have hline : (afterLoads smallBuild [loadBad, loadMissing]).state.errorLine = 2 := by
    decide +kernel
  have hstale : (afterLoads smallBuild [loadBad, loadMissing]).state.errorLine.toNat = 0 :=
    congrArg Prod.fst hshown
  rw [hline] at hstale
  exact absurd hstale (by decide)

end KfswServices.Limits
