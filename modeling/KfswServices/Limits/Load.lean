/-
# Loading a rule file

`read_line`, `parse_file` and `kfsw_limits_load` of `src/limits/limits.c`.  The file is read a byte
at a time into a buffer that is then a C string, so that a NUL ends the line early: the rest of it is
ignored, and with it the whole line where the NUL comes first.

A load that fails changes no rule; one that succeeds takes exactly the rules that the lines denote if
none of them, but for the comments, has a NUL (`load_whole_iff`).
-/

import KfswServices.Limits.Line
import KfswServices.Limits.Sweep

namespace KfswServices.Limits

open Fbo (isBlank)

/-- `LIMITS_LINE_BYTES`. -/
abbrev lineBytes : ℕ := 192

/-- `LIMITS_FILE_BYTES_MAX`. -/
def Build.fileBytesMax (b : Build) : ℕ := b.maxRules * lineBytes * 2

/-- A file as it is read: the bytes there are before its end, or before the read that fails. -/
structure File where
  bytes : List UInt8
  failure : Option Errno

/-! ### Reading -/

/-- What `read_line` leaves: the buffer, whether the line was too long for it or the last one, and
what it has not read, with the bytes read so far. -/
structure LineRead where
  line : List UInt8
  tooLong : Bool
  atEnd : Bool
  rest : List UInt8
  bytes : ℕ

/-- `read_line`. -/
def readLine (limit : ℕ) (failure : Option Errno) :
    List UInt8 → ℕ → List UInt8 → Bool → Except Errno LineRead
  | [], bytes, used, tooLong =>
    match failure with
    | some e => .error e
    | none => .ok ⟨used, tooLong, true, [], bytes⟩
  | c :: rest, bytes, used, tooLong =>
    if limit < bytes + 1 then .error .EFBIG
    else if c = 10 then .ok ⟨used, tooLong, false, rest, bytes + 1⟩
    else if c = 13 then readLine limit failure rest (bytes + 1) used tooLong
    else if lineBytes ≤ used.length + 1 then readLine limit failure rest (bytes + 1) used true
    else readLine limit failure rest (bytes + 1) (used ++ [c]) tooLong

/-- Why a file is not taken; a bad line has its number and a reason. -/
structure Refusal where
  error : Errno
  line : UInt16
  reason : Option CString

variable {ω : Type}

/-- The body of the loop of `parse_file` on a line: the rule, none where the line is passed over, or
what is wrong with it. -/
def takeLine (b : Build) (h : Host ω) (count : ℕ) (line : List UInt8) (tooLong : Bool) :
    Except CString (Option Rule) :=
  let text := (CString.scan line).dropWhile isBlank
  if text.bytes.head? = some 35 ∨ (text.length = 0 ∧ tooLong = false) then .ok none
  else if tooLong then .error (.ofString "line is too long")
  else if count = b.maxRules then .error (.ofString "more rules than this build holds")
  else
    match parseLine b h text with
    | .error reason => .error reason
    | .ok rule => .ok (some { rule with index := UInt8.ofNat count })

/-- The loop of `parse_file`, with the line number so far and the staged rules; a turn reads a byte
or is the last, so that `turns` do not run out. -/
def parseFrom (b : Build) (h : Host ω) (failure : Option Errno) :
    ℕ → List UInt8 → ℕ → UInt16 → List Rule → Except Refusal (List Rule)
  | 0, _, _, _, _ => .error ⟨.EINVAL, 0, none⟩
  | turns + 1, rest, bytes, number, staged =>
    match readLine b.fileBytesMax failure rest bytes [] false with
    | .error e => .error ⟨e, 0, none⟩
    | .ok r =>
      match takeLine b h staged.length r.line r.tooLong with
      | .error reason => .error ⟨.EINVAL, number + 1, some reason⟩
      | .ok rule =>
        if r.atEnd then .ok (staged ++ rule.toList)
        else parseFrom b h failure turns r.rest r.bytes (number + 1) (staged ++ rule.toList)

/-- `parse_file`. -/
def parseFile (b : Build) (h : Host ω) (file : File) : Except Refusal (List Rule) :=
  parseFrom b h file.failure (file.bytes.length + 1) file.bytes 0 0 []

/-! ### The load -/

/-- `KFSW_FBO_NAME_MAX`, the terminator included. -/
abbrev nameMax : ℕ := 32

/-- The name of a file in the directory: not empty, not too long and without a path. -/
def plainName (name : CString) : Bool :=
  name.length < nameMax && name.length ≠ 0 && 47 ∉ name.bytes &&
    !decide ([46, 46] <:+: name.bytes)

/-- The path of a rule file. -/
def rulePath (name : CString) : CString :=
  (CString.ofString "/kfsw/ftp/limits/" ++ name).take 95

/-- The service after a file was taken. -/
def Service.take (s : Service) (rules : List Rule) : Service :=
  ⟨rules, { s.state with rules := UInt8.ofNat rules.length, errorLine := 0, error := .empty }⟩

/-- The service after a file was not. -/
def Service.refuse (s : Service) (r : Refusal) : Service :=
  match r.reason with
  | none => s
  | some reason =>
    { s with state := { s.state with
        parseErrors := Library.saturatingInc s.state.parseErrors
        errorLine := r.line
        error := reason } }

/-- `kfsw_limits_load`; `ready` is what `kfsw_storage_is_ready` says, and `open` what `fs_open`
gives. -/
def Service.load (b : Build) (h : Host ω) (ready : Bool) (fsOpen : CString → Except Errno File)
    (name : Option CString) (s : Service) : Option Errno × Service :=
  match name with
  | none => (some .EINVAL, s)
  | some name =>
    if !plainName name then (some .EINVAL, s)
    else if !ready then (some .ENODEV, s)
    else
      match fsOpen (rulePath name) with
      | .error e => (some e, s)
      | .ok file =>
        match parseFile b h file with
        | .error r => (some r.error, s.refuse r)
        | .ok rules => (none, s.take rules)

/-! ### What a file says -/

/-- A line without its carriage returns. -/
def deleteCr (xs : List UInt8) : List UInt8 := xs.filter (· ≠ 13)

/-- The lines between the newlines. -/
def linesOf (bytes : List UInt8) : List (List UInt8) := (bytes.splitOn 10).map deleteCr

/-- The line is neither blank nor a comment. -/
def significant (line : List UInt8) : Bool :=
  match line.dropWhile isBlank with
  | [] => false
  | c :: _ => c ≠ 35

/-- **The rules are those of the file**: in order, one for each line that is neither blank nor a
comment, and numbered so. -/
def Whole (b : Build) (h : Host ω) (file : File) (rules : List Rule) : Prop :=
  List.Forall₂ (Denotes b h) ((linesOf file.bytes).filter significant) rules ∧
    ∀ i rule, rules[i]? = some rule → rule.index = UInt8.ofNat i

/-! ### One line -/

/-- **What `read_line` reads**: the line up to its newline, or to the end of the file. -/
theorem readLine_spec {limit : ℕ} {failure : Option Errno} {xs used : List UInt8} {bytes : ℕ}
    {tooLong : Bool} {r : LineRead}
    (h : readLine limit failure xs bytes used tooLong = .ok r) (hused : used.length < lineBytes) :
    ∃ pre, 10 ∉ pre ∧ ((xs = pre ++ 10 :: r.rest ∧ r.atEnd = false) ∨
        (xs = pre ∧ r.atEnd = true ∧ failure = none)) ∧
      r.line = (used ++ deleteCr pre).take (lineBytes - 1) ∧
      r.tooLong = (tooLong || decide (lineBytes ≤ (used ++ deleteCr pre).length)) := by
  induction xs generalizing bytes used tooLong with
  | nil =>
    cases failure with
    | some e => cases h
    | none =>
      obtain rfl := Except.ok.inj h
      refine ⟨[], by simp, .inr ⟨rfl, rfl, rfl⟩, ?_, ?_⟩
      · rw [deleteCr, List.filter_nil, List.append_nil, List.take_of_length_le (by omega)]
      · rw [deleteCr, List.filter_nil, List.append_nil, decide_eq_false (by omega), Bool.or_false]
  | cons c xs ih =>
    rw [readLine, ite_error_eq_ok] at h
    obtain ⟨-, h⟩ := h
    by_cases hnewline : c = 10
    · rw [if_pos hnewline] at h
      obtain rfl := Except.ok.inj h
      refine ⟨[], by simp, .inl ⟨by rw [hnewline]; rfl, rfl⟩, ?_, ?_⟩
      · rw [deleteCr, List.filter_nil, List.append_nil, List.take_of_length_le (by omega)]
      · rw [deleteCr, List.filter_nil, List.append_nil, decide_eq_false (by omega), Bool.or_false]
    rw [if_neg hnewline] at h
    -- the byte goes in front of what is read behind it
    have hcons : ∀ {pre : List UInt8}, 10 ∉ pre →
        ((xs = pre ++ 10 :: r.rest ∧ r.atEnd = false) ∨
          (xs = pre ∧ r.atEnd = true ∧ failure = none)) →
        10 ∉ c :: pre ∧ ((c :: xs = c :: pre ++ 10 :: r.rest ∧ r.atEnd = false) ∨
          (c :: xs = c :: pre ∧ r.atEnd = true ∧ failure = none)) := by
      intro pre hpre hcases
      refine ⟨fun hmem => ?_, ?_⟩
      · rcases List.mem_cons.1 hmem with hc | hmem
        · exact hnewline hc.symm
        · exact hpre hmem
      · rcases hcases with ⟨rfl, hend⟩ | ⟨rfl, hend⟩
        · exact .inl ⟨rfl, hend⟩
        · exact .inr ⟨rfl, hend⟩
    by_cases hcr : c = 13
    · rw [if_pos hcr] at h
      obtain ⟨pre, hpre, hcases, hline, hlong⟩ := ih h hused
      obtain ⟨hpre', hcases'⟩ := hcons hpre hcases
      have hdel : deleteCr (c :: pre) = deleteCr pre := by simp [deleteCr, hcr]
      exact ⟨c :: pre, hpre', hcases', by rw [hdel]; exact hline, by rw [hdel]; exact hlong⟩
    rw [if_neg hcr] at h
    have hdel : ∀ pre, deleteCr (c :: pre) = c :: deleteCr pre := fun pre => by
      simp [deleteCr, hcr]
    by_cases hfull : lineBytes ≤ used.length + 1
    · rw [if_pos hfull] at h
      obtain ⟨pre, hpre, hcases, hline, hlong⟩ := ih h hused
      obtain ⟨hpre', hcases'⟩ := hcons hpre hcases
      have hlen : used.length = lineBytes - 1 := by omega
      refine ⟨c :: pre, hpre', hcases', ?_, ?_⟩
      · rw [hline, hdel, List.take_left' hlen, List.take_left' hlen]
      · rw [hlong, hdel, Bool.true_or, Eq.comm, Bool.or_eq_true, decide_eq_true_iff,
          List.length_append, List.length_cons]
        omega
    · rw [if_neg hfull] at h
      obtain ⟨pre, hpre, hcases, hline, hlong⟩ := ih h (by
        rw [List.length_append, List.length_singleton]
        omega)
      obtain ⟨hpre', hcases'⟩ := hcons hpre hcases
      rw [List.append_assoc, List.singleton_append, ← hdel] at hline hlong
      exact ⟨c :: pre, hpre', hcases', hline, hlong⟩

/-- The blanks at the front of a string, and its terminator. -/
theorem dropWhile_scan (xs : List UInt8) :
    ((CString.scan xs).dropWhile isBlank).bytes = (xs.dropWhile isBlank).takeWhile (· ≠ 0) := by
  show (xs.takeWhile (· ≠ 0)).dropWhile isBlank = _
  induction xs with
  | nil => rfl
  | cons c xs ih =>
    by_cases hblank : isBlank c = true
    · have hne : c ≠ 0 := fun hz => absurd (hz ▸ hblank) (by decide)
      rw [List.takeWhile_cons_of_pos (by simpa using hne), List.dropWhile_cons_of_pos hblank,
        List.dropWhile_cons_of_pos hblank]
      exact ih
    · rw [List.dropWhile_cons_of_neg hblank]
      by_cases hne : c ≠ 0
      · rw [List.takeWhile_cons_of_pos (by simpa using hne), List.dropWhile_cons_of_neg hblank]
      · rw [List.takeWhile_cons_of_neg (by simpa using hne), List.dropWhile_nil]

/-- The first character that is not blank is the same in the part that was kept. -/
theorem head?_dropWhile_take {n : ℕ} {xs : List UInt8} {c : UInt8}
    (h : ((xs.take n).dropWhile isBlank).head? = some c) :
    (xs.dropWhile isBlank).head? = some c := by
  induction xs generalizing n with
  | nil => rwa [List.take_nil] at h
  | cons x xs ih =>
    cases n with
    | zero => exact absurd h (by simp)
    | succ n =>
      rw [List.take_succ_cons] at h
      by_cases hblank : isBlank x = true
      · rw [List.dropWhile_cons_of_pos hblank] at h ⊢
        exact ih h
      · rw [List.dropWhile_cons_of_neg hblank] at h ⊢
        exact h

/-- Blanks before the first word. -/
theorem Spaced.prepend {gap xs word rest : List UInt8} {words : List (List UInt8)}
    (hgap : Blank gap) (h : Spaced xs (word :: words) rest) :
    Spaced (gap ++ xs) (word :: words) rest := by
  cases h with
  | @field gap' _ tail _ blank _ hgap' hword hblank hrest =>
    rw [← List.append_assoc, ← List.append_assoc]
    refine .field (fun c hc => ?_) hword hblank hrest
    rcases List.mem_append.1 hc with hc | hc
    · exact hgap c hc
    · exact hgap' c hc

variable {b : Build} {h : Host ω} {line : List UInt8}

/-- Blanks before a line say nothing, and its number is none of its words. -/
theorem Denotes.ofText {rule : Rule} (hd : Denotes b h (line.dropWhile isBlank) rule)
    (index : UInt8) : Denotes b h line { rule with index } := by
  obtain ⟨dwell, node, before, after, hbefore, hafter, hspaced, hrest⟩ := hd.shape
  have hgap : Blank (line.takeWhile isBlank) := fun c hc => List.mem_takeWhile_imp hc
  have hline' := hspaced.prepend hgap
  rw [List.takeWhile_append_dropWhile] at hline'
  exact ⟨⟨dwell, node, before, after, hbefore, hafter, hline', hrest⟩, hd.parameter,
    hd.numeric, hd.cmp, hd.bound, hd.dwell, hd.node, hd.trimmed, hd.action, hd.fresh⟩

/-- **A line that is passed over** is blank or a comment, or has a NUL. -/
theorem takeLine_none {count : ℕ}
    (htake : takeLine b h count (line.take (lineBytes - 1)) (decide (lineBytes ≤ line.length)) =
      .ok none) (hline : significant line = true) : 0 ∈ line := by
  unfold significant at hline
  unfold takeLine at htake
  dsimp only at htake
  rcases ite_eq_iff.1 htake with ⟨hpass, -⟩ | ⟨hpass, htake⟩
  · rcases hpass with hcomment | ⟨hempty, hlong⟩
    · -- the line begins as a comment
      rw [dropWhile_scan] at hcomment
      have hhead : ((line.take (lineBytes - 1)).dropWhile isBlank).head? = some 35 := by
        rcases hbuffer : (line.take (lineBytes - 1)).dropWhile isBlank with _ | ⟨c, tail⟩
        · rw [hbuffer] at hcomment
          exact hcomment
        · rw [hbuffer] at hcomment
          by_cases hc : c = 0
          · rw [List.takeWhile_cons_of_neg (by simpa using hc)] at hcomment
            cases hcomment
          · rw [List.takeWhile_cons_of_pos (by simpa using hc)] at hcomment
            exact hcomment
      have hfirst := head?_dropWhile_take hhead
      rcases hdrop : line.dropWhile isBlank with _ | ⟨c, tail⟩
      · rw [hdrop] at hfirst
        cases hfirst
      · rw [hdrop] at hfirst hline
        rw [Option.some.inj hfirst] at hline
        cases hline
    · -- the string is empty, though the line is not blank
      have hshort : line.length < lineBytes := by simpa using hlong
      have hnil : ((CString.scan (line.take (lineBytes - 1))).dropWhile isBlank).bytes = [] :=
        List.length_eq_zero_iff.1 hempty
      rw [dropWhile_scan, List.take_of_length_le (by omega)] at hnil
      rcases hdrop : line.dropWhile isBlank with _ | ⟨c, tail⟩
      · rw [hdrop] at hline
        cases hline
      · rw [hdrop] at hnil
        have hc : c = 0 := by
          by_contra hne
          rw [List.takeWhile_cons_of_pos (by simpa using hne)] at hnil
          cases hnil
        exact List.dropWhile_subset isBlank (hdrop ▸ hc ▸ List.mem_cons_self ..)
  · rw [ite_error_eq_ok, ite_error_eq_ok] at htake
    split at htake
    · cases htake.2.2
    · cases htake.2.2

/-- **A line that is taken** is a rule, and the one it denotes if it has no NUL. -/
theorem takeLine_some {count : ℕ} {rule : Rule}
    (htake : takeLine b h count (line.take (lineBytes - 1)) (decide (lineBytes ≤ line.length)) =
      .ok (some rule)) : significant line = true ∧ rule.Fresh ∧ rule.index = UInt8.ofNat count ∧
        (0 ∉ line → Denotes b h line rule) := by
  unfold takeLine at htake
  dsimp only at htake
  rcases ite_eq_iff.1 htake with ⟨-, htake⟩ | ⟨hpass, htake⟩
  · cases htake
  rw [ite_error_eq_ok, ite_error_eq_ok] at htake
  obtain ⟨hlong, -, htake⟩ := htake
  have hshort : line.length < lineBytes := by simpa using hlong
  rw [List.take_of_length_le (by omega)] at htake hpass
  rcases hparse : parseLine b h ((CString.scan line).dropWhile isBlank) with reason | parsed
  · rw [hparse] at htake
    cases htake
  rw [hparse] at htake
  obtain rfl := Option.some.inj (Except.ok.inj htake)
  obtain ⟨hdenotes, -⟩ := parseLine_iff.1 hparse
  rw [not_or, not_and, dropWhile_scan] at hpass
  obtain ⟨hcomment, hempty⟩ := hpass
  have hne : (line.dropWhile isBlank).takeWhile (· ≠ 0) ≠ [] := by
    intro hnil
    refine hempty ?_ (decide_eq_false (by omega))
    show ((CString.scan line).dropWhile isBlank).bytes.length = 0
    rw [dropWhile_scan, hnil]
    rfl
  refine ⟨?_, hdenotes.fresh, rfl, fun hline => ?_⟩
  · unfold significant
    rcases hdrop : line.dropWhile isBlank with _ | ⟨c, tail⟩
    · rw [hdrop] at hne
      exact absurd rfl hne
    · rw [hdrop] at hne hcomment
      by_cases hc : c = 0
      · rw [List.takeWhile_cons_of_neg (by simpa using hc)] at hne
        exact absurd rfl hne
      · rw [List.takeWhile_cons_of_pos (by simpa using hc), List.head?_cons] at hcomment
        exact decide_eq_true fun h35 => hcomment (congrArg some h35)
  · rw [dropWhile_scan] at hdenotes
    have hall : (line.dropWhile isBlank).takeWhile (· ≠ 0) = line.dropWhile isBlank :=
      List.takeWhile_eq_self_iff.2 fun c hc => by
        simpa using fun hz : c = 0 => hline (List.dropWhile_subset isBlank (hz ▸ hc))
    rw [hall] at hdenotes
    exact hdenotes.ofText _

/-! ### The whole file -/

/-- A line with its newline is the first of the lines. -/
theorem linesOf_cons {pre : List UInt8} (hpre : 10 ∉ pre) (rest : List UInt8) :
    linesOf (pre ++ 10 :: rest) = deleteCr pre :: linesOf rest := by
  unfold linesOf
  rw [List.splitOn_append_cons_self_of_not_mem hpre, List.map_cons]

/-- A line without one is the last. -/
theorem linesOf_last {pre : List UInt8} (hpre : 10 ∉ pre) : linesOf pre = [deleteCr pre] := by
  unfold linesOf
  rw [List.splitOn_eq_singleton hpre, List.map_singleton]

/-- What a line adds to the rules. -/
structure Adds (b : Build) (h : Host ω) (line : List UInt8) (count : ℕ) (rule : Option Rule) :
    Prop where
  fresh : ∀ r, rule = some r → r.Fresh ∧ r.index = UInt8.ofNat count
  denotes : (significant line = true → 0 ∉ line) →
    List.Forall₂ (Denotes b h) ([line].filter significant) rule.toList

/-- **A line adds what it says**, if it has no NUL or is a comment. -/
theorem takeLine_adds {count : ℕ} {rule : Option Rule}
    (htake : takeLine b h count (line.take (lineBytes - 1)) (decide (lineBytes ≤ line.length)) =
      .ok rule) : Adds b h line count rule := by
  cases rule with
  | none =>
    refine ⟨fun r hr => ?_, fun hline => ?_⟩
    · cases hr
    by_cases hsig : significant line = true
    · exact absurd (takeLine_none htake hsig) (hline hsig)
    · rw [List.filter_singleton, Bool.not_eq_true] at *
      rw [hsig]
      exact .nil
  | some rule =>
    obtain ⟨hsig, hfresh, hindex, hdenotes⟩ := takeLine_some htake
    refine ⟨fun r hr => Option.some.inj hr ▸ ⟨hfresh, hindex⟩, fun hline => ?_⟩
    rw [List.filter_singleton, hsig]
    exact .cons (hdenotes (hline hsig)) .nil

/-- **What `parse_file` stages**: with the file read to its end, a rule for each line that is neither
blank nor a comment, if these have no NUL. -/
theorem parseFrom_spec {failure : Option Errno} {turns : ℕ} {rest : List UInt8} {bytes : ℕ}
    {number : UInt16} {staged rules : List Rule}
    (hparse : parseFrom b h failure turns rest bytes number staged = .ok rules) :
    failure = none ∧ ∃ new, rules = staged ++ new ∧ (∀ i rule, new[i]? = some rule →
        rule.Fresh ∧ rule.index = UInt8.ofNat (staged.length + i)) ∧
      ((∀ line ∈ linesOf rest, significant line = true → 0 ∉ line) →
        List.Forall₂ (Denotes b h) ((linesOf rest).filter significant) new) := by
  induction turns generalizing rest bytes number staged with
  | zero => cases hparse
  | succ turns ih =>
    rw [parseFrom] at hparse
    rcases hread : readLine b.fileBytesMax failure rest bytes [] false with e | r
    · rw [hread] at hparse
      cases hparse
    rw [hread] at hparse
    dsimp only at hparse
    obtain ⟨pre, hpre, hcases, hline, hlong⟩ := readLine_spec hread (by decide)
    rw [List.nil_append] at hline
    rw [List.nil_append, Bool.false_or] at hlong
    rw [hline, hlong] at hparse
    rcases htake : takeLine b h staged.length ((deleteCr pre).take (lineBytes - 1))
      (decide (lineBytes ≤ (deleteCr pre).length)) with reason | rule
    · rw [htake] at hparse
      cases hparse
    rw [htake] at hparse
    dsimp only at hparse
    have hadds := takeLine_adds htake
    have hfirst : ∀ i r, rule.toList[i]? = some r →
        r.Fresh ∧ r.index = UInt8.ofNat (staged.length + i) := by
      intro i r hr
      cases rule with
      | none => cases hr
      | some rule =>
        obtain ⟨hi, hget⟩ := List.getElem?_eq_some_iff.1 hr
        obtain rfl : i = 0 := Nat.lt_one_iff.1 hi
        exact hadds.fresh r (congrArg some hget)
    rcases hcases with ⟨rfl, hend⟩ | ⟨rfl, hend, hfail⟩
    · rw [hend] at hparse
      obtain ⟨hfail, new, hrules, hindex, hnew⟩ := ih hparse
      refine ⟨hfail, rule.toList ++ new, by rw [hrules, List.append_assoc], fun i r hr => ?_,
        fun hall => ?_⟩
      · rcases Nat.lt_or_ge i rule.toList.length with hlt | hge
        · rw [List.getElem?_append_left hlt] at hr
          exact hfirst i r hr
        · rw [List.getElem?_append_right hge] at hr
          obtain ⟨hfresh, heq⟩ := hindex _ r hr
          refine ⟨hfresh, ?_⟩
          rw [heq, List.length_append]
          congr 1
          omega
      · rw [linesOf_cons hpre] at hall ⊢
        rw [← List.singleton_append, List.filter_append]
        exact List.rel_append (hadds.denotes (hall _ (List.mem_cons_self ..)))
          (hnew fun line hmem => hall line (List.mem_cons_of_mem _ hmem))
    · rw [hend] at hparse
      obtain rfl := Except.ok.inj hparse
      refine ⟨hfail, rule.toList, rfl, hfirst, fun hall => ?_⟩
      rw [linesOf_last hpre] at hall ⊢
      exact hadds.denotes (hall _ (List.mem_singleton.2 rfl))

/-- What a load returns 0 for. -/
theorem load_ok {ready : Bool} {fsOpen : CString → Except Errno File} {name : Option CString}
    {s : Service} (hload : (s.load b h ready fsOpen name).1 = none) :
    ∃ name' file rules, name = some name' ∧ fsOpen (rulePath name') = .ok file ∧
      parseFile b h file = .ok rules ∧ (s.load b h ready fsOpen name).2 = s.take rules := by
  unfold Service.load at hload ⊢
  cases name with
  | none => cases hload
  | some name =>
    dsimp only at hload ⊢
    by_cases hplain : (!plainName name) = true
    · rw [if_pos hplain] at hload
      cases hload
    rw [if_neg hplain] at hload ⊢
    by_cases hready : (!ready) = true
    · rw [if_pos hready] at hload
      cases hload
    rw [if_neg hready] at hload ⊢
    rcases hopen : fsOpen (rulePath name) with e | file
    · rw [hopen] at hload
      cases hload
    · rw [hopen] at hload
      dsimp only at hload
      rcases hparse : parseFile b h file with r | rules
      · rw [hparse] at hload
        cases hload
      · exact ⟨name, file, rules, rfl, hopen, hparse, by dsimp only; rw [hparse]⟩

/-- **A load that fails changes no rule.** -/
theorem load_error {ready : Bool} {fsOpen : CString → Except Errno File} {name : Option CString}
    {s : Service} (hload : (s.load b h ready fsOpen name).1 ≠ none) :
    (s.load b h ready fsOpen name).2.rules = s.rules := by
  have hrefuse : ∀ r, (s.refuse r).rules = s.rules := fun r => by
    unfold Service.refuse
    split <;> rfl
  unfold Service.load at hload ⊢
  cases name with
  | none => rfl
  | some name =>
    dsimp only at hload ⊢
    split_ifs at hload ⊢
    · rfl
    · rfl
    · rcases hopen : fsOpen (rulePath name) with e | file
      · rfl
      · rw [hopen] at hload
        dsimp only at hload ⊢
        rcases hparse : parseFile b h file with r | rules
        · exact hrefuse r
        · rw [hparse] at hload
          exact absurd rfl hload

/-- **A rule file is loaded whole or not at all**, if no line of it but the comments has a NUL.  A
load that fails changes no rule; one that succeeds has read the file to its end, and the rules are
those of its lines if and only if these have no NUL. -/
theorem load_whole_iff (b : Build) (h : Host ω) (ready : Bool)
    (fsOpen : CString → Except Errno File) (name : Option CString) (s : Service) :
    let out := s.load b h ready fsOpen name
    (out.1 ≠ none → out.2.rules = s.rules) ∧
      (out.1 = none → ∃ name' file, name = some name' ∧ fsOpen (rulePath name') = .ok file ∧
        file.failure = none ∧ (Whole b h file out.2.rules ↔
          ∀ line ∈ linesOf file.bytes, significant line = true → 0 ∉ line)) := by
  intro out
  refine ⟨load_error, fun hload => ?_⟩
  obtain ⟨name', file, rules, hname, hopen, hparse, heq⟩ := load_ok hload
  obtain ⟨hfail, new, hrules, hindex, hnew⟩ := parseFrom_spec hparse
  rw [List.nil_append] at hrules
  obtain rfl := hrules
  have hout : out.2.rules = rules := by
    show (s.load b h ready fsOpen name).2.rules = rules
    rw [heq]
    rfl
  refine ⟨name', file, hname, hopen, hfail, ?_⟩
  rw [hout]
  constructor
  · rintro ⟨hall, -⟩ line hmem hsig
    obtain ⟨i, hi, hget⟩ := List.mem_iff_getElem.1 (List.mem_filter.2 ⟨hmem, hsig⟩)
    obtain ⟨hlen, hrel⟩ := List.forall₂_iff_get.1 hall
    have hdenotes := hrel i hi (hlen ▸ hi)
    rw [List.get_eq_getElem, hget] at hdenotes
    exact hdenotes.noNul
  · intro hall
    refine ⟨hnew hall, fun i rule hrule => ?_⟩
    rw [(hindex i rule hrule).2, List.length_nil, Nat.zero_add]

/-! ### A small node -/

/-- A build for four rules. -/
def smallBuild : Build := ⟨4, by decide, true, false⟩

/-- A node with a parameter of a byte and a command that takes a text. -/
def smallHost : Host Unit where
  params := (Param.init Param.smallBuild [some (Param.byteTable 1 "stack_worst_used")]
    Param.Service.boot).2
  node := (Command.commandInit 8 [some [⟨1, .ofString "resmon", [.text], fun _ _ w =>
    (none, Command.Result.zero, w)⟩]]
      ⟨[], false, Command.Claim.free, ⟨0, 0, 0, 0⟩, [], ()⟩).2
  strtof := fun _ => none
  strtod := fun _ => none

/-- The rule of `sampleRule`, as it is written. -/
def ruleText : List UInt8 := (CString.ofString "stack_worst_used > 90 2 0 resmon sample").bytes

/-- A comment and a rule. -/
def sampleFile : File := ⟨(CString.ofString "# rules").bytes ++ 10 :: ruleText ++ [13, 10], none⟩

/-- The file is loaded whole. -/
theorem load_whole_sample : (Service.reset.load smallBuild smallHost true (fun _ => .ok sampleFile)
      (some (.ofString "limits.txt"))).2.rules = [sampleRule] ∧
    Whole smallBuild smallHost sampleFile [sampleRule] := by
  have hrules : (Service.reset.load smallBuild smallHost true (fun _ => .ok sampleFile)
      (some (.ofString "limits.txt"))).2.rules = [sampleRule] := by decide +kernel
  have hnul : ∀ line ∈ linesOf sampleFile.bytes, significant line = true → 0 ∉ line := by
    decide +kernel
  obtain ⟨name', file, -, hopen, -, hiff⟩ := (load_whole_iff smallBuild smallHost true
    (fun _ => .ok sampleFile) (some (.ofString "limits.txt")) Service.reset).2 (by decide +kernel)
  obtain rfl := Except.ok.inj hopen
  rw [hrules] at hiff
  exact ⟨hrules, hiff.2 hnul⟩

/-- **A line can be ignored**: one that begins with a NUL, though it is neither blank nor a comment. -/
theorem nul_line_ignored : ¬ ∀ (b : Build) (h : Host Unit) (ready : Bool)
    (fsOpen : CString → Except Errno File) (name : Option CString) (s : Service),
    (s.load b h ready fsOpen name).1 = none →
      ∃ name' file, name = some name' ∧ fsOpen (rulePath name') = .ok file ∧
        Whole b h file (s.load b h ready fsOpen name).2.rules := by
  intro h
  obtain ⟨name', file, -, hopen, hwhole, -⟩ := h smallBuild smallHost true
    (fun _ => .ok ⟨0 :: ruleText, none⟩) (some (.ofString "limits.txt")) Service.reset
    (by decide +kernel)
  obtain rfl := Except.ok.inj hopen
  have hrules : (Service.reset.load smallBuild smallHost true
      (fun _ => .ok ⟨0 :: ruleText, none⟩) (some (.ofString "limits.txt"))).2.rules = [] := by
    decide +kernel
  rw [hrules] at hwhole
  have hlen : ((linesOf (0 :: ruleText)).filter significant).length = 0 := hwhole.length_eq
  exact absurd hlen (by decide +kernel)

end KfswServices.Limits
