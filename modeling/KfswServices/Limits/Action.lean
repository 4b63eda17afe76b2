/-
# The action of a limit rule

`next_field` and `check_action` of `src/limits/limits.c`.  The action is a command line that the
scheduler takes apart on its own (`tokenise` and `build` of `src/fbo/fbo_schedule.c`), at the add and
again at the release.  Both see the words between blanks (`nextField_words`, `tokenise_words`); but
`build` copies each argument into `KFSW_COMMAND_MAX_TEXT_SIZE` characters, so that a number of more
digits passes the check and is refused at the release (`action_releasable_iff`).
-/

import KfswServices.Command.Registry
import KfswServices.Fbo.Schedule

namespace KfswServices.Limits

open Command
open Fbo (isBlank tokenise lineMax parseWords build)

variable {ω : Type*}

/-- `next_field`: the field, none at the end, and the cursor behind it. -/
def nextField (cursor : CString) : Option CString × CString :=
  let start := cursor.dropWhile isBlank
  if start.length = 0 then (none, start)
  else
    (some (start.takeWhile fun c => !isBlank c), (start.dropWhile fun c => !isBlank c).drop 1)

/-- The arguments of `check_action`, and the cursor behind them. -/
def checkArgs : List ArgType → CString → Except CString (List Arg × CString)
  | [], cursor => .ok ([], cursor)
  | type :: types, cursor =>
    match nextField cursor with
    | (none, _) => .error (.ofString "action argument is missing or of the wrong type")
    | (some token, cursor) =>
      match parseArg token type with
      | .error _ => .error (.ofString "action argument is missing or of the wrong type")
      | .ok a => (checkArgs types cursor).map fun (args, cursor) => (a :: args, cursor)

/-- `check_action`: what is wrong with the action, or the command and the arguments it parsed. -/
def checkAction (n : Node ω) (action : CString) :
    Except CString (Definition ω × List Arg) :=
  if lineMax ≤ action.length then .error (.ofString "action is too long")
  else
    match nextField action with
    | (none, _) => .error (.ofString "action is not a registered command")
    | (some token, cursor) =>
      match find n token with
      | .error _ => .error (.ofString "action is not a registered command")
      | .ok d =>
        match checkArgs d.argTypes cursor with
        | .error reason => .error reason
        | .ok (args, cursor) =>
          if (nextField cursor).1 = none then .ok (d, args)
          else .error (.ofString "action has more arguments than the command takes")

/-! ### Words -/

/-- The words of a text, between blanks. -/
def words (text : CString) : List CString := tokenise text.length text

/-- What is behind a word is shorter. -/
theorem length_nextField {cursor rest token : CString}
    (h : nextField cursor = (some token, rest)) : rest.length < cursor.length := by
  unfold nextField at h
  dsimp only at h
  by_cases hempty : (cursor.dropWhile isBlank).length = 0
  · rw [if_pos hempty] at h
    cases h
  · rw [if_neg hempty] at h
    obtain ⟨-, rfl⟩ := Prod.mk.inj h
    have hdrop : (cursor.dropWhile isBlank).length ≤ cursor.length :=
      (List.dropWhile_suffix _).length_le
    have hword : ((cursor.dropWhile isBlank).dropWhile fun c => !isBlank c).length ≤
        (cursor.dropWhile isBlank).length := (List.dropWhile_suffix _).length_le
    have hrest : (((cursor.dropWhile isBlank).dropWhile fun c => !isBlank c).drop 1).length =
        ((cursor.dropWhile isBlank).dropWhile fun c => !isBlank c).length - 1 := List.length_drop
    omega

/-- `tokenise` takes one field after the other. -/
theorem tokenise_succ (max : ℕ) (text : CString) :
    tokenise (max + 1) text = match nextField text with
      | (none, _) => []
      | (some token, rest) => token :: tokenise max rest := by
  rw [tokenise]
  unfold nextField
  dsimp only
  split_ifs <;> rfl

/-- Nothing is left to take. -/
theorem nextField_empty {text : CString} (h : text.length = 0) : nextField text = (none, text) := by
  have hnil : text.bytes = [] := List.length_eq_zero_iff.1 h
  have hdrop : text.dropWhile isBlank = text := by
    unfold CString.dropWhile
    simp only [hnil, List.dropWhile_nil]
    exact (CString.mk.injEq ..).mpr hnil.symm
  unfold nextField
  dsimp only
  rw [hdrop, if_pos h]

/-- Enough turns take all words. -/
theorem tokenise_eq {n m : ℕ} {text : CString} (hn : text.length ≤ n) (hm : text.length ≤ m) :
    tokenise n text = tokenise m text := by
  induction n generalizing m text with
  | zero =>
    cases m with
    | zero => rfl
    | succ m => rw [tokenise_succ, nextField_empty (by omega), tokenise]
  | succ n ih =>
    cases m with
    | zero => rw [tokenise_succ, nextField_empty (by omega), tokenise]
    | succ m =>
      rw [tokenise_succ, tokenise_succ]
      rcases hnext : nextField text with ⟨_ | token, rest⟩
      · rfl
      · have := length_nextField hnext
        exact congrArg (token :: ·) (ih (by omega) (by omega))

/-- **The words of a text**, one after the other. -/
theorem words_eq (text : CString) :
    words text = match nextField text with
      | (none, _) => []
      | (some token, rest) => token :: words rest := by
  have h := @tokenise_eq text.length (text.length + 1) text le_rfl (by omega)
  unfold words
  rw [h, tokenise_succ]
  rcases hnext : nextField text with ⟨_ | token, rest⟩
  · rfl
  · have := length_nextField hnext
    exact congrArg (token :: ·) (tokenise_eq (by omega) le_rfl)

theorem words_none {text rest : CString} (h : nextField text = (none, rest)) : words text = [] := by
  rw [words_eq, h]

theorem words_some {text rest token : CString} (h : nextField text = (some token, rest)) :
    words text = token :: words rest := by
  rw [words_eq, h]

/-- **What `tokenise` takes** of them. -/
theorem tokenise_words (max : ℕ) (text : CString) : tokenise max text = (words text).take max := by
  induction max generalizing text with
  | zero => rw [List.take_zero, tokenise]
  | succ max ih =>
    rw [tokenise_succ]
    rcases hnext : nextField text with ⟨_ | token, rest⟩
    · rw [words_none hnext, List.take_nil]
    · rw [words_some hnext, List.take_succ_cons]
      exact congrArg (token :: ·) (ih rest)

/-! ### What the check accepts -/

/-- Words that are parsed as these types, into these arguments. -/
inductive Parsed : List CString → List ArgType → List Arg → Prop
  | nil : Parsed [] [] []
  | cons {word : CString} {type : ArgType} {a : Arg} {words : List CString}
      {types : List ArgType} {args : List Arg} :
      parseArg word type = .ok a → Parsed words types args →
        Parsed (word :: words) (type :: types) (a :: args)

variable {types : List ArgType} {args : List Arg}

theorem Parsed.length {words : List CString} (h : Parsed words types args) :
    words.length = types.length := by
  induction h with
  | nil => rfl
  | cons _ _ ih => rw [List.length_cons, List.length_cons, ih]

/-- There is no further field if there is no further word. -/
theorem nextField_none_iff (cursor : CString) : (nextField cursor).1 = none ↔ words cursor = [] := by
  rcases hnext : nextField cursor with ⟨_ | token, rest⟩
  · exact iff_of_true rfl (words_none hnext)
  · exact iff_of_false (by simp) (by rw [words_some hnext]; simp)

/-- The arguments of `check_action` are the next words. -/
theorem checkArgs_words {cursor rest : CString} (h : checkArgs types cursor = .ok (args, rest)) :
    ∃ taken, words cursor = taken ++ words rest ∧ Parsed taken types args := by
  induction types generalizing cursor args with
  | nil =>
    obtain ⟨rfl, rfl⟩ := Prod.mk.inj (Except.ok.inj h)
    exact ⟨[], rfl, .nil⟩
  | cons type types ih =>
    rw [checkArgs] at h
    rcases hnext : nextField cursor with ⟨_ | token, after⟩
    · rw [hnext] at h
      cases h
    · rw [hnext] at h
      dsimp only at h
      cases ha : parseArg token type with
      | error e =>
        rw [ha] at h
        cases h
      | ok a =>
        rw [ha] at h
        dsimp only at h
        cases hargs : checkArgs types after with
        | error e =>
          rw [hargs] at h
          cases h
        | ok out =>
          obtain ⟨args', rest'⟩ := out
          rw [hargs] at h
          obtain ⟨rfl, rfl⟩ := Prod.mk.inj (Except.ok.inj h)
          obtain ⟨taken, hwords, hparsed⟩ := ih hargs
          refine ⟨token :: taken, ?_, .cons ha hparsed⟩
          rw [words_some hnext, hwords, List.cons_append]

/-- Words that parse are accepted. -/
theorem checkArgs_of_parsed {cursor : CString} {taken more : List CString}
    (hwords : words cursor = taken ++ more) (h : Parsed taken types args) :
    ∃ rest, checkArgs types cursor = .ok (args, rest) ∧ words rest = more := by
  induction h generalizing cursor with
  | nil => exact ⟨cursor, rfl, hwords⟩
  | @cons word type a taken types args ha _ ih =>
    rcases hnext : nextField cursor with ⟨_ | token, after⟩
    · rw [words_none hnext] at hwords
      exact absurd hwords (by simp)
    · rw [words_some hnext, List.cons_append, List.cons.injEq] at hwords
      obtain ⟨rfl, hwords⟩ := hwords
      obtain ⟨rest, hargs, hmore⟩ := ih hwords
      refine ⟨rest, ?_, hmore⟩
      rw [checkArgs, hnext]
      dsimp only
      rw [ha]
      dsimp only
      rw [hargs]
      rfl

/-- **What `check_action` accepts**: a registered command, with the words that its arguments take. -/
theorem checkAction_iff {n : Node ω} {action : CString} {d : Definition ω} :
    checkAction n action = .ok (d, args) ↔ action.length < lineMax ∧
      ∃ name arguments, words action = name :: arguments ∧ find n name = .ok d ∧
        Parsed arguments d.argTypes args := by
  unfold checkAction
  by_cases hlong : lineMax ≤ action.length
  · rw [if_pos hlong]
    exact iff_of_false (by simp) (by omega)
  rw [if_neg hlong]
  rcases hnext : nextField action with ⟨_ | token, cursor⟩
  · refine iff_of_false (by simp) ?_
    rintro ⟨-, name, arguments, hwords, -⟩
    rw [words_none hnext] at hwords
    cases hwords
  dsimp only
  rw [words_some hnext]
  constructor
  · intro h
    cases hfind : find n token with
    | error e =>
      rw [hfind] at h
      cases h
    | ok d' =>
      rw [hfind] at h
      dsimp only at h
      cases hargs : checkArgs d'.argTypes cursor with
      | error e =>
        rw [hargs] at h
        cases h
      | ok out =>
        obtain ⟨args', rest⟩ := out
        rw [hargs] at h
        dsimp only at h
        by_cases hend : (nextField rest).1 = none
        · rw [if_pos hend] at h
          obtain ⟨rfl, rfl⟩ := Prod.mk.inj (Except.ok.inj h)
          obtain ⟨taken, hwords, hparsed⟩ := checkArgs_words hargs
          rw [(nextField_none_iff rest).1 hend, List.append_nil] at hwords
          exact ⟨not_le.1 hlong, token, taken, by rw [hwords], hfind, hparsed⟩
        · rw [if_neg hend] at h
          cases h
  · rintro ⟨-, name, arguments, hwords, hfind, hparsed⟩
    obtain ⟨rfl, hrest⟩ := List.cons.inj hwords
    have hcursor : words cursor = arguments ++ [] := by rw [hrest, List.append_nil]
    obtain ⟨rest, hargs, hmore⟩ := checkArgs_of_parsed hcursor hparsed
    rw [hfind]
    dsimp only
    rw [hargs]
    dsimp only
    rw [if_pos ((nextField_none_iff rest).2 hmore)]

/-! ### What the scheduler makes of it -/

/-- The loop of `build` takes the same words, if none is too long for its copy. -/
theorem parseWords_of_parsed {arguments : List CString} (h : Parsed arguments types args) :
    parseWords arguments types =
      if ∀ word ∈ arguments, word.length ≤ maxTextSize then .ok args else .error .EINVAL := by
  induction h with
  | nil => rw [parseWords, if_pos (by simp)]; nofun
  | @cons word type a arguments types args ha _ ih =>
    rw [parseWords]
    by_cases hlong : word.length > maxTextSize
    · rw [if_pos hlong, if_neg fun hall => absurd (hall word (by simp)) (not_le.2 hlong)]
    · rw [if_neg hlong, ha]
      dsimp only
      rw [ih]
      by_cases hall : ∀ word ∈ arguments, word.length ≤ maxTextSize
      · rw [if_pos hall, if_pos (by simpa using ⟨not_lt.1 hlong, hall⟩)]
        rfl
      · rw [if_neg hall, if_neg fun hall' => hall fun x hx => hall' x (List.mem_cons_of_mem _ hx)]
        rfl

/-- **What `build` makes of an accepted action.** -/
theorem build_accepted {n : Node ω} (hreg : Registered n.registry) {action name : CString}
    {d : Definition ω} {arguments : List CString} (hwords : words action = name :: arguments)
    (hfind : find n name = .ok d) (hparsed : Parsed arguments d.argTypes args) :
    build n action =
      if ∀ word ∈ arguments, word.length ≤ maxTextSize then .ok (d, args) else .error .EINVAL := by
  have hmem : d ∈ n.registry := by
    unfold find at hfind
    split_ifs at hfind
    cases hname : findByName n name with
    | none =>
      rw [hname] at hfind
      cases hfind
    | some d' =>
      rw [hname] at hfind
      obtain rfl := Except.ok.inj hfind
      exact List.mem_of_find?_eq_some hname
  have hlen := hparsed.length
  have hmax := hreg.argTypes_le hmem
  have htokens : tokenise (maxArgs + 2) action = name :: arguments := by
    rw [tokenise_words, hwords, List.take_of_length_le (by rw [List.length_cons]; omega)]
  unfold build
  rw [htokens]
  dsimp only
  rw [if_neg (by omega), hfind]
  dsimp only
  rw [if_neg (by omega), parseWords_of_parsed hparsed]
  split_ifs <;> rfl

/-- The scheduler takes the action for the same command and arguments, and a release of it is refused
for no reason that is in its text: only where the node cannot be commanded, or the queue holds the
same entry, or has no room. -/
def Releasable (n : Node ω) (action : CString) (d : Definition ω) (args : List Arg) : Prop :=
  build n action = .ok (d, args) ∧
    ∀ (cfg : Fbo.Config ω) (q : Fbo.Queue) (serial : ℕ) (node : UInt16) (utc : Option ℤ)
      (mono : ℤ), cfg.node = n →
      (q.add cfg serial ⟨some .RELATIVE, 1, node, some action⟩ utc mono).outcome ∈
        [none, some .EEXIST, some .ENOSPC, some .ENOTSUP]

/-- A release whose text is taken. -/
theorem add_built {cfg : Fbo.Config ω} {action : CString} {d : Definition ω}
    (hbuild : build cfg.node action = .ok (d, args)) (hempty : action.length ≠ 0)
    (hlong : action.length < lineMax) (q : Fbo.Queue) (serial : ℕ) (node : UInt16)
    (utc : Option ℤ) (mono : ℤ) :
    (q.add cfg serial ⟨some .RELATIVE, 1, node, some action⟩ utc mono).outcome ∈
      [none, some .EEXIST, some .ENOSPC, some .ENOTSUP] := by
  unfold Fbo.Queue.add
  dsimp only
  rw [if_neg (by simp [Fbo.delayMaxS]; omega)]
  dsimp only [Fbo.clockGate]
  by_cases hcsp : (!cfg.csp && decide (node ≠ 0)) = true
  · rw [if_pos hcsp]
    simp
  · rw [if_neg hcsp, hbuild]
    dsimp only
    split
    · simp
    · split <;> simp

/-- **Which accepted actions can be released.**  On any registry, an action that the load accepts is
taken by the scheduler for the same command with the same arguments, and never refused for its text,
if and only if none of its arguments is written with more than 64 characters; a text is not, but a
number may be. -/
theorem action_releasable_iff {max : ℕ} {sets : List (Option (List (Definition ω)))}
    {n₀ : Node ω} {action : CString} {d : Definition ω} {args : List Arg}
    (h : checkAction (commandInit max sets n₀).2 action = .ok (d, args)) :
    Releasable (commandInit max sets n₀).2 action d args ↔
      ∀ word ∈ (words action).tail, word.length ≤ maxTextSize := by
  have hreg := registered_commandInit max sets n₀
  obtain ⟨hlong, name, arguments, hwords, hfind, hparsed⟩ := checkAction_iff.1 h
  have hbuild := build_accepted hreg hwords hfind hparsed
  have hempty : action.length ≠ 0 := by
    intro hz
    rw [words_none (nextField_empty hz)] at hwords
    cases hwords
  rw [hwords, List.tail_cons]
  by_cases hall : ∀ word ∈ arguments, word.length ≤ maxTextSize
  · rw [if_pos hall] at hbuild
    refine iff_of_true ⟨hbuild, fun cfg q serial node utc mono hnode => ?_⟩ hall
    exact add_built (by rw [hnode]; exact hbuild) hempty hlong q serial node utc mono
  · rw [if_neg hall] at hbuild
    refine iff_of_false (fun hrel => ?_) hall
    have hboth := hbuild.symm.trans hrel.1
    cases hboth

/-- A command that takes a number. -/
def sampleCommand : Definition Unit :=
  ⟨1, .ofString "mode", [.u32], fun _ _ w => (none, Result.zero, w)⟩

/-- A node with this command. -/
def sampleNode : Node Unit :=
  (commandInit 8 [some [sampleCommand]]
    ⟨[], false, Claim.free, ⟨0, 0, 0, 0⟩, [], ()⟩).2

/-- The number is written with one digit. -/
theorem action_releasable_short :
    Releasable sampleNode (.ofString "mode 1") sampleCommand [.u32 1] :=
  (action_releasable_iff (d := sampleCommand) (by rfl)).2 (by decide)

/-- A number of 65 digits, the first of them zeros. -/
def longAction : CString := .ofString ("mode " ++ String.ofList (List.replicate 64 '0') ++ "1")

/-- **An accepted action is refused at the release**, for its number has 65 digits. -/
theorem long_action_refused : ¬ ∀ (max : ℕ) (sets : List (Option (List (Definition Unit))))
    (n₀ : Node Unit) (action : CString) (d : Definition Unit) (args : List Arg),
    checkAction (commandInit max sets n₀).2 action = .ok (d, args) →
      Releasable (commandInit max sets n₀).2 action d args := by
  intro h
  have hrel := h 8 [some [sampleCommand]] ⟨[], false, Claim.free, ⟨0, 0, 0, 0⟩, [], ()⟩ longAction
    sampleCommand [.u32 1] (by rfl)
  have hlong : build sampleNode longAction = .error .EINVAL := by rfl
  have hbuild := hrel.1
  rw [show (commandInit 8 [some [sampleCommand]] ⟨[], false, Claim.free, ⟨0, 0, 0, 0⟩, [], ()⟩).2 =
    sampleNode from rfl, hlong] at hbuild
  cases hbuild

end KfswServices.Limits
