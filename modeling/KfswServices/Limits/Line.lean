/-
# A line of a rule file

`parse_line` of `src/limits/limits.c`.  The conversions of floats are the C library's, and stand here
as functions.

What a line says is `Denotes`: five words, each with blanks behind it, and an action without
blanks at its ends, which name a rule.  The lines that `parse_line` takes are those that denote one
(`parseLine_iff`).
-/

import Mathlib.Data.List.DropRight
import KfswServices.Limits.Action
import KfswServices.Limits.Rule
import KfswServices.Param.Store

namespace KfswServices.Limits

open Command (isDigit digitsValue)
open Param (ParamType Scalar)
open Fbo (isBlank lineMax)

/-- The build: `CONFIG_KFSW_LIMITS_MAX_RULES`, `CONFIG_KFSW_COMMAND_CSP` and
`CONFIG_KFSW_PARAM_FLOAT`. -/
structure Build where
  maxRules : ℕ
  maxRules_range : 1 ≤ maxRules ∧ maxRules ≤ 64
  csp : Bool
  float : Bool

/-- What a rule is checked against: the parameters and the commands of the node, and `strtof` and
`strtod`, which give the bits of a text that they convert whole and without an error. -/
structure Host (ω : Type) where
  params : Param.Service
  node : Command.Node ω
  strtof : CString → Option UInt32
  strtod : CString → Option UInt64

variable {ω : Type}

/-! ### Numbers -/

/-- `kfsw_param_parse_text`, for a value of a type of numbers. -/
def parseText (b : Build) (h : Host ω) (type : ParamType) (text : CString) : Except Errno Scalar :=
  Param.parseNumber b.float h.strtof h.strtod type text

/-- `parse_unsigned`; what `strtoul` cannot hold is above any `maximum`. -/
def parseUnsigned (text : CString) (maximum : ℕ) : Option ℕ :=
  let digits := text.bytes.takeWhile (isDigit 10)
  if digits = [] then none
  else if text.bytes.dropWhile (isDigit 10) ≠ [] then none
  else if digitsValue 10 digits ≤ maximum then some (digitsValue 10 digits)
  else none

/-! ### The fields -/

/-- The reason `missing`. -/
def missing : CString :=
  .ofString "expected parameter, comparison, bound, dwell, node and an action"

/-- The field of the parameter: its type. -/
def parameterField (h : Host ω) (name : CString) : Except CString ParamType :=
  if name.length > Param.nameMax then .error (.ofString "parameter name is too long")
  else
    match Param.getInfo h.params name with
    | .error _ => .error (.ofString "unknown parameter")
    | .ok info =>
      if isNumeric info.type then .ok info.type
      else .error (.ofString "parameter is not a number")

/-- `kfsw_limits_cmp_text`. -/
def cmpText : Cmp → CString
  | .GT => .ofString ">"
  | .GE => .ofString ">="
  | .LT => .ofString "<"
  | .LE => .ofString "<="
  | .EQ => .ofString "=="
  | .NE => .ofString "!="

/-- The comparisons, in the order of the table. -/
def comparisons : List Cmp := [.GT, .GE, .LT, .LE, .EQ, .NE]

/-- `parse_comparison`. -/
def parseComparison (text : CString) : Except CString Cmp :=
  match comparisons.find? fun cmp => cmpText cmp = text with
  | some cmp => .ok cmp
  | none => .error (.ofString "unknown comparison")

/-- A float is not compared for equality. -/
def floatEquality (type : ParamType) (cmp : Cmp) : Bool :=
  isFloat type && (cmp = .EQ || cmp = .NE)

/-- The field of the comparison. -/
def comparisonField (type : ParamType) (text : CString) : Except CString Cmp :=
  match parseComparison text with
  | .error reason => .error reason
  | .ok cmp =>
    if floatEquality type cmp then
      .error (.ofString "equality is refused for a float parameter")
    else .ok cmp

/-- The field of the bound. -/
def boundField (b : Build) (h : Host ω) (type : ParamType) (text : CString) :
    Except CString Scalar :=
  if boundTextMax ≤ text.length then .error (.ofString "bound is too long")
  else
    match parseText b h type text with
    | .error _ => .error (.ofString "bound does not fit the type of the parameter")
    | .ok bound => .ok bound

/-- The field of the dwell. -/
def dwellField (text : CString) : Except CString UInt8 :=
  match parseUnsigned text dwellMax with
  | none => .error (.ofString "dwell must be 1 to 255")
  | some dwell =>
    if dwell = 0 then .error (.ofString "dwell must be 1 to 255") else .ok (UInt8.ofNat dwell)

/-- The field of the node. -/
def nodeField (b : Build) (text : CString) : Except CString UInt16 :=
  match parseUnsigned text 65535 with
  | none => .error (.ofString "node is not an address")
  | some node =>
    if !b.csp && UInt16.ofNat node ≠ 0 then
      .error (.ofString "this build has no remote commanding")
    else .ok (UInt16.ofNat node)

/-- The first fields of a text, and the cursor behind them. -/
def fieldsFrom : ℕ → CString → Option (List CString × CString)
  | 0, cursor => some ([], cursor)
  | n + 1, cursor =>
    match nextField cursor with
    | (none, _) => none
    | (some field, cursor) => (fieldsFrom n cursor).map fun (fields, cursor) =>
        (field :: fields, cursor)

/-- The rest of a text, without the blanks at its ends. -/
def trim (text : CString) : CString :=
  ⟨(text.bytes.dropWhile isBlank).rdropWhile isBlank, fun h =>
    text.noNul (List.dropWhile_subset _ ((List.rdropWhile_prefix _ _).subset h))⟩

/-- `parse_line`. -/
def parseLine (b : Build) (h : Host ω) (text : CString) : Except CString Rule :=
  match fieldsFrom 5 text with
  | some ([parameter, comparison, boundText, dwell, node], cursor) =>
    let action := trim cursor
    if action.length = 0 then .error missing
    else do
      let type ← parameterField h parameter
      let cmp ← comparisonField type comparison
      let bound ← boundField b h type boundText
      let dwell ← dwellField dwell
      let node ← nodeField b node
      let _ ← checkAction h.node action
      .ok ⟨0, parameter, type, cmp, bound, boundText, dwell, 0, false, node, action⟩
  | _ => .error missing

/-! ### What a line says -/

/-- Blanks only. -/
def Blank (xs : List UInt8) : Prop := ∀ c ∈ xs, isBlank c = true

/-- A word. -/
def Word (xs : List UInt8) : Prop := xs ≠ [] ∧ ∀ c ∈ xs, isBlank c = false

/-- The line begins with these words, each with a blank behind it, and goes on so. -/
inductive Spaced : List UInt8 → List (List UInt8) → List UInt8 → Prop
  | done (rest : List UInt8) : Spaced rest [] rest
  | field {gap word tail rest : List UInt8} {blank : UInt8} {words : List (List UInt8)} :
      Blank gap → Word word → isBlank blank = true → Spaced tail words rest →
        Spaced (gap ++ word ++ blank :: tail) (word :: words) rest

/-- A text without blanks at its ends. -/
def Trimmed (xs : List UInt8) : Prop :=
  ∃ h : xs ≠ [], isBlank (xs.head h) = false ∧ isBlank (xs.getLast h) = false

/-- A decimal number. -/
def Decimal (xs : List UInt8) (n : ℕ) : Prop :=
  xs ≠ [] ∧ (∀ c ∈ xs, isDigit 10 c = true) ∧ digitsValue 10 xs = n

/-- **What a line denotes.**  All of its characters are those of the words of the rule, its action, and
the blanks between; the rule is on a parameter that is a number, with a bound of its type, and its
action is a command with its arguments.  The streak and the latch are clear. -/
structure Denotes (b : Build) (h : Host ω) (line : List UInt8) (rule : Rule) : Prop where
  shape : ∃ dwell node before after, Blank before ∧ Blank after ∧
    Spaced line [rule.parameter.bytes, (cmpText rule.cmp).bytes, rule.boundText.bytes, dwell, node]
      (before ++ rule.action.bytes ++ after) ∧
    Decimal dwell rule.dwell.toNat ∧ Decimal node rule.node.toNat
  parameter : rule.parameter.length ≤ Param.nameMax ∧
    ∃ info, Param.getInfo h.params rule.parameter = .ok info ∧ info.type = rule.type
  numeric : isNumeric rule.type = true
  cmp : floatEquality rule.type rule.cmp = false
  bound : rule.boundText.length < boundTextMax ∧ parseText b h rule.type rule.boundText = .ok rule.bound
  dwell : rule.dwell ≠ 0
  node : b.csp = true ∨ rule.node = 0
  trimmed : Trimmed rule.action.bytes
  action : rule.action.length < lineMax ∧ ∃ name arguments d args,
    words rule.action = name :: arguments ∧ Command.find h.node name = .ok d ∧
      Parsed arguments d.argTypes args
  fresh : rule.streak = 0 ∧ rule.latched = false

theorem Blank.noNul {xs : List UInt8} (h : Blank xs) : 0 ∉ xs := fun hz =>
  absurd (h 0 hz) (by decide)

theorem Decimal.noNul {xs : List UInt8} {n : ℕ} (h : Decimal xs n) : 0 ∉ xs := fun hz =>
  absurd (h.2.1 0 hz) (by decide)

theorem Spaced.noNul {xs rest : List UInt8} {words : List (List UInt8)} (h : Spaced xs words rest)
    (hwords : ∀ word ∈ words, 0 ∉ word) (hrest : 0 ∉ rest) : 0 ∉ xs := by
  induction h with
  | done => exact hrest
  | field hgap _ hblank _ ih =>
    obtain ⟨hword, hwords⟩ := List.forall_mem_cons.1 hwords
    rw [List.mem_append, List.mem_append, List.mem_cons]
    rintro ((hz | hz) | rfl | hz)
    · exact hgap.noNul hz
    · exact hword hz
    · exact absurd hblank (by decide)
    · exact ih hwords hrest hz

/-- The action with the blanks around it. -/
theorem noNul_rest {before after : List UInt8} (action : CString) (hbefore : Blank before)
    (hafter : Blank after) : 0 ∉ before ++ action.bytes ++ after := by
  rw [List.mem_append, List.mem_append]
  rintro ((hz | hz) | hz)
  · exact hbefore.noNul hz
  · exact action.noNul hz
  · exact hafter.noNul hz

/-- A line that denotes a rule has no NUL. -/
theorem Denotes.noNul {b : Build} {h : Host ω} {line : List UInt8} {rule : Rule}
    (hd : Denotes b h line rule) : 0 ∉ line := by
  obtain ⟨dwell, node, before, after, hbefore, hafter, hspaced, hdec, haddress⟩ := hd.shape
  refine hspaced.noNul ?_ (noNul_rest rule.action hbefore hafter)
  simp only [List.forall_mem_cons]
  exact ⟨rule.parameter.noNul, (cmpText rule.cmp).noNul, rule.boundText.noNul, hdec.noNul,
    haddress.noNul, by simp⟩

/-! ### Taking a line apart -/

/-- A text is its bytes. -/
theorem cstring_inj {s t : CString} (h : s.bytes = t.bytes) : s = t := by
  cases s
  cases t
  exact (CString.mk.injEq ..).mpr h

/-- What a loop over some characters stops at. -/
theorem exists_dropWhile {p : UInt8 → Bool} {xs : List UInt8} (h : xs.dropWhile p ≠ []) :
    ∃ c tail, xs.dropWhile p = c :: tail ∧ p c = false := by
  obtain ⟨c, tail, htail⟩ := List.exists_cons_of_ne_nil h
  refine ⟨c, tail, htail, ?_⟩
  have hhead := List.head_dropWhile_not p h
  simpa [htail] using hhead

variable {text : CString}

/-- **A field that is not the last**: the blanks before it, the word, and the blank behind it. -/
theorem nextField_some {rest token : CString} (h : nextField text = (some token, rest))
    (hrest : rest.length ≠ 0) : ∃ gap blank, Blank gap ∧ Word token.bytes ∧
      isBlank blank = true ∧ text.bytes = gap ++ token.bytes ++ blank :: rest.bytes := by
  unfold nextField at h
  dsimp only at h
  by_cases hempty : (text.dropWhile isBlank).length = 0
  · rw [if_pos hempty] at h
    cases h
  rw [if_neg hempty] at h
  obtain ⟨htoken, rfl⟩ := Prod.mk.inj h
  obtain rfl := Option.some.inj htoken
  set start := text.bytes.dropWhile isBlank with hstart
  have hne : start ≠ [] := fun hnil => hempty (List.length_eq_zero_iff.2 hnil)
  obtain ⟨c, tail, hc, hword⟩ := exists_dropWhile hne
  -- behind the word there is a blank, for something follows
  have hafter : start.dropWhile (fun c => !isBlank c) ≠ [] := by
    intro hnil
    refine hrest ?_
    show ((start.dropWhile fun c => !isBlank c).drop 1).length = 0
    rw [hnil]
    rfl
  obtain ⟨blank, after, hblank, hb⟩ := exists_dropWhile hafter
  refine ⟨text.bytes.takeWhile isBlank, blank, fun x hx => List.mem_takeWhile_imp hx, ⟨?_, ?_⟩,
    by simpa using hb, ?_⟩
  · show start.takeWhile (fun c => !isBlank c) ≠ []
    rw [← hstart] at hc
    rw [hc, List.takeWhile_cons_of_pos (by simp [hword])]
    exact List.cons_ne_nil _ _
  · intro x hx
    simpa using List.mem_takeWhile_imp hx
  · show text.bytes = text.bytes.takeWhile isBlank ++ start.takeWhile (fun c => !isBlank c) ++
      blank :: (start.dropWhile fun c => !isBlank c).drop 1
    rw [hblank, List.drop_one, List.tail_cons, List.append_assoc, ← hblank,
      List.takeWhile_append_dropWhile, List.takeWhile_append_dropWhile]

/-- A word with blanks around it is the next field. -/
theorem nextField_of {rest token : CString} {gap : List UInt8} {blank : UInt8} (hgap : Blank gap)
    (hword : Word token.bytes) (hblank : isBlank blank = true)
    (h : text.bytes = gap ++ token.bytes ++ blank :: rest.bytes) :
    nextField text = (some token, rest) := by
  obtain ⟨c, tail, hc⟩ := List.exists_cons_of_ne_nil hword.1
  have hstart : text.bytes.dropWhile isBlank = token.bytes ++ blank :: rest.bytes := by
    have hfirst := hword.2 c (by rw [hc]; exact List.mem_cons_self ..)
    rw [h, List.append_assoc, List.dropWhile_append_of_pos hgap, hc, List.cons_append,
      List.dropWhile_cons_of_neg (by simp [hfirst])]
  have hall : ∀ x ∈ token.bytes, (!isBlank x) = true := fun x hx => by simp [hword.2 x hx]
  unfold nextField
  dsimp only
  rw [if_neg (by
    show ¬ (text.bytes.dropWhile isBlank).length = 0
    rw [hstart, List.length_append, List.length_cons]
    omega)]
  refine Prod.ext (congrArg some (cstring_inj ?_)) (cstring_inj ?_)
  · show (text.bytes.dropWhile isBlank).takeWhile _ = _
    rw [hstart, List.takeWhile_append_of_pos hall, List.takeWhile_cons_of_neg (by simp [hblank]),
      List.append_nil]
  · show ((text.bytes.dropWhile isBlank).dropWhile _).drop 1 = _
    rw [hstart, List.dropWhile_append_of_pos hall, List.dropWhile_cons_of_neg (by simp [hblank]),
      List.drop_one, List.tail_cons]

/-- Nothing is left of nothing. -/
theorem fieldsFrom_empty {n : ℕ} {cursor : CString} {fields : List CString}
    (hempty : text.length = 0) (h : fieldsFrom n text = some (fields, cursor)) :
    cursor.length = 0 := by
  cases n with
  | zero =>
    obtain ⟨-, rfl⟩ := Prod.mk.inj (Option.some.inj h)
    exact hempty
  | succ n =>
    rw [fieldsFrom, nextField_empty hempty] at h
    cases h

/-- **The fields of a line**, where something is left behind them. -/
theorem spaced_of_fieldsFrom {n : ℕ} {cursor : CString} {fields : List CString}
    (h : fieldsFrom n text = some (fields, cursor)) (hcursor : cursor.length ≠ 0) :
    Spaced text.bytes (fields.map (·.bytes)) cursor.bytes := by
  induction n generalizing text fields with
  | zero =>
    obtain ⟨rfl, rfl⟩ := Prod.mk.inj (Option.some.inj h)
    exact .done _
  | succ n ih =>
    rw [fieldsFrom] at h
    rcases hnext : nextField text with ⟨_ | token, rest⟩
    · rw [hnext] at h
      cases h
    · rw [hnext] at h
      dsimp only at h
      obtain ⟨⟨fields', cursor'⟩, hrest, heq⟩ := Option.map_eq_some_iff.1 h
      obtain ⟨rfl, rfl⟩ := Prod.mk.inj heq
      obtain ⟨gap, blank, hgap, hword, hblank, hbytes⟩ :=
        nextField_some hnext fun hz => hcursor (fieldsFrom_empty hz hrest)
      rw [hbytes, List.map_cons]
      exact .field hgap hword hblank (ih hrest)

/-- Words with blanks behind them are taken. -/
theorem fieldsFrom_of_spaced {fields : List CString} {cursor : CString}
    (h : Spaced text.bytes (fields.map (·.bytes)) cursor.bytes) :
    fieldsFrom fields.length text = some (fields, cursor) := by
  induction fields generalizing text with
  | nil =>
    rw [List.map_nil] at h
    generalize hbytes : text.bytes = bytes at h
    cases h
    rw [cstring_inj hbytes]
    rfl
  | cons field fields ih =>
    rw [List.map_cons] at h
    generalize hbytes : text.bytes = bytes at h
    cases h with
    | @field gap _ tail _ blank _ hgap hword hblank hrest =>
      have htail : 0 ∉ tail := fun hz => text.noNul (by
        rw [hbytes]
        exact List.mem_append_right _ (List.mem_cons_of_mem _ hz))
      have hnext := @nextField_of text ⟨tail, htail⟩ field gap _ hgap hword hblank hbytes
      rw [List.length_cons, fieldsFrom, hnext]
      dsimp only
      rw [ih hrest]
      rfl

/-- **The action of a line** is what is left without the blanks at its ends. -/
theorem trim_eq_iff {action : CString} : trim text = action ∧ action.length ≠ 0 ↔
    Trimmed action.bytes ∧ ∃ before after, Blank before ∧ Blank after ∧
      text.bytes = before ++ action.bytes ++ after := by
  constructor
  · rintro ⟨rfl, hne⟩
    set start := text.bytes.dropWhile isBlank with hstart
    have hne' : start.rdropWhile isBlank ≠ [] := fun hnil => hne (List.length_eq_zero_iff.2 hnil)
    have hprefix : start.rdropWhile isBlank <+: start := List.rdropWhile_prefix _ _
    have hstart' : start ≠ [] := fun hnil => hne' (by
      rw [hnil]
      rfl)
    refine ⟨⟨hne', ?_, ?_⟩, text.bytes.takeWhile isBlank, start.rtakeWhile isBlank,
      fun c hc => List.mem_takeWhile_imp hc, fun c hc => List.mem_rtakeWhile_imp hc, ?_⟩
    · have hhead : (start.rdropWhile isBlank).head hne' = start.head hstart' :=
        hprefix.head hne'
      exact (congrArg isBlank hhead).trans (List.head_dropWhile_not isBlank hstart')
    · exact Bool.eq_false_iff.2 (List.rdropWhile_last_not isBlank start hne')
    · rw [List.append_assoc]
      show text.bytes = text.bytes.takeWhile isBlank ++
        (start.rdropWhile isBlank ++ start.rtakeWhile isBlank)
      rw [List.rdropWhile_append_rtakeWhile, List.takeWhile_append_dropWhile]
  · rintro ⟨⟨hne, hhead, hlast⟩, before, after, hbefore, hafter, hbytes⟩
    refine ⟨cstring_inj ?_, fun hz => hne (List.length_eq_zero_iff.1 hz)⟩
    obtain ⟨c, tail, hc⟩ := List.exists_cons_of_ne_nil hne
    have hstart : text.bytes.dropWhile isBlank = action.bytes ++ after := by
      rw [hbytes, List.append_assoc, List.dropWhile_append_of_pos hbefore]
      simp only [hc, List.head_cons] at hhead
      rw [hc, List.cons_append, List.dropWhile_cons_of_neg (by simp [hhead])]
    show (text.bytes.dropWhile isBlank).rdropWhile isBlank = action.bytes
    rw [hstart]
    have hreverse : ∀ x ∈ after.reverse, isBlank x = true := fun x hx =>
      hafter x (List.mem_reverse.1 hx)
    unfold List.rdropWhile
    rw [List.reverse_append, List.dropWhile_append_of_pos hreverse]
    have hself : action.bytes.rdropWhile isBlank = action.bytes :=
      List.rdropWhile_eq_self_iff.2 fun h => by simpa using hlast
    exact hself

/-! ### The fields, one by one -/

theorem parameterField_iff {h : Host ω} {name : CString} {type : ParamType} :
    parameterField h name = .ok type ↔ name.length ≤ Param.nameMax ∧
      (∃ info, Param.getInfo h.params name = .ok info ∧ info.type = type) ∧ isNumeric type = true := by
  unfold parameterField
  rw [ite_error_eq_ok, not_lt]
  refine and_congr_right fun _ => ?_
  rcases hinfo : Param.getInfo h.params name with e | info
  · exact iff_of_false (by simp) (by rintro ⟨⟨_, h, -⟩, -⟩; cases h)
  · dsimp only
    by_cases hnum : isNumeric info.type = true
    · rw [if_pos hnum]
      constructor
      · intro h
        obtain rfl := Except.ok.inj h
        exact ⟨⟨info, rfl, rfl⟩, hnum⟩
      · rintro ⟨⟨info', h, rfl⟩, -⟩
        rw [Except.ok.inj h]
    · rw [if_neg hnum]
      refine iff_of_false (by simp) ?_
      rintro ⟨⟨info', h, rfl⟩, hnum'⟩
      rw [← Except.ok.inj h] at hnum'
      exact hnum hnum'

theorem parseComparison_iff {cmp : Cmp} : parseComparison text = .ok cmp ↔ cmpText cmp = text := by
  unfold parseComparison
  rcases hfind : comparisons.find? (fun cmp => cmpText cmp = text) with _ | found
  · refine iff_of_false (by simp) fun heq => ?_
    have hnone := List.find?_eq_none.1 hfind cmp (by cases cmp <;> decide)
    exact hnone (decide_eq_true heq)
  · have htext : cmpText found = text := by simpa using List.find?_some hfind
    constructor
    · intro h
      rw [← Except.ok.inj h]
      exact htext
    · intro h
      have hsame : cmpText found = cmpText cmp := htext.trans h.symm
      revert hsame
      cases found <;> cases cmp <;> decide

theorem comparisonField_iff {type : ParamType} {cmp : Cmp} :
    comparisonField type text = .ok cmp ↔ cmpText cmp = text ∧ floatEquality type cmp = false := by
  unfold comparisonField
  rcases hparse : parseComparison text with reason | found
  · refine iff_of_false (by simp) ?_
    rintro ⟨htext, -⟩
    rw [parseComparison_iff.2 htext] at hparse
    cases hparse
  · have htext := parseComparison_iff.1 hparse
    dsimp only
    rw [ite_error_eq_ok]
    constructor
    · rintro ⟨hfloat, h⟩
      obtain rfl := Except.ok.inj h
      exact ⟨htext, by simpa using hfloat⟩
    · rintro ⟨htext', hfloat⟩
      rw [parseComparison_iff.2 htext'] at hparse
      obtain rfl := Except.ok.inj hparse
      exact ⟨by simp [hfloat], rfl⟩

theorem boundField_iff {b : Build} {h : Host ω} {type : ParamType} {bound : Scalar} :
    boundField b h type text = .ok bound ↔
      text.length < boundTextMax ∧ parseText b h type text = .ok bound := by
  unfold boundField
  rw [ite_error_eq_ok, not_le]
  refine and_congr_right fun _ => ?_
  rcases parseText b h type text with e | value
  · exact iff_of_false (by simp) (by simp)
  · dsimp only
    rw [Except.ok.injEq, Except.ok.injEq]

theorem parseUnsigned_iff {maximum n : ℕ} :
    parseUnsigned text maximum = some n ↔ Decimal text.bytes n ∧ n ≤ maximum := by
  unfold parseUnsigned Decimal
  dsimp only
  have hsplit := List.takeWhile_append_dropWhile (p := isDigit 10) (l := text.bytes)
  by_cases hrest : text.bytes.dropWhile (isDigit 10) = []
  · rw [hrest, List.append_nil] at hsplit
    have hall : ∀ c ∈ text.bytes, isDigit 10 c = true := List.takeWhile_eq_self_iff.1 hsplit
    rw [hsplit]
    by_cases hnil : text.bytes = []
    · rw [if_pos hnil]
      exact iff_of_false (by simp) fun h => h.1.1 hnil
    rw [if_neg hnil, if_neg (not_not.2 hrest)]
    by_cases hle : digitsValue 10 text.bytes ≤ maximum
    · rw [if_pos hle]
      constructor
      · intro h
        obtain rfl := Option.some.inj h
        exact ⟨⟨hnil, hall, rfl⟩, hle⟩
      · rintro ⟨⟨-, -, rfl⟩, -⟩
        rfl
    · rw [if_neg hle]
      refine iff_of_false (by simp) ?_
      rintro ⟨⟨-, -, rfl⟩, hle'⟩
      exact hle hle'
  · refine iff_of_false ?_ fun h => hrest (List.dropWhile_eq_nil_iff.2 h.1.2.1)
    split_ifs <;> simp

theorem dwellField_iff {dwell : UInt8} :
    dwellField text = .ok dwell ↔ Decimal text.bytes dwell.toNat ∧ dwell ≠ 0 := by
  have hlt := dwell.toNat_lt
  have hmax : dwellMax = 255 := rfl
  unfold dwellField
  rcases hparse : parseUnsigned text dwellMax with _ | n
  · refine iff_of_false (by simp) ?_
    rintro ⟨hdec, -⟩
    rw [parseUnsigned_iff.2 ⟨hdec, by omega⟩] at hparse
    cases hparse
  · obtain ⟨hdec, hle⟩ := parseUnsigned_iff.1 hparse
    have hnat : (UInt8.ofNat n).toNat = n :=
      UInt8.toNat_ofNat_of_lt' (Nat.lt_of_le_of_lt hle (by decide))
    dsimp only
    rw [ite_error_eq_ok]
    constructor
    · rintro ⟨hz, h⟩
      obtain rfl := Except.ok.inj h
      refine ⟨by rw [hnat]; exact hdec, fun hzero => hz ?_⟩
      rw [hzero] at hnat
      exact hnat.symm
    · rintro ⟨hdec', hne⟩
      have heq : n = dwell.toNat := hdec.2.2.symm.trans hdec'.2.2
      subst heq
      exact ⟨fun hz => hne (UInt8.toNat_inj.1 hz), by rw [UInt8.ofNat_toNat]⟩

theorem nodeField_iff {b : Build} {node : UInt16} : nodeField b text = .ok node ↔
      Decimal text.bytes node.toNat ∧ (b.csp = true ∨ node = 0) := by
  have hlt := node.toNat_lt
  unfold nodeField
  rcases hparse : parseUnsigned text 65535 with _ | n
  · refine iff_of_false (by simp) ?_
    rintro ⟨hdec, -⟩
    rw [parseUnsigned_iff.2 ⟨hdec, by omega⟩] at hparse
    cases hparse
  · obtain ⟨hdec, hle⟩ := parseUnsigned_iff.1 hparse
    have hnat : (UInt16.ofNat n).toNat = n :=
      UInt16.toNat_ofNat_of_lt' (Nat.lt_of_le_of_lt hle (by decide))
    dsimp only
    rw [ite_error_eq_ok]
    have hallowed : ∀ a : UInt16, (¬ (!b.csp && decide (a ≠ 0)) = true) ↔ (b.csp = true ∨ a = 0) :=
      fun a => by cases b.csp <;> simp
    rw [hallowed]
    constructor
    · rintro ⟨hcsp, h⟩
      obtain rfl := Except.ok.inj h
      exact ⟨by rw [hnat]; exact hdec, hcsp⟩
    · rintro ⟨hdec', hcsp⟩
      have heq : n = node.toNat := hdec.2.2.symm.trans hdec'.2.2
      subst heq
      rw [UInt16.ofNat_toNat]
      exact ⟨hcsp, rfl⟩

/-- What `check_action` finds nothing wrong with. -/
theorem checkAction_ok_iff {n : Command.Node ω} {action : CString} :
    (∃ out, checkAction n action = .ok out) ↔ action.length < lineMax ∧
      ∃ name arguments d args, words action = name :: arguments ∧ Command.find n name = .ok d ∧
        Parsed arguments d.argTypes args := by
  constructor
  · rintro ⟨⟨d, args⟩, h⟩
    obtain ⟨hlong, name, arguments, hrest⟩ := checkAction_iff.1 h
    exact ⟨hlong, name, arguments, d, args, hrest⟩
  · rintro ⟨hlong, name, arguments, d, args, hrest⟩
    exact ⟨(d, args), checkAction_iff.2 ⟨hlong, name, arguments, hrest⟩⟩

/-- The checks of `parse_line`, on fields and an action. -/
theorem parseFields_iff {b : Build} {h : Host ω} {parameter comparison boundText dwellText nodeText
    action : CString} {rule : Rule} :
    (do
      let type ← parameterField h parameter
      let cmp ← comparisonField type comparison
      let bound ← boundField b h type boundText
      let dwell ← dwellField dwellText
      let node ← nodeField b nodeText
      let _ ← checkAction h.node action
      .ok ⟨0, parameter, type, cmp, bound, boundText, dwell, 0, false, node, action⟩ :
        Except CString Rule) = .ok rule ↔
    ∃ type cmp bound dwell node, parameterField h parameter = .ok type ∧
      comparisonField type comparison = .ok cmp ∧ boundField b h type boundText = .ok bound ∧
      dwellField dwellText = .ok dwell ∧ nodeField b nodeText = .ok node ∧
      (∃ out, checkAction h.node action = .ok out) ∧
      rule = ⟨0, parameter, type, cmp, bound, boundText, dwell, 0, false, node, action⟩ := by
  constructor
  · intro hok
    obtain ⟨type, htype, hok⟩ := bind_eq_ok.1 hok
    obtain ⟨cmp, hcmp, hok⟩ := bind_eq_ok.1 hok
    obtain ⟨bound, hbound, hok⟩ := bind_eq_ok.1 hok
    obtain ⟨dwell, hdwell, hok⟩ := bind_eq_ok.1 hok
    obtain ⟨node, hnode, hok⟩ := bind_eq_ok.1 hok
    obtain ⟨out, haction, hok⟩ := bind_eq_ok.1 hok
    exact ⟨type, cmp, bound, dwell, node, htype, hcmp, hbound, hdwell, hnode, ⟨out, haction⟩,
      (Except.ok.inj hok).symm⟩
  · rintro ⟨type, cmp, bound, dwell, node, htype, hcmp, hbound, hdwell, hnode, ⟨out, haction⟩, rfl⟩
    exact bind_eq_ok.2 ⟨type, htype, bind_eq_ok.2 ⟨cmp, hcmp, bind_eq_ok.2 ⟨bound, hbound,
      bind_eq_ok.2 ⟨dwell, hdwell, bind_eq_ok.2 ⟨node, hnode, bind_eq_ok.2 ⟨out, haction, rfl⟩⟩⟩⟩⟩⟩

/-- **A line is parsed as what it denotes.** -/
theorem parseLine_iff {b : Build} {h : Host ω} {rule : Rule} :
    parseLine b h text = .ok rule ↔ Denotes b h text.bytes rule ∧ rule.index = 0 := by
  constructor
  · intro hok
    unfold parseLine at hok
    split at hok
    · rename_i parameter comparison boundText dwellText nodeText cursor hfields
      dsimp only at hok
      rw [ite_error_eq_ok] at hok
      obtain ⟨hempty, hok⟩ := hok
      obtain ⟨htrimmed, before, after, hbefore, hafter, hcursor⟩ := trim_eq_iff.1 ⟨rfl, hempty⟩
      obtain ⟨type, cmp, bound, dwell, node, htype, hcmp, hbound, hdwell, hnode, haction, rfl⟩ :=
        parseFields_iff.1 hok
      have hcursorne : cursor.length ≠ 0 := by
        intro hz
        have hnil : cursor.bytes = [] := List.length_eq_zero_iff.1 hz
        rw [hnil] at hcursor
        obtain ⟨hleft, -⟩ := List.append_eq_nil_iff.1 hcursor.symm
        exact hempty (List.length_eq_zero_iff.2 (List.append_eq_nil_iff.1 hleft).2)
      have hspaced := spaced_of_fieldsFrom hfields hcursorne
      rw [hcursor] at hspaced
      obtain ⟨hname, hinfo, hnum⟩ := parameterField_iff.1 htype
      obtain ⟨htext, hfloat⟩ := comparisonField_iff.1 hcmp
      obtain ⟨hdec, hpos⟩ := dwellField_iff.1 hdwell
      obtain ⟨haddress, hcsp⟩ := nodeField_iff.1 hnode
      refine ⟨⟨⟨dwellText.bytes, nodeText.bytes, before, after, hbefore, hafter, ?_, hdec,
        haddress⟩, ⟨hname, hinfo⟩, hnum, hfloat, boundField_iff.1 hbound, hpos, hcsp, htrimmed,
        checkAction_ok_iff.1 haction, rfl, rfl⟩, rfl⟩
      rw [htext]
      exact hspaced
    · cases hok
  · rintro ⟨hd, hindex⟩
    obtain ⟨dwellText, nodeText, before, after, hbefore, hafter, hspaced, hdec, haddress⟩ := hd.shape
    obtain ⟨hstreak, hlatched⟩ := hd.fresh
    have hrest := noNul_rest rule.action hbefore hafter
    have hfields : fieldsFrom 5 text = some ([rule.parameter, cmpText rule.cmp, rule.boundText,
        ⟨dwellText, hdec.noNul⟩, ⟨nodeText, haddress.noNul⟩], ⟨_, hrest⟩) :=
      @fieldsFrom_of_spaced text [rule.parameter, cmpText rule.cmp, rule.boundText,
        ⟨dwellText, hdec.noNul⟩, ⟨nodeText, haddress.noNul⟩] ⟨_, hrest⟩ hspaced
    obtain ⟨htrim, hempty⟩ := (@trim_eq_iff ⟨_, hrest⟩ rule.action).2
      ⟨hd.trimmed, before, after, hbefore, hafter, rfl⟩
    unfold parseLine
    rw [hfields]
    dsimp only
    rw [htrim, if_neg hempty]
    refine parseFields_iff.2 ⟨rule.type, rule.cmp, rule.bound, rule.dwell, rule.node,
      parameterField_iff.2 ⟨hd.parameter.1, hd.parameter.2, hd.numeric⟩,
      comparisonField_iff.2 ⟨rfl, hd.cmp⟩, boundField_iff.2 hd.bound,
      dwellField_iff.2 ⟨hdec, hd.dwell⟩, nodeField_iff.2 ⟨haddress, hd.node⟩,
      checkAction_ok_iff.2 hd.action, ?_⟩
    exact (Rule.mk.injEq ..).mpr
      ⟨hindex, rfl, rfl, rfl, rfl, rfl, rfl, hstreak, hlatched, rfl, rfl⟩

end KfswServices.Limits
