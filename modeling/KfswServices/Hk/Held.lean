/-
# The samples that a report holds

`kfsw_hk_collect` copies the definition of a report, reads the values without a lock, and puts the
sample into the ring of the report if the generation is still that of the copy.  Meanwhile the
report may be defined anew, cleared or restored, any number of times and in any order.

A ring holds samples of the definition that its report has now, numbered backwards from the
sequence of the report (`held_current`).  The generation is a counter of 64 bits: a collection that
sees it come round once takes an old sample for a new one (`held_after_wrap`).
-/

import KfswServices.Hk.Collect
import KfswServices.Hk.Settings
import KfswServices.Library.Ring
import Mathlib.Logic.Relation

namespace KfswServices.Hk

open Library
open Relation (ReflTransGen)

variable {b : Build}

/-! ### Collecting and reading back -/

/-- What `kfsw_hk_collect` copies: the definition, with its sequence, and the generation. -/
structure Collecting (b : Build) where
  report : UInt8
  definition : Definition b
  sequence : UInt16
  generation : UInt64

/-- The first part of `kfsw_hk_collect`. -/
def collectBegin (report : UInt8) (s : State b) : Except Errno (Collecting b) :=
  if report.toNat ≥ b.reports then .error .EINVAL
  else if !(s.initialized && !s.restoring) then .error .EACCES
  else
    match (s.reports report).definition with
    | none => .error .ENOENT
    | some d => .ok ⟨report, d, (s.reports report).sequence, s.generations report⟩

/-- The report goes into its sample. -/
def Sample.stamp (report : UInt8) (sample : Sample) : Sample :=
  { sample with data := splice 0 sample.data 1 [report] }

/-- A sample goes into the ring, numbered among those of all reports. -/
def Report.push (r : Report b) (sample : Sample) (order : UInt64) : Report b :=
  { r with
    held := if r.held = b.history then r.held else r.held + 1
    collectedOrder := Function.update r.collectedOrder r.nextSlot order
    ring := Function.update r.ring r.nextSlot sample
    nextSlot := (r.nextSlot + 1) % b.history
    sequence := r.sequence + 1 }

/-- The last part of `kfsw_hk_collect`, up to the store. -/
def collectCommit (c : Collecting b) (sample : Sample) (failures : ℕ) (s : State b) :
    Option Errno × State b :=
  let target := s.reports c.report
  if target.definition.isNone ∨ c.generation ≠ s.generations c.report then
    (some .EAGAIN, { s with stats := { s.stats with failures := s.stats.failures + 1 } })
  else
    let order := s.collectedOrder + 1
    (none, { s.setReport c.report (target.push (sample.stamp c.report) order) with
      collectedOrder := order
      stats := { s.stats with
        overwritten := if target.held = b.history then s.stats.overwritten + 1
          else s.stats.overwritten
        collections := s.stats.collections + 1
        entriesFailed := s.stats.entriesFailed + UInt32.ofNat failures
        lastSeconds := sample.seconds } })

/-- `kfsw_hk_get`. -/
def get (report : UInt8) (age : ℕ) (s : State b) : Except Errno Sample :=
  let target := s.reports report
  if report.toNat ≥ b.reports then .error .EINVAL
  else if age ≥ target.held then .error .ENOENT
  else .ok (target.ring (ageSlot b.history target.nextSlot age))

/-- **What is committed** is the newest sample. -/
theorem get_committed {c : Collecting b} {s : State b} {sample : Sample} {failures : ℕ}
    (hreport : c.report.toNat < b.reports) {d : Definition b}
    (hd : (s.reports c.report).definition = some d) (hc : c.generation = s.generations c.report)
    (hnext : (s.reports c.report).nextSlot < b.history) :
    get c.report 0 (collectCommit c sample failures s).2 = .ok (sample.stamp c.report) ∧
      ((collectCommit c sample failures s).2.reports c.report).definition = some d := by
  unfold collectCommit
  dsimp only
  rw [if_neg (by rw [hd, hc]; simp)]
  have hreports := State.setReport_same s c.report
    ((s.reports c.report).push (sample.stamp c.report) (s.collectedOrder + 1))
  refine ⟨?_, (congrArg Report.definition hreports).trans hd⟩
  have hheld : 0 < ((s.reports c.report).push (sample.stamp c.report)
      (s.collectedOrder + 1)).held := by
    have hpos := b.history_range.1
    show 0 < if (s.reports c.report).held = b.history then _ else _
    split_ifs <;> omega
  unfold get
  dsimp only
  rw [if_neg (not_le.2 hreport), hreports, if_neg (not_le.2 hheld)]
  show Except.ok (Function.update _ _ _ (ageSlot b.history
    (((s.reports c.report).nextSlot + 1) % b.history) 0)) = _
  rw [ageSlot_push_zero hnext, Function.update_self]

/-! ### A sample of a definition -/

/-- A sample that was collected of a report, under a definition. -/
def CollectedOf (report : UInt8) (d : Definition b) (sequence : UInt16) (sample : Sample) : Prop :=
  ∃ clock reads, sample = (collectReport d sequence clock reads).1.stamp report

/-- The header of a frame, written over ten bytes. -/
theorem take_header {data : List UInt8} (h : headerSize ≤ data.length) (version report : UInt8)
    (a c e f g i j k : UInt8) :
    (splice 0 (splice 0 (splice 0 data 0 [version]) 2 [a, c, e, f, g, i, j, k]) 1 [report]).take
      headerSize = [version, report, a, c, e, f, g, i, j, k] := by
  match data, h with
  | _ :: _ :: _ :: _ :: _ :: _ :: _ :: _ :: _ :: _ :: rest, _ => simp [splice]

/-- Writes make a sample no shorter. -/
theorem length_writes (ws : List Write) (data : List UInt8) :
    data.length ≤ (ws.foldl (fun data w => splice 0 data w.offset w.bytes) data).length := by
  induction ws generalizing data with
  | nil => exact le_rfl
  | cons w ws ih =>
    refine le_trans ?_ (ih _)
    rw [length_splice]
    exact le_max_left _ _

/-- **What a sample says of itself**: its frame begins with the version, the report, and what the
structure has. -/
theorem CollectedOf.frame {report : UInt8} {d : Definition b} {sequence : UInt16} {sample : Sample}
    (h : CollectedOf report d sequence sample) :
    sample.length = d.recordSize ∧ sample.entryCount = d.entryCount ∧ sample.sequence = sequence ∧
      sample.data.take headerSize = protocolVersion :: report :: (putBe16 sequence ++
        (putBe32 sample.seconds ++ [sample.entryCount, sample.flags])) := by
  obtain ⟨clock, reads, rfl⟩ := h
  obtain ⟨a, c, hsequence, -⟩ := exists_putBe16 sequence
  obtain ⟨e, f, g, i, hseconds, -⟩ := exists_putBe32 (clock.getD 0)
  have hlen : headerSize ≤ ((collectEntries d reads).writes.foldl
      (fun data w => splice 0 data w.offset w.bytes) (List.replicate b.sampleBytes 0)).length := by
    refine le_trans ?_ (length_writes _ _)
    have hrange := b.sampleBytes_range
    rw [List.length_replicate]
    show 10 ≤ b.sampleBytes
    omega
  have hframe := take_header hlen protocolVersion report a c e f g i d.entryCount
    ((if clock.isSome then 0 else flagClockUnset) |||
      (if (collectEntries d reads).error.isSome then flagIncomplete else 0))
  refine ⟨rfl, rfl, rfl, ?_⟩
  show (splice 0 (splice 0 (splice 0 _ 0 [protocolVersion]) 2 (putBe16 sequence ++
    (putBe32 (clock.getD 0) ++ [d.entryCount, _]))) 1 [report]).take headerSize =
      protocolVersion :: report :: (putBe16 sequence ++ (putBe32 (clock.getD 0) ++ _))
  rw [hsequence, hseconds]
  exact hframe

/-! ### The system -/

/-- The state, with the collection that is under way, which `collection_lock` admits one of, and how
often its report has been changed since it began. -/
structure System (b : Build) where
  state : State b
  collecting : Option (Collecting b)
  changed : ℕ

/-- The system at the reset. -/
def System.reset (b : Build) : System b := ⟨State.reset b, none, 0⟩

/-- The definition of a report changes. -/
def System.change (report : UInt8) (state : State b) (u : System b) : System b where
  state := state
  collecting := u.collecting
  changed :=
    match u.collecting with
    | some c => if c.report = report then u.changed + 1 else u.changed
    | none => u.changed

/-- What goes on besides leaves the definitions and the samples as they are. -/
structure Keeps (s s' : State b) : Prop where
  definition : ∀ report, (s'.reports report).definition = (s.reports report).definition
  ring : ∀ report, (s'.reports report).ring = (s.reports report).ring
  held : ∀ report, (s'.reports report).held = (s.reports report).held
  nextSlot : ∀ report, (s'.reports report).nextSlot = (s.reports report).nextSlot
  sequence : ∀ report, (s'.reports report).sequence = (s.reports report).sequence
  generations : s'.generations = s.generations

/-- A step of any thread. -/
inductive SystemStep : System b → System b → Prop
  | other {u : System b} {s' : State b} (h : Keeps u.state s') :
      SystemStep u { u with state := s' }
  | begin {u : System b} {report : UInt8} {c : Collecting b} (hfree : u.collecting = none)
      (h : collectBegin report u.state = .ok c) : SystemStep u ⟨u.state, some c, 0⟩
  | commit {u : System b} {c : Collecting b} (clock : Option UInt32) (reads : Reads)
      (h : u.collecting = some c) :
      SystemStep u ⟨(collectCommit c (collectReport c.definition c.sequence clock reads).1
        (collectReport c.definition c.sequence clock reads).2.failures u.state).2, none, 0⟩
  | define {u : System b} (report : UInt8) (d : Definition b) (now : ℤ) :
      SystemStep u (u.change report (u.state.define report d now))
  | clear {u : System b} (report : UInt8) :
      SystemStep u (u.change report (u.state.clear report))
  | restore {u : System b} (report : UInt8) (definition : Option (Definition b))
      (period : Interval b.periodFloor) (sequence : UInt16) (now : ℤ) :
      SystemStep u (u.change report
        (u.state.restoreReport report definition period sequence now))

/-- A collection is over before its report has been changed `2 ^ 64` times. -/
def PatientStep (u u' : System b) : Prop := u.changed < 2 ^ 64 ∧ SystemStep u u'

/-! ### The invariant -/

/-- What a report holds: samples of its definition, numbered backwards. -/
def HeldInv (report : UInt8) (r : Report b) : Prop :=
  ∃ items, Holds b.history r.ring r.held r.nextSlot items ∧
    ∀ age x, items[age]? = some x → ∃ d, r.definition = some d ∧
      CollectedOf report d (r.sequence - 1 - UInt16.ofNat age) x

/-- What holds of the system: the reports, and that a collection whose generation is that of its
report has the definition and the sequence of it. -/
structure SystemInv (u : System b) : Prop where
  held : ∀ report, HeldInv report (u.state.reports report)
  current : ∀ c, u.collecting = some c →
    u.state.generations c.report = c.generation + UInt64.ofNat u.changed ∧
      (u.changed = 0 → (u.state.reports c.report).definition = some c.definition ∧
        (u.state.reports c.report).sequence = c.sequence)

/-- A report that holds nothing. -/
theorem heldInv_empty {report : UInt8} {r : Report b} (hheld : r.held = 0)
    (hnext : r.nextSlot = 0) : HeldInv report r := by
  have hpos := b.history_range.1
  exact ⟨[], by rw [hheld, hnext]; exact Holds.nil hpos r.ring, by simp⟩

theorem systemInv_reset (b : Build) : SystemInv (System.reset b) :=
  ⟨fun _ => heldInv_empty rfl rfl, fun _ hc => by cases hc⟩

variable {u : System b}

/-- A definition that changes, with the ring emptied, keeps the invariant. -/
theorem systemInv_change (hu : SystemInv u) {report : UInt8} {s' : State b}
    (hother : ∀ r, r ≠ report → s'.reports r = u.state.reports r)
    (hheld : (s'.reports report).held = 0) (hnext : (s'.reports report).nextSlot = 0)
    (hgenerations : s'.generations =
      Function.update u.state.generations report (u.state.generations report + 1)) :
    SystemInv (u.change report s') := by
  refine ⟨fun r => ?_, fun c hc => ?_⟩
  · show HeldInv r (s'.reports r)
    by_cases hr : r = report
    · exact hr ▸ heldInv_empty hheld hnext
    · rw [hother r hr]
      exact hu.held r
  · obtain ⟨hgeneration, hsame⟩ := hu.current c hc
    have hc' : u.collecting = some c := hc
    by_cases hr : c.report = report
    · have hchanged : (u.change report s').changed = u.changed + 1 := by
        unfold System.change
        simp only [hc', if_pos hr]
      rw [hchanged]
      refine ⟨?_, fun h => absurd h (Nat.succ_ne_zero _)⟩
      show s'.generations c.report = _
      rw [hgenerations, hr, Function.update_self, ← hr, hgeneration, UInt64.add_assoc,
        UInt64.ofNat_add]
      rfl
    · have hchanged : (u.change report s').changed = u.changed := by
        unfold System.change
        simp only [hc', if_neg hr]
      rw [hchanged]
      refine ⟨?_, fun h => ?_⟩
      · show s'.generations c.report = _
        rw [hgenerations, Function.update_of_ne hr]
        exact hgeneration
      · show (s'.reports c.report).definition = _ ∧ (s'.reports c.report).sequence = _
        rw [hother c.report hr]
        exact hsame h

/-- **A sample that is committed** goes in front of those of its report. -/
theorem heldInv_push {report : UInt8} {r : Report b} {d : Definition b} {x : Sample}
    (h : HeldInv report r) (hd : r.definition = some d) (hx : CollectedOf report d r.sequence x)
    (order : UInt64) : HeldInv report (r.push x order) := by
  obtain ⟨items, hholds, hitems⟩ := h
  refine ⟨_, hholds.push x, fun age y hy => ⟨d, hd, ?_⟩⟩
  have hage : age < b.history := by
    have hlt := (List.getElem?_eq_some_iff.1 hy).1
    rw [List.length_take] at hlt
    omega
  rw [List.getElem?_take_of_lt hage] at hy
  cases age with
  | zero =>
    obtain rfl := Option.some.inj hy
    show CollectedOf report d (r.sequence + 1 - 1 - 0) x
    rwa [UInt16.sub_zero, UInt16.add_sub_cancel]
  | succ age =>
    obtain ⟨d', hd', hy'⟩ := hitems age y hy
    obtain rfl := Option.some.inj (hd.symm.trans hd')
    show CollectedOf report d (r.sequence + 1 - 1 - UInt16.ofNat (age + 1)) y
    have hsequence : r.sequence + 1 - 1 - UInt16.ofNat (age + 1) =
        r.sequence - 1 - UInt16.ofNat age := by
      rw [UInt16.add_sub_cancel, UInt16.ofNat_add]
      grind
    rwa [hsequence]

/-- **A step keeps the invariant.** -/
theorem systemInv_step {u' : System b} (hu : SystemInv u) (h : PatientStep u u') :
    SystemInv u' := by
  obtain ⟨hpatient, hstep⟩ := h
  cases hstep with
  | @other s' h =>
    refine ⟨fun r => ?_, fun c hc => ?_⟩
    · obtain ⟨items, hholds, hitems⟩ := hu.held r
      refine ⟨items, ?_, fun age x hx => ?_⟩
      · rw [h.ring r, h.held r, h.nextSlot r]
        exact hholds
      · rw [h.definition r, h.sequence r]
        exact hitems age x hx
    · obtain ⟨hgeneration, hsame⟩ := hu.current c hc
      rw [h.generations, h.definition c.report, h.sequence c.report]
      exact ⟨hgeneration, hsame⟩
  | @begin report c hfree h =>
    refine ⟨hu.held, fun c' hc' => ?_⟩
    obtain rfl := Option.some.inj hc'
    unfold collectBegin at h
    split_ifs at h
    cases hd : (u.state.reports report).definition with
    | none => rw [hd] at h; cases h
    | some d =>
      rw [hd] at h
      obtain rfl := Except.ok.inj h
      exact ⟨(UInt64.add_zero _).symm, fun _ => ⟨hd, rfl⟩⟩
  | @commit c clock reads hc =>
    obtain ⟨hgeneration, hsame⟩ := hu.current c hc
    refine ⟨fun r => ?_, fun c' hc' => by cases hc'⟩
    unfold collectCommit
    dsimp only
    by_cases hstale : (u.state.reports c.report).definition.isNone = true ∨
        c.generation ≠ u.state.generations c.report
    · rw [if_pos hstale]
      exact hu.held r
    · rw [if_neg hstale]
      obtain ⟨-, heq⟩ := not_or.1 hstale
      -- fewer than `2 ^ 64` changes have left the generation as it was: none
      have hnone : u.changed = 0 := by
        have h0 : UInt64.ofNat u.changed = 0 :=
          UInt64.left_eq_add.1 ((not_not.1 heq).trans hgeneration)
        have hnat := congrArg UInt64.toNat h0
        rw [UInt64.toNat_ofNat', Nat.mod_eq_of_lt hpatient] at hnat
        exact hnat
      obtain ⟨hd, hsequence⟩ := hsame hnone
      by_cases hr : r = c.report
      · subst hr
        show HeldInv c.report ((u.state.setReport c.report _).reports c.report)
        rw [State.setReport_same]
        exact heldInv_push (hu.held c.report) hd ⟨clock, reads, by rw [hsequence]⟩ _
      · show HeldInv r ((u.state.setReport c.report _).reports r)
        rw [State.setReport_ne _ _ hr]
        exact hu.held r
  | define report d now =>
    refine systemInv_change hu (fun r hr => ?_) ?_ ?_ rfl
    · exact State.setReport_ne _ _ hr
    · exact congrArg Report.held (State.setReport_same _ _ _)
    · exact congrArg Report.nextSlot (State.setReport_same _ _ _)
  | clear report =>
    refine systemInv_change hu (fun r hr => ?_) ?_ ?_ rfl
    · exact State.setReport_ne _ _ hr
    · exact congrArg Report.held (State.setReport_same _ _ _)
    · exact congrArg Report.nextSlot (State.setReport_same _ _ _)
  | restore report definition period sequence now =>
    refine systemInv_change hu (fun r hr => ?_) ?_ ?_ rfl
    · exact State.setReport_ne _ _ hr
    · refine (congrArg Report.held (State.setReport_same _ _ _)).trans ?_
      cases definition <;> rfl
    · refine (congrArg Report.nextSlot (State.setReport_same _ _ _)).trans ?_
      cases definition <;> rfl

/-- **A run keeps the invariant.** -/
theorem systemInv_run (hr : ReflTransGen PatientStep (System.reset b) u) : SystemInv u := by
  induction hr with
  | refl => exact systemInv_reset b
  | tail _ h ih => exact systemInv_step ih h

/-- **Held samples are of the current definition.**  In a run where no report changes `2 ^ 64` times
inside one collection: a report holds no more than its history; every age below is answered; and
what is answered was collected under the definition that the report has now, with its length, its
count and its number, in the structure and in the frame. -/
theorem held_current {u : System b} (hr : ReflTransGen PatientStep (System.reset b) u)
    {report : UInt8} (hreport : report.toNat < b.reports) :
    (u.state.reports report).held ≤ b.history ∧
      ∀ age, (age < (u.state.reports report).held ↔ ∃ sample, get report age u.state = .ok sample) ∧
        ∀ sample, get report age u.state = .ok sample →
          ∃ d, (u.state.reports report).definition = some d ∧
            CollectedOf report d ((u.state.reports report).sequence - 1 - UInt16.ofNat age) sample ∧
            sample.length = headerSize + d.payloadBytes ∧ sample.entryCount = d.entryCount ∧
            sample.sequence = (u.state.reports report).sequence - 1 - UInt16.ofNat age ∧
            sample.data.take headerSize = protocolVersion :: report ::
              (putBe16 ((u.state.reports report).sequence - 1 - UInt16.ofNat age) ++
                (putBe32 sample.seconds ++ [sample.entryCount, sample.flags])) := by
  obtain ⟨items, hholds, hitems⟩ := (systemInv_run hr).held report
  have hin : ¬ report.toNat ≥ b.reports := by omega
  refine ⟨hholds.held_le, fun age => ⟨⟨fun hage => ?_, fun h => ?_⟩, fun sample h => ?_⟩⟩
  · refine ⟨(u.state.reports report).ring
      (ageSlot b.history (u.state.reports report).nextSlot age), ?_⟩
    unfold get
    rw [if_neg hin, if_neg (not_le.2 hage)]
  · obtain ⟨sample, h⟩ := h
    unfold get at h
    rw [if_neg hin] at h
    split_ifs at h with hage
    exact not_le.1 hage
  · unfold get at h
    rw [if_neg hin] at h
    split_ifs at h with hage
    have hlt : age < items.length := by
      rw [hholds.length]
      exact not_le.1 hage
    have hget : items[age]? = some sample := by
      rw [← Except.ok.inj h, hholds.get age _ (List.getElem?_eq_getElem hlt),
        List.getElem?_eq_getElem hlt]
    obtain ⟨d, hd, hcollected⟩ := hitems age sample hget
    obtain ⟨hlength, hcount, hsequence, hframe⟩ := hcollected.frame
    exact ⟨d, hd, hcollected, hlength, hcount, hsequence, hframe⟩

/-! ### A report of a byte, defined anew -/

/-- A report of two bytes. -/
def wordDefinition (entry : Entry) : Definition smallBuild where
  fields := [⟨entry, 2, headerSize⟩]
  retrievalClass := classDefault
  laid := ⟨rfl, Nat.two_pos, trivial⟩
  fits := show 2 + 0 + 10 ≤ 32 by decide
  some_entry := List.cons_ne_nil _ _
  entries_le := (byteDefinition entry).entries_le
  class_le := (byteDefinition entry).class_le

/-- A report of a byte, of the last class. -/
def lastDefinition : Definition smallBuild :=
  { byteDefinition ⟨0, 256⟩ with retrievalClass := 7, class_le := by decide }

/-- Report 0 is of a byte, and the service is initialized. -/
def byteState : State smallBuild :=
  { (State.reset smallBuild).define 0 (byteDefinition ⟨0, 256⟩) 0 with initialized := true }

/-- Report 1 is defined besides, of the last class. -/
def bothDefined : System smallBuild :=
  (System.mk byteState none 0).change 1 (byteState.define 1 lastDefinition 0)

/-- The collection of report 0 that begins. -/
def byteCollecting : Collecting smallBuild := ⟨0, byteDefinition ⟨0, 256⟩, 0, 1⟩

/-- A patient run up to the state before it. -/
theorem byte_start : ReflTransGen PatientStep (System.reset smallBuild)
    ⟨byteState, none, 0⟩ := by
  have hpatient : (0 : ℕ) < 2 ^ 64 := by decide
  exact .tail (.tail .refl ⟨hpatient, .define 0 (byteDefinition ⟨0, 256⟩) 0⟩)
    ⟨hpatient, @SystemStep.other _ _ byteState ⟨fun _ => rfl, fun _ => rfl, fun _ => rfl,
      fun _ => rfl, fun _ => rfl, rfl⟩⟩

/-- And up to the collection. -/
theorem byte_run : ReflTransGen PatientStep (System.reset smallBuild)
    ⟨byteState, some byteCollecting, 0⟩ :=
  byte_start.tail ⟨by decide, @SystemStep.begin _ _ 0 byteCollecting rfl rfl⟩

/-- A report is collected, from a state in which nothing is under way. -/
def collectOnce (report : UInt8) (u : System smallBuild) : System smallBuild :=
  match collectBegin report u.state with
  | .ok c => ⟨(collectCommit c (collectReport c.definition c.sequence none byteReads).1
      (collectReport c.definition c.sequence none byteReads).2.failures u.state).2, none, 0⟩
  | .error _ => u

/-- Nothing happens, or it begins and is committed. -/
theorem collectOnce_cases (report : UInt8) (u : System smallBuild) : collectOnce report u = u ∨
    ∃ c, collectBegin report u.state = .ok c ∧ collectOnce report u =
      ⟨(collectCommit c (collectReport c.definition c.sequence none byteReads).1
        (collectReport c.definition c.sequence none byteReads).2.failures u.state).2, none, 0⟩ := by
  unfold collectOnce
  cases hbegin : collectBegin report u.state with
  | error e => exact .inl rfl
  | ok c => exact .inr ⟨c, rfl, rfl⟩

/-- It is collected any number of times. -/
theorem collectOnce_run (report : UInt8) {u : System smallBuild} (hfree : u.collecting = none)
    (hpatient : u.changed < 2 ^ 64) (n : ℕ) :
    ReflTransGen PatientStep u ((collectOnce report)^[n] u) ∧
      ((collectOnce report)^[n] u).collecting = none ∧
      ((collectOnce report)^[n] u).changed < 2 ^ 64 := by
  have hzero : (0 : ℕ) < 2 ^ 64 := by decide
  induction n with
  | zero => exact ⟨.refl, hfree, hpatient⟩
  | succ n ih =>
    obtain ⟨hrun, hfree', hpatient'⟩ := ih
    rw [Function.iterate_succ_apply']
    obtain hsame | ⟨c, hbegin, heq⟩ := collectOnce_cases report ((collectOnce report)^[n] u)
    · rw [hsame]
      exact ⟨hrun, hfree', hpatient'⟩
    · rw [heq]
      exact ⟨(hrun.tail ⟨hpatient', .begin hfree' hbegin⟩).tail
        ⟨hzero, .commit none byteReads rfl⟩, rfl, hzero⟩

/-- Report 0 has been collected more often than its ring is long. -/
def byteFull : System smallBuild := (collectOnce 0)^[3] ⟨byteState, none, 0⟩

/-- Then it is defined anew, and collected as often again. -/
def wordFull : System smallBuild :=
  (collectOnce 0)^[3] (byteFull.change 0 (byteFull.state.define 0 (wordDefinition ⟨0, 256⟩) 0))

/-- The ring is full of samples of the new definition. -/
theorem held_current_word : (wordFull.state.reports 0).held = 2 ∧
    ∀ age < 2, ∃ sample, get 0 age wordFull.state = .ok sample ∧
      sample.length = headerSize + 2 := by
  have hstart := byte_start.trans (collectOnce_run 0 rfl (by decide) 3).1
  have hrun := (hstart.tail ⟨by decide, .define 0 (wordDefinition ⟨0, 256⟩) 0⟩).trans
    (collectOnce_run 0 rfl (by decide) 3).1
  obtain ⟨-, hages⟩ := held_current hrun (show (0 : UInt8).toNat < smallBuild.reports by decide)
  refine ⟨by decide, fun age hage => ?_⟩
  obtain ⟨sample, hsample⟩ := (hages age).1.1 hage
  obtain ⟨d, hd, -, hlength, -⟩ := (hages age).2 sample hsample
  obtain rfl : wordDefinition ⟨0, 256⟩ = d := Option.some.inj hd
  exact ⟨sample, hsample, hlength⟩

/-- Report 0 is defined anew, time after time, inside a collection. -/
theorem redefine_run (d : Definition b) (n : ℕ) (hd : (u.state.reports 0).definition = some d)
    (hheld : (u.state.reports 0).held = 0) (hnext : (u.state.reports 0).nextSlot = 0) :
    ∃ u', ReflTransGen SystemStep u u' ∧ u'.collecting = u.collecting ∧
      u'.state.generations 0 = u.state.generations 0 + UInt64.ofNat n ∧
      (u'.state.reports 0).definition = some d ∧ (u'.state.reports 0).held = 0 ∧
      (u'.state.reports 0).nextSlot = 0 := by
  induction n with
  | zero => exact ⟨u, .refl, rfl, (UInt64.add_zero _).symm, hd, hheld, hnext⟩
  | succ n ih =>
    obtain ⟨u', hrun, hcollecting, hgeneration, -⟩ := ih
    refine ⟨_, hrun.tail (.define 0 d 0), hcollecting, ?_, ?_, ?_, ?_⟩
    · show Function.update u'.state.generations 0 (u'.state.generations 0 + 1) 0 = _
      rw [Function.update_self, hgeneration, UInt64.add_assoc, UInt64.ofNat_add]
      rfl
    · exact congrArg Report.definition (State.setReport_same _ _ _)
    · exact congrArg Report.held (State.setReport_same _ _ _)
    · exact congrArg Report.nextSlot (State.setReport_same _ _ _)

/-- After `2 ^ 64` redefinitions inside one collection, a report of two bytes holds the sample of
one byte that was collected. -/
theorem held_after_wrap :
    ¬ ∀ u : System smallBuild, ReflTransGen SystemStep (System.reset smallBuild) u →
      ∀ report age sample, get report age u.state = .ok sample →
        ∃ d, (u.state.reports report).definition = some d ∧
          sample.length = headerSize + d.payloadBytes := by
  intro h
  obtain ⟨u, hrun, hcollecting, hgeneration, hd, hheld, hnext⟩ :=
    redefine_run (wordDefinition ⟨0, 256⟩) (2 ^ 64 - 1)
      (u := System.change 0 (byteState.define 0 (wordDefinition ⟨0, 256⟩) 0)
        ⟨byteState, some byteCollecting, 0⟩) rfl rfl rfl
  have hgeneration' : u.state.generations 0 = 1 := hgeneration.trans (by decide +kernel)
  have hcommit := ((ReflTransGen.mono (fun _ _ h => h.2) _ _ byte_run).tail
    (.define 0 (wordDefinition ⟨0, 256⟩) 0)).trans (hrun.tail (.commit none byteReads hcollecting))
  obtain ⟨hsample, hdefinition⟩ := @get_committed _ byteCollecting u.state
    (collectReport byteCollecting.definition byteCollecting.sequence none byteReads).1
    (collectReport byteCollecting.definition byteCollecting.sequence none byteReads).2.failures
    (by decide) _ hd hgeneration'.symm (by rw [show byteCollecting.report = 0 from rfl, hnext]; decide)
  obtain ⟨d, hd', hlength⟩ := h _ hcommit 0 0 _ hsample
  obtain rfl := Option.some.inj (hdefinition.symm.trans hd')
  exact absurd hlength (by decide)

end KfswServices.Hk
