/-
# Trial boots are counted

`kfsw_boot_record_image` of `src/boot_diagnostics.c`, over every history of calls that begins
without a record file.  A call fails and keeps the file, or it succeeds and leaves the record of its
boot (`recordImage_cases`); so the file tells of the calls that succeeded (`Describes`), and the
diagnostics after a call are what these say (`trial_boots_counted`).

The call reads nothing of the diagnostics, so a reset between two calls makes no difference.
-/

import KfswServices.Boot.TrialRecord
import KfswServices.Library.Run

namespace KfswServices.Boot

open Library

/-- `struct kfsw_boot_diagnostics`. -/
structure Diagnostics where
  attempts : UInt32
  revertReason : UInt8
  valid : Bool
  deriving DecidableEq, Repr

/-- Their values while they are not valid. -/
def Diagnostics.invalid : Diagnostics := ⟨uint32Max, 0xff, false⟩

/-- The record file, and `diagnostics`. -/
structure State where
  file : Option (List UInt8)
  diagnostics : Diagnostics

/-- A call, and what the storage does in it. -/
structure Call where
  image : Option ImageId
  confirmed : Bool
  revertPending : Bool
  io : StorageIo

/-- The record that is to be updated: without a file, zeroes behind the magic. -/
def StorageIo.current (io : StorageIo) (file : Option (List UInt8)) : Except Errno (List UInt8) :=
  match io.loadRecord file with
  | .error .ENOENT => .ok (recordMagic ++ List.replicate (recordSize - 4) 0)
  | loaded => loaded

/-- `kfsw_boot_record_image`; `storage` is `CONFIG_KFSW_STORAGE`. -/
def State.recordImage (storage : Bool) (c : Call) (s : State) : Option Errno × State :=
  let s := { s with diagnostics := .invalid }
  if !storage then (some .ENOTSUP, s)
  else
    match c.image with
    | none => (some .EINVAL, s)
    | some image =>
      if !c.io.ready then (some .ENODEV, s)
      else
        match c.io.current s.file with
        | .error e => (some e, s)
        | .ok record =>
          let updated := updateRecord image c.confirmed c.revertPending record
          match c.io.written with
          | some e => (some e, s)
          | none =>
            (none, ⟨some updated.1, ⟨updated.2, updated.1.getD reasonOffset 0, true⟩⟩)

/-! ### One call -/

/-- The file has this record, or there is none and nothing was recorded. -/
def State.Holds (s : State) (r : TrialRecord) : Prop :=
  s.file = some r.bytes ∨ s.file = none ∧ r = .fresh

/-- What a boot reports. -/
def TrialRecord.diagnostics (r : TrialRecord) : Diagnostics := ⟨r.attempts, r.reason.toByte, true⟩

variable {r : TrialRecord}

/-- What is loaded is the record in the file. -/
theorem State.Holds.current {s : State} (h : s.Holds r) (io : StorageIo) :
    (∃ e, io.current s.file = .error e ∧ ¬ io.Works) ∨
      ∃ crc, crc.length = 4 ∧ io.current s.file = .ok (r.parts crc).flatten := by
  unfold StorageIo.current
  rcases h with hfile | ⟨hfile, rfl⟩
  · rw [hfile]
    rcases io.loadRecord_some r.bytes with ⟨e, he, hload, hworks⟩ | hload
    · refine Or.inl ⟨e, ?_, fun hw => hworks hw r.length_bytes r.accepted_bytes⟩
      rw [hload]
      cases e <;> first | rfl | exact absurd rfl he
    · rw [hload]
      exact Or.inr ⟨_, length_putBe32 _, rfl⟩
  · rw [hfile]
    obtain ⟨e, hload, hworks⟩ := io.loadRecord_none
    rw [hload]
    by_cases he : e = .ENOENT
    · subst he
      exact Or.inr ⟨[0, 0, 0, 0], rfl, rfl⟩
    · refine Or.inl ⟨e, ?_, mt hworks he⟩
      cases e <;> first | rfl | exact absurd rfl he

/-- **A call** fails and keeps the file, or leaves the record of the boot. -/
theorem recordImage_cases (storage : Bool) (c : Call) {s : State} (h : s.Holds r) :
    (∃ e, s.recordImage storage c = (some e, ⟨s.file, .invalid⟩) ∧
        ¬ (storage = true ∧ c.image ≠ none ∧ c.io.Works)) ∨
      ∃ image, c.image = some image ∧ s.recordImage storage c =
        (none, ⟨some (r.boot image c.confirmed c.revertPending).bytes,
          (r.boot image c.confirmed c.revertPending).diagnostics⟩) := by
  unfold State.recordImage
  cases storage with
  | false => exact Or.inl ⟨.ENOTSUP, rfl, fun hw => Bool.false_ne_true hw.1⟩
  | true =>
    cases himage : c.image with
    | none => exact Or.inl ⟨.EINVAL, rfl, fun hw => hw.2.1 rfl⟩
    | some image =>
      cases hready : c.io.ready with
      | false =>
        exact Or.inl ⟨.ENODEV, rfl, fun hw => Bool.false_ne_true (hready.symm.trans hw.2.2.ready)⟩
      | true =>
        dsimp only
        rcases h.current c.io with ⟨e, hload, hworks⟩ | ⟨crc, hcrc, hload⟩
        · rw [hload]
          exact Or.inl ⟨e, rfl, fun hw => hworks hw.2.2⟩
        · rw [hload]
          dsimp only
          rw [r.updateRecord_parts hcrc]
          cases hwritten : c.io.written with
          | some e =>
            refine Or.inl ⟨e, rfl, fun hw => ?_⟩
            cases hwritten.symm.trans hw.2.2.written
          | none =>
            set u := r.boot image c.confirmed c.revertPending
            have hreason : u.bytes.getD reasonOffset 0 = u.reason.toByte :=
              u.getD_reason (length_putBe32 _)
            refine Or.inr ⟨image, rfl, ?_⟩
            dsimp only
            rw [hreason]
            rfl

/-! ### Histories of calls -/

/-- A call that was made: what it returned, and the diagnostics after it. -/
structure Event where
  call : Call
  result : Option Errno
  diagnostics : Diagnostics

/-- One more call. -/
structure BootStep (storage : Bool) (s : State) (e : Event) (t : State) : Prop where
  call : s.recordImage storage e.call = (e.result, t)
  diagnostics : e.diagnostics = t.diagnostics

/-- The calls that succeeded. -/
def recorded (es : List Event) : List Event := es.filter (·.result = none)

/-- An unconfirmed boot of this image. -/
def Event.tries (image : ImageId) (e : Event) : Bool :=
  e.call.image = some image ∧ !e.call.confirmed

/-- How many unconfirmed boots of this image there are since the last boot that was confirmed or of
a different image. -/
def trialBoots (image : ImageId) (es : List Event) : ℕ :=
  (es.reverse.takeWhile (·.tries image)).length

@[simp] theorem trialBoots_snoc (image : ImageId) (es : List Event) (e : Event) :
    trialBoots image (es ++ [e]) = if e.tries image then trialBoots image es + 1 else 0 := by
  unfold trialBoots
  rw [List.reverse_append, List.reverse_singleton, List.singleton_append, List.takeWhile_cons]
  split_ifs <;> rfl

theorem recorded_snoc (es : List Event) (e : Event) :
    recorded (es ++ [e]) = if e.result = none then recorded es ++ [e] else recorded es := by
  unfold recorded
  rw [List.filter_append, List.filter_singleton]
  by_cases h : e.result = none
  · simp [h]
  · simp [h]

/-- The reason reported at a boot that follows this one. -/
def Event.nextReason (p : Event) (image : ImageId) : UInt8 :=
  if !p.call.confirmed ∧ p.call.image ≠ some image then
    if p.call.revertPending then RevertReason.UNCONFIRMED_REPLACED.toByte
    else RevertReason.REPLACED_UNKNOWN.toByte
  else p.diagnostics.revertReason

/-- A record tells of the calls that succeeded. -/
structure Describes (r : TrialRecord) (es : List Event) : Prop where
  attempts : ∀ image, min (2 ^ 32 - 2) (trialBoots image es) =
    if r.image = image then r.attempts.toNat else 0
  first : es = [] → r.trial = false ∧ r.reason = .NONE
  last : ∀ p, es.getLast? = some p → p.call.image = some r.image ∧ r.trial = !p.call.confirmed ∧
    r.revert = p.call.revertPending ∧ r.reason.toByte = p.diagnostics.revertReason

/-- Before the first call. -/
theorem describes_nil : Describes .fresh [] where
  attempts _ := by split_ifs <;> rfl
  first _ := ⟨rfl, rfl⟩
  last _ h := by cases h

variable {es : List Event}

/-- The reason in the record of a boot. -/
theorem Describes.reason_boot (h : Describes r es) (image : ImageId)
    (confirmed revertPending : Bool) :
    (es = [] → (r.boot image confirmed revertPending).reason = .NONE) ∧ ∀ p, es.getLast? = some p →
        (r.boot image confirmed revertPending).reason.toByte = p.nextReason image := by
  constructor
  · intro hnil
    obtain ⟨htrial, hreason⟩ := h.first hnil
    simp [TrialRecord.boot, TrialRecord.replacedBy, htrial, hreason]
  · intro p hp
    obtain ⟨himage, htrial, hrevert, hreason⟩ := h.last p hp
    unfold TrialRecord.boot TrialRecord.replacedBy Event.nextReason
    dsimp only
    rw [himage, htrial, hrevert]
    simp only [Ne, Option.some.injEq]
    by_cases hreplaced : (!p.call.confirmed) = true ∧ ¬ r.image = image
    · rw [if_pos hreplaced, if_pos hreplaced]
      split_ifs <;> rfl
    · rw [if_neg hreplaced, if_neg hreplaced]
      exact hreason

/-- **One more boot** that is recorded. -/
theorem Describes.boot (h : Describes r es) {e : Event} {image : ImageId}
    (himage : e.call.image = some image) (hdiagnostics : e.diagnostics =
      (r.boot image e.call.confirmed e.call.revertPending).diagnostics) :
    Describes (r.boot image e.call.confirmed e.call.revertPending) (es ++ [e]) where
  attempts other := by
    have hbefore := h.attempts image
    rw [trialBoots_snoc, Event.tries, himage]
    show _ = if image = other then (r.counted image e.call.confirmed).toNat else 0
    rw [TrialRecord.toNat_counted]
    by_cases hother : image = other
    · subst hother
      cases hconfirmed : e.call.confirmed with
      | true => simp
      | false =>
        by_cases hsame : r.image = image
        · rw [if_pos hsame] at hbefore
          simp only [hsame, if_pos, decide_true, Bool.not_false, and_self, Bool.false_eq_true,
            if_false]
          omega
        · rw [if_neg hsame] at hbefore
          have hnone : trialBoots image es = 0 := by omega
          simp [hsame, hnone]
    · simp [hother]
  first hnil := absurd hnil (by simp)
  last p hp := by
    obtain rfl : e = p := by simpa using hp
    exact ⟨himage, rfl, rfl, by rw [hdiagnostics]; rfl⟩

/-- The file tells of the calls that succeeded. -/
def Told (es : List Event) (s : State) : Prop :=
  ∃ r : TrialRecord, s.Holds r ∧ Describes r (recorded es)

/-- A call, once the file tells of those before. -/
theorem Told.step {storage : Bool} {s t : State} {e : Event} (h : Told es s)
    (hstep : BootStep storage s e t) : (e.result ≠ none ∧ t = ⟨s.file, .invalid⟩) ∨
      ∃ (r : TrialRecord) (image : ImageId), Describes r (recorded es) ∧ e.result = none ∧
        e.call.image = some image ∧
        t = ⟨some (r.boot image e.call.confirmed e.call.revertPending).bytes,
          (r.boot image e.call.confirmed e.call.revertPending).diagnostics⟩ := by
  obtain ⟨r, hfile, hr⟩ := h
  rcases recordImage_cases storage e.call hfile with ⟨err, hcall, -⟩ | ⟨image, himage, hcall⟩
  · obtain ⟨hresult, rfl⟩ := Prod.mk.inj (hcall.symm.trans hstep.call)
    exact Or.inl ⟨by simp [← hresult], rfl⟩
  · obtain ⟨hresult, rfl⟩ := Prod.mk.inj (hcall.symm.trans hstep.call)
    exact Or.inr ⟨r, image, hr, hresult.symm, himage, rfl⟩

/-- **The file tells of the calls that succeeded**, all along a history. -/
theorem told_of_run {storage : Bool} {s : State} {d : Diagnostics}
    (hr : Run (BootStep storage) ⟨none, d⟩ es s) : Told es s := by
  refine hr.invariant ⟨.fresh, Or.inr ⟨rfl, rfl⟩, describes_nil⟩ fun es s e t h hstep => ?_
  rcases h.step hstep with ⟨hresult, rfl⟩ | ⟨r, image, hdescribes, hresult, himage, rfl⟩
  · obtain ⟨r, hfile, hdescribes⟩ := h
    refine ⟨r, hfile, ?_⟩
    rwa [recorded_snoc, if_neg hresult]
  · refine ⟨r.boot image e.call.confirmed e.call.revertPending, Or.inl rfl, ?_⟩
    rw [recorded_snoc, if_pos hresult]
    exact hdescribes.boot himage hstep.diagnostics

/-- **A call succeeds** where the storage does. -/
theorem Told.succeeds {s : State} (h : Told es s) {c : Call} (himage : c.image ≠ none)
    (hworks : c.io.Works) : (s.recordImage true c).1 = none := by
  obtain ⟨r, hfile, -⟩ := h
  rcases recordImage_cases true c hfile with ⟨_, -, hnot⟩ | ⟨image, -, hcall⟩
  · exact absurd ⟨rfl, himage, hworks⟩ hnot
  · exact congrArg Prod.fst hcall

/-- What is to hold of a call from `s` to `t`, after these. -/
structure Counted (es : List Event) (e : Event) (s t : State) : Prop where
  valid : e.result = none → t.diagnostics.valid = true
  image : e.result = none → ∃ image, e.call.image = some image
  attempts : e.result = none → ∀ image, e.call.image = some image →
    t.diagnostics.attempts.toNat = min (2 ^ 32 - 2) (trialBoots image (recorded (es ++ [e])))
  confirmed : e.result = none → e.call.confirmed = true → t.diagnostics.attempts = 0
  first : e.result = none → recorded es = [] →
    t.diagnostics.revertReason = RevertReason.NONE.toByte
  reason : e.result = none → ∀ p, (recorded es).getLast? = some p →
    ∀ image, e.call.image = some image → t.diagnostics.revertReason = p.nextReason image
  failed : e.result ≠ none → t.diagnostics = .invalid ∧ t.file = s.file

/-- **Trial boots are counted.**  After any calls that begin without a file, a call that succeeds
reports how many unconfirmed boots of its image were recorded since the last other boot, and a
reason that the boot before it decides; one that fails reports nothing and keeps the file. -/
theorem trial_boots_counted (storage : Bool) {es : List Event} {s t : State} {d : Diagnostics}
    {e : Event} (hr : Run (BootStep storage) ⟨none, d⟩ es s) (hstep : BootStep storage s e t) :
    Counted es e s t := by
  rcases (told_of_run hr).step hstep with ⟨hresult, rfl⟩ | ⟨r, image, h, hresult, himage, rfl⟩
  · exact
      { valid := fun h => absurd h hresult
        image := fun h => absurd h hresult
        attempts := fun h => absurd h hresult
        confirmed := fun h => absurd h hresult
        first := fun h => absurd h hresult
        reason := fun h => absurd h hresult
        failed := fun _ => ⟨rfl, rfl⟩ }
  · have hnext := h.boot himage hstep.diagnostics
    refine
      { valid := fun _ => rfl
        image := fun _ => ⟨image, himage⟩
        attempts := fun _ other hother => ?_
        confirmed := fun _ hconfirmed => ?_
        first := fun _ hnil => ?_
        reason := fun _ p hp other hother => ?_
        failed := fun hfailed => absurd hresult hfailed }
    · obtain rfl := Option.some.inj (himage.symm.trans hother)
      rw [recorded_snoc, if_pos hresult, hnext.attempts image]
      exact (if_pos rfl).symm
    · refine UInt32.toNat_inj.1 ?_
      show (r.counted image e.call.confirmed).toNat = 0
      rw [TrialRecord.toNat_counted, if_pos hconfirmed]
    · exact congrArg RevertReason.toByte ((h.reason_boot image _ _).1 hnil)
    · obtain rfl := Option.some.inj (himage.symm.trans hother)
      exact (h.reason_boot image _ _).2 p hp

/-- A call as it is made. -/
def Call.event (c : Call) (s : State) : Event :=
  ⟨c, (s.recordImage true c).1, (s.recordImage true c).2.diagnostics⟩

theorem Call.event_result (c : Call) (s : State) : (c.event s).result = (s.recordImage true c).1 :=
  rfl

theorem Call.bootStep (c : Call) (s : State) :
    BootStep true s (c.event s) (s.recordImage true c).2 := ⟨rfl, rfl⟩

/-- A trial boot, with a storage that does all it is asked for. -/
def trialCall : Call where
  image := some ⟨List.replicate imageIdSize 0xA5, rfl⟩
  confirmed := false
  revertPending := true
  io :=
    { ready := true
      opened := none
      reads := fun _ => .ok recordSize
      closed := none
      written := none
      opened_ne := by decide
      reads_ne := fun _ h => (by cases h)
      closed_ne := by decide }

/-- The state before the first trial boot, and after it. -/
def started : State := ⟨none, .invalid⟩

def bootedOnce : State := (started.recordImage true trialCall).2

/-- The second trial boot of an image is counted. -/
theorem trial_boots_counted_second :
    Counted [trialCall.event started] (trialCall.event bootedOnce) bootedOnce
        (bootedOnce.recordImage true trialCall).2 ∧
      (bootedOnce.recordImage true trialCall).1 = none ∧
      (bootedOnce.recordImage true trialCall).2.diagnostics.attempts.toNat = 2 := by
  have himage : trialCall.image ≠ none := by decide
  have hworks : trialCall.io.Works := ⟨rfl, rfl, fun _ _ h => (by cases h), rfl, rfl⟩
  have hnil : Run (BootStep true) started [] started := .nil started
  have hrun : Run (BootStep true) started [trialCall.event started] bootedOnce :=
    .single (trialCall.bootStep started)
  have hfirst := (told_of_run hnil).succeeds himage hworks
  have hsecond := (told_of_run hrun).succeeds himage hworks
  have hcounted := trial_boots_counted true hrun (trialCall.bootStep bootedOnce)
  have hrecorded : recorded ([trialCall.event started] ++ [trialCall.event bootedOnce]) =
      recorded ([] ++ [trialCall.event started]) ++ [trialCall.event bootedOnce] := by
    rw [recorded_snoc, if_pos ((trialCall.event_result _).trans hsecond), List.nil_append]
  have hrecorded' : recorded ([] ++ [trialCall.event started]) =
      [] ++ [trialCall.event started] := by
    rw [recorded_snoc, if_pos ((trialCall.event_result _).trans hfirst)]
    rfl
  refine ⟨hcounted, hsecond, ?_⟩
  have htwo : trialBoots ⟨List.replicate imageIdSize 0xA5, rfl⟩
      ([] ++ [trialCall.event started] ++ [trialCall.event bootedOnce]) = 2 := rfl
  rw [hcounted.attempts ((trialCall.event_result _).trans hsecond) _ rfl, hrecorded, hrecorded',
    htwo]
  decide

end KfswServices.Boot
