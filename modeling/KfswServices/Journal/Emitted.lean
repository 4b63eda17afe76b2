/-
# An event on its way into the journal

`kfsw_event_emit` checks an event, `kfsw_journal_submit` checks the record of it, and `decode` of
`src/journal/journal_store.c` checks what is read back; each has its own idea of the sources.  The
first of them does not know the last three of `enum kfsw_event_source`, so that what the tables, the
scrubber and the limits report is counted as rejected.

Every other event is recorded, and reaches the file if the journal can be flushed (`emit_reaches_iff`).
-/

import KfswServices.Event.Visit
import KfswServices.Journal.Flushed

namespace KfswServices.Journal

open Event (Source Severity Emission emit knownSources)

/-- An event of a declared source and severity. -/
def declared (source : Source) (id : UInt16) (severity : Severity) (payload : List UInt8)
    (monotonicUs : UInt64) : Emission :=
  ⟨source.toUInt16.toUInt32, id, severity.toByte.toUInt32, some payload, monotonicUs⟩

/-- A record has the fields that the event was emitted with. -/
def HasFields (r : Event.Record) (source : Source) (id : UInt16) (severity : Severity)
    (payload : List UInt8) : Prop :=
  r.source = source.toUInt16 ∧ r.id = id ∧ r.severity = severity.toByte ∧ r.payload = payload

/-- The event is the newest of the ring. -/
def Recorded (b : Event.Build) (ring : Event.State) (source : Source) (id : UInt16)
    (severity : Severity) (payload : List UInt8) : Prop :=
  ∃ r, Event.get b 0 ring = .ok r ∧ HasFields r source id severity payload

/-- The journal is to have it, and has room for it. -/
def Wanted (cfg : Config) (s : Service) (source : Source) (severity : Severity) : Prop :=
  source ≠ .BOOT ∧ cfg.minSeverity ≤ severity.toByte ∧ s.queue.length < cfg.queueDepth

/-- The event is queued behind the others; two flushes on working storage get through, and after a
reopen it is the newest record. -/
def Persisted (cfg : Config) (utc : ℕ → Option Int64) (s s' : Service) (source : Source)
    (id : UInt16) (severity : Severity) (payload : List UInt8) : Prop :=
  (∃ r, s'.queue = s.queue ++ [r] ∧ HasFields r source id severity payload) ∧
  (s'.flushResult cfg utc = none ∧ (s'.flushed cfg utc).flushResult cfg utc = none) ∧
  let entry := ((s'.flushed cfg utc).flushed cfg utc).entry
  ∃ r, storeGet cfg (.working cfg) (storeOpen cfg (.working cfg) entry).entry
      (storeOpen cfg (.working cfg) entry).store 0 = .ok r ∧
    HasFields r.event source id severity payload

/-- The event reaches the record, and the journal if it is to have it. -/
def Reaches (b : Event.Build) (cfg : Config) (utc : ℕ → Option Int64) (ring : Event.State)
    (s : Service) (source : Source) (id : UInt16) (severity : Severity) (payload : List UInt8)
    (monotonicUs : UInt64) : Prop :=
  let out := emit b (declared source id severity payload monotonicUs) ring
  Recorded b out.2 source id severity payload ∧
    (Wanted cfg s source severity →
      Persisted cfg utc s (s.submit cfg out.1) source id severity payload)

/-- The journal can be flushed with one more event. -/
def Writable (cfg : Config) (s : Service) : Prop :=
  s.started = true ∧ Usable cfg s ∧ Placeable cfg s ∧ NumberableFor cfg s (s.unnumbered + 1)

/-! ### The three checks -/

/-- A source is known to `source_is_known` if it is one of the first seven. -/
theorem sourceIsKnown_iff (source : Source) :
    Event.sourceIsKnown source.toUInt16.toUInt32 = true ↔ source ∈ knownSources := by
  cases source <;> decide

variable {b : Event.Build} {source : Source} {severity : Severity} {payload : List UInt8}

/-- **What is emitted** of a declared event: its record, if the source is known. -/
theorem emit_declared {ring : Event.State} {id : UInt16} {monotonicUs : UInt64}
    (hpayload : payload.length ≤ Event.maxPayloadSize) :
    let r : Event.Record := ⟨monotonicUs, ring.nextSequence, source.toUInt16, id, severity.toByte,
      payload⟩
    emit b (declared source id severity payload monotonicUs) ring =
      if source ∈ knownSources then (some r, ring.put b r)
      else (none, { ring with rejectedCount := ring.rejectedCount + 1 }) := by
  intro r
  have hseverity : ¬ severity.toByte.toUInt32 > Severity.CRITICAL.toByte.toUInt32 := by
    cases severity <;> decide
  have hr : (declared source id severity payload monotonicUs).record ring.nextSequence payload =
      r := by
    cases source <;> cases severity <;> rfl
  by_cases hknown : source ∈ knownSources
  · have hadmitted : (declared source id severity payload monotonicUs).admitted = some payload := by
      unfold Emission.admitted declared
      dsimp only
      rw [(sourceIsKnown_iff source).2 hknown, if_neg (by simp [hseverity]),
        Option.filter_some, if_pos (by simpa using hpayload)]
    unfold emit
    rw [if_pos hknown, hadmitted]
    simp only [hr]
  · have hadmitted : (declared source id severity payload monotonicUs).admitted = none := by
      have hfalse : Event.sourceIsKnown source.toUInt16.toUInt32 = false := by
        simpa using mt (sourceIsKnown_iff source).1 hknown
      unfold Emission.admitted declared
      dsimp only
      rw [hfalse, if_pos (by simp)]
    unfold emit
    rw [if_neg hknown, hadmitted]

/-- The journal's check of a record of a known source. -/
theorem valid_of_known (h : source ∈ knownSources) {id : UInt16}
    (hpayload : payload.length ≤ Event.maxPayloadSize) (monotonicUs : UInt64) (sequence : UInt32) :
    Event.Record.Valid ⟨monotonicUs, sequence, source.toUInt16, id, severity.toByte, payload⟩ := by
  have hboot : Source.BOOT.toUInt16 ≤ source.toUInt16 := by cases source <;> decide
  have hresmon : source.toUInt16 ≤ Source.RESMON.toUInt16 := by
    revert h
    cases source <;> decide
  have hseverity : severity.toByte ≤ Severity.CRITICAL.toByte := by cases severity <;> decide
  exact ⟨hboot, hresmon, hseverity, hpayload⟩

/-- **What is submitted**, where the journal is to have it. -/
theorem submit_wanted {cfg : Config} {s : Service} {e : Event.Record} (hvalid : e.Valid)
    (hsource : e.source ≠ Source.BOOT.toUInt16) (hseverity : cfg.minSeverity ≤ e.severity)
    (hroom : s.queue.length < cfg.queueDepth) :
    s.submit cfg (some e) = { s with queue := s.queue ++ [e] } := by
  unfold Service.submit
  dsimp only
  rw [if_neg (not_not.2 hvalid), if_neg hsource, if_neg (UInt8.not_lt.2 hseverity)]
  unfold Service.enqueue
  rw [if_pos hroom]

/-- Every record that came is of a known source. -/
theorem known_of_run {es : List Event.Seen} {u : Event.System}
    (hr : Library.Run (Event.Step b) Event.System.reset es u) :
    ∀ r ∈ u.log, ∃ source ∈ knownSources, r.source = source.toUInt16 := by
  induction hr with
  | nil => simp [Event.System.reset]
  | snoc _ hs ih =>
    rcases Event.step_cases hs with ⟨em, r, hem, -, rfl⟩ | ⟨_, _, -, rfl⟩ | ⟨-, rfl⟩ | ⟨-, -, rfl⟩ |
      ⟨_, _, -, -, -, rfl⟩ | ⟨_, -, -, -, rfl⟩
    · intro x hx
      rcases List.mem_append.1 hx with hx | hx
      · exact ih x hx
      · obtain rfl := List.mem_singleton.1 hx
        unfold emit at hem
        cases hp : em.admitted with
        | none => simp only [hp, reduceCtorEq] at hem
        | some payload =>
          simp only [hp, Option.some.injEq] at hem
          unfold Emission.admitted at hp
          split_ifs at hp with hrefused
          rw [Bool.or_eq_true, not_or] at hrefused
          obtain ⟨source, hmem, heq⟩ := List.any_eq_true.1
            (show Event.sourceIsKnown em.source = true by simpa using hrefused.1)
          refine ⟨source, hmem, ?_⟩
          rw [← hem]
          show em.source.toUInt16 = _
          rw [← of_decide_eq_true heq]
          exact UInt16.toUInt16_toUInt32 _
    · exact ih
    · exact ih
    · exact ih
    · exact ih
    · exact ih

/-- What is read of the ring came into it. -/
theorem mem_log_of_get {log : List Event.Record} {ring : Event.State}
    (h : Event.RingInv b log ring) {r : Event.Record} (hget : Event.get b 0 ring = .ok r) :
    r ∈ log := by
  have hheld := h.held_le
  have hpos : 0 < ring.heldCount := by
    by_contra hz
    unfold Event.get at hget
    rw [if_pos (by omega)] at hget
    cases hget
  have hne : log ≠ [] := List.ne_nil_of_length_pos (by omega)
  have hlast := h.get_zero (List.getLast?_eq_some_getLast hne) hpos
  rw [← Except.ok.inj (hlast.symm.trans hget)]
  exact List.getLast_mem hne

/-! ### The way of an event -/

/-- **The ring's part**: an event is recorded if its source is known. -/
theorem recorded_iff {es : List Event.Seen} {u : Event.System}
    (hr : Library.Run (Event.Step b) Event.System.reset es u) {id : UInt16} {monotonicUs : UInt64}
    (hpayload : payload.length ≤ Event.maxPayloadSize) :
    Recorded b (emit b (declared source id severity payload monotonicUs) u.state).2 source id
      severity payload ↔ source ∈ knownSources := by
  have hring := Event.ringInv_run hr
  rw [emit_declared hpayload]
  by_cases hknown : source ∈ knownSources
  · rw [if_pos hknown]
    set r : Event.Record := ⟨monotonicUs, u.state.nextSequence, source.toUInt16, id,
      severity.toByte, payload⟩ with hrdef
    refine iff_of_true ⟨r, ?_, rfl, rfl, rfl, rfl⟩ hknown
    have hput := hring.put (r := r) rfl
    refine hput.get_zero List.getLast?_concat ?_
    have hrange := b.ringDepth_range
    unfold Event.State.put
    dsimp only
    split_ifs <;> omega
  · rw [if_neg hknown]
    refine iff_of_false ?_ hknown
    rintro ⟨r, hget, hsource, -⟩
    -- what is read came from an event of a known source
    have hmem := mem_log_of_get hring (r := r) hget
    obtain ⟨source', hmem', heq⟩ := known_of_run hr r hmem
    have hsame : source = source' := by
      rw [hsource] at heq
      revert heq
      cases source <;> cases source' <;> decide
    exact hknown (hsame ▸ hmem')

/-- **The journal's part**: an event of a known source that the journal is to have reaches the file if
the journal can be flushed. -/
theorem persisted_iff {cfg : Config} (utc : ℕ → Option Int64) {s : Service} {acts : List Act}
    (hs : Sound cfg s) (hinv : Inv cfg s acts) {id : UInt16} {monotonicUs : UInt64}
    {sequence : UInt32} (hpayload : payload.length ≤ Event.maxPayloadSize)
    (hknown : source ∈ knownSources) (hwanted : Wanted cfg s source severity) :
    Persisted cfg utc s (s.submit cfg (some ⟨monotonicUs, sequence, source.toUInt16, id,
      severity.toByte, payload⟩)) source id severity payload ↔ Writable cfg s := by
  obtain ⟨hboot, hseverity, hroom⟩ := hwanted
  set e : Event.Record := ⟨monotonicUs, sequence, source.toUInt16, id, severity.toByte, payload⟩
    with he
  have hsource : e.source ≠ Source.BOOT.toUInt16 := by
    show source.toUInt16 ≠ Source.BOOT.toUInt16
    revert hboot
    clear_value e
    clear he hknown
    cases source <;> decide
  have hvalid : e.Valid := valid_of_known hknown hpayload monotonicUs sequence
  have hsubmit := submit_wanted hvalid hsource hseverity hroom
  have hs' := hs.submit (some e)
  have hinv' := hinv.submit (some e)
  rw [hsubmit] at hs' hinv' ⊢
  set s' : Service := { s with queue := s.queue ++ [e] } with hs'def
  have hle : s'.queue.length ≤ cfg.queueDepth := by
    rw [show s'.queue = s.queue ++ [e] from rfl, List.length_append, List.length_singleton]
    omega
  have hfile : s'.store.ready = true → ∃ bytes, s'.entry = .file bytes := fun hready => by
    obtain ⟨bytes, hentry, -⟩ := hinv'.ready hready
    exact ⟨bytes, hentry⟩
  obtain ⟨hiff, hnewest⟩ := flush_twice_iff utc hs' hfile hle
  have hunnumbered : s'.unnumbered = s.unnumbered + 1 := by
    unfold Service.unnumbered
    rw [show s'.queue = s.queue ++ [e] from rfl, List.length_append, List.length_singleton]
    exact Nat.add_right_comm _ _ _
  have hwritable : s'.started = true ∧ Usable cfg s' ∧ Placeable cfg s' ∧
      NumberableFor cfg s' s'.unnumbered ↔ Writable cfg s := by
    rw [hunnumbered]
    exact Iff.rfl
  rw [hwritable] at hiff
  constructor
  · rintro ⟨-, hflush, -⟩
    exact hiff.1 hflush
  · intro hw
    have hflush := hiff.2 hw
    refine ⟨⟨e, rfl, rfl, rfl, rfl, rfl⟩, hflush, ?_⟩
    have hnew := hnewest hflush.1 hflush.2 e List.getLast?_concat
    have hinv'' := (hinv'.flush (.working cfg utc)).flush (.working cfg utc)
    obtain ⟨-, r, hget, hevent⟩ := storeGet_newest hinv'' hnew
    exact ⟨r, hget, by rw [hevent, he], by rw [hevent, he], by rw [hevent, he], by rw [hevent, he]⟩

/-- **Which declared events reach the record.**  In any state of the ring and of the journal, an event
of a declared source and severity, with a payload that is not too long, is recorded, and queued,
written and read back if the journal is to have it, if and only if its source is not one of the
tables, the scrubber and the limits, and the journal can be flushed. -/
theorem emit_reaches_iff (b : Event.Build) (cfg : Config) (utc : ℕ → Option Int64)
    (es : List Event.Seen) (u : Event.System)
    (hr : Library.Run (Event.Step b) Event.System.reset es u) (entry : Entry) (ops : List (Op cfg))
    (source : Source) (id : UInt16) (severity : Severity) (payload : List UInt8)
    (monotonicUs : UInt64) (hpayload : payload.length ≤ Event.maxPayloadSize) :
    let s := ((Service.boot₀ cfg entry).execAll ops).1
    Reaches b cfg utc u.state s source id severity payload monotonicUs ↔
      source ∉ [.TABLE, .SCRUB, .LIMITS] ∧ (Wanted cfg s source severity → Writable cfg s) := by
  intro s
  have hs : Sound cfg s := ((Reachable.boot entry).execAll ops).sound
  have hinv := (inv_boot₀ cfg entry).execAll ops
  have hknown : source ∉ [.TABLE, .SCRUB, .LIMITS] ↔ source ∈ knownSources := by
    cases source <;> decide
  unfold Reaches
  dsimp only
  rw [recorded_iff hr hpayload, hknown, emit_declared hpayload]
  refine and_congr_right fun hmem => ?_
  rw [if_pos hmem]
  exact forall_congr' fun hwanted => persisted_iff utc hs hinv hpayload hmem hwanted

/-- A journal that was started on a path without a file. -/
theorem emit_reaches_command : Reaches Event.smallBuild smallConfig (fun _ => none)
    Event.System.reset.state
    ((Service.boot₀ smallConfig .absent).execAll [.start true (.working smallConfig)]).1
    .COMMAND 1 .CRITICAL [7] 0 :=
  (emit_reaches_iff Event.smallBuild smallConfig (fun _ => none) [] Event.System.reset (.nil _) .absent
    [.start true (.working smallConfig)] .COMMAND 1 .CRITICAL [7] 0 (by decide)).2
    ⟨by decide, fun _ => ⟨by decide, ⟨_, rfl⟩, nofun, by decide, nofun, fun h => absurd h (by decide)⟩⟩

/-- **An alarm of the limits is lost**, in the ring and in the journal. -/
theorem limits_lost : ¬ ∀ (b : Event.Build) (cfg : Config) (utc : ℕ → Option Int64)
    (es : List Event.Seen) (u : Event.System) (entry : Entry) (ops : List (Op cfg))
    (source : Source) (id : UInt16) (severity : Severity) (payload : List UInt8)
    (monotonicUs : UInt64), Library.Run (Event.Step b) Event.System.reset es u →
    payload.length ≤ Event.maxPayloadSize →
    ((Service.boot₀ cfg entry).execAll ops).1.started = true →
    Reaches b cfg utc u.state ((Service.boot₀ cfg entry).execAll ops).1 source id severity payload
      monotonicUs := by
  intro h
  obtain ⟨⟨r, hget, -⟩, -⟩ := h Event.smallBuild smallConfig (fun _ => none) [] Event.System.reset
    .absent [.start true (.working smallConfig)] .LIMITS 1 .CRITICAL [] 0 (.nil _) (by decide) rfl
  have herror : Event.get Event.smallBuild 0 (emit Event.smallBuild
      (declared .LIMITS 1 .CRITICAL [] 0) Event.System.reset.state).2 = .error .ENOENT := by rfl
  rw [herror] at hget
  cases hget

end KfswServices.Journal
