/-
# What is read back of what was stored

A report with a store is collected again and again.  A flush writes the samples that are pending, or
it fails and the file is as it was; the samples of a flush that fails in a write are not written by
the next one.  So the file holds the last sample written into each slot, in the order of collection,
and reads back if and only if their sequences are consecutive (`store_readsBack`).

They are, if no flush loses a sample and no sequence wraps, or the capacity divides 65536.  A lost
sample leaves a gap: the reader counts the records, and takes as many sequences
(`store_gap`).
-/

import KfswServices.Hk.Reader
import KfswServices.Library.Run

namespace KfswServices.Hk

open Library

variable {b : Build}

/-! ### The file -/

variable {report : UInt8} {d : Definition b}

/-- A sample that was collected begins with its frame. -/
theorem CollectedOf.framed {sequence : UInt16} {x : Sample} (h : CollectedOf report d sequence x) :
    Framed report d.recordSize x := by
  obtain ⟨hlength, hcount, hsequence, hframe⟩ := h.frame
  obtain ⟨clock, reads, rfl⟩ := h
  refine ⟨hlength, Nat.le_add_right _ _, ?_, ?_⟩
  · have hfits : d.recordSize ≤ b.sampleBytes := by
      have hle := d.fits
      unfold Definition.recordSize Definition.payloadBytes
      omega
    have hwrites := length_writes (collectEntries d reads).writes (List.replicate b.sampleBytes 0)
    rw [List.length_replicate] at hwrites
    show d.recordSize ≤ (splice 0 (splice 0 (splice 0 _ 0 _) 2 _) 1 [report]).length
    rw [length_splice, length_splice, length_splice]
    omega
  · rw [hsequence]
    exact hframe

theorem slotOffset_succ (recordSize slot : ℕ) :
    slotOffset recordSize (slot + 1) = slotOffset recordSize slot + recordSize := by
  unfold slotOffset
  rw [Nat.succ_mul, Nat.add_assoc]

theorem slotOffset_mono (recordSize : ℕ) {slot other : ℕ} (h : slot ≤ other) :
    slotOffset recordSize slot ≤ slotOffset recordSize other :=
  Nat.add_le_add_left (Nat.mul_le_mul_right recordSize h) _

variable {recordSize : ℕ}

/-- A file with no records. -/
theorem ringFile_nil (h : recordSize ≤ b.sampleBytes) :
    RingFile b report recordSize [] (storeHeader b report recordSize) :=
  ⟨List.take_of_length_le (length_storeHeader b report recordSize).le, h, by simp, List.nodup_nil,
    0, Nat.zero_le _, by rw [length_storeHeader]; unfold slotOffset; omega, by simp, by simp⟩

/-- **A record is written**: it takes the place of the one that was in its slot. -/
theorem RingFile.write {present : List Sample} {file : List UInt8}
    (h : RingFile b report recordSize present file) {x : Sample} (hx : Framed report recordSize x) :
    RingFile b report recordSize
      (present.filter (fun y => slotOf b y.sequence ≠ slotOf b x.sequence) ++ [x])
      (putBytes file (slotOffset recordSize (slotOf b x.sequence)) (x.data.take recordSize)) := by
  obtain ⟨count, hcount, hlen, hlt, hregion⟩ := h.slots
  have hcap := b.storeCapacity_range.1
  have hslot : slotOf b x.sequence < b.storeCapacity := Nat.mod_lt _ (by omega)
  have hdata : (x.data.take recordSize).length = recordSize := by
    rw [List.length_take, Nat.min_eq_left hx.data_le]
  have hheader : 10 ≤ recordSize := hx.header_le
  obtain ⟨slot, hk⟩ : ∃ slot, slotOf b x.sequence = slot := ⟨_, rfl⟩
  rw [hk] at hslot ⊢
  have hput : putBytes file (slotOffset recordSize slot) (x.data.take recordSize) =
      splice 0 file (slotOffset recordSize slot) (x.data.take recordSize) := by
    unfold putBytes
    rw [if_neg]
    intro hnil
    rw [hnil] at hdata
    simp only [List.length_nil] at hdata
    omega
  rw [hput]
  have hfront : storeHeaderSize ≤ slotOffset recordSize slot := Nat.le_add_right _ _
  have hfind : ∀ other, slotRecord b recordSize
      (present.filter (fun y => slotOf b y.sequence ≠ slot) ++ [x]) other =
        if other = slot then x.data.take recordSize else slotRecord b recordSize present other := by
    intro other
    unfold slotRecord
    rw [List.find?_append, List.find?_filter]
    by_cases hother : other = slot
    · subst hother
      rw [if_pos rfl, List.find?_eq_none.2 (by simp)]
      simp [hk]
    · have hsame : (fun y : Sample => decide (decide (slotOf b y.sequence ≠ slot) = true ∧
          decide (slotOf b y.sequence = other) = true)) =
            fun y => decide (slotOf b y.sequence = other) := by
        funext y
        simp only [decide_eq_true_eq, decide_eq_decide]
        exact ⟨fun h => h.2, fun h => ⟨h ▸ hother, h⟩⟩
      rw [if_neg hother, hsame]
      have hlast : [x].find? (fun y => slotOf b y.sequence = other) = none := by
        simp [hk, Ne.symm hother]
      rw [hlast, Option.or_none]
  refine ⟨?_, h.size_le, fun y hy => ?_, ?_, max count (slot + 1), by omega, ?_, fun y hy => ?_, ?_⟩
  · have hin : 0 + storeHeaderSize ≤ file.length := by
      rw [hlen, Nat.zero_add]
      exact Nat.le_add_right _ _
    exact (region_splice_before 0 (x.data.take recordSize) hin
      (by rw [Nat.zero_add]; exact hfront)).trans h.header
  · rcases List.mem_append.1 hy with hy | hy
    · exact h.framed y (List.mem_of_mem_filter hy)
    · rw [List.mem_singleton.1 hy]
      exact hx
  · rw [List.map_append, List.map_singleton, hk]
    refine List.Nodup.append (h.nodup.sublist (List.filter_sublist.map _))
      (List.nodup_singleton _) ?_
    intro k hk' hkx
    obtain ⟨y, hy, rfl⟩ := List.mem_map.1 hk'
    exact of_decide_eq_true (List.mem_filter.1 hy).2 (List.mem_singleton.1 hkx)
  · rw [length_splice, hlen, hdata, ← slotOffset_succ]
    rcases Nat.le_total count (slot + 1) with hle | hle
    · rw [max_eq_right hle, max_eq_right (slotOffset_mono _ hle)]
    · rw [max_eq_left hle, max_eq_left (slotOffset_mono _ hle)]
  · rcases List.mem_append.1 hy with hy | hy
    · exact lt_of_lt_of_le (hlt y (List.mem_of_mem_filter hy)) (le_max_left _ _)
    · rw [List.mem_singleton.1 hy, hk]
      omega
  · intro other hother
    rw [hfind]
    split_ifs with heq
    · subst heq
      have hself := region_splice_self 0 file (slotOffset recordSize other) (x.data.take recordSize)
      rw [hdata] at hself
      exact hself
    · rcases Nat.lt_or_ge slot other with hbehind | hle
      · have hend := slotOffset_mono recordSize (Nat.succ_le_of_lt hbehind)
        rw [Nat.succ_eq_add_one, slotOffset_succ] at hend
        rw [region_splice_behind 0 file (by rw [hdata]; exact hend)]
        exact hregion other (by omega)
      · have hend := slotOffset_mono recordSize (show other + 1 ≤ slot by omega)
        rw [slotOffset_succ] at hend
        rcases Nat.lt_or_ge other count with hin | hout
        · have hin' := slotOffset_mono recordSize (Nat.succ_le_of_lt hin)
          rw [Nat.succ_eq_add_one, slotOffset_succ] at hin'
          rw [region_splice_before 0 _ (by rw [hlen]; exact hin') hend]
          exact hregion other hin
        · have hgap := region_splice_gap 0 (x.data.take recordSize)
            (show file.length ≤ slotOffset recordSize other by
              rw [hlen]; exact slotOffset_mono _ hout) hend
          rw [hgap]
          unfold slotRecord
          rw [List.find?_eq_none.2 fun y hy => ?_]
          have hlt' := hlt y hy
          rw [decide_eq_true_iff]
          omega

variable {written : List Sample}

/-- **Records are written**, one after the other. -/
theorem RingFile.writes (samples : List Sample)
    (hsamples : ∀ x ∈ samples, Framed report recordSize x) {file : List UInt8}
    (h : RingFile b report recordSize (latest (fun x => slotOf b x.sequence) written) file) :
    RingFile b report recordSize (latest (fun x => slotOf b x.sequence) (written ++ samples))
      (samples.foldl (fun file x => putBytes file (slotOffset recordSize (slotOf b x.sequence))
        (x.data.take recordSize)) file) := by
  induction samples generalizing written file with
  | nil =>
    rw [List.append_nil]
    exact h
  | cons x samples ih =>
    obtain ⟨hx, hrest⟩ := List.forall_mem_cons.1 hsamples
    rw [List.append_cons, List.foldl_cons]
    refine ih hrest ?_
    rw [latest_concat]
    exact h.write hx

/-! ### Histories -/

/-- The store of a report has just been configured. -/
structure Configured (report : UInt8) (d : Definition b) (n : Node b) : Prop where
  report_lt : report.toNat < b.reports
  definition : (n.state.reports report).definition = some d
  ring : ∃ items, Holds b.history (n.state.reports report).ring (n.state.reports report).held
    (n.state.reports report).nextSlot items
  isOpen : (n.state.stores report).isOpen = true
  interval : (n.state.stores report).interval.ms ≠ 0
  recordSize : (n.state.stores report).recordSize = d.recordSize
  pending : (n.state.stores report).pending = 0
  file : n.files report = some (storeHeader b report d.recordSize)

/-- **`set_store_impl` configures a store.** -/
theorem configured_setStore {s : State b} {storage : Storage} {intervalMs : UInt32}
    {mkdir : Option Errno} {io : WriteIo} {file : Option (List UInt8)}
    {files : UInt8 → Option (List UInt8)} (hd : (s.reports report).definition = some d)
    (hheld : HeldInv report (s.reports report)) (hinterval : intervalMs ≠ 0)
    (hset : (s.setStoreImpl storage report intervalMs).1 = none)
    (hcreated : createFile b mkdir io report d.recordSize file = (.returned none, files report)) :
    Configured report d ⟨(s.setStoreImpl storage report intervalMs).2, files⟩ := by
  unfold State.setStoreImpl at hset ⊢
  by_cases hreport : report.toNat ≥ b.reports
  · rw [if_pos hreport] at hset
    cases hset
  · rw [if_neg hreport, hd] at hset ⊢
    dsimp only at hset ⊢
    obtain ⟨items, hholds, -⟩ := hheld
    obtain ⟨interval, hms, hst⟩ := storeConfigure_none hinterval hset
    have hstore : (s.setStoreState report (storeConfigure storage intervalMs
        (s.reports report).period.ms d.recordSize (s.stores report)).2).stores report =
        ⟨interval, batchSize b intervalMs (s.reports report).period.ms, 0, d.recordSize, true⟩ :=
      (Function.update_self _ _ _).trans hst
    refine ⟨not_le.1 hreport, hd, ⟨items, hholds⟩, congrArg StoreState.isOpen hstore, ?_,
      congrArg StoreState.recordSize hstore, congrArg StoreState.pending hstore,
      createFile_none hcreated⟩
    have hinterval' := congrArg (fun st : StoreState b => st.interval.ms) hstore
    exact fun h0 => hinterval (hms.symm.trans (hinterval'.symm.trans h0))

/-- What goes on besides leaves the report, its store and its file as they are. -/
structure KeepsReport (report : UInt8) (n n' : Node b) : Prop where
  definition : (n'.state.reports report).definition = (n.state.reports report).definition
  ring : (n'.state.reports report).ring = (n.state.reports report).ring
  held : (n'.state.reports report).held = (n.state.reports report).held
  nextSlot : (n'.state.reports report).nextSlot = (n.state.reports report).nextSlot
  sequence : (n'.state.reports report).sequence = (n.state.reports report).sequence
  store : n'.state.stores report = n.state.stores report
  file : n'.files report = n.files report

/-- A flush that is not cut, and fails as a whole if it fails. -/
def WholeFlush (io : WriteIo) (report : UInt8) (s : State b) (file : Option (List UInt8)) : Prop :=
  ∃ result, (storeFlush io report s file).1 = .returned result ∧
    (result = none ∨ (storeFlush io report s file).2.2 = file)

/-- A flush that loses no sample: there is room for one more that is pending, and it does not fail
behind `fs_open`, which leaves those that are pending to the next one. -/
def KeepsPending (io : WriteIo) (report : UInt8) (s : State b) (file : Option (List UInt8)) :
    Prop :=
  (s.stores report).pending < b.history ∧
    ((storeFlush io report s file).1 = .returned none ∨ io.opened ≠ none)

/-- A collection of a report, with its flush, or anything else that goes on besides; a `strict` one
loses no sample.  The label is what is collected. -/
inductive StoredStep (strict : Prop) (report : UInt8) : Node b → List Sample → Node b → Prop
  | collect {n : Node b} {c : Collecting b} (io : WriteIo) (clock : Option UInt32) (reads : Reads)
      (hbegin : collectBegin report n.state = .ok c)
      (hwhole : WholeFlush io report (collectCommit c
        (collectReport c.definition c.sequence clock reads).1
        (collectReport c.definition c.sequence clock reads).2.failures n.state).2 (n.files report))
      (hkeeps : strict → KeepsPending io report (collectCommit c
        (collectReport c.definition c.sequence clock reads).1
        (collectReport c.definition c.sequence clock reads).2.failures n.state).2
        (n.files report)) :
      StoredStep strict report n
        [(collectReport c.definition c.sequence clock reads).1.stamp report]
        (collectStore io c (collectReport c.definition c.sequence clock reads).1
          (collectReport c.definition c.sequence clock reads).2.failures n).2
  | other {n n' : Node b} (h : KeepsReport report n n') : StoredStep strict report n [] n'

/-! ### The invariant -/

/-- What holds of a node along a history: what was collected are `old` samples and `recent` ones,
which are pending; some of the old ones were written. -/
structure StoredInv (report : UInt8) (d : Definition b) (first : UInt16)
    (old recent written : List Sample) (n : Node b) : Prop where
  definition : (n.state.reports report).definition = some d
  isOpen : (n.state.stores report).isOpen = true
  interval : (n.state.stores report).interval.ms ≠ 0
  recordSize : (n.state.stores report).recordSize = d.recordSize
  pending : (n.state.stores report).pending = recent.length
  ring : ∃ items, Holds b.history (n.state.reports report).ring (n.state.reports report).held
    (n.state.reports report).nextSlot items ∧ recent.reverse <+: items
  sequence : (n.state.reports report).sequence = first + UInt16.ofNat (old ++ recent).length
  numbered : ∀ i x, (old ++ recent)[i]? = some x → CollectedOf report d (first + UInt16.ofNat i) x
  sublist : written.Sublist old
  file : ∃ file, n.files report = some file ∧
    RingFile b report d.recordSize (latest (fun x => slotOf b x.sequence) written) file

variable {n : Node b}

theorem Configured.inv (h : Configured report d n) :
    StoredInv report d (n.state.reports report).sequence [] [] [] n := by
  obtain ⟨items, hholds⟩ := h.ring
  have hfits : d.recordSize ≤ b.sampleBytes := by
    have hle := d.fits
    unfold Definition.recordSize Definition.payloadBytes
    omega
  exact ⟨h.definition, h.isOpen, h.interval, h.recordSize, h.pending,
    ⟨items, hholds, List.nil_prefix⟩, (UInt16.add_zero _).symm, by simp, List.Sublist.refl _,
    _, h.file, ringFile_nil hfits⟩

/-- **What a flush does**: it leaves the samples pending, or it has written records. -/
theorem storeFlush_cases (io : WriteIo) {s : State b} (file : List UInt8)
    (hreport : report.toNat < b.reports) (hopen : (s.stores report).isOpen = true) :
    (∃ result, storeFlush io report s (some file) = (.returned result,
        { s.stores report with pending := min ((s.stores report).pending + 1) b.history },
        some file)) ∨
      ∃ ended bytes rest, io.opened = none ∧ flushRecords (s.stores report).recordSize
          (flushed report (min ((s.stores report).pending + 1) b.history) s) io.answers file =
            (ended, bytes, rest) ∧
        ∀ result, (storeFlush io report s (some file)).1 = .returned result →
          ∃ r, ended = .returned r ∧ result = r.or io.closed ∧
            storeFlush io report s (some file) =
              (.returned result, { s.stores report with pending := 0 }, some bytes) := by
  unfold storeFlush
  dsimp only
  rw [if_neg (by simp [hopen, hreport])]
  by_cases hdue : min ((s.stores report).pending + 1) b.history < (s.stores report).everyN
  · rw [if_pos hdue]
    exact Or.inl ⟨_, rfl⟩
  · rw [if_neg hdue]
    cases hopened : io.opened with
    | some e => exact Or.inl ⟨_, rfl⟩
    | none =>
      refine Or.inr ?_
      rcases hflush : flushRecords (s.stores report).recordSize
        (flushed report (min ((s.stores report).pending + 1) b.history) s) io.answers file with
        ⟨ended, bytes, rest⟩
      refine ⟨ended, bytes, rest, rfl, rfl, fun result hresult => ?_⟩
      dsimp only [openExisting] at hresult ⊢
      rw [hflush] at hresult ⊢
      cases ended with
      | cut => cases hresult
      | returned r =>
        dsimp only at hresult ⊢
        obtain rfl := Ended.returned.inj hresult
        exact ⟨r, rfl, rfl, rfl⟩

variable {first : UInt16} {old recent : List Sample}

/-- **What a flush is about** are the samples that are pending. -/
theorem flushed_eq (hreport : report.toNat < b.reports) {s : State b} {items : List Sample}
    (hholds : Holds b.history (s.reports report).ring (s.reports report).held
      (s.reports report).nextSlot items) (hrecent : recent.reverse <+: items)
    (hsequence : (s.reports report).sequence = first + UInt16.ofNat (old ++ recent).length)
    (hnumbered : ∀ i x, (old ++ recent)[i]? = some x → x.sequence = first + UInt16.ofNat i) :
    flushed report recent.length s = recent.map fun x => (slotOf b x.sequence, .ok x) := by
  refine List.ext_getElem? fun i => ?_
  unfold flushed
  rw [List.getElem?_map, List.getElem?_map]
  rcases Nat.lt_or_ge i recent.length with hi | hi
  · have hget := List.getElem?_eq_getElem hi
    rw [List.getElem?_range hi, hget]
    have hplace : (old ++ recent)[old.length + i]? = some recent[i] := by
      rw [List.getElem?_append_right (by omega), Nat.add_sub_cancel_left, hget]
    have hslot : (s.reports report).sequence - UInt16.ofNat recent.length + UInt16.ofNat i =
        recent[i].sequence := by
      rw [hsequence, hnumbered _ _ hplace, List.length_append, UInt16.ofNat_add, UInt16.ofNat_add]
      grind
    have hage : recent.reverse[recent.length - 1 - i]? = some recent[i] := by
      rw [List.getElem?_reverse (by omega), ← hget]
      congr 1
      omega
    have hitem : items[recent.length - 1 - i]? = some recent[i] := by
      obtain ⟨tail, rfl⟩ := hrecent
      rw [List.getElem?_append_left (by rw [List.length_reverse]; omega)]
      exact hage
    have hheld : ¬ recent.length - 1 - i ≥ (s.reports report).held := by
      have hlt := (List.getElem?_eq_some_iff.1 hitem).1
      rw [hholds.length] at hlt
      omega
    have hgot : get report (recent.length - 1 - i) s = .ok recent[i] := by
      unfold get
      dsimp only
      rw [if_neg (not_le.2 hreport), if_neg hheld, hholds.get _ _ hitem]
    exact congrArg some (Prod.ext (congrArg (slotOf b) hslot) hgot)
  · rw [List.getElem?_eq_none (by rw [List.length_range]; exact hi), List.getElem?_eq_none hi]
    rfl

/-- A sample is pushed: it is pending, and the oldest one no longer is where there is no room. -/
theorem StoredInv.push (h : StoredInv report d first old recent written n) {x : Sample}
    (order : UInt64) (hx : CollectedOf report d (n.state.reports report).sequence x) :
    ∃ old' recent', old' ++ recent' = old ++ recent ++ [x] ∧
      recent'.length = min (recent.length + 1) b.history ∧ old <+: old' ∧
      (recent.length < b.history → old' = old) ∧
      (∀ i y, (old' ++ recent')[i]? = some y → CollectedOf report d (first + UInt16.ofNat i) y) ∧
      ((n.state.reports report).push x order).sequence =
        first + UInt16.ofNat (old' ++ recent').length ∧
      ∃ items, Holds b.history ((n.state.reports report).push x order).ring
        ((n.state.reports report).push x order).held
        ((n.state.reports report).push x order).nextSlot items ∧ recent'.reverse <+: items := by
  obtain ⟨items, hholds, hrecent⟩ := h.ring
  have hpos := b.history_range.1
  have hle : recent.length ≤ b.history := by
    have hlen := hrecent.length_le
    rw [List.length_reverse, hholds.length] at hlen
    exact hlen.trans hholds.held_le
  refine ⟨old ++ (recent ++ [x]).take (recent.length + 1 - b.history),
    (recent ++ [x]).drop (recent.length + 1 - b.history), ?_, ?_, List.prefix_append _ _, ?_, ?_⟩
  · rw [List.append_assoc, List.take_append_drop, List.append_assoc]
  · rw [List.length_drop, List.length_append, List.length_singleton]
    omega
  · intro hlt
    rw [show recent.length + 1 - b.history = 0 by omega, List.take_zero, List.append_nil]
  · rw [List.append_assoc, List.take_append_drop, ← List.append_assoc]
    refine ⟨fun i y hy => ?_, ?_, _, hholds.push x, ?_⟩
    · rcases Nat.lt_or_ge i (old ++ recent).length with hi | hi
      · rw [List.getElem?_append_left hi] at hy
        exact h.numbered i y hy
      · have hlast : i = (old ++ recent).length := by
          have hlt := (List.getElem?_eq_some_iff.1 hy).1
          rw [List.length_append, List.length_singleton] at hlt
          omega
        subst hlast
        rw [List.getElem?_concat_length] at hy
        obtain rfl := Option.some.inj hy
        rw [← h.sequence]
        exact hx
    · show (n.state.reports report).sequence + 1 = _
      have hlength : (old ++ recent ++ [x]).length = (old ++ recent).length + 1 := by
        rw [List.length_append, List.length_singleton]
      rw [h.sequence, hlength, UInt16.ofNat_add, UInt16.add_assoc]
      rfl
    · have hreverse : ((recent ++ [x]).drop (recent.length + 1 - b.history)).reverse =
          (x :: recent.reverse).take b.history := by
        rw [List.reverse_drop, List.reverse_append, List.length_append, List.length_singleton]
        show (x :: recent.reverse).take _ = _
        rcases Nat.lt_or_ge recent.length b.history with hlt | hge
        · rw [show recent.length + 1 - b.history = 0 by omega,
            List.take_of_length_le (by simp), List.take_of_length_le (by simp; omega)]
        · congr 1
          omega
      rw [hreverse]
      exact List.IsPrefix.take (List.prefix_cons_inj x |>.2 hrecent) b.history

/-- **A collection that begins and ends** pushes its sample. -/
theorem collectCommit_begun {s : State b} {c : Collecting b} (h : collectBegin report s = .ok c)
    (sample : Sample) (failures : ℕ) :
    c.report = report ∧ c.sequence = (s.reports report).sequence ∧
      (s.reports report).definition = some c.definition ∧
      (collectCommit c sample failures s).1 = none ∧
      (∃ order, (collectCommit c sample failures s).2.reports report =
        (s.reports report).push (sample.stamp report) order) ∧
      (collectCommit c sample failures s).2.stores = s.stores := by
  unfold collectBegin at h
  split_ifs at h
  cases hd : (s.reports report).definition with
  | none =>
    rw [hd] at h
    cases h
  | some d =>
    rw [hd] at h
    obtain rfl := Except.ok.inj h
    unfold collectCommit
    dsimp only
    rw [if_neg (by rw [hd]; simp)]
    exact ⟨rfl, rfl, rfl, rfl, ⟨_, State.setReport_same s report _⟩, rfl⟩

/-- **A step keeps the invariant.** -/
theorem storedInv_step {strict : Prop} {e : List Sample} {n' : Node b}
    (hreport : report.toNat < b.reports) (h : StoredInv report d first old recent written n)
    (hwritten : strict → written = old) (hs : StoredStep strict report n e n') :
    ∃ old' recent' written', StoredInv report d first old' recent' written' n' ∧
      old' ++ recent' = old ++ recent ++ e ∧ (strict → written' = old') := by
  cases hs with
  | other hk =>
    obtain ⟨items, hholds, hrecent⟩ := h.ring
    obtain ⟨file, hfile, hring⟩ := h.file
    refine ⟨old, recent, written, ⟨hk.definition.trans h.definition, ?_, ?_, ?_, ?_, ⟨items, ?_,
      hrecent⟩, hk.sequence.trans h.sequence, h.numbered, h.sublist, file, hk.file.trans hfile,
      hring⟩, (List.append_nil _).symm, hwritten⟩
    · rw [hk.store]
      exact h.isOpen
    · rw [hk.store]
      exact h.interval
    · rw [hk.store]
      exact h.recordSize
    · rw [hk.store]
      exact h.pending
    · rw [hk.ring, hk.held, hk.nextSlot]
      exact hholds
  | @collect c io clock reads hbegin hwhole hkeeps =>
    obtain ⟨hcreport, hsequence, hd, hnone, ⟨order, hpushed⟩, hstores⟩ :=
      collectCommit_begun hbegin (collectReport c.definition c.sequence clock reads).1
        (collectReport c.definition c.sequence clock reads).2.failures
    rcases hcommit : collectCommit c (collectReport c.definition c.sequence clock reads).1
      (collectReport c.definition c.sequence clock reads).2.failures n.state with ⟨result, s⟩
    rw [hcommit] at hnone hpushed hstores
    obtain rfl : result = none := hnone
    dsimp only at hpushed hstores
    obtain rfl := Option.some.inj (h.definition.symm.trans hd)
    obtain ⟨file, hfile, hring⟩ := h.file
    have hcollected : CollectedOf report c.definition (n.state.reports report).sequence
        ((collectReport c.definition c.sequence clock reads).1.stamp report) :=
      ⟨clock, reads, by rw [hsequence]⟩
    obtain ⟨old', recent', hall, hlength, hold, hfree, hnumbered, hnext, items, hholds, hrecent⟩ :=
      h.push order hcollected
    rw [hcommit, hfile] at hwhole hkeeps
    have hpending : (s.stores report).pending = recent.length := by
      rw [hstores]
      exact h.pending
    rw [← hpushed] at hnext hholds
    have hflushed := flushed_eq hreport hholds hrecent hnext
      fun i x hx => (hnumbered i x hx).frame.2.2.1
    have hframed : ∀ x ∈ recent', Framed report c.definition.recordSize x := by
      intro x hx
      obtain ⟨i, hi, rfl⟩ := List.mem_iff_getElem.1 (List.mem_append_right old' hx)
      exact (hnumbered i _ (List.getElem?_eq_getElem hi)).framed
    have hmin : min ((s.stores report).pending + 1) b.history = recent'.length := by
      rw [hpending, hlength]
    have hsub : written.Sublist old' := h.sublist.trans hold.sublist
    -- the node, with the store and the file that the flush leaves
    have hmk : ∀ (pending : ℕ) (file' : List UInt8) (old'' recent'' written' : List Sample),
        pending = recent''.length → old'' ++ recent'' = old' ++ recent' →
        recent''.reverse <+: items → written'.Sublist old'' →
        RingFile b report c.definition.recordSize
          (latest (fun x => slotOf b x.sequence) written') file' →
        StoredInv report c.definition first old'' recent'' written'
          ⟨s.setStoreState report { s.stores report with pending := pending },
            Function.update n.files report (some file')⟩ := by
      intro pending file' old'' recent'' written' hlen heq hprefix hsublist hringFile
      have hst : ((s.setStoreState report { s.stores report with pending := pending }).stores
          report) = { s.stores report with pending := pending } := Function.update_self _ _ _
      have hstore := congrFun hstores report
      refine ⟨?_, ?_, ?_, ?_, ?_, ⟨items, hholds, hprefix⟩, ?_, ?_, hsublist, file',
        Function.update_self _ _ _, hringFile⟩
      · show (s.reports report).definition = _
        rw [hpushed]
        exact h.definition
      · refine (congrArg StoreState.isOpen hst).trans ?_
        show (s.stores report).isOpen = true
        rw [hstore]
        exact h.isOpen
      · have hms := congrArg (fun st : StoreState b => st.interval.ms) hst
        refine fun h0 => h.interval ?_
        rw [← hstore]
        exact hms.symm.trans h0
      · refine (congrArg StoreState.recordSize hst).trans ?_
        show (s.stores report).recordSize = _
        rw [hstore]
        exact h.recordSize
      · exact (congrArg StoreState.pending hst).trans hlen
      · rw [heq]
        exact hnext
      · rw [heq]
        exact hnumbered
    have hinterval : ¬ (s.stores c.report).interval.ms = 0 := by
      rw [hcreport, hstores]
      exact h.interval
    have hnode : (collectStore io c (collectReport c.definition c.sequence clock reads).1
        (collectReport c.definition c.sequence clock reads).2.failures n).2 =
          ⟨s.setStoreState report (storeFlush io report s (some file)).2.1,
            Function.update n.files report (storeFlush io report s (some file)).2.2⟩ := by
      unfold collectStore
      rw [hcommit]
      dsimp only
      rw [if_neg hinterval, hcreport, hfile]
    rw [hnode]
    obtain ⟨result, hreturned, hfailed⟩ := hwhole
    rcases storeFlush_cases io file hreport (by
        rw [hstores]
        exact h.isOpen) with ⟨result', hflush⟩ | ⟨ended, bytes, rest, hopened, hrecords, hend⟩
    · rw [hflush]
      refine ⟨old', recent', written, hmk _ file old' recent' written hmin rfl hrecent hsub hring,
        hall, fun hst => (hwritten hst).trans (hfree ?_).symm⟩
      rw [← hpending]
      exact (hkeeps hst).1
    · obtain ⟨r, rfl, hr, hflush⟩ := hend result hreturned
      rw [hflush] at hfailed ⊢
      by_cases hresult : result = none
      · subst hresult
        obtain ⟨rfl, -⟩ := Option.or_eq_none_iff.1 hr.symm
        rw [hmin, hflushed, hstores, h.recordSize] at hrecords
        have hbytes := flushRecords_none hrecords
        refine ⟨old' ++ recent', [], written ++ recent', hmk 0 bytes _ _ _ rfl (List.append_nil _)
          List.nil_prefix (hsub.append (List.Sublist.refl _)) ?_, by rw [List.append_nil, hall],
          fun hst => ?_⟩
        · rw [hbytes]
          exact hring.writes recent' hframed
        · rw [hwritten hst, hfree]
          rw [← hpending]
          exact (hkeeps hst).1
      · have hsame : bytes = file := Option.some.inj (hfailed.resolve_left hresult)
        subst hsame
        refine ⟨old' ++ recent', [], written, hmk 0 bytes _ _ _ rfl (List.append_nil _)
          List.nil_prefix (hsub.trans (List.sublist_append_left _ _)) hring,
          by rw [List.append_nil, hall], fun hst => ?_⟩
        rcases (hkeeps hst).2 with hok | hfail
        · rw [hflush] at hok
          exact absurd (Ended.returned.inj hok) hresult
        · exact absurd hopened hfail

/-- **A history keeps the invariant.** -/
theorem storedInv_run {strict : Prop} {n₀ : Node b} {collected : List (List Sample)}
    (h₀ : Configured report d n₀) (hr : Run (StoredStep strict report) n₀ collected n) :
    ∃ old recent written,
      StoredInv report d (n₀.state.reports report).sequence old recent written n ∧
        old ++ recent = collected.flatten ∧ (strict → written = old) := by
  refine hr.invariant (I := fun collected n => ∃ old recent written,
    StoredInv report d (n₀.state.reports report).sequence old recent written n ∧
      old ++ recent = collected.flatten ∧ (strict → written = old))
    ⟨[], [], [], h₀.inv, rfl, fun _ => rfl⟩ ?_
  rintro labels m e m' ⟨old, recent, written, hinv, hall, hwritten⟩ hs
  obtain ⟨old', recent', written', hinv', hall', hwritten'⟩ :=
    storedInv_step h₀.report_lt hinv hwritten hs
  refine ⟨old', recent', written', hinv', ?_, hwritten'⟩
  rw [hall', hall, List.flatten_append, List.flatten_singleton]

/-! ### Reading back -/

/-- Sequences that count up from any one are consecutive. -/
theorem consecutive_of_get {sequences : List UInt16} {q : UInt16}
    (h : ∀ i r, sequences[i]? = some r → r = q + UInt16.ofNat i) : Consecutive sequences := by
  unfold Consecutive
  have hhead : sequences ≠ [] → sequences.headD 0 = q := by
    intro hne
    obtain ⟨r, rest, rfl⟩ := List.exists_cons_of_ne_nil hne
    exact (h 0 r rfl).trans (UInt16.add_zero q)
  refine List.ext_getElem? fun i => ?_
  rcases Nat.lt_or_ge i sequences.length with hi | hi
  · have hget := List.getElem?_eq_getElem hi
    rw [List.getElem?_map, List.getElem?_range hi, hget, h i _ hget,
      hhead (List.ne_nil_of_length_pos (by omega))]
    rfl
  · rw [List.getElem?_eq_none hi, List.getElem?_eq_none (by simpa using hi)]

/-- The last records of a history without losses, or wraps that shift the slots. -/
theorem consecutive_latest
    (hsequence : ∀ i x, written[i]? = some x → x.sequence = first + UInt16.ofNat i)
    (hwrap : b.storeCapacity ∣ 2 ^ 16 ∨ first.toNat + written.length ≤ 2 ^ 16) :
    Consecutive ((latest (fun x => slotOf b x.sequence) written).map Sample.sequence) := by
  have hcap := b.storeCapacity_range.1
  have hslot : ∀ i x, written[i]? = some x →
      slotOf b x.sequence = (first.toNat + i) % b.storeCapacity := by
    intro i x hx
    have hi := (List.getElem?_eq_some_iff.1 hx).1
    unfold slotOf
    rw [hsequence i x hx, UInt16.toNat_add, UInt16.toNat_ofNat', Nat.add_mod_mod]
    rcases hwrap with hdvd | hle
    · exact Nat.mod_mod_of_dvd _ hdvd
    · rw [Nat.mod_eq_of_lt (show first.toNat + i < 2 ^ 16 by omega)]
  rw [latest_ring (by omega) hslot]
  refine consecutive_of_get (q := first + UInt16.ofNat (written.length - b.storeCapacity))
    fun i r hr => ?_
  rw [List.getElem?_map, List.getElem?_drop] at hr
  obtain ⟨x, hx, rfl⟩ := Option.map_eq_some_iff.1 hr
  rw [hsequence _ x hx, UInt16.ofNat_add, UInt16.add_assoc]

/-- Zeros behind the bytes of a record stay, where nothing is written. -/
theorem zeros_splice {total : ℕ} {data bytes : List UInt8} {offset : ℕ} (hlen : data.length = total)
    (hzero : region data recordSize (total - recordSize) = List.replicate (total - recordSize) 0)
    (hle : offset + bytes.length ≤ recordSize) (hrecord : recordSize ≤ total) :
    (splice 0 data offset bytes).length = total ∧
      region (splice 0 data offset bytes) recordSize (total - recordSize) =
        List.replicate (total - recordSize) 0 := by
  rw [length_splice, hlen, region_splice_behind 0 data hle]
  exact ⟨by omega, hzero⟩

/-- **A sample whose values fit** is read as it was collected. -/
theorem filed_collected {sequence : UInt16} {clock : Option UInt32} {reads : Reads}
    (hfits : ∀ w ∈ (collectEntries d reads).writes, w.Fits d) :
    ((collectReport d sequence clock reads).1.stamp report).filed b =
      (collectReport d sequence clock reads).1.stamp report := by
  have hrecord : d.recordSize ≤ b.sampleBytes := by
    have hle := d.fits
    unfold Definition.recordSize Definition.payloadBytes
    omega
  have hheader : 10 ≤ d.recordSize := Nat.le_add_right _ _
  have hin : ∀ w ∈ (collectEntries d reads).writes, w.offset + w.bytes.length ≤ d.recordSize := by
    intro w hw
    obtain ⟨field, value, hfield, hoffset, -⟩ := (collectEntries_spec d reads).1 w hw
    have hwidth := hfits w hw field hfield
    have hbound := (d.laid.bounds.1 field (List.mem_of_getElem? hfield)).2
    have hsize : d.recordSize = headerSize + payload d.fields := rfl
    omega
  have hwrites : ∀ (ws : List Write) (data : List UInt8),
      (∀ w ∈ ws, w.offset + w.bytes.length ≤ d.recordSize) → data.length = b.sampleBytes →
      region data d.recordSize (b.sampleBytes - d.recordSize) =
        List.replicate (b.sampleBytes - d.recordSize) 0 →
      (ws.foldl (fun data w => splice 0 data w.offset w.bytes) data).length = b.sampleBytes ∧
        region (ws.foldl (fun data w => splice 0 data w.offset w.bytes) data) d.recordSize
          (b.sampleBytes - d.recordSize) = List.replicate (b.sampleBytes - d.recordSize) 0 := by
    intro ws
    induction ws with
    | nil => exact fun data _ hlen hzero => ⟨hlen, hzero⟩
    | cons w ws ih =>
      intro data hws hlen hzero
      obtain ⟨hw, hrest⟩ := List.forall_mem_cons.1 hws
      obtain ⟨hlen', hzero'⟩ := zeros_splice hlen hzero hw hrecord
      exact ih _ hrest hlen' hzero'
  obtain ⟨hlen, hzero⟩ := hwrites _ (List.replicate b.sampleBytes 0) hin List.length_replicate (by
    rw [region, List.drop_replicate, List.take_replicate, Nat.min_self])
  have hversion := zeros_splice hlen hzero
    (show 0 + [protocolVersion].length ≤ d.recordSize from Nat.le_trans (by decide) hheader) hrecord
  have hfields := zeros_splice hversion.1 hversion.2
    (show 2 + (putBe16 sequence ++ (putBe32 (clock.getD 0) ++ [d.entryCount,
      (if clock.isSome then 0 else flagClockUnset) |||
        (if (collectEntries d reads).error.isSome then flagIncomplete else 0)])).length ≤
          d.recordSize by
      simp only [List.length_append, length_putBe16, length_putBe32, List.length_cons,
        List.length_nil]
      omega) hrecord
  obtain ⟨hlen', hzero'⟩ := zeros_splice hfields.1 hfields.2
    (show 1 + [report].length ≤ d.recordSize by
      rw [List.length_singleton]
      omega) hrecord
  have htail : ((collectReport d sequence clock reads).1.stamp report).data.drop d.recordSize =
      List.replicate (b.sampleBytes - d.recordSize) 0 := by
    rw [← hzero', region, List.take_of_length_le]
    · rfl
    · rw [List.length_drop, hlen']
  have hdata : ((collectReport d sequence clock reads).1.stamp report).data.take d.recordSize ++
      List.replicate (b.sampleBytes - d.recordSize) 0 =
        ((collectReport d sequence clock reads).1.stamp report).data := by
    rw [← htail, List.take_append_drop]
  exact congrArg (fun data =>
    { (collectReport d sequence clock reads).1.stamp report with data := data }) hdata

/-- **When the store reads back.**  Along every history of a report with a store, with flushes that
fail as a whole or not at all: the file holds some of the samples that were collected, in their
order, and reads back as these if and only if their sequences are consecutive.  Where no flush loses
a sample and the capacity divides 65536, or no sequence wraps, it reads back at every moment.  What
is read is the sample that was collected, if its values are as wide as their entries. -/
theorem store_readsBack {report : UInt8} {d : Definition b} {n₀ : Node b}
    (h₀ : Configured report d n₀) (collected : List (List Sample)) (n : Node b) :
    (Run (StoredStep False report) n₀ collected n → ∃ present file, n.files report = some file ∧
        RingFile b report d.recordSize present file ∧ present.Sublist collected.flatten ∧
        (ReadsBack report n.state (n.files report) present ↔
          Consecutive (present.map Sample.sequence))) ∧
    (Run (StoredStep True report) n₀ collected n →
      (b.storeCapacity ∣ 2 ^ 16 ∨ (n₀.state.reports report).sequence.toNat +
        collected.flatten.length ≤ 2 ^ 16) → ∃ present file, n.files report = some file ∧
        RingFile b report d.recordSize present file ∧ present.Sublist collected.flatten ∧
        ReadsBack report n.state (n.files report) present) ∧
    ∀ (sequence : UInt16) (clock : Option UInt32) (reads : Reads),
      (∀ w ∈ (collectEntries d reads).writes, w.Fits d) →
        ((collectReport d sequence clock reads).1.stamp report).filed b =
          (collectReport d sequence clock reads).1.stamp report := by
  have hheader : headerSize ≤ d.recordSize := Nat.le_add_right _ _
  refine ⟨?_, ?_, fun _ _ _ hfits => filed_collected hfits⟩
  · intro hr
    obtain ⟨old, recent, written, hinv, hall, -⟩ := storedInv_run h₀ hr
    obtain ⟨file, hfile, hring⟩ := hinv.file
    refine ⟨_, file, hfile, hring, ?_, ?_⟩
    · rw [← hall]
      exact ((latest_sublist written).trans hinv.sublist).trans (List.sublist_append_left _ _)
    · rw [hfile]
      exact hring.readsBack_iff hheader h₀.report_lt n.state
  · intro hr hwrap
    obtain ⟨old, recent, written, hinv, hall, hwritten⟩ := storedInv_run h₀ hr
    obtain rfl := hwritten trivial
    obtain ⟨file, hfile, hring⟩ := hinv.file
    refine ⟨_, file, hfile, hring, ?_, ?_⟩
    · rw [← hall]
      exact (latest_sublist written).trans (List.sublist_append_left _ _)
    · rw [hfile]
      refine (hring.readsBack_iff hheader h₀.report_lt n.state).2 (consecutive_latest
        (fun i x hx => (hinv.numbered i x (by
          rw [List.getElem?_append_left (List.getElem?_eq_some_iff.1 hx).1, hx])).frame.2.2.1) ?_)
      refine hwrap.imp_right fun hle => ?_
      rw [← hall, List.length_append] at hle
      omega

/-! ### A flush that fails -/

/-- A report of a byte that is collected without a value, with a store of eight slots that is
written at each collection. -/
def ringNode : Node smallBuild :=
  ⟨(byteState.setStoreImpl ⟨true, .ok 4096, none⟩ 0 1000).2,
    fun _ => some (storeHeader smallBuild 0 11)⟩

/-- A collection of it that begins, and the sample of it. -/
def ringCollecting (sequence : UInt16) : Collecting smallBuild :=
  ⟨0, byteDefinition ⟨0, 256⟩, sequence, 1⟩

def ringReport (sequence : UInt16) :=
  collectReport (byteDefinition ⟨0, 256⟩) sequence none goneReads

def ringCollect (answers : List Answer) (sequence : UInt16) (n : Node smallBuild) :
    Node smallBuild :=
  (collectStore ⟨none, answers, none⟩ (ringCollecting sequence) (ringReport sequence).1
    (ringReport sequence).2.failures n).2

def ringCommitted (sequence : UInt16) (n : Node smallBuild) : State smallBuild :=
  (collectCommit (ringCollecting sequence) (ringReport sequence).1 (ringReport sequence).2.failures
    n.state).2

theorem ringNode_configured : Configured 0 (byteDefinition ⟨0, 256⟩) ringNode := by
  have hcreated : createFile smallBuild none ⟨none, [.done 0, .done 12], none⟩ 0 11 none =
      (.returned none, some (storeHeader smallBuild 0 11)) := by decide +kernel
  exact configured_setStore rfl (heldInv_empty rfl rfl) (by decide) (by decide) hcreated

/-- Its flush writes, or it fails in the first write. -/
def ringWritten : List Answer := [.done 0, .done 11]

def ringFailed : List Answer := [.fails Errno.EIO 0]

theorem ringStep {strict : Prop} {answers : List Answer} {sequence : UInt16} {n : Node smallBuild}
    (hbegin : collectBegin 0 n.state = .ok (ringCollecting sequence))
    (hwhole : WholeFlush ⟨none, answers, none⟩ 0 (ringCommitted sequence n) (n.files 0))
    (hkeeps : strict → KeepsPending ⟨none, answers, none⟩ 0 (ringCommitted sequence n) (n.files 0)) :
    StoredStep strict 0 n [(ringReport sequence).1.stamp 0] (ringCollect answers sequence n) :=
  .collect _ none goneReads hbegin hwhole hkeeps

/-- Some collections, each of which is written. -/
def ringFilled : ℕ → Node smallBuild
  | 0 => ringNode
  | k + 1 => ringCollect ringWritten (UInt16.ofNat k) (ringFilled k)

theorem ringFilled_run (k : ℕ) (hk : k ≤ 9) :
    ∃ collected, Run (StoredStep True 0) ringNode collected (ringFilled k) := by
  induction k with
  | zero => exact ⟨[], .nil _⟩
  | succ k ih =>
    obtain ⟨collected, hrun⟩ := ih (by omega)
    have hstep : ∃ samples, StoredStep True 0 (ringFilled k) samples (ringFilled (k + 1)) := by
      have hcases : k = 0 ∨ k = 1 ∨ k = 2 ∨ k = 3 ∨ k = 4 ∨ k = 5 ∨ k = 6 ∨ k = 7 ∨ k = 8 := by
        omega
      rcases hcases with rfl | rfl | rfl | rfl | rfl | rfl | rfl | rfl | rfl <;>
        exact ⟨_, ringStep rfl ⟨none, rfl, Or.inl rfl⟩ fun _ => ⟨by decide, Or.inl rfl⟩⟩
    obtain ⟨samples, hstep⟩ := hstep
    exact ⟨_, hrun.snoc hstep⟩

/-- Nine samples are collected and written to eight slots: the last eight are read back. -/
theorem store_readsBack_full : ∃ present, present.length = 8 ∧
    ReadsBack 0 (ringFilled 9).state ((ringFilled 9).files 0) present := by
  obtain ⟨collected, hrun⟩ := ringFilled_run 9 le_rfl
  obtain ⟨present, file, -, -, -, hback⟩ :=
    (store_readsBack ringNode_configured collected (ringFilled 9)).2.1 hrun (Or.inl (by decide))
  obtain ⟨info, hinfo, -, hlength, -⟩ := hback.query
  have hquery : storeQuery .working 0 (ringFilled 9).state ((ringFilled 9).files 0) =
      .ok ⟨11, 8, 8, 1, 8, 1000⟩ := by decide +kernel
  obtain rfl := Except.ok.inj (hinfo.symm.trans hquery)
  exact ⟨present, hlength.symm, hback⟩

/-- Of three samples the second is lost in a flush that fails: there are two records, and a walk
visits one of them. -/
theorem store_gap :
    ¬ ∀ (report : UInt8) (d : Definition smallBuild) (n₀ n : Node smallBuild)
      (collected : List (List Sample)), Configured report d n₀ →
        Run (StoredStep False report) n₀ collected n →
          ∀ info matched, storeQuery .working report n.state (n.files report) = .ok info →
            storeCount smallBuild .working (Filter.zeroed report) (n.files report) = .ok matched →
              matched = info.records := by
  intro h
  have hfirst : StoredStep False 0 ringNode _ (ringCollect ringWritten 0 ringNode) :=
    ringStep rfl ⟨none, rfl, Or.inl rfl⟩ False.elim
  have hsecond : StoredStep False 0 _ _
      (ringCollect ringFailed 1 (ringCollect ringWritten 0 ringNode)) :=
    ringStep rfl ⟨some Errno.EIO, rfl, Or.inr rfl⟩ False.elim
  have hthird : StoredStep False 0 _ _
      (ringCollect ringWritten 2 (ringCollect ringFailed 1 (ringCollect ringWritten 0 ringNode))) :=
    ringStep rfl ⟨none, rfl, Or.inl rfl⟩ False.elim
  have hrecords := h 0 _ _ _ _ ringNode_configured (((Run.single hfirst).snoc hsecond).snoc hthird)
    ⟨11, 8, 2, 1, 2, 1000⟩ 1 (by decide +kernel) (by decide +kernel)
  exact absurd hrecords (by decide)

end KfswServices.Hk
