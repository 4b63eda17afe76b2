/-
# The ring in memory and the ring in the file

What `struct kfsw_journal_store` says of the journal file: `held` counts the slots that hold a
record, `next_sequence` is one more than the largest sequence, and the ages are the records, newest
first (`Store.Represents`).  An open establishes this for every file it accepts.

An append that returns 0 keeps it, unless a record can be read afterwards that could not before
(`ring_representation_iff`): one with an earlier sequence may go to a slot behind the end of a file
that was cut short, and the zeros in between may be what was missing from a record
(`gap_completes_record`).  That the source of an event is one that `decode` knows is not checked by
`kfsw_journal_store_append`; its caller hands over events that `kfsw_journal_submit` has checked.
-/

import KfswServices.Journal.Reopen
import KfswServices.Journal.Reset

namespace KfswServices.Journal

open Library

/-! ### What the store says -/

/-- One more than the largest sequence of a record, or 1. -/
def IsNext (cfg : Config) (bytes : List UInt8) (n : ℕ) : Prop :=
  (n = 1 ∧ ∀ i, recordAt cfg bytes i = none) ∨
    ∃ i r, recordAt cfg bytes i = some r ∧ n = r.sequence + 1 ∧
      ∀ j q, recordAt cfg bytes j = some q → q.sequence ≤ r.sequence

/-- **The store represents the file.**  The records that the ages select are those in the slots,
each once, in descending order of their sequences. -/
structure Store.Represents (cfg : Config) (bytes : List UInt8) (s : Store) : Prop where
  held : s.held = (List.range cfg.capacity).countP fun i => (recordAt cfg bytes i).isSome
  next : IsNext cfg bytes s.nextSequence
  get : ∃ rs : List Record, rs.Pairwise (fun a b => b.sequence < a.sequence) ∧
    (∀ r, r ∈ rs ↔ ∃ i, recordAt cfg bytes i = some r) ∧
    (List.range s.held).map (storeGet cfg (.working cfg) (.file bytes) s) = rs.map .ok

variable {cfg : Config} {bytes : List UInt8} {s : Store} {r : Record}

theorem Store.Matches.isNext (h : s.Matches cfg bytes) : IsNext cfg bytes s.nextSequence := by
  have hlt : ∀ j q, recordAt cfg bytes j = some q → q.sequence < s.nextSequence := fun j q hq =>
    h.next_gt j (slot_lt_of_recordAt hq) q hq
  rcases h.next_reached with h1 | ⟨i, -, q, hq, hnext⟩
  · refine .inl ⟨h1, fun i => ?_⟩
    by_contra hne
    obtain ⟨q, hq⟩ := Option.ne_none_iff_exists'.1 hne
    have hpos := (of_recordAt hq).1.1
    have := hlt i q hq
    omega
  · refine .inr ⟨i, q, hq, hnext, fun j p hp => ?_⟩
    have := hlt j p hp
    omega

theorem Store.Matches.held_countP (h : s.Matches cfg bytes) :
    s.held = (List.range cfg.capacity).countP fun i => (recordAt cfg bytes i).isSome := by
  rw [h.held_eq, newestFirst, List.length_mergeSort, List.length_filterMap_eq_countP]

/-- A store that describes the file, and is ready, represents it. -/
theorem Store.Matches.represents (h : s.Matches cfg bytes) (hready : s.ready = true) :
    s.Represents cfg bytes := by
  refine ⟨h.held_countP, h.isNext, newestFirst cfg bytes, pairwise_newestFirst cfg bytes,
    fun _ => mem_newestFirst, ?_⟩
  refine List.ext_getElem (by simp [h.held_eq]) fun age hage hage' => ?_
  have hlt : age < (newestFirst cfg bytes).length := by simpa using hage'
  simp only [List.getElem_map, List.getElem_range]
  rw [storeGet_working h hready, List.getElem?_eq_getElem hlt]

/-! ### An append -/

/-- The file with zeros behind its end, as far as the slot. -/
def padTo (bytes : List UInt8) (slot : ℕ) : List UInt8 :=
  bytes ++ List.replicate (slotOffset slot - bytes.length) 0

/-- **An append that keeps the ring whole**: no zeros that it leaves in front of its slot complete a
record that was cut short. -/
def Seamless (cfg : Config) (bytes : List UInt8) (r : Record) : Prop :=
  ∀ i, recordAt cfg (padTo bytes (cfg.slotOf r.sequence)) i = recordAt cfg bytes i

/-- What is known of a record whose append returned 0. -/
structure Appends (cfg : Config) (s : Store) (r : Record) : Prop where
  ready : s.ready = true
  numbered : r.Numbered
  valid : r.event.Valid
  stale : s.sequences.getD (cfg.slotOf r.sequence) 0 ≤ r.sequence

theorem storeAppend_ok {env : FsEnv cfg} {entry : Entry} {p : Record} (hpos : 0 < s.nextSequence)
    (hnext : s.nextSequence ≤ uint64Max) (hvalid : p.event.Valid) (hboot : p.boot ≤ uint64Max)
    (h : (storeAppend cfg env entry s p).result = none) :
    ∃ bytes, entry = .file bytes ∧ Appends cfg s (s.number p) ∧
      (storeAppend cfg env entry s p).record = s.number p ∧ (storeAppend cfg env entry s p).entry =
        .file (writeSlot bytes (cfg.slotOf (s.number p).sequence) (encode (s.number p))) ∧
      (storeAppend cfg env entry s p).store =
        s.append (cfg.slotOf (s.number p).sequence) (s.number p) := by
  obtain ⟨hevent, hb⟩ := number_event s p
  rcases storeAppend_cases cfg env entry s p with ⟨e, r', -, heq⟩ |
      ⟨hready, hb0, hbmax, hmax, hle, hstale, heq⟩
  · rw [heq] at h
    cases h
  · rw [heq] at h ⊢
    rcases writeRecord_cases cfg env entry s (s.number p) with ⟨e, heq⟩ |
        ⟨bytes, rfl, ⟨e, left, -, heq⟩ | heq⟩
    · rw [heq] at h
      cases h
    · rw [heq] at h
      cases h
    · rw [heq]
      refine ⟨bytes, rfl, ⟨hready, ⟨?_, by omega, by rw [hb]; exact hb0, ?_⟩, hevent ▸ hvalid,
        hstale⟩, rfl, rfl, rfl⟩
      · unfold Store.number
        split_ifs with hzero
        · exact hpos.ne'
        · exact hzero
      · rw [hb]
        omega

theorem padTo_of_le {slot : ℕ} (h : slotOffset slot ≤ bytes.length) : padTo bytes slot = bytes := by
  rw [padTo, Nat.sub_eq_zero_of_le h, List.replicate_zero, List.append_nil]

theorem length_padTo (bytes : List UInt8) (slot : ℕ) :
    (padTo bytes slot).length = max bytes.length (slotOffset slot) := by
  rw [padTo, List.length_append, List.length_replicate]
  omega

/-- Another slot is as the zeros leave it. -/
theorem slotBytes_writeSlot_pad {slot i : ℕ} {data : List UInt8} (hdata : data.length ≤ recordSize)
    (hne : i ≠ slot) :
    slotBytes (writeSlot bytes slot data) i = slotBytes (padTo bytes slot) i := by
  rcases Nat.le_total (slotOffset slot) bytes.length with hle | hle
  · rw [padTo_of_le hle]
    exact slotBytes_writeSlot_ne (.inl hle) hdata hne
  rcases Nat.lt_or_gt_of_ne hne with h | h
  · have hbefore : slotOffset i + recordSize ≤ slotOffset slot := by
      have : (i + 1) * recordSize ≤ slot * recordSize := Nat.mul_le_mul_right _ h
      unfold slotOffset
      simp only [recordSize] at *
      omega
    have hlen := length_padTo bytes slot
    unfold slotBytes writeSlot region splice
    rw [List.take_of_length_le hle, ← List.append_assoc, ← padTo,
      List.drop_append_of_le_length (by omega),
      List.take_append_of_le_length (by rw [List.length_drop]; omega)]
  · have hbehind : slotOffset slot + data.length ≤ slotOffset i := by
      have : (slot + 1) * recordSize ≤ i * recordSize := Nat.mul_le_mul_right _ h
      unfold slotOffset
      simp only [recordSize] at *
      omega
    have hlen := length_padTo bytes slot
    unfold slotBytes writeSlot
    rw [region_splice_behind 0 bytes hbehind, region, region, List.drop_eq_nil_of_le (by omega),
      List.drop_eq_nil_of_le (by omega)]

/-- The zeros take no record away. -/
theorem recordAt_padTo {slot i : ℕ} {q : Record} (h : recordAt cfg bytes i = some q) :
    recordAt cfg (padTo bytes slot) i = some q := by
  have hend := (of_recordAt h).2.2
  have hsame : slotBytes (padTo bytes slot) i = slotBytes bytes i := by
    unfold slotBytes padTo region
    rw [List.drop_append_of_le_length (by omega),
      List.take_append_of_le_length (by rw [List.length_drop]; omega)]
  rw [recordAt_congr hsame, h]

/-- They leave nothing in the slot itself. -/
theorem recordAt_padTo_self (cfg : Config) (bytes : List UInt8) (slot : ℕ) :
    recordAt cfg (padTo bytes slot) slot = recordAt cfg bytes slot := by
  rcases Nat.le_total (slotOffset slot) bytes.length with hle | hle
  · rw [padTo_of_le hle]
  · have hlen := length_padTo bytes slot
    refine recordAt_congr ?_
    unfold slotBytes region
    rw [List.drop_eq_nil_of_le (by omega), List.drop_eq_nil_of_le (by omega)]

/-- More of a list has a property. -/
theorem countP_lt_countP {α : Type*} {p q : α → Bool} {l : List α} {a : α}
    (h : ∀ x ∈ l, p x = true → q x = true) (ha : a ∈ l) (hp : p a = false) (hq : q a = true) :
    l.countP p < l.countP q := by
  induction l with
  | nil => cases ha
  | cons x l ih =>
    have hrest : ∀ x ∈ l, p x = true → q x = true := fun x hx => h x (List.mem_cons_of_mem _ hx)
    have hle : l.countP p ≤ l.countP q := List.countP_mono_left hrest
    rw [List.countP_cons, List.countP_cons]
    rcases List.mem_cons.1 ha with rfl | ha
    · rw [hp, hq]
      simp only [Bool.false_eq_true, if_false, if_true]
      omega
    · have hlt := ih hrest ha
      have hx := h x List.mem_cons_self
      cases hpx : p x with
      | false => simp only [Bool.false_eq_true, if_false]; omega
      | true => rw [hx hpx]; omega

/-- **A seamless append** is described by the store afterwards. -/
theorem Store.Matches.append_seamless (h : s.Matches cfg bytes) (ha : Appends cfg s r)
    (hr : Seamless cfg bytes r) : (s.append (cfg.slotOf r.sequence) r).Matches cfg
      (writeSlot bytes (cfg.slotOf r.sequence) (encode r)) := by
  refine h.append_others ha.numbered ha.stale
    (recordAt_writeSlot_self bytes ha.valid ha.numbered) fun i hi => ?_
  rw [recordAt_congr (slotBytes_writeSlot_pad (length_encode ha.valid.2.2.2).le hi), hr]

/-- **An append after which the count is right** has completed no other record. -/
theorem seamless_of_held (h : s.Matches cfg bytes) (ha : Appends cfg s r)
    (hheld : (s.append (cfg.slotOf r.sequence) r).held = (List.range cfg.capacity).countP fun i =>
      (recordAt cfg (writeSlot bytes (cfg.slotOf r.sequence) (encode r)) i).isSome) :
    Seamless cfg bytes r := by
  intro i
  set slot := cfg.slotOf r.sequence with hslot
  have hself : recordAt cfg (writeSlot bytes slot (encode r)) slot = some r :=
    recordAt_writeSlot_self bytes ha.valid ha.numbered
  have hother : ∀ j, j ≠ slot → recordAt cfg (writeSlot bytes slot (encode r)) j =
      recordAt cfg (padTo bytes slot) j := fun j hj =>
    recordAt_congr (slotBytes_writeSlot_pad (length_encode ha.valid.2.2.2).le hj)
  have hsl : slot < cfg.capacity := slot_lt_of_recordAt hself
  by_contra hne
  have hi : i ≠ slot := by
    rintro rfl
    exact hne (recordAt_padTo_self cfg bytes slot)
  -- slot `i` held no record, and now does
  have hnone : recordAt cfg bytes i = none := by
    by_contra hsome
    obtain ⟨q, hq⟩ := Option.ne_none_iff_exists'.1 hsome
    exact hne (by rw [recordAt_padTo hq, hq])
  obtain ⟨q, hq⟩ : ∃ q, recordAt cfg (padTo bytes slot) i = some q :=
    Option.ne_none_iff_exists'.1 fun hno => hne (by rw [hno, hnone])
  have hmore : (List.range cfg.capacity).countP
        (fun j => (recordAt cfg bytes j).isSome || decide (j = slot)) <
      (List.range cfg.capacity).countP fun j =>
        (recordAt cfg (writeSlot bytes slot (encode r)) j).isSome := by
    refine countP_lt_countP (a := i) (fun j _ hj => ?_) (List.mem_range.2 (slot_lt_of_recordAt hq))
      ?_ ?_
    · by_cases hjs : j = slot
      · rw [hjs, hself]
        rfl
      · rw [hother j hjs]
        obtain ⟨p, hp⟩ := Option.isSome_iff_exists.1 (by simpa [hjs] using hj)
        rw [recordAt_padTo hp]
        rfl
    · simp [hnone, hi]
    · rw [hother i hi, hq]
      rfl
  have hle : (s.append slot r).held ≤ (List.range cfg.capacity).countP
      (fun j => (recordAt cfg bytes j).isSome || decide (j = slot)) := by
    show (if s.sequences.getD slot 0 = 0 then s.held + 1 else s.held) ≤ _
    rw [h.held_countP, h.getD hsl]
    split_ifs with hzero
    · have hempty := sequenceAt_eq_zero.1 hzero
      refine countP_lt_countP (a := slot) (fun j _ hj => ?_) (List.mem_range.2 hsl) ?_ ?_
      · rw [hj]
        rfl
      · rw [hempty]
        rfl
      · simp
    · refine List.countP_mono_left fun j _ hj => ?_
      rw [hj]
      rfl
  omega

/-! ### A run of appends -/

/-- What is at the path, and the store. -/
structure Ring where
  entry : Entry
  store : Store

/-- The store represents what is at the path. -/
def Ring.Represented (cfg : Config) (d : Ring) : Prop :=
  ∃ bytes, d.entry = .file bytes ∧ d.store.Represents cfg bytes

/-- A successful `kfsw_journal_store_append` of what its caller hands over; the record that it
wrote. -/
inductive AppendStep (cfg : Config) : Ring → Record → Ring → Prop
  | append {d : Ring} (env : FsEnv cfg) (r : Handed)
      (hok : (storeAppend cfg env d.entry d.store r.1).result = none) :
      AppendStep cfg d (storeAppend cfg env d.entry d.store r.1).record
        ⟨(storeAppend cfg env d.entry d.store r.1).entry,
          (storeAppend cfg env d.entry d.store r.1).store⟩

/-- A successful append that keeps the ring whole. -/
def SeamlessStep (cfg : Config) (d : Ring) (r : Record) (d' : Ring) : Prop :=
  AppendStep cfg d r d' ∧ Seamless cfg d.entry.contents r

/-- The store is ready, and describes what is at the path. -/
def Ring.Whole (cfg : Config) (d : Ring) : Prop :=
  d.store.ready = true ∧ ∃ bytes, d.entry = .file bytes ∧ d.store.Matches cfg bytes

theorem Ring.Whole.represented {d : Ring} (h : d.Whole cfg) : d.Represented cfg := by
  obtain ⟨hready, bytes, hentry, hm⟩ := h
  exact ⟨bytes, hentry, hm.represents hready⟩

/-- **What a successful append does**, to a ring that was whole. -/
theorem AppendStep.spec {d d' : Ring} (h : AppendStep cfg d r d') (hw : d.Whole cfg) :
    ∃ bytes, d.entry = .file bytes ∧ d.store.Matches cfg bytes ∧ Appends cfg d.store r ∧
      d'.entry = .file (writeSlot bytes (cfg.slotOf r.sequence) (encode r)) ∧
      d'.store = d.store.append (cfg.slotOf r.sequence) r := by
  obtain ⟨hready, bytes, hentry, hm⟩ := hw
  cases h with
  | append env p hok =>
    obtain ⟨bytes', hentry', happends, hrecord, hfile, hstore⟩ :=
      storeAppend_ok hm.consistent.pos hm.next_le p.2.1 p.2.2 hok
    obtain rfl := Entry.file.inj (hentry.symm.trans hentry')
    rw [hrecord, hfile, hstore]
    exact ⟨bytes, hentry, hm, happends, rfl, rfl⟩

theorem SeamlessStep.whole {d d' : Ring} (h : SeamlessStep cfg d r d') (hw : d.Whole cfg) :
    d'.Whole cfg := by
  obtain ⟨bytes, hentry, hm, happends, hfile, hstore⟩ := h.1.spec hw
  have hseamless := h.2
  rw [hentry] at hseamless
  refine ⟨by rw [hstore]; exact happends.ready, _, hfile, ?_⟩
  rw [hstore]
  exact hm.append_seamless happends hseamless

/-- An open that succeeds leaves the ring whole, whatever the file was. -/
theorem whole_open {env : FsEnv cfg} {entry : Entry}
    (hopen : (storeOpen cfg env entry).result = none) :
    Ring.Whole cfg ⟨(storeOpen cfg env entry).entry, (storeOpen cfg env entry).store⟩ := by
  rcases storeOpen_cases cfg env entry with ⟨bytes, -, hentry, -, hm, hready, -⟩ | ⟨e, he, -⟩
  · exact ⟨hready, bytes, hentry, hm⟩
  · rw [he] at hopen
    cases hopen

/-- **The representation of the ring.**  After an open that succeeded, over whatever file, and any
seamless appends, the store represents the file.  One more append that succeeds has written a record
that decodes to itself, and keeps the store so exactly if it is seamless too. -/
theorem ring_representation_iff {env : FsEnv cfg} {entry : Entry}
    (hopen : (storeOpen cfg env entry).result = none) {rs : List Record} {d : Ring}
    (hr : Run (SeamlessStep cfg) ⟨(storeOpen cfg env entry).entry, (storeOpen cfg env entry).store⟩
      rs d) : d.Represented cfg ∧ ∀ r d', AppendStep cfg d r d' →
      decode (encode r) = some r ∧ (d'.Represented cfg ↔ Seamless cfg d.entry.contents r) := by
  have hwhole : d.Whole cfg :=
    hr.invariant (I := fun _ d => d.Whole cfg) (whole_open hopen) fun _ _ _ _ h hs => hs.whole h
  refine ⟨hwhole.represented, fun r d' hs => ?_⟩
  obtain ⟨bytes, hentry, hm, happends, hfile, hstore⟩ := hs.spec hwhole
  refine ⟨decode_encode happends.valid happends.numbered, ?_, fun hseamless =>
    (SeamlessStep.whole ⟨hs, hseamless⟩ hwhole).represented⟩
  rintro ⟨bytes', hentry', hrep⟩
  obtain rfl := Entry.file.inj (hfile.symm.trans hentry')
  rw [hentry]
  exact seamless_of_held hm happends (hstore ▸ hrep.held)

/-! ### A file that was cut short -/

/-- A record of an event of the boot, with this sequence and this time. -/
def sampleRecord (sequence : ℕ) (monotonicUs : UInt64) : Record :=
  ⟨sequence, 1, 0, false, ⟨monotonicUs, 1, 1, 1, 2, []⟩⟩

theorem sampleRecord_appendable (sequence : ℕ) (monotonicUs : UInt64) :
    (sampleRecord sequence monotonicUs).Appendable :=
  ⟨⟨show (1 : UInt16) ≤ 1 by decide, show (1 : UInt16) ≤ _ by decide, show (2 : UInt8) ≤ _ by decide,
    Nat.zero_le _⟩, Nat.one_ne_zero, show 1 < uint64Max by decide⟩

theorem decode_sampleRecord {sequence : ℕ} (hpos : sequence ≠ 0) (hlt : sequence < uint64Max)
    (monotonicUs : UInt64) : decode (encode (sampleRecord sequence monotonicUs)) =
      some (sampleRecord sequence monotonicUs) :=
  decode_encode (sampleRecord_appendable sequence monotonicUs).1
    ⟨hpos, hlt, (sampleRecord_appendable sequence monotonicUs).2⟩

theorem length_sampleRecord (sequence : ℕ) (monotonicUs : UInt64) :
    (encode (sampleRecord sequence monotonicUs)).length = 72 :=
  length_encode (sampleRecord_appendable sequence monotonicUs).1.2.2.2

/-- The first slot holds record 9; of record 2, which goes to the second, the last byte is
missing. -/
def cutBytes : List UInt8 :=
  header 8 ++ (encode (sampleRecord 9 0) ++ (encode (sampleRecord 2 305)).take 71)

theorem length_cutBytes : cutBytes.length = 159 := by
  rw [cutBytes, List.length_append, List.length_append, List.length_take, length_header,
    length_sampleRecord, length_sampleRecord]
  rfl

/-- The checksum of record 2 ends with a zero. -/
theorem cut_byte_zero : (encode (sampleRecord 2 305)).take 71 ++ [0] =
    encode (sampleRecord 2 305) := by
  have hsplit : (sampleRecord 2 305).body = (sampleRecord 2 305).body.take 17 ++
      (((sampleRecord 2 305).body.drop 17).take 17 ++
        (((sampleRecord 2 305).body.drop 34).take 17 ++ (sampleRecord 2 305).body.drop 51)) := by
    decide +kernel
  have hcrc : crc32 (sampleRecord 2 305).body = 0xafd37000 := by
    rw [hsplit, crc32, crc32Update_append, crc32Update_append, crc32Update_append,
      show crc32Update 0 ((sampleRecord 2 305).body.take 17) = 4054090538 by decide +kernel,
      show crc32Update 4054090538 (((sampleRecord 2 305).body.drop 17).take 17) = 1155753101 by
        decide +kernel,
      show crc32Update 1155753101 (((sampleRecord 2 305).body.drop 34).take 17) = 1974640572 by
        decide +kernel]
    decide +kernel
  rw [encode, hcrc]
  decide +kernel

theorem accepted_cutBytes : Accepted smallConfig cutBytes := by
  refine ⟨by rw [length_cutBytes]; decide, ?_⟩
  rw [cutBytes, ← length_header 8, List.take_left]
  exact (headerValid_iff _ _).2 rfl

/-- The journal that is opened over it. -/
def cutRing : Ring :=
  ⟨(storeOpen smallConfig (.working smallConfig) (.file cutBytes)).entry,
    (storeOpen smallConfig (.working smallConfig) (.file cutBytes)).store⟩

theorem cutRing_spec : (storeOpen smallConfig (.working smallConfig) (.file cutBytes)).result = none ∧
    cutRing.entry = .file cutBytes ∧ cutRing.store.ready = true ∧
      cutRing.store.Matches smallConfig cutBytes := by
  obtain ⟨s, hopen, hready, hm⟩ := (storeOpen_file smallConfig cutBytes).1 accepted_cutBytes
  unfold cutRing
  rw [hopen]
  exact ⟨rfl, rfl, hready, hm⟩

/-- Behind the first slot there is no record. -/
theorem recordAt_cutBytes {slot : ℕ} (hpos : 0 < slot) :
    recordAt smallConfig cutBytes slot = none := by
  by_contra hne
  obtain ⟨q, hq⟩ := Option.ne_none_iff_exists'.1 hne
  have hend := (of_recordAt hq).2.2
  rw [length_cutBytes] at hend
  simp only [slotOffset, headerSize, recordSize] at hend
  omega

/-- Record 10 is the next. -/
theorem cutRing_next : cutRing.store.nextSequence = 10 := by
  have hm := cutRing_spec.2.2.2
  have hslot : slotBytes cutBytes 0 = encode (sampleRecord 9 0) := by
    show region cutBytes 16 72 = _
    rw [region, cutBytes, List.drop_left' (length_header 8),
      List.take_left' (length_sampleRecord 9 0)]
  have hfirst : recordAt smallConfig cutBytes 0 = some (sampleRecord 9 0) :=
    recordAt_eq_some.2 (hslot ▸ ⟨length_sampleRecord 9 0,
      decode_sampleRecord (by decide) (by decide) 0, rfl⟩)
  have hgt := hm.next_gt 0 (by decide) _ hfirst
  rcases hm.next_reached with h1 | ⟨i, -, q, hq, hnext⟩
  · rw [h1] at hgt
    exact absurd hgt (by decide)
  · rcases Nat.eq_zero_or_pos i with rfl | hpos
    · rw [hnext, ← Option.some.inj (hfirst.symm.trans hq)]
      rfl
    · rw [recordAt_cutBytes hpos] at hq
      cases hq

/-- An append with a sequence that passes the checks. -/
theorem Ring.Whole.append {d : Ring} (h : d.Whole cfg) (hp : r.Appendable)
    (hsequence : r.sequence ≠ 0) (hfits : d.store.Fits cfg r) : ∃ d', AppendStep cfg d r d' := by
  obtain ⟨hready, bytes, hentry, hm⟩ := h
  have hnumber : d.store.number r = r := if_neg hsequence
  have heq : storeAppend cfg (.working cfg) d.entry d.store r = .wrote cfg bytes d.store r := by
    rw [← hnumber] at hfits
    rw [hentry, (storeAppend_working hready hm.next_le hp).1 hfits, hnumber]
  have hstep : AppendStep cfg d (storeAppend cfg (.working cfg) d.entry d.store r).record _ :=
    .append (.working cfg) ⟨r, hp.1, hp.2.2.le⟩ (by rw [heq]; rfl)
  rw [heq] at hstep
  exact ⟨_, hstep⟩

/-- The append of the next record, to a slot that the file reaches. -/
theorem Ring.Whole.append_next {d : Ring} {n : ℕ} (h : d.Whole cfg)
    (hnext : d.store.nextSequence = n) (hpos : n ≠ 0) (hlt : n < uint64Max)
    (hroom : slotOffset (cfg.slotOf n) ≤ d.entry.contents.length) :
    ∃ d', SeamlessStep cfg d (sampleRecord n 0) d' ∧ d'.store.nextSequence = n + 1 ∧
      d'.entry.contents.length = max d.entry.contents.length (slotOffset (cfg.slotOf n) + 72) := by
  obtain ⟨-, bytes, hentry, hm⟩ := id h
  have hstale : d.store.sequences.getD (cfg.slotOf n) 0 ≤ n := by
    rw [hm.getD (slotOf_lt cfg n), sequenceAt]
    cases hq : recordAt cfg bytes (cfg.slotOf n) with
    | none => exact Nat.zero_le _
    | some q => exact hnext ▸ (hm.next_gt _ (slotOf_lt cfg n) q hq).le
  obtain ⟨d', hstep⟩ := h.append (sampleRecord_appendable n 0) hpos ⟨hlt, hnext.ge, hstale⟩
  obtain ⟨bytes', hbytes, -, -, hfile, hstore⟩ := hstep.spec h
  refine ⟨d', ⟨hstep, fun i => ?_⟩, ?_, ?_⟩
  · show recordAt cfg (padTo d.entry.contents (cfg.slotOf n)) i = _
    rw [padTo_of_le hroom]
  · rw [hstore]
    show max d.store.nextSequence (n + 1) = n + 1
    omega
  · rw [hfile, hbytes]
    show (writeSlot bytes' (cfg.slotOf n) (encode (sampleRecord n 0))).length = _
    rw [hbytes] at hroom
    rw [writeSlot, length_splice, length_sampleRecord]
    show _ = max bytes'.length _
    change slotOffset (cfg.slotOf n) ≤ bytes'.length at hroom
    omega

/-- The cut record is overwritten, and one more is appended. -/
theorem ring_representation_cut : ∃ d, Run (SeamlessStep smallConfig) cutRing
      [sampleRecord 10 0, sampleRecord 11 0] d ∧ d.Represented smallConfig ∧
      ∀ r d', AppendStep smallConfig d r d' → decode (encode r) = some r ∧
        (d'.Represented smallConfig ↔ Seamless smallConfig d.entry.contents r) := by
  obtain ⟨hopen, hentry, -, -⟩ := cutRing_spec
  have hwhole : cutRing.Whole smallConfig := whole_open hopen
  have hlen : cutRing.entry.contents.length = 159 := by
    rw [hentry]
    exact length_cutBytes
  obtain ⟨d, hfirst, hnext, hnow⟩ := hwhole.append_next cutRing_next (by decide) (by decide)
    (by rw [hlen]; decide)
  rw [hlen] at hnow
  obtain ⟨d', hsecond, -, -⟩ := (hfirst.whole hwhole).append_next hnext (by decide) (by decide)
    (by rw [hnow]; decide)
  have hr : Run (SeamlessStep smallConfig) cutRing [_, _] d' := .cons hfirst (.single hsecond)
  exact ⟨d', hr, ring_representation_iff hopen hr⟩

/-- **Zeros that complete a record.**  The append of record 4 to the fourth slot returns 0, and the
second slot holds record 2 from then on, which is not counted. -/
theorem gap_completes_record : ¬ ∀ (cfg : Config) (env : FsEnv cfg) (entry : Entry),
    (storeOpen cfg env entry).result = none → ∀ r d',
      AppendStep cfg ⟨(storeOpen cfg env entry).entry, (storeOpen cfg env entry).store⟩ r d' →
        d'.Represented cfg ∧ decode (encode r) = some r := by
  intro h
  obtain ⟨hopen, hentry, -, hm⟩ := cutRing_spec
  have hwhole : cutRing.Whole smallConfig := whole_open hopen
  have hfits : cutRing.store.Fits smallConfig (sampleRecord 4 0) := by
    refine ⟨by decide, cutRing_next ▸ by decide, ?_⟩
    rw [show smallConfig.slotOf (sampleRecord 4 0).sequence = 3 from rfl, hm.getD (by decide),
      sequenceAt_eq_zero.2 (recordAt_cutBytes (by decide))]
    exact Nat.zero_le _
  obtain ⟨d', hstep⟩ := hwhole.append (sampleRecord_appendable 4 0) (by decide) hfits
  obtain ⟨⟨bytes', hentry', hrep⟩, -⟩ := h smallConfig (.working smallConfig) _ hopen _ _ hstep
  obtain ⟨bytes, hbytes, hm', happends, hfile, hstore⟩ := hstep.spec hwhole
  obtain rfl := Entry.file.inj (hfile.symm.trans hentry')
  obtain rfl := Entry.file.inj (hentry.symm.trans hbytes)
  have hseamless : recordAt smallConfig (padTo cutBytes 3) 1 = _ :=
    seamless_of_held hm' happends (hstore ▸ hrep.held) 1
  have hslot : slotBytes (padTo cutBytes 3) 1 = encode (sampleRecord 2 305) := by
    have hzeros : List.replicate (slotOffset 3 - cutBytes.length) (0 : UInt8) =
        [0] ++ List.replicate 72 0 := by
      rw [length_cutBytes]
      rfl
    have hfront : (header 8 ++ encode (sampleRecord 9 0)).length = 88 := by
      rw [List.length_append, length_header, length_sampleRecord]
    show region _ 88 72 = _
    rw [region, padTo, hzeros, cutBytes, ← List.append_assoc (header 8), List.append_assoc,
      List.drop_left' hfront, ← List.append_assoc, cut_byte_zero,
      List.take_left' (length_sampleRecord 2 305)]
  have hsome : recordAt smallConfig (padTo cutBytes 3) 1 = some (sampleRecord 2 305) :=
    recordAt_eq_some.2 (hslot ▸ ⟨length_sampleRecord 2 305,
      decode_sampleRecord (by decide) (by decide) 305, rfl⟩)
  rw [recordAt_cutBytes (by decide), hsome] at hseamless
  cases hseamless

end KfswServices.Journal
