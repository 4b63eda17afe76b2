/-
# Resets in the middle of an open or an append

A reset ends a call between two of its steps.  The creation of the file has taken effect with
`fs_open`, and of a write a prefix has.  The memory is lost; the file is scanned again by the next
`kfsw_journal_store_open`.

`owed` is what the file must still hold: by slot, the record of the last append there that
returned 0, but nothing for a slot that was being written when a reset came.  `survives_iff`:
the next open succeeds and every record owed is read back in every state of a run exactly when
no reset falls between the creation of the file and the end of its header.  A header that is cut
short is refused from then on.
-/

import KfswServices.Library.Run
import KfswServices.Journal.Numbering
import KfswServices.Journal.Read

namespace KfswServices.Journal

open Library

/-- The file, the store in memory, and the records owed. -/
structure Device where
  entry : Entry
  store : Store
  owed : ℕ → Option Record

/-- A record as the journal hands it over: `kfsw_journal_submit` has checked the event. -/
abbrev Handed : Type := { r : Record // r.event.Valid ∧ r.boot ≤ uint64Max }

/-- A call that runs to its end, or one that a reset ends after `k` changes to the file. -/
inductive Move
  | open
  | append (r : Handed)
  | cutOpen (k : ℕ)
  | cutAppend (r : Handed) (k : ℕ)

/-- What is at the path after `k` changes. -/
def cut (entry : Entry) (through : List Entry) (k : ℕ) : Entry := (entry :: through).getD k entry

/-- After a reset, before the store is opened. -/
def Device.boot (cfg : Config) (entry : Entry) (owed : ℕ → Option Record) : Device :=
  ⟨entry, .blank cfg, owed⟩

def Device.move (cfg : Config) (d : Device) : Move → Device
  | .open =>
    let o := storeOpen cfg (.working cfg) d.entry
    { d with entry := o.entry, store := o.store }
  | .append r =>
    let o := storeAppend cfg (.working cfg) d.entry d.store r.1
    { entry := o.entry
      store := o.store
      owed :=
        if o.result = none then
          Function.update d.owed (cfg.slotOf o.record.sequence) (some o.record)
        else d.owed }
  | .cutOpen k =>
    .boot cfg (cut d.entry (storeOpen cfg (.working cfg) d.entry).through k) d.owed
  | .cutAppend r k =>
    let o := storeAppend cfg (.working cfg) d.entry d.store r.1
    .boot cfg (cut d.entry o.through k)
      (if o.through = [] then d.owed
      else Function.update d.owed (cfg.slotOf o.record.sequence) none)

def Device.moves (cfg : Config) (d : Device) (ms : List Move) : Device := ms.foldl (·.move cfg) d

/-- **The journal survives**: the next open succeeds, and every record owed is read by some
age. -/
def Device.Survives (cfg : Config) (d : Device) : Prop :=
  let o := storeOpen cfg (.working cfg) d.entry
  o.result = none ∧ ∀ slot r, d.owed slot = some r →
    ∃ age < o.store.held, storeGet cfg (.working cfg) o.entry o.store age = .ok r

/-- The reset does not fall between the creation of the file and the end of the header. -/
def Device.Keeps (d : Device) : Move → Prop
  | .cutOpen k => d.entry = .absent → k = 0 ∨ headerSize < k
  | _ => True

/-! ### An open on working storage -/

variable {cfg : Config}

theorem scanFrom_working (bytes : List UInt8) (n i : ℕ) (s : Store) :
    ∃ t, scanFrom cfg (.working cfg) bytes n i s = .ok t := by
  induction n generalizing i s with
  | zero => exact ⟨s, rfl⟩
  | succ n ih =>
    rw [scanFrom]
    simp only [FsEnv.working]
    split_ifs
    · exact ⟨_, rfl⟩
    · exact ⟨_, rfl⟩
    · cases decode (slotBytes bytes i) with
      | none => exact ih _ _
      | some r =>
        simp only
        split_ifs <;> exact ih _ _

/-- A file is opened when it is accepted, and refused otherwise. -/
theorem storeOpen_file (cfg : Config) (bytes : List UInt8) :
    (Accepted cfg bytes → ∃ s, storeOpen cfg (.working cfg) (.file bytes) =
        ⟨.file bytes, s, none, []⟩ ∧ s.ready = true ∧ s.Matches cfg bytes) ∧
      (¬ Accepted cfg bytes → (storeOpen cfg (.working cfg) (.file bytes)).result ≠ none) := by
  constructor
  · rintro ⟨hsize, hheader⟩
    obtain ⟨t, ht⟩ := scanFrom_working bytes cfg.capacity 0 (Store.zero cfg)
    have hm := scanFrom_matches (Nat.zero_add _) (matchesTo_zero cfg bytes) ht
    refine ⟨{ t with ready := true }, ?_, rfl, hm.ready true⟩
    show (if bytes.length > cfg.fileSize then Opened.refuse cfg (.file bytes) .EFBIG
      else if ¬ HeaderValid cfg.capacity (bytes.take headerSize) then
        Opened.refuse cfg (.file bytes) .EBADMSG
      else _) = _
    rw [if_neg (not_lt.2 hsize), if_neg (not_not.2 hheader), ht]
    rfl
  · intro h
    show (if bytes.length > cfg.fileSize then Opened.refuse cfg (.file bytes) .EFBIG
      else if ¬ HeaderValid cfg.capacity (bytes.take headerSize) then
        Opened.refuse cfg (.file bytes) .EBADMSG
      else _).result ≠ none
    by_cases hsize : bytes.length > cfg.fileSize
    · rw [if_pos hsize]
      exact fun h => by cases h
    · have hheader : ¬ HeaderValid cfg.capacity (bytes.take headerSize) :=
        fun hh => h ⟨not_lt.1 hsize, hh⟩
      rw [if_neg hsize, if_pos hheader]
      exact fun h => by cases h

/-- Where there is no file, it is created. -/
theorem storeOpen_absent (cfg : Config) : storeOpen cfg (.working cfg) .absent =
    ⟨.file (header cfg.capacity), { Store.zero cfg with ready := true }, none,
      (prefixes (header cfg.capacity)).map Entry.file⟩ := rfl

/-! ### What a run keeps -/

/-- **The records owed are in the file**, and the store that is ready has its numbering. -/
structure Intact (cfg : Config) (d : Device) : Prop where
  file : (d.entry = .absent ∧ ∀ i, d.owed i = none) ∨ ∃ bytes, d.entry = .file bytes ∧
    Accepted cfg bytes ∧ ∀ i r, d.owed i = some r → recordAt cfg bytes i = some r
  store : d.store.ready = true → d.store.Consistent cfg ∧ ∃ bytes, d.entry = .file bytes

variable {d : Device}

theorem Intact.survives (h : Intact cfg d) : d.Survives cfg := by
  unfold Device.Survives
  rcases h.file with ⟨habs, hnone⟩ | ⟨bytes, hentry, hacc, howed⟩
  · rw [habs, storeOpen_absent]
    refine ⟨rfl, fun slot r hr => ?_⟩
    rw [hnone] at hr
    cases hr
  · obtain ⟨s, heq, hready, hm⟩ := (storeOpen_file cfg bytes).1 hacc
    rw [hentry, heq]
    refine ⟨rfl, fun slot r hr => ?_⟩
    obtain ⟨age, hage, hget⟩ := List.mem_iff_getElem.1
      (mem_newestFirst.2 ⟨slot, howed slot r hr⟩)
    refine ⟨age, by rw [hm.held_eq]; exact hage, ?_⟩
    show storeGet cfg (.working cfg) (.file bytes) s age = .ok r
    rw [storeGet_working hm hready, List.getElem?_eq_getElem hage, hget]

theorem Intact.boot {entry : Entry} {owed : ℕ → Option Record}
    (h : (entry = .absent ∧ ∀ i, owed i = none) ∨ ∃ bytes, entry = .file bytes ∧
      Accepted cfg bytes ∧ ∀ i r, owed i = some r → recordAt cfg bytes i = some r) :
    Intact cfg (.boot cfg entry owed) := ⟨h, nofun⟩

theorem Intact.open (h : Intact cfg d) : Intact cfg (d.move cfg .open) := by
  simp only [Device.move]
  rcases h.file with ⟨habs, hnone⟩ | ⟨bytes, hentry, hacc, howed⟩
  · rw [habs, storeOpen_absent]
    have hm : (Store.zero cfg).Matches cfg (header cfg.capacity) :=
      matches_of_le_header (length_header cfg.capacity).le
    refine ⟨.inr ⟨_, rfl, accepted_header cfg, fun i r hr => ?_⟩,
      fun _ => ⟨(hm.ready true).consistent, _, rfl⟩⟩
    rw [hnone] at hr
    cases hr
  · obtain ⟨s, heq, -, hm⟩ := (storeOpen_file cfg bytes).1 hacc
    rw [hentry, heq]
    exact ⟨.inr ⟨bytes, rfl, hacc, howed⟩, fun _ => ⟨hm.consistent, bytes, rfl⟩⟩

/-- **An append does nothing, or it writes** a record with numbers in range. -/
theorem Intact.append_cases (h : Intact cfg d) (r : Handed) :
    (∃ e r', storeAppend cfg (.working cfg) d.entry d.store r.1 =
      ⟨d.entry, d.store, r', some e, []⟩) ∨ ∃ bytes q, d.entry = .file bytes ∧ Accepted cfg bytes ∧
      (∀ i p, d.owed i = some p → recordAt cfg bytes i = some p) ∧
      q.event.Valid ∧ q.Numbered ∧ (d.store.append (cfg.slotOf q.sequence) q).Consistent cfg ∧
      storeAppend cfg (.working cfg) d.entry d.store r.1 = .wrote cfg bytes d.store q := by
  obtain ⟨r, hvalid, hbound⟩ := r
  rcases storeAppend_cases cfg (.working cfg) d.entry d.store r with
    ⟨e, r', -, heq⟩ | ⟨hready, hboot, hbootMax, hmax, hnext, hstale, heq⟩
  · exact .inl ⟨e, r', heq⟩
  · obtain ⟨hcons, bytes, hentry⟩ := h.store hready
    obtain ⟨hev, hbt⟩ := number_event d.store r
    have hpos : (d.store.number r).sequence ≠ 0 := by
      have := hcons.pos
      unfold Store.number
      split_ifs with hz
      · exact this.ne'
      · exact hz
    have hlt : (d.store.number r).sequence < uint64Max :=
      lt_of_le_of_ne (hnext.trans hcons.next_le) hmax
    have hnum : (d.store.number r).Numbered :=
      ⟨hpos, hlt, by rw [hbt]; exact hboot, by rw [hbt]; exact lt_of_le_of_ne hbound hbootMax⟩
    rcases h.file with ⟨habs, -⟩ | ⟨bytes', hentry', hacc, howed⟩
    · rw [hentry] at habs
      cases habs
    · rw [hentry] at hentry'
      obtain rfl := Entry.file.inj hentry'
      refine .inr ⟨bytes, _, hentry, hacc, howed, by rw [hev]; exact hvalid, hnum,
        hcons.append hlt hstale, ?_⟩
      rw [heq, hentry, writeRecord_working]

theorem Intact.append (h : Intact cfg d) (r : Handed) : Intact cfg (d.move cfg (.append r)) := by
  simp only [Device.move]
  rcases h.append_cases r with ⟨e, r', heq⟩ | ⟨bytes, q, -, hacc, howed, hvalid, hnum, hcons, heq⟩
  · rw [heq]
    exact h
  · rw [heq]
    have hlen := (length_encode hvalid.2.2.2).le
    refine ⟨.inr ⟨_, rfl, accepted_writeSlot hacc (slotOf_lt cfg _) hlen, fun i p hp => ?_⟩,
      fun _ => ⟨hcons, _, rfl⟩⟩
    have hres : (Appended.wrote cfg bytes d.store q).result = none := rfl
    rw [if_pos hres] at hp
    simp only [Appended.wrote] at hp
    by_cases hi : i = cfg.slotOf q.sequence
    · subst hi
      rw [Function.update_self] at hp
      obtain rfl := Option.some.inj hp
      exact recordAt_writeSlot_self bytes hvalid hnum
    · rw [Function.update_of_ne hi] at hp
      exact recordAt_writeSlot_ne (howed i p hp) hlen hi

theorem cut_mem (entry : Entry) (through : List Entry) (k : ℕ) :
    cut entry through k = entry ∨ cut entry through k ∈ through := by
  cases k with
  | zero => exact .inl rfl
  | succ k =>
    show through.getD k entry = entry ∨ through.getD k entry ∈ through
    rw [List.getD_eq_getElem?_getD]
    cases hk : through[k]? with
    | none => exact .inl rfl
    | some e => exact .inr (List.mem_of_getElem? hk)

/-- A reset in the course of an append may take the record in the slot, and no other. -/
theorem Intact.cutAppend (h : Intact cfg d) (r : Handed) (k : ℕ) :
    Intact cfg (d.move cfg (.cutAppend r k)) := by
  simp only [Device.move]
  rcases h.append_cases r with
    ⟨e, r', heq⟩ | ⟨bytes, q, hentry, hacc, howed, hvalid, -, -, heq⟩
  · rw [heq, if_pos rfl]
    have hcut : cut d.entry [] k = d.entry := (cut_mem d.entry [] k).resolve_right nofun
    simp only [hcut]
    exact .boot h.file
  · rw [heq]
    have hthrough : (Appended.wrote cfg bytes d.store q).through ≠ [] := by
      simp [Appended.wrote, prefixes]
    rw [if_neg hthrough]
    refine .boot (.inr ?_)
    simp only [Appended.wrote]
    -- the slot that was being written is not owed any more
    have hothers : ∀ i p, Function.update d.owed (cfg.slotOf q.sequence) none i = some p →
        i ≠ cfg.slotOf q.sequence ∧ d.owed i = some p := by
      intro i p hp
      by_cases hi : i = cfg.slotOf q.sequence
      · rw [hi, Function.update_self] at hp
        cases hp
      · rw [Function.update_of_ne hi] at hp
        exact ⟨hi, hp⟩
    rcases cut_mem d.entry ((prefixes (encode q)).map fun p =>
        Entry.file (writeSlot bytes (cfg.slotOf q.sequence) p)) k with hcut | hcut
    · exact ⟨bytes, by rw [hcut, hentry], hacc, fun i p hp => howed i p (hothers i p hp).2⟩
    · obtain ⟨data, hdata, heq'⟩ := List.mem_map.1 hcut
      obtain ⟨n, -, rfl⟩ := List.mem_map.1 hdata
      have hlen : ((encode q).take n).length ≤ recordSize :=
        (List.length_take_le' _ _).trans (length_encode hvalid.2.2.2).le
      refine ⟨_, heq'.symm, accepted_writeSlot hacc (slotOf_lt cfg _) hlen, fun i p hp => ?_⟩
      obtain ⟨hi, hp⟩ := hothers i p hp
      exact recordAt_writeSlot_ne (howed i p hp) hlen hi

/-- **A reset in the course of an open.**  Where there is no file, the creation must not be cut in
its header. -/
theorem Intact.cutOpen (h : Intact cfg d) (k : ℕ) :
    (d.Keeps (.cutOpen k) → Intact cfg (d.move cfg (.cutOpen k))) ∧
      (¬ d.Keeps (.cutOpen k) → ¬ (d.move cfg (.cutOpen k)).Survives cfg) := by
  simp only [Device.move, Device.Keeps]
  rcases h.file with ⟨habs, hnone⟩ | ⟨bytes, hentry, hacc, howed⟩
  · rw [habs, storeOpen_absent]
    have hlen := length_header cfg.capacity
    have hcut : ∀ j, cut .absent ((prefixes (header cfg.capacity)).map Entry.file) (j + 1) =
        if j ≤ headerSize then .file ((header cfg.capacity).take j) else .absent := by
      intro j
      show ((prefixes (header cfg.capacity)).map Entry.file).getD j .absent = _
      rw [List.getD_eq_getElem?_getD, prefixes, List.map_map, List.getElem?_map, hlen]
      by_cases hj : j ≤ headerSize
      · rw [List.getElem?_range (by omega), if_pos hj]
        rfl
      · rw [List.getElem?_eq_none (by rw [List.length_range]; omega), if_neg hj]
        rfl
    constructor
    · intro hk
      refine .boot ?_
      rcases hk rfl with rfl | hk
      · exact .inl ⟨rfl, hnone⟩
      · obtain ⟨j, rfl⟩ : ∃ j, k = j + 1 := ⟨k - 1, by omega⟩
        rw [hcut]
        by_cases hj : j ≤ headerSize
        · rw [if_pos hj, List.take_of_length_le (by omega)]
          refine .inr ⟨_, rfl, accepted_header cfg, fun i r hr => ?_⟩
          rw [hnone] at hr
          cases hr
        · rw [if_neg hj]
          exact .inl ⟨rfl, hnone⟩
    · intro hk
      rw [Classical.not_imp, not_or] at hk
      obtain ⟨j, rfl⟩ : ∃ j, k = j + 1 := ⟨k - 1, by omega⟩
      rw [hcut, if_pos (by omega)]
      intro hs
      refine (storeOpen_file cfg _).2 (fun hacc => ?_) hs.1
      have hle := hacc.headerSize_le
      rw [List.length_take] at hle
      omega
  · obtain ⟨s, heq, -, -⟩ := (storeOpen_file cfg bytes).1 hacc
    have hcut : cut (.file bytes) [] k = .file bytes :=
      (cut_mem (.file bytes) [] k).resolve_right List.not_mem_nil
    rw [hentry, heq]
    simp only [hcut]
    exact ⟨fun _ => .boot (.inr ⟨bytes, rfl, hacc, howed⟩), fun hk => absurd (fun h => by cases h) hk⟩

/-- **One move.** -/
theorem Intact.move (h : Intact cfg d) (m : Move) :
    (d.Keeps m → Intact cfg (d.move cfg m)) ∧ (¬ d.Keeps m → ¬ (d.move cfg m).Survives cfg) := by
  cases m with
  | «open» => exact ⟨fun _ => h.open, fun hk => absurd trivial hk⟩
  | append r => exact ⟨fun _ => h.append r, fun hk => absurd trivial hk⟩
  | cutOpen k => exact h.cutOpen k
  | cutAppend r k => exact ⟨fun _ => h.cutAppend r k, fun hk => absurd trivial hk⟩

/-! ### Over a run -/

/-- **The journal survives resets.**  From a path that can be opened, over any opens and appends
with any resets in the middle: in every state the next open succeeds and reads the records
owed, if and only if no reset cuts the creation of the file in its header. -/
theorem survives_iff (cfg : Config) (entry : Entry) (ms : List Move)
    (hopen : (storeOpen cfg (.working cfg) entry).result = none) : (∀ before, before <+: ms →
        ((Device.boot cfg entry fun _ => none).moves cfg before).Survives cfg) ↔
      ∀ before m, before ++ [m] <+: ms →
        ((Device.boot cfg entry fun _ => none).moves cfg before).Keeps m := by
  have hstart : Intact cfg (.boot cfg entry fun _ => none) := by
    refine .boot ?_
    cases entry with
    | absent => exact .inl ⟨rfl, fun _ => rfl⟩
    | directory => exact absurd hopen nofun
    | file bytes =>
      have hacc : Accepted cfg bytes := by
        by_contra h
        exact (storeOpen_file cfg bytes).2 h hopen
      exact .inr ⟨bytes, rfl, hacc, nofun⟩
  exact foldl_prefixes_iff (fun _ h => h.survives) (fun _ m h => (h.move m).1)
    (fun _ m h => (h.move m).2) ms _ hstart

/-- A record of an event of the resource monitor. -/
def handed : Handed := ⟨⟨0, 1, 0, false, ⟨0, 1, 7, 1, 2, []⟩⟩, by decide⟩

/-- Opens and appends, three of which a reset ends. -/
def resetRun : List Move :=
  [.cutOpen 0, .open, .append handed, .cutOpen 3, .open, .cutAppend handed 9, .append handed]

/-- They are seven, and the journal survives them all. -/
theorem survives_iff_resetRun : resetRun.length = 7 ∧ ∀ before, before <+: resetRun →
    ((Device.boot smallConfig .absent fun _ => none).moves smallConfig before).Survives
      smallConfig := by
  refine ⟨rfl, (survives_iff smallConfig .absent resetRun rfl).2 fun before m hpre => ?_⟩
  obtain ⟨after, hrun⟩ := hpre
  have hbefore : before = resetRun.take before.length := by
    rw [← hrun, List.append_assoc, List.take_left]
  have hlen : before.length < 7 := by
    have := congrArg List.length hrun
    simp [resetRun] at this
    omega
  have hget : resetRun[before.length]? = some m := by
    rw [← hrun, List.append_assoc, List.getElem?_append_right le_rfl]
    simp
  rw [hbefore]
  generalize before.length = n at hlen hget
  have hcases : n = 0 ∨ n = 1 ∨ n = 2 ∨ n = 3 ∨ n = 4 ∨ n = 5 ∨ n = 6 := by omega
  rcases hcases with rfl | rfl | rfl | rfl | rfl | rfl | rfl <;> obtain rfl := Option.some.inj hget
  · exact fun _ => .inl rfl
  · trivial
  · trivial
  · exact fun h => by cases h
  all_goals trivial

/-- **A reset right after the file was created.**  The file is empty, and the next open refuses
it. -/
theorem empty_file_refused :
    let d := (Device.boot smallConfig .absent fun _ => none).move smallConfig (.cutOpen 1)
    d.entry = .file [] ∧
      (storeOpen smallConfig (.working smallConfig) d.entry).result = some .EBADMSG ∧
      ¬ d.Survives smallConfig := by
  have hresult : (storeOpen smallConfig (.working smallConfig) (.file [])).result =
      some .EBADMSG := by decide
  refine ⟨rfl, hresult, fun h => ?_⟩
  exact absurd (hresult.symm.trans h.1) nofun

end KfswServices.Journal
