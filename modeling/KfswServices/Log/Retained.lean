/-
# The log over a reset

A reset that preserves RAM ends an append between two of its memory writes.  The record goes to its
slot in any number of writes, in the middle of them the counter moves, and the checksum of the
header comes last; in between the checksum is that of the counter before, and it differs from
that of the counter after (`crc32_putLe64_succ`).  `retained_iff` says what this means for the
next boot: the records beside the slot are all there exactly when the reset comes before the
counter has moved or after the checksum has been written, and otherwise the ring starts empty.
-/

import KfswServices.Log.History

namespace KfswServices.Log

open Library

/-! ### The writes of an append -/

/-- A write to retained memory. -/
inductive MemWrite
  /-- The header, in the course of its assignment. -/
  | header (h : Header)
  | counter (n : UInt64)
  | crc (c : UInt32)
  /-- The slot of the record, in the course of being filled. -/
  | slot (index : ℕ) (content : Encoded)

def Ring.store (s : Ring) : MemWrite → Ring
  | .header h => { s with header := h }
  | .counter n => { s with header := { s.header with nextSequence := n } }
  | .crc c => { s with header := { s.header with crc := c } }
  | .slot index content => { s with records := Function.update s.records index content }

def Ring.stores (s : Ring) (ws : List MemWrite) : Ring := ws.foldl .store s

/-- What memory holds in the course of the assignments, which the compiler is free to choose: the
header that `restore_once` assigns, and the slot before and after the counter moves. -/
structure Course where
  header : List Header
  before : List Encoded
  after : List Encoded

/-- The writes of `restore_once`. -/
def Ring.restoreWrites (cfg : Config) (s : Ring) (course : Course) : List MemWrite :=
  if s.restored ∨ s.header.Valid cfg then []
  else course.header.map .header ++ [.header (Header.start cfg), .crc (Header.start cfg).checksum]

/-- The writes up to the counter. -/
def Ring.writesBefore (cfg : Config) (s : Ring) (course : Course) : List MemWrite :=
  s.restoreWrites cfg course ++
    course.before.map (.slot (cfg.slotOf (s.restoreOnce cfg).header.nextSequence))

/-- The writes of `kfsw_log_history_append`. -/
def Ring.appendWrites (cfg : Config) (s : Ring) (c : Call) (course : Course) : List MemWrite :=
  let h := (s.restoreOnce cfg).header
  let moved := { h with nextSequence := h.nextSequence + 1 }
  s.writesBefore cfg course ++ (.counter moved.nextSequence ::
    ((course.after ++ [c.record h.nextSequence]).map (.slot (cfg.slotOf h.nextSequence)) ++
      [.crc moved.checksum]))

/-- A reset that preserves RAM. -/
def Ring.reset (s : Ring) : Ring := .boot s.records s.header

/-! ### What is required, and when -/

/-- Another slot than that of the next record holds a record. -/
def Ring.HoldsBeside (cfg : Config) (s : Ring) : Prop :=
  ∃ q r, s.getEncoded cfg q = .ok r ∧
    cfg.slotOf q ≠ cfg.slotOf (s.restoreOnce cfg).header.nextSequence

/-- **Every record that `s` held is there in `t`**, by its sequence and in every window, except
for the one in the slot of the next record. -/
def Ring.Retains (cfg : Config) (s t : Ring) : Prop :=
  ∀ q r, s.getEncoded cfg q = .ok r →
    cfg.slotOf q ≠ cfg.slotOf (s.restoreOnce cfg).header.nextSequence →
    t.getEncoded cfg q = .ok r ∧ ∀ count : UInt16, count ≠ 0 → count.toNat ≤ maxRead →
      ∃ w, t.window cfg count = .ok w ∧ w.overwritten < q ∧ q < w.end

/-- The reset leaves the counter and the checksum together: `k` writes end before the counter, or
they are all of them, and the counter has not come round to 0. -/
def Ring.CleanCut (cfg : Config) (s : Ring) (c : Call) (course : Course) (k : ℕ) : Prop :=
  k ≤ (s.writesBefore cfg course).length ∨
    (s.appendWrites cfg c course).length ≤ k ∧ (s.restoreOnce cfg).header.nextSequence + 1 ≠ 0

/-! ### The header -/

variable {cfg : Config}

theorem Header.publish_owned {h : Header}
    (hfields : h.magic = retainedMagic ∧ h.version = retainedVersion ∧
      h.depth = UInt32.ofNat cfg.depth ∧ h.recordSize = encodedStructSize ∧ h.image = cfg.image) :
    h.publish.Owned cfg :=
  ⟨hfields.1, hfields.2.1, hfields.2.2.1, hfields.2.2.2.1, hfields.2.2.2.2, rfl⟩

/-- Once the ring has been restored its header is published. -/
def Ring.Published (cfg : Config) (s : Ring) : Prop := s.restored = true → s.header.Owned cfg

variable {s : Ring}

theorem Ring.Published.restoreOnce (h : s.Published cfg) :
    (s.restoreOnce cfg).header.Owned cfg := by
  unfold Ring.restoreOnce
  split_ifs with hr hv
  · exact h hr
  · exact hv.1
  · exact Header.publish_owned ⟨rfl, rfl, rfl, rfl, rfl⟩

theorem Ring.Published.appends (h : s.Published cfg) (calls : List Call) :
    (s.appends cfg calls).Published cfg := by
  induction calls generalizing s with
  | nil => exact h
  | cons c calls ih =>
    refine ih fun _ => ?_
    have ho := h.restoreOnce
    exact Header.publish_owned ⟨ho.1, ho.2.1, ho.2.2.1, ho.2.2.2.1, ho.2.2.2.2.1⟩

/-- A header with the counter moved and the old checksum is not valid. -/
theorem Header.Owned.not_valid_moved {h : Header} (ho : h.Owned cfg) :
    ¬ ({ h with nextSequence := h.nextSequence + 1 } : Header).Valid cfg := by
  rintro ⟨⟨-, -, -, -, -, hcrc⟩, -⟩
  have hold : h.crc = h.checksum := ho.2.2.2.2.2
  exact crc32_putLe64_succ h.front h.nextSequence (hold.symm.trans hcrc)

/-- A header counts nothing as held in front of the first sequence. -/
theorem Header.not_holds_start (cfg : Config) (q : UInt64) :
    ¬ (Header.start cfg).publish.Holds cfg q := by
  rintro ⟨h1, h2, -⟩
  have : (Header.start cfg).publish.nextSequence.toNat = 1 := rfl
  omega

/-- **A ring that holds a record has a valid header**, which an append does not assign. -/
theorem Ring.Published.of_getEncoded {q : UInt64} {r : Encoded} (h : s.Published cfg)
    (hget : s.getEncoded cfg q = .ok r) (course : Course) :
    (s.restoreOnce cfg).header = s.header ∧ s.header.Valid cfg ∧
      s.restoreWrites cfg course = [] := by
  obtain ⟨hholds, -⟩ := getEncoded_eq_ok.1 hget
  unfold Ring.restoreWrites
  unfold Ring.restoreOnce at *
  by_cases hr : s.restored = true
  · rw [if_pos hr] at hholds ⊢
    rw [if_pos (.inl hr)]
    refine ⟨rfl, ⟨h hr, UInt64.lt_iff_toNat_lt.2 ?_⟩, rfl⟩
    have := hholds.2.1
    rw [UInt64.toNat_zero]
    omega
  · rw [if_neg hr] at hholds ⊢
    by_cases hv : s.header.Valid cfg
    · rw [if_pos hv, if_pos (.inr hv)]
      exact ⟨rfl, hv, rfl⟩
    · rw [if_neg hv] at hholds
      exact absurd hholds (Header.not_holds_start cfg q)

/-! ### After the reset -/

theorem Ring.reset_header (h : s.header.Valid cfg) :
    (s.reset.restoreOnce cfg).header = s.header := by
  simp [Ring.reset, Ring.boot, Ring.restoreOnce, h]

/-- A header that is not valid loses every record. -/
theorem Ring.reset_lost (h : ¬ s.header.Valid cfg) (q : UInt64) (r : Encoded) :
    s.reset.getEncoded cfg q ≠ .ok r := by
  intro hget
  have hholds := (getEncoded_eq_ok.1 hget).1
  have hheader : (s.reset.restoreOnce cfg).header = (Header.start cfg).publish := by
    simp [Ring.reset, Ring.boot, Ring.restoreOnce, h]
  rw [hheader] at hholds
  exact Header.not_holds_start cfg q hholds

/-- Writes to a slot leave the header and the other slots. -/
theorem Ring.stores_slot (s : Ring) (i : ℕ) (contents : List Encoded) :
    (s.stores (contents.map (.slot i))).header = s.header ∧
      ∀ j, j ≠ i → (s.stores (contents.map (.slot i))).records j = s.records j := by
  induction contents generalizing s with
  | nil => exact ⟨rfl, fun _ _ => rfl⟩
  | cons e contents ih =>
    obtain ⟨hheader, hrecords⟩ := ih (s.store (.slot i e))
    refine ⟨hheader, fun j hj => (hrecords j hj).trans ?_⟩
    exact Function.update_of_ne hj _ _

theorem Ring.stores_append (s : Ring) (ws ws' : List MemWrite) :
    s.stores (ws ++ ws') = (s.stores ws).stores ws' := List.foldl_append

/-- **Where a reset finds the append.**  For a ring with a valid header, after `k` writes: the
counter has not moved; or it has, and the checksum is the old one; or both are new. -/
theorem Ring.cut_cases (c : Call) (course : Course) (k : ℕ)
    (hheader : (s.restoreOnce cfg).header = s.header) (hrestore : s.restoreWrites cfg course = []) :
    let t := s.stores ((s.appendWrites cfg c course).take k)
    let moved := { s.header with nextSequence := s.header.nextSequence + 1 }
    (∀ j, j ≠ cfg.slotOf s.header.nextSequence → t.records j = s.records j) ∧
      (k ≤ (s.writesBefore cfg course).length ∧ t.header = s.header ∨
        (s.writesBefore cfg course).length < k ∧ k < (s.appendWrites cfg c course).length ∧
          t.header = moved ∨
        (s.appendWrites cfg c course).length ≤ k ∧ t.header = moved.publish) := by
  intro t moved
  set i := cfg.slotOf s.header.nextSequence with hi
  set rest := course.after ++ [c.record s.header.nextSequence] with hrest
  have hbefore : s.writesBefore cfg course = course.before.map (MemWrite.slot i) := by
    rw [Ring.writesBefore, hrestore, hheader]
    rfl
  have hwrites : s.appendWrites cfg c course = course.before.map (MemWrite.slot i) ++
      (MemWrite.counter moved.nextSequence ::
        (rest.map (MemWrite.slot i) ++ [MemWrite.crc moved.checksum])) := by
    rw [Ring.appendWrites, hbefore, hheader]
  have ht : t = s.stores ((s.appendWrites cfg c course).take k) := rfl
  rw [hwrites] at ht
  rw [hbefore, hwrites]
  simp only [List.length_append, List.length_cons, List.length_map, List.length_nil]
  -- the slots, as far as they are written after the counter has moved
  have hafter : ∀ contents : List Encoded,
      ((s.stores (course.before.map (MemWrite.slot i))).stores
        (MemWrite.counter moved.nextSequence :: contents.map (MemWrite.slot i))).header = moved ∧
      ∀ j, j ≠ i → ((s.stores (course.before.map (MemWrite.slot i))).stores
        (MemWrite.counter moved.nextSequence :: contents.map (MemWrite.slot i))).records j =
          s.records j := by
    intro contents
    obtain ⟨hh, hr⟩ := s.stores_slot i course.before
    obtain ⟨hh', hr'⟩ := Ring.stores_slot
      ((s.stores (course.before.map (MemWrite.slot i))).store (.counter moved.nextSequence))
      i contents
    refine ⟨hh'.trans ?_, fun j hj => (hr' j hj).trans (hr j hj)⟩
    show ({ (s.stores (course.before.map (MemWrite.slot i))).header with
      nextSequence := moved.nextSequence } : Header) = moved
    rw [hh]
  rcases Nat.lt_or_ge course.before.length k with hlt | hle
  · obtain ⟨m, rfl⟩ : ∃ m, k = course.before.length + (m + 1) := ⟨k - course.before.length - 1, by omega⟩
    rw [List.take_append, List.take_of_length_le (by rw [List.length_map]; omega), List.length_map,
      Nat.add_sub_cancel_left, List.take_succ_cons, Ring.stores_append] at ht
    rcases Nat.lt_or_ge rest.length m with hfull | hpart
    · -- all writes are done
      rw [List.take_of_length_le (by simp; omega), ← List.cons_append, Ring.stores_append] at ht
      obtain ⟨hh, hr⟩ := hafter rest
      refine ⟨fun j hj => ?_, .inr (.inr ⟨by omega, ?_⟩)⟩
      · rw [ht]
        exact hr j hj
      · rw [ht]
        show ({ ((s.stores _).stores _).header with crc := moved.checksum } : Header) = _
        rw [hh]
        rfl
    · rw [List.take_append_of_le_length (by rw [List.length_map]; omega), ← List.map_take] at ht
      obtain ⟨hh, hr⟩ := hafter (rest.take m)
      refine ⟨fun j hj => ?_, .inr (.inl ⟨by omega, by omega, by rw [ht, hh]⟩)⟩
      rw [ht]
      exact hr j hj
  · rw [List.take_append_of_le_length (by rw [List.length_map]; exact hle), ← List.map_take] at ht
    obtain ⟨hh, hr⟩ := s.stores_slot i (course.before.take k)
    refine ⟨fun j hj => ?_, .inl ⟨hle, by rw [ht, hh]⟩⟩
    rw [ht]
    exact hr j hj

/-- The writes of `restore_once` make the header it leaves. -/
theorem Ring.stores_restoreWrites (cfg : Config) (s : Ring) (course : Course) :
    (s.stores (s.restoreWrites cfg course)).header = (s.restoreOnce cfg).header ∧
      (s.stores (s.restoreWrites cfg course)).records = s.records := by
  have hheaders : ∀ (hs : List Header) (s : Ring),
      (s.stores (hs.map .header)).records = s.records := by
    intro hs
    induction hs with
    | nil => exact fun _ => rfl
    | cons h hs ih => exact fun s => ih (s.store (.header h))
  unfold Ring.restoreWrites Ring.restoreOnce
  by_cases hr : s.restored = true
  · rw [if_pos (.inl hr), if_pos hr]
    exact ⟨rfl, rfl⟩
  · by_cases hv : s.header.Valid cfg
    · rw [if_pos (.inr hv), if_neg hr, if_pos hv]
      exact ⟨rfl, rfl⟩
    · rw [if_neg (not_or.2 ⟨hr, hv⟩), if_neg hr, if_neg hv, Ring.stores_append]
      exact ⟨rfl, hheaders course.header s⟩

/-- **All the writes make the append**, whatever memory held on the way. -/
theorem Ring.stores_appendWrites (cfg : Config) (s : Ring) (c : Call) (course : Course) :
    (s.stores (s.appendWrites cfg c course)).records = (s.append cfg c).records ∧
      (s.stores (s.appendWrites cfg c course)).header = (s.append cfg c).header := by
  obtain ⟨hh, hr⟩ := s.stores_restoreWrites cfg course
  set h := (s.restoreOnce cfg).header with hdef
  set i := cfg.slotOf h.nextSequence with hi
  set u := s.stores (s.restoreWrites cfg course) with hu
  obtain ⟨hh₁, hr₁⟩ := u.stores_slot i course.before
  set v := (u.stores (course.before.map (.slot i))).store (.counter (h.nextSequence + 1)) with hv
  obtain ⟨hh₂, hr₂⟩ := v.stores_slot i course.after
  have hall : s.stores (s.appendWrites cfg c course) =
      ((v.stores (course.after.map (.slot i))).store (.slot i (c.record h.nextSequence))).store
        (.crc ({ h with nextSequence := h.nextSequence + 1 } : Header).checksum) := by
    rw [Ring.appendWrites, Ring.writesBefore, ← hdef, ← hi, Ring.stores_append, Ring.stores_append,
      ← hu, List.map_append]
    show ((v.stores (_ ++ _ ++ _))) = _
    rw [Ring.stores_append, Ring.stores_append]
    rfl
  rw [hall]
  constructor
  · funext j
    show Function.update (v.stores (course.after.map (.slot i))).records i
      (c.record h.nextSequence) j =
        Function.update (s.restoreOnce cfg).records i (c.record h.nextSequence) j
    rw [restoreOnce_records]
    by_cases hj : j = i
    · rw [hj, Function.update_self, Function.update_self]
    · rw [Function.update_of_ne hj, Function.update_of_ne hj, hr₂ j hj]
      exact (hr₁ j hj).trans (congrFun hr j)
  · show ({ (v.stores (course.after.map (.slot i))).header with crc := _ } : Header) =
      ({ h with nextSequence := h.nextSequence + 1 } : Header).publish
    rw [hh₂]
    show ({ ({ (u.stores (course.before.map (.slot i))).header with
      nextSequence := h.nextSequence + 1 } : Header) with crc := _ } : Header) = _
    rw [hh₁, hh]
    rfl

/-! ### What is retained -/

/-- A ring whose header counts the record as held, with the slot as it was, has it after a reset. -/
theorem Ring.reset_serves {t : Ring} {q : UInt64} {r : Encoded}
    (hget : s.getEncoded cfg q = .ok r) (hvalid : t.header.Valid cfg)
    (hholds : t.header.Holds cfg q) (hslot : t.records (cfg.slotOf q) = s.records (cfg.slotOf q)) :
    t.reset.getEncoded cfg q = .ok r ∧ ∀ count : UInt16, count ≠ 0 → count.toNat ≤ maxRead →
      ∃ w, t.reset.window cfg count = .ok w ∧ w.overwritten < q ∧ q < w.end := by
  obtain ⟨-, hrec, hok⟩ := getEncoded_eq_ok.1 hget
  have hrestored : (t.reset.restoreOnce cfg).header.Holds cfg q := by
    rw [Ring.reset_header hvalid]
    exact hholds
  exact ⟨getEncoded_eq_ok.2 ⟨hrestored, hslot.trans hrec, hok⟩,
    fun _ hpos hle => window_of_holds hrestored hpos hle⟩

/-- The next append keeps what is held in other slots: only the sequence a ring's length back has
the slot of the next one. -/
theorem Header.Holds.moved {h : Header} {q : UInt64} (hq : h.Holds cfg q)
    (hslot : cfg.slotOf q ≠ cfg.slotOf h.nextSequence) (hwrap : h.nextSequence + 1 ≠ 0) :
    ({ h with nextSequence := h.nextSequence + 1 } : Header).publish.Holds cfg q := by
  obtain ⟨h1, h2, h3⟩ := hq
  have hlt := h.nextSequence.toNat_lt
  have hone : (1 : UInt64).toNat = 1 := rfl
  have hsucc : (h.nextSequence + 1).toNat = h.nextSequence.toNat + 1 := by
    have hne : (h.nextSequence + 1).toNat ≠ 0 := fun hz => hwrap (UInt64.toNat_inj.1 hz)
    rw [UInt64.toNat_add, hone] at hne ⊢
    omega
  have hsub : ∀ x : UInt64, 0 < x.toNat → (x - 1).toNat = x.toNat - 1 := by
    intro x hx
    rw [UInt64.toNat_sub_of_le _ _ (UInt64.le_iff_toNat_le.2 (by omega)), hone]
  have hne : h.nextSequence.toNat - q.toNat ≠ cfg.depth := by
    intro hd
    refine hslot ?_
    unfold Config.slotOf
    rw [hsub q h1, hsub _ (by omega), show h.nextSequence.toNat - 1 = q.toNat - 1 + cfg.depth by omega,
      Nat.add_mod_right]
  have hnext : ({ h with nextSequence := h.nextSequence + 1 } : Header).publish.nextSequence.toNat =
      h.nextSequence.toNat + 1 := hsucc
  exact ⟨h1, by omega, by omega⟩

/-- **When the log survives.**  After any appends on any memory, for a reset after `k` writes of one
more: every record held beside the slot of the new one is there in the next boot if and only if
there was none, or the reset finds the counter and the checksum together. -/
theorem retained_iff (cfg : Config) (records : ℕ → Encoded) (header : Header) (calls : List Call)
    (c : Call) (course : Course) (k : ℕ) :
    let s := (Ring.boot records header).appends cfg calls
    s.Retains cfg (s.stores ((s.appendWrites cfg c course).take k)).reset ↔
      ¬ s.HoldsBeside cfg ∨ s.CleanCut cfg c course k := by
  intro s
  have hpub : s.Published cfg :=
    Ring.Published.appends (s := .boot records header) nofun calls
  by_cases hbeside : s.HoldsBeside cfg
  · obtain ⟨q₀, r₀, hget₀, hslot₀⟩ := hbeside
    obtain ⟨hheader, hvalid, hrestore⟩ := hpub.of_getEncoded hget₀ course
    obtain ⟨hrecords, hcut⟩ := Ring.cut_cases c course k hheader hrestore
    set t := s.stores ((s.appendWrites cfg c course).take k) with ht
    set moved : Header := { s.header with nextSequence := s.header.nextSequence + 1 } with hmoved
    have hlong : (s.writesBefore cfg course).length < (s.appendWrites cfg c course).length := by
      simp only [Ring.appendWrites, List.length_append, List.length_cons]
      omega
    -- a header that is not valid has lost the record there is
    have hlost : ¬ t.header.Valid cfg → ¬ s.Retains cfg t.reset := fun hinvalid hr =>
      Ring.reset_lost hinvalid q₀ r₀ (hr q₀ r₀ hget₀ hslot₀).1
    have hnot : ¬ ¬ s.HoldsBeside cfg := not_not.2 ⟨q₀, r₀, hget₀, hslot₀⟩
    unfold Ring.CleanCut
    rw [hheader]
    rcases hcut with ⟨hk, hh⟩ | ⟨hk, hk', hh⟩ | ⟨hk, hh⟩
    · refine iff_of_true (fun q r hget hslot => ?_) (.inr (.inl hk))
      rw [hheader] at hslot
      refine Ring.reset_serves hget (by rw [hh]; exact hvalid) ?_ (hrecords _ hslot)
      rw [hh, ← hheader]
      exact (getEncoded_eq_ok.1 hget).1
    · refine iff_of_false (hlost ?_) ?_
      · rw [hh]
        exact hvalid.1.not_valid_moved
      · rintro (h | h | ⟨h, -⟩)
        · exact hnot h
        · omega
        · omega
    · by_cases hwrap : s.header.nextSequence + 1 = 0
      · refine iff_of_false (hlost ?_) ?_
        · rw [hh]
          rintro ⟨-, hpos⟩
          have hz : moved.publish.nextSequence = 0 := hwrap
          rw [hz] at hpos
          exact absurd hpos (by decide)
        · rintro (h | h | ⟨-, h⟩)
          · exact hnot h
          · omega
          · exact h hwrap
      · refine iff_of_true (fun q r hget hslot => ?_) (.inr (.inr ⟨hk, hwrap⟩))
        have hholds := (getEncoded_eq_ok.1 hget).1
        rw [hheader] at hslot hholds
        have hvalid' : moved.publish.Valid cfg := by
          obtain ⟨h1, h2, h3, h4, h5, -⟩ := hvalid.1
          refine ⟨Header.publish_owned ⟨h1, h2, h3, h4, h5⟩, UInt64.lt_iff_toNat_lt.2 ?_⟩
          exact Nat.pos_of_ne_zero fun hz => hwrap (UInt64.toNat_inj.1 hz)
        exact Ring.reset_serves hget (by rw [hh]; exact hvalid')
          (by rw [hh]; exact hholds.moved hslot hwrap) (hrecords _ hslot)
  · exact iff_of_true (fun q r hget hslot => absurd ⟨q, r, hget, hslot⟩ hbeside) (.inl hbeside)

/-- Two slots. -/
def smallConfig : Config := ⟨2, 0, 0, by decide, by decide⟩

/-- A message. -/
def sampleCall : Call := ⟨0, 1, false, [0x41], 0, 0, []⟩

/-- Memory full of zeros. -/
def zeroed : Ring := .boot (fun _ => ⟨0, 0, 0, 0, false, false, 0, []⟩) ⟨0, 0, 0, 0, 0, 0, 0, 0⟩

/-- **A reset right after the counter has moved.**  The first record is lost, although the second
was going to another slot. -/
theorem counter_moved_loses :
    let s := zeroed.appends smallConfig [sampleCall]
    let t := (s.stores ((s.appendWrites smallConfig sampleCall ⟨[], [], []⟩).take 1)).reset
    s.getEncoded smallConfig 1 = .ok (sampleCall.record 1) ∧
      smallConfig.slotOf 1 ≠ smallConfig.slotOf (s.restoreOnce smallConfig).header.nextSequence ∧
      t.getEncoded smallConfig 1 = .error .ENOENT ∧ ¬ s.Retains smallConfig t := by
  intro s t
  have hget : s.getEncoded smallConfig 1 = .ok (sampleCall.record 1) := by decide +kernel
  have hslot : smallConfig.slotOf 1 ≠
      smallConfig.slotOf (s.restoreOnce smallConfig).header.nextSequence := by decide +kernel
  have hlost : t.getEncoded smallConfig 1 = .error .ENOENT := by decide +kernel
  refine ⟨hget, hslot, hlost, fun h => ?_⟩
  exact absurd (hlost.symm.trans (h 1 _ hget hslot).1) nofun

end KfswServices.Log
