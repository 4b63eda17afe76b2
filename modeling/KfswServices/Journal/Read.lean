/-
# Reading by age

`kfsw_journal_store_get` finds the record of an age by going through the sequences in memory
once for each rank.  When these describe the file, the records it returns are those of the file,
newest first (`storeGet_working`).
-/

import KfswServices.Journal.Service

namespace KfswServices.Journal

/-- **The records of a file, newest first.** -/
def newestFirst (cfg : Config) (bytes : List UInt8) : List Record :=
  ((List.range cfg.capacity).filterMap (recordAt cfg bytes)).mergeSort
    fun a b => b.sequence ≤ a.sequence

variable {cfg : Config} {bytes : List UInt8}

theorem mem_newestFirst {r : Record} :
    r ∈ newestFirst cfg bytes ↔ ∃ i, recordAt cfg bytes i = some r := by
  rw [newestFirst, List.mem_mergeSort, List.mem_filterMap]
  constructor
  · rintro ⟨i, -, hr⟩
    exact ⟨i, hr⟩
  · rintro ⟨i, hr⟩
    exact ⟨i, List.mem_range.2 (slot_lt_of_recordAt hr), hr⟩

/-- No two records have one sequence: each stands in the slot of its own. -/
theorem pairwise_newestFirst (cfg : Config) (bytes : List UInt8) :
    (newestFirst cfg bytes).Pairwise fun a b => b.sequence < a.sequence := by
  set rs := (List.range cfg.capacity).filterMap (recordAt cfg bytes) with hrs
  have hne : rs.Pairwise fun a b => a.sequence ≠ b.sequence := by
    rw [hrs, List.pairwise_filterMap]
    refine List.pairwise_lt_range.imp fun {i j} hij a ha b hb heq => ?_
    have hi := (of_recordAt ha).2.1
    have hj := (of_recordAt hb).2.1
    rw [heq] at hi
    omega
  have hsorted : (newestFirst cfg bytes).Pairwise fun a b => decide (b.sequence ≤ a.sequence) :=
    List.pairwise_mergeSort (fun a b c hab hbc => by simp only [decide_eq_true_eq] at *; omega)
      (fun a b => by simp only [Bool.or_eq_true, decide_eq_true_eq]; omega) rs
  have hdistinct : (newestFirst cfg bytes).Pairwise fun a b => a.sequence ≠ b.sequence :=
    ((List.mergeSort_perm rs _).pairwise_iff fun h => h.symm).2 hne
  refine (hsorted.and hdistinct).imp fun {a b} h => ?_
  have hle := of_decide_eq_true h.1
  have hneq := h.2
  omega

/-! ### The two loops -/

/-- The inner loop ends with its start, or with the place of a sequence it went past. -/
theorem newestBelow_place (ceiling : ℕ) (l : List ℕ) (i : ℕ) (best : ℕ × ℕ) :
    newestBelow ceiling i l best = best ∨
      best.1 < (newestBelow ceiling i l best).1 ∧ (newestBelow ceiling i l best).1 < ceiling ∧
        ∃ k, l[k]? = some (newestBelow ceiling i l best).1 ∧
          (newestBelow ceiling i l best).2 = i + k := by
  induction l generalizing i best with
  | nil => exact .inl rfl
  | cons s rest ih =>
    rw [newestBelow]
    split_ifs with h
    · rcases ih (i + 1) (s, i) with heq | ⟨hlt, hc, k, hk, hslot⟩
      · rw [heq]
        exact .inr ⟨h.1, h.2, 0, rfl, rfl⟩
      · exact .inr ⟨h.1.trans hlt, hc, k + 1, hk, by rw [hslot]; omega⟩
    · rcases ih (i + 1) best with heq | ⟨hlt, hc, k, hk, hslot⟩
      · exact .inl heq
      · exact .inr ⟨hlt, hc, k + 1, hk, by rw [hslot]; omega⟩

/-- It ends with nothing smaller than it started with or went past. -/
theorem newestBelow_ge (ceiling : ℕ) (l : List ℕ) (i : ℕ) (best : ℕ × ℕ) :
    best.1 ≤ (newestBelow ceiling i l best).1 ∧
      ∀ s ∈ l, s < ceiling → s ≤ (newestBelow ceiling i l best).1 := by
  induction l generalizing i best with
  | nil => exact ⟨le_rfl, nofun⟩
  | cons s rest ih =>
    rw [newestBelow]
    split_ifs with h
    · obtain ⟨hbest, hrest⟩ := ih (i + 1) (s, i)
      refine ⟨h.1.le.trans hbest, fun t ht hc => ?_⟩
      rcases List.mem_cons.1 ht with rfl | ht
      · exact hbest
      · exact hrest t ht hc
    · obtain ⟨hbest, hrest⟩ := ih (i + 1) best
      refine ⟨hbest, fun t ht hc => ?_⟩
      rcases List.mem_cons.1 ht with rfl | ht
      · have : ¬ t > best.1 := fun hgt => h ⟨hgt, hc⟩
        omega
      · exact hrest t ht hc

/-- **The outer loop ranks.**  With the sequences of the slots in descending order in `d`, the
rank `age` is `d[age]`. -/
theorem ranked_spec {l d : List ℕ} (hd : d.Pairwise (· > ·)) (hmem : ∀ x, x ∈ d ↔ x ∈ l ∧ 0 < x)
    (hlt : ∀ x ∈ l, x < uint64Max) {age : ℕ} (h : age < d.length) :
    (ranked l age).1 = d[age] ∧ l[(ranked l age).2]? = some d[age] := by
  -- one pass finds the sequence that is the next below the ceiling
  have hpass : ∀ (ceiling slot : ℕ) (x : ℕ), x ∈ d → x < ceiling →
      (∀ y ∈ d, y < ceiling → y ≤ x) →
      (newestBelow ceiling 0 l (0, slot)).1 = x ∧
        l[(newestBelow ceiling 0 l (0, slot)).2]? = some x := by
    intro ceiling slot x hx hc hnext
    obtain ⟨hxl, hpos⟩ := (hmem x).1 hx
    have hge := (newestBelow_ge ceiling l 0 (0, slot)).2 x hxl hc
    rcases newestBelow_place ceiling l 0 (0, slot) with heq | ⟨hgt, hlt', k, hk, hslot⟩
    · rw [heq] at hge
      omega
    · have hle := hnext _ ((hmem _).2 ⟨List.mem_of_getElem? hk, hgt⟩) hlt'
      have heq : (newestBelow ceiling 0 l (0, slot)).1 = x := by omega
      rw [heq] at hk
      exact ⟨heq, by rw [hslot, Nat.zero_add]; exact hk⟩
  induction age with
  | zero =>
    have hx : d[0] ∈ d := List.getElem_mem h
    refine hpass uint64Max 0 d[0] hx (hlt _ ((hmem _).1 hx).1) fun y hy _ => ?_
    obtain ⟨j, hj, rfl⟩ := List.mem_iff_getElem.1 hy
    rcases Nat.eq_zero_or_pos j with rfl | hpos
    · exact le_rfl
    · exact (List.pairwise_iff_getElem.1 hd 0 j h hj hpos).le
  | succ age ih =>
    have hage : age < d.length := by omega
    obtain ⟨hc, -⟩ := ih hage
    rcases hrank : ranked l age with ⟨ceiling, slot⟩
    rw [hrank] at hc
    obtain rfl : ceiling = d[age] := hc
    simp only [ranked, hrank]
    refine hpass d[age] _ d[age + 1] (List.getElem_mem h)
      (List.pairwise_iff_getElem.1 hd age (age + 1) hage h (Nat.lt_succ_self _)) fun y hy hyc => ?_
    obtain ⟨j, hj, rfl⟩ := List.mem_iff_getElem.1 hy
    rcases lt_trichotomy j (age + 1) with hlt | rfl | hgt
    · rcases Nat.lt_succ_iff_lt_or_eq.1 hlt with hlt | rfl
      · have := List.pairwise_iff_getElem.1 hd j age hj hage hlt
        omega
      · omega
    · exact le_rfl
    · exact (List.pairwise_iff_getElem.1 hd (age + 1) j h hj hgt).le

/-! ### Reading -/

variable {s : Store}

/-- The sequences in memory, without the empty slots, are those of the records. -/
theorem Store.Matches.mem_sequences (h : s.Matches cfg bytes) (x : ℕ) :
    x ∈ (newestFirst cfg bytes).map Record.sequence ↔ x ∈ s.sequences ∧ 0 < x := by
  rw [h.sequences, List.mem_map, List.mem_map]
  constructor
  · rintro ⟨r, hr, rfl⟩
    obtain ⟨i, hi⟩ := mem_newestFirst.1 hr
    have hlt := slot_lt_of_recordAt hi
    refine ⟨⟨i, List.mem_range.2 hlt, ?_⟩, Nat.pos_of_ne_zero (of_recordAt hi).1.1⟩
    rw [if_pos hlt, sequenceAt, hi]
    rfl
  · rintro ⟨⟨i, hi, rfl⟩, hpos⟩
    rw [if_pos (List.mem_range.1 hi)] at hpos ⊢
    cases hr : recordAt cfg bytes i with
    | none => simp [sequenceAt_eq_zero.2 hr] at hpos
    | some r => exact ⟨r, mem_newestFirst.2 ⟨i, hr⟩, by simp [sequenceAt, hr]⟩

/-- A sequence is in one slot in memory. -/
theorem Store.Matches.slot_unique {r : Record} {i slot : ℕ} (h : s.Matches cfg bytes)
    (hi : recordAt cfg bytes i = some r) (hslot : s.sequences[slot]? = some r.sequence) :
    i = slot := by
  obtain ⟨⟨hne, -⟩, hi', -⟩ := of_recordAt hi
  have hlt : slot < cfg.capacity := by
    have hlen := (List.getElem?_eq_some_iff.1 hslot).1
    rwa [h.sequences, List.length_map, List.length_range] at hlen
  have hat : sequenceAt cfg bytes slot = r.sequence := by
    rw [← h.getD hlt, List.getD_eq_getElem?_getD, hslot]
    rfl
  cases hq : recordAt cfg bytes slot with
  | none =>
    rw [sequenceAt_eq_zero.2 hq] at hat
    exact absurd hat.symm hne
  | some q =>
    have hq' : q.sequence = r.sequence := by
      rw [← hat, sequenceAt, hq]
      rfl
    rw [← hi', ← hq', (of_recordAt hq).2.1]

theorem Store.Matches.held_eq (h : s.Matches cfg bytes) :
    s.held = (newestFirst cfg bytes).length := by
  rw [h.held, h.sequences, List.countP_map, newestFirst, List.length_mergeSort,
    List.length_filterMap_eq_countP]
  refine List.countP_congr fun i hi => ?_
  have hzero : sequenceAt cfg bytes i = 0 ↔ recordAt cfg bytes i = none := sequenceAt_eq_zero
  simp [List.mem_range.1 hi, hzero, Option.isSome_iff_ne_none]

/-- The slot of the rank is read, and checked. -/
theorem storeGet_of_recordAt {age slot : ℕ} {r : Record} (hready : s.ready = true)
    (hage : age < s.held) (hrank : ranked s.sequences age = (r.sequence, slot))
    (h : recordAt cfg bytes slot = some r) :
    storeGet cfg (.working cfg) (.file bytes) s age = .ok r := by
  obtain ⟨hwhole, hdec, -⟩ := recordAt_eq_some.1 h
  unfold storeGet
  rw [if_neg (by simp [hready]), if_neg (by omega)]
  simp only [hrank, openExisting, FsEnv.working, hwhole, hdec, ne_eq, not_true_eq_false, if_false]

/-- **A read by age**, with the store as the file is, on working storage. -/
theorem storeGet_working (h : s.Matches cfg bytes) (hready : s.ready = true) (age : ℕ) :
    storeGet cfg (.working cfg) (.file bytes) s age =
      match (newestFirst cfg bytes)[age]? with
      | some r => .ok r
      | none => .error .ENOENT := by
  by_cases hage : age < (newestFirst cfg bytes).length
  · rw [List.getElem?_eq_getElem hage]
    have hlt : ∀ x ∈ s.sequences, x < uint64Max := by
      intro x hx
      by_cases hpos : 0 < x
      · obtain ⟨r, hr, rfl⟩ := List.mem_map.1 ((h.mem_sequences x).2 ⟨hx, hpos⟩)
        obtain ⟨i, hi⟩ := mem_newestFirst.1 hr
        exact (of_recordAt hi).1.2.1
      · simp only [uint64Max]
        omega
    obtain ⟨hseq, hslot⟩ := ranked_spec ((pairwise_newestFirst cfg bytes).map _ fun _ _ h => h)
      h.mem_sequences hlt (by rwa [List.length_map])
    rcases hrank : ranked s.sequences age with ⟨sequence, slot⟩
    rw [hrank, List.getElem_map] at hseq hslot
    obtain rfl : sequence = _ := hseq
    obtain ⟨i, hi⟩ := mem_newestFirst.1 (List.getElem_mem hage)
    obtain rfl := h.slot_unique hi hslot
    exact storeGet_of_recordAt hready (h.held_eq ▸ hage) hrank hi
  · unfold storeGet
    rw [if_neg (by simp [hready]), h.held_eq, if_pos (by omega), List.getElem?_eq_none (by omega)]

/-- A read that succeeds would do so on working storage. -/
theorem storeGet_of_ok {env : FsEnv cfg} {entry : Entry} {age : ℕ} {r : Record}
    (h : storeGet cfg env entry s age = .ok r) : s.ready = true ∧
      (∃ bytes, entry = .file bytes) ∧ storeGet cfg (.working cfg) entry s age = .ok r := by
  unfold storeGet at h ⊢
  by_cases hready : (!s.ready) = true
  · rw [if_pos hready] at h
    cases h
  rw [if_neg hready] at h ⊢
  by_cases hheld : s.held ≤ age
  · rw [if_pos hheld] at h
    cases h
  rw [if_neg hheld] at h ⊢
  refine ⟨by simpa using hready, ?_⟩
  simp only at h ⊢
  cases hopen : env.openFile with
  | some e => simp [hopen, openExisting] at h
  | none =>
    cases entry with
    | absent => simp [hopen, openExisting] at h
    | directory => simp [hopen, openExisting] at h
    | file bytes =>
      refine ⟨⟨bytes, rfl⟩, ?_⟩
      simp only [hopen, openExisting, FsEnv.working] at h ⊢
      cases hseek : env.seek with
      | some e => simp [hseek] at h
      | none =>
        cases hread : env.read 0 with
        | some e => simp [hseek, hread] at h
        | none =>
          cases hclose : env.close with
          | some e =>
            simp only [hseek, hread, hclose] at h
            split_ifs at h
            split at h
            · cases h
            · split_ifs at h
          | none => simpa only [hseek, hread, hclose] using h

/-- The records at the path, newest first. -/
def Entry.records (cfg : Config) (entry : Entry) : List Record := newestFirst cfg entry.contents

end KfswServices.Journal
