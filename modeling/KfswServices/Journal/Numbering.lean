/-
# The numbering in memory

What `struct kfsw_journal_store` keeps from append to append, whatever happens to the file: the
next sequence is one above the largest in the slots.
-/

import KfswServices.Journal.Store

namespace KfswServices.Journal

/-- The fields in memory fit together. -/
structure Store.Consistent (cfg : Config) (s : Store) : Prop where
  length : s.sequences.length = cfg.capacity
  next_gt : ∀ x ∈ s.sequences, x < s.nextSequence
  next_reached : s.nextSequence = 1 ∨ ∃ x ∈ s.sequences, s.nextSequence = x + 1
  next_le : s.nextSequence ≤ uint64Max

theorem Store.Matches.consistent {cfg : Config} {bytes : List UInt8} {s : Store}
    (h : s.Matches cfg bytes) : s.Consistent cfg := by
  have hmem : ∀ x, x ∈ s.sequences ↔ ∃ i < cfg.capacity, sequenceAt cfg bytes i = x := by
    intro x
    rw [h.sequences, List.mem_map]
    constructor
    · rintro ⟨i, hi, rfl⟩
      have hi := List.mem_range.1 hi
      exact ⟨i, hi, by rw [if_pos hi]⟩
    · rintro ⟨i, hi, rfl⟩
      exact ⟨i, List.mem_range.2 hi, by rw [if_pos hi]⟩
  have hpos : 0 < s.nextSequence := by
    rcases h.next_reached with h1 | ⟨i, -, r, -, hn⟩ <;> omega
  refine ⟨by rw [h.sequences]; simp, fun x hx => ?_, ?_, h.next_le⟩
  · obtain ⟨i, hi, rfl⟩ := (hmem x).1 hx
    unfold sequenceAt
    cases hr : recordAt cfg bytes i with
    | none => exact hpos
    | some r => exact h.next_gt i hi r hr
  · rcases h.next_reached with h1 | ⟨i, hi, r, hr, hn⟩
    · exact .inl h1
    · exact .inr ⟨r.sequence, (hmem _).2 ⟨i, hi, by simp [sequenceAt, hr]⟩, hn⟩

section

variable {cfg : Config} {s : Store} (h : s.Consistent cfg)
include h

theorem Store.Consistent.append {r : Record}
    (hlt : r.sequence < uint64Max)
    (hstale : s.sequences.getD (cfg.slotOf r.sequence) 0 ≤ r.sequence) :
    (s.append (cfg.slotOf r.sequence) r).Consistent cfg := by
  have hslot : cfg.slotOf r.sequence < s.sequences.length := h.length ▸ slotOf_lt cfg _
  refine ⟨by simpa [Store.append] using h.length, fun x hx => ?_, ?_, max_le h.next_le hlt⟩
  · show x < max s.nextSequence (r.sequence + 1)
    rcases List.mem_or_eq_of_mem_set hx with hx | rfl
    · exact lt_max_of_lt_left (h.next_gt x hx)
    · exact lt_max_of_lt_right (Nat.lt_succ_self _)
  · rcases le_total s.nextSequence (r.sequence + 1) with hle | hle
    · exact .inr ⟨r.sequence, List.mem_set hslot _, max_eq_right hle⟩
    · have hmax : (s.append (cfg.slotOf r.sequence) r).nextSequence = s.nextSequence :=
        max_eq_left hle
      rw [hmax]
      rcases h.next_reached with h1 | ⟨x, hx, hnext⟩
      · exact .inl h1
      · obtain ⟨i, hi, rfl⟩ := List.mem_iff_getElem.1 hx
        by_cases his : cfg.slotOf r.sequence = i
        · -- the largest sequence was in this slot, and this one is not below it
          rw [his, List.getD_eq_getElem?_getD, List.getElem?_eq_getElem hi,
            Option.getD_some] at hstale
          exact .inr ⟨r.sequence, List.mem_set hslot _, by omega⟩
        · refine .inr ⟨s.sequences[i], ?_, hnext⟩
          refine List.mem_of_getElem? (i := i) ?_
          rw [Store.append, List.getElem?_set_ne his, List.getElem?_eq_getElem hi]

theorem Store.Consistent.pos : 0 < s.nextSequence := by
  rcases h.next_reached with h1 | ⟨x, -, hx⟩ <;> omega

/-- The sequence in a slot is below the next one. -/
theorem Store.Consistent.getD_lt (i : ℕ) : s.sequences.getD i 0 < s.nextSequence := by
  rw [List.getD_eq_getElem?_getD]
  cases hi : s.sequences[i]? with
  | none => exact h.pos
  | some x => exact h.next_gt x (List.mem_of_getElem? hi)

end

end KfswServices.Journal
