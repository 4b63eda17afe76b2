/-
# Owners that keep their values

What is read of a parameter with a `sample` is what its owner says, whatever is in the storage.  An
owner is `Coherent` when that is a whole value, when it is the value that the owner has been handed
last, and when it has nothing to do with the other parameters; a failing `apply` hands over nothing.
Then a write is read back, unless its owner is not told of it, and no other value is different
(`Coherent.current_wireApply`, `Coherent.current_wireApply_of_ne`).
-/

import KfswServices.Param.Wire

namespace KfswServices.Param

open Library

/-- The owner of the parameter is told when a value is written. -/
def Entry.heard (entry : Entry) : Bool :=
  if entry.info.type = .STRING then entry.definition.changedText
  else if entry.info.type = .DATA then entry.definition.changedData
  else entry.definition.apply.isSome || entry.definition.changed

variable {ω : Type} {cfg : Config} {owner : Owner ω} {entry : Entry} {value : Value} {n : Node ω}

/-- Owners of these parameters that keep the values they are handed, each for itself. -/
structure Owner.Coherent (cfg : Config) (owner : Owner ω) (entries : List Entry) : Prop where
  quiet : owner.Quiet
  whole : ∀ entry ∈ entries, ∀ bytes, owner.sample entry = some bytes → ∀ w cells cells',
    readCells cfg entry (poke (bytes w) cells) = readCells cfg entry (poke (bytes w) cells')
  follows : ∀ entry ∈ entries, entry.heard = true → ∀ bytes, owner.sample entry = some bytes →
    ∀ (n : Node ω) (value : Value), n.service.initialized = true →
      validateEntry entry value = none → (n.wireApply owner entry value).1 = none → ∀ cells,
        readCells cfg entry (poke (bytes (n.wireApply owner entry value).2.owner) cells) =
          stored cfg entry value
  apart : ∀ entry ∈ entries, ∀ other ∈ entries, entry.info.id ≠ other.info.id → ∀ bytes,
    owner.sample other = some bytes → ∀ (n : Node ω) (value : Value),
      bytes (n.wireApply owner entry value).2.owner = bytes n.owner

namespace Node

/-- What is read of a parameter without a `sample` is in the storage. -/
theorem current_of_none (h : owner.sample entry = none) :
    n.current cfg owner entry = readCells cfg entry (n.storage entry.info.id) := by
  unfold current sample
  rw [h]

theorem current_of_some {bytes : ω → List UInt8} (h : owner.sample entry = some bytes) :
    n.current cfg owner entry =
      readCells cfg entry (poke (bytes n.owner) (n.storage entry.info.id)) := by
  unfold current sample
  rw [h]
  dsimp only
  rw [Function.update_self]

/-- A write that the owner is not told of leaves it as it was. -/
theorem wireApply_unheard (h : entry.heard = false) (htype : value.type = entry.info.type) :
    (n.wireApply owner entry value).2.owner = n.owner := by
  unfold Entry.heard at h
  unfold wireApply
  rw [htype]
  by_cases htext : entry.info.type = .STRING
  · rw [if_pos htext] at h ⊢
    simp [writeTextEntry, h]
  · rw [if_neg htext] at h ⊢
    by_cases hdata : entry.info.type = .DATA
    · rw [if_pos hdata] at h ⊢
      simp [writeDataEntry, h]
    · rw [if_neg hdata] at h ⊢
      obtain ⟨happly, hchanged⟩ := Bool.or_eq_false_iff.1 h
      simp [writeEntry, applyEntry, happly, hchanged]

end Node

/-- What has been read and is valid is stored as it is. -/
theorem stored_readCells {cells : Cells} (hadm : Admitted cfg entry)
    (hvalid : validateEntry entry (readCells cfg entry cells) = none) :
    stored cfg entry (readCells cfg entry cells) = readCells cfg entry cells := by
  obtain ⟨-, -, hsize, -⟩ := validateEntry_eq_none.1 hvalid
  unfold stored
  by_cases htext : entry.info.type = .STRING
  · obtain ⟨hcap, hpos, -⟩ := hadm.capacity_text htext
    rw [if_pos htext] at hsize ⊢
    have hshape : readCells cfg entry cells = { Value.blank cfg .STRING
        ((readCells cfg entry cells).text.length + 1) with
          text := (readCells cfg entry cells).text } := by
      rw [readCells, if_pos htext]
    have hle : (readCells cfg entry cells).text.length + 1 ≤ entryCapacity entry := by
      have := hsize.2
      rw [hshape] at this
      exact this
    dsimp only
    rw [CString.take_of_length_le (by omega)]
    exact hshape.symm
  · rw [if_neg htext]
    by_cases hdata : entry.info.type = .DATA
    · rw [if_pos hdata]
      simp [readCells, hdata]
    · rw [if_neg hdata]
      have hlt := getLe_lt (load (entryCapacity entry) cells)
      rw [length_load] at hlt
      simp only [readCells, if_neg htext, if_neg hdata]
      rw [scalar_cut]
      rw [UInt64.toNat_ofNat']
      exact Nat.lt_of_le_of_lt (Nat.mod_le _ _) hlt

namespace Owner.Coherent

variable {other : Entry}

variable (value) in
/-- **Another parameter** reads as before. -/
theorem current_wireApply_of_ne (h : owner.Coherent cfg n.service.entries)
    (hentry : entry ∈ n.service.entries) (hother : other ∈ n.service.entries)
    (hne : entry.info.id ≠ other.info.id) :
    (n.wireApply owner entry value).2.current cfg owner other = n.current cfg owner other := by
  have hstorage : (n.wireApply owner entry value).2.storage other.info.id =
      n.storage other.info.id := by
    rw [Node.wireApply_storage]
    split_ifs
    · exact Function.update_of_ne hne.symm _ _
    · rfl
  cases hsample : owner.sample other with
  | none => rw [Node.current_of_none hsample, Node.current_of_none hsample, hstorage]
  | some bytes =>
    rw [Node.current_of_some hsample, Node.current_of_some hsample, hstorage,
      h.apart entry hentry other hother hne bytes hsample]

/-- **A written value is read**, unless the owner that is asked is not told. -/
theorem current_wireApply (h : owner.Coherent cfg n.service.entries)
    (hadm : Admitted cfg entry) (hentry : entry ∈ n.service.entries)
    (hinit : n.service.initialized = true) (hvalid : validateEntry entry value = none)
    (hdata : value.type = .DATA → value.size = entryCapacity entry ∧
      value.size ≤ value.bytes.length)
    (hresult : (n.wireApply owner entry value).1 = none) :
    (n.wireApply owner entry value).2.current cfg owner entry =
      if (owner.sample entry).isSome = true ∧ entry.heard = false then n.current cfg owner entry
      else stored cfg entry value := by
  have htype := (validateEntry_eq_none.1 hvalid).2.1
  cases hsample : owner.sample entry with
  | none =>
    rw [if_neg (by simp), Node.current_of_none hsample, Node.wireApply_storage, if_pos hresult]
    show readCells cfg entry (Function.update n.storage entry.info.id _ entry.info.id) = _
    rw [Function.update_self]
    exact readCells_put hadm htype hdata _
  | some bytes =>
    rw [Node.current_of_some hsample]
    cases hheard : entry.heard with
    | false =>
      rw [if_pos (by simp), Node.wireApply_unheard hheard htype, Node.current_of_some hsample]
      exact h.whole entry hentry bytes hsample _ _ _
    | true =>
      rw [if_neg (by simp)]
      exact h.follows entry hentry hheard bytes hsample n value hinit hvalid hresult _

end Owner.Coherent

end KfswServices.Param
