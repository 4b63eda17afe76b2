/-
# The stored values

The other half of `src/parameter/parameter.c`: what the service does to the storage of a
definition, and when it calls the owner of the parameter.  `Node` is the registry, the storage of
its entries, and what their owners keep; `Owner` is what the owners do when they are called.

A value is written as `put` says, whatever has decided on it, and read as `readCells` says.
-/

import KfswServices.Library.Cells
import KfswServices.Library.LittleEndian
import KfswServices.Param.Registry
import Mathlib.Data.List.Nodup

namespace KfswServices.Param

open Library

/-- `KFSW_PARAM_FLAG_PERSISTENT`. -/
abbrev flagPersistent : UInt32 := 0x00010000

/-- What the callbacks of the definitions do to what their owners keep.  Whether there is an
`apply` or a change callback is for the definition to say; a `sample` that is NULL is `none`, and
else it gives the bytes to store. -/
structure Owner (ω : Type) where
  apply : Entry → Scalar → ω → Option Errno × ω
  changed : Entry → Scalar → ω → ω
  changedText : Entry → CString → ω → ω
  changedData : Entry → List UInt8 → ω → ω
  sample : Entry → Option (ω → List UInt8)

/-- An `apply` that fails leaves what its owner keeps as it was. -/
def Owner.Quiet {ω : Type} (owner : Owner ω) : Prop :=
  ∀ entry value w, (owner.apply entry value w).1 ≠ none → (owner.apply entry value w).2 = w

/-- The registry, the storage of its entries by identifier, and what the owners keep. -/
structure Node (ω : Type) where
  service : Service
  storage : UInt16 → Cells
  owner : ω

/-- `kfsw_param_find_name`. -/
def findName (s : Service) (name : CString) : Option Entry :=
  s.entries.find? (·.info.name = name)

/-- `kfsw_param_get_info`. -/
def getInfo (s : Service) (name : CString) : Except Errno Info :=
  if !s.initialized then .error .EACCES
  else
    match findName s name with
    | none => .error .ENOENT
    | some entry => .ok entry.info

/-- A value as `memset` leaves it, with its type and its size. -/
def Value.blank (cfg : Config) (type : ParamType) (size : ℕ) : Value :=
  ⟨type, size, 0, CString.empty, List.replicate cfg.stringMax 0⟩

/-- What `read_entry` makes of the bytes in the storage. -/
def readCells (cfg : Config) (entry : Entry) (cells : Cells) : Value :=
  let size := entryCapacity entry
  if entry.info.type = .STRING then
    let text := copyText cfg.stringMax (CString.scan (load size cells)) size
    { Value.blank cfg .STRING (text.length + 1) with text := text }
  else if entry.info.type = .DATA then
    { Value.blank cfg .DATA size with bytes := load size cells }
  else
    { Value.blank cfg entry.info.type size with scalar := UInt64.ofNat (getLe (load size cells)) }

/-- What `kfsw_param_wire_apply` leaves in the storage. -/
def put (entry : Entry) (decoded : Value) : Cells → Cells :=
  if decoded.type = .STRING then
    poke ((copyText entry.info.arraySize.toNat decoded.text entry.info.arraySize.toNat).bytes ++
      [0])
  else if decoded.type = .DATA then poke (decoded.bytes.take decoded.size)
  else poke (putLe (scalarSize entry.info.type) decoded.scalar.toNat)

namespace Node

variable {ω : Type}

/-- A write to the storage of an entry. -/
def store (n : Node ω) (entry : Entry) (decoded : Value) : Node ω :=
  { n with
    storage := Function.update n.storage entry.info.id
      (put entry decoded (n.storage entry.info.id)) }

variable (cfg : Config) (owner : Owner ω)

/-- `kfsw_param_read_stored_entry`. -/
def readStoredEntry (entry : Entry) (n : Node ω) : Except Errno Value :=
  if entryCapacity entry = 0 then .error .ENOTSUP
  else .ok (readCells cfg entry (n.storage entry.info.id))

/-- The call of an entry's `sample`. -/
def sample (entry : Entry) (n : Node ω) : Node ω :=
  match owner.sample entry with
  | none => n
  | some bytes =>
    { n with
      storage := Function.update n.storage entry.info.id
        (poke (bytes n.owner) (n.storage entry.info.id)) }

/-- `kfsw_param_read_entry`. -/
def readEntry (entry : Entry) (n : Node ω) : Except Errno Value × Node ω :=
  if entryCapacity entry = 0 then (.error .ENOTSUP, n)
  else ((n.sample owner entry).readStoredEntry cfg entry, n.sample owner entry)

/-- The call of an entry's `apply`, once the service is initialized. -/
def applyEntry (entry : Entry) (value : Scalar) (n : Node ω) : Option Errno × ω :=
  if n.service.initialized && entry.definition.apply.isSome then owner.apply entry value n.owner
  else (none, n.owner)

/-- `kfsw_param_write_entry`. -/
def writeEntry (entry : Entry) (value : Value) (n : Node ω) : Option Errno × Node ω :=
  match n.applyEntry owner entry value.scalar with
  | (some e, w) => (some e, { n with owner := w })
  | (none, w) =>
    (none, { n.store entry value with
      owner := if entry.definition.changed then owner.changed entry value.scalar w else w })

/-- `kfsw_param_write_data_entry`. -/
def writeDataEntry (entry : Entry) (value : Value) (n : Node ω) : Node ω :=
  { n.store entry value with
    owner := if entry.definition.changedData then
      owner.changedData entry (value.bytes.take value.size) n.owner else n.owner }

/-- `kfsw_param_write_text_entry`. -/
def writeTextEntry (entry : Entry) (value : Value) (n : Node ω) : Node ω :=
  { n.store entry value with
    owner := if entry.definition.changedText then
      owner.changedText entry
        (copyText entry.info.arraySize.toNat value.text entry.info.arraySize.toNat) n.owner
      else n.owner }

/-- `kfsw_param_wire_apply`. -/
def wireApply (entry : Entry) (decoded : Value) (n : Node ω) : Option Errno × Node ω :=
  if decoded.type = .STRING then (none, n.writeTextEntry owner entry decoded)
  else if decoded.type = .DATA then (none, n.writeDataEntry owner entry decoded)
  else n.writeEntry owner entry decoded

/-- `kfsw_param_write_default`. -/
def writeDefault (entry : Entry) (n : Node ω) : Option Errno × Node ω :=
  let value := readDefault cfg entry
  let result := if n.service.initialized then validateEntry entry value else none
  if result = none then n.wireApply owner entry value else (result, n)

/-- The defaults of `kfsw_param_init`, one entry after the other. -/
def writeDefaults : List Entry → Node ω → Option Errno × Node ω
  | [], n => (none, n)
  | entry :: entries, n =>
    match n.writeDefault cfg owner entry with
    | (some e, n) => (some e, n)
    | (none, n) => writeDefaults entries n

/-- `kfsw_param_init`. -/
def init (sets : List (Option DefinitionSet)) (n : Node ω) : Option Errno × Node ω :=
  if sets.isEmpty then (some .EINVAL, n)
  else if n.service.initialized then (none, n)
  else
    match addSets cfg sets { n.service with entries := [], tables := [] } with
    | .error e => (some e, { n with service := { n.service with entries := [], tables := [] } })
    | .ok u =>
      if u.entries.isEmpty then
        (some .ENOENT, { n with service := { n.service with entries := [], tables := [] } })
      else
        let w := writeDefaults cfg owner u.entries { n with service := u }
        (w.1, { w.2 with service := { w.2.service with initialized := w.1 = none } })

/-- `kfsw_param_get`. -/
def get (name : CString) (n : Node ω) : Except Errno Value × Node ω :=
  if !n.service.initialized then (.error .EACCES, n)
  else
    match findName n.service name with
    | none => (.error .ENOENT, n)
    | some entry => n.readEntry cfg owner entry

/-- `kfsw_param_set`, up to the snapshot that may follow. -/
def set (name : Option CString) (value : Option Value) (n : Node ω) : Option Errno × Node ω :=
  match name, value with
  | some name, some value =>
    if !n.service.initialized then (some .EACCES, n)
    else
      match findName n.service name with
      | none => (some .ENOENT, n)
      | some entry =>
        if entry.info.readOnly then (some .EACCES, n)
        else
          match validateEntry entry value with
          | some e => (some e, n)
          | none => n.wireApply owner entry value
  | _, _ => (some .EINVAL, n)

end Node

/-- Whether a value survives a reset. -/
def Entry.persistent (entry : Entry) : Bool := entry.info.flags &&& flagPersistent ≠ 0

namespace Node

variable {ω : Type} (cfg : Config) (owner : Owner ω)

/-- The first loop of `kfsw_param_restore_defaults`. -/
def checkDefaults (entries : List Entry) : Option Errno :=
  (entries.filter Entry.persistent).findSome? fun entry =>
    validateEntry entry (readDefault cfg entry)

/-- The second loop. -/
def applyDefaults : List Entry → Node ω → Option Errno × Node ω
  | [], n => (none, n)
  | entry :: entries, n =>
    if entry.persistent then
      match n.wireApply owner entry (readDefault cfg entry) with
      | (some e, n) => (some e, n)
      | (none, n) => applyDefaults entries n
    else applyDefaults entries n

/-- `kfsw_param_restore_defaults`. -/
def restoreDefaults (n : Node ω) : Option Errno × Node ω :=
  let persistent := n.service.entries.filter Entry.persistent
  if !n.service.initialized then (some .EACCES, n)
  else
    match checkDefaults cfg n.service.entries with
    | some e => (some e, n)
    | none =>
      if persistent.any (·.definition.apply.isSome) ∧ persistent.length ≠ 1 then
        (some .ENOTSUP, n)
      else n.applyDefaults cfg owner n.service.entries

end Node

/-! ### What is read after a write -/

/-- The sizes that `add_definition` lets through. -/
theorem declaredSize_ok {cfg : Config} {definition : Definition} {size : ℕ}
    (h : declaredSize cfg definition = .ok size) :
    (definition.type = .STRING ∨ definition.type = .DATA →
      0 < definition.capacity.toNat ∧ definition.capacity.toNat ≤ cfg.stringMax) ∧
      (definition.type ≠ .STRING → definition.type ≠ .DATA → 0 < scalarSize definition.type) := by
  unfold declaredSize at h
  by_cases hdata : definition.type = .DATA
  · rw [if_pos hdata, ite_error_eq_ok] at h
    obtain ⟨hzero, hmax⟩ := not_or.1 h.1
    refine ⟨fun _ => ⟨?_, not_lt.1 hmax⟩, fun _ hne => absurd hdata hne⟩
    exact Nat.pos_of_ne_zero fun h0 => hzero (UInt16.toNat_inj.1 h0)
  · rw [if_neg hdata] at h
    by_cases htext : definition.type = .STRING
    · rw [if_pos htext, ite_error_eq_ok] at h
      obtain ⟨htwo, hmax⟩ := not_or.1 h.1
      have h2 : 2 ≤ definition.capacity.toNat := by
        rw [UInt16.lt_iff_toNat_lt, not_lt] at htwo
        exact htwo
      exact ⟨fun _ => ⟨by omega, not_lt.1 hmax⟩, fun hne => absurd htext hne⟩
    · rw [if_neg htext] at h
      refine ⟨fun h => absurd h (not_or.2 ⟨htext, hdata⟩), fun _ _ => ?_⟩
      simp only [ite_error_eq_ok] at h
      exact Nat.pos_of_ne_zero h.2.1

namespace Admitted

variable {cfg : Config} {entry : Entry}

section

variable (h : Admitted cfg entry)
include h

/-- The sizes of an entry. -/
theorem capacity_cases : (entry.info.type = .STRING ∨ entry.info.type = .DATA) ∧
        entryCapacity entry = entry.info.arraySize.toNat ∧ 0 < entry.info.arraySize.toNat ∧
          entry.info.arraySize.toNat ≤ cfg.stringMax ∨
      (entry.info.type ≠ .STRING ∧ entry.info.type ≠ .DATA) ∧
        entryCapacity entry = scalarSize entry.info.type ∧ 0 < scalarSize entry.info.type := by
  obtain ⟨size, hsize⟩ := h.declared
  obtain ⟨hblock, hscalar⟩ := declaredSize_ok hsize
  have hcapacity := h.arraySize
  rw [← h.type] at hblock hscalar
  by_cases htype : entry.info.type = .STRING ∨ entry.info.type = .DATA
  · rw [if_pos htype] at hcapacity
    obtain ⟨hpos, hmax⟩ := hblock htype
    exact Or.inl ⟨htype, if_pos htype, hcapacity ▸ hpos, hcapacity ▸ hmax⟩
  · obtain ⟨htext, hdata⟩ := not_or.1 htype
    exact Or.inr ⟨⟨htext, hdata⟩, if_neg htype, hscalar htext hdata⟩

theorem capacity_pos : 0 < entryCapacity entry := by
  rcases h.capacity_cases with ⟨-, heq, hpos, -⟩ | ⟨-, heq, hpos⟩ <;> omega

theorem capacity_text (htype : entry.info.type = .STRING) :
    entryCapacity entry = entry.info.arraySize.toNat ∧ 0 < entry.info.arraySize.toNat ∧
      entry.info.arraySize.toNat ≤ cfg.stringMax := by
  rcases h.capacity_cases with ⟨-, h⟩ | ⟨⟨hne, -⟩, -⟩
  · exact h
  · exact absurd htype hne

theorem capacity_data (htype : entry.info.type = .DATA) :
    entryCapacity entry = entry.info.arraySize.toNat ∧ 0 < entry.info.arraySize.toNat ∧
      entry.info.arraySize.toNat ≤ cfg.stringMax := by
  rcases h.capacity_cases with ⟨-, h⟩ | ⟨⟨-, hne⟩, -⟩
  · exact h
  · exact absurd htype hne

/-- Every value fits the value buffer of a build with strings of eight bytes at least. -/
theorem capacity_le (hmax : 8 ≤ cfg.stringMax) :
    entryCapacity entry ≤ cfg.stringMax ∧ entryCapacity entry < 2 ^ 16 := by
  rcases h.capacity_cases with ⟨-, heq, -, hle⟩ | ⟨-, heq, -⟩
  · have := entry.info.arraySize.toNat_lt
    omega
  · have hscalar : scalarSize entry.info.type ≤ 8 := by
      cases entry.info.type <;> decide
    omega

end

end Admitted

/-- What is read after a value has been written. -/
def stored (cfg : Config) (entry : Entry) (value : Value) : Value :=
  if entry.info.type = .STRING then
    let text := value.text.take (entry.info.arraySize.toNat - 1)
    { Value.blank cfg .STRING (text.length + 1) with text := text }
  else if entry.info.type = .DATA then
    { Value.blank cfg .DATA (entryCapacity entry) with
      bytes := value.bytes.take (entryCapacity entry) }
  else
    { Value.blank cfg entry.info.type (entryCapacity entry) with
      scalar := UInt64.ofNat (value.scalar.toNat % 256 ^ entryCapacity entry) }

/-- The string in a storage ends where a terminator has been written. -/
theorem load_text {text : CString} {n : ℕ} (h : text.length < n) (cells : Cells) :
    CString.scan (load n (poke (text.bytes ++ [0]) cells)) = text := by
  have hlen : (text.bytes ++ [0]).length ≤ n := by
    rw [List.length_append]
    exact h
  rw [load_poke_of_le hlen, List.append_assoc]
  exact CString.scan_append text _

/-- **What is written is read**, as far as it fits. -/
theorem readCells_put {cfg : Config} {entry : Entry} {value : Value} (hadm : Admitted cfg entry)
    (htype : value.type = entry.info.type) (hdata : value.type = .DATA →
      value.size = entryCapacity entry ∧ value.size ≤ value.bytes.length) (cells : Cells) :
    readCells cfg entry (put entry value cells) = stored cfg entry value := by
  unfold readCells put stored
  rw [htype]
  by_cases htext : entry.info.type = .STRING
  · obtain ⟨hcap, hpos, hmax⟩ := hadm.capacity_text htext
    have hcopy : copyText entry.info.arraySize.toNat value.text entry.info.arraySize.toNat =
        value.text.take (entry.info.arraySize.toNat - 1) := by
      unfold copyText
      congr 1
      omega
    have hlen := CString.length_take_le (entry.info.arraySize.toNat - 1) value.text
    simp only [if_pos htext, hcap, hcopy]
    rw [load_text (by omega)]
    have hall : copyText cfg.stringMax (value.text.take (entry.info.arraySize.toNat - 1))
        entry.info.arraySize.toNat = value.text.take (entry.info.arraySize.toNat - 1) := by
      unfold copyText
      exact CString.take_of_length_le (by omega)
    rw [hall]
  · rw [if_neg htext, if_neg htext, if_neg htext]
    by_cases hblock : entry.info.type = .DATA
    · obtain ⟨hsize, hle⟩ := hdata (htype.trans hblock)
      rw [if_pos hblock, if_pos hblock, if_pos hblock, hsize, load_poke]
      rw [List.length_take, ← hsize]
      omega
    · have hcap : entryCapacity entry = scalarSize entry.info.type :=
        if_neg (not_or.2 ⟨htext, hblock⟩)
      rw [if_neg hblock, if_neg hblock, if_neg hblock, hcap, load_poke (length_putLe _ _),
        getLe_putLe]

/-- An array is read whole. -/
theorem readCells_data {cfg : Config} {entry : Entry} {cells : Cells}
    (h : (readCells cfg entry cells).type = .DATA) :
    (readCells cfg entry cells).size = entryCapacity entry ∧
      (readCells cfg entry cells).size ≤ (readCells cfg entry cells).bytes.length := by
  unfold readCells at h ⊢
  by_cases htext : entry.info.type = .STRING
  · rw [if_pos htext] at h
    cases h
  · rw [if_neg htext] at h ⊢
    by_cases hdata : entry.info.type = .DATA
    · rw [if_pos hdata]
      exact ⟨rfl, (length_load _ _).ge⟩
    · rw [if_neg hdata] at h
      exact absurd h hdata

/-! ### What a parameter accepts -/

/-- What the validator of a parameter says of a value. -/
def validatorAccepts (entry : Entry) (value : Value) : Prop :=
  if entry.info.type = .STRING then
    ∀ validate, entry.definition.validateText = some validate → validate value.text = none
  else if entry.info.type = .DATA then
    ∀ validate, entry.definition.validateData = some validate →
      validate (value.bytes.take value.size) = none
  else ∀ validate, entry.definition.validate = some validate → validate value.scalar = none

/-- **What `kfsw_param_validate_entry` checks.** -/
theorem validateEntry_eq_none {entry : Entry} {value : Value} : validateEntry entry value = none ↔
      entryCapacity entry ≠ 0 ∧ value.type = entry.info.type ∧
        (if entry.info.type = .STRING then value.size ≠ 0 ∧ value.size ≤ entryCapacity entry
          else value.size = entryCapacity entry) ∧ validatorAccepts entry value := by
  unfold validateEntry validatorAccepts
  by_cases hcap : entryCapacity entry = 0
  · simp [hcap]
  · by_cases htype : value.type = entry.info.type
    · by_cases htext : entry.info.type = .STRING
      · by_cases hsize : value.size = 0 ∨ value.size > entryCapacity entry
        · simp only [hcap, htype, htext, hsize, if_true, if_false, not_true_eq_false, ne_eq,
            reduceCtorEq, false_iff]
          rintro ⟨-, -, ⟨hzero, hle⟩, -⟩
          rcases hsize with hsize | hsize
          · exact hzero hsize
          · omega
        · obtain ⟨hzero, hle⟩ := not_or.1 hsize
          rw [if_neg hcap, if_neg (not_not.2 htype), if_pos htext, if_neg hsize]
          cases entry.definition.validateText <;> simp [hcap, htype, htext, hzero, not_lt.1 hle]
      · by_cases hsize : value.size = entryCapacity entry
        · by_cases hdata : entry.info.type = .DATA
          · cases entry.definition.validateData <;> simp [hcap, htype, hsize, hdata]
          · cases entry.definition.validate <;> simp [hcap, htype, htext, hsize, hdata]
        · simp [hcap, htype, htext, hsize]
    · simp [hcap, htype]

/-- The storage of a string holds its terminator. -/
def Terminated (entry : Entry) (cells : Cells) : Prop :=
  entry.info.type = .STRING → ∃ i < entryCapacity entry, cells i = 0

/-- **A stored value is valid**: its validator accepts what is read, and a string is terminated. -/
structure Valid (cfg : Config) (entry : Entry) (cells : Cells) : Prop where
  accepted : validateEntry entry (readCells cfg entry cells) = none
  terminated : Terminated entry cells

/-- A value that fits the parameter: nothing of it is cut off when it is stored, or the validator
does not look at what is. -/
structure Fits (entry : Entry) (value : Value) : Prop where
  text : entry.info.type = .STRING → value.text.length < entryCapacity entry
  bytes : entry.info.type = .DATA → value.size ≤ value.bytes.length
  scalar : entry.info.type ≠ .STRING → entry.info.type ≠ .DATA →
    ∀ validate, entry.definition.validate = some validate → validate value.scalar = none →
      validate (UInt64.ofNat (value.scalar.toNat % 256 ^ entryCapacity entry)) = none

/-- An array that a parameter accepts is handed over whole. -/
theorem Fits.data {entry : Entry} {value : Value} (hfits : Fits entry value)
    (hvalid : validateEntry entry value = none) (hdata : value.type = .DATA) :
    value.size = entryCapacity entry ∧ value.size ≤ value.bytes.length := by
  obtain ⟨-, htype, hsize, -⟩ := validateEntry_eq_none.1 hvalid
  have hne : entry.info.type ≠ .STRING := by rw [← htype, hdata]; decide
  rw [if_neg hne] at hsize
  exact ⟨hsize, hfits.bytes (htype ▸ hdata)⟩

/-- **A value that fits and that the parameter accepts** leaves a valid storage. -/
theorem valid_put {cfg : Config} {entry : Entry} {value : Value} (hadm : Admitted cfg entry)
    (hfits : Fits entry value) (hvalid : validateEntry entry value = none) (cells : Cells) :
    Valid cfg entry (put entry value cells) := by
  obtain ⟨hcap, htype, hsize, haccepts⟩ := validateEntry_eq_none.1 hvalid
  refine ⟨?_, fun htext => ?_⟩
  · rw [readCells_put hadm htype (hfits.data hvalid)]
    refine validateEntry_eq_none.2 ⟨hcap, ?_, ?_, ?_⟩
    · unfold stored
      split_ifs with htext hblock
      · exact htext.symm
      · exact hblock.symm
      · rfl
    · unfold stored
      by_cases htext : entry.info.type = .STRING
      · have hlen := CString.length_take_le (entry.info.arraySize.toNat - 1) value.text
        have hpos := hadm.capacity_text htext
        rw [if_pos htext, if_pos htext]
        exact ⟨Nat.succ_ne_zero _, by show _ + 1 ≤ _; omega⟩
      · rw [if_neg htext, if_neg htext]
        split_ifs <;> rfl
    · unfold validatorAccepts stored at *
      by_cases htext : entry.info.type = .STRING
      · have hfit := hfits.text htext
        have hpos := hadm.capacity_text htext
        rw [if_pos htext] at haccepts ⊢
        rw [if_pos htext, CString.take_of_length_le (by omega)]
        exact haccepts
      · rw [if_neg htext] at haccepts ⊢ hsize
        rw [if_neg htext]
        by_cases hblock : entry.info.type = .DATA
        · rw [if_pos hblock] at haccepts ⊢
          rw [if_pos hblock]
          rw [hsize] at haccepts
          simpa [Value.blank, List.take_take] using haccepts
        · rw [if_neg hblock] at haccepts ⊢
          rw [if_neg hblock]
          exact fun validate hsome =>
            hfits.scalar htext hblock validate hsome (haccepts validate hsome)
  · obtain ⟨hcap, hpos, -⟩ := hadm.capacity_text htext
    have hlen := CString.length_take_le (entry.info.arraySize.toNat - 1) value.text
    have hcopy : (copyText entry.info.arraySize.toNat value.text
        entry.info.arraySize.toNat).length < entryCapacity entry := by
      have := CString.length_take_le (min entry.info.arraySize.toNat
        (entry.info.arraySize.toNat - 1)) value.text
      unfold copyText
      omega
    refine ⟨_, hcopy, ?_⟩
    unfold put
    rw [if_pos (htype.trans htext), poke_of_lt (by simp [CString.length])]
    simp [CString.length]

/-! ### What a write changes -/

namespace Node

variable {ω : Type} {cfg : Config} {owner : Owner ω} {entry : Entry} {value : Value} {n : Node ω}

/-- **A write** stores the value, or it is refused by the `apply`, and only the owner may have
changed. -/
theorem wireApply_cases :
    (∃ w, n.wireApply owner entry value = (none, { n.store entry value with owner := w })) ∨
      (n.service.initialized && entry.definition.apply.isSome) = true ∧
        ∃ e, (owner.apply entry value.scalar n.owner).1 = some e ∧ n.wireApply owner entry value =
          (some e, { n with owner := (owner.apply entry value.scalar n.owner).2 }) := by
  unfold wireApply
  by_cases htext : value.type = .STRING
  · rw [if_pos htext]
    exact .inl ⟨_, rfl⟩
  · by_cases hdata : value.type = .DATA
    · rw [if_neg htext, if_pos hdata]
      exact .inl ⟨_, rfl⟩
    · rw [if_neg htext, if_neg hdata, writeEntry, applyEntry]
      by_cases happly : (n.service.initialized && entry.definition.apply.isSome) = true
      · rw [if_pos happly]
        rcases owner.apply entry value.scalar n.owner with ⟨_ | e, w⟩
        · exact .inl ⟨_, rfl⟩
        · exact .inr ⟨happly, e, rfl, rfl⟩
      · rw [if_neg happly]
        exact .inl ⟨_, rfl⟩

variable (owner entry value n) in
/-- A write stores the value when it returns 0, and else changes no storage. -/
theorem wireApply_storage : (n.wireApply owner entry value).2.storage =
    if (n.wireApply owner entry value).1 = none then (n.store entry value).storage
    else n.storage := by
  rcases wireApply_cases with ⟨w, h⟩ | ⟨-, e, -, h⟩ <;> (rw [h]; rfl)

@[simp] theorem wireApply_service : (n.wireApply owner entry value).2.service = n.service := by
  rcases @wireApply_cases ω owner entry value n with ⟨w, h⟩ | ⟨-, e, -, h⟩ <;>
    exact congrArg (fun x => x.2.service) h

theorem wireApply_error {e : Errno} (h : (n.wireApply owner entry value).1 = some e) :
    (owner.apply entry value.scalar n.owner).1 = some e ∧
      (n.wireApply owner entry value).2 =
        { n with owner := (owner.apply entry value.scalar n.owner).2 } := by
  rcases wireApply_cases with ⟨w, hw⟩ | ⟨-, e', he, hw⟩
  · rw [hw] at h
    cases h
  · rw [hw] at h ⊢
    exact ⟨he.trans h, rfl⟩

/-- Only an `apply` can refuse a value. -/
theorem wireApply_result (h : (n.service.initialized && entry.definition.apply.isSome) = false) :
    (n.wireApply owner entry value).1 = none := by
  rcases wireApply_cases with ⟨w, hw⟩ | ⟨happly, -⟩
  · rw [hw]
  · exact absurd happly (Bool.eq_false_iff.1 h)

/-- A parameter without an `apply` takes every value. -/
theorem wireApply_infallible (h : entry.definition.apply = none) :
    (n.wireApply owner entry value).1 = none :=
  wireApply_result (by simp [h])

@[simp] theorem sample_service : (n.sample owner entry).service = n.service := by
  unfold sample
  split <;> rfl

@[simp] theorem sample_owner : (n.sample owner entry).owner = n.owner := by
  unfold sample
  split <;> rfl

/-- A sample is of its own storage. -/
theorem sample_storage_of_ne {id : UInt16} (h : id ≠ entry.info.id) :
    (n.sample owner entry).storage id = n.storage id := by
  unfold sample
  split
  · rfl
  · exact Function.update_of_ne h _ _

variable (owner) in
/-- A sample depends on the owner and on what is in the storage. -/
theorem sample_congr {m : Node ω} (howner : m.owner = n.owner)
    (hstorage : m.storage entry.info.id = n.storage entry.info.id) :
    (m.sample owner entry).storage entry.info.id =
      (n.sample owner entry).storage entry.info.id := by
  unfold sample
  split
  · exact hstorage
  · simp only [Function.update_self, howner, hstorage]

variable (cfg owner entry n) in
/-- The value of a parameter, as a read returns it. -/
def current : Value := readCells cfg entry ((n.sample owner entry).storage entry.info.id)

variable (cfg owner entry n) in
theorem type_current : (n.current cfg owner entry).type = entry.info.type := by
  unfold current readCells
  split_ifs with htext hdata
  · exact htext.symm
  · exact hdata.symm
  · rfl

/-- What a read returns is what it leaves in the storage. -/
theorem readEntry_eq (h : 0 < entryCapacity entry) : n.readEntry cfg owner entry =
    (.ok (n.current cfg owner entry), n.sample owner entry) := by
  unfold readEntry readStoredEntry
  rw [if_neg (Nat.pos_iff_ne_zero.1 h), if_neg (Nat.pos_iff_ne_zero.1 h)]
  rfl

/-- A second sample changes nothing. -/
theorem sample_sample : (n.sample owner entry).sample owner entry = n.sample owner entry := by
  unfold sample
  cases owner.sample entry with
  | none => rfl
  | some bytes =>
    dsimp only
    rw [Function.update_self, poke_poke, Function.update_idem]

/-- Samples have been taken, and nothing else has been done. -/
structure Refreshed (owner : Owner ω) (n m : Node ω) : Prop where
  service : m.service = n.service
  kept : m.owner = n.owner
  storage : ∀ id, m.storage id = n.storage id ∨
    ∃ entry ∈ n.service.entries, entry.info.id = id ∧
      m.storage id = (n.sample owner entry).storage id

theorem Refreshed.refl (owner : Owner ω) (n : Node ω) : n.Refreshed owner n :=
  ⟨rfl, rfl, fun _ => Or.inl rfl⟩

theorem refreshed_sample (h : entry ∈ n.service.entries) :
    n.Refreshed owner (n.sample owner entry) := by
  refine ⟨sample_service, sample_owner, fun id => ?_⟩
  by_cases hid : entry.info.id = id
  · exact Or.inr ⟨entry, h, hid, rfl⟩
  · exact Or.inl (sample_storage_of_ne fun heq => hid heq.symm)

theorem Refreshed.trans {m u : Node ω} (hids : (n.service.entries.map (·.info.id)).Nodup)
    (h : n.Refreshed owner m) (h' : m.Refreshed owner u) : n.Refreshed owner u := by
  refine ⟨h'.service.trans h.service, h'.kept.trans h.kept, fun id => ?_⟩
  rcases h'.storage id with hsame | ⟨entry, hentry, hid, hsample⟩
  · rw [hsame]
    exact h.storage id
  · rw [h.service] at hentry
    refine Or.inr ⟨entry, hentry, hid, hsample.trans ?_⟩
    rcases h.storage id with hsame | ⟨entry', hentry', hid', hsample'⟩
    · rw [← hid] at hsame ⊢
      exact sample_congr owner h.kept hsame
    · obtain rfl := List.inj_on_of_nodup_map hids hentry hentry' (hid.trans hid'.symm)
      rw [← hid] at hsample' ⊢
      have hagain := sample_congr (n := n.sample owner entry) owner
        (h.kept.trans sample_owner.symm) hsample'
      rw [hagain, sample_sample]

variable (cfg) in
/-- **A read returns the same** whether samples have been taken or not. -/
theorem Refreshed.current {m : Node ω} (hids : (n.service.entries.map (·.info.id)).Nodup)
    (h : n.Refreshed owner m) (hentry : entry ∈ n.service.entries) :
    m.current cfg owner entry = n.current cfg owner entry := by
  unfold Node.current
  rcases h.storage entry.info.id with hsame | ⟨entry', hentry', hid', hsample⟩
  · rw [sample_congr owner h.kept hsame]
  · obtain rfl := List.inj_on_of_nodup_map hids hentry hentry' hid'.symm
    have hagain := sample_congr (n := n.sample owner entry) owner
      (h.kept.trans sample_owner.symm) hsample
    rw [hagain, sample_sample]

/-- The storage of a parameter holds what a sample would put there. -/
def Fresh (owner : Owner ω) (n : Node ω) (entry : Entry) : Prop :=
  n.storage entry.info.id = (n.sample owner entry).storage entry.info.id

theorem Fresh.current (h : n.Fresh owner entry) :
    readCells cfg entry (n.storage entry.info.id) = n.current cfg owner entry :=
  congrArg (readCells cfg entry) h

/-- What is fresh stays so. -/
theorem Refreshed.fresh {m : Node ω} (hids : (n.service.entries.map (·.info.id)).Nodup)
    (h : n.Refreshed owner m) (hentry : entry ∈ n.service.entries) (hfresh : n.Fresh owner entry) :
    m.Fresh owner entry := by
  have hsame : m.storage entry.info.id = n.storage entry.info.id := by
    rcases h.storage entry.info.id with hsame | ⟨entry', hentry', hid', hsample⟩
    · exact hsame
    · obtain rfl := List.inj_on_of_nodup_map hids hentry hentry' hid'.symm
      exact hsample.trans hfresh.symm
  rw [Fresh, sample_congr owner h.kept hsame, hsame]
  exact hfresh

theorem refreshed_readEntry (h : entry ∈ n.service.entries) :
    n.Refreshed owner (n.readEntry cfg owner entry).2 := by
  unfold readEntry
  split_ifs
  · exact .refl owner n
  · exact refreshed_sample h

end Node

end KfswServices.Param
