/-
# The parameter registry

`kfsw_param_init` of `src/parameter/parameter.c` puts the tables and the definitions of a node into
two arrays sorted by identifier.  Everything after it relies on them: the binary search of
`kfsw_param_find_id`, the counts of the tables, the listing and the files.

A definition's storage is outside the registry, and so is what its callbacks do; the registry asks
the validators, and only whether the other callbacks are there.
-/

import KfswServices.Basic
import KfswServices.Library.Sorted
import Mathlib.Data.List.Induction
import Mathlib.Data.List.Perm.Subperm

namespace KfswServices.Param

open Library

/-- The build: `CONFIG_KFSW_PARAM_MAX_DEFINITIONS`, `CONFIG_KFSW_PARAM_MAX_TABLES`,
`CONFIG_KFSW_PARAM_STRING_MAX` and `CONFIG_KFSW_PARAM_FLOAT`. -/
structure Config where
  maxDefinitions : ℕ
  maxTables : ℕ
  stringMax : ℕ
  float : Bool

/-- `enum kfsw_param_type`. -/
inductive ParamType
  | U8 | U16 | U32 | U64 | I8 | I16 | I32 | I64 | X8 | X16 | X32 | X64 | FLOAT | DOUBLE | STRING
  | DATA | INVALID
  deriving DecidableEq, Repr

/-- `KFSW_PARAM_NAME_MAX`. -/
abbrev nameMax : ℕ := 32

/-- `KFSW_PARAM_TABLE_CORE_FIRST`. -/
abbrev tableCoreFirst : UInt8 := 1

/-- `KFSW_PARAM_TABLE_MODULE_LAST`. -/
abbrev tableModuleLast : UInt8 := 99

/-- `KFSW_PARAM_FLAG_READ_ONLY`. -/
abbrev flagReadOnly : UInt32 := 0x00000001

/-- `KFSW_PARAM_FLAG_LIVE`. -/
abbrev flagLive : UInt32 := 0x00020000

/-- `union kfsw_param_scalar`, as its eight bytes. -/
abbrev Scalar := UInt64

/-- `struct kfsw_param_definition`.  A pointer that may be NULL is an option; of the storage and of
the callbacks that only have an effect, what counts here is whether they are there. -/
structure Definition where
  offset : UInt8
  type : ParamType
  capacity : UInt16
  flags : UInt32
  name : Option CString
  unit : Option CString
  description : Option CString
  value : Bool
  defaultValue : Scalar
  defaultText : Option CString
  validate : Option (Scalar → Option Errno)
  apply : Option (Scalar → Option Errno)
  changed : Bool
  validateText : Option (CString → Option Errno)
  changedText : Bool
  validateData : Option (List UInt8 → Option Errno)
  changedData : Bool
  defaultData : Option (List UInt8)

/-- `struct kfsw_param_definition_set`. -/
structure DefinitionSet where
  table : UInt8
  name : Option CString
  description : Option CString
  definitions : Option (List Definition)

/-- `struct kfsw_param_info`. -/
structure Info where
  node : UInt16
  id : UInt16
  table : UInt8
  offset : UInt8
  arraySize : UInt16
  type : ParamType
  flags : UInt32
  tableName : Option CString
  name : CString
  unit : Option CString
  description : Option CString
  readOnly : Bool

/-- `struct kfsw_param_entry`. -/
structure Entry where
  info : Info
  definition : Definition

/-- `struct kfsw_param_table_info`. -/
structure TableInfo where
  id : UInt8
  name : CString
  description : Option CString
  count : UInt16

/-- The static state: `parameter_table`, `parameter_tables`, each as far as it is used, and
`initialized`. -/
structure Service where
  entries : List Entry
  tables : List TableInfo
  initialized : Bool

/-- The state after the boot. -/
def Service.boot : Service := ⟨[], [], false⟩

/-- `struct kfsw_param_value`. -/
structure Value where
  type : ParamType
  size : ℕ
  scalar : Scalar
  text : CString
  bytes : List UInt8

/-- `name_is_within_limit`. -/
def nameIsWithinLimit (name : CString) : Bool := name.length ≤ nameMax

/-- `scalar_size`. -/
def scalarSize : ParamType → ℕ
  | .U8 | .I8 | .X8 => 1
  | .U16 | .I16 | .X16 => 2
  | .U32 | .I32 | .X32 => 4
  | .U64 | .I64 | .X64 => 8
  | .FLOAT => 4
  | .DOUBLE => 8
  | .STRING | .DATA | .INVALID => 0

/-- `entry_capacity`. -/
def entryCapacity (entry : Entry) : ℕ :=
  if entry.info.type = .STRING ∨ entry.info.type = .DATA then entry.info.arraySize.toNat
  else scalarSize entry.info.type

/-- `copy_text`: the text that is left in the destination. -/
def copyText (destinationSize : ℕ) (source : CString) (sourceSize : ℕ) : CString :=
  source.take (min sourceSize (destinationSize - 1))

/-- `kfsw_param_find_id`. -/
def findId (s : Service) (id : UInt16) : Option Entry :=
  bisect (·.info.id.toNat) id.toNat s.entries s.entries.length 0 s.entries.length

/-- `kfsw_param_validate_entry`. -/
def validateEntry (entry : Entry) (value : Value) : Option Errno :=
  let size := entryCapacity entry
  if size = 0 then some .ENOTSUP
  else if value.type ≠ entry.info.type then some .EMSGSIZE
  else if entry.info.type = .STRING then
    if value.size = 0 ∨ value.size > size then some .EMSGSIZE
    else
      match entry.definition.validateText with
      | some validate => validate value.text
      | none => none
  else if value.size ≠ size then some .EMSGSIZE
  else if entry.info.type = .DATA then
    match entry.definition.validateData with
    | some validate => validate (value.bytes.take value.size)
    | none => none
  else
    match entry.definition.validate with
    | some validate => validate value.scalar
    | none => none

/-- `kfsw_param_write_entry`: its return value. -/
def writeEntry (initialized : Bool) (entry : Entry) (value : Scalar) : Option Errno :=
  match entry.definition.apply with
  | some apply => if initialized then apply value else none
  | none => none

/-- `kfsw_param_wire_apply`: its return value. -/
def wireApply (initialized : Bool) (entry : Entry) (decoded : Value) : Option Errno :=
  if decoded.type = .STRING then none
  else if decoded.type = .DATA then none
  else writeEntry initialized entry decoded.scalar

/-- `read_default`. -/
def readDefault (cfg : Config) (entry : Entry) : Value :=
  let value : Value :=
    ⟨entry.info.type, entryCapacity entry, 0, CString.empty, List.replicate cfg.stringMax 0⟩
  if entry.info.type = .DATA then
    match entry.definition.defaultData with
    | some data => { value with bytes := data.take value.size }
    | none => { value with bytes := value.bytes.take value.size }
  else if entry.info.type = .STRING then
    let text := copyText cfg.stringMax (entry.definition.defaultText.getD CString.empty)
      entry.info.arraySize.toNat
    { value with text := text, size := text.length + 1 }
  else { value with scalar := entry.definition.defaultValue }

/-- `kfsw_param_write_default`: its return value. -/
def writeDefault (cfg : Config) (initialized : Bool) (entry : Entry) : Option Errno :=
  let value := readDefault cfg entry
  let result := if initialized then validateEntry entry value else none
  if result = none then wireApply initialized entry value else result

/-- `find_table`. -/
def findTable (s : Service) (id : UInt8) : Option TableInfo := s.tables.find? (·.id = id)

/-- `table_is_allocated`. -/
def tableIsAllocated (table : UInt8) : Bool := tableCoreFirst ≤ table && table ≤ tableModuleLast

/-- `add_table`. -/
def addTable (cfg : Config) (set : DefinitionSet) (s : Service) : Except Errno Service :=
  match set.name with
  | none => .error .EINVAL
  | some name =>
    if name = CString.empty ∨ !nameIsWithinLimit name then .error .EINVAL
    else if !tableIsAllocated set.table then .error .EINVAL
    else if (findTable s set.table).isSome then .error .EEXIST
    else if cfg.maxTables ≤ s.tables.length then .error .ENOSPC
    else .ok { s with tables := insertByKey (·.id.toNat) ⟨set.table, name, set.description, 0⟩ s.tables }

/-- `KFSW_PARAM_WIRE_ID`. -/
def wireId (table offset : UInt8) : UInt16 := table.toUInt16 <<< 8 ||| offset.toUInt16

/-- The size that `add_definition` finds for the type, or why there is none. -/
def declaredSize (cfg : Config) (definition : Definition) : Except Errno ℕ :=
  if definition.type = .DATA then
    if definition.capacity = 0 ∨ definition.capacity.toNat > cfg.stringMax then .error .EINVAL
    else .ok definition.capacity.toNat
  else if definition.type = .STRING then
    if definition.capacity < 2 ∨ definition.capacity.toNat > cfg.stringMax then .error .EINVAL
    else .ok definition.capacity.toNat
  else if !cfg.float && (definition.type = .FLOAT || definition.type = .DOUBLE) then
    .error .ENOTSUP
  else if scalarSize definition.type = 0 then .error .EINVAL
  else .ok (scalarSize definition.type)

/-- A definition must accept its own default. -/
def acceptsDefault (cfg : Config) (definition : Definition) : Bool :=
  if definition.type = .DATA then
    match definition.validateData with
    | some validate =>
      validate ((definition.defaultData.getD (List.replicate cfg.stringMax 0)).take
        definition.capacity.toNat) = none
    | none => true
  else if definition.type = .STRING then
    let text := copyText cfg.stringMax (definition.defaultText.getD CString.empty)
      (cfg.stringMax - 1)
    if definition.capacity.toNat ≤ text.length then false
    else
      match definition.validateText with
      | some validate => validate text = none
      | none => true
  else
    match definition.validate with
    | some validate => validate definition.defaultValue = none
    | none => true

/-- The flags of an entry: a callback makes it live. -/
def entryFlags (definition : Definition) : UInt32 :=
  if definition.apply.isSome || definition.changed || definition.changedText ||
      definition.changedData then definition.flags ||| flagLive
  else definition.flags

/-- The entry of a definition. -/
def makeEntry (set : DefinitionSet) (definition : Definition) (name : CString) : Entry :=
  { info :=
      { node := 0
        id := wireId set.table definition.offset
        table := set.table
        offset := definition.offset
        arraySize := if definition.type = .STRING ∨ definition.type = .DATA then
          definition.capacity else 1
        type := definition.type
        flags := entryFlags definition
        tableName := set.name
        name := name
        unit := definition.unit
        description := definition.description
        readOnly := entryFlags definition &&& flagReadOnly ≠ 0 }
    definition := definition }

/-- `table->count++`. -/
def countTable (id : UInt8) (tables : List TableInfo) : List TableInfo :=
  tables.map fun table => if table.id = id then { table with count := table.count + 1 } else table

/-- `add_definition`. -/
def addDefinition (cfg : Config) (set : DefinitionSet) (definition : Definition) (s : Service) :
    Except Errno Service :=
  match definition.name with
  | none => .error .EINVAL
  | some name =>
    if name = CString.empty ∨ !definition.value then .error .EINVAL
    else if definition.apply.isSome ∧ (definition.type = .STRING ∨ definition.type = .DATA) then
      .error .EINVAL
    else
      match declaredSize cfg definition with
      | .error e => .error e
      | .ok _ =>
        if !nameIsWithinLimit name then .error .ENAMETOOLONG
        else if cfg.maxDefinitions ≤ s.entries.length then .error .ENOSPC
        else if (findTable s set.table).isNone then .error .ENOENT
        else if !acceptsDefault cfg definition then .error .ERANGE
        else if s.entries.any fun entry =>
            entry.info.id = wireId set.table definition.offset || entry.info.name = name then
          .error .EEXIST
        else
          .ok { s with
            entries := insertByKey (·.info.id.toNat) (makeEntry set definition name) s.entries
            tables := countTable set.table s.tables }

/-- The definitions of a set, one after the other. -/
def addDefinitions (cfg : Config) (set : DefinitionSet) :
    List Definition → Service → Except Errno Service
  | [], s => .ok s
  | definition :: rest, s =>
    match addDefinition cfg set definition s with
    | .error e => .error e
    | .ok u => addDefinitions cfg set rest u

/-- One turn of the loop of `kfsw_param_init`. -/
def addSet (cfg : Config) (set : Option DefinitionSet) (s : Service) : Except Errno Service :=
  match set with
  | none => .error .EINVAL
  | some set =>
    match set.definitions with
    | none => .error .EINVAL
    | some definitions =>
      if definitions.isEmpty then .error .EINVAL
      else
        match addTable cfg set s with
        | .error e => .error e
        | .ok u => addDefinitions cfg set definitions u

/-- The loop of `kfsw_param_init`. -/
def addSets (cfg : Config) : List (Option DefinitionSet) → Service → Except Errno Service
  | [], s => .ok s
  | set :: rest, s =>
    match addSet cfg set s with
    | .error e => .error e
    | .ok u => addSets cfg rest u

/-- `kfsw_param_init`: the return value, and the state it leaves. -/
def init (cfg : Config) (sets : List (Option DefinitionSet)) (s : Service) :
    Option Errno × Service :=
  if sets.isEmpty then (some .EINVAL, s)
  else if s.initialized then (none, s)
  else
    match addSets cfg sets { s with entries := [], tables := [] } with
    | .error e => (some e, { s with entries := [], tables := [] })
    | .ok u =>
      if u.entries.isEmpty then (some .ENOENT, { s with entries := [], tables := [] })
      else
        match u.entries.findSome? (writeDefault cfg u.initialized) with
        | some e => (some e, { u with initialized := false })
        | none => (none, { u with initialized := true })

/-! ### What a step does -/

variable {cfg : Config} {set : DefinitionSet} {s u : Service}

/-- What `add_table` refuses, and what it does. -/
theorem addTable_ok (h : addTable cfg set s = .ok u) :
    ∃ name, set.name = some name ∧ tableIsAllocated set.table = true ∧
      findTable s set.table = none ∧
      u = { s with
        tables := insertByKey (·.id.toNat) ⟨set.table, name, set.description, 0⟩ s.tables } := by
  unfold addTable at h
  cases hname : set.name with
  | none => rw [hname] at h; cases h
  | some name =>
    rw [hname] at h
    simp only [ite_error_eq_ok, Except.ok.injEq] at h
    obtain ⟨-, hallocated, hnew, -, rfl⟩ := h
    exact ⟨name, rfl, by simpa using hallocated, by simpa using hnew, rfl⟩

variable {definition : Definition}

/-- What `add_definition` has checked of an entry. -/
structure Admitted (cfg : Config) (entry : Entry) : Prop where
  node : entry.info.node = 0
  offset : entry.info.offset = entry.definition.offset
  id : entry.info.id = wireId entry.info.table entry.info.offset
  type : entry.info.type = entry.definition.type
  arraySize : entry.info.arraySize =
    if entry.info.type = .STRING ∨ entry.info.type = .DATA then entry.definition.capacity else 1
  declared : ∃ size, declaredSize cfg entry.definition = .ok size
  named : entry.info.name ≠ CString.empty
  within : entry.info.name.length ≤ nameMax
  default : acceptsDefault cfg entry.definition = true
  fallible : entry.definition.apply.isSome = true →
    entry.info.type ≠ .STRING ∧ entry.info.type ≠ .DATA

/-- What `add_definition` refuses, and what it does. -/
theorem addDefinition_ok (h : addDefinition cfg set definition s = .ok u) :
    ∃ name, definition.name = some name ∧ Admitted cfg (makeEntry set definition name) ∧
      (findTable s set.table).isSome = true ∧
      (∀ entry ∈ s.entries, entry.info.id ≠ wireId set.table definition.offset ∧
        entry.info.name ≠ name) ∧
      u = { s with
        entries := insertByKey (·.info.id.toNat) (makeEntry set definition name) s.entries
        tables := countTable set.table s.tables } := by
  unfold addDefinition at h
  cases hname : definition.name with
  | none => rw [hname] at h; cases h
  | some name =>
    rw [hname] at h
    cases hsize : declaredSize cfg definition with
    | error e => simp only [ite_error_eq_ok, hsize, reduceCtorEq, and_false] at h
    | ok size =>
      simp only [ite_error_eq_ok, hsize, Except.ok.injEq] at h
      obtain ⟨hnamed, hfallible, hwithin, -, htable, hdefault, hnew, rfl⟩ := h
      refine ⟨name, rfl, ⟨rfl, rfl, rfl, rfl, rfl, ⟨size, hsize⟩, fun h => hnamed (Or.inl h), ?_, ?_,
        ?_⟩, by simpa [Option.isSome_iff_ne_none] using htable, fun entry hentry => ?_, rfl⟩
      · show name.length ≤ nameMax
        simpa [nameIsWithinLimit] using hwithin
      · show acceptsDefault cfg definition = true
        simpa using hdefault
      · intro happly
        exact not_or.1 fun htype => hfallible ⟨happly, htype⟩
      · have hfree := List.any_eq_false.1 (Bool.eq_false_iff.2 hnew) entry hentry
        simpa using hfree

/-- The wire identifiers count through the tables. -/
theorem wireId_toNat (table offset : UInt8) :
    (wireId table offset).toNat = table.toNat * 256 + offset.toNat := by
  have htable := table.toNat_lt
  have hoffset := offset.toNat_lt
  have hshift : (table.toUInt16 <<< 8).toNat = table.toNat <<< 8 := by
    rw [UInt16.toNat_shiftLeft, UInt8.toNat_toUInt16, Nat.mod_eq_of_lt]
    · rfl
    · rw [Nat.shiftLeft_eq]
      show table.toNat * 2 ^ 8 < 2 ^ 16
      omega
  rw [wireId, UInt16.toNat_or, hshift, UInt8.toNat_toUInt16,
    ← Nat.shiftLeft_add_eq_or_of_lt hoffset, Nat.shiftLeft_eq]

/-! ### The invariant of the two arrays -/

/-- The definitions of the sets, with their tables. -/
def supplied (sets : List (Option DefinitionSet)) : List (UInt8 × Definition) :=
  sets.flatMap fun set =>
    match set with
    | none => []
    | some set => (set.definitions.getD []).map fun definition => (set.table, definition)

/-- What the arrays hold while the definitions come in. -/
structure Registered (definitions : List (UInt8 × Definition)) (s : Service) : Prop where
  /-- The entries are sorted. -/
  increasing : s.entries.Pairwise fun e f => e.info.id.toNat < f.info.id.toNat
  /-- An identifier is made of the table and the offset. -/
  wire : ∀ entry ∈ s.entries, entry.info.id = wireId entry.info.table entry.definition.offset
  /-- No name is taken twice. -/
  names : (s.entries.map (·.info.name)).Nodup
  /-- The tables are sorted. -/
  tables : s.tables.Pairwise fun t u => t.id.toNat < u.id.toNat
  /-- They are in an allocated band. -/
  allocated : ∀ table ∈ s.tables, tableIsAllocated table.id = true
  /-- An entry's table is there. -/
  known : ∀ entry ∈ s.entries, ∃ table ∈ s.tables, table.id = entry.info.table
  /-- A table counts its entries. -/
  counts : ∀ table ∈ s.tables,
    table.count.toNat = s.entries.countP fun entry => entry.info.table = table.id
  /-- The entries are the definitions. -/
  definitions : (s.entries.map fun entry => (entry.info.table, entry.definition)).Perm definitions
  /-- The service does not run yet. -/
  fresh : s.initialized = false

theorem registered_boot : Registered [] Service.boot :=
  ⟨List.Pairwise.nil, by simp [Service.boot], List.nodup_nil, List.Pairwise.nil,
    by simp [Service.boot], by simp [Service.boot], by simp [Service.boot], List.Perm.refl _, rfl⟩

variable {definitions : List (UInt8 × Definition)}

/-- There are fewer entries than a count holds. -/
theorem Registered.length_lt (h : Registered definitions s) : s.entries.length < 2 ^ 16 - 1 := by
  have hnodup : (s.entries.map fun entry => entry.info.id.toNat).Nodup :=
    List.pairwise_map.2 (h.increasing.imp fun hlt => Nat.ne_of_lt hlt)
  have hsub : (s.entries.map fun entry => entry.info.id.toNat) ⊆ List.range 25600 := by
    intro n hn
    obtain ⟨entry, hentry, rfl⟩ := List.mem_map.1 hn
    obtain ⟨table, htable, hid⟩ := h.known entry hentry
    have hallocated := h.allocated table htable
    rw [tableIsAllocated, hid, Bool.and_eq_true, decide_eq_true_eq, decide_eq_true_eq,
      UInt8.le_iff_toNat_le] at hallocated
    have hlast : entry.info.table.toNat ≤ 99 := hallocated.2
    have hoffset := entry.definition.offset.toNat_lt
    rw [List.mem_range, h.wire entry hentry, wireId_toNat]
    omega
  have hlen := (List.subperm_of_subset hnodup hsub).length_le
  rw [List.length_map, List.length_range] at hlen
  omega

/-- A table that is not found is not there. -/
theorem findTable_eq_none {id : UInt8} (h : findTable s id = none) :
    ∀ table ∈ s.tables, table.id ≠ id := by
  intro table htable hid
  exact (List.find?_eq_none.1 h table htable) (by simp [hid])

section

variable (hs : Registered definitions s)
include hs

/-- **A new table keeps the invariant.** -/
theorem addTable_registered (h : addTable cfg set s = .ok u) : Registered definitions u := by
  obtain ⟨name, -, hallocated, hnew, rfl⟩ := addTable_ok h
  have hfresh := findTable_eq_none hnew
  have hmem : ∀ table, table ∈ insertByKey (·.id.toNat) (⟨set.table, name, set.description, 0⟩ :
      TableInfo) s.tables ↔ table = ⟨set.table, name, set.description, 0⟩ ∨ table ∈ s.tables :=
    fun table => (insertByKey_perm _ _ _).mem_iff.trans List.mem_cons
  refine ⟨hs.increasing, hs.wire, hs.names, ?_, ?_, ?_, ?_, hs.definitions, hs.fresh⟩
  · exact pairwise_insertByKey hs.tables fun table htable heq =>
      hfresh table htable (UInt8.toNat_inj.1 heq)
  · intro table htable
    rcases (hmem table).1 htable with rfl | htable
    · exact hallocated
    · exact hs.allocated table htable
  · intro entry hentry
    obtain ⟨table, htable, hid⟩ := hs.known entry hentry
    exact ⟨table, (hmem table).2 (Or.inr htable), hid⟩
  · intro table htable
    rcases (hmem table).1 htable with rfl | htable
    · symm
      refine List.countP_eq_zero.2 fun entry hentry => ?_
      obtain ⟨table, htable, hid⟩ := hs.known entry hentry
      simpa [hid] using hfresh table htable
    · exact hs.counts table htable

/-- **A new definition keeps the invariant.** -/
theorem addDefinition_registered (h : addDefinition cfg set definition s = .ok u) :
    Registered (definitions ++ [(set.table, definition)]) u := by
  obtain ⟨name, -, -, htable, hfree, rfl⟩ := addDefinition_ok h
  have hperm := insertByKey_perm (·.info.id.toNat) (makeEntry set definition name) s.entries
  have hmem : ∀ entry, entry ∈ insertByKey (·.info.id.toNat) (makeEntry set definition name)
      s.entries ↔ entry = makeEntry set definition name ∨ entry ∈ s.entries :=
    fun entry => hperm.mem_iff.trans List.mem_cons
  have hid : ∀ table ∈ countTable set.table s.tables, ∃ old ∈ s.tables, old.id = table.id ∧
      table.count = if old.id = set.table then old.count + 1 else old.count := by
    intro table htable
    obtain ⟨old, hold, rfl⟩ := List.mem_map.1 htable
    refine ⟨old, hold, ?_, ?_⟩ <;> split_ifs <;> rfl
  have hkept : ∀ old ∈ s.tables, ∃ table ∈ countTable set.table s.tables, table.id = old.id := by
    intro old hold
    refine ⟨_, List.mem_map_of_mem hold, ?_⟩
    split_ifs <;> rfl
  refine ⟨?_, ?_, ?_, ?_, ?_, ?_, ?_, ?_, hs.fresh⟩
  · exact pairwise_insertByKey hs.increasing fun entry hentry heq =>
      (hfree entry hentry).1 (UInt16.toNat_inj.1 heq)
  · intro entry hentry
    rcases (hmem entry).1 hentry with rfl | hentry
    · rfl
    · exact hs.wire entry hentry
  · refine (hperm.map _).nodup_iff.2 (List.nodup_cons.2 ⟨fun hname => ?_, hs.names⟩)
    obtain ⟨entry, hentry, heq⟩ := List.mem_map.1 hname
    exact (hfree entry hentry).2 heq
  · refine List.pairwise_map.2 (hs.tables.imp fun {t v} hlt => ?_)
    split_ifs <;> exact hlt
  · intro table htable
    obtain ⟨old, hold, heq, -⟩ := hid table htable
    exact heq ▸ hs.allocated old hold
  · intro entry hentry
    rcases (hmem entry).1 hentry with rfl | hentry
    · obtain ⟨old, hold⟩ := Option.isSome_iff_exists.1 htable
      obtain ⟨table, htable, heq⟩ := hkept old (List.mem_of_find?_eq_some hold)
      have hold' : old.id = set.table := by simpa using List.find?_some hold
      exact ⟨table, htable, heq.trans hold'⟩
    · obtain ⟨old, hold, heq⟩ := hs.known entry hentry
      obtain ⟨table, htable, hold'⟩ := hkept old hold
      exact ⟨table, htable, hold'.trans heq⟩
  · intro table htable
    obtain ⟨old, hold, heq, hcount⟩ := hid table htable
    have hold' := hs.counts old hold
    have hroom : s.entries.countP (fun entry => entry.info.table = old.id) < 2 ^ 16 - 1 :=
      lt_of_le_of_lt List.countP_le_length hs.length_lt
    rw [hperm.countP_eq, List.countP_cons, ← heq, hcount]
    by_cases hset : old.id = set.table
    · have hnew : (makeEntry set definition name).info.table = old.id := hset.symm
      rw [if_pos hset, if_pos (by simpa using hnew), UInt16.toNat_add, hold']
      exact Nat.mod_eq_of_lt (by show _ + 1 < _; omega)
    · have hnew : (makeEntry set definition name).info.table ≠ old.id := Ne.symm hset
      rw [if_neg hset, if_neg (by simpa using hnew), hold', Nat.add_zero]
  · exact (hperm.map _).trans (((hs.definitions.cons _).trans
      (List.perm_append_singleton _ _).symm))

end

/-- What a new table and a new definition keep, of the definitions that have come in. -/
structure Builds (cfg : Config) (I : List (UInt8 × Definition) → Service → Prop) : Prop where
  table : ∀ {definitions set s u}, I definitions s → addTable cfg set s = .ok u → I definitions u
  definition : ∀ {definitions set definition s u}, I definitions s →
    addDefinition cfg set definition s = .ok u → I (definitions ++ [(set.table, definition)]) u

namespace Builds

variable {I : List (UInt8 × Definition) → Service → Prop} (hI : Builds cfg I)
  (hs : I definitions s)
include hI hs

theorem addDefinitions {new : List Definition} (h : addDefinitions cfg set new s = .ok u) :
    I (definitions ++ new.map fun definition => (set.table, definition)) u := by
  induction new generalizing s definitions with
  | nil =>
    obtain rfl := Except.ok.inj h
    simpa using hs
  | cons definition new ih =>
    unfold Param.addDefinitions at h
    cases hadd : addDefinition cfg set definition s with
    | error e => rw [hadd] at h; cases h
    | ok v =>
      rw [hadd] at h
      have hnext := ih (hI.definition hs hadd) h
      rwa [List.append_assoc, List.singleton_append] at hnext

theorem addSet {set : Option DefinitionSet} (h : addSet cfg set s = .ok u) :
    I (definitions ++ supplied [set]) u := by
  unfold Param.addSet at h
  cases set with
  | none => cases h
  | some set =>
    cases hdefinitions : set.definitions with
    | none => simp only [hdefinitions, reduceCtorEq] at h
    | some new =>
      simp only [hdefinitions, ite_error_eq_ok] at h
      obtain ⟨-, h⟩ := h
      cases hadd : addTable cfg set s with
      | error e => rw [hadd] at h; cases h
      | ok v =>
        rw [hadd] at h
        have hnext := hI.addDefinitions (hI.table hs hadd) h
        simpa [supplied, hdefinitions] using hnext

/-- **What the loop of `kfsw_param_init` builds.** -/
theorem addSets {sets : List (Option DefinitionSet)} (h : addSets cfg sets s = .ok u) :
    I (definitions ++ supplied sets) u := by
  induction sets generalizing s definitions with
  | nil =>
    obtain rfl := Except.ok.inj h
    simpa [supplied] using hs
  | cons set sets ih =>
    unfold Param.addSets at h
    cases hadd : Param.addSet cfg set s with
    | error e => rw [hadd] at h; cases h
    | ok v =>
      rw [hadd] at h
      have hnext := ih (hI.addSet hs hadd) h
      rwa [List.append_assoc, ← show supplied (set :: sets) = supplied [set] ++ supplied sets by
        simp [supplied]] at hnext

end Builds

variable {sets : List (Option DefinitionSet)}

theorem addSets_registered (hs : Registered definitions s) (h : addSets cfg sets s = .ok u) :
    Registered (definitions ++ supplied sets) u :=
  Builds.addSets (I := Registered) ⟨addTable_registered, addDefinition_registered⟩ hs h

/-! ### The registry -/

/-- What the callers of the registry rely on, once it is initialized with some sets. -/
structure Registry (sets : List (Option DefinitionSet)) (s : Service) : Prop where
  initialized : s.initialized = true
  increasing : s.entries.Pairwise fun e f => e.info.id < f.info.id
  wire : ∀ entry ∈ s.entries, entry.info.id = wireId entry.info.table entry.definition.offset
  ids : (s.entries.map (·.info.id)).Nodup
  names : (s.entries.map (·.info.name)).Nodup
  tables : s.tables.Pairwise fun t u => t.id < u.id
  counts : ∀ table ∈ s.tables,
    table.count.toNat = s.entries.countP fun entry => entry.info.table = table.id
  definitions : (s.entries.map fun entry => (entry.info.table, entry.definition)).Perm
    (supplied sets)
  find : ∀ id entry, findId s id = some entry ↔ entry ∈ s.entries ∧ entry.info.id = id

/-- Before the registry is initialized, a default is stored without a check. -/
theorem writeDefault_uninitialized (cfg : Config) (entry : Entry) :
    writeDefault cfg false entry = none := by
  unfold writeDefault wireApply writeEntry
  cases entry.definition.apply <;> simp

theorem Registered.registry (h : Registered (supplied sets) s) :
    Registry sets { s with initialized := true } where
  initialized := rfl
  increasing := h.increasing.imp fun hlt => UInt16.lt_iff_toNat_lt.2 hlt
  wire := h.wire
  ids := List.pairwise_map.2 (h.increasing.imp fun hlt heq =>
    Nat.ne_of_lt hlt (congrArg UInt16.toNat heq))
  names := h.names
  tables := h.tables.imp fun hlt => UInt8.lt_iff_toNat_lt.2 hlt
  counts := h.counts
  definitions := h.definitions
  find id entry := by
    rw [findId, bisect_eq_some_iff h.increasing, UInt16.toNat_inj]

/-- A call on an initialized service changes nothing. -/
theorem init_initialized (h : s.initialized = true) : (init cfg sets s).2 = s := by
  unfold init
  by_cases hsets : sets.isEmpty <;> simp [hsets, h]

/-- What `kfsw_param_init` does to a service that is not initialized. -/
theorem init_uninitialized (cfg : Config) (sets : List (Option DefinitionSet)) :
    (∃ e, init cfg sets Service.boot = (some e, Service.boot)) ∨
      ∃ u, init cfg sets Service.boot = (none, u) ∧ Registry sets u := by
  unfold init
  by_cases hsets : sets.isEmpty
  · exact Or.inl ⟨_, if_pos hsets⟩
  · rw [if_neg hsets, if_neg (by simp [Service.boot])]
    cases hadd : addSets cfg sets { Service.boot with entries := [], tables := [] } with
    | error e => exact Or.inl ⟨e, rfl⟩
    | ok u =>
      have hregistered := addSets_registered registered_boot hadd
      have hdefaults : u.entries.findSome? (writeDefault cfg u.initialized) = none := by
        rw [hregistered.fresh]
        exact List.findSome?_eq_none_iff.2 fun entry _ => writeDefault_uninitialized cfg entry
      by_cases hempty : u.entries.isEmpty
      · exact Or.inl ⟨_, if_pos hempty⟩
      · refine Or.inr ⟨_, ?_, hregistered.registry⟩
        simp only [hempty, hdefaults, Bool.false_eq_true, if_false]

/-- The state after some calls of `kfsw_param_init`, from the boot on. -/
def afterCalls (cfg : Config) (calls : List (List (Option DefinitionSet))) : Service :=
  calls.foldl (fun s sets => (init cfg sets s).2) Service.boot

/-- A service that is not initialized is as after the boot, and one that is holds the registry
of one of the calls. -/
theorem afterCalls_cases (cfg : Config) (calls : List (List (Option DefinitionSet))) :
    afterCalls cfg calls = Service.boot ∨ ∃ sets ∈ calls, Registry sets (afterCalls cfg calls) := by
  induction calls using List.reverseRecOn with
  | nil => exact Or.inl rfl
  | append_singleton calls sets ih =>
    have hlast : afterCalls cfg (calls ++ [sets]) = (init cfg sets (afterCalls cfg calls)).2 := by
      simp [afterCalls]
    rw [hlast]
    rcases ih with hboot | ⟨earlier, hmem, hregistry⟩
    · rw [hboot]
      rcases init_uninitialized cfg sets with ⟨e, heq⟩ | ⟨u, heq, hregistry⟩
      · exact Or.inl (by rw [heq])
      · exact Or.inr ⟨sets, by simp, by rw [heq]; exact hregistry⟩
    · refine Or.inr ⟨earlier, by simp [hmem], ?_⟩
      rw [init_initialized hregistry.initialized]
      exact hregistry

theorem addDefinition_admitted (h : addDefinition cfg set definition s = .ok u)
    (hs : ∀ entry ∈ s.entries, Admitted cfg entry) : ∀ entry ∈ u.entries, Admitted cfg entry := by
  obtain ⟨name, -, hadmitted, -, -, rfl⟩ := addDefinition_ok h
  intro entry hentry
  have hperm := insertByKey_perm (·.info.id.toNat) (makeEntry set definition name) s.entries
  rcases List.mem_cons.1 (hperm.mem_iff.1 hentry) with rfl | hentry
  · exact hadmitted
  · exact hs entry hentry

theorem addSets_admitted (h : addSets cfg sets s = .ok u)
    (hs : ∀ entry ∈ s.entries, Admitted cfg entry) : ∀ entry ∈ u.entries, Admitted cfg entry := by
  have hbuilds : Builds cfg fun _ s => ∀ entry ∈ s.entries, Admitted cfg entry := by
    refine ⟨fun hs hadd => ?_, fun hs hadd => addDefinition_admitted hadd hs⟩
    obtain ⟨_, -, -, -, rfl⟩ := addTable_ok hadd
    exact hs
  exact @Builds.addSets cfg s u [] _ hbuilds hs sets h

/-- A registry that `kfsw_param_init` has accepted. -/
structure Accepted (cfg : Config) (s : Service) : Prop where
  initialized : s.initialized = true
  admitted : ∀ entry ∈ s.entries, Admitted cfg entry
  ids : (s.entries.map (·.info.id)).Nodup
  names : (s.entries.map (·.info.name)).Nodup
  find : ∀ id entry, findId s id = some entry ↔ entry ∈ s.entries ∧ entry.info.id = id

/-- What the callers rely on, after a first call that returns 0. -/
theorem init_ok (h : init cfg sets Service.boot = (none, s)) : Registry sets s := by
  rcases init_uninitialized cfg sets with ⟨e, heq⟩ | ⟨u, heq, hu⟩
  · rw [heq] at h
    cases h
  · rw [heq] at h
    obtain rfl := (Prod.mk.inj h).2
    exact hu

/-- A registry of the first call that returns 0. -/
theorem init_accepted (h : init cfg sets Service.boot = (none, s)) : Accepted cfg s := by
  have hregistry := init_ok h
  refine ⟨hregistry.initialized, ?_, hregistry.ids, hregistry.names, hregistry.find⟩
  revert h
  unfold init
  by_cases hsets : sets.isEmpty
  · simp [hsets]
  · rw [if_neg hsets, if_neg (by simp [Service.boot])]
    cases hadd : addSets cfg sets { Service.boot with entries := [], tables := [] } with
    | error e => intro h; cases h
    | ok u =>
      have hu := addSets_admitted hadd (by simp)
      by_cases hempty : u.entries.isEmpty
      · simp [hempty]
      · cases hfind : u.entries.findSome? (writeDefault cfg u.initialized) with
        | some e => simp [hempty, hfind]
        | none =>
          simp only [hempty, hfind, Bool.false_eq_true, if_false, Prod.mk.injEq, true_and]
          rintro rfl
          exact hu

/-- A table with one byte in it. -/
def byteTable (table : UInt8) (name : String) : DefinitionSet :=
  ⟨table, some (CString.ofString name), none, some [⟨0, .U8, 0, 0, some (CString.ofString name),
    none, none, true, 7, none, none, none, false, none, false, none, false, none⟩]⟩

/-- A build with room for it. -/
def smallBuild : Config := ⟨256, 24, 104, true⟩

/-- What the first call with it leaves. -/
theorem init_byteTable (table : UInt8) (name : String)
    (hok : (init smallBuild [some (byteTable table name)] Service.boot).1 = none) :
    init smallBuild [some (byteTable table name)] Service.boot =
      (none, (init smallBuild [some (byteTable table name)] Service.boot).2) :=
  Prod.ext hok rfl

end KfswServices.Param
