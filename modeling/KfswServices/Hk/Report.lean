/-
# Housekeeping reports

The data of `src/hk/hk.c`: reports, their definitions, and the samples that are collected of them.
`kfsw_hk_prepare_definition` lays the entries of a report out in a sample, one behind the other, each
as wide as its parameter is declared.  A `Definition` is what it accepts: it holds the layout and
that it fits, so that whatever a report is defined with does.

`entries`, `widths` and `offsets` are one list, as long as `entry_count` says, and a report that is
not `defined` has no definition.
-/

import KfswServices.Param.Registry

namespace KfswServices.Hk

open Param (Info ParamType)

/-- The build: `CONFIG_KFSW_HK_*`, and `KFSW_CSP_BROADCAST_ADDRESS`. -/
structure Build where
  reports : ℕ
  entries : ℕ
  history : ℕ
  sampleBytes : ℕ
  periodFloor : ℕ
  storeCapacity : ℕ
  storeFloor : ℕ
  beaconFloor : ℕ
  broadcast : UInt16
  reports_range : 1 ≤ reports ∧ reports ≤ 16
  entries_range : 1 ≤ entries ∧ entries ≤ 64
  history_range : 1 ≤ history ∧ history ≤ 256
  sampleBytes_range : 32 ≤ sampleBytes ∧ sampleBytes ≤ 240
  periodFloor_range : 100 ≤ periodFloor ∧ periodFloor ≤ 3600000
  storeCapacity_range : 8 ≤ storeCapacity ∧ storeCapacity ≤ 8192
  storeFloor_range : 1000 ≤ storeFloor ∧ storeFloor ≤ 3600000
  beaconFloor_range : 1000 ≤ beaconFloor ∧ beaconFloor ≤ 3600000

/-- `KFSW_HK_PROTOCOL_VERSION`. -/
abbrev protocolVersion : UInt8 := 1

/-- `KFSW_HK_CLASS_MAX`. -/
abbrev classMax : UInt8 := 7

/-- `KFSW_HK_CLASS_DEFAULT`. -/
abbrev classDefault : UInt8 := 4

/-- `KFSW_HK_HEADER_SIZE`. -/
abbrev headerSize : ℕ := 10

/-- `KFSW_HK_NODE_LOCAL`. -/
abbrev nodeLocal : UInt16 := 0

/-- `struct kfsw_hk_entry`. -/
structure Entry where
  node : UInt16
  paramId : UInt16
  deriving DecidableEq

/-- An entry of a definition, with its width and its offset in a sample. -/
structure Field where
  entry : Entry
  width : ℕ
  offset : ℕ
  deriving DecidableEq

/-- Fields that are one behind the other, from an offset on, and not empty. -/
def Laid : ℕ → List Field → Prop
  | _, [] => True
  | start, field :: fields =>
    field.offset = start ∧ 0 < field.width ∧ Laid (start + field.width) fields

/-- The bytes of some fields. -/
def payload (fields : List Field) : ℕ := (fields.map (·.width)).sum

/-- `struct kfsw_hk_definition`, as `kfsw_hk_prepare_definition` accepts it. -/
@[ext] structure Definition (b : Build) where
  fields : List Field
  retrievalClass : UInt8
  laid : Laid headerSize fields
  fits : payload fields + headerSize ≤ b.sampleBytes
  some_entry : fields ≠ []
  entries_le : fields.length ≤ b.entries
  class_le : retrievalClass ≤ classMax

namespace Definition

variable {b : Build}

/-- `payload_bytes`. -/
def payloadBytes (d : Definition b) : ℕ := payload d.fields

/-- `entry_count`. -/
def entryCount (d : Definition b) : UInt8 := UInt8.ofNat d.fields.length

/-- The entries, as they were asked for. -/
def entries (d : Definition b) : List Entry := d.fields.map (·.entry)

/-- The length of a sample, and of a record of the store. -/
def recordSize (d : Definition b) : ℕ := headerSize + d.payloadBytes

end Definition

/-! ### Laying a report out -/

/-- `entry_width`. -/
def entryWidth (type : ParamType) (arraySize : UInt16) : ℕ :=
  match type with
  | .U8 | .I8 | .X8 => 1
  | .U16 | .I16 | .X16 => 2
  | .U32 | .I32 | .X32 | .FLOAT => 4
  | .U64 | .I64 | .X64 | .DOUBLE => 8
  | .STRING | .DATA => arraySize.toNat
  | .INVALID => 0

/-- What the parameters of a node are asked for: `kfsw_param_visit` on this node, and on another
`kfsw_param_remote_visit_until`, which is called for one entry after the other. -/
structure Listings where
  registry : Except Errno (List Info)
  remote : ℕ → UInt16 → Except Errno (List Info)

/-- `match_width`: the width of the first parameter with that identifier. -/
def matchWidth (paramId : UInt16) (infos : List Info) : Option ℕ :=
  (infos.find? (·.id = paramId)).map fun info => entryWidth info.type info.arraySize

/-- `entry_declared_width`. -/
def entryDeclaredWidth (b : Build) (lists : Listings) (index : ℕ) (entry : Entry) :
    Except Errno ℕ :=
  let listing :=
    if entry.node = nodeLocal then lists.registry
    else if entry.node ≥ b.broadcast then .error .EINVAL
    else lists.remote index entry.node
  match listing with
  | .error e => .error e
  | .ok infos =>
    match matchWidth entry.paramId infos with
    | none => .error .ENOENT
    | some 0 => .error .ENOTSUP
    | some width => .ok width

/-- The loop of `kfsw_hk_prepare_definition`. -/
def layOut (b : Build) (lists : Listings) : ℕ → ℕ → List Entry → Except Errno (List Field)
  | _, _, [] => .ok []
  | index, offset, entry :: entries =>
    match entryDeclaredWidth b lists index entry with
    | .error e => .error e
    | .ok width =>
      match layOut b lists (index + 1) (offset + width) entries with
      | .error e => .error e
      | .ok fields => .ok (⟨entry, width, offset⟩ :: fields)

theorem entryDeclaredWidth_pos {b : Build} {lists : Listings} {index : ℕ} {entry : Entry}
    {width : ℕ} (h : entryDeclaredWidth b lists index entry = .ok width) : 0 < width := by
  unfold entryDeclaredWidth at h
  dsimp only at h
  split at h
  · cases h
  · split at h
    · cases h
    · cases h
    · rename_i hne _
      cases h
      exact Nat.pos_of_ne_zero fun h0 => hne (h0 ▸ rfl)

/-- The first field that is laid out, and the others. -/
theorem layOut_cons {b : Build} {lists : Listings} {entry : Entry} {entries : List Entry}
    {index offset : ℕ} {fields : List Field}
    (h : layOut b lists index offset (entry :: entries) = .ok fields) :
    ∃ width rest, entryDeclaredWidth b lists index entry = .ok width ∧
      layOut b lists (index + 1) (offset + width) entries = .ok rest ∧
        fields = ⟨entry, width, offset⟩ :: rest := by
  unfold layOut at h
  cases hwidth : entryDeclaredWidth b lists index entry with
  | error e => rw [hwidth] at h; cases h
  | ok width =>
    rw [hwidth] at h
    cases hrest : layOut b lists (index + 1) (offset + width) entries with
    | error e => simp only [hrest, reduceCtorEq] at h
    | ok rest =>
      simp only [hrest, Except.ok.injEq] at h
      exact ⟨width, rest, rfl, hrest, h.symm⟩

/-- **What is laid out**, from an offset on. -/
theorem layOut_ok {b : Build} {lists : Listings} {entries : List Entry} {index offset : ℕ}
    {fields : List Field} (h : layOut b lists index offset entries = .ok fields) :
    Laid offset fields ∧ fields.map (·.entry) = entries := by
  induction entries generalizing index offset fields with
  | nil =>
    obtain rfl := Except.ok.inj h
    exact ⟨trivial, rfl⟩
  | cons entry entries ih =>
    obtain ⟨width, rest, hwidth, hrest, rfl⟩ := layOut_cons h
    obtain ⟨hlaid, hentries⟩ := ih hrest
    exact ⟨⟨rfl, entryDeclaredWidth_pos hwidth, hlaid⟩, congrArg (entry :: ·) hentries⟩

/-- `kfsw_hk_prepare_definition`, with what its callers make the class. -/
def prepareDefinition (b : Build) (lists : Listings) (report : UInt8) (entries : List Entry)
    (retrievalClass : { c : UInt8 // c ≤ classMax }) : Except Errno (Definition b) :=
  if hrefused : report.toNat ≥ b.reports ∨ entries = [] ∨ entries.length > b.entries then
    .error .EINVAL
  else
    match hfields : layOut b lists 0 headerSize entries with
    | .error e => .error e
    | .ok fields =>
      if hsize : payload fields + headerSize > b.sampleBytes then .error .EMSGSIZE
      else
        have hentries := (layOut_ok hfields).2
        .ok ⟨fields, retrievalClass.1, (layOut_ok hfields).1, not_lt.1 hsize,
          fun h => hrefused (Or.inr (Or.inl (by rw [← hentries, h]; rfl))),
          by
            rw [← List.length_map (f := (·.entry)), hentries]
            exact not_lt.1 fun h => hrefused (Or.inr (Or.inr h)), retrievalClass.2⟩

/-- **What is accepted** is what is laid out, and fits. -/
theorem prepareDefinition_eq_ok_iff {b : Build} {lists : Listings} {report : UInt8}
    {entries : List Entry} {retrievalClass : { c : UInt8 // c ≤ classMax }} {d : Definition b} :
    prepareDefinition b lists report entries retrievalClass = .ok d ↔ report.toNat < b.reports ∧
      layOut b lists 0 headerSize entries = .ok d.fields ∧ d.retrievalClass = retrievalClass.1 := by
  unfold prepareDefinition
  constructor
  · intro h
    split_ifs at h with hrefused
    split at h
    · cases h
    · rename_i fields hfields
      split_ifs at h
      obtain rfl := Except.ok.inj h
      exact ⟨not_le.1 fun hle => hrefused (Or.inl hle), hfields, rfl⟩
  · rintro ⟨hreport, hfields, hclass⟩
    have hentries := (layOut_ok hfields).2
    have hadmitted : ¬ (report.toNat ≥ b.reports ∨ entries = [] ∨ entries.length > b.entries) := by
      rintro (h | h | h)
      · omega
      · exact d.some_entry (List.map_eq_nil_iff.1 (hentries.trans h))
      · have hle := d.entries_le
        rw [← hentries, List.length_map] at h
        omega
    rw [dif_neg hadmitted]
    split
    · rename_i e he
      rw [hfields] at he
      cases he
    · rename_i fields hfields'
      obtain rfl := Except.ok.inj (hfields.symm.trans hfields')
      rw [dif_neg (not_lt.2 d.fits)]
      exact congrArg Except.ok (Definition.ext rfl hclass.symm)

/-! ### Reports -/

/-- `struct kfsw_hk_sample`. -/
structure Sample where
  seconds : UInt32
  sequence : UInt16
  entryCount : UInt8
  flags : UInt8
  length : ℕ
  data : List UInt8

/-- Milliseconds between two events, or 0, as the setters admit them from a floor on. -/
structure Interval (floor : ℕ) where
  ms : UInt32
  admitted : ms = 0 ∨ floor ≤ ms.toNat

namespace Interval

variable {floor : ℕ}

/-- No interval. -/
def off : Interval floor := ⟨0, Or.inl rfl⟩

/-- The check of the setters, and of `load_snapshot`. -/
def ofMs (ms : UInt32) : Option (Interval floor) :=
  if h : ms ≠ 0 ∧ ms.toNat < floor then none
  else some ⟨ms, by
    rcases not_and_or.1 h with h0 | hle
    · exact Or.inl (not_not.1 h0)
    · exact Or.inr (not_lt.1 hle)⟩

theorem ofMs_ms (i : Interval floor) : ofMs i.ms = some i := by
  unfold ofMs
  rw [dif_neg]
  rintro ⟨h0, hlt⟩
  rcases i.admitted with h | h
  · exact h0 h
  · omega

theorem ms_of_ofMs {ms : UInt32} {i : Interval floor} (h : ofMs ms = some i) : i.ms = ms := by
  unfold ofMs at h
  split_ifs at h
  cases h
  rfl

end Interval

/-- `struct kfsw_hk_report`. -/
structure Report (b : Build) where
  definition : Option (Definition b)
  period : Interval b.periodFloor
  nextUptimeMs : ℤ
  ring : ℕ → Sample
  collectedOrder : ℕ → UInt64
  held : ℕ
  nextSlot : ℕ
  sequence : UInt16

/-- A sample of zeros. -/
def Sample.zero : Sample := ⟨0, 0, 0, 0, 0, []⟩

/-- A report of zeros. -/
def Report.zero (b : Build) : Report b :=
  ⟨none, .off, 0, fun _ => .zero, fun _ => 0, 0, 0, 0⟩

/-- `struct kfsw_hk_stats`, without what `kfsw_hk_get_stats` asks others for. -/
structure Stats where
  collections : UInt32
  scheduledAttempts : UInt32
  missedSlots : UInt32
  settingsDirty : Bool
  lastSaveError : Option Errno
  lastLoadError : Option Errno
  failures : UInt32
  entriesFailed : UInt32
  overwritten : UInt32
  lastSeconds : UInt32
  reports : ℕ

/-- `struct store_state`. -/
structure StoreState (b : Build) where
  interval : Interval b.storeFloor
  everyN : ℕ
  pending : ℕ
  recordSize : ℕ
  isOpen : Bool

/-- `struct beacon_state`, with the destination that its setter admits. -/
structure Beacon (b : Build) where
  node : UInt16
  interval : Interval b.beaconFloor
  nextUptimeMs : ℤ
  admitted : interval.ms = 0 ∨ (node ≠ 0 ∧ node < b.broadcast)

/-- The static state of `hk.c`, `hk_store.c` and `hk_beacon.c`. -/
structure State (b : Build) where
  reports : UInt8 → Report b
  stats : Stats
  collectedOrder : UInt64
  initialized : Bool
  enabled : Bool
  restoring : Bool
  configRevision : UInt64
  saveBlocked : Bool
  generations : UInt8 → UInt64
  scheduleRevisions : UInt8 → UInt64
  stores : UInt8 → StoreState b
  beacons : UInt8 → Beacon b

/-- The state at the reset. -/
def State.reset (b : Build) : State b where
  reports _ := .zero b
  stats := ⟨0, 0, 0, false, none, none, 0, 0, 0, 0, 0⟩
  collectedOrder := 0
  initialized := false
  enabled := true
  restoring := false
  configRevision := 0
  saveBlocked := false
  generations _ := 0
  scheduleRevisions _ := 0
  stores _ := ⟨.off, 0, 0, 0, false⟩
  beacons _ := ⟨0, .off, 0, Or.inl rfl⟩

variable {b : Build}

/-- Something of a report changes. -/
def State.setReport (s : State b) (report : UInt8) (r : Report b) : State b :=
  { s with reports := Function.update s.reports report r }

@[simp] theorem State.setReport_same (s : State b) (report : UInt8) (r : Report b) :
    (s.setReport report r).reports report = r := Function.update_self _ _ _

theorem State.setReport_ne (s : State b) {report other : UInt8} (r : Report b)
    (h : other ≠ report) : (s.setReport report r).reports other = s.reports other :=
  Function.update_of_ne h _ _

/-! ### A small build -/

/-- Two reports of one entry, with a history of two samples. -/
def smallBuild : Build where
  reports := 2
  entries := 1
  history := 2
  sampleBytes := 32
  periodFloor := 100
  storeCapacity := 8
  storeFloor := 1000
  beaconFloor := 1000
  broadcast := 31
  reports_range := by decide
  entries_range := by decide
  history_range := by decide
  sampleBytes_range := by decide
  periodFloor_range := by decide
  storeCapacity_range := by decide
  storeFloor_range := by decide
  beaconFloor_range := by decide

/-- A report of one byte. -/
def byteDefinition (entry : Entry) : Definition smallBuild where
  fields := [⟨entry, 1, headerSize⟩]
  retrievalClass := classDefault
  laid := ⟨rfl, Nat.one_pos, trivial⟩
  fits := show 1 + 0 + 10 ≤ 32 by decide
  some_entry := List.cons_ne_nil _ _
  entries_le := Nat.le_refl 1
  class_le := by decide

end KfswServices.Hk
