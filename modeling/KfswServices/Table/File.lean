/-
# Table files

`src/table/table.c`: a file with values for the parameters of one table.  A load checks the whole
file, keeps the stored values that it is about to replace, applies the new ones, and only then takes
what it has kept for the values that a revert puts back.

`image`, `pending` and `decoded` are filled in every call before they are used, and are local to
the call here; `saved` is what it holds of them.
-/

import KfswServices.Param.Restore

namespace KfswServices.Table

open Library Param

/-- The build: that of the parameters and `CONFIG_KFSW_TABLE_MAX_ENTRIES`, in their ranges. -/
structure Build extends Config where
  maxEntries : ℕ
  stringRange : 8 ≤ stringMax ∧ stringMax ≤ 256
  entriesRange : 1 ≤ maxEntries ∧ maxEntries ≤ 255

/-- `KFSW_TABLE_MAGIC`: `KTBL`. -/
def tableMagic : List UInt8 := [0x4b, 0x54, 0x42, 0x4c]

/-- `KFSW_TABLE_VERSION`. -/
abbrev tableVersion : UInt16 := 1

/-- `KFSW_TABLE_HEADER_SIZE`. -/
abbrev tableHeaderSize : ℕ := 20

/-- `KFSW_TABLE_CRC_OFFSET`. -/
abbrev tableCrcOffset : ℕ := 16

/-- `KFSW_TABLE_ENTRY_HEADER_SIZE`. -/
abbrev tableEntryHeaderSize : ℕ := 4

/-- `KFSW_TABLE_PATH_SIZE`. -/
abbrev tablePathSize : ℕ := 64

/-- `KFSW_TABLE_MAX_BYTES`. -/
def Build.maxBytes (b : Build) : ℕ :=
  tableHeaderSize + b.maxEntries * (tableEntryHeaderSize + b.stringMax)

/-- `struct file_entry`. -/
structure FileEntry where
  offset : UInt8
  type : UInt8
  value : List UInt8
  deriving DecidableEq

/-- `enum kfsw_table_state`. -/
inductive TableState
  | EMPTY
  | LOADED
  | REVERTED
  deriving DecidableEq

/-- `struct kfsw_table_report`. -/
structure Report where
  table : UInt8
  entries : ℕ
  accepted : ℕ
  failedEntry : ℕ
  failedOffset : UInt8
  reason : Option Errno
  deriving DecidableEq

/-- A report with nothing in it. -/
def Report.zero : Report := ⟨0, 0, 0, 0, 0, none⟩

/-- `struct kfsw_table_status`. -/
structure Status where
  state : TableState
  table : UInt8
  entries : ℕ
  loads : ℕ
  rejections : ℕ
  reverts : ℕ
  path : CString
  deriving DecidableEq

/-- `struct saved_value`. -/
structure SavedValue where
  id : UInt16
  value : Value

/-- The node, with `saved` as far as `saved_count` says, and `status`. -/
structure Tables (ω : Type) where
  node : Node ω
  saved : List SavedValue
  status : Status

/-- `count_up`. -/
def countUp (counter : ℕ) : ℕ := if counter < 2 ^ 32 - 1 then counter + 1 else counter

/-! ### Checking a file -/

/-- `read_image`. -/
def readImage (b : Build) (r : Reading) : Except Errno (List UInt8) :=
  match r.stat with
  | .error e => .error e
  | .ok (isFile, size) =>
    if !isFile then .error .EBADMSG
    else if size < tableHeaderSize then .error .EBADMSG
    else if b.maxBytes < size then .error .EFBIG
    else r.content .EBADMSG size

/-- `validate_header`: the number of entries, and the table. -/
def validateHeader (b : Build) (image : List UInt8) : Except Errno (ℕ × UInt8) :=
  let entryCount := (getBe16 (image.drop 12)).toNat
  let table := image.getD 14 0
  if image.take 4 ≠ tableMagic then .error .EBADMSG
  else if getBe16 (image.drop 4) ≠ tableVersion then .error .ENOTSUP
  else if getBe16 (image.drop 6) ≠ UInt16.ofNat tableHeaderSize then .error .EBADMSG
  else if getBe32 (image.drop 8) ≠ UInt32.ofNat (image.length - tableHeaderSize) then
    .error .EBADMSG
  else if entryCount = 0 ∨ b.maxEntries < entryCount then .error .EBADMSG
  else if table < tableCoreFirst ∨ tableModuleLast < table then .error .EBADMSG
  else if crc32 (splice 0 image tableCrcOffset (putBe32 0)) ≠
      getBe32 (image.drop tableCrcOffset) then .error .EBADMSG
  else .ok (entryCount, table)

/-- `next_entry`; `none` is `-EBADMSG`. -/
def nextEntry (b : Build) (image : List UInt8) (offset : ℕ) : Option (FileEntry × ℕ) :=
  if image.length < offset + tableEntryHeaderSize then none
  else
    let valueSize := (getBe16 (image.drop (offset + 2))).toNat
    let start := offset + tableEntryHeaderSize
    if valueSize = 0 ∨ b.stringMax < valueSize ∨ image.length < start + valueSize then none
    else
      some (⟨image.getD offset 0, image.getD (offset + 1) 0, region image start valueSize⟩,
        start + valueSize)

/-- What `check_entries` asks of an entry of the file, once its offset is a new one: the parameter
and the value. -/
def checkEntry (b : Build) (s : Service) (entryCount : ℕ) (table : UInt8) (entry : FileEntry) :
    Except Errno (Entry × Value) :=
  match findId s (wireId table entry.offset) with
  | none => .error Errno.ENXIO
  | some param =>
    if param.info.readOnly then .error .EROFS
    else if param.definition.apply.isSome ∧ entryCount ≠ 1 then .error .ENOTSUP
    else
      match wireDecode b.toConfig param entry.type entry.value with
      | .error e => .error e
      | .ok value => .ok (param, value)

/-- `check_entries`, with `remaining` entries to come and `seen` the offsets of those before. -/
def checkEntries (b : Build) (s : Service) (image : List UInt8) (entryCount : ℕ) (table : UInt8) :
    ℕ → ℕ → List UInt8 → Report → Option (List (Entry × Value)) × Report
  | 0, offset, _, report =>
    if offset ≠ image.length then (none, { report with reason := some .EBADMSG })
    else (some [], { report with failedEntry := 0, failedOffset := 0, reason := none })
  | remaining + 1, offset, seen, report =>
    match nextEntry b image offset with
    | none => (none, { report with failedEntry := seen.length + 1, reason := some .EBADMSG })
    | some (entry, offset) =>
      let report :=
        { report with failedEntry := seen.length + 1, failedOffset := entry.offset }
      if entry.offset ∈ seen then (none, { report with reason := some .EEXIST })
      else
        match checkEntry b s entryCount table entry with
        | .error e => (none, { report with reason := some e })
        | .ok accepted =>
          let rest := checkEntries b s image entryCount table remaining offset
            (entry.offset :: seen) { report with accepted := report.accepted + 1 }
          (rest.1.map (accepted :: ·), rest.2)

/-- A path that the service takes. -/
def validPath (path : Option CString) : Option CString :=
  path.filter fun path => path ≠ CString.empty && path.length < tablePathSize

/-- `prepare`: the image, the number of entries, and the table. -/
def prepare (b : Build) (s : Service) (path : Option CString) (r : Reading) :
    Except Errno (List UInt8 × ℕ × UInt8) :=
  if (validPath path).isNone then .error .EINVAL
  else if !s.initialized then .error .EACCES
  else if !r.ready then .error .ENODEV
  else
    match readImage b r with
    | .error e => .error e
    | .ok image =>
      match validateHeader b image with
      | .error e => .error e
      | .ok header => .ok (image, header)

/-- `examine`. -/
def examine (b : Build) (s : Service) (path : Option CString) (r : Reading) :
    Except Errno (List (Entry × Value)) × Report :=
  match prepare b s path r with
  | .error e => (.error e, { Report.zero with reason := some e })
  | .ok (image, entryCount, table) =>
    match checkEntries b s image entryCount table entryCount tableHeaderSize []
      { Report.zero with table := table, entries := entryCount } with
    | (none, report) => (.error .EBADMSG, report)
    | (some accepted, report) => (.ok accepted, report)

/-- `kfsw_table_validate`. -/
def validate {ω : Type} (b : Build) (path : Option CString) (r : Reading) (t : Tables ω) :
    Option Errno × Report :=
  match examine b t.node.service path r with
  | (.error e, report) => (some e, report)
  | (.ok _, report) => (none, report)

/-! ### Loading and reverting -/

/-- Which entry of an accepted file could not be applied, and why. -/
structure Refusal where
  entry : ℕ
  offset : UInt8
  reason : Errno

/-- The pass of a load that fills `pending`, behind `index` entries. -/
def keepStored {ω : Type} (b : Build) (n : Node ω) :
    List (Entry × Value) → ℕ → Except Refusal (List SavedValue)
  | [], _ => .ok []
  | (entry, _) :: rest, index =>
    match n.readStoredEntry b.toConfig entry with
    | .error e => .error ⟨index + 1, entry.info.offset, e⟩
    | .ok value =>
      match keepStored b n rest (index + 1) with
      | .error e => .error e
      | .ok pending => .ok (⟨entry.info.id, value⟩ :: pending)

/-- The pass that applies, behind `index` entries. -/
def applyEntries {ω : Type} (owner : Owner ω) :
    List (Entry × Value) → ℕ → Node ω → Option Refusal × Node ω
  | [], _, n => (none, n)
  | (entry, value) :: rest, index, n =>
    match n.wireApply owner entry value with
    | (some e, n) => (some ⟨index + 1, entry.info.offset, e⟩, n)
    | (none, n) => applyEntries owner rest (index + 1) n

namespace Tables

variable {ω : Type} (b : Build) (owner : Owner ω)

/-- The end of a load that has been refused. -/
def reject (e : Errno) (report : Report) (t : Tables ω) : Option Errno × Report × Tables ω :=
  (some e, { report with reason := report.reason.or (some e) },
    { t with status := { t.status with rejections := countUp t.status.rejections } })

/-- `kfsw_table_load`. -/
def load (path : Option CString) (r : Reading) (t : Tables ω) :
    Option Errno × Report × Tables ω :=
  match examine b t.node.service path r with
  | (.error e, report) => t.reject e report
  | (.ok accepted, report) =>
    match keepStored b t.node accepted 0 with
    | .error e =>
      t.reject e.reason { report with failedEntry := e.entry, failedOffset := e.offset }
    | .ok pending =>
      match applyEntries owner accepted 0 t.node with
      | (some e, n) =>
        { t with node := n }.reject e.reason
          { report with failedEntry := e.entry, failedOffset := e.offset }
      | (none, n) =>
        (none, report,
          { node := n
            saved := pending
            status :=
              { t.status with
                state := .LOADED
                table := report.table
                entries := report.entries
                loads := countUp t.status.loads
                path := (path.getD CString.empty).take (tablePathSize - 1) } })

/-- The check of a revert: the parameters that the kept values are for. -/
def checkSaved (s : Service) (savedCount : ℕ) :
    List SavedValue → Except Errno (List (Entry × Value))
  | [] => .ok []
  | saved :: rest =>
    match findId s saved.id with
    | none => .error .ENOENT
    | some entry =>
      if entry.definition.apply.isSome ∧ savedCount ≠ 1 then .error .ENOTSUP
      else
        match validateEntry entry saved.value with
        | some e => .error e
        | none =>
          match checkSaved s savedCount rest with
          | .error e => .error e
          | .ok entries => .ok ((entry, saved.value) :: entries)

/-- `kfsw_table_revert`. -/
def revert (t : Tables ω) : Option Errno × Tables ω :=
  if !t.node.service.initialized then (some .EACCES, t)
  else if t.status.state ≠ .LOADED ∨ t.saved = [] then (some .ENOENT, t)
  else
    match checkSaved t.node.service t.saved.length t.saved with
    | .error e => (some e, t)
    | .ok entries =>
      match applyEntries owner entries 0 t.node with
      | (some e, n) => (some e.reason, { t with node := n })
      | (none, n) =>
        (none,
          { node := n
            saved := []
            status :=
              { t.status with
                state := .REVERTED
                reverts := countUp t.status.reverts } })

end Tables

/-! ### What a file lists -/

/-- The entries of a file from an offset on, and where they end. -/
def fileEntries (b : Build) (image : List UInt8) : ℕ → ℕ → Option (List FileEntry × ℕ)
  | 0, offset => some ([], offset)
  | count + 1, offset =>
    match nextEntry b image offset with
    | none => none
    | some (entry, offset) =>
      (fileEntries b image count offset).map fun rest => (entry :: rest.1, rest.2)

variable {b : Build} {s : Service} {image : List UInt8} {entryCount : ℕ} {table : UInt8}

theorem fileEntries_succ {count offset : ℕ} {entries : List FileEntry} {last : ℕ} :
    fileEntries b image (count + 1) offset = some (entries, last) ↔
      ∃ entry next rest, nextEntry b image offset = some (entry, next) ∧
        fileEntries b image count next = some (rest, last) ∧ entries = entry :: rest := by
  rw [fileEntries]
  cases hnext : nextEntry b image offset with
  | none => simp
  | some first =>
    obtain ⟨entry, next⟩ := first
    dsimp only
    cases hrest : fileEntries b image count next with
    | none => simp [hrest]
    | some rest =>
      obtain ⟨rest, end_⟩ := rest
      constructor
      · intro h
        obtain ⟨rfl, rfl⟩ := Prod.mk.inj (Option.some.inj h)
        exact ⟨entry, next, rest, rfl, hrest, rfl⟩
      · rintro ⟨entry', next', rest', h, hrest', rfl⟩
        obtain ⟨rfl, rfl⟩ := Prod.mk.inj (Option.some.inj h)
        obtain ⟨rfl, rfl⟩ := Prod.mk.inj (Option.some.inj (hrest.symm.trans hrest'))
        rfl

/-- **What `check_entries` asks of an entry.** -/
theorem checkEntry_eq_ok {entry : FileEntry} {param : Entry} {value : Value} :
    checkEntry b s entryCount table entry = .ok (param, value) ↔
      findId s (wireId table entry.offset) = some param ∧ param.info.readOnly = false ∧
        ¬(param.definition.apply.isSome = true ∧ entryCount ≠ 1) ∧
        wireDecode b.toConfig param entry.type entry.value = .ok value := by
  unfold checkEntry
  cases hfind : findId s (wireId table entry.offset) with
  | none => simp
  | some found =>
    dsimp only
    rw [ite_error_eq_ok, ite_error_eq_ok]
    constructor
    · rintro ⟨hreadOnly, happly, h⟩
      cases hdecode : wireDecode b.toConfig found entry.type entry.value with
      | error e => rw [hdecode] at h; cases h
      | ok decoded =>
        rw [hdecode] at h
        obtain ⟨rfl, rfl⟩ := Prod.mk.inj (Except.ok.inj h)
        exact ⟨rfl, by simpa using hreadOnly, happly, hdecode⟩
    · rintro ⟨hfound, hreadOnly, happly, hdecode⟩
      obtain rfl := Option.some.inj hfound
      exact ⟨by simp [hreadOnly], happly, by rw [hdecode]⟩

/-- **What `check_entries` accepts**: entries up to the end of the file, of different offsets, each
with a parameter and a value. -/
theorem checkEntries_eq_some {remaining offset : ℕ} (seen : List UInt8) (report : Report)
    {accepted : List (Entry × Value)} :
    (checkEntries b s image entryCount table remaining offset seen report).1 = some accepted ↔
      ∃ entries, fileEntries b image remaining offset = some (entries, image.length) ∧
        (entries.map FileEntry.offset).Nodup ∧ (∀ entry ∈ entries, entry.offset ∉ seen) ∧
        List.Forall₂ (fun entry found => checkEntry b s entryCount table entry = .ok found)
          entries accepted := by
  induction remaining generalizing offset seen report accepted with
  | zero =>
    unfold checkEntries fileEntries
    by_cases hend : offset = image.length
    · constructor
      · intro h
        rw [if_neg (not_not.2 hend)] at h
        obtain rfl := Option.some.inj h
        exact ⟨[], by rw [hend], List.nodup_nil, by simp, .nil⟩
      · rintro ⟨entries, hentries, -, -, hall⟩
        obtain ⟨rfl, -⟩ := Prod.mk.inj (Option.some.inj hentries)
        cases hall
        rw [if_neg (not_not.2 hend)]
    · simp [hend]
  | succ remaining ih =>
    unfold checkEntries
    cases hnext : nextEntry b image offset with
    | none =>
      constructor
      · intro h; cases h
      · rintro ⟨entries, hentries, -⟩
        obtain ⟨_, _, _, h, -⟩ := fileEntries_succ.1 hentries
        rw [hnext] at h
        cases h
    | some first =>
      obtain ⟨entry, next⟩ := first
      dsimp only
      constructor
      · intro h
        by_cases hseen : entry.offset ∈ seen
        · rw [if_pos hseen] at h
          cases h
        · rw [if_neg hseen] at h
          cases hcheck : checkEntry b s entryCount table entry with
          | error e => rw [hcheck] at h; cases h
          | ok found =>
            rw [hcheck] at h
            obtain ⟨rest, hrest, rfl⟩ := Option.map_eq_some_iff.1 h
            obtain ⟨entries, hentries, hnodup, hnew, hall⟩ := (ih _ _).1 hrest
            refine ⟨entry :: entries, fileEntries_succ.2 ⟨entry, next, entries, hnext, hentries,
              rfl⟩, List.nodup_cons.2 ⟨?_, hnodup⟩, ?_, .cons hcheck hall⟩
            · intro hmem
              obtain ⟨other, hother, heq⟩ := List.mem_map.1 hmem
              exact hnew other hother (heq ▸ List.mem_cons_self)
            · intro other hother
              rcases List.mem_cons.1 hother with rfl | hother
              · exact hseen
              · exact fun hmem => hnew other hother (List.mem_cons_of_mem _ hmem)
      · rintro ⟨entries, hentries, hnodup, hnew, hall⟩
        obtain ⟨entry', next', rest, hnext', hrest, rfl⟩ := fileEntries_succ.1 hentries
        obtain ⟨rfl, rfl⟩ := Prod.mk.inj (Option.some.inj (hnext.symm.trans hnext'))
        obtain ⟨hnotin, hnodup⟩ := List.nodup_cons.1 hnodup
        cases hall with
        | cons hcheck hall =>
          rw [if_neg (hnew entry List.mem_cons_self), hcheck]
          refine Option.map_eq_some_iff.2 ⟨_, (ih _ _).2 ⟨rest, hrest, hnodup, ?_, hall⟩, rfl⟩
          intro other hother hmem
          rcases List.mem_cons.1 hmem with heq | hmem
          · exact hnotin (List.mem_map.2 ⟨other, hother, heq⟩)
          · exact hnew other (List.mem_cons_of_mem _ hother) hmem

/-- The report keeps the table and the number of entries. -/
theorem checkEntries_report (b : Build) (s : Service) (image : List UInt8) (entryCount : ℕ)
    (table : UInt8) (remaining offset : ℕ) (seen : List UInt8) (report : Report) :
    (checkEntries b s image entryCount table remaining offset seen report).2.entries =
        report.entries ∧
      (checkEntries b s image entryCount table remaining offset seen report).2.table =
        report.table := by
  induction remaining generalizing offset seen report with
  | zero =>
    unfold checkEntries
    split_ifs <;> exact ⟨rfl, rfl⟩
  | succ remaining ih =>
    unfold checkEntries
    rcases nextEntry b image offset with _ | ⟨entry, next⟩
    · exact ⟨rfl, rfl⟩
    · dsimp only
      split_ifs
      · exact ⟨rfl, rfl⟩
      · rcases checkEntry b s entryCount table entry with e | found
        · exact ⟨rfl, rfl⟩
        · exact ih _ _ _

end KfswServices.Table
