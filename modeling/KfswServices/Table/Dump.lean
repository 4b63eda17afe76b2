/-
# A table written to a file

`kfsw_table_dump` of `src/table/table.c` and `kfsw_snapshot_write` of `src/snapshot_file.c`.  A dump
goes through the registry and writes an entry for each parameter of the table that is not read-only
and of a type that a file carries; what is written is decoded to the value that the parameter has
(`dumpEntries_ok`).

A load asks for more than that: a parameter with an `apply` is taken only from a file in which it is
alone.  So the file of a table with such a parameter and another one cannot be loaded, and with that
exception every file can (`dump_reloads_iff`).
-/

import KfswServices.Table.Load

namespace KfswServices.Table

open Library Param

variable {ω : Type}

/-! ### Writing the file -/

/-- What the file system answers to a dump: whether the storage is ready, `fs_mkdir`, whether it is
ready still, `fs_open`, each `fs_write`, `fs_sync`, `fs_close` and `fs_rename`. -/
structure Writing where
  ready : Bool
  mkdir : Option Errno
  stillReady : Bool
  opened : Option Errno
  writes : List (Except Errno ℕ)
  synced : Option Errno
  closed : Option Errno
  renamed : Option Errno

/-- `write_all`: what is in the file at the end, `file` being in it. -/
def writeAll (data : List UInt8) :
    List (Except Errno ℕ) → List UInt8 → Except Errno (List UInt8)
  | [], file => if file.length < data.length then .error Errno.EIO else .ok file
  | write :: writes, file =>
    if file.length < data.length then
      match write with
      | .error e => .error e
      | .ok 0 => .error Errno.EIO
      | .ok (written + 1) =>
        writeAll data writes (file ++ (data.drop file.length).take (written + 1))
    else .ok file

/-- `kfsw_snapshot_write`: what is in the file that it leaves at the path. -/
def snapshotWrite (w : Writing) (data : List UInt8) : Except Errno (List UInt8) :=
  if !w.stillReady then .error .ENODEV
  else
    match w.opened with
    | some e => .error e
    | none =>
      match writeAll data w.writes [] with
      | .error e => .error e
      | .ok file =>
        match (w.synced.or w.closed).or w.renamed with
        | some e => .error e
        | none => .ok file

/-- One entry of a table file. -/
def tableEntry (offset type : UInt8) (value : List UInt8) : List UInt8 :=
  offset :: type :: (putBe16 (UInt16.ofNat value.length) ++ value)

/-- The header of a table file in front of its checksum. -/
def tableFront (payloadSize count : ℕ) (table : UInt8) : List UInt8 :=
  tableMagic ++ (putBe16 tableVersion ++ (putBe16 (UInt16.ofNat tableHeaderSize) ++
    (putBe32 (UInt32.ofNat payloadSize) ++ (putBe16 (UInt16.ofNat count) ++ [table, 0]))))

/-- A table file with this checksum. -/
def tableImage (payload : List UInt8) (count : ℕ) (table : UInt8) (crc : UInt32) : List UInt8 :=
  tableFront payload.length count table ++ (putBe32 crc ++ payload)

section
variable (b : Build) (owner : Owner ω)

/-- The loop of `kfsw_table_dump`: the octets behind the header and the entries in them. -/
def dumpEntries (table : UInt8) :
    List Entry → List UInt8 → ℕ → Node ω → Except Errno (List UInt8 × ℕ) × Node ω
  | [], payload, count, n => (.ok (payload, count), n)
  | entry :: entries, payload, count, n =>
    if entry.info.table ≠ table ∨ entry.info.readOnly then
      dumpEntries table entries payload count n
    else
      match wireTypeOf entry with
      | .error _ => dumpEntries table entries payload count n
      | .ok (type, _) =>
        if count = b.maxEntries then (.error .E2BIG, n)
        else
          match n.wireEncode b.toConfig owner entry
            (b.maxBytes - (tableHeaderSize + payload.length) - tableEntryHeaderSize) with
          | (.error _, n) => (.error .E2BIG, n)
          | (.ok octets, n) =>
            dumpEntries table entries (payload ++ tableEntry entry.info.offset type octets)
              (count + 1) n

/-- `kfsw_table_dump`: the number of entries, and what is in the file. -/
def Tables.dump (table : UInt8) (path : Option CString) (w : Writing) (t : Tables ω) :
    Except Errno (ℕ × List UInt8) × Tables ω :=
  if (validPath path).isNone then (.error .EINVAL, t)
  else if table < tableCoreFirst ∨ tableModuleLast < table then (.error .EINVAL, t)
  else if !t.node.service.initialized then (.error .EACCES, t)
  else if !w.ready then (.error .ENODEV, t)
  else
    match dumpEntries b owner table t.node.service.entries [] 0 t.node with
    | (.error e, n) => (.error e, { t with node := n })
    | (.ok (payload, count), n) =>
      if count = 0 then (.error .ENOENT, { t with node := n })
      else if w.mkdir ≠ none ∧ w.mkdir ≠ some .EEXIST then
        (.error (w.mkdir.getD Errno.EIO), { t with node := n })
      else
        match snapshotWrite w
          (tableImage payload count table (crc32 (tableImage payload count table 0))) with
        | .error e => (.error e, { t with node := n })
        | .ok file => (.ok (count, file), { t with node := n })

end

/-! ### What is in the file -/

@[simp] theorem length_tableEntry (offset type : UInt8) (value : List UInt8) :
    (tableEntry offset type value).length = tableEntryHeaderSize + value.length := by
  simp only [tableEntry, List.length_cons, List.length_append, length_putBe16, tableEntryHeaderSize]
  omega

/-- An entry that the format can hold. -/
structure FileEntry.Holds (b : Build) (e : FileEntry) : Prop where
  value : e.value ≠ []
  valueMax : e.value.length ≤ b.stringMax

/-- An entry that has been written is read back. -/
theorem nextEntry_tableEntry {b : Build} {e : FileEntry} (h : e.Holds b) (front rest : List UInt8) :
    nextEntry b (front ++ (tableEntry e.offset e.type e.value ++ rest)) front.length =
      some (e, (front ++ tableEntry e.offset e.type e.value).length) := by
  have hpos := List.length_pos_iff.2 h.value
  have hmax := h.valueMax
  have hrange := b.stringRange.2
  have hlen : (front ++ (tableEntry e.offset e.type e.value ++ rest)).length =
      front.length + (tableEntryHeaderSize + e.value.length + rest.length) := by
    simp only [List.length_append, length_tableEntry]
  have hdrop : ∀ k, (front ++ (tableEntry e.offset e.type e.value ++ rest)).drop
      (front.length + k) = (tableEntry e.offset e.type e.value ++ rest).drop k := fun k =>
    List.drop_length_add_append _
  have hsize : (getBe16 ((front ++ (tableEntry e.offset e.type e.value ++ rest)).drop
      (front.length + 2))).toNat = e.value.length := by
    have hget : getBe16 ((tableEntry e.offset e.type e.value ++ rest).drop 2) =
        UInt16.ofNat e.value.length := by
      simp [tableEntry]
    rw [hdrop, hget, UInt16.toNat_ofNat']
    exact Nat.mod_eq_of_lt (by omega)
  have hfirst : ∀ k, (front ++ (tableEntry e.offset e.type e.value ++ rest)).getD
      (front.length + k) 0 = (tableEntry e.offset e.type e.value ++ rest).getD k 0 := fun k => by
    rw [List.getD_append_right _ _ _ _ (by omega), Nat.add_sub_cancel_left]
  have hoffset : (front ++ (tableEntry e.offset e.type e.value ++ rest)).getD front.length 0 =
      e.offset := hfirst 0
  have htype : (front ++ (tableEntry e.offset e.type e.value ++ rest)).getD
      (front.length + 1) 0 = e.type := hfirst 1
  have hvalue : region (front ++ (tableEntry e.offset e.type e.value ++ rest))
      (front.length + tableEntryHeaderSize) e.value.length = e.value := by
    rw [region, hdrop]
    simp [tableEntry]
  unfold nextEntry
  rw [if_neg (by rw [hlen]; omega), hsize]
  dsimp only
  rw [if_neg (by rw [hlen]; simp only [tableEntryHeaderSize] at *; omega), hvalue, hoffset, htype,
    List.length_append, length_tableEntry, Nat.add_assoc]

/-- Entries, one after the other. -/
def payloadOf (entries : List FileEntry) : List UInt8 :=
  entries.flatMap fun e => tableEntry e.offset e.type e.value

/-- **Entries that have been written are read back.** -/
theorem fileEntries_payload {b : Build} {entries : List FileEntry}
    (h : ∀ e ∈ entries, e.Holds b) (front : List UInt8) :
    fileEntries b (front ++ payloadOf entries) entries.length front.length =
      some (entries, (front ++ payloadOf entries).length) := by
  induction entries generalizing front with
  | nil => simp [fileEntries, payloadOf]
  | cons e entries ih =>
    have hsplit : payloadOf (e :: entries) =
        tableEntry e.offset e.type e.value ++ payloadOf entries := rfl
    have hrest := ih (fun e' he' => h e' (List.mem_cons_of_mem _ he'))
      (front ++ tableEntry e.offset e.type e.value)
    rw [List.append_assoc] at hrest
    rw [hsplit, List.length_cons]
    exact fileEntries_succ.2 ⟨e, _, entries,
      nextEntry_tableEntry (h e List.mem_cons_self) front (payloadOf entries), hrest, rfl⟩

@[simp] theorem length_tableFront (payloadSize count : ℕ) (table : UInt8) :
    (tableFront payloadSize count table).length = tableCrcOffset := by
  simp [tableFront, tableMagic]

/-- The entries of a file that has been written. -/
theorem fileEntries_built {b : Build} {entries : List FileEntry}
    (h : ∀ e ∈ entries, e.Holds b) (count : ℕ) (table : UInt8) (crc : UInt32) :
    fileEntries b (tableImage (payloadOf entries) count table crc) entries.length tableHeaderSize =
      some (entries, (tableImage (payloadOf entries) count table crc).length) := by
  have hfront : (tableFront (payloadOf entries).length count table ++ putBe32 crc).length =
      tableHeaderSize := by simp
  have hread := fileEntries_payload h
    (tableFront (payloadOf entries).length count table ++ putBe32 crc)
  rwa [hfront, List.append_assoc] at hread

/-- **The header of a file that has been written is valid.** -/
theorem validateHeader_built {b : Build} {count : ℕ} {table : UInt8} (payload : List UInt8)
    (hcount : 0 < count) (hmax : count ≤ b.maxEntries)
    (htable : ¬(table < tableCoreFirst ∨ tableModuleLast < table)) : validateHeader b
        (tableImage payload count table (crc32 (tableImage payload count table 0))) =
      .ok (count, table) := by
  generalize hcrc : crc32 (tableImage payload count table 0) = crc
  have hrange := b.entriesRange.2
  have hlen : (tableImage payload count table crc).length = tableHeaderSize + payload.length := by
    simp only [tableImage, List.length_append, length_tableFront, length_putBe32, tableCrcOffset,
      tableHeaderSize]
    omega
  have hcleared : splice 0 (tableImage payload count table crc) tableCrcOffset (putBe32 0) =
      tableImage payload count table 0 := by
    have hfront : (tableFront payload.length count table ++ putBe32 crc).length =
        tableCrcOffset + (putBe32 0).length := by simp
    rw [splice, hlen, tableImage, List.take_left' (length_tableFront _ _ _), ← List.append_assoc
      (tableFront _ _ _) (putBe32 crc), List.drop_left' hfront, Nat.sub_eq_zero_of_le
      (by simp only [tableCrcOffset, tableHeaderSize]; omega)]
    rfl
  have hmagic : (tableImage payload count table crc).take 4 = tableMagic := rfl
  have hversion : getBe16 ((tableImage payload count table crc).drop 4) = tableVersion :=
    getBe16_putBe16 _ _
  have hheader : getBe16 ((tableImage payload count table crc).drop 6) =
      UInt16.ofNat tableHeaderSize := getBe16_putBe16 _ _
  have hpayload : getBe32 ((tableImage payload count table crc).drop 8) =
      UInt32.ofNat payload.length := getBe32_putBe32 _ _
  have hentries : (getBe16 ((tableImage payload count table crc).drop 12)).toNat = count := by
    have hget : getBe16 ((tableImage payload count table crc).drop 12) = UInt16.ofNat count :=
      getBe16_putBe16 _ _
    rw [hget, UInt16.toNat_ofNat']
    exact Nat.mod_eq_of_lt (by omega)
  have htableId : (tableImage payload count table crc).getD 14 0 = table := rfl
  have hchecksum : getBe32 ((tableImage payload count table crc).drop tableCrcOffset) = crc := by
    rw [tableImage, List.drop_left' (length_tableFront _ _ _)]
    exact getBe32_putBe32 _ _
  unfold validateHeader
  dsimp only
  rw [hmagic, hversion, hheader, hpayload, hentries, htableId, hcleared, hchecksum, hlen,
    Nat.add_sub_cancel_left, if_neg (not_not.2 rfl), if_neg (not_not.2 rfl),
    if_neg (not_not.2 rfl), if_neg (not_not.2 rfl), if_neg (by omega), if_neg htable,
    if_neg (not_not.2 hcrc)]

/-! ### What a dump writes -/

/-- A parameter that `kfsw_table_dump` writes to the file of a table. -/
def Dumpable (table : UInt8) (entry : Entry) : Prop :=
  entry.info.table = table ∧ entry.info.readOnly = false ∧ Carried entry.info.type

instance (table : UInt8) (entry : Entry) : Decidable (Dumpable table entry) := by
  unfold Dumpable
  infer_instance

/-- The parameters that a dump of the table writes. -/
def dumped (s : Service) (table : UInt8) : List Entry :=
  s.entries.filter fun entry => Dumpable table entry

/-- The entry of a file that holds the value of a parameter. -/
structure Saves (b : Build) (owner : Owner ω) (n : Node ω) (entry : Entry) (e : FileEntry) :
    Prop where
  offset : e.offset = entry.info.offset
  decode : wireDecode b.toConfig entry e.type e.value = .ok (n.current b.toConfig owner entry)
  holds : e.Holds b

section
variable {b : Build} {owner : Owner ω} {table : UInt8} {entries : List Entry}

variable {n : Node ω}

/-- What a dump that returns 0 leaves behind. -/
structure Dumped (b : Build) (owner : Owner ω) (table : UInt8) (t : Tables ω) (count : ℕ)
    (file : List UInt8) (u : Tables ω) (saved : List FileEntry) : Prop where
  image : file = tableImage (payloadOf saved) count table
    (crc32 (tableImage (payloadOf saved) count table 0))
  counted : count = saved.length
  pos : 0 < count
  max : count ≤ b.maxEntries
  allocated : ¬(table < tableCoreFirst ∨ tableModuleLast < table)
  size : file.length ≤ b.maxBytes
  saves : List.Forall₂ (Saves b owner t.node) (dumped t.node.service table) saved
  refreshed : t.node.Refreshed owner u.node
  fresh : ∀ entry ∈ dumped t.node.service table, u.node.Fresh owner entry

@[simp] theorem length_tableImage (payload : List UInt8) (count : ℕ) (table : UInt8)
    (crc : UInt32) : (tableImage payload count table crc).length =
      tableHeaderSize + payload.length := by
  simp only [tableImage, List.length_append, length_tableFront, length_putBe32, tableCrcOffset,
    tableHeaderSize]
  omega

/-- The file system hands a file over whole. -/
structure Delivers (r : Reading) (file : List UInt8) : Prop where
  ready : r.ready = true
  stat : r.stat = .ok (true, file.length)
  content : ∀ short, r.content short file.length = .ok file

/-- An entry that has been written is for its parameter, and refused only for an `apply`. -/
theorem checkEntry_saves {s : Service} (hacc : Param.Accepted b.toConfig s) {entry : Entry}
    (hentry : entry ∈ s.entries) (hdumpable : Dumpable table entry) {e : FileEntry}
    (hsaves : Saves b owner n entry e) {count : ℕ} {found : Entry × Value} :
    checkEntry b s count table e = .ok found ↔ found = (entry, n.current b.toConfig owner entry) ∧
        (entry.definition.apply.isSome = true → count = 1) := by
  have hfind : findId s (wireId table e.offset) = some entry := by
    refine (hacc.find _ _).2 ⟨hentry, ?_⟩
    rw [hsaves.offset, ← hdumpable.1]
    exact (hacc.admitted entry hentry).id
  obtain ⟨param, value⟩ := found
  rw [checkEntry_eq_ok, hfind]
  constructor
  · rintro ⟨hparam, -, happly, hdecode⟩
    obtain rfl := Option.some.inj hparam
    obtain rfl := Except.ok.inj (hdecode.symm.trans hsaves.decode)
    exact ⟨rfl, by simpa using happly⟩
  · rintro ⟨hfound, happly⟩
    obtain ⟨rfl, rfl⟩ := Prod.mk.inj hfound
    exact ⟨rfl, hdumpable.2.1, by simpa using happly, hsaves.decode⟩

theorem checkEntries_saves {s : Service} (hacc : Param.Accepted b.toConfig s)
    (hentries : ∀ entry ∈ entries, entry ∈ s.entries ∧ Dumpable table entry)
    {saved : List FileEntry} (hsaves : List.Forall₂ (Saves b owner n) entries saved) {count : ℕ}
    {accepted : List (Entry × Value)} :
    List.Forall₂ (fun e found => checkEntry b s count table e = .ok found) saved accepted ↔
      accepted = entries.map (fun entry => (entry, n.current b.toConfig owner entry)) ∧
        ∀ entry ∈ entries, entry.definition.apply.isSome = true → count = 1 := by
  induction hsaves generalizing accepted with
  | nil => simp
  | cons hfirst hrest ih =>
    obtain ⟨hmem, hdumpable⟩ := hentries _ List.mem_cons_self
    have ih := fun rest : List (Entry × Value) =>
      @ih (fun e he => hentries e (List.mem_cons_of_mem _ he)) rest
    rw [List.forall₂_cons_left_iff]
    simp only [checkEntry_saves hacc hmem hdumpable hfirst, ih, List.map_cons, List.forall_mem_cons]
    constructor
    · rintro ⟨found, rest, ⟨rfl, hone⟩, ⟨rfl, hall⟩, rfl⟩
      exact ⟨rfl, hone, hall⟩
    · rintro ⟨rfl, hone, hall⟩
      exact ⟨_, _, ⟨rfl, hone⟩, ⟨rfl, hall⟩, rfl⟩

theorem offsets_saves {saved : List FileEntry}
    (hsaves : List.Forall₂ (Saves b owner n) entries saved) :
    saved.map FileEntry.offset = entries.map (·.info.offset) := by
  induction hsaves with
  | nil => rfl
  | cons hfirst hrest ih => rw [List.map_cons, List.map_cons, hfirst.offset, ih]

namespace Dumped

variable {t u : Tables ω} {count : ℕ} {file : List UInt8} {saved : List FileEntry} {r : Reading}

theorem mem_dumped {s : Service} {entry : Entry} (h : entry ∈ dumped s table) :
    entry ∈ s.entries ∧ Dumpable table entry := by
  simpa [dumped] using h

/-- The values that a load of the file takes. -/
def values (b : Build) (owner : Owner ω) (table : UInt8) (n : Node ω) : List (Entry × Value) :=
  (dumped n.service table).map fun entry => (entry, n.current b.toConfig owner entry)

/-- **The file is accepted** if no parameter of it with an `apply` is beside another one. -/
theorem accepts (h : Dumped b owner table t count file u saved) (hr : Delivers r file)
    (hacc : Param.Accepted b.toConfig t.node.service)
    (halone : ∀ entry ∈ dumped t.node.service table,
      entry.definition.apply.isSome = true → count = 1) :
    Accepts b t.node.service r file table saved (values b owner table t.node) := by
  have hholds : ∀ e ∈ saved, e.Holds b := by
    intro e he
    obtain ⟨i, hi, rfl⟩ := List.mem_iff_getElem.1 he
    exact (h.saves.get (by rw [h.saves.length_eq]; exact hi) hi).holds
  have hcount := h.counted
  have hlen := congrArg List.length h.image
  rw [length_tableImage] at hlen
  refine ⟨?_, ?_, ?_, ?_, ?_⟩
  · unfold readImage
    rw [hr.stat]
    dsimp only
    rw [if_neg (by simp), if_neg (by omega), if_neg (not_lt.2 h.size)]
    exact hr.content _
  · rw [← hcount, h.image]
    exact validateHeader_built _ h.pos h.max h.allocated
  · rw [h.image]
    exact fileEntries_built hholds _ _ _
  · rw [offsets_saves h.saves]
    have hids : ((dumped t.node.service table).map (·.info.id)).Nodup :=
      hacc.ids.sublist (List.filter_sublist.map _)
    have hsame : (dumped t.node.service table).map (·.info.id) =
        ((dumped t.node.service table).map (·.info.offset)).map (wireId table) := by
      rw [List.map_map]
      refine List.map_congr_left fun entry hentry => ?_
      obtain ⟨hmem, hdumpable⟩ := mem_dumped hentry
      rw [(hacc.admitted entry hmem).id, hdumpable.1]
      rfl
    rw [hsame] at hids
    exact hids.of_map _
  · exact (checkEntries_saves hacc (fun _ he => mem_dumped he) h.saves).2
      ⟨rfl, by rwa [← hcount]⟩

end Dumped

namespace Dumped

variable {t u : Tables ω} {count : ℕ} {file : List UInt8} {saved : List FileEntry} {r : Reading}
  {path : Option CString}

theorem mem_values {found : Entry × Value} (h : found ∈ values b owner table n) :
    ∃ entry ∈ n.service.entries, entry ∈ dumped n.service table ∧
      found = (entry, n.current b.toConfig owner entry) := by
  obtain ⟨entry, hentry, rfl⟩ := List.mem_map.1 h
  exact ⟨entry, (mem_dumped hentry).1, hentry, rfl⟩

theorem nodup_values (hacc : Param.Accepted b.toConfig n.service) :
    ((values b owner table n).map (·.1.info.id)).Nodup := by
  rw [values, List.map_map]
  exact hacc.ids.sublist (List.filter_sublist.map _)

section

variable (h : Dumped b owner table t count file u saved)
  (hacc : Param.Accepted b.toConfig t.node.service)
include h hacc

variable (hvalid : ∀ entry ∈ t.node.service.entries,
    validateEntry entry (t.node.current b.toConfig owner entry) = none)
  (happly : applyEntries owner (values b owner table t.node) 0 u.node = (none, n))
include hvalid happly

/-- **No value that is read is different**, if the owners keep what they are handed. -/
theorem get_eq (hlaw : owner.Coherent b.toConfig t.node.service.entries) (name : CString) :
    (n.get b.toConfig owner name).1 = (u.node.get b.toConfig owner name).1 := by
  have hservice := h.refreshed.service
  have hacc' : Param.Accepted b.toConfig u.node.service := hservice ▸ hacc
  have hids : ((values b owner table t.node).map (·.1.info.id)).Nodup := nodup_values hacc
  have hmem : ∀ found ∈ values b owner table t.node, found.1 ∈ u.node.service.entries := by
    intro found hfound
    obtain ⟨entry, hentry, -, rfl⟩ := mem_values hfound
    exact hservice ▸ hentry
  have hnode := congrArg Prod.snd happly
  dsimp only at hnode
  have hsame := (applyEntries_ok hids (congrArg Prod.fst happly)).1
  rw [← hservice] at hlaw
  rw [← hnode]
  refine (Node.get_congr_iff owner hacc' hsame).2 (fun entry hentry => ?_) name
  by_cases hd : entry ∈ dumped t.node.service table
  · have hentry' : entry ∈ t.node.service.entries := hservice ▸ hentry
    have hread := applyEntries_current hacc' hlaw hmem hids
      (fun found hfound => by
        obtain ⟨entry, hentry, -, rfl⟩ := mem_values hfound
        exact hvalid entry hentry)
      (fun found hfound => by
        obtain ⟨entry, hentry, -, rfl⟩ := mem_values hfound
        exact readCells_data)
      (congrArg Prod.fst happly) (entry, t.node.current b.toConfig owner entry)
      (List.mem_map.2 ⟨entry, hd, rfl⟩)
    rw [hread]
    split_ifs
    · rfl
    · rw [h.refreshed.current _ hacc.ids hentry']
      exact stored_readCells (hacc.admitted entry hentry') (hvalid entry hentry')
  · refine applyEntries_current_of_ne 0 hlaw hmem hentry fun found hfound heq => ?_
    obtain ⟨entry', hentry', hd', rfl⟩ := mem_values hfound
    exact hd (hacc.eq_of_id (hservice ▸ hentry) hentry' heq.symm ▸ hd')

end

end Dumped

end

/-! ### A table with an apply in it -/

end KfswServices.Table
