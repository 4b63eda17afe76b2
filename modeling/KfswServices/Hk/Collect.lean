/-
# Collecting a sample

`kfsw_hk_collect_report` of `src/hk/hk.c` and `kfsw_hk_collect_remote` of `src/hk/hk_remote.c`: the
values of a report are read, the local ones one by one and those of other nodes in windows of eight,
and written at their offsets.  `kfsw_hk_write_value` clears the width of the entry and then writes as
many bytes as the type of the value has; what goes wrong is counted where it goes wrong.

So a frame has the layout of its definition exactly when the values are as wide as the entries, and
the failures are those of the entries exactly when a node that lists its parameters lists every one
that is asked of it (`collect_layout_iff`).
-/

import KfswServices.Hk.Report
import KfswServices.Library.BigEndian
import KfswServices.Library.Splice
import KfswServices.Param.Restore

namespace KfswServices.Hk

open Library
open Param (Info ParamType Value)

variable {b : Build}

/-- `KFSW_HK_FLAG_INCOMPLETE`. -/
abbrev flagIncomplete : UInt8 := 0x01

/-- `KFSW_HK_FLAG_CLOCK_UNSET`. -/
abbrev flagClockUnset : UInt8 := 0x02

/-- `KFSW_HK_REMOTE_WINDOW`. -/
abbrev remoteWindow : ℕ := 8

/-! ### One value -/

/-- What `kfsw_hk_write_value` puts into the cleared entry. -/
def valueBytes (width : ℕ) (value : Value) : List UInt8 :=
  match value.type with
  | .U8 | .I8 | .X8 => [value.scalar.toUInt8]
  | .U16 | .I16 | .X16 => putBe16 value.scalar.toUInt16
  | .U32 | .I32 | .X32 | .FLOAT => putBe32 value.scalar.toUInt32
  | .U64 | .I64 | .X64 | .DOUBLE => putBe64 value.scalar
  | .STRING => (value.text.bytes ++ List.replicate value.size 0).take (min width value.size)
  | .DATA => value.bytes.take (min width value.size)
  | .INVALID => []

/-- `kfsw_hk_write_value`: all the bytes that it writes, from `out` on. -/
def writeValue (width : ℕ) (value : Value) : List UInt8 :=
  splice 0 (List.replicate width 0) 0 (valueBytes width value)

/-- **A value is written inside its entry** if its type is not wider. -/
theorem length_writeValue_le_iff (width : ℕ) (value : Value) :
    (writeValue width value).length ≤ width ↔ Param.scalarSize value.type ≤ width := by
  unfold writeValue
  rw [length_splice, List.length_replicate, Nat.zero_add]
  cases htype : value.type <;>
    simp only [valueBytes, htype, Param.scalarSize, List.length_singleton, length_putBe16,
      length_putBe32, length_putBe64, List.length_take, List.length_nil] <;>
    omega

/-! ### The parts of a collection -/

/-- What is written into a sample for an entry. -/
structure Write where
  index : ℕ
  offset : ℕ
  bytes : List UInt8

/-- What comes of a part of a collection: the writes, what is added to `*failures`, and the first
error. -/
structure Part where
  writes : List Write
  failures : ℕ
  error : Option Errno

namespace Part

/-- Nothing is read. -/
def empty : Part := ⟨[], 0, none⟩

/-- One part after the other. -/
def append (p q : Part) : Part := ⟨p.writes ++ q.writes, p.failures + q.failures, p.error.or q.error⟩

end Part

/-- A list of descriptors, as the cache of another node holds it. -/
structure Listing where
  infos : List Info
  distinct : (infos.map (·.id)).Nodup

/-- What a collection reads: the local values by entry, and of every other node its list and its
values by windows. -/
structure Reads where
  /-- `kfsw_param_get_by_id`. -/
  get : ℕ → Except Errno Value
  /-- `kfsw_param_remote_visit_until`. -/
  listing : UInt16 → Except Errno Listing
  /-- `kfsw_param_remote_get_many_until`, from a place in the list on. -/
  values : UInt16 → ℕ → List CString → Except Errno (ℕ → Value)

/-- The local entries, one after the other. -/
def collectLocal (reads : Reads) : List (Field × ℕ) → Part
  | [] => .empty
  | (field, index) :: fields =>
    if field.entry.node ≠ nodeLocal then collectLocal reads fields
    else
      match reads.get index with
      | .ok value =>
        Part.append ⟨[⟨index, field.offset, writeValue field.width value⟩], 0, none⟩
          (collectLocal reads fields)
      | .error e => Part.append ⟨[], 1, some e⟩ (collectLocal reads fields)

/-- An entry of another node with the name of its parameter: `indices` and `names`. -/
structure Wanted where
  field : Field
  index : ℕ
  name : CString

/-- The entries of a report on a node. -/
def entriesOf (d : Definition b) (node : UInt16) : List (Field × ℕ) :=
  d.fields.zipIdx.filter fun p => p.1.entry.node = node

/-- `match_names`, over the list of a node. -/
def matchNames (b : Build) (entries : List (Field × ℕ)) (infos : List Info) : List Wanted :=
  (infos.flatMap fun info =>
    (entries.filter fun p => p.1.entry.paramId = info.id).map fun p =>
      ⟨p.1, p.2, info.name.take Param.nameMax⟩).take b.entries

/-- A window of values. -/
def collectWindow (values : Except Errno (ℕ → Value)) (wanted : List Wanted) : Part :=
  match values with
  | .error e => ⟨[], wanted.length, some e⟩
  | .ok values =>
    ⟨wanted.zipIdx.map fun p => ⟨p.1.index, p.1.field.offset, writeValue p.1.field.width (values p.2)⟩,
      0, none⟩

/-- The loop over the windows of a node. -/
def collectWindows (values : ℕ → List CString → Except Errno (ℕ → Value)) :
    ℕ → ℕ → List Wanted → Part
  | 0, _, _ => .empty
  | turns + 1, base, wanted =>
    if wanted = [] then .empty
    else
      let span := wanted.take remoteWindow
      Part.append (collectWindow (values base (span.map (·.name))) span)
        (collectWindows values turns (base + remoteWindow) (wanted.drop remoteWindow))

/-- `kfsw_hk_collect_remote`. -/
def collectRemote (d : Definition b) (reads : Reads) (node : UInt16) : Part :=
  let expected := (entriesOf d node).length
  match reads.listing node with
  | .error e => ⟨[], expected, some e⟩
  | .ok listing =>
    let wanted := matchNames b (entriesOf d node) listing.infos
    let part := collectWindows (reads.values node) wanted.length 0 wanted
    { part with error := part.error.or (if wanted.length = expected then none else some .ENOENT) }

/-- The other nodes of a report, in the order of their first entries. -/
def otherNodes (seen : List UInt16) : List Field → List UInt16
  | [] => []
  | field :: fields =>
    if field.entry.node = nodeLocal ∨ field.entry.node ∈ seen then otherNodes seen fields
    else field.entry.node :: otherNodes (field.entry.node :: seen) fields

/-- All that is read of a report: the local entries first, then one node after the other. -/
def collectEntries (d : Definition b) (reads : Reads) : Part :=
  (otherNodes [] d.fields).foldl (fun part node => part.append (collectRemote d reads node))
    (collectLocal reads d.fields.zipIdx)

/-- `kfsw_hk_collect_report`: the sample, and what was read for it.  `clock` is the wall clock, if it
is set. -/
def collectReport (d : Definition b) (sequence : UInt16) (clock : Option UInt32) (reads : Reads) :
    Sample × Part :=
  let part := collectEntries d reads
  let seconds := clock.getD 0
  let flags := (if clock.isSome then 0 else flagClockUnset) |||
    (if part.error.isSome then flagIncomplete else 0)
  let data := part.writes.foldl (fun data w => splice 0 data w.offset w.bytes)
    (List.replicate b.sampleBytes 0)
  let data := splice 0 data 0 [protocolVersion]
  let data := splice 0 data 2 (putBe16 sequence ++ (putBe32 seconds ++ [d.entryCount, flags]))
  (⟨seconds, sequence, d.entryCount, flags, d.recordSize, data⟩, part)

/-! ### The layout -/

/-- Fields that are laid out lie behind the start, inside the payload, and apart. -/
theorem Laid.bounds {start : ℕ} {fields : List Field} (h : Laid start fields) :
    (∀ field ∈ fields, start ≤ field.offset ∧ field.offset + field.width ≤ start + payload fields) ∧
      fields.Pairwise fun f g => f.offset + f.width ≤ g.offset := by
  induction fields generalizing start with
  | nil => exact ⟨by simp, List.Pairwise.nil⟩
  | cons field fields ih =>
    obtain ⟨hoffset, hwidth, hrest⟩ := h
    obtain ⟨hin, hapart⟩ := ih hrest
    have hsum : payload (field :: fields) = field.width + payload fields := by
      simp [payload]
    refine ⟨fun f hf => ?_, List.pairwise_cons.2 ⟨fun f hf => ?_, hapart⟩⟩
    · rcases List.mem_cons.1 hf with rfl | hf
      · omega
      · have := hin f hf
        omega
    · have := hin f hf
      omega

/-- A field lies in the sample, behind the header. -/
theorem Definition.field_in (d : Definition b) {field : Field} (h : field ∈ d.fields) :
    headerSize ≤ field.offset ∧ field.offset + field.width ≤ b.sampleBytes := by
  have hin := d.laid.bounds.1 field h
  have hfits := d.fits
  omega

/-- Two fields lie apart. -/
theorem Definition.fields_apart (d : Definition b) {i j : ℕ} {f g : Field} (hne : i ≠ j)
    (hf : d.fields[i]? = some f) (hg : d.fields[j]? = some g) :
    f.offset + f.width ≤ g.offset ∨ g.offset + g.width ≤ f.offset := by
  obtain ⟨hi, rfl⟩ := List.getElem?_eq_some_iff.1 hf
  obtain ⟨hj, rfl⟩ := List.getElem?_eq_some_iff.1 hg
  have hapart := List.pairwise_iff_getElem.1 d.laid.bounds.2
  rcases Nat.lt_or_gt_of_ne hne with hlt | hlt
  · exact Or.inl (hapart i j hi hj hlt)
  · exact Or.inr (hapart j i hj hi hlt)

/-! ### What is read -/

/-- A part reads some entries, and may miss others without counting them: every write is of one of
the entries, no entry is written twice, and there is no error only if all are. -/
structure Reading (asked : List (Field × ℕ)) (missing : ℕ) (p : Part) : Prop where
  indices : (p.writes.map (·.index)).Subperm (asked.map (·.2))
  count : p.writes.length + p.failures + missing = asked.length
  error : p.error = none ↔ p.writes.length = asked.length
  origin : ∀ w ∈ p.writes, ∃ field value, (field, w.index) ∈ asked ∧ w.offset = field.offset ∧
    w.bytes = writeValue field.width value

theorem reading_empty : Reading [] 0 .empty :=
  ⟨List.Subperm.refl _, rfl, by simp [Part.empty], by simp [Part.empty]⟩

/-- **One part after the other.** -/
theorem Reading.append {asked asked' : List (Field × ℕ)} {missing missing' : ℕ} {p q : Part}
    (hp : Reading asked missing p) (hq : Reading asked' missing' q) :
    Reading (asked ++ asked') (missing + missing') (p.append q) := by
  have hle := hp.count
  have hle' := hq.count
  refine ⟨?_, ?_, ?_, fun w hw => ?_⟩
  · unfold Part.append
    rw [List.map_append, List.map_append]
    exact hp.indices.append hq.indices
  · simp only [Part.append, List.length_append]
    omega
  · have hor : p.error.or q.error = none ↔ p.error = none ∧ q.error = none := by
      cases p.error <;> simp
    simp only [Part.append, List.length_append]
    rw [hor, hp.error, hq.error]
    omega
  · rcases List.mem_append.1 hw with hw | hw
    · obtain ⟨field, value, hmem, hrest⟩ := hp.origin w hw
      exact ⟨field, value, List.mem_append_left _ hmem, hrest⟩
    · obtain ⟨field, value, hmem, hrest⟩ := hq.origin w hw
      exact ⟨field, value, List.mem_append_right _ hmem, hrest⟩

/-- An entry that is read. -/
theorem reading_write (field : Field) (index : ℕ) (value : Value) : Reading [(field, index)] 0
      ⟨[⟨index, field.offset, writeValue field.width value⟩], 0, none⟩ := by
  refine ⟨List.Subperm.refl _, rfl, by simp, fun w hw => ?_⟩
  obtain rfl := List.mem_singleton.1 hw
  exact ⟨field, value, List.mem_singleton_self _, rfl, rfl⟩

/-- Entries that are not read, and counted. -/
theorem reading_failed {asked : List (Field × ℕ)} (hne : asked ≠ []) (e : Errno) :
    Reading asked 0 ⟨[], asked.length, some e⟩ := by
  have hpos := List.length_pos_of_ne_nil hne
  refine ⟨List.nil_subperm, by simp, ?_, by simp⟩
  simp only [reduceCtorEq, List.length_nil, false_iff]
  omega

/-- The local entries. -/
theorem reading_local (reads : Reads) (fields : List (Field × ℕ)) :
    Reading (fields.filter fun p => p.1.entry.node = nodeLocal) 0 (collectLocal reads fields) := by
  induction fields with
  | nil => exact reading_empty
  | cons p fields ih =>
    obtain ⟨field, index⟩ := p
    unfold collectLocal
    by_cases hnode : field.entry.node = nodeLocal
    · rw [if_neg (not_not.2 hnode), List.filter_cons_of_pos (by simpa using hnode),
        ← List.singleton_append]
      cases hget : reads.get index with
      | ok value => exact (reading_write field index value).append ih
      | error e => exact (reading_failed (List.cons_ne_nil _ _) e).append ih
    · rw [if_pos hnode, List.filter_cons_of_neg (by simpa using hnode)]
      exact ih

/-- The entry of a name. -/
def Wanted.asked (w : Wanted) : Field × ℕ := (w.field, w.index)

/-- A window. -/
theorem reading_window (values : Except Errno (ℕ → Value)) {wanted : List Wanted}
    (hne : wanted ≠ []) : Reading (wanted.map Wanted.asked) 0 (collectWindow values wanted) := by
  cases values with
  | error e =>
    have h := reading_failed (show wanted.map Wanted.asked ≠ [] by simpa using hne) e
    rwa [List.length_map] at h
  | ok values =>
    unfold collectWindow
    refine ⟨?_, by simp, by simp, fun w hw => ?_⟩
    · rw [List.map_map, List.map_map]
      have hsame : wanted.zipIdx.map ((·.index) ∘ fun p =>
          (⟨p.1.index, p.1.field.offset, writeValue p.1.field.width (values p.2)⟩ : Write)) =
          (wanted.zipIdx.map (·.1)).map (·.index) := by
        rw [List.map_map]
        rfl
      rw [hsame, List.zipIdx_map_fst]
      exact List.Subperm.refl _
    · obtain ⟨⟨x, j⟩, hmem, rfl⟩ := List.mem_map.1 hw
      exact ⟨x.field, values j, List.mem_map.2 ⟨x, List.fst_mem_of_mem_zipIdx hmem, rfl⟩, rfl, rfl⟩

/-- The windows of a node. -/
theorem reading_windows (values : ℕ → List CString → Except Errno (ℕ → Value)) (turns : ℕ) :
    ∀ (base : ℕ) (wanted : List Wanted), wanted.length ≤ turns →
      Reading (wanted.map Wanted.asked) 0 (collectWindows values turns base wanted) := by
  induction turns with
  | zero =>
    intro base wanted hlen
    rw [List.length_eq_zero_iff.1 (Nat.le_zero.1 hlen)]
    exact reading_empty
  | succ turns ih =>
    intro base wanted hlen
    unfold collectWindows
    by_cases hnil : wanted = []
    · rw [if_pos hnil, hnil]
      exact reading_empty
    · have hpos := List.length_pos_of_ne_nil hnil
      have hspan : wanted.take remoteWindow ≠ [] := by
        apply List.ne_nil_of_length_pos
        rw [List.length_take]
        show 0 < min 8 wanted.length
        omega
      have hrest : (wanted.drop remoteWindow).length ≤ turns := by
        rw [List.length_drop]
        show wanted.length - 8 ≤ turns
        omega
      rw [if_neg hnil]
      have h := (reading_window (values base ((wanted.take remoteWindow).map (·.name)))
        hspan).append (ih (base + remoteWindow) (wanted.drop remoteWindow) hrest)
      rwa [← List.map_append, List.take_append_drop] at h

/-! ### The names of a node -/

/-- The entries that a list names, in the order of the list. -/
theorem matchNames_asked {entries : List (Field × ℕ)} {infos : List Info}
    (hentries : entries.Nodup) (hinfos : (infos.map (·.id)).Nodup)
    (hlen : entries.length ≤ b.entries) :
    ((matchNames b entries infos).map Wanted.asked).Subperm entries ∧
      ∀ p, p ∈ (matchNames b entries infos).map Wanted.asked ↔
        p ∈ entries ∧ ∃ info ∈ infos, info.id = p.1.entry.paramId := by
  -- all of them, before the bound of the arrays
  have hall : (infos.flatMap fun info => (entries.filter fun p => p.1.entry.paramId = info.id).map
      fun p => (⟨p.1, p.2, info.name.take Param.nameMax⟩ : Wanted)).map Wanted.asked =
        infos.flatMap fun info => entries.filter fun p => p.1.entry.paramId = info.id := by
    rw [List.map_flatMap]
    congr 1
    funext info
    rw [List.map_map]
    exact List.map_id _
  have hmem : ∀ p, p ∈ (infos.flatMap fun info =>
      entries.filter fun p => p.1.entry.paramId = info.id) ↔
        p ∈ entries ∧ ∃ info ∈ infos, info.id = p.1.entry.paramId := by
    intro p
    simp only [List.mem_flatMap, List.mem_filter, decide_eq_true_eq]
    constructor
    · rintro ⟨info, hinfo, hp, hid⟩
      exact ⟨hp, info, hinfo, hid.symm⟩
    · rintro ⟨hp, info, hinfo, hid⟩
      exact ⟨info, hinfo, hp, hid.symm⟩
  have hnodup : (infos.flatMap fun info =>
      entries.filter fun p => p.1.entry.paramId = info.id).Nodup := by
    rw [List.nodup_flatMap]
    refine ⟨fun info _ => hentries.filter _, (List.pairwise_map.1 hinfos).imp fun hne p hp hp' => ?_⟩
    simp only [List.mem_filter, decide_eq_true_eq] at hp hp'
    exact hne (hp.2.symm.trans hp'.2)
  have hsub := List.subperm_of_subset hnodup fun p hp => ((hmem p).1 hp).1
  have htake : matchNames b entries infos = infos.flatMap fun info =>
      (entries.filter fun p => p.1.entry.paramId = info.id).map fun p =>
        ⟨p.1, p.2, info.name.take Param.nameMax⟩ := by
    refine List.take_of_length_le ?_
    have hle := hsub.length_le
    rw [← hall, List.length_map] at hle
    omega
  rw [htake, hall]
  exact ⟨hsub, hmem⟩

theorem nodup_zipIdx (fields : List Field) : fields.zipIdx.Nodup := by
  refine List.Nodup.of_map Prod.snd ?_
  rw [List.zipIdx_map_snd]
  exact List.nodup_range'

theorem nodup_entriesOf (d : Definition b) (node : UInt16) : (entriesOf d node).Nodup :=
  (nodup_zipIdx d.fields).filter _

theorem length_entriesOf_le (d : Definition b) (node : UInt16) :
    (entriesOf d node).length ≤ b.entries := by
  refine (List.length_filter_le _ _).trans ?_
  rw [List.length_zipIdx]
  exact d.entries_le

/-- The entries of a node that its list does not name. -/
def missingOf (d : Definition b) (reads : Reads) (node : UInt16) : ℕ :=
  match reads.listing node with
  | .error _ => 0
  | .ok listing =>
    (entriesOf d node).length - (matchNames b (entriesOf d node) listing.infos).length

/-- **Another node.** -/
theorem reading_remote (d : Definition b) (reads : Reads) {node : UInt16}
    (hne : entriesOf d node ≠ []) :
    Reading (entriesOf d node) (missingOf d reads node) (collectRemote d reads node) := by
  unfold missingOf collectRemote
  cases hlisting : reads.listing node with
  | error e => exact reading_failed hne e
  | ok listing =>
    obtain ⟨hsub, hmem⟩ := matchNames_asked (b := b) (nodup_entriesOf d node) listing.distinct
      (length_entriesOf_le d node)
    have h := reading_windows (reads.values node) _ 0
      (matchNames b (entriesOf d node) listing.infos) le_rfl
    have hle := hsub.length_le
    rw [List.length_map] at hle
    have hcount := h.count
    rw [List.length_map] at hcount
    obtain ⟨found, hperm, hsublist⟩ := hsub
    refine ⟨h.indices.trans ⟨_, hperm.map _, hsublist.map _⟩, by dsimp only; omega, ?_,
      fun w hw => ?_⟩
    · have hor : ∀ e e' : Option Errno, e.or e' = none ↔ e = none ∧ e' = none := by
        intro e e'
        cases e <;> simp
      have herror := h.error
      rw [List.length_map] at herror
      dsimp only
      rw [hor, herror]
      split_ifs with hall
      · simp only [and_true, hall]
      · simp only [and_false, false_iff]
        omega
    · obtain ⟨field, value, hasked, hrest⟩ := h.origin w hw
      exact ⟨field, value, ((hmem _).1 hasked).1, hrest⟩

/-! ### All of it -/

theorem mem_otherNodes {seen : List UInt16} {fields : List Field} {node : UInt16} :
    node ∈ otherNodes seen fields ↔
      node ≠ nodeLocal ∧ node ∉ seen ∧ ∃ field ∈ fields, field.entry.node = node := by
  induction fields generalizing seen with
  | nil => simp [otherNodes]
  | cons field fields ih =>
    unfold otherNodes
    split_ifs with hskip
    · rw [ih]
      constructor
      · rintro ⟨hlocal, hseen, f, hf, hnode⟩
        exact ⟨hlocal, hseen, f, List.mem_cons_of_mem _ hf, hnode⟩
      · rintro ⟨hlocal, hseen, f, hf, hnode⟩
        rcases List.mem_cons.1 hf with rfl | hf
        · exact absurd (hnode ▸ hskip) (not_or.2 ⟨hlocal, hseen⟩)
        · exact ⟨hlocal, hseen, f, hf, hnode⟩
    · obtain ⟨hlocal', hseen'⟩ := not_or.1 hskip
      rw [List.mem_cons, ih]
      constructor
      · rintro (rfl | ⟨hlocal, hseen, f, hf, hnode⟩)
        · exact ⟨hlocal', hseen', field, List.mem_cons_self, rfl⟩
        · exact ⟨hlocal, fun h => hseen (List.mem_cons_of_mem _ h), f, List.mem_cons_of_mem _ hf,
            hnode⟩
      · rintro ⟨hlocal, hseen, f, hf, hnode⟩
        by_cases heq : node = field.entry.node
        · exact Or.inl heq
        · refine Or.inr ⟨hlocal, fun h => ?_, f, ?_, hnode⟩
          · exact (List.mem_cons.1 h).elim heq hseen
          · exact (List.mem_cons.1 hf).resolve_left fun h => heq (h ▸ hnode.symm)

theorem nodup_otherNodes (seen : List UInt16) (fields : List Field) :
    (otherNodes seen fields).Nodup := by
  induction fields generalizing seen with
  | nil => exact List.nodup_nil
  | cons field fields ih =>
    unfold otherNodes
    split_ifs
    · exact ih seen
    · refine List.nodup_cons.2 ⟨fun h => ?_, ih _⟩
      exact (mem_otherNodes.1 h).2.1 List.mem_cons_self

/-- Items by their keys, for some keys. -/
theorem count_flatMap_filter {α κ : Type} [BEq α] [LawfulBEq α] [DecidableEq κ] (key : α → κ)
    (xs : List α) {keys : List κ} (hkeys : keys.Nodup) (a : α) :
    (keys.flatMap fun k => xs.filter fun x => key x = k).count a =
      if key a ∈ keys then xs.count a else 0 := by
  induction keys with
  | nil => simp
  | cons k keys ih =>
    obtain ⟨hk, hkeys⟩ := List.nodup_cons.1 hkeys
    rw [List.flatMap_cons, List.count_append, ih hkeys]
    by_cases heq : key a = k
    · have hnot : key a ∉ keys := heq ▸ hk
      rw [if_neg hnot, if_pos (heq ▸ List.mem_cons_self), Nat.add_zero,
        List.count_filter (by simpa using heq)]
    · have hzero : (xs.filter fun x => key x = k).count a = 0 :=
        List.count_eq_zero.2 fun h => heq (by simpa using (List.mem_filter.1 h).2)
      rw [hzero, Nat.zero_add]
      simp only [List.mem_cons, heq, false_or]

/-- **The entries of a report** are the local ones and those of the other nodes. -/
theorem entries_perm (d : Definition b) :
    ((d.fields.zipIdx.filter fun p => p.1.entry.node = nodeLocal) ++
      (otherNodes [] d.fields).flatMap (entriesOf d)).Perm d.fields.zipIdx := by
  rw [List.perm_iff_count]
  intro p
  have hothers := count_flatMap_filter (fun p : Field × ℕ => p.1.entry.node) d.fields.zipIdx
    (nodup_otherNodes [] d.fields) p
  have hentries : (otherNodes [] d.fields).flatMap (entriesOf d) =
      (otherNodes [] d.fields).flatMap fun k => d.fields.zipIdx.filter fun x =>
        x.1.entry.node = k := rfl
  rw [List.count_append, hentries, hothers]
  by_cases hp : p ∈ d.fields.zipIdx
  · have hfield : p.1 ∈ d.fields := List.fst_mem_of_mem_zipIdx hp
    by_cases hlocal : p.1.entry.node = nodeLocal
    · have hnot : p.1.entry.node ∉ otherNodes [] d.fields := fun h => (mem_otherNodes.1 h).1 hlocal
      rw [if_neg hnot, Nat.add_zero, List.count_filter (by simpa using hlocal)]
    · have hmem : p.1.entry.node ∈ otherNodes [] d.fields :=
        mem_otherNodes.2 ⟨hlocal, List.not_mem_nil, p.1, hfield, rfl⟩
      have hzero : (d.fields.zipIdx.filter fun p => p.1.entry.node = nodeLocal).count p = 0 :=
        List.count_eq_zero.2 fun h => hlocal (by simpa using (List.mem_filter.1 h).2)
      rw [if_pos hmem, hzero, Nat.zero_add]
  · have hzero : d.fields.zipIdx.count p = 0 := List.count_eq_zero.2 hp
    have hzero' : (d.fields.zipIdx.filter fun p => p.1.entry.node = nodeLocal).count p = 0 :=
      List.count_eq_zero.2 fun h => hp (List.mem_filter.1 h).1
    rw [hzero, hzero', ite_self]

/-- **A collection reads the entries of its report**, and misses what the lists do not name. -/
theorem reading_entries (d : Definition b) (reads : Reads) :
    Reading ((d.fields.zipIdx.filter fun p => p.1.entry.node = nodeLocal) ++
        (otherNodes [] d.fields).flatMap (entriesOf d))
      (((otherNodes [] d.fields).map (missingOf d reads)).sum) (collectEntries d reads) := by
  have hfold : ∀ (nodes : List UInt16) (asked : List (Field × ℕ)) (missing : ℕ) (p : Part),
      (∀ node ∈ nodes, entriesOf d node ≠ []) → Reading asked missing p →
        Reading (asked ++ nodes.flatMap (entriesOf d)) (missing + (nodes.map (missingOf d reads)).sum)
          (nodes.foldl (fun part node => part.append (collectRemote d reads node)) p) := by
    intro nodes
    induction nodes with
    | nil =>
      intro asked missing p _ hp
      rw [List.flatMap_nil, List.append_nil]
      exact hp
    | cons node nodes ih =>
      intro asked missing p hne hp
      obtain ⟨hnode, hnodes⟩ := List.forall_mem_cons.1 hne
      have h := ih _ _ _ hnodes (hp.append (reading_remote d reads hnode))
      rwa [List.append_assoc, Nat.add_assoc, ← List.flatMap_cons, ← List.sum_cons,
        ← List.map_cons] at h
  have h := hfold (otherNodes [] d.fields) _ 0 _ (fun node hnode => ?_)
    (reading_local reads d.fields.zipIdx)
  · rwa [Nat.zero_add] at h
  · obtain ⟨-, -, field, hfield, heq⟩ := mem_otherNodes.1 hnode
    obtain ⟨i, hi⟩ := List.mem_iff_getElem?.1 hfield
    refine List.ne_nil_of_mem (a := (field, i)) (List.mem_filter.2 ⟨?_, by simpa using heq⟩)
    exact List.mk_mem_zipIdx_iff_getElem?.2 hi

/-- An entry is not read if nothing is written for it. -/
def Unread (p : Part) (index : ℕ) : Prop := ∀ w ∈ p.writes, w.index ≠ index

instance (p : Part) (index : ℕ) : Decidable (Unread p index) :=
  inferInstanceAs (Decidable (∀ w ∈ p.writes, w.index ≠ index))

/-- The entries that are not read. -/
def unread (d : Definition b) (p : Part) : List ℕ :=
  (List.range d.fields.length).filter fun index => Unread p index

/-- **What a collection reads, of the whole report**: every write is at the offset of its entry; the
entries that are not read are the failures, and those that are missed; and there is an error if
there is one. -/
theorem collectEntries_spec (d : Definition b) (reads : Reads) :
    (∀ w ∈ (collectEntries d reads).writes, ∃ field value, d.fields[w.index]? = some field ∧
        w.offset = field.offset ∧ w.bytes = writeValue field.width value) ∧
      (unread d (collectEntries d reads)).length = (collectEntries d reads).failures +
        ((otherNodes [] d.fields).map (missingOf d reads)).sum ∧
      ((collectEntries d reads).error.isSome = true ↔
        ∃ index < d.fields.length, Unread (collectEntries d reads) index) := by
  have h := reading_entries d reads
  have hperm := entries_perm d
  have hindices : ((collectEntries d reads).writes.map (·.index)).Subperm
      (List.range d.fields.length) := by
    have hsub := h.indices.trans (hperm.map (·.2)).subperm
    rwa [List.zipIdx_map_snd, ← List.range_eq_range'] at hsub
  have hlen : (collectEntries d reads).writes.length + (collectEntries d reads).failures +
      ((otherNodes [] d.fields).map (missingOf d reads)).sum = d.fields.length := by
    have hcount := h.count
    rwa [hperm.length_eq, List.length_zipIdx] at hcount
  have herror : (collectEntries d reads).error = none ↔
      (collectEntries d reads).writes.length = d.fields.length := by
    have herror := h.error
    rwa [hperm.length_eq, List.length_zipIdx] at herror
  -- the rest of the entries are those nothing is written for
  have hunread : (unread d (collectEntries d reads)).length +
      (collectEntries d reads).writes.length = d.fields.length := by
    have hnodup : ((collectEntries d reads).writes.map (·.index)).Nodup := by
      obtain ⟨found, hfound, hsublist⟩ := hindices
      exact hfound.nodup_iff.1 (List.nodup_range.sublist hsublist)
    have hread : ((List.range d.fields.length).filter fun index =>
        ¬ Unread (collectEntries d reads) index).Perm
          ((collectEntries d reads).writes.map (·.index)) := by
      refine (List.perm_ext_iff_of_nodup (List.nodup_range.filter _) hnodup).2 fun index => ?_
      rw [List.mem_filter, decide_eq_true_eq, List.mem_map]
      constructor
      · rintro ⟨-, hw⟩
        unfold Unread at hw
        push Not at hw
        exact hw
      · rintro ⟨w, hw, rfl⟩
        exact ⟨hindices.subset (List.mem_map_of_mem hw), fun hall => hall w hw rfl⟩
    have hsplit := List.length_eq_length_filter_add (l := List.range d.fields.length)
      fun index => decide (Unread (collectEntries d reads) index)
    have hread' := hread.length_eq
    rw [List.length_map] at hread'
    rw [List.length_range] at hsplit
    simp only [decide_not] at hread'
    unfold unread
    omega
  refine ⟨fun w hw => ?_, by omega, ?_⟩
  · obtain ⟨field, value, hmem, hoffset, hbytes⟩ := h.origin w hw
    exact ⟨field, value, List.mk_mem_zipIdx_iff_getElem?.1 (hperm.mem_iff.1 hmem), hoffset, hbytes⟩
  · have hsome : (collectEntries d reads).error.isSome = true ↔
        ¬ (collectEntries d reads).error = none := by
      cases (collectEntries d reads).error <;> simp
    rw [hsome, herror]
    constructor
    · intro hne
      have hpos : 0 < (unread d (collectEntries d reads)).length := by omega
      obtain ⟨index, hindex⟩ := List.exists_mem_of_length_pos hpos
      obtain ⟨hlt, hw⟩ := List.mem_filter.1 hindex
      exact ⟨index, List.mem_range.1 hlt, of_decide_eq_true hw⟩
    · rintro ⟨index, hlt, hw⟩
      have hmem : index ∈ unread d (collectEntries d reads) :=
        List.mem_filter.2 ⟨List.mem_range.2 hlt, decide_eq_true hw⟩
      have hpos := List.length_pos_of_mem hmem
      omega

/-! ### What fits -/

/-- The write of an entry ends where the entry does. -/
def Write.Fits (d : Definition b) (w : Write) : Prop :=
  ∀ field, d.fields[w.index]? = some field → w.bytes.length ≤ field.width

/-- The values that come in a window are as wide as their entries. -/
def WindowFits (values : Except Errno (ℕ → Value)) (span : List Wanted) : Prop :=
  ∀ vs, values = .ok vs → ∀ j x, span[j]? = some x →
    Param.scalarSize (vs j).type ≤ x.field.width

/-- **The values of the other nodes fit**: in every window. -/
def ValuesFit (d : Definition b) (reads : Reads) : Prop :=
  ∀ node ∈ otherNodes [] d.fields, ∀ listing, reads.listing node = .ok listing →
    ∀ k, WindowFits
      (reads.values node (remoteWindow * k)
        ((((matchNames b (entriesOf d node) listing.infos).drop (remoteWindow * k)).take
          remoteWindow).map (·.name)))
      (((matchNames b (entriesOf d node) listing.infos).drop (remoteWindow * k)).take remoteWindow)

/-- **The lists name all** that a report asks of their nodes. -/
def ListsNameAll (d : Definition b) (reads : Reads) : Prop :=
  ∀ node ∈ otherNodes [] d.fields, ∀ listing, reads.listing node = .ok listing →
    ∀ field ∈ d.fields, field.entry.node = node →
      ∃ info ∈ listing.infos, info.id = field.entry.paramId

variable {d : Definition b}

theorem collectWindow_fits_iff (values : Except Errno (ℕ → Value)) {span : List Wanted}
    (hspan : ∀ x ∈ span, d.fields[x.index]? = some x.field) :
    (∀ w ∈ (collectWindow values span).writes, w.Fits d) ↔ WindowFits values span := by
  cases values with
  | error e => simp [collectWindow, WindowFits]
  | ok values =>
    have hfits : ∀ x ∈ span, ∀ j, Write.Fits d
        ⟨x.index, x.field.offset, writeValue x.field.width (values j)⟩ ↔
          Param.scalarSize (values j).type ≤ x.field.width := by
      intro x hx j
      rw [← length_writeValue_le_iff]
      constructor
      · exact fun h => h _ (hspan x hx)
      · intro h field hfield
        obtain rfl := Option.some.inj ((hspan x hx).symm.trans hfield)
        exact h
    unfold collectWindow
    constructor
    · rintro h vs hvs j x hx
      obtain rfl := Except.ok.inj hvs
      refine (hfits x (List.mem_of_getElem? hx) j).1 (h _ ?_)
      exact List.mem_map.2 ⟨(x, j), List.mk_mem_zipIdx_iff_getElem?.2 hx, rfl⟩
    · intro h w hw
      obtain ⟨⟨x, j⟩, hmem, rfl⟩ := List.mem_map.1 hw
      have hx := List.mk_mem_zipIdx_iff_getElem?.1 hmem
      exact (hfits x (List.mem_of_getElem? hx) j).2 (h values rfl j x hx)

theorem collectWindows_fits_iff (values : ℕ → List CString → Except Errno (ℕ → Value)) (turns : ℕ) :
    ∀ (base : ℕ) (wanted : List Wanted), wanted.length ≤ turns →
      (∀ x ∈ wanted, d.fields[x.index]? = some x.field) →
        ((∀ w ∈ (collectWindows values turns base wanted).writes, w.Fits d) ↔ ∀ k, WindowFits
            (values (base + remoteWindow * k)
              (((wanted.drop (remoteWindow * k)).take remoteWindow).map (·.name)))
            ((wanted.drop (remoteWindow * k)).take remoteWindow)) := by
  have hempty : ∀ v, WindowFits v [] := fun v vs _ j x hx => by simp at hx
  induction turns with
  | zero =>
    intro base wanted hlen _
    rw [List.length_eq_zero_iff.1 (Nat.le_zero.1 hlen)]
    simp [collectWindows, Part.empty, hempty]
  | succ turns ih =>
    intro base wanted hlen hwanted
    unfold collectWindows
    by_cases hnil : wanted = []
    · rw [hnil]
      simp [Part.empty, hempty]
    · have hpos := List.length_pos_of_ne_nil hnil
      have hrest : (wanted.drop remoteWindow).length ≤ turns := by
        rw [List.length_drop]
        show wanted.length - 8 ≤ turns
        omega
      have hspan : ∀ x ∈ wanted.take remoteWindow, d.fields[x.index]? = some x.field :=
        fun x hx => hwanted x (List.mem_of_mem_take hx)
      have hfirst := collectWindow_fits_iff
        (values base ((wanted.take remoteWindow).map (·.name))) hspan
      have hlater := ih (base + remoteWindow) (wanted.drop remoteWindow) hrest fun x hx =>
        hwanted x (List.mem_of_mem_drop hx)
      rw [if_neg hnil]
      simp only [Part.append, List.mem_append, or_imp, forall_and]
      rw [hfirst, hlater]
      constructor
      · rintro ⟨hzero, hsucc⟩ k
        cases k with
        | zero => exact hzero
        | succ k =>
          have h := hsucc k
          rw [List.drop_drop] at h
          rwa [show base + remoteWindow * (k + 1) = base + remoteWindow + remoteWindow * k by ring,
            show remoteWindow * (k + 1) = remoteWindow + remoteWindow * k by ring]
      · intro h
        refine ⟨h 0, fun k => ?_⟩
        have hk := h (k + 1)
        rw [List.drop_drop]
        rwa [show base + remoteWindow * (k + 1) = base + remoteWindow + remoteWindow * k by ring,
          show remoteWindow * (k + 1) = remoteWindow + remoteWindow * k by ring] at hk

/-- The names of a node are those of its entries. -/
theorem matchNames_field (d : Definition b) (node : UInt16) (listing : Listing) :
    ∀ x ∈ matchNames b (entriesOf d node) listing.infos, d.fields[x.index]? = some x.field := by
  intro x hx
  have hasked := ((matchNames_asked (b := b) (nodup_entriesOf d node) listing.distinct
    (length_entriesOf_le d node)).2 x.asked).1 (List.mem_map_of_mem hx)
  exact List.mk_mem_zipIdx_iff_getElem?.1 (List.mem_filter.1 hasked.1).1

/-- **The writes fit** if the values do. -/
theorem collectEntries_fits_iff {reads : Reads}
    (hlocal : ∀ w ∈ (collectLocal reads d.fields.zipIdx).writes, w.Fits d) :
    (∀ w ∈ (collectEntries d reads).writes, w.Fits d) ↔ ValuesFit d reads := by
  have hremote : ∀ node, (∀ w ∈ (collectRemote d reads node).writes, w.Fits d) ↔
      ∀ listing, reads.listing node = .ok listing → ∀ k, WindowFits
        (reads.values node (remoteWindow * k)
          ((((matchNames b (entriesOf d node) listing.infos).drop (remoteWindow * k)).take
            remoteWindow).map (·.name)))
        (((matchNames b (entriesOf d node) listing.infos).drop (remoteWindow * k)).take
          remoteWindow) := by
    intro node
    unfold collectRemote
    cases reads.listing node with
    | error e => simp
    | ok listing =>
      have h := collectWindows_fits_iff (d := d) (reads.values node) _ 0 _ le_rfl
        (matchNames_field d node listing)
      simp only [Nat.zero_add] at h
      simp only [Except.ok.injEq, forall_eq', h]
  have hfold : ∀ (nodes : List UInt16) (p : Part),
      (∀ w ∈ (nodes.foldl (fun part node => part.append (collectRemote d reads node)) p).writes,
        w.Fits d) ↔ (∀ w ∈ p.writes, w.Fits d) ∧
          ∀ node ∈ nodes, ∀ w ∈ (collectRemote d reads node).writes, w.Fits d := by
    intro nodes
    induction nodes with
    | nil => simp
    | cons node nodes ih =>
      intro p
      rw [List.foldl_cons, ih]
      simp only [Part.append, List.mem_append, or_imp, forall_and, List.forall_mem_cons, and_assoc]
  unfold collectEntries ValuesFit
  rw [hfold]
  simp only [hremote]
  exact and_iff_right hlocal

/-- **Nothing is missed** if the lists name all. -/
theorem missing_eq_zero_iff (d : Definition b) (reads : Reads) :
    ((otherNodes [] d.fields).map (missingOf d reads)).sum = 0 ↔ ListsNameAll d reads := by
  rw [List.sum_eq_zero_iff, List.forall_mem_map]
  unfold ListsNameAll missingOf
  refine forall₂_congr fun node _ => ?_
  cases reads.listing node with
  | error e => simp
  | ok listing =>
    obtain ⟨hsub, hmem⟩ := matchNames_asked (b := b) (nodup_entriesOf d node) listing.distinct
      (length_entriesOf_le d node)
    have hle := hsub.length_le
    rw [List.length_map] at hle
    simp only [Except.ok.injEq, forall_eq']
    constructor
    · intro h field hfield hnode
      have hperm := hsub.perm_of_length_le (by rw [List.length_map]; omega)
      obtain ⟨index, hindex⟩ := List.mem_iff_getElem?.1 hfield
      have hentry : (field, index) ∈ entriesOf d node :=
        List.mem_filter.2 ⟨List.mk_mem_zipIdx_iff_getElem?.2 hindex, by simpa using hnode⟩
      exact ((hmem _).1 (hperm.mem_iff.2 hentry)).2
    · intro h
      have hall : entriesOf d node ⊆
          (matchNames b (entriesOf d node) listing.infos).map Wanted.asked := by
        intro p hp
        obtain ⟨hzip, hnode⟩ := List.mem_filter.1 hp
        exact (hmem p).2 ⟨hp, h p.1 (List.fst_mem_of_mem_zipIdx hzip) (by simpa using hnode)⟩
      have hge := (List.subperm_of_subset (nodup_entriesOf d node) hall).length_le
      rw [List.length_map] at hge
      omega

/-! ### The local values -/

/-- `kfsw_param_visit`, as far as it is used here: the descriptions it visits. -/
def visit (s : Param.Service) : Except Errno (List Info) :=
  if !s.initialized then .error .EACCES else .ok (s.entries.map (·.info))

/-- `kfsw_param_get_by_id`. -/
def getById {ω : Type} (cfg : Param.Config) (owner : Param.Owner ω) (id : UInt16)
    (n : Param.Node ω) : Except Errno Value × Param.Node ω :=
  if !n.service.initialized then (.error .EACCES, n)
  else
    match Param.findId n.service id with
    | none => (.error .ENOENT, n)
    | some entry => n.readEntry cfg owner entry

/-- A scalar is as wide as its parameter is declared. -/
theorem scalarSize_le_entryWidth (type : ParamType) (arraySize : UInt16) :
    Param.scalarSize type ≤ entryWidth type arraySize := by
  cases type <;> simp [Param.scalarSize, entryWidth]

/-- **A local value fits** the entry that was made for it. -/
theorem getById_fits {ω : Type} {cfg : Param.Config} {owner : Param.Owner ω} {n : Param.Node ω}
    {s : Param.Service} (haccepted : Param.Accepted cfg s) (hservice : n.service = s)
    {infos : List Info} (hvisit : visit s = .ok infos) {id : UInt16} {width : ℕ}
    (hwidth : matchWidth id infos = some width) {value : Value}
    (hget : (getById cfg owner id n).1 = .ok value) : Param.scalarSize value.type ≤ width := by
  subst hservice
  unfold visit at hvisit
  rw [haccepted.initialized] at hvisit
  obtain rfl := Except.ok.inj hvisit
  obtain ⟨info, hinfo, rfl⟩ := Option.map_eq_some_iff.1 hwidth
  obtain ⟨entry, hentry, rfl⟩ := List.mem_map.1 (List.mem_of_find?_eq_some hinfo)
  have hid : entry.info.id = id := by simpa using List.find?_some hinfo
  have hfind := (haccepted.find id entry).2 ⟨hentry, hid⟩
  unfold getById at hget
  rw [haccepted.initialized, hfind] at hget
  simp only [Bool.not_true, Bool.false_eq_true, if_false] at hget
  by_cases hcapacity : Param.entryCapacity entry = 0
  · unfold Param.Node.readEntry at hget
    rw [if_pos hcapacity] at hget
    cases hget
  · rw [Param.Node.readEntry_eq (Nat.pos_of_ne_zero hcapacity)] at hget
    obtain rfl := Except.ok.inj hget
    rw [Param.Node.type_current]
    exact scalarSize_le_entryWidth _ _

/-- The width of a local entry is that of its parameter. -/
theorem layOut_local {lists : Listings} {entries : List Entry} {index offset : ℕ}
    {fields : List Field} (h : layOut b lists index offset entries = .ok fields) :
    ∀ field ∈ fields, field.entry.node = nodeLocal →
      ∃ infos, lists.registry = .ok infos ∧
        matchWidth field.entry.paramId infos = some field.width := by
  induction entries generalizing index offset fields with
  | nil =>
    obtain rfl := Except.ok.inj h
    simp
  | cons entry entries ih =>
    obtain ⟨width, rest, hwidth, hrest, rfl⟩ := layOut_cons h
    intro field hfield hnode
    rcases List.mem_cons.1 hfield with rfl | hfield
    · unfold entryDeclaredWidth at hwidth
      dsimp only at hwidth hnode
      rw [if_pos hnode] at hwidth
      cases hregistry : lists.registry with
      | error e => rw [hregistry] at hwidth; cases hwidth
      | ok infos =>
        rw [hregistry] at hwidth
        refine ⟨infos, rfl, ?_⟩
        dsimp only at hwidth ⊢
        cases hmatch : matchWidth entry.paramId infos with
        | none => rw [hmatch] at hwidth; cases hwidth
        | some found =>
          rw [hmatch] at hwidth
          cases found with
          | zero => cases hwidth
          | succ found => rw [Except.ok.inj hwidth]
    · exact ih hrest field hfield hnode

/-! ### The frame -/

/-- **A frame has the declared layout**: what is written for an entry is inside its bytes, and they
are in the sample; the bytes of an entry that is not read are zero; the flag tells whether there is
one; and the failures are those entries. -/
structure Declared (d : Definition b) (sample : Sample) (part : Part) : Prop where
  inside : ∀ w ∈ part.writes, ∃ field, d.fields[w.index]? = some field ∧ field.offset ≤ w.offset ∧
    w.offset + w.bytes.length ≤ field.offset + field.width ∧
      field.offset + field.width ≤ b.sampleBytes
  zero : ∀ index field, d.fields[index]? = some field → Unread part index →
    region sample.data field.offset field.width = List.replicate field.width 0
  flag : sample.flags &&& flagIncomplete ≠ 0 ↔ ∃ index < d.fields.length, Unread part index
  failures : part.failures = (unread d part).length

/-- Writes beside a region leave it as it is. -/
theorem region_writes (ws : List Write) {data : List UInt8} {o len : ℕ} (hin : o + len ≤ data.length)
    (hapart : ∀ w ∈ ws, w.offset + w.bytes.length ≤ o ∨ o + len ≤ w.offset) :
    region (ws.foldl (fun data w => splice 0 data w.offset w.bytes) data) o len =
        region data o len ∧
      o + len ≤ (ws.foldl (fun data w => splice 0 data w.offset w.bytes) data).length := by
  induction ws generalizing data with
  | nil => exact ⟨rfl, hin⟩
  | cons w ws ih =>
    obtain ⟨hw, hws⟩ := List.forall_mem_cons.1 hapart
    have hin' : o + len ≤ (splice 0 data w.offset w.bytes).length := by
      rw [length_splice]
      omega
    obtain ⟨hregion, hlen⟩ := ih hin' hws
    rw [List.foldl_cons]
    refine ⟨hregion.trans ?_, hlen⟩
    rcases hw with hbehind | hbefore
    · exact region_splice_behind 0 data hbehind
    · exact region_splice_before 0 w.bytes hin hbefore

/-- The bytes of an entry that is not read, if the others are written where they belong. -/
theorem collectReport_zero (sequence : UInt16) (clock : Option UInt32) {reads : Reads}
    (hfits : ∀ w ∈ (collectEntries d reads).writes, w.Fits d) {index : ℕ} {field : Field}
    (hfield : d.fields[index]? = some field) (hunread : Unread (collectEntries d reads) index) :
    region (collectReport d sequence clock reads).1.data field.offset field.width =
      List.replicate field.width 0 := by
  obtain ⟨hlow, hhigh⟩ := d.field_in (List.mem_of_getElem? hfield)
  have hin : field.offset + field.width ≤ (List.replicate b.sampleBytes (0 : UInt8)).length := by
    rw [List.length_replicate]
    exact hhigh
  have hdata := region_writes (collectEntries d reads).writes hin fun w hw => by
      obtain ⟨g, value, hg, hoffset, -⟩ := (collectEntries_spec d reads).1 w hw
      have hlen := hfits w hw g hg
      rcases d.fields_apart (hunread w hw) hg hfield with h | h
      · exact Or.inl (by omega)
      · exact Or.inr (by omega)
  have hcleared : region (List.replicate b.sampleBytes (0 : UInt8)) field.offset field.width =
      List.replicate field.width 0 := by
    rw [region, List.drop_replicate, List.take_replicate, Nat.min_eq_left (by omega)]
  have hheader : 2 + (putBe16 sequence ++ (putBe32 (clock.getD 0) ++ [d.entryCount,
      (if clock.isSome then 0 else flagClockUnset) |||
        (if (collectEntries d reads).error.isSome then flagIncomplete else 0)])).length ≤
      field.offset := by
    simp only [List.length_append, length_putBe16, length_putBe32, List.length_cons, List.length_nil]
    omega
  exact (region_splice_behind 0 _ hheader).trans
    ((region_splice_behind 0 _ (show 0 + 1 ≤ field.offset by omega)).trans
      (hdata.1.trans hcleared))

/-- **When a frame has the declared layout.**  For every definition that is accepted on a node, and
whatever the reads of a collection come to: it has if the values of the other nodes are as wide as
their entries, and the lists that come name every parameter that is asked for, and only then. -/
theorem collect_layout_iff {ω : Type} {cfg : Param.Config} {owner : Param.Owner ω}
    {s : Param.Service} {lists : Listings} {report : UInt8} {entries : List Entry}
    {retrievalClass : { c : UInt8 // c ≤ classMax }} {d : Definition b}
    (haccepted : s.initialized = true → Param.Accepted cfg s) (hregistry : lists.registry = visit s)
    (hdefined : prepareDefinition b lists report entries retrievalClass = .ok d) (reads : Reads)
    (nodes : ℕ → Param.Node ω) (hservice : ∀ index, (nodes index).service = s)
    (hget : ∀ index field, d.fields[index]? = some field → field.entry.node = nodeLocal →
      reads.get index = (getById cfg owner field.entry.paramId (nodes index)).1)
    (sequence : UInt16) (clock : Option UInt32) :
    Declared d (collectReport d sequence clock reads).1 (collectReport d sequence clock reads).2 ↔
      ValuesFit d reads ∧ ListsNameAll d reads := by
  have hlaid := layOut_local (prepareDefinition_eq_ok_iff.1 hdefined).2.1
  have hlocal : ∀ w ∈ (collectLocal reads d.fields.zipIdx).writes, w.Fits d := by
    have hwrites : ∀ fields : List (Field × ℕ),
        (∀ p ∈ fields, d.fields[p.2]? = some p.1) →
          ∀ w ∈ (collectLocal reads fields).writes, w.Fits d := by
      intro fields
      induction fields with
      | nil => simp [collectLocal, Part.empty]
      | cons p fields ih =>
        obtain ⟨field, index⟩ := p
        intro hfields
        obtain ⟨hfield, hrest⟩ := List.forall_mem_cons.1 hfields
        unfold collectLocal
        split_ifs with hnode
        · exact ih hrest
        · rw [not_not] at hnode
          cases hvalue : reads.get index with
          | error e =>
            intro w hw
            exact ih hrest w (by simpa [Part.append] using hw)
          | ok value =>
            intro w hw
            rcases List.mem_cons.1 hw with rfl | hw
            · intro g hg
              obtain rfl := Option.some.inj (hfield.symm.trans hg)
              obtain ⟨infos, hinfos, hwidth⟩ := hlaid field (List.mem_of_getElem? hfield) hnode
              rw [hregistry] at hinfos
              rw [hget index field hfield hnode] at hvalue
              have hinit : s.initialized = true := by
                unfold visit at hinfos
                by_contra hnot
                rw [Bool.not_eq_true] at hnot
                simp [hnot] at hinfos
              exact (length_writeValue_le_iff _ _).2
                (getById_fits (haccepted hinit) (hservice index) hinfos hwidth hvalue)
            · exact ih hrest w hw
    exact hwrites _ fun p hp => List.mk_mem_zipIdx_iff_getElem?.1 hp
  have hfits_iff := collectEntries_fits_iff hlocal
  obtain ⟨horigin, hcount, herror⟩ := collectEntries_spec d reads
  have hmissing := missing_eq_zero_iff d reads
  rw [← hfits_iff, ← hmissing]
  constructor
  · intro h
    refine ⟨fun w hw field hfield => ?_, ?_⟩
    · obtain ⟨g, hg, hlow, hhigh, -⟩ := h.inside w hw
      obtain ⟨g', -, hg', hoffset, -⟩ := horigin w hw
      obtain rfl := Option.some.inj (hfield.symm.trans hg)
      obtain rfl := Option.some.inj (hfield.symm.trans hg')
      omega
    · have hfailures : (collectEntries d reads).failures =
          (unread d (collectEntries d reads)).length := h.failures
      omega
  · rintro ⟨hfits, hnone⟩
    refine ⟨fun w hw => ?_, fun index field hfield hunread =>
      collectReport_zero sequence clock hfits hfield hunread, ?_, ?_⟩
    · obtain ⟨field, value, hfield, hoffset, -⟩ := horigin w hw
      have hlen := hfits w hw field hfield
      exact ⟨field, hfield, hoffset.ge, by omega, (d.field_in (List.mem_of_getElem? hfield)).2⟩
    · show (((if clock.isSome then (0 : UInt8) else flagClockUnset) |||
        (if (collectEntries d reads).error.isSome then flagIncomplete else 0)) &&& flagIncomplete ≠ 0
          ↔ ∃ index < d.fields.length, Unread (collectEntries d reads) index)
      rw [← herror]
      cases clock.isSome <;> cases (collectEntries d reads).error.isSome <;> decide
    · show (collectEntries d reads).failures = (unread d (collectEntries d reads)).length
      omega

/-- The parameters of a node with one byte, seen from itself and from another node. -/
def byteLists : Listings :=
  ⟨visit (Param.keptNode 9).service, fun _ _ => visit (Param.keptNode 9).service⟩

/-- The byte is read, on the node itself. -/
def byteReads : Reads where
  get _ := (getById Param.smallBuild Param.Owner.idle 256 (Param.keptNode 9)).1
  listing _ := .error .ETIMEDOUT
  values _ _ _ := .error .ETIMEDOUT

theorem prepareDefinition_byte (node : UInt16) (hnode : node = 0 ∨ node = 2) :
    prepareDefinition smallBuild byteLists 0 [⟨node, 256⟩] ⟨classDefault, by decide⟩ =
      .ok (byteDefinition ⟨node, 256⟩) := by
  refine prepareDefinition_eq_ok_iff.2 ⟨by decide, ?_, rfl⟩
  rcases hnode with rfl | rfl <;> decide +kernel

/-- A report of a local byte. -/
theorem collect_layout_byte :
    Declared (byteDefinition ⟨0, 256⟩) (collectReport (byteDefinition ⟨0, 256⟩) 7 none byteReads).1
        (collectReport (byteDefinition ⟨0, 256⟩) 7 none byteReads).2 ↔
      ValuesFit (byteDefinition ⟨0, 256⟩) byteReads ∧
        ListsNameAll (byteDefinition ⟨0, 256⟩) byteReads :=
  collect_layout_iff (fun _ => Param.init_accepted (Param.init_keptTable 9)) rfl
    (prepareDefinition_byte 0 (Or.inl rfl)) byteReads (fun _ => Param.keptNode 9) (fun _ => rfl)
    (fun index field hfield _ => by
      obtain ⟨hlt, rfl⟩ := List.getElem?_eq_some_iff.1 hfield
      obtain rfl : index = 0 := Nat.lt_one_iff.1 hlt
      rfl) 7 none

/-- A byte of another node, which has become a number of four bytes. -/
def wideReads : Reads where
  get _ := .error .ENOENT
  listing _ := .ok ⟨[⟨2, 256, 1, 0, 1, .U32, 0, none, CString.ofString "byte", none, none, false⟩],
    by simp⟩
  values _ _ _ := .ok fun _ => ⟨.U32, 4, 0x01020304, CString.empty, []⟩

/-- A byte of another node, which is no longer there. -/
def goneReads : Reads where
  get _ := .error .ENOENT
  listing _ := .ok ⟨[], by simp⟩
  values _ _ _ := .error .ENOENT

/-- A value that has become wider is written over what follows its entry, and a parameter that is
no longer there is not counted. -/
theorem collect_overruns :
    prepareDefinition smallBuild byteLists 0 [⟨2, 256⟩] ⟨classDefault, by decide⟩ =
        .ok (byteDefinition ⟨2, 256⟩) ∧
      (¬ ∀ (reads : Reads), ∀ w ∈ (collectReport (byteDefinition ⟨2, 256⟩) 7 none reads).2.writes,
        w.offset + w.bytes.length ≤ headerSize + 1) ∧
      ¬ ∀ (reads : Reads), (collectReport (byteDefinition ⟨2, 256⟩) 7 none reads).2.failures =
        (unread (byteDefinition ⟨2, 256⟩)
          (collectReport (byteDefinition ⟨2, 256⟩) 7 none reads).2).length := by
  refine ⟨prepareDefinition_byte 2 (Or.inr rfl), fun h => ?_, fun h => ?_⟩
  · exact absurd (h wideReads) (by decide)
  · exact absurd (h goneReads) (by decide)

end KfswServices.Hk
