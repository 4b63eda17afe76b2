/-
# The settings after a reset

`kfsw_hk_init` loads the settings file as a whole: one report that cannot be prepared, or one store
file that is refused, and nothing of it is restored.  What is refused may be no fault of the file: an
entry of another node needs the list of that node, and a store file in which a write was cut short is
not whole any more.  `restored_iff` says what a boot needs of each report that was saved.

A history of flushes that write their records whole, or nothing, leaves a file that is whole
(`store_whole`).
-/

import KfswServices.Hk.Batch
import KfswServices.Hk.Reproduced
import KfswServices.Hk.Stored

namespace KfswServices.Hk

open Library
open Param (Info)

variable {b : Build}

/-! ### Preparing a definition again -/

/-- The bytes of some entries, as their parameters are declared; those that are not count for
nothing. -/
def payloadNow (b : Build) (lists : Listings) : ℕ → List Entry → ℕ
  | _, [] => 0
  | index, entry :: entries =>
    (entryDeclaredWidth b lists index entry).toOption.getD 0 + payloadNow b lists (index + 1) entries

variable {lists : Listings}

/-- The first entry is declared, and the others are laid out behind it. -/
theorem layOut_cons_iff {entry : Entry} {entries : List Entry} {index offset : ℕ}
    {fields : List Field} : layOut b lists index offset (entry :: entries) = .ok fields ↔
      ∃ width rest, entryDeclaredWidth b lists index entry = .ok width ∧
        layOut b lists (index + 1) (offset + width) entries = .ok rest ∧
        fields = ⟨entry, width, offset⟩ :: rest := by
  conv_lhs => unfold layOut
  cases hwidth : entryDeclaredWidth b lists index entry with
  | error e => exact iff_of_false (by simp) (by simp)
  | ok width =>
    dsimp only
    cases hrest : layOut b lists (index + 1) (offset + width) entries with
    | error e =>
      refine iff_of_false (by simp) ?_
      rintro ⟨width', rest, heq, hrest', -⟩
      obtain rfl := Except.ok.inj heq
      rw [hrest] at hrest'
      cases hrest'
    | ok rest =>
      constructor
      · intro h
        exact ⟨width, rest, rfl, hrest, (Except.ok.inj h).symm⟩
      · rintro ⟨width', rest', heq, hrest', rfl⟩
        obtain rfl := Except.ok.inj heq
        obtain rfl := Except.ok.inj (hrest.symm.trans hrest')
        rfl

/-- **Entries are laid out** if and only if each is declared. -/
theorem layOut_iff {entries : List Entry} {index offset : ℕ} :
    (∃ fields, layOut b lists index offset entries = .ok fields) ↔
      ∀ i entry, entries[i]? = some entry →
        ∃ width, entryDeclaredWidth b lists (index + i) entry = .ok width := by
  induction entries generalizing index offset with
  | nil => exact iff_of_true ⟨[], rfl⟩ fun i entry h => by simp at h
  | cons entry entries ih =>
    constructor
    · rintro ⟨fields, h⟩ i other hother
      obtain ⟨width, rest, hwidth, hrest, -⟩ := layOut_cons_iff.1 h
      cases i with
      | zero =>
        obtain rfl := Option.some.inj hother
        exact ⟨width, hwidth⟩
      | succ i =>
        have hlater := ih.1 ⟨rest, hrest⟩ i other hother
        rw [Nat.add_assoc, Nat.add_comm 1] at hlater
        exact hlater
    · intro h
      obtain ⟨width, hwidth⟩ := h 0 entry rfl
      obtain ⟨rest, hrest⟩ := (@ih (index + 1) (offset + width)).2 fun i other hother => by
        have hlater := h (i + 1) other hother
        rw [Nat.add_comm i 1, ← Nat.add_assoc] at hlater
        exact hlater
      exact ⟨_, layOut_cons_iff.2 ⟨width, rest, hwidth, hrest, rfl⟩⟩

/-- What is laid out has the bytes that are declared. -/
theorem payload_layOut {entries : List Entry} {index offset : ℕ} {fields : List Field}
    (h : layOut b lists index offset entries = .ok fields) :
    payload fields = payloadNow b lists index entries := by
  induction entries generalizing index offset fields with
  | nil =>
    obtain rfl := Except.ok.inj h
    rfl
  | cons entry entries ih =>
    obtain ⟨width, rest, hwidth, hrest, rfl⟩ := layOut_cons_iff.1 h
    unfold payloadNow
    rw [hwidth, ← ih hrest]
    exact List.sum_cons

/-- **A definition is prepared again** if and only if its entries are declared, and still fit. -/
theorem prepareDefinition_again {index : UInt8} (hindex : index.toNat < b.reports)
    (d : Definition b) :
    (∃ d', prepareDefinition b lists index d.entries ⟨d.retrievalClass, d.class_le⟩ = .ok d') ↔
      (∀ i entry, d.entries[i]? = some entry →
        ∃ width, entryDeclaredWidth b lists i entry = .ok width) ∧
      payloadNow b lists 0 d.entries + headerSize ≤ b.sampleBytes := by
  have hlaid := @layOut_iff b lists d.entries 0 headerSize
  simp only [Nat.zero_add] at hlaid
  constructor
  · rintro ⟨d', hd'⟩
    obtain ⟨-, hfields, -⟩ := prepareDefinition_eq_ok_iff.1 hd'
    refine ⟨hlaid.1 ⟨_, hfields⟩, ?_⟩
    rw [← payload_layOut hfields]
    exact d'.fits
  · rintro ⟨hdeclared, hfits⟩
    obtain ⟨fields, hfields⟩ := hlaid.2 hdeclared
    have hentries := (layOut_ok hfields).2
    rw [← payload_layOut hfields] at hfits
    have hlen : fields.length = d.fields.length := by
      rw [← List.length_map Field.entry, hentries]
      exact List.length_map _
    refine ⟨⟨fields, d.retrievalClass, (layOut_ok hfields).1, hfits, fun hnil => ?_, ?_, d.class_le⟩,
      prepareDefinition_eq_ok_iff.2 ⟨hindex, hfields, rfl⟩⟩
    · rw [hnil] at hlen
      exact d.some_entry (List.length_eq_zero_iff.1 hlen.symm)
    · rw [hlen]
      exact d.entries_le

/-- A node answers with a list that names the parameter of an entry, and gives it a width. -/
def Answered (lists : Listings) (index : ℕ) (entry : Entry) : Prop :=
  ∃ infos width, lists.remote index entry.node = .ok infos ∧
    matchWidth entry.paramId infos = some width ∧ width ≠ 0

variable {registry : Except Errno (List Info)}

/-- **The entries of this node are declared as they were**, those of others if the nodes answer. -/
theorem declared_iff {d : Definition b} (hd : LaidWith registry d)
    (hlists : lists.registry = registry) : (∀ i entry, d.entries[i]? = some entry →
        ∃ width, entryDeclaredWidth b lists i entry = .ok width) ↔
      ∀ i entry, d.entries[i]? = some entry → entry.node ≠ nodeLocal → Answered lists i entry := by
  obtain ⟨lists', hregistry, hlaid⟩ := hd
  have hwas := layOut_iff.1 ⟨_, hlaid⟩
  refine forall₃_congr fun i entry hentry => ?_
  obtain ⟨width', hwidth'⟩ := hwas i entry hentry
  rw [Nat.zero_add] at hwidth'
  unfold entryDeclaredWidth at hwidth' ⊢
  by_cases hlocal : entry.node = nodeLocal
  · rw [if_pos hlocal, hregistry] at hwidth'
    rw [if_pos hlocal, hlists]
    exact iff_of_true ⟨width', hwidth'⟩ fun h => absurd hlocal h
  · rw [if_neg hlocal] at hwidth' ⊢
    have hnode : ¬ entry.node ≥ b.broadcast := by
      intro hge
      rw [if_pos hge] at hwidth'
      cases hwidth'
    rw [if_neg hnode]
    constructor
    · rintro ⟨width, hwidth⟩ -
      cases hremote : lists.remote i entry.node with
      | error e =>
        rw [hremote] at hwidth
        cases hwidth
      | ok infos =>
        rw [hremote] at hwidth
        dsimp only at hwidth
        cases hmatch : matchWidth entry.paramId infos with
        | none =>
          rw [hmatch] at hwidth
          cases hwidth
        | some width' =>
          refine ⟨infos, width', hremote, hmatch, ?_⟩
          rintro rfl
          rw [hmatch] at hwidth
          cases hwidth
    · intro h
      obtain ⟨infos, width, hremote, hmatch, hne⟩ := h hlocal
      rw [hremote]
      dsimp only
      rw [hmatch]
      cases width with
      | zero => exact absurd rfl hne
      | succ width => exact ⟨_, rfl⟩

/-! ### What a boot needs -/

/-- The turn of a report in the snapshot. -/
def turnOf (s : State b) (index : UInt8) : ℕ := turnIn s (reportIndices b) index

/-- A store file that a boot accepts: it is whole, or there is none and it can be created. -/
def StoreUsable (io : LoadIo) (index : UInt8) (recordSize : ℕ) (file : Option (List UInt8)) : Prop :=
  match file with
  | some bytes => Whole b index recordSize bytes
  | none => (createFile b (io.mkdir index) (io.create index) index recordSize none).1 = .returned none

/-- **What a boot needs of a report that was saved**: the other nodes answer for their entries, the
entries fit into a sample, and there is a store file for records of that length. -/
structure Bootable (io : LoadIo) (lists : Listings) (s : State b) (file : Option (List UInt8))
    (index : UInt8) (d : Definition b) : Prop where
  answered : ∀ i entry, d.entries[i]? = some entry → entry.node ≠ nodeLocal → Answered lists i entry
  fits : payloadNow b lists 0 d.entries + headerSize ≤ b.sampleBytes
  store : (s.stores index).interval.ms ≠ 0 →
    @StoreUsable b io index (headerSize + payloadNow b lists 0 d.entries) file

/-- **A store is prepared** if and only if it has no interval, or a file that can be used. -/
theorem restorePrepare_iff {io : LoadIo} (hio : io.Works) {index : UInt8}
    {interval : Interval b.storeFloor} {period : UInt32} {recordSize : ℕ} (hsize : 0 < recordSize)
    {file : Option (List UInt8)} :
    (restorePrepare (io.mkdir index) (io.create index) (io.read index) index interval period
      recordSize file).1 = .returned none ↔
        (interval.ms ≠ 0 → @StoreUsable b io index recordSize file) := by
  rw [hio.read index]
  by_cases hoff : interval.ms = 0
  · exact iff_of_true (restorePrepare_off hoff) fun h => absurd hoff h
  · rw [forall_prop_of_true hoff]
    cases file with
    | some bytes => exact restorePrepare_file hoff hsize
    | none =>
      have hopen : openExisting ReadIo.working.opened none = .error .ENOENT := rfl
      unfold restorePrepare StoreUsable
      rw [if_neg hoff, hopen]
      dsimp only
      rcases createFile b (io.mkdir index) (io.create index) index recordSize none with
        ⟨(_ | e) | _, file⟩
      · exact iff_of_true rfl rfl
      · exact iff_of_false (by simp) (by simp)
      · exact iff_of_false (by simp) (by simp)

/-- **What a boot needs**, as the load asks for it. -/
theorem bootable_iff {io : LoadIo} (hlists : lists.registry = registry) {s : State b}
    {file : Option (List UInt8)} {index : UInt8} (hindex : index.toNat < b.reports)
    {d : Definition b} (hd : LaidWith registry d) :
    (∃ d', prepareDefinition b lists index d.entries ⟨d.retrievalClass, d.class_le⟩ = .ok d' ∧
        ((s.stores index).interval.ms ≠ 0 → @StoreUsable b io index d'.recordSize file)) ↔
      Bootable io lists s file index d := by
  have hsize : ∀ d', prepareDefinition b lists index d.entries ⟨d.retrievalClass, d.class_le⟩ =
      .ok d' → d'.recordSize = headerSize + payloadNow b lists 0 d.entries := by
    intro d' hd'
    rw [← payload_layOut (prepareDefinition_eq_ok_iff.1 hd').2.1]
    rfl
  constructor
  · rintro ⟨d', hd', hstore⟩
    obtain ⟨hdeclared, hfits⟩ := (prepareDefinition_again hindex d).1 ⟨d', hd'⟩
    refine ⟨(declared_iff hd hlists).1 hdeclared, hfits, fun hon => ?_⟩
    rw [← hsize d' hd']
    exact hstore hon
  · rintro ⟨hanswered, hfits, hstore⟩
    obtain ⟨d', hd'⟩ := (prepareDefinition_again hindex d).2
      ⟨(declared_iff hd hlists).2 hanswered, hfits⟩
    refine ⟨d', hd', fun hon => ?_⟩
    rw [hsize d' hd']
    exact hstore hon

/-- **A saved file is loaded** if and only if each of its definitions can be prepared in its turn,
with a store file for its records. -/
theorem loadSnapshot_snapshotOf_iff {s : State b} {io : LoadIo} (hio : io.Works)
    (lists : ℕ → Listings) (now : ℤ) (before : Prepared b) (n : Node b) :
    (loadSnapshot io lists now before (some (snapshotOf s)) n).1 = .ended (.returned none) ↔
      ∀ index : UInt8, index.toNat < b.reports → ∀ d, (s.reports index).definition = some d →
        ∃ d', prepareDefinition b (lists (turnOf s index)) index d.entries
            ⟨d.retrievalClass, d.class_le⟩ = .ok d' ∧ ((s.stores index).interval.ms ≠ 0 →
            @StoreUsable b io index d'.recordSize (n.files index)) := by
  have hall := @prepareAll_iff _ lists s _ (nodup_reportIndices b) 0 (fun _ => none)
  simp only [Nat.zero_add, mem_reportIndices] at hall
  unfold loadSnapshot
  rw [blob_snapshotOf hio.ready hio.stat hio.opened hio.complete]
  dsimp only
  rw [checkSnapshot_snapshotOf]
  cases hitems : prepareAll lists s (reportIndices b) 0 (fun _ => none) with
  | error e =>
    refine iff_of_false (by simp) fun h => ?_
    obtain ⟨items, hok⟩ := hall.2 fun index hindex d hd =>
      (h index hindex d hd).imp fun d' hd' => hd'.1
    rw [hitems] at hok
    cases hok
  | ok items =>
    dsimp only
    have hspec := (prepareAll_spec (nodup_reportIndices b) hitems).2
    have hstores := (prepareStores_spec io items (nodup_reportIndices b) before n.files).1
    refine Iff.trans ?_ (hstores.trans ?_)
    · rcases prepareStores io items (reportIndices b) before n.files with
        ⟨(_ | e) | _, prepared, files⟩
      · exact iff_of_true rfl rfl
      · exact iff_of_false (by simp) (by simp)
      · exact iff_of_false (by simp) (by simp)
    refine forall_congr' fun index => ?_
    rw [mem_reportIndices]
    refine forall_congr' fun hindex => ?_
    have hitem := hspec index (mem_reportIndices.2 hindex)
    unfold prepareOne
    rw [restorePrepare_iff hio (show 0 < 10 + _ by omega)]
    cases hd : (s.reports index).definition with
    | none =>
      rw [hd] at hitem
      rw [show items index = none from hitem]
      exact iff_of_true (fun h => absurd rfl h) fun d h => by cases h
    | some d =>
      rw [hd, Nat.zero_add] at hitem
      obtain ⟨d', hd', heq⟩ := hitem
      rw [heq]
      constructor
      · rintro hstore _ ⟨⟩
        exact ⟨d', hd', hstore⟩
      · intro h
        obtain ⟨d'', hd'', hstore⟩ := h d rfl
        obtain rfl := Except.ok.inj (hd'.symm.trans hd'')
        exact hstore

/-! ### Flushes that are whole -/

/-- **A file of records is whole.** -/
theorem RingFile.whole {report : UInt8} {recordSize : ℕ} {present : List Sample} {file : List UInt8}
    (h : RingFile b report recordSize present file) : Whole b report recordSize file := by
  obtain ⟨count, hcount, hlen, -, hslots⟩ := h.slots
  refine ⟨?_, count, hcount, hlen, fun slot hslot => ?_⟩
  · rw [h.header]
    exact headerOf_storeHeader b report h.size_le
  · unfold SlotWhole
    rw [hslots slot hslot]
    unfold slotRecord
    cases hfind : present.find? fun x => decide (slotOf b x.sequence = slot) with
    | none =>
      left
      cases recordSize <;> rfl
    | some x =>
      obtain ⟨rest, hrecord⟩ := (h.framed x (List.mem_of_find?_eq_some hfind)).record
      obtain ⟨s₁, s₂, hput, hget⟩ := exists_putBe16 x.sequence
      dsimp only
      rw [hrecord, hput]
      refine Or.inr ⟨rfl, rfl, ?_⟩
      have hslotOf := List.find?_some hfind
      rw [decide_eq_true_iff] at hslotOf
      rw [← hslotOf]
      exact congrArg (slotOf b) (hget _)

/-- **A history of whole flushes leaves a whole file**, from where a store is configured on. -/
theorem store_whole {report : UInt8} {d : Definition b} {n₀ n : Node b}
    (h₀ : Configured report d n₀) {collected : List (List Sample)}
    (hr : Run (StoredStep False report) n₀ collected n) :
    ∃ file, n.files report = some file ∧ Whole b report d.recordSize file := by
  obtain ⟨old, recent, written, hinv, -⟩ := storedInv_run h₀ hr
  obtain ⟨file, hfile, hring⟩ := hinv.file
  exact ⟨file, hfile, hring.whole⟩

theorem store_whole_byte : ∃ file, (ringCollect ringWritten 0 ringNode).files 0 = some file ∧
    Whole smallBuild 0 (byteDefinition ⟨0, 256⟩).recordSize file :=
  store_whole ringNode_configured (.single (ringStep rfl ⟨none, rfl, .inl rfl⟩ False.elim))

/-! ### What is restored -/

/-- The definitions and periods of a state are those of another one. -/
def SameReports (s t : State b) : Prop :=
  ∀ index : UInt8, index.toNat < b.reports →
    (t.settings index).layout = (s.settings index).layout ∧
      (t.settings index).period = (s.settings index).period

/-- **A load that returns `0`** restores the definitions and the periods. -/
theorem sameReports_of_load {s : State b} (hs : Settled registry s) {io : LoadIo}
    {lists : ℕ → Listings} {now : ℤ} {files : UInt8 → Option (List UInt8)}
    (h : (loadSnapshot io lists now (.zero b) (some (snapshotOf s)) ⟨State.reset b, files⟩).1 =
      .ended (.returned none)) :
    SameReports s (loadSnapshot io lists now (.zero b) (some (snapshotOf s))
      ⟨State.reset b, files⟩).2.state := by
  have hprepared : SettledBy Definition.WasPrepared s :=
    ⟨hs.undefined, fun index d hd => ⟨registry, hs.laid index d hd⟩⟩
  intro index hindex
  rw [(reproduces_snapshotOf hprepared).2 _ (.loaded (Prod.ext h rfl)) index hindex]
  unfold State.savedSettings
  split_ifs with hnone
  · unfold State.settings Settings.none
    rw [hnone, (hs.undefined index hnone).1]
    exact ⟨rfl, rfl⟩
  · exact ⟨rfl, rfl⟩

/-- **What a boot restores.**  Let the settings of a configuration be saved, and the node reset after
any history of collections and flushes, or inside of one.  With the parameters of this node as they
were, `kfsw_hk_init` restores the definition and the period of every report if and only if, for each
that was saved, every other node of its entries answers with a list that has their parameters, the
entries still fit into a sample, and its store file, if it has a store, is whole. -/
theorem restored_iff {registry : Except Errno (List Info)} {s : State b}
    (hr : Relation.ReflTransGen (SettingsStep registry) (State.reset b) s) {io : LoadIo}
    (hio : io.Works) {lists : ℕ → Listings} (hlists : ∀ turn, (lists turn).registry = registry)
    (files : UInt8 → Option (List UInt8)) (es : List (NodeEvent b)) (now : ℤ) :
    SameReports s (loadSnapshot io lists now (.zero b) (some (snapshotOf s))
        ⟨State.reset b, (es.foldl Node.step ⟨s, files⟩).files⟩).2.state ↔
      ∀ index : UInt8, index.toNat < b.reports → ∀ d, (s.reports index).definition = some d →
        Bootable io (lists (turnOf s index)) s ((es.foldl Node.step ⟨s, files⟩).files index)
          index d := by
  have hsettled := settled_run hr
  generalize (es.foldl Node.step ⟨s, files⟩).files = left
  have hload : (loadSnapshot io lists now (.zero b) (some (snapshotOf s))
      ⟨State.reset b, left⟩).1 = .ended (.returned none) ↔
        ∀ index : UInt8, index.toNat < b.reports → ∀ d, (s.reports index).definition = some d →
          Bootable io (lists (turnOf s index)) s (left index) index d := by
    rw [loadSnapshot_snapshotOf_iff hio]
    refine forall₂_congr fun index hindex => forall₂_congr fun d hd => ?_
    exact bootable_iff (hlists _) hindex (hsettled.laid index d hd)
  constructor
  · intro hsame
    by_cases hok : (loadSnapshot io lists now (.zero b) (some (snapshotOf s))
      ⟨State.reset b, left⟩).1 = .ended (.returned none)
    · exact hload.1 hok
    · -- nothing is restored, so nothing was saved
      intro index hindex d hd
      have hlayout := (hsame index hindex).1
      rw [(loadSnapshot_safe io lists now (.zero b) (some (snapshotOf s)) ⟨State.reset b, left⟩).2
        hok] at hlayout
      unfold State.settings at hlayout
      rw [hd] at hlayout
      cases hlayout
  · exact fun h => sameReports_of_load hsettled (hload.2 h)

/-- A collection of the byte, with a flush that the file system answers so. -/
def byteFlush (answers : List Answer) : NodeEvent smallBuild :=
  .collect ⟨none, answers, none⟩ byteCollecting
    (collectReport (byteDefinition ⟨0, 256⟩) 0 none goneReads).1
    (collectReport (byteDefinition ⟨0, 256⟩) 0 none goneReads).2.failures

/-- The store of the byte, without a record. -/
def byteFiles : UInt8 → Option (List UInt8) := fun _ => some (storeHeader smallBuild 0 11)

/-- A flush that is written leaves a file that is restored. -/
theorem restored_byte : SameReports storedState (loadSnapshot .working (fun _ => byteLists) 0
    (.zero smallBuild) (some (snapshotOf storedState)) ⟨State.reset smallBuild,
      ([byteFlush ringWritten].foldl Node.step ⟨storedState, byteFiles⟩).files⟩).2.state := by
  refine (restored_iff storedState_reached ⟨rfl, rfl, rfl, rfl, fun _ => rfl⟩ (fun _ => rfl) byteFiles
    [byteFlush ringWritten] 0).2 fun index hindex d hd => ?_
  rw [storedState_definition] at hd
  split_ifs at hd with hzero
  obtain rfl := Option.some.inj hd
  subst hzero
  refine ⟨fun i entry hentry hnode => ?_, by decide +kernel, fun _ => ?_⟩
  · cases i with
    | zero =>
      obtain rfl := Option.some.inj hentry
      exact absurd rfl hnode
    | succ i => simp [byteDefinition, Definition.entries] at hentry
  · have hfile : ([byteFlush ringWritten].foldl Node.step ⟨storedState, byteFiles⟩).files 0 =
        some (storeHeader smallBuild 0 11 ++ [1, 0, 0, 0, 0, 0, 0, 0, 1, 3, 0]) := by
      decide +kernel
    rw [hfile]
    refine ⟨by decide +kernel, 1, by decide, by decide +kernel, fun slot hslot => ?_⟩
    obtain rfl : slot = 0 := by omega
    exact Or.inr (by decide +kernel)

/-- Report 0 is of a byte of node 2. -/
def otherState : State smallBuild := (State.reset smallBuild).define 0 (byteDefinition ⟨2, 256⟩) 0

/-- The parameters of this node are as they were, and no other node answers. -/
def silentLists : Listings := ⟨byteLists.registry, fun _ _ => .error .ETIMEDOUT⟩

/-- **The definitions are lost** when a reset cuts a write of a sample short behind its fifth byte, and
when the node of an entry is silent while the settings are loaded. -/
theorem boot_drops_definitions :
    (Relation.ReflTransGen (SettingsStep byteLists.registry) (State.reset smallBuild) storedState ∧
      ¬ SameReports storedState (loadSnapshot .working (fun _ => byteLists) 0 (.zero smallBuild)
        (some (snapshotOf storedState)) ⟨State.reset smallBuild, ([byteFlush [.done 0, .done 5]].foldl
          Node.step ⟨storedState, byteFiles⟩).files⟩).2.state) ∧
    (Relation.ReflTransGen (SettingsStep byteLists.registry) (State.reset smallBuild) otherState ∧
      ¬ SameReports otherState (loadSnapshot .working (fun _ => silentLists) 0 (.zero smallBuild)
        (some (snapshotOf otherState)) ⟨State.reset smallBuild, byteFiles⟩).2.state) := by
  refine ⟨⟨storedState_reached, fun h => ?_⟩, ?_, fun h => ?_⟩
  · have hlost := (h 0 (by decide)).1
    revert hlost
    decide +kernel
  · refine .single ?_
    unfold otherState
    rw [← defineImpl_byte (Or.inr rfl)]
    exact .change _ rfl
  · have hlost := (h 0 (by decide)).1
    revert hlost
    decide +kernel

end KfswServices.Hk
