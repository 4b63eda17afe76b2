/-
# What a load of a table file does

`Accepts` is a file that `examine` lets through, with the parameters and the values that it lists
(`examine_ok`).  The pass that applies has either stored all of them or, as only an `apply` can
refuse a value and a parameter with an `apply` is alone in its file, none (`applyEntries_ok`,
`applyEntries_error`).  So a load is all or nothing (`load_all_or_nothing`).
-/

import KfswServices.Param.Owners
import KfswServices.Table.File
import Mathlib.Data.List.Forall2

namespace KfswServices.Table

open Library Param

variable {ω : Type} {b : Build} {owner : Owner ω} {s : Service} {n : Node ω}

/-! ### An accepted file -/

theorem wireId_inj {table table' offset offset' : UInt8}
    (h : wireId table offset = wireId table' offset') : table = table' ∧ offset = offset' := by
  have heq := congrArg UInt16.toNat h
  rw [wireId_toNat, wireId_toNat] at heq
  have hlt := offset.toNat_lt
  have hlt' := offset'.toNat_lt
  exact ⟨UInt8.toNat_inj.1 (by omega), UInt8.toNat_inj.1 (by omega)⟩

variable {image : List UInt8} {entries : List FileEntry}

theorem length_fileEntries {count offset last : ℕ}
    (h : fileEntries b image count offset = some (entries, last)) : entries.length = count := by
  induction count generalizing offset entries with
  | zero =>
    obtain ⟨rfl, -⟩ := Prod.mk.inj (Option.some.inj h)
    rfl
  | succ count ih =>
    obtain ⟨entry, next, rest, -, hrest, rfl⟩ := fileEntries_succ.1 h
    rw [List.length_cons, ih hrest]

/-- A file that is accepted: its octets, the table and the entries in it, and the parameters with
the values that they are for. -/
structure Accepts (b : Build) (s : Service) (r : Reading) (image : List UInt8) (table : UInt8)
    (entries : List FileEntry) (accepted : List (Entry × Value)) : Prop where
  read : readImage b r = .ok image
  header : validateHeader b image = .ok (entries.length, table)
  listed : fileEntries b image entries.length tableHeaderSize = some (entries, image.length)
  offsets : (entries.map FileEntry.offset).Nodup
  checked : List.Forall₂
    (fun entry found => checkEntry b s entries.length table entry = .ok found) entries accepted

variable {path : Option CString} {r : Reading}

/-- **What `prepare` asks for.** -/
theorem prepare_eq_ok {header : ℕ × UInt8} :
    prepare b s path r = .ok (image, header) ↔ (validPath path).isSome = true ∧
      s.initialized = true ∧ r.ready = true ∧ readImage b r = .ok image ∧
        validateHeader b image = .ok header := by
  unfold prepare
  simp only [ite_error_eq_ok, Option.isNone_iff_eq_none, ← ne_eq, ← Option.isSome_iff_ne_none,
    Bool.not_eq_true', Bool.not_eq_false]
  refine and_congr_right fun _ => and_congr_right fun _ => and_congr_right fun _ => ?_
  cases readImage b r with
  | error e => simp
  | ok data =>
    dsimp only
    cases hheader : validateHeader b data with
    | error e =>
      constructor
      · intro h; cases h
      · rintro ⟨h, h'⟩
        obtain rfl := Except.ok.inj h
        rw [hheader] at h'
        cases h'
    | ok found =>
      constructor
      · intro h
        obtain ⟨rfl, rfl⟩ := Prod.mk.inj (Except.ok.inj h)
        exact ⟨rfl, hheader⟩
      · rintro ⟨h, h'⟩
        obtain rfl := Except.ok.inj h
        obtain rfl := Except.ok.inj (hheader.symm.trans h')
        rfl

variable {accepted : List (Entry × Value)}

theorem Accepts.examine {table : UInt8} (h : Accepts b s r image table entries accepted)
    (hpath : (validPath path).isSome = true) (hinit : s.initialized = true)
    (hready : r.ready = true) : (examine b s path r).1 = .ok accepted := by
  have hprepare : prepare b s path r = .ok (image, entries.length, table) :=
    prepare_eq_ok.2 ⟨hpath, hinit, hready, h.read, h.header⟩
  have hsome := (checkEntries_eq_some []
    { Report.zero with table := table, entries := entries.length }).2
    ⟨entries, h.listed, h.offsets, by simp, h.checked⟩
  unfold Table.examine
  rw [hprepare]
  dsimp only
  rcases hcheck : checkEntries b s image entries.length table entries.length tableHeaderSize []
    { Report.zero with table := table, entries := entries.length } with ⟨_ | found, report⟩
  · rw [hcheck] at hsome
    cases hsome
  · rw [hcheck] at hsome
    exact congrArg Except.ok (Option.some.inj hsome)

/-- **What `examine` accepts.** -/
theorem examine_ok (h : (examine b s path r).1 = .ok accepted) : (validPath path).isSome = true ∧
      s.initialized = true ∧ r.ready = true ∧
        ∃ image table entries, Accepts b s r image table entries accepted ∧
          (examine b s path r).2.table = table ∧
          (examine b s path r).2.entries = entries.length := by
  unfold examine at h ⊢
  cases hprepare : prepare b s path r with
  | error e => rw [hprepare] at h; cases h
  | ok prepared =>
    obtain ⟨image, count, table⟩ := prepared
    obtain ⟨hpath, hinit, hready, hread, hheader⟩ := prepare_eq_ok.1 hprepare
    have hreport := checkEntries_report b s image count table count tableHeaderSize []
      { Report.zero with table := table, entries := count }
    rw [hprepare] at h
    dsimp only at h ⊢
    rcases hcheck : checkEntries b s image count table count tableHeaderSize []
      { Report.zero with table := table, entries := count } with ⟨_ | found, report⟩
    · rw [hcheck] at h
      cases h
    · rw [hcheck] at h hreport
      obtain rfl := Except.ok.inj h
      obtain ⟨entries, hlisted, hoffsets, -, hchecked⟩ :=
        (checkEntries_eq_some _ _).1 (congrArg Prod.fst hcheck)
      obtain rfl := length_fileEntries hlisted
      exact ⟨hpath, hinit, hready, image, table, entries,
        ⟨hread, hheader, hlisted, hoffsets, hchecked⟩, hreport.2, hreport.1⟩

/-- The parameters that a file is for: each is in the registry and of its table, takes a value, and
is alone if it has an `apply`. -/
structure Listed (b : Build) (s : Service) (table : UInt8) (entries : List FileEntry)
    (accepted : List (Entry × Value)) : Prop where
  ids : (accepted.map (·.1.info.id)).Nodup
  mem : ∀ found ∈ accepted, found.1 ∈ s.entries ∧ found.1.info.readOnly = false ∧
    ∃ entry ∈ entries, found.1.info.table = table ∧ found.1.info.offset = entry.offset ∧
      wireDecode b.toConfig found.1 entry.type entry.value = .ok found.2
  all : ∀ entry ∈ entries, ∃ found ∈ accepted, found.1.info.table = table ∧
    found.1.info.offset = entry.offset ∧
      wireDecode b.toConfig found.1 entry.type entry.value = .ok found.2
  alone : ∀ found ∈ accepted, found.1.definition.apply.isSome = true → accepted.length = 1
  length : accepted.length = entries.length

theorem Accepts.listed' {table : UInt8} (h : Accepts b s r image table entries accepted)
    (hacc : Param.Accepted b.toConfig s) : Listed b s table entries accepted := by
  have hlength := h.checked.length_eq
  have hone : ∀ entry found, checkEntry b s entries.length table entry = .ok found →
      found.1 ∈ s.entries ∧ found.1.info.readOnly = false ∧ found.1.info.table = table ∧
        found.1.info.offset = entry.offset ∧
        (found.1.definition.apply.isSome = true → entries.length = 1) ∧
        wireDecode b.toConfig found.1 entry.type entry.value = .ok found.2 := by
    intro entry found hcheck
    obtain ⟨hfind, hreadOnly, happly, hdecode⟩ := checkEntry_eq_ok.1 hcheck
    obtain ⟨hmem, hid⟩ := (hacc.find _ _).1 hfind
    obtain ⟨htable, hoffset⟩ := wireId_inj ((hacc.admitted _ hmem).id.symm.trans hid)
    exact ⟨hmem, hreadOnly, htable, hoffset, by simpa using happly, hdecode⟩
  refine ⟨?_, ?_, ?_, ?_, hlength.symm⟩
  · -- The identifiers are those of the offsets.
    have hids : accepted.map (·.1.info.id) = entries.map fun e => wireId table e.offset := by
      refine List.ext_getElem (by simp [hlength]) fun i hi hi' => ?_
      simp only [List.length_map] at hi hi'
      have hcheck := h.checked.get hi' hi
      obtain ⟨hfind, -⟩ := checkEntry_eq_ok.1 hcheck
      simpa using ((hacc.find _ _).1 hfind).2
    rw [hids]
    have hmap := h.offsets.map (f := wireId table) fun _ _ heq => (wireId_inj heq).2
    rwa [List.map_map] at hmap
  · intro found hfound
    obtain ⟨i, hi, rfl⟩ := List.mem_iff_getElem.1 hfound
    have hcheck := h.checked.get (by omega) hi
    obtain ⟨hmem, hreadOnly, htable, hoffset, -, hdecode⟩ := hone _ _ hcheck
    exact ⟨hmem, hreadOnly, _, List.getElem_mem _, htable, hoffset, hdecode⟩
  · intro entry hentry
    obtain ⟨i, hi, rfl⟩ := List.mem_iff_getElem.1 hentry
    have hcheck := h.checked.get hi (by omega)
    obtain ⟨-, -, htable, hoffset, -, hdecode⟩ := hone _ _ hcheck
    exact ⟨_, List.getElem_mem _, htable, hoffset, hdecode⟩
  · intro found hfound happly
    obtain ⟨i, hi, rfl⟩ := List.mem_iff_getElem.1 hfound
    have hcheck := h.checked.get (by omega) hi
    rw [← hlength]
    exact (hone _ _ hcheck).2.2.2.2.1 happly

/-! ### The passes of a load -/

variable {values : List (Entry × Value)}

/-- The pass that keeps the stored values keeps all of them. -/
theorem keepStored_eq (h : ∀ found ∈ values, 0 < entryCapacity found.1) (index : ℕ) :
    keepStored b n values index = .ok (values.map fun found =>
      ⟨found.1.info.id, readCells b.toConfig found.1 (n.storage found.1.info.id)⟩) := by
  induction values generalizing index with
  | nil => rfl
  | cons found values ih =>
    have hread : n.readStoredEntry b.toConfig found.1 =
        .ok (readCells b.toConfig found.1 (n.storage found.1.info.id)) :=
      if_neg (Nat.pos_iff_ne_zero.1 (h found List.mem_cons_self))
    rw [keepStored, hread]
    dsimp only
    rw [ih fun f hf => h f (List.mem_cons_of_mem _ hf)]
    rfl

variable {index : ℕ}

/-- **The pass that applies**, when it returns 0, has stored every value and nothing else. -/
theorem applyEntries_ok (hids : (values.map (·.1.info.id)).Nodup)
    (h : (applyEntries owner values index n).1 = none) :
    (applyEntries owner values index n).2.service = n.service ∧
      (∀ found ∈ values, (applyEntries owner values index n).2.storage found.1.info.id =
        put found.1 found.2 (n.storage found.1.info.id)) ∧
      ∀ id, (∀ found ∈ values, found.1.info.id ≠ id) →
        (applyEntries owner values index n).2.storage id = n.storage id := by
  induction values generalizing index n with
  | nil => exact ⟨rfl, by simp, fun _ _ => rfl⟩
  | cons found values ih =>
    obtain ⟨entry, value⟩ := found
    obtain ⟨hnotin, hids⟩ := List.nodup_cons.1 hids
    have hstorage := Node.wireApply_storage owner entry value n
    have hservice : (n.wireApply owner entry value).2.service = n.service :=
      Node.wireApply_service
    unfold applyEntries at h ⊢
    rcases hwrite : n.wireApply owner entry value with ⟨_ | e, m⟩
    · rw [hwrite] at h hstorage hservice
      dsimp only at h hstorage hservice ⊢
      rw [if_pos rfl] at hstorage
      obtain ⟨hrest, hstored, hother⟩ := ih hids h
      have hfirst : ∀ found ∈ values, found.1.info.id ≠ entry.info.id := fun found hfound heq =>
        hnotin (List.mem_map.2 ⟨found, hfound, heq⟩)
      refine ⟨hrest.trans hservice, fun found hfound => ?_, fun id hid => ?_⟩
      · rcases List.mem_cons.1 hfound with rfl | hfound
        · rw [hother _ hfirst, hstorage]
          exact Function.update_self _ _ _
        · rw [hstored found hfound, hstorage]
          exact congrArg _ (Function.update_of_ne (hfirst found hfound) _ _)
      · rw [hother id fun f hf => hid f (List.mem_cons_of_mem _ hf), hstorage]
        exact Function.update_of_ne (hid _ List.mem_cons_self).symm _ _
    · rw [hwrite] at h
      cases h

/-- Without an `apply` nothing is refused. -/
theorem applyEntries_infallible (h : ∀ found ∈ values, found.1.definition.apply = none) :
    (applyEntries owner values index n).1 = none := by
  induction values generalizing index n with
  | nil => rfl
  | cons found values ih =>
    obtain ⟨entry, value⟩ := found
    have hresult : (n.wireApply owner entry value).1 = none :=
      Node.wireApply_infallible (h _ List.mem_cons_self)
    unfold applyEntries
    rcases hwrite : n.wireApply owner entry value with ⟨_ | e, m⟩
    · exact ih fun f hf => h f (List.mem_cons_of_mem _ hf)
    · rw [hwrite] at hresult
      cases hresult

/-- **The pass that applies**, when it fails, has stored nothing. -/
theorem applyEntries_error {e : Refusal}
    (halone : ∀ found ∈ values, found.1.definition.apply.isSome = true → values.length = 1)
    (h : (applyEntries owner values index n).1 = some e) :
    (applyEntries owner values index n).2.service = n.service ∧
      (applyEntries owner values index n).2.storage = n.storage ∧
      (owner.Quiet → (applyEntries owner values index n).2 = n) := by
  obtain ⟨found, hfound, happly⟩ :
      ∃ found ∈ values, found.1.definition.apply.isSome = true := by
    by_contra hnone
    have hall : ∀ found ∈ values, found.1.definition.apply = none := fun found hfound => by
      simpa using fun hsome => hnone ⟨found, hfound, hsome⟩
    rw [applyEntries_infallible hall] at h
    cases h
  obtain ⟨⟨entry, value⟩, rfl⟩ := List.length_eq_one_iff.1 (halone found hfound happly)
  unfold applyEntries at h ⊢
  rcases hwrite : n.wireApply owner entry value with ⟨_ | e', m⟩
  · rw [hwrite] at h
    cases h
  · obtain ⟨hrefused, hsame⟩ := Node.wireApply_error (congrArg Prod.fst hwrite)
    rw [hwrite] at hsame
    dsimp only at hsame ⊢
    rw [hsame]
    refine ⟨rfl, rfl, fun hquiet => ?_⟩
    rw [hquiet entry value.scalar n.owner (by rw [hrefused]; exact fun h => by cases h)]

/-- A parameter that is not among them reads as before. -/
theorem applyEntries_current_of_ne (index : ℕ) {other : Entry}
    (hlaw : owner.Coherent b.toConfig n.service.entries)
    (hmem : ∀ found ∈ values, found.1 ∈ n.service.entries) (hother : other ∈ n.service.entries)
    (hne : ∀ found ∈ values, found.1.info.id ≠ other.info.id) :
    (applyEntries owner values index n).2.current b.toConfig owner other =
      n.current b.toConfig owner other := by
  induction values generalizing index n with
  | nil => rfl
  | cons found values ih =>
    obtain ⟨entry, value⟩ := found
    have hfirst := hlaw.current_wireApply_of_ne value (hmem _ List.mem_cons_self)
      hother (hne _ List.mem_cons_self)
    have hservice : (n.wireApply owner entry value).2.service = n.service :=
      Node.wireApply_service
    unfold applyEntries
    rcases hwrite : n.wireApply owner entry value with ⟨_ | e, m⟩
    · rw [hwrite] at hfirst hservice
      dsimp only at hfirst hservice ⊢
      rw [← hfirst]
      refine ih _ (hservice ▸ hlaw) (fun f hf => ?_) (hservice ▸ hother) fun f hf =>
        hne f (List.mem_cons_of_mem _ hf)
      rw [hservice]
      exact hmem f (List.mem_cons_of_mem _ hf)
    · rw [hwrite] at hfirst
      exact hfirst

/-- **What is read of the parameters after the pass.** -/
theorem applyEntries_current (hacc : Param.Accepted b.toConfig n.service)
    (hlaw : owner.Coherent b.toConfig n.service.entries)
    (hmem : ∀ found ∈ values, found.1 ∈ n.service.entries)
    (hids : (values.map (·.1.info.id)).Nodup)
    (hvalid : ∀ found ∈ values, validateEntry found.1 found.2 = none)
    (hdata : ∀ found ∈ values, found.2.type = .DATA →
      found.2.size = entryCapacity found.1 ∧ found.2.size ≤ found.2.bytes.length)
    (h : (applyEntries owner values index n).1 = none) :
    ∀ found ∈ values, (applyEntries owner values index n).2.current b.toConfig owner found.1 =
      if (owner.sample found.1).isSome = true ∧ found.1.heard = false then
        n.current b.toConfig owner found.1
      else stored b.toConfig found.1 found.2 := by
  induction values generalizing index n with
  | nil => exact fun _ hfound => absurd hfound List.not_mem_nil
  | cons found values ih =>
    obtain ⟨entry, value⟩ := found
    obtain ⟨hnotin, hids⟩ := List.nodup_cons.1 hids
    have hentry := hmem _ List.mem_cons_self
    have hmem' : ∀ f ∈ values, f.1 ∈ n.service.entries := fun f hf =>
      hmem f (List.mem_cons_of_mem _ hf)
    have hfirst : ∀ f ∈ values, f.1.info.id ≠ entry.info.id := fun f hf heq =>
      hnotin (List.mem_map.2 ⟨f, hf, heq⟩)
    have hservice : (n.wireApply owner entry value).2.service = n.service :=
      Node.wireApply_service
    have hread := hlaw.current_wireApply (hacc.admitted _ hentry) hentry hacc.initialized
      (hvalid _ List.mem_cons_self) (hdata _ List.mem_cons_self)
    have hother := fun f hf => hlaw.current_wireApply_of_ne value hentry
      (hmem' f hf) (hfirst f hf).symm
    unfold applyEntries at h ⊢
    rcases hwrite : n.wireApply owner entry value with ⟨_ | e, m⟩
    · rw [hwrite] at h hread hother hservice
      dsimp only at h hread hother hservice ⊢
      intro found hfound
      rcases List.mem_cons.1 hfound with rfl | hfound
      · rw [applyEntries_current_of_ne _ (hservice ▸ hlaw) (hservice ▸ hmem') (hservice ▸ hentry)
          hfirst]
        exact hread rfl
      · rw [ih (hservice ▸ hacc) (hservice ▸ hlaw) (hservice ▸ hmem') hids
          (fun f hf => hvalid f (List.mem_cons_of_mem _ hf))
          (fun f hf => hdata f (List.mem_cons_of_mem _ hf)) h found hfound, hother found hfound]
    · rw [hwrite] at h
      cases h

/-- A build with room for four entries. -/
def smallTables : Build := { smallBuild with
  maxEntries := 4, stringRange := by decide, entriesRange := by decide }

namespace Tables

variable {t : Tables ω}

/-- A node on which nothing has been loaded yet. -/
def fresh (n : Node ω) : Tables ω := ⟨n, [], ⟨.EMPTY, 0, 0, 0, 0, 0, CString.empty⟩⟩

/-- What a load comes to: it is refused, or the values of an accepted file have been applied. -/
theorem load_cases (hacc : Param.Accepted b.toConfig t.node.service) (owner : Owner ω)
    (path : Option CString) (r : Reading) :
    (∃ e n report, t.load b owner path r =
        (some e, report, { t with
          node := n, status := { t.status with rejections := countUp t.status.rejections } }) ∧
        n.service = t.node.service ∧ n.storage = t.node.storage ∧
        (owner.Quiet → n = t.node)) ∨
      ∃ image table entries accepted n, (validPath path).isSome = true ∧ r.ready = true ∧
        Accepts b t.node.service r image table entries accepted ∧
        Listed b t.node.service table entries accepted ∧
        applyEntries owner accepted 0 t.node = (none, n) ∧
        (t.load b owner path r).1 = none ∧
        (t.load b owner path r).2.1.entries = entries.length ∧
        (t.load b owner path r).2.2 =
          { node := n
            saved := accepted.map fun found =>
              ⟨found.1.info.id,
                readCells b.toConfig found.1 (t.node.storage found.1.info.id)⟩
            status :=
              { t.status with
                state := .LOADED
                table := table
                entries := entries.length
                loads := countUp t.status.loads
                path := (path.getD CString.empty).take (tablePathSize - 1) } } := by
  unfold load
  rcases hexamine : examine b t.node.service path r with ⟨e | accepted, report⟩
  · exact Or.inl ⟨e, t.node, _, rfl, rfl, rfl, fun _ => rfl⟩
  · have hok := examine_ok (congrArg Prod.fst hexamine)
    rw [hexamine] at hok
    obtain ⟨hpath, -, hready, image, table, entries, haccepts, htable, hcount⟩ := hok
    have hlisted := haccepts.listed' hacc
    dsimp only at htable hcount ⊢
    rw [keepStored_eq fun found hfound =>
      (hacc.admitted _ (hlisted.mem found hfound).1).capacity_pos]
    rcases happly : applyEntries owner accepted 0 t.node with ⟨_ | e, n⟩
    · refine Or.inr ⟨image, table, entries, accepted, n, hpath, hready, haccepts, hlisted, happly,
        rfl, hcount, ?_⟩
      dsimp only
      rw [htable, hcount]
    · have herror := applyEntries_error hlisted.alone (congrArg Prod.fst happly)
      rw [happly] at herror
      exact Or.inl ⟨e.reason, n, _, rfl, herror⟩

/-- **A load is all or nothing.**  A load that does not return 0 leaves every storage, the kept values
and the status as they were, except that the refusal is counted, and the owners if a failing `apply`
does.  After one that returns 0, the file has been read to its end, its offsets are different ones,
each of its entries is for a parameter of its table that is not read-only and now holds the decoded
value, and every other storage is as it was. -/
theorem load_all_or_nothing {sets : List (Option DefinitionSet)}
    (h : Param.init b.toConfig sets Service.boot = (none, t.node.service)) (owner : Owner ω)
    (path : Option CString) (r : Reading) :
    ((t.load b owner path r).1 ≠ none →
      (t.load b owner path r).2.2.node.storage = t.node.storage ∧
        (t.load b owner path r).2.2.saved = t.saved ∧
        (t.load b owner path r).2.2.status =
          { t.status with rejections := countUp t.status.rejections } ∧
        (owner.Quiet → (t.load b owner path r).2.2.node = t.node)) ∧
      ((t.load b owner path r).1 = none →
        ∃ image table entries, readImage b r = .ok image ∧
          validateHeader b image = .ok (entries.length, table) ∧
          fileEntries b image entries.length tableHeaderSize = some (entries, image.length) ∧
          (entries.map FileEntry.offset).Nodup ∧
          (∀ entry ∈ entries, ∃ param ∈ t.node.service.entries, ∃ value,
            param.info.table = table ∧ param.info.offset = entry.offset ∧
              param.info.readOnly = false ∧
              wireDecode b.toConfig param entry.type entry.value = .ok value ∧
              readCells b.toConfig param
                ((t.load b owner path r).2.2.node.storage param.info.id) = value.settled) ∧
          ∀ param ∈ t.node.service.entries,
            (∀ entry ∈ entries, ¬(param.info.table = table ∧ param.info.offset = entry.offset)) →
              (t.load b owner path r).2.2.node.storage param.info.id =
                t.node.storage param.info.id) := by
  have hacc := init_accepted h
  rcases load_cases hacc owner path r with
    ⟨e, n, report, hload, -, hstorage, hquiet⟩ |
      ⟨image, table, entries, accepted, n, -, -, haccepts, hlisted, happly, hresult, -, hload⟩
  · rw [hload]
    exact ⟨fun _ => ⟨hstorage, rfl, rfl, hquiet⟩, fun h => by cases h⟩
  · refine ⟨fun hne => absurd hresult hne, fun _ => ?_⟩
    obtain ⟨-, hstored, hother⟩ := applyEntries_ok hlisted.ids (congrArg Prod.fst happly)
    rw [happly] at hstored hother
    rw [hload]
    refine ⟨image, table, entries, haccepts.read, haccepts.header, haccepts.listed,
      haccepts.offsets, fun entry hentry => ?_, fun param hparam hnot => ?_⟩
    · obtain ⟨found, hfound, htable, hoffset, hdecode⟩ := hlisted.all entry hentry
      obtain ⟨hmem, hreadOnly, -⟩ := hlisted.mem found hfound
      have hadm := hacc.admitted _ hmem
      obtain ⟨hvalue, hfits, hsettled⟩ := wireDecode_ok hadm hdecode
      refine ⟨found.1, hmem, found.2, htable, hoffset, hreadOnly, hdecode, ?_⟩
      rw [← hsettled]
      show readCells b.toConfig found.1 (n.storage found.1.info.id) = _
      rw [hstored found hfound]
      exact readCells_put hadm (validateEntry_eq_none.1 hvalue).2.1 (hfits.data hvalue) _
    · refine hother _ fun found hfound hid => ?_
      obtain ⟨hmem, -, entry, hentry, htable, hoffset, -⟩ := hlisted.mem found hfound
      obtain rfl := hacc.eq_of_id hmem hparam hid
      exact hnot entry hentry ⟨htable, hoffset⟩

/-- A file of the table in which the byte is 5. -/
def tableWithFive : List UInt8 :=
  [75, 84, 66, 76, 0, 1, 0, 20, 0, 0, 0, 5, 0, 1, 1, 0, 243, 108, 24, 106, 0, 1, 0, 1, 5]

/-- It is loaded. -/
def loadFive : Option Errno × Report × Tables Unit :=
  (fresh (keptNode 9)).load smallTables .idle (some (.ofString "/t"))
    ⟨true, .ok (true, 25), none, [.ok tableWithFive], none⟩

/-- The byte is then the one that the file holds for it. -/
theorem load_five : loadFive.1 = none ∧ ∀ param ∈ (keptNode 9).service.entries,
    (readCells smallTables.toConfig param
      (loadFive.2.2.node.storage param.info.id)).scalar = 5 := by
  have hok : loadFive.1 = none := by decide +kernel
  obtain ⟨image, table, entries, hread, hheader, hentries, -, hall, -⟩ :=
    (load_all_or_nothing (b := smallTables) (t := fresh (keptNode 9)) (init_keptTable 9) .idle
      (some (.ofString "/t")) ⟨true, .ok (true, 25), none, [.ok tableWithFive], none⟩).2 hok
  obtain rfl : tableWithFive = image := Except.ok.inj hread
  have hwhole : validateHeader smallTables tableWithFive = .ok (1, 1) := by decide +kernel
  obtain ⟨hone, rfl⟩ := Prod.mk.inj (Except.ok.inj (hwhole.symm.trans hheader))
  rw [← hone] at hentries
  have hlisted : fileEntries smallTables tableWithFive 1 tableHeaderSize =
      some ([⟨0, 1, [5]⟩], 25) := by decide +kernel
  obtain ⟨rfl, -⟩ := Prod.mk.inj (Option.some.inj (hlisted.symm.trans hentries))
  obtain ⟨param, hparam, value, -, -, -, hdecode, hcells⟩ := hall _ List.mem_cons_self
  obtain rfl := List.mem_singleton.1 hparam
  refine ⟨hok, fun other hother => ?_⟩
  obtain rfl := List.mem_singleton.1 hother
  have hscalar := congrArg (fun result : Except Errno Value =>
    result.toOption.map fun value => value.settled.scalar) hdecode
  unfold loadFive
  rw [hcells]
  exact (Option.some.inj hscalar).symm

end Tables

end KfswServices.Table
