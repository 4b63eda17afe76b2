/-
# What a snapshot restores

`walk_snapshot` goes through the entries of the file one after the other (`walkSnapshot_eq`).  In
its first pass it writes nothing; an entry it would refuse is found there.  In its second pass only
an `apply` can refuse a value, and a parameter with an `apply` is alone in the file, so a load that
fails has written nothing (`persistLoad_all_or_nothing`).

A snapshot that has been built holds every persistent parameter of a type that a file carries, and
gives each its value back (`snapshot_round_trip`).
-/

import KfswServices.Param.Snapshot

namespace KfswServices.Param

open Library

/-! ### The entries of a file -/

namespace Node

variable {ω : Type} (cfg : Config) (owner : Owner ω)

/-- The entries of a snapshot, one after the other. -/
def walkEntries (entryCount : ℕ) (apply : Bool) :
    List PersistEntry → Node ω → Option Stop × Node ω
  | [], n => (none, n)
  | persist :: entries, n =>
    match n.walkEntry cfg owner entryCount apply persist with
    | (some e, n) => (some e, n)
    | (none, n) => walkEntries entryCount apply entries n

variable {cfg owner}

/-- The first of some entries, and the others. -/
theorem nextEntries_succ {data : List UInt8} {count offset last : ℕ} {entries : List PersistEntry}
    (h : nextEntries cfg data (count + 1) offset = .ok (entries, last)) :
    ∃ persist offset' rest, nextEntry cfg data offset = .ok (persist, offset') ∧
      nextEntries cfg data count offset' = .ok (rest, last) ∧ entries = persist :: rest := by
  unfold nextEntries at h
  cases hnext : nextEntry cfg data offset with
  | error e => rw [hnext] at h; cases h
  | ok next =>
    obtain ⟨persist, offset'⟩ := next
    rw [hnext] at h
    dsimp only at h
    cases hrest : nextEntries cfg data count offset' with
    | error e => rw [hrest] at h; cases h
    | ok rest =>
      rw [hrest] at h
      obtain ⟨rfl, rfl⟩ := Prod.mk.inj (Except.ok.inj h)
      exact ⟨persist, offset', rest.1, rfl, hrest, rfl⟩

/-- **`walk_snapshot` goes through the entries of the file.** -/
theorem walkSnapshot_eq {data : List UInt8} {entryCount count offset last : ℕ} {apply : Bool}
    {entries : List PersistEntry}
    (h : nextEntries cfg data count offset = .ok (entries, last)) (n : Node ω) :
    n.walkSnapshot cfg owner data entryCount apply count offset =
      n.walkEntries cfg owner entryCount apply entries := by
  induction count generalizing offset entries n with
  | zero =>
    obtain ⟨rfl, -⟩ := Prod.mk.inj (Except.ok.inj h)
    rfl
  | succ count ih =>
    obtain ⟨persist, offset', rest, hnext, hrest, rfl⟩ := nextEntries_succ h
    rw [walkSnapshot, hnext, walkEntries]
    dsimp only
    rcases n.walkEntry cfg owner entryCount apply persist with ⟨_ | e, m⟩
    · exact ih hrest m
    · rfl

theorem length_nextEntries {data : List UInt8} {count offset last : ℕ} {entries : List PersistEntry}
    (h : nextEntries cfg data count offset = .ok (entries, last)) : entries.length = count := by
  induction count generalizing offset entries with
  | zero =>
    obtain ⟨rfl, -⟩ := Prod.mk.inj (Except.ok.inj h)
    rfl
  | succ count ih =>
    obtain ⟨persist, offset', rest, -, hrest, rfl⟩ := nextEntries_succ h
    rw [List.length_cons, ih hrest]

end Node

/-! ### One entry -/

/-- The parameter that an entry is for: it has the name, it is persistent, and the type and the
size are its own. -/
def addressed (s : Service) (persist : PersistEntry) : Option Entry :=
  (findName s (CString.scan persist.name)).filter fun entry =>
    entry.persistent && entryMatches entry persist

/-- The value that an entry has for a parameter. -/
def taken (cfg : Config) (s : Service) (persist : PersistEntry) : Option (Entry × Value) :=
  (addressed s persist).bind fun entry =>
    match wireDecode cfg entry persist.type persist.value with
    | .error _ => none
    | .ok value => some (entry, value)

variable {persist : PersistEntry} {entry : Entry}

theorem taken_eq_some {cfg : Config} {s : Service} {value : Value} :
    taken cfg s persist = some (entry, value) ↔ addressed s persist = some entry ∧
        wireDecode cfg entry persist.type persist.value = .ok value := by
  unfold taken
  constructor
  · intro h
    obtain ⟨entry', haddressed, hvalue⟩ := Option.bind_eq_some_iff.1 h
    cases hdecode : wireDecode cfg entry' persist.type persist.value with
    | error e => rw [hdecode] at hvalue; cases hvalue
    | ok v =>
      rw [hdecode] at hvalue
      obtain ⟨rfl, rfl⟩ := Prod.mk.inj (Option.some.inj hvalue)
      exact ⟨haddressed, hdecode⟩
  · rintro ⟨haddressed, hdecode⟩
    rw [haddressed, Option.bind_some, hdecode]

theorem addressed_eq_some {s : Service} :
    addressed s persist = some entry ↔ findName s (CString.scan persist.name) = some entry ∧
      entry.persistent = true ∧ entryMatches entry persist = true := by
  rw [addressed, Option.filter_eq_some_iff, Bool.and_eq_true]

/-- The entry is for a parameter with an `apply`, and not the only one. -/
def Mixed (s : Service) (entryCount : ℕ) (persist : PersistEntry) : Prop :=
  ∃ entry, addressed s persist = some entry ∧ entry.definition.apply.isSome = true ∧ entryCount ≠ 1

namespace Node

variable {ω : Type} {cfg : Config} {owner : Owner ω}

/-- **What becomes of an entry.** -/
theorem walkEntry_cases (cfg : Config) (owner : Owner ω) (entryCount : ℕ) (apply : Bool)
    (persist : PersistEntry) (n : Node ω) :
    (Mixed n.service entryCount persist ∧
        n.walkEntry cfg owner entryCount apply persist = (some (.errno .ENOTSUP), n)) ∨
      ¬ Mixed n.service entryCount persist ∧
        ((taken cfg n.service persist = none ∧
            n.walkEntry cfg owner entryCount apply persist = (none, n)) ∨
          ∃ entry value, taken cfg n.service persist = some (entry, value) ∧
            n.walkEntry cfg owner entryCount apply persist =
              if apply then
                ((n.wireApply owner entry value).1.map .errno, (n.wireApply owner entry value).2)
              else (none, n)) := by
  unfold walkEntry taken Mixed addressed
  cases hfind : findName n.service (CString.scan persist.name) with
  | none => simp
  | some entry =>
    cases hpersistent : entry.persistent
    · simp [hpersistent]
    · cases hmatches : entryMatches entry persist
      · simp [hmatches]
      · by_cases hmixed : entry.definition.apply.isSome = true ∧ entryCount ≠ 1
        · simp [hpersistent, hmatches, hmixed]
        · cases hdecode : wireDecode cfg entry persist.type persist.value with
          | error e => simp [hpersistent, hmatches, hmixed, hdecode]
          | ok value =>
            refine Or.inr ⟨?_, Or.inr ⟨entry, value, ?_, ?_⟩⟩
            · rintro ⟨other, hother, hmixed'⟩
              obtain rfl := Option.some.inj (Option.filter_eq_some_iff.1 hother).1
              exact hmixed hmixed'
            · simp [Option.filter, hpersistent, hmatches, hdecode]
            · simp [hpersistent, hmatches, hmixed, hdecode]

theorem walkEntry_service (cfg : Config) (owner : Owner ω) (entryCount : ℕ) (apply : Bool)
    (persist : PersistEntry) (n : Node ω) :
    (n.walkEntry cfg owner entryCount apply persist).2.service = n.service := by
  rcases walkEntry_cases cfg owner entryCount apply persist n with
    ⟨-, h⟩ | ⟨-, ⟨-, h⟩ | ⟨entry, value, -, h⟩⟩
  · rw [h]
  · rw [h]
  · rw [h]
    split_ifs
    · exact wireApply_service
    · rfl

theorem walkSnapshot_service (cfg : Config) (owner : Owner ω) (data : List UInt8)
    (entryCount : ℕ) (apply : Bool) (count offset : ℕ) (n : Node ω) :
    (n.walkSnapshot cfg owner data entryCount apply count offset).2.service = n.service := by
  induction count generalizing offset n with
  | zero => rfl
  | succ count ih =>
    unfold walkSnapshot
    rcases nextEntry cfg data offset with e | ⟨persist, next⟩
    · rfl
    · have hservice := walkEntry_service cfg owner entryCount apply persist n
      dsimp only
      rcases hwalk : n.walkEntry cfg owner entryCount apply persist with ⟨_ | e, m⟩
      · rw [hwalk] at hservice
        exact (ih next m).trans hservice
      · rw [hwalk] at hservice
        exact hservice

theorem applySnapshot_service (cfg : Config) (owner : Owner ω) (data : List UInt8)
    (entryCount : ℕ) (n : Node ω) :
    (n.applySnapshot cfg owner data entryCount).2.service = n.service := by
  have hfirst := walkSnapshot_service cfg owner data entryCount false entryCount persistHeaderSize n
  unfold applySnapshot
  rcases hwalk : n.walkSnapshot cfg owner data entryCount false entryCount persistHeaderSize with
    ⟨_ | e, m⟩
  · rw [hwalk] at hfirst
    exact (walkSnapshot_service _ _ _ _ _ _ _ m).trans hfirst
  · rw [hwalk] at hfirst
    exact hfirst

/-- **The first pass** writes nothing, and refuses a file with a mixed entry. -/
theorem walkEntries_check (cfg : Config) (owner : Owner ω) (entryCount : ℕ)
    (entries : List PersistEntry) (n : Node ω) :
    (n.walkEntries cfg owner entryCount false entries).2 = n ∧
      ((n.walkEntries cfg owner entryCount false entries).1 = none ↔
        ∀ persist ∈ entries, ¬ Mixed n.service entryCount persist) ∧
      (n.walkEntries cfg owner entryCount false entries).1 ≠ some .outside := by
  induction entries with
  | nil => exact ⟨rfl, by simp [walkEntries], fun h => by cases h⟩
  | cons persist entries ih =>
    unfold walkEntries
    rcases walkEntry_cases cfg owner entryCount false persist n with
      ⟨hmixed, h⟩ | ⟨hmixed, ⟨-, h⟩ | ⟨entry, value, -, h⟩⟩
    · rw [h]
      exact ⟨rfl, by simp [hmixed], fun h => by cases h⟩
    all_goals
      rw [h]
      refine ⟨ih.1, ih.2.1.trans ?_, ih.2.2⟩
      simp [hmixed]

/-- What the second pass leaves in the storage of an identifier: no entry has a value for it and
it is unchanged, or it is the value of one of the entries. -/
def Restored (cfg : Config) (entries : List PersistEntry) (n m : Node ω) (id : UInt16) : Prop :=
  (m.storage id = n.storage id ∧ ∀ persist ∈ entries, ∀ entry value,
      taken cfg n.service persist = some (entry, value) → entry.info.id ≠ id) ∨
    ∃ persist ∈ entries, ∃ entry value, taken cfg n.service persist = some (entry, value) ∧
      entry.info.id = id ∧ ∃ cells, m.storage id = put entry value cells

/-- A written value stays until the next one. -/
theorem Restored.cons {entries : List PersistEntry} {n m u : Node ω} {id : UInt16}
    (h : Restored cfg entries m u id) (hservice : m.service = n.service)
    (hfirst : Restored cfg [persist] n m id) : Restored cfg (persist :: entries) n u id := by
  unfold Restored at *
  rw [hservice] at h
  rcases h with ⟨hsame, hnone⟩ | ⟨other, hother, entry, value, htaken, hid, cells, hput⟩
  · rcases hfirst with ⟨hsame', hnone'⟩ | ⟨other, hother, entry, value, htaken, hid, cells, hput⟩
    · refine Or.inl ⟨hsame.trans hsame', fun other hother => ?_⟩
      rcases List.mem_cons.1 hother with rfl | hother
      · exact hnone' other List.mem_cons_self
      · exact hnone other hother
    · obtain rfl := List.mem_singleton.1 hother
      exact Or.inr ⟨other, List.mem_cons_self, entry, value, htaken, hid, cells, hsame.trans hput⟩
  · exact Or.inr ⟨other, List.mem_cons_of_mem _ hother, entry, value, htaken, hid, cells, hput⟩

/-- One entry of the second pass, when it is written. -/
theorem restored_wireApply {value : Value} {n : Node ω}
    (htaken : taken cfg n.service persist = some (entry, value))
    (hresult : (n.wireApply owner entry value).1 = none) (id : UInt16) :
    Restored cfg [persist] n (n.wireApply owner entry value).2 id := by
  unfold Restored
  rw [wireApply_storage, if_pos hresult]
  by_cases hid : id = entry.info.id
  · refine Or.inr ⟨persist, List.mem_singleton_self _, entry, value, htaken, hid.symm,
      n.storage entry.info.id, ?_⟩
    rw [hid]
    exact Function.update_self _ _ _
  · refine Or.inl ⟨Function.update_of_ne hid _ _, fun other hother entry' value' htaken' => ?_⟩
    obtain rfl := List.mem_singleton.1 hother
    obtain ⟨rfl, -⟩ := Prod.mk.inj (Option.some.inj (htaken.symm.trans htaken'))
    exact fun h => hid h.symm

/-- **The second pass**: each entry that has a value is written and the last one stays, unless an
`apply` refuses one. -/
theorem walkEntries_apply (cfg : Config) (owner : Owner ω) (entryCount : ℕ)
    (entries : List PersistEntry) (n : Node ω)
    (hmixed : ∀ persist ∈ entries, ¬ Mixed n.service entryCount persist)
    (hinfallible : ∀ persist ∈ entries, ∀ entry value,
      taken cfg n.service persist = some (entry, value) → entry.definition.apply = none) :
    (n.walkEntries cfg owner entryCount true entries).1 = none ∧
      ∀ id, Restored cfg entries n (n.walkEntries cfg owner entryCount true entries).2 id := by
  induction entries generalizing n with
  | nil => exact ⟨rfl, fun id => Or.inl ⟨rfl, fun _ h => absurd h List.not_mem_nil⟩⟩
  | cons persist entries ih =>
    unfold walkEntries
    rcases walkEntry_cases cfg owner entryCount true persist n with
      ⟨h, -⟩ | ⟨-, ⟨hnone, h⟩ | ⟨entry, value, htaken, h⟩⟩
    · exact absurd h (hmixed persist List.mem_cons_self)
    · rw [h]
      obtain ⟨hresult, hrest⟩ := ih n (fun p hp => hmixed p (List.mem_cons_of_mem _ hp))
        fun p hp => hinfallible p (List.mem_cons_of_mem _ hp)
      refine ⟨hresult, fun id => (hrest id).cons rfl (Or.inl ⟨rfl, fun p hp entry value ht => ?_⟩)⟩
      rw [List.mem_singleton.1 hp, hnone] at ht
      cases ht
    · have hresult : (n.wireApply owner entry value).1 = none :=
        wireApply_infallible (hinfallible persist List.mem_cons_self entry value htaken)
      rw [h, if_pos rfl, hresult]
      have hservice : (n.wireApply owner entry value).2.service = n.service := wireApply_service
      obtain ⟨hresult', hrest⟩ := ih (n.wireApply owner entry value).2
        (fun p hp => hservice ▸ hmixed p (List.mem_cons_of_mem _ hp))
        (fun p hp => hservice ▸ hinfallible p (List.mem_cons_of_mem _ hp))
      exact ⟨hresult', fun id => (hrest id).cons hservice (restored_wireApply htaken hresult id)⟩

/-- **A load that fails writes nothing**, and one that does not writes what its entries have. -/
theorem applySnapshot_cases (cfg : Config) (owner : Owner ω) {data : List UInt8}
    {entryCount last : ℕ} {entries : List PersistEntry}
    (h : nextEntries cfg data entryCount persistHeaderSize = .ok (entries, last)) (n : Node ω) :
    (n.applySnapshot cfg owner data entryCount).1 ≠ some .outside ∧
      (((n.applySnapshot cfg owner data entryCount).1 ≠ none ∧
          (n.applySnapshot cfg owner data entryCount).2.storage = n.storage) ∨
        ((n.applySnapshot cfg owner data entryCount).1 = none ∧
          ∀ id, Restored cfg entries n (n.applySnapshot cfg owner data entryCount).2 id)) := by
  unfold applySnapshot
  rw [walkSnapshot_eq h]
  obtain ⟨hnode, hmixed, hinside⟩ := walkEntries_check cfg owner entryCount
    entries n
  rcases hcheck : n.walkEntries cfg owner entryCount false entries with ⟨result, m⟩
  rw [hcheck] at hnode hmixed hinside
  obtain rfl : m = n := hnode
  cases result with
  | some e => exact ⟨hinside, Or.inl ⟨fun h => (by cases h), rfl⟩⟩
  | none =>
    dsimp only
    rw [walkSnapshot_eq h]
    replace hmixed := hmixed.1 rfl
    by_cases hcount : entryCount = 1
    · -- The only entry may be for a parameter with an `apply`.
      have hlen := length_nextEntries h
      rw [hcount] at hlen
      obtain ⟨persist, rfl⟩ := List.length_eq_one_iff.1 hlen
      unfold walkEntries
      rcases walkEntry_cases cfg owner entryCount true persist m with
        ⟨h, -⟩ | ⟨-, ⟨hnone, h⟩ | ⟨entry, value, htaken, h⟩⟩
      · exact absurd h (hmixed persist List.mem_cons_self)
      · rw [h]
        refine ⟨fun h => (by cases h), Or.inr ⟨rfl, fun id => Or.inl ⟨rfl, fun p hp e v ht => ?_⟩⟩⟩
        rw [List.mem_singleton.1 hp, hnone] at ht
        cases ht
      · rw [h, if_pos rfl]
        cases hresult : (m.wireApply owner entry value).1 with
        | some e =>
          refine ⟨fun h => (by cases h), Or.inl ⟨fun h => (by cases h), ?_⟩⟩
          show (m.wireApply owner entry value).2.storage = m.storage
          rw [wireApply_storage, if_neg (by rw [hresult]; exact fun h => by cases h)]
        | none =>
          exact ⟨fun h => (by cases h), Or.inr ⟨rfl, restored_wireApply htaken hresult⟩⟩
    · obtain ⟨hresult, hrestored⟩ := walkEntries_apply cfg owner entryCount entries m hmixed
        fun persist hpersist entry value htaken => by
          by_contra happly
          exact hmixed persist hpersist ⟨entry, (taken_eq_some.1 htaken).1,
            Option.isSome_iff_ne_none.2 happly, hcount⟩
      rw [hresult]
      exact ⟨fun h => (by cases h), Or.inr ⟨rfl, hrestored⟩⟩

end Node

/-! ### The registry -/

namespace Accepted

variable {cfg : Config} {s : Service}

theorem eq_of_id (h : Accepted cfg s) {entry' : Entry} (hentry : entry ∈ s.entries)
    (hentry' : entry' ∈ s.entries) (hid : entry.info.id = entry'.info.id) : entry = entry' :=
  List.inj_on_of_nodup_map h.ids hentry hentry' hid

theorem findName_eq_some (h : Accepted cfg s) {name : CString} :
    findName s name = some entry ↔ entry ∈ s.entries ∧ entry.info.name = name := by
  unfold findName
  constructor
  · intro hfind
    exact ⟨List.mem_of_find?_eq_some hfind, by simpa using List.find?_some hfind⟩
  · rintro ⟨hmem, rfl⟩
    cases hfind : s.entries.find? (fun e => decide (e.info.name = entry.info.name)) with
    | none => exact absurd (by simp) (List.find?_eq_none.1 hfind entry hmem)
    | some other =>
      have hname : other.info.name = entry.info.name := by simpa using List.find?_some hfind
      rw [List.inj_on_of_nodup_map h.names (List.mem_of_find?_eq_some hfind) hmem hname]

end Accepted

/-- What `kfsw_param_get` returns. -/
theorem Node.get_eq {ω : Type} {cfg : Config} (owner : Owner ω) {n : Node ω}
    (h : Accepted cfg n.service) (name : CString) :
    (n.get cfg owner name).1 =
      match findName n.service name with
      | none => .error .ENOENT
      | some entry => .ok (n.current cfg owner entry) := by
  unfold get
  rw [h.initialized, if_neg (by simp)]
  cases hfind : findName n.service name with
  | none => rfl
  | some entry =>
    dsimp only
    rw [readEntry_eq (h.admitted entry (h.findName_eq_some.1 hfind).1).capacity_pos]

/-- **Reads return the same** exactly when the values are the same. -/
theorem Node.get_congr_iff {ω : Type} {cfg : Config} (owner : Owner ω) {n m : Node ω}
    (h : Accepted cfg n.service) (hservice : m.service = n.service) :
    (∀ name, (m.get cfg owner name).1 = (n.get cfg owner name).1) ↔
      ∀ entry ∈ n.service.entries, m.current cfg owner entry = n.current cfg owner entry := by
  constructor
  · intro hget entry hentry
    have hname := hget entry.info.name
    rw [Node.get_eq owner h, Node.get_eq owner (hservice ▸ h), hservice,
      h.findName_eq_some.2 ⟨hentry, rfl⟩] at hname
    exact Except.ok.inj hname
  · intro hcurrent name
    rw [Node.get_eq owner h, Node.get_eq owner (hservice ▸ h), hservice]
    cases hfind : findName n.service name with
    | none => rfl
    | some entry =>
      dsimp only
      rw [hcurrent entry (h.findName_eq_some.1 hfind).1]

/-! ### A load -/

/-- A table with one byte in it that survives a reset. -/
def keptTable : DefinitionSet :=
  ⟨1, some (.ofString "kept"), none, some [⟨0, .U8, 0, flagPersistent,
    some (.ofString "byte"), none, none, true, 7, none, none, none, false, none, false, none,
    false, none⟩]⟩

/-- Owners that keep nothing. -/
def Owner.idle : Owner Unit :=
  ⟨fun _ _ w => (none, w), fun _ _ w => w, fun _ _ w => w, fun _ _ w => w, fun _ => none⟩

/-- A node with that table, and `b` everywhere in its storage. -/
def keptNode (b : UInt8) : Node Unit :=
  ⟨(Param.init smallBuild [some keptTable] Service.boot).2, fun _ _ => b, ()⟩

theorem init_keptTable (b : UInt8) :
    Param.init smallBuild [some keptTable] Service.boot = (none, (keptNode b).service) :=
  have hok : (Param.init smallBuild [some keptTable] Service.boot).1 = none := by decide +kernel
  Prod.ext hok rfl

namespace Node

variable {ω : Type} {cfg : Config}

/-- **A load is all or nothing.**  No octet outside the file is read; a load that does not return 0
leaves every storage as it was; and after one that does, a storage that has changed is the one of a
persistent parameter and holds the value of an entry of the file that has its name, its type and its
size, and that its validator accepts. -/
theorem persistLoad_all_or_nothing {sets : List (Option DefinitionSet)} {n : Node ω}
    (h : Param.init cfg sets Service.boot = (none, n.service)) (owner : Owner ω) (r : Reading) :
    (n.persistLoad cfg owner r).1 ≠ some .outside ∧ ((n.persistLoad cfg owner r).1 ≠ none →
        (n.persistLoad cfg owner r).2.storage = n.storage) ∧ ((n.persistLoad cfg owner r).1 = none →
        ∃ size content count data entries, r.stat = .ok (true, size) ∧
          r.content .EMSGSIZE size = .ok content ∧
          validateSnapshot cfg content = .ok (count, data) ∧
          nextEntries cfg data count persistHeaderSize = .ok (entries, content.length) ∧
          ∀ entry ∈ n.service.entries,
            (n.persistLoad cfg owner r).2.storage entry.info.id = n.storage entry.info.id ∨
            entry.persistent = true ∧ ∃ persist ∈ entries,
              CString.scan persist.name = entry.info.name ∧ entryMatches entry persist = true ∧
              ∃ value, wireDecode cfg entry persist.type persist.value = .ok value ∧
                readCells cfg entry ((n.persistLoad cfg owner r).2.storage entry.info.id) =
                  value.settled) := by
  have hacc := init_accepted h
  unfold persistLoad
  by_cases hready : (!n.service.initialized || !r.ready) = true
  · rw [if_pos hready]
    exact ⟨fun h => (by cases h), fun _ => rfl, fun h => by cases h⟩
  rw [if_neg hready]
  rcases hstat : r.stat with e | ⟨isFile, size⟩
  · exact ⟨fun h => (by cases h), fun _ => rfl, fun h => by cases h⟩
  dsimp only
  by_cases hsize : (!isFile) = true ∨ size < persistHeaderSize ∨ persistMaxBytes < size
  · rw [if_pos hsize]
    exact ⟨fun h => (by cases h), fun _ => rfl, fun h => by cases h⟩
  rw [if_neg hsize]
  obtain rfl : isFile = true := by
    have := (not_or.1 hsize).1
    simpa using this
  rcases hcontent : r.content .EMSGSIZE size with e | content
  · exact ⟨fun h => (by cases h), fun _ => rfl, fun h => by cases h⟩
  dsimp only
  rcases hvalid : validateSnapshot cfg content with e | ⟨count, data⟩
  · refine ⟨fun h => ?_, fun _ => rfl, fun h => by cases h⟩
    obtain rfl := Option.some.inj h
    exact validateSnapshot_inside cfg content hvalid
  dsimp only
  obtain ⟨-, entries, hentries⟩ := validateSnapshot_ok hvalid
  obtain ⟨hinside, ⟨hne, hsame⟩ | ⟨hnone, hrestored⟩⟩ :=
    applySnapshot_cases cfg owner hentries n
  · exact ⟨hinside, fun _ => hsame, fun h => absurd h hne⟩
  · refine ⟨hinside, fun h => absurd hnone h, fun _ => ⟨size, content, count, data, entries, rfl,
      hcontent, hvalid, hentries, fun entry hentry => ?_⟩⟩
    rcases hrestored entry.info.id with ⟨hsame, -⟩ |
      ⟨persist, hpersist, entry', value, htaken, hid, cells, hput⟩
    · exact Or.inl hsame
    · obtain ⟨haddressed, hdecode⟩ := taken_eq_some.1 htaken
      obtain ⟨hfind, hpersistent, hmatches⟩ := addressed_eq_some.1 haddressed
      obtain ⟨hmem, hname⟩ := hacc.findName_eq_some.1 hfind
      obtain rfl := hacc.eq_of_id hmem hentry hid
      obtain ⟨hvalue, hfits, hstored⟩ := wireDecode_ok (hacc.admitted entry' hmem) hdecode
      refine Or.inr ⟨hpersistent, persist, hpersist, hname.symm, hmatches, value, hdecode, ?_⟩
      rw [hput, ← hstored]
      exact readCells_put (hacc.admitted entry' hmem) (validateEntry_eq_none.1 hvalue).2.1
        (hfits.data hvalue) cells

/-- The file of a snapshot in which the byte is 5. -/
def snapshotWithFive : List UInt8 :=
  [75, 80, 65, 82, 0, 1, 0, 20, 0, 0, 0, 9, 0, 1, 0, 0, 1, 35, 211, 56, 4, 1, 0, 1, 98, 121, 116,
    101, 5]

/-- It is read in two pieces. -/
def readingFive : Reading :=
  ⟨true, .ok (true, 29), none, [.ok (snapshotWithFive.take 20), .ok (snapshotWithFive.drop 20)],
    none⟩

/-- It is loaded, and the byte is the one that its entry holds. -/
theorem persistLoad_five : ((keptNode 9).persistLoad smallBuild .idle readingFive).1 = none ∧
      ∀ entry ∈ (keptNode 9).service.entries, (readCells smallBuild entry
        (((keptNode 9).persistLoad smallBuild .idle readingFive).2.storage
          entry.info.id)).scalar = 5 := by
  have hok : ((keptNode 9).persistLoad smallBuild .idle readingFive).1 = none := by decide +kernel
  obtain ⟨size, content, count, data, entries, hstat, hcontent, hvalid, hentries, hall⟩ :=
    (persistLoad_all_or_nothing (init_keptTable 9) .idle readingFive).2.2 hok
  obtain rfl : 29 = size := congrArg Prod.snd (Except.ok.inj hstat)
  have hread : readingFive.content .EMSGSIZE 29 = .ok snapshotWithFive := by decide +kernel
  obtain rfl := Except.ok.inj (hread.symm.trans hcontent)
  have hwhole : validateSnapshot smallBuild snapshotWithFive =
      .ok (1, splice 0 snapshotWithFive persistCrcOffset (putBe32 0)) := by decide +kernel
  obtain ⟨rfl, rfl⟩ := Prod.mk.inj (Except.ok.inj (hwhole.symm.trans hvalid))
  have hlisted : nextEntries smallBuild (splice 0 snapshotWithFive persistCrcOffset (putBe32 0)) 1
      persistHeaderSize = .ok ([⟨[98, 121, 116, 101], 1, [5]⟩], 29) := rfl
  obtain ⟨rfl, -⟩ := Prod.mk.inj (Except.ok.inj (hlisted.symm.trans hentries))
  refine ⟨hok, fun entry hentry => ?_⟩
  obtain rfl := List.mem_singleton.1 hentry
  rcases hall _ hentry with hsame | ⟨-, persist, hpersist, -, -, value, hdecode, hcells⟩
  · exact absurd (congrFun hsame 0) (by decide +kernel)
  · obtain rfl := List.mem_singleton.1 hpersist
    have hscalar := congrArg (fun result : Except Errno Value =>
      result.toOption.map fun value => value.settled.scalar) hdecode
    rw [hcells]
    exact (Option.some.inj hscalar).symm

end Node

/-! ### A save -/

/-- `kfsw_param_wire_type_of` has no code for these. -/
def Carried (type : ParamType) : Prop :=
  type ≠ .I8 ∧ type ≠ .U64 ∧ type ≠ .I64 ∧ type ≠ .X64 ∧ type ≠ .DOUBLE ∧ type ≠ .INVALID

instance (type : ParamType) : Decidable (Carried type) := by
  unfold Carried
  infer_instance

theorem carried_iff :
    Carried entry.info.type ↔ ∃ type size, wireTypeOf entry = .ok (type, size) := by
  unfold wireTypeOf
  cases entry.info.type <;> simp [Carried]

/-- The entry of a snapshot that holds the value of a parameter. -/
structure Saves {ω : Type} (cfg : Config) (owner : Owner ω) (n : Node ω) (entry : Entry)
    (persist : PersistEntry) : Prop where
  name : persist.name = entry.info.name.bytes
  matches_ : entryMatches entry persist = true
  value : wireDecode cfg entry persist.type persist.value = .ok (n.current cfg owner entry)
  holds : persist.Holds cfg

namespace Node

variable {ω : Type} {cfg : Config} {owner : Owner ω}

/-- **What `kfsw_param_wire_encode` writes** is decoded to the value of the parameter. -/
theorem wireEncode_eq {n : Node ω} {type : UInt8} {size : UInt16} (hadm : Admitted cfg entry)
    (hwire : wireTypeOf entry = .ok (type, size))
    (hvalid : validateEntry entry (n.current cfg owner entry) = none) (outputSize : ℕ) :
    ∃ octets, 0 < octets.length ∧ octets.length ≤ entryCapacity entry ∧
      octets.length = (wireSize type size (n.current cfg owner entry)).toNat ∧
      wireDecode cfg entry type octets = .ok (n.current cfg owner entry) ∧
      n.wireEncode cfg owner entry outputSize =
        (if outputSize < octets.length then .error .ENOSPC else .ok octets,
          n.sample owner entry) := by
  obtain ⟨octets, hencode, hsize, hpos, hle, hdecode⟩ := wireDecode_encodeValue hadm hwire hvalid
  refine ⟨octets, hpos, hle, hsize, hdecode, ?_⟩
  unfold wireEncode
  rw [hwire, readEntry_eq hadm.capacity_pos]
  dsimp only
  rw [show (wireSize type size (n.current cfg owner entry)).toNat = octets.length from hsize.symm,
    show encodeValue type (n.current cfg owner entry)
      (wireSize type size (n.current cfg owner entry)) = .ok octets from hencode]
  split_ifs <;> rfl

/-- An entry that has been written is for the parameter it was written for. -/
theorem entryMatches_of_decode {size : UInt16} (hadm : Admitted cfg entry)
    (hwire : wireTypeOf entry = .ok (persist.type, size))
    (hle : persist.value.length ≤ entryCapacity entry)
    (hlen : persist.type ≠ wireString → persist.value.length = size.toNat) :
    entryMatches entry persist = true := by
  unfold entryMatches
  rw [hwire]
  dsimp only
  rw [if_neg (by simp)]
  by_cases htype : persist.type = wireString
  · rw [if_pos htype, decide_eq_true_eq]
    rcases wireTypeOf_cases hwire with ⟨htext, -⟩ | ⟨-, hne, -⟩ | ⟨-, -, hcode⟩
    · exact (hadm.capacity_text htext).1 ▸ hle
    · rw [htype] at hne
      exact absurd hne (by decide)
    · rw [htype] at hcode
      rcases hcode with ⟨hne, -⟩ | ⟨hne | hne, -⟩ | ⟨hne | hne | hne, -⟩ <;>
        exact absurd hne (by decide)
  · rw [if_neg htype, decide_eq_true_eq]
    exact (hlen htype).symm

/-- The sizes that `build_snapshot` reserves. -/
theorem reserved_eq {type : UInt8} {size : UInt16} (hadm : Admitted cfg entry)
    (hwire : wireTypeOf entry = .ok (type, size)) :
    (if entry.info.type = .STRING ∨ entry.info.type = .DATA then entry.info.arraySize
      else size).toNat = entryCapacity entry := by
  rcases wireTypeOf_cases hwire with ⟨htext, -⟩ | ⟨hdata, -⟩ | ⟨hne, hscalar, -⟩
  · rw [if_pos (Or.inl htext), (hadm.capacity_text htext).1]
  · rw [if_pos (Or.inr hdata), (hadm.capacity_data hdata).1]
  · rw [if_neg (not_or.2 hne), ← hscalar]
    exact (if_neg (not_or.2 hne)).symm

/-- The entries of a snapshot are the parameters that are persistent and carried. -/
structure Written (cfg : Config) (owner : Owner ω) (n : Node ω) (entries : List Entry)
    (saved : List PersistEntry) : Prop where
  all : ∀ entry ∈ entries, entry.persistent = true → Carried entry.info.type →
    ∃ persist ∈ saved, Saves cfg owner n entry persist
  back : ∀ persist ∈ saved, ∃ entry ∈ entries, entry.persistent = true ∧
    Carried entry.info.type ∧ Saves cfg owner n entry persist

section

variable {n : Node ω} {entries : List Entry} {saved : List PersistEntry}
  (h : Written cfg owner n entries saved)
include h

theorem Written.skip
    (hskip : entry.persistent = true → ¬ Carried entry.info.type) :
    Written cfg owner n (entry :: entries) saved where
  all e he hp hc := by
    rcases List.mem_cons.1 he with rfl | he
    · exact absurd hc (hskip hp)
    · exact h.all e he hp hc
  back p hp := by
    obtain ⟨e, he, hrest⟩ := h.back p hp
    exact ⟨e, List.mem_cons_of_mem _ he, hrest⟩

theorem Written.cons (hpersistent : entry.persistent = true)
    (hcarried : Carried entry.info.type) (hsaves : Saves cfg owner n entry persist) :
    Written cfg owner n (entry :: entries) (persist :: saved) where
  all e he hp hc := by
    rcases List.mem_cons.1 he with rfl | he
    · exact ⟨persist, List.mem_cons_self, hsaves⟩
    · obtain ⟨p, hp, hs⟩ := h.all e he hp hc
      exact ⟨p, List.mem_cons_of_mem _ hp, hs⟩
  back p hp := by
    rcases List.mem_cons.1 hp with rfl | hp
    · exact ⟨entry, List.mem_cons_self, hpersistent, hcarried, hsaves⟩
    · obtain ⟨e, he, hrest⟩ := h.back p hp
      exact ⟨e, List.mem_cons_of_mem _ he, hrest⟩

end

/-- **What `build_snapshot` writes**: one entry for each persistent parameter that a file carries,
and nothing else. -/
theorem buildEntries_ok (hmax : 8 ≤ cfg.stringMax) {n m : Node ω} {entries : List Entry}
    {payload payload' : List UInt8} {count count' : ℕ}
    (hadm : ∀ entry ∈ entries, Admitted cfg entry) (hids : (entries.map (·.info.id)).Nodup)
    (hvalid : ∀ entry ∈ entries, validateEntry entry (n.current cfg owner entry) = none)
    (howner : m.owner = n.owner)
    (hstorage : ∀ entry ∈ entries, m.storage entry.info.id = n.storage entry.info.id)
    (h : (m.buildEntries cfg owner entries payload count).1 = .ok (payload', count')) :
    ∃ saved, payload' = payload ++ payloadOf saved ∧ count' = count + saved.length ∧
      (count ≤ persistMaxEntryCount → count' ≤ persistMaxEntryCount) ∧
      (persistHeaderSize + payload.length ≤ persistMaxBytes →
        persistHeaderSize + payload'.length ≤ persistMaxBytes) ∧
      Written cfg owner n entries saved := by
  induction entries generalizing payload count m with
  | nil =>
    obtain ⟨rfl, rfl⟩ := Prod.mk.inj (Except.ok.inj h)
    exact ⟨[], by simp [payloadOf], rfl, id, id, by simp, by simp⟩
  | cons entry entries ih =>
    obtain ⟨hnotin, hids⟩ := List.nodup_cons.1 hids
    have hentry := hadm entry List.mem_cons_self
    have hadm' : ∀ e ∈ entries, Admitted cfg e := fun e he => hadm e (List.mem_cons_of_mem _ he)
    have hvalid' : ∀ e ∈ entries, validateEntry e (n.current cfg owner e) = none :=
      fun e he => hvalid e (List.mem_cons_of_mem _ he)
    have hstorage' : ∀ e ∈ entries, m.storage e.info.id = n.storage e.info.id :=
      fun e he => hstorage e (List.mem_cons_of_mem _ he)
    unfold buildEntries at h
    by_cases hpersistent : entry.persistent = true
    · have hname : ¬(entry.info.name.length = 0 ∨ nameMax < entry.info.name.length) := by
        refine not_or.2 ⟨fun hzero => hentry.named ?_, not_lt.2 hentry.within⟩
        cases hcase : entry.info.name
        rw [hcase] at hzero
        simpa [CString.empty] using List.length_eq_zero_iff.1 hzero
      rw [if_neg (by simp [hentry.node, hpersistent]), if_neg hname] at h
      cases hwire : wireTypeOf entry with
      | error e =>
        rw [hwire] at h
        obtain ⟨saved, hpayload, hcount, hmaxCount, hmaxBytes, hwritten⟩ :=
          ih hadm' hids hvalid' howner hstorage' h
        refine ⟨saved, hpayload, hcount, hmaxCount, hmaxBytes, hwritten.skip fun _ hcarried => ?_⟩
        obtain ⟨type, size, hok⟩ := carried_iff.1 hcarried
        rw [hok] at hwire
        cases hwire
      | ok code =>
        obtain ⟨type, size⟩ := code
        rw [hwire] at h
        dsimp only at h
        rw [reserved_eq hentry hwire] at h
        have hcurrent : m.current cfg owner entry = n.current cfg owner entry := by
          unfold current
          rw [sample_congr owner howner (hstorage entry List.mem_cons_self)]
        have hvalidEntry := hvalid entry List.mem_cons_self
        obtain ⟨octets, hpos, hle, hsize, hdecode, hencode⟩ := wireEncode_eq (n := m) hentry hwire
          (hcurrent ▸ hvalidEntry) (persistMaxBytes - (persistHeaderSize + payload.length +
            persistEntryHeaderSize + entry.info.name.length))
        by_cases hroom : persistMaxEntryCount ≤ count ∨
            persistMaxBytes < persistHeaderSize + payload.length + persistEntryHeaderSize +
              entry.info.name.length + entryCapacity entry
        · rw [if_pos hroom] at h
          cases h
        · obtain ⟨hcountRoom, hbytesRoom⟩ := not_or.1 hroom
          rw [if_neg hroom, hencode, if_neg (by omega)] at h
          have hother : ∀ e ∈ entries,
              (m.sample owner entry).storage e.info.id = n.storage e.info.id := by
            intro e he
            have hne : e.info.id ≠ entry.info.id := fun heq =>
              hnotin (List.mem_map.2 ⟨e, he, heq⟩)
            rw [sample_storage_of_ne hne, hstorage' e he]
          obtain ⟨saved, hpayload, hcount, hmaxCount, hmaxBytes, hwritten⟩ :=
            ih hadm' hids hvalid' (sample_owner.trans howner) hother h
          have hlen : octets.length ≤ cfg.stringMax ∧ octets.length < 2 ^ 16 := by
            have := hentry.capacity_le hmax
            omega
          have hnamed : entry.info.name.bytes ≠ [] := fun hnil =>
            hname (Or.inl (congrArg List.length hnil))
          have hsaves : Saves cfg owner n entry ⟨entry.info.name.bytes, type, octets⟩ :=
            ⟨rfl, entryMatches_of_decode hentry hwire hle
              (fun hne => by rw [hsize, wireSize, if_neg hne]), hcurrent ▸ hdecode,
              ⟨hnamed, hentry.within, List.length_pos_iff.1 hpos, hlen.1, hlen.2⟩⟩
          have hgrown : (payload ++ snapshotEntry entry.info.name.bytes type octets).length =
              payload.length + (persistEntryHeaderSize +
                (entry.info.name.bytes.length + octets.length)) := by
            rw [List.length_append, length_snapshotEntry]
          refine ⟨⟨entry.info.name.bytes, type, octets⟩ :: saved, ?_, ?_, ?_, ?_,
            hwritten.cons hpersistent (carried_iff.2 ⟨_, _, hwire⟩) hsaves⟩
          · rw [hpayload, List.append_assoc]
            rfl
          · rw [hcount, List.length_cons]
            omega
          · exact fun _ => hmaxCount (by omega)
          · refine fun _ => hmaxBytes ?_
            have hsame : entry.info.name.length = entry.info.name.bytes.length := rfl
            rw [hgrown]
            omega
    · rw [if_pos (by simp [hpersistent])] at h
      obtain ⟨saved, hpayload, hcount, hmaxCount, hmaxBytes, hwritten⟩ :=
        ih hadm' hids hvalid' howner hstorage' h
      exact ⟨saved, hpayload, hcount, hmaxCount, hmaxBytes,
        hwritten.skip fun hp => absurd hp hpersistent⟩

/-- **Save and load are inverse.**  If `build_snapshot` succeeds on a node in which every value is
one that its parameter accepts, then on any later state of the same registry the two passes return
0 on those octets, give every persistent parameter of a type that a file carries the value that it
had, and leave every other storage as it was. -/
theorem snapshot_round_trip {sets : List (Option DefinitionSet)} {n : Node ω}
    (h : Param.init cfg sets Service.boot = (none, n.service)) (hmax : 8 ≤ cfg.stringMax)
    (hinfallible : ∀ entry ∈ n.service.entries, entry.persistent = true →
      entry.definition.apply = none)
    (hvalid : ∀ entry ∈ n.service.entries, validateEntry entry (n.current cfg owner entry) = none)
    {octets : List UInt8} (hbuild : (n.buildSnapshot cfg owner).1 = .ok octets)
    (m : Node ω) (hm : m.service = n.service) :
    ∃ count data, validateSnapshot cfg octets = .ok (count, data) ∧
      (m.applySnapshot cfg owner data count).1 = none ∧
      ∀ entry ∈ n.service.entries,
        if entry.persistent = true ∧ Carried entry.info.type then
          readCells cfg entry ((m.applySnapshot cfg owner data count).2.storage entry.info.id) =
            n.current cfg owner entry
        else (m.applySnapshot cfg owner data count).2.storage entry.info.id =
          m.storage entry.info.id := by
  have hacc := init_accepted h
  unfold buildSnapshot at hbuild
  rcases hentries : n.buildEntries cfg owner n.service.entries [] 0 with ⟨e | ⟨payload, count⟩, n'⟩
  · rw [hentries] at hbuild
    cases hbuild
  rw [hentries] at hbuild
  obtain rfl := Except.ok.inj hbuild
  obtain ⟨saved, hpayload, hcount, hmaxCount, hmaxBytes, hwritten⟩ :=
    buildEntries_ok hmax hacc.admitted hacc.ids hvalid rfl (fun _ _ => rfl)
      (congrArg Prod.fst hentries)
  rw [List.nil_append] at hpayload
  rw [Nat.zero_add] at hcount
  obtain rfl := hpayload
  obtain rfl := hcount
  have hholds : ∀ persist ∈ saved, persist.Holds cfg := fun persist hp => by
    obtain ⟨_, _, _, _, hsaves⟩ := hwritten.back persist hp
    exact hsaves.holds
  have hsize := hmaxBytes (by decide)
  refine ⟨_, _, validateSnapshot_built hholds (hmaxCount (Nat.zero_le _))
    (Nat.lt_of_le_of_lt (Nat.le_trans (Nat.le_add_left _ _) hsize) (by decide)), ?_⟩
  -- What the entries of the file are for.
  have hfound : ∀ persist ∈ saved, ∀ entry ∈ n.service.entries, entry.persistent = true →
      Saves cfg owner n entry persist →
        taken cfg m.service persist = some (entry, n.current cfg owner entry) := by
    intro persist _ entry hentry hpersistent hsaves
    refine taken_eq_some.2 ⟨addressed_eq_some.2 ⟨?_, hpersistent, hsaves.matches_⟩, hsaves.value⟩
    rw [hsaves.name, CString.scan_bytes, hm]
    exact hacc.findName_eq_some.2 ⟨hentry, rfl⟩
  have htaken : ∀ persist ∈ saved, ∃ entry ∈ n.service.entries, entry.persistent = true ∧
      Carried entry.info.type ∧
        taken cfg m.service persist = some (entry, n.current cfg owner entry) := by
    intro persist hp
    obtain ⟨entry, hentry, hpersistent, hcarried, hsaves⟩ := hwritten.back persist hp
    exact ⟨entry, hentry, hpersistent, hcarried, hfound persist hp entry hentry hpersistent hsaves⟩
  have hnext := nextEntries_built hholds saved.length 0
  -- No entry is for a parameter that could refuse its value.
  have hmixed : ∀ persist ∈ saved, ¬ Mixed m.service saved.length persist := by
    rintro persist hp ⟨entry, haddressed, happly, -⟩
    obtain ⟨entry', hentry', hpersistent, -, htake⟩ := htaken persist hp
    obtain rfl := Option.some.inj (haddressed.symm.trans (taken_eq_some.1 htake).1)
    rw [hinfallible entry hentry' hpersistent] at happly
    cases happly
  obtain ⟨hnode, hnone, -⟩ := walkEntries_check cfg owner saved.length saved m
  have hcheck : m.walkEntries cfg owner saved.length false saved = (none, m) :=
    Prod.ext (hnone.2 hmixed) hnode
  obtain ⟨hresult, hrestored⟩ := walkEntries_apply cfg owner saved.length saved m hmixed
    fun persist hp entry value htake => by
      obtain ⟨entry', hentry', hpersistent, -, htake'⟩ := htaken persist hp
      obtain ⟨rfl, -⟩ := Prod.mk.inj (Option.some.inj (htake.symm.trans htake'))
      exact hinfallible entry hentry' hpersistent
  have happly : m.applySnapshot cfg owner (snapshotBytes (payloadOf saved) saved.length 0)
      saved.length = m.walkEntries cfg owner saved.length true saved := by
    unfold applySnapshot
    rw [walkSnapshot_eq hnext, hcheck]
    exact walkSnapshot_eq hnext m
  rw [happly]
  refine ⟨hresult, fun entry hentry => ?_⟩
  rcases hrestored entry.info.id with ⟨hsame, hnot⟩ |
    ⟨persist, hp, entry', value, htake, hid, cells, hput⟩
  · rw [if_neg]
    · exact hsame
    · rintro ⟨hpersistent, hcarried⟩
      obtain ⟨persist, hp, hsaves⟩ := hwritten.all entry hentry hpersistent hcarried
      exact hnot persist hp entry _ (hfound persist hp entry hentry hpersistent hsaves) rfl
  · obtain ⟨other, hother, hpersistent, hcarried, htake'⟩ := htaken persist hp
    obtain ⟨rfl, rfl⟩ := Prod.mk.inj (Option.some.inj (htake.symm.trans htake'))
    obtain rfl := hacc.eq_of_id hother hentry hid
    obtain ⟨hvalue, hfits, hstored⟩ :=
      wireDecode_ok (hacc.admitted entry' hother) (taken_eq_some.1 htake).2
    rw [if_pos ⟨hpersistent, hcarried⟩, hput, readCells_put (hacc.admitted entry' hother)
      (validateEntry_eq_none.1 hvalue).2.1 (hfits.data hvalue), hstored]
    exact settled_readCells _ _ _

/-- A byte that was 9 is 9 again on a node where it has become 4. -/
theorem snapshot_round_trip_byte :
    ∃ octets count data, ((keptNode 9).buildSnapshot smallBuild .idle).1 = .ok octets ∧
      validateSnapshot smallBuild octets = .ok (count, data) ∧
      ∀ entry ∈ (keptNode 9).service.entries, readCells smallBuild entry
            (((keptNode 4).applySnapshot smallBuild .idle data count).2.storage entry.info.id) =
          (keptNode 9).current smallBuild .idle entry := by
  have hbuilt : ((keptNode 9).buildSnapshot smallBuild .idle).1.isOk = true := by decide +kernel
  cases hbuild : ((keptNode 9).buildSnapshot smallBuild .idle).1 with
  | error e =>
    rw [hbuild] at hbuilt
    cases hbuilt
  | ok octets =>
    obtain ⟨count, data, hvalidated, -, hvalues⟩ := snapshot_round_trip (init_keptTable 9)
      (by decide) (by decide +kernel) (by decide +kernel) hbuild (keptNode 4) rfl
    refine ⟨octets, count, data, rfl, hvalidated, fun entry hentry => ?_⟩
    have hkept : ∀ entry ∈ (keptNode 9).service.entries,
        entry.persistent = true ∧ Carried entry.info.type := by decide +kernel
    exact (if_pos (hkept entry hentry)).mp (hvalues entry hentry)

end Node

end KfswServices.Param
