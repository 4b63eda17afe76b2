/-
# What any calls leave stored

The calls that write parameters, in any order from the boot on: `Runs`.  A load of a table file adds
to them the values that it keeps, which are as they were read (`Good`).  Every stored value is valid
after all of them, as long as no call of `kfsw_param_set` has a text cut off that its validator
would not take like that (`stored_valid`).
-/

import KfswServices.Param.Stored
import KfswServices.Table.Undo

namespace KfswServices.Table

open Library Param

variable {ω : Type} {b : Build} {owner : Owner ω}

/-- A call that writes parameters. -/
inductive Op (cfg : Config)
  | init (sets : { sets : List (Option DefinitionSet) // ∀ d ∈ supplied sets, d.2.Typed })
  | set (name : Option CString) (value : Option (ArgValue cfg)) (autosave : Bool)
  | restoreDefaults
  | persistLoad (r : Reading)
  | load (path : Option CString) (r : Reading)
  | revert

/-- What a call leaves behind. -/
def Op.run (b : Build) (owner : Owner ω) (t : Tables ω) : Op b.toConfig → Tables ω
  | .init sets => { t with node := (t.node.init b.toConfig owner sets.1).2 }
  | .set name value autosave =>
    { t with node := (t.node.setAndSave b.toConfig owner autosave name value).2 }
  | .restoreDefaults => { t with node := (t.node.restoreDefaults b.toConfig owner).2 }
  | .persistLoad r => { t with node := (t.node.persistLoad b.toConfig owner r).2 }
  | .load path r => (t.load b owner path r).2.2
  | .revert => (t.revert owner).2

/-- No text is cut off that the validator would not take cut off. -/
def Op.Uncut (b : Build) (t : Tables ω) : Op b.toConfig → Prop
  | .set name value _ => CutAccepted t.node.service name (value.map Subtype.val)
  | _ => True

/-- Some calls have been made, and none of them has cut such a text off. -/
def Runs (b : Build) (owner : Owner ω) : Tables ω → Tables ω → Prop :=
  Relation.ReflTransGen fun t u =>
    ∃ op : Op b.toConfig, op.Uncut b t ∧ u = op.run b owner t

/-- The service is as after the boot, or every stored value is valid and the kept ones are of its
parameters, as they are read. -/
structure Good (b : Build) (t : Tables ω) : Prop where
  node : t.node.service = Service.boot ∨ t.node.Sane b.toConfig
  saved : ∀ saved ∈ t.saved, ∃ entry ∈ t.node.service.entries, saved.id = entry.info.id ∧
    ∃ cells, saved.value = readCells b.toConfig entry cells

/-- The values that a revert applies are the kept ones, and valid. -/
theorem checkSaved_mem {s : Service} {savedCount : ℕ} {saved : List SavedValue}
    {entries : List (Entry × Value)} (h : Tables.checkSaved s savedCount saved = .ok entries) :
    ∀ found ∈ entries, ∃ kept ∈ saved, findId s kept.id = some found.1 ∧
      found.2 = kept.value ∧ validateEntry found.1 found.2 = none := by
  induction saved generalizing entries with
  | nil =>
    obtain rfl := Except.ok.inj h
    exact fun _ hfound => absurd hfound List.not_mem_nil
  | cons kept saved ih =>
    unfold Tables.checkSaved at h
    cases hfind : findId s kept.id with
    | none => rw [hfind] at h; cases h
    | some entry =>
      rw [hfind] at h
      dsimp only at h
      rw [ite_error_eq_ok] at h
      obtain ⟨-, h⟩ := h
      cases hvalid : validateEntry entry kept.value with
      | some e => rw [hvalid] at h; cases h
      | none =>
        rw [hvalid] at h
        dsimp only at h
        cases hrest : Tables.checkSaved s savedCount saved with
        | error e => rw [hrest] at h; cases h
        | ok rest =>
          rw [hrest] at h
          obtain rfl := Except.ok.inj h
          intro found hfound
          rcases List.mem_cons.1 hfound with rfl | hfound
          · exact ⟨kept, List.mem_cons_self, hfind, rfl, hvalid⟩
          · obtain ⟨kept', hkept', hrest'⟩ := ih hrest found hfound
            exact ⟨kept', List.mem_cons_of_mem _ hkept', hrest'⟩

/-- The pass that applies keeps the stored values valid, whatever it comes to. -/
theorem sane_applyEntries {n : Node ω} {values : List (Entry × Value)} {index : ℕ}
    (h : n.Sane b.toConfig) (hvalues : ∀ found ∈ values, found.1 ∈ n.service.entries ∧
      validateEntry found.1 found.2 = none ∧ Fits found.1 found.2) :
    (applyEntries owner values index n).2.Sane b.toConfig := by
  induction values generalizing index n with
  | nil => exact h
  | cons found values ih =>
    obtain ⟨entry, value⟩ := found
    obtain ⟨hentry, hvalid, hfits⟩ := hvalues _ List.mem_cons_self
    have hwritten : (n.wireApply owner entry value).2.Sane b.toConfig :=
      h.wireApply hentry (valid_put (h.accepted.admitted entry hentry) hfits hvalid)
    have hservice : (n.wireApply owner entry value).2.service = n.service :=
      Node.wireApply_service
    unfold applyEntries
    rcases hwrite : n.wireApply owner entry value with ⟨_ | e, m⟩
    · rw [hwrite] at hwritten hservice
      exact ih hwritten fun f hf => hservice ▸ hvalues f (List.mem_cons_of_mem _ hf)
    · rwa [hwrite] at hwritten

theorem applyEntries_service (owner : Owner ω) (n : Node ω) (values : List (Entry × Value))
    (index : ℕ) : (applyEntries owner values index n).2.service = n.service := by
  induction values generalizing index n with
  | nil => rfl
  | cons found values ih =>
    obtain ⟨entry, value⟩ := found
    have hservice : (n.wireApply owner entry value).2.service = n.service :=
      Node.wireApply_service
    unfold applyEntries
    rcases hwrite : n.wireApply owner entry value with ⟨_ | e, m⟩
    · rw [hwrite] at hservice
      exact (ih m _).trans hservice
    · rwa [hwrite] at hservice

namespace Good

variable {t : Tables ω}

/-- A call that leaves the registry and the kept values. -/
theorem of_node {n : Node ω} (h : Good b t) (hservice : n.service = t.node.service)
    (hnode : t.node.Sane b.toConfig → n.Sane b.toConfig) : Good b { t with node := n } := by
  refine ⟨h.node.imp (fun hboot => hservice.trans hboot) hnode, fun saved hsaved => ?_⟩
  obtain ⟨entry, hentry, hrest⟩ := h.saved saved hsaved
  exact ⟨entry, hservice ▸ hentry, hrest⟩

/-- A load. -/
theorem load (h : Good b t) (path : Option CString) (r : Reading) :
    Good b (t.load b owner path r).2.2 := by
  rcases h.node with hboot | hsane
  · -- Before the service is initialized, nothing is examined.
    have hnot : t.node.service.initialized = false := by rw [hboot]; rfl
    unfold Tables.load
    rcases hexamine : examine b t.node.service path r with ⟨e | accepted, report⟩
    · exact ⟨Or.inl hboot, h.saved⟩
    · have hinit := (examine_ok (congrArg Prod.fst hexamine)).2.1
      rw [hnot] at hinit
      cases hinit
  · rcases Tables.load_cases hsane.accepted owner path r with
      ⟨e, n, report, hload, hservice, hstorage, -⟩ |
        ⟨image, table, entries, accepted, n, -, -, -, hlisted, happly, -, -, hload⟩
    · rw [hload]
      refine ⟨Or.inr ⟨hservice ▸ hsane.accepted, hservice ▸ hsane.typed, ?_⟩,
        fun saved hsaved => ?_⟩
      · intro entry hentry
        rw [hservice] at hentry
        rw [hstorage]
        exact hsane.valid entry hentry
      · obtain ⟨entry, hentry, hrest⟩ := h.saved saved hsaved
        exact ⟨entry, hservice ▸ hentry, hrest⟩
    · have hservice := applyEntries_service owner t.node accepted 0
      have hn : (applyEntries owner accepted 0 t.node).2.Sane b.toConfig :=
        sane_applyEntries hsane fun found hfound => by
          obtain ⟨hmem, -, entry, -, -, -, hdecode⟩ := hlisted.mem found hfound
          obtain ⟨hvalid, hfits, -⟩ := wireDecode_ok (hsane.accepted.admitted _ hmem) hdecode
          exact ⟨hmem, hvalid, hfits⟩
      rw [happly] at hservice hn
      rw [hload]
      refine ⟨Or.inr hn, fun saved hsaved => ?_⟩
      obtain ⟨found, hfound, rfl⟩ := List.mem_map.1 hsaved
      exact ⟨found.1, hservice ▸ (hlisted.mem found hfound).1, rfl, _, rfl⟩

/-- A revert. -/
theorem revert (h : Good b t) : Good b (t.revert owner).2 := by
  unfold Tables.revert
  by_cases hinit : (!t.node.service.initialized) = true
  · rwa [if_pos hinit]
  rw [if_neg hinit]
  by_cases hstate : t.status.state ≠ .LOADED ∨ t.saved = []
  · rwa [if_pos hstate]
  rw [if_neg hstate]
  rcases hcheck : Tables.checkSaved t.node.service t.saved.length t.saved with e | entries
  · exact h
  · have hsane : t.node.Sane b.toConfig →
        (applyEntries owner entries 0 t.node).2.Sane b.toConfig := by
      intro hsane
      refine sane_applyEntries hsane fun found hfound => ?_
      obtain ⟨kept, hkept, hfind, hvalue, hvalid⟩ := checkSaved_mem hcheck found hfound
      obtain ⟨hmem, hid⟩ := (hsane.accepted.find _ _).1 hfind
      obtain ⟨entry, hentry, hid', cells, hread⟩ := h.saved kept hkept
      obtain rfl := hsane.accepted.eq_of_id hmem hentry (hid.trans hid')
      refine ⟨hmem, hvalid, ?_⟩
      rw [hvalue, hread] at hvalid ⊢
      exact fits_readCells (hsane.accepted.admitted _ hmem) hvalid
    have hservice := applyEntries_service owner t.node entries 0
    dsimp only
    rcases happly : applyEntries owner entries 0 t.node with ⟨_ | e, n⟩
    · rw [happly] at hsane hservice
      exact ⟨(h.of_node hservice hsane).node, fun _ hsaved => absurd hsaved List.not_mem_nil⟩
    · rw [happly] at hsane hservice
      exact h.of_node hservice hsane

/-- **One call.** -/
theorem run (hsound : owner.Sound b.toConfig) (h : Good b t) {op : Op b.toConfig}
    (huncut : op.Uncut b t) : Good b (op.run b owner t) := by
  cases op with
  | init sets =>
    rcases h.node with hboot | hsane
    · refine ⟨Node.init_sane hboot sets.2, fun saved hsaved => ?_⟩
      obtain ⟨entry, hentry, -⟩ := h.saved saved hsaved
      rw [hboot] at hentry
      exact absurd hentry List.not_mem_nil
    · have hsame : (t.node.init b.toConfig owner sets.1).2 = t.node := by
        unfold Node.init
        by_cases hempty : sets.1.isEmpty
        · rw [if_pos hempty]
        · rw [if_neg hempty, if_pos hsane.accepted.initialized]
      rw [Op.run, hsame]
      exact h
  | set name value autosave =>
    rcases h.node with hboot | hsane
    · have hsame : (t.node.setAndSave b.toConfig owner autosave name value).2 = t.node := by
        unfold Node.setAndSave Node.set
        rw [hboot]
        rcases name with _ | name <;> rcases value with _ | value <;> rfl
      rw [Op.run, hsame]
      exact h
    · exact h.of_node (Node.setAndSave_service hsane.accepted.ids _ _ _) fun hsane =>
        hsane.setAndSave hsound autosave huncut
  | restoreDefaults => exact h.of_node Node.restoreDefaults_service Node.Sane.restoreDefaults
  | persistLoad r => exact h.of_node (Node.persistLoad_service r) fun hsane => hsane.persistLoad r
  | load path r => exact h.load path r
  | revert => exact h.revert

end Good

/-- **What is stored is valid**, after any calls from the boot on, of which none of
`kfsw_param_set` cuts off a text that the validator would not take cut off. -/
theorem stored_valid {t u : Tables ω} (hsound : owner.Sound b.toConfig)
    (hboot : t.node.service = Service.boot) (hsaved : t.saved = []) (h : Runs b owner t u) :
    ∀ entry ∈ u.node.service.entries, Valid b.toConfig entry (u.node.storage entry.info.id) := by
  have hgood : Good b u := by
    induction h with
    | refl => exact ⟨Or.inl hboot, by simp [hsaved]⟩
    | tail _ hstep ih =>
      obtain ⟨op, huncut, rfl⟩ := hstep
      exact ih.run hsound huncut
  rcases hgood.node with hboot | hsane
  · rw [hboot]
    exact fun _ hentry => absurd hentry List.not_mem_nil
  · exact hsane.valid

/-! ### A text that is valid whole -/

/-- A text with a validator that takes no text and texts of five characters. -/
def callsignDefinition (capacity : UInt16) : Definition :=
  ⟨0, .STRING, capacity, 0, some (.ofString "call"), none, none, true, 0, none, none, none,
    false, some fun text => if text.length = 0 ∨ text.length = 5 then none else some .EINVAL, false,
    none, false, none⟩

/-- A table with that text. -/
def callsignTable (capacity : UInt16) : DefinitionSet :=
  ⟨1, some (.ofString "id"), none, some [callsignDefinition capacity]⟩

theorem typed_callsignTable (capacity : UInt16) :
    ∀ d ∈ supplied [some (callsignTable capacity)], d.2.Typed := by
  intro d hd
  obtain rfl := List.mem_singleton.1 hd
  exact .of_none rfl rfl

/-- A value of five characters. -/
def callsign (capacity : UInt16) : ArgValue smallTables.toConfig :=
  ⟨⟨.STRING, capacity.toNat, 0, CString.ofString "abcde", List.replicate smallTables.stringMax 0⟩,
    List.length_replicate⟩

/-- The boot of a node with that table. -/
def callsignInit (capacity : UInt16) : Op smallTables.toConfig :=
  .init ⟨[some (callsignTable capacity)], typed_callsignTable capacity⟩

/-- The call that sets the text. -/
def callsignSet (capacity : UInt16) : Op smallTables.toConfig :=
  .set (some (.ofString "call")) (some (callsign capacity)) false

/-- A node before its boot. -/
def unborn : Tables Unit := .fresh ⟨.boot, fun _ _ => 9, ()⟩

/-- The node on which it is set. -/
def callsignTables (capacity : UInt16) : Tables Unit :=
  (callsignSet capacity).run smallTables .idle ((callsignInit capacity).run smallTables .idle unborn)

/-- With room for all of it the text is stored whole, and is valid. -/
theorem stored_valid_callsign : (callsignTables 8).node.AllValid smallTables.toConfig ∧
    (List.range 6).map ((callsignTables 8).node.storage 256) =
      (CString.ofString "abcde").bytes ++ [0] := by
  refine ⟨stored_valid (t := unborn) (Owner.sound_idle _) rfl rfl ((Relation.ReflTransGen.single
    ⟨callsignInit 8, trivial, rfl⟩).tail ⟨callsignSet 8, ?_, rfl⟩), by decide +kernel⟩
  rintro entry v hfind hvalue - - - validate hvalidate
  obtain rfl : makeEntry (callsignTable 8) (callsignDefinition 8) (.ofString "call") =
    entry := Option.some.inj hfind
  obtain rfl := Option.some.inj hvalue
  obtain rfl := Option.some.inj hvalidate
  decide +kernel

/-- The first three of five characters are stored, and the validator takes no such text. -/
theorem callsign_not_valid : ¬ ∀ (b : Build) (owner : Owner Unit) (t u : Tables Unit),
    owner.Sound b.toConfig → t.node.service = Service.boot → t.saved = [] →
    Relation.ReflTransGen (fun t u => ∃ op : Op b.toConfig, u = op.run b owner t) t u →
    ∀ entry ∈ u.node.service.entries, Valid b.toConfig entry (u.node.storage entry.info.id) := by
  intro h
  have hvalid := h smallTables .idle unborn (callsignTables 4) (Owner.sound_idle _) rfl rfl
    ((Relation.ReflTransGen.single ⟨_, rfl⟩).tail ⟨_, rfl⟩)
    (makeEntry (callsignTable 4) (callsignDefinition 4) (.ofString "call"))
    (List.mem_singleton.2 rfl)
  exact absurd hvalid.accepted (by decide +kernel)

end KfswServices.Table
