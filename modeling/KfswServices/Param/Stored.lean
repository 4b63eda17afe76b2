/-
# What is stored is valid

A value gets into a storage with a default, with `kfsw_param_set`, from the snapshot, from a table
file, and with a revert.  Each of them asks the parameter first, about a value that is not yet the
one that will be stored: a string is cut off, an integer keeps its low bytes.  `Fits` is the
condition under which the parameter has been asked about what is stored.  All of them meet it but
`kfsw_param_set`, which takes a text that is longer than the parameter and has it checked whole
(`CutAccepted`, `Node.Sane.setAndSave`).
-/

import KfswServices.Param.Owners
import KfswServices.Param.Restore

namespace KfswServices.Param

open Library

variable {ω : Type} {cfg : Config} {owner : Owner ω} {entry : Entry} {value : Value} {n : Node ω}

/-- What the C types of a definition say: a validator of an integer reads the integer, and the
default of an array has all of its bytes. -/
structure Definition.Typed (definition : Definition) : Prop where
  scalar : ∀ validate, definition.validate = some validate → ∀ v : Scalar,
    validate (UInt64.ofNat (v.toNat % 256 ^ scalarSize definition.type)) = validate v
  data : ∀ data, definition.defaultData = some data → definition.capacity.toNat ≤ data.length

theorem Definition.Typed.of_none {definition : Definition} (hvalidate : definition.validate = none)
    (hdata : definition.defaultData = none) : definition.Typed := by
  constructor
  · rw [hvalidate]
    exact fun _ h => nomatch h
  · rw [hdata]
    exact fun _ h => nomatch h

/-- A sample puts a valid value into the storage. -/
def Owner.Sound (cfg : Config) (owner : Owner ω) : Prop :=
  ∀ entry, Admitted cfg entry → ∀ bytes, owner.sample entry = some bytes →
    ∀ w cells, Valid cfg entry (poke (bytes w) cells)

theorem Owner.sound_idle (cfg : Config) : Owner.idle.Sound cfg :=
  fun _ _ _ h => by cases h

/-- Every stored value is valid. -/
def Node.AllValid (cfg : Config) (n : Node ω) : Prop :=
  ∀ entry ∈ n.service.entries, Valid cfg entry (n.storage entry.info.id)

section

variable (hadm : Admitted cfg entry)
include hadm

/-- A text that is a default. -/
theorem readDefault_text (htext : entry.info.type = .STRING) :
    validateEntry entry (readDefault cfg entry) = none ∧ Fits entry (readDefault cfg entry) := by
  have hdefault := hadm.default
  have hcapacity := hadm.arraySize
  have hne : entry.info.type ≠ .DATA := by rw [htext]; decide
  obtain ⟨hcap, hpos, hmax⟩ := hadm.capacity_text htext
  unfold acceptsDefault at hdefault
  rw [if_pos (Or.inl htext)] at hcapacity
  rw [← hadm.type, if_neg hne, if_pos htext, ← hcapacity] at hdefault
  generalize hsource : entry.definition.defaultText.getD CString.empty = source at hdefault
  have hlong : ¬ entry.info.arraySize.toNat ≤
      (copyText cfg.stringMax source (cfg.stringMax - 1)).length := by
    intro hle
    rw [if_pos hle] at hdefault
    cases hdefault
  rw [if_neg hlong] at hdefault
  have hlen : (copyText cfg.stringMax source (cfg.stringMax - 1)).length =
      min (min (cfg.stringMax - 1) (cfg.stringMax - 1)) source.bytes.length := List.length_take
  have hsame : copyText cfg.stringMax source entry.info.arraySize.toNat =
      copyText cfg.stringMax source (cfg.stringMax - 1) := by
    unfold copyText CString.take
    congr 1
    rw [List.take_eq_take_iff]
    omega
  have hvalue : readDefault cfg entry = { Value.blank cfg .STRING
      ((copyText cfg.stringMax source (cfg.stringMax - 1)).length + 1) with
        text := copyText cfg.stringMax source (cfg.stringMax - 1) } := by
    unfold readDefault
    rw [if_neg hne, if_pos htext, hsource, hsame, htext]
    rfl
  rw [hvalue]
  refine ⟨validateEntry_eq_none.2 ⟨by omega, htext.symm, ?_, ?_⟩, fun _ => ?_,
    fun h => absurd h hne, fun h => absurd htext h⟩
  · rw [if_pos htext]
    exact ⟨Nat.succ_ne_zero _, by show _ + 1 ≤ _; omega⟩
  · unfold validatorAccepts
    rw [if_pos htext]
    intro validate hsome
    rw [hsome] at hdefault
    exact of_decide_eq_true hdefault
  · show (copyText cfg.stringMax source (cfg.stringMax - 1)).length < _
    omega

/-- A block of bytes that is a default. -/
theorem readDefault_data (htyped : entry.definition.Typed) (hblock : entry.info.type = .DATA) :
    validateEntry entry (readDefault cfg entry) = none ∧ Fits entry (readDefault cfg entry) := by
  have hdefault := hadm.default
  have hcapacity := hadm.arraySize
  have htext : entry.info.type ≠ .STRING := by rw [hblock]; decide
  obtain ⟨hcap, hpos, hmax⟩ := hadm.capacity_data hblock
  unfold acceptsDefault at hdefault
  rw [if_pos (Or.inr hblock)] at hcapacity
  rw [← hadm.type, if_pos hblock] at hdefault
  generalize hsource : entry.definition.defaultData.getD (List.replicate cfg.stringMax 0) =
    source at hdefault
  have hlen : entryCapacity entry ≤ source.length := by
    rw [hcap, hcapacity, ← hsource]
    cases hdata : entry.definition.defaultData with
    | none =>
      rw [Option.getD_none, List.length_replicate, ← hcapacity]
      exact hmax
    | some data => exact htyped.data data hdata
  have hvalue : readDefault cfg entry = { Value.blank cfg .DATA (entryCapacity entry) with
      bytes := source.take (entryCapacity entry) } := by
    unfold readDefault
    rw [if_pos hblock, ← hsource, hblock]
    cases entry.definition.defaultData <;> rfl
  rw [hvalue]
  refine ⟨validateEntry_eq_none.2 ⟨by omega, hblock.symm, ?_, ?_⟩, fun h => absurd h htext,
    fun _ => ?_, fun _ h => absurd hblock h⟩
  · rw [if_neg htext]
    rfl
  · unfold validatorAccepts
    rw [if_neg htext, if_pos hblock]
    intro validate hsome
    rw [hsome, ← hcapacity, ← hcap] at hdefault
    show validate ((source.take (entryCapacity entry)).take (entryCapacity entry)) = none
    rw [List.take_take, Nat.min_self]
    exact of_decide_eq_true hdefault
  · show entryCapacity entry ≤ (source.take (entryCapacity entry)).length
    rw [List.length_take]
    omega

/-- A number that is a default. -/
theorem readDefault_scalar (htyped : entry.definition.Typed)
    (htext : entry.info.type ≠ .STRING) (hblock : entry.info.type ≠ .DATA) :
    validateEntry entry (readDefault cfg entry) = none ∧ Fits entry (readDefault cfg entry) := by
  have hdefault := hadm.default
  have hpos := hadm.capacity_pos
  have hcap : entryCapacity entry = scalarSize entry.info.type :=
    if_neg (not_or.2 ⟨htext, hblock⟩)
  have hvalue : readDefault cfg entry = { Value.blank cfg entry.info.type
      (entryCapacity entry) with scalar := entry.definition.defaultValue } := by
    unfold readDefault
    rw [if_neg hblock, if_neg htext]
    rfl
  unfold acceptsDefault at hdefault
  rw [← hadm.type, if_neg hblock, if_neg htext] at hdefault
  have haccepts : ∀ validate, entry.definition.validate = some validate →
      validate entry.definition.defaultValue = none := by
    intro validate hsome
    rw [hsome] at hdefault
    exact of_decide_eq_true hdefault
  rw [hvalue]
  refine ⟨validateEntry_eq_none.2 ⟨by omega, rfl, ?_, ?_⟩, fun h => absurd h htext,
    fun h => absurd h hblock, fun _ _ validate hsome hv => ?_⟩
  · rw [if_neg htext]
    rfl
  · unfold validatorAccepts
    rwa [if_neg htext, if_neg hblock]
  · rw [hcap, hadm.type, htyped.scalar validate hsome]
    exact hv

/-- **A default is valid, and it fits.** -/
theorem readDefault_valid (htyped : entry.definition.Typed) :
    validateEntry entry (readDefault cfg entry) = none ∧ Fits entry (readDefault cfg entry) := by
  by_cases htext : entry.info.type = .STRING
  · exact readDefault_text hadm htext
  · by_cases hblock : entry.info.type = .DATA
    · exact readDefault_data hadm htyped hblock
    · exact readDefault_scalar hadm htyped htext hblock

/-- What has been read and is valid fits. -/
theorem fits_readCells {cells : Cells}
    (hvalid : validateEntry entry (readCells cfg entry cells) = none) :
    Fits entry (readCells cfg entry cells) := by
  obtain ⟨-, -, hsize, -⟩ := validateEntry_eq_none.1 hvalid
  refine ⟨fun htext => ?_, fun hblock => ?_, fun htext hblock validate hsome hv => ?_⟩
  · rw [if_pos htext] at hsize
    have hshape : (readCells cfg entry cells).size =
        (readCells cfg entry cells).text.length + 1 := by
      rw [readCells, if_pos htext]
      rfl
    omega
  · refine (readCells_data ?_).2
    rw [(validateEntry_eq_none.1 hvalid).2.1, hblock]
  · have hsame := stored_readCells hadm hvalid
    rw [stored, if_neg htext, if_neg hblock] at hsame
    have hscalar := congrArg Value.scalar hsame
    dsimp only at hscalar
    rw [hscalar]
    exact hv

/-- **A value that is cut off is valid** if what is left of it is. -/
theorem valid_put_cut (htyped : entry.definition.Typed)
    (hbytes : value.bytes.length = cfg.stringMax) (hvalid : validateEntry entry value = none)
    (hcut : entry.info.type = .STRING → ∀ validate, entry.definition.validateText = some validate →
      validate (value.text.take (entry.info.arraySize.toNat - 1)) = none) (cells : Cells) :
    Valid cfg entry (put entry value cells) := by
  obtain ⟨hcapacity, htype, hsize, haccepts⟩ := validateEntry_eq_none.1 hvalid
  by_cases htext : entry.info.type = .STRING
  · -- The storage is the one of the text that is left.
    obtain ⟨hcap, hpos, hmax⟩ := hadm.capacity_text htext
    have hne : entry.info.type ≠ .DATA := by rw [htext]; decide
    have hlen := CString.length_take_le (entry.info.arraySize.toNat - 1) value.text
    have hsame : put entry value cells = put entry
        { value with text := value.text.take (entry.info.arraySize.toNat - 1) } cells := by
      unfold put
      rw [if_pos (htype.trans htext), if_pos (htype.trans htext)]
      unfold copyText CString.take
      simp only [List.take_take]
      congr 3
      omega
    have hleft : validateEntry entry
        { value with text := value.text.take (entry.info.arraySize.toNat - 1) } = none := by
      refine validateEntry_eq_none.2 ⟨hcapacity, htype, hsize, ?_⟩
      unfold validatorAccepts
      rw [if_pos htext]
      exact hcut htext
    rw [hsame]
    refine valid_put hadm ⟨fun _ => ?_, fun h => absurd h hne, fun h => absurd htext h⟩ hleft cells
    show (value.text.take (entry.info.arraySize.toNat - 1)).length < _
    omega
  · rw [if_neg htext] at hsize
    refine valid_put hadm ⟨fun h => absurd h htext, fun hblock => ?_,
      fun _ hblock validate hsome hv => ?_⟩ hvalid cells
    · obtain ⟨hcap, -, hmax⟩ := hadm.capacity_data hblock
      omega
    · have hcap : entryCapacity entry = scalarSize entry.info.type :=
        if_neg (not_or.2 ⟨htext, hblock⟩)
      rw [hcap, hadm.type, htyped.scalar validate hsome]
      exact hv

end

/-! ### What keeps the stored values valid -/

namespace Node

/-- **A write** of what is valid in the storage. -/
theorem allValid_wireApply (hacc : Accepted cfg n.service) (hentry : entry ∈ n.service.entries)
    (hall : n.AllValid cfg) (hput : ∀ cells, Valid cfg entry (put entry value cells)) :
    (n.wireApply owner entry value).2.AllValid cfg := by
  intro other hother
  rw [wireApply_service] at hother
  rw [wireApply_storage]
  split_ifs
  · by_cases hid : other.info.id = entry.info.id
    · obtain rfl := hacc.eq_of_id hother hentry hid
      show Valid cfg other (Function.update n.storage other.info.id _ other.info.id)
      rw [Function.update_self]
      exact hput _
    · show Valid cfg other (Function.update n.storage entry.info.id _ other.info.id)
      rw [Function.update_of_ne hid]
      exact hall other hother
  · exact hall other hother

/-- **Samples.** -/
theorem Refreshed.allValid {m : Node ω} (h : n.Refreshed owner m) (hsound : owner.Sound cfg)
    (hacc : Accepted cfg n.service) (hall : n.AllValid cfg) : m.AllValid cfg := by
  intro entry hentry
  rw [h.service] at hentry
  rcases h.storage entry.info.id with hsame | ⟨entry', hentry', hid, hsample⟩
  · rw [hsame]
    exact hall entry hentry
  · obtain rfl := hacc.eq_of_id hentry' hentry hid
    rw [hsample]
    unfold sample
    cases hbytes : owner.sample entry' with
    | none => exact hall entry' hentry
    | some bytes =>
      dsimp only
      rw [Function.update_self]
      exact hsound entry' (hacc.admitted entry' hentry) bytes hbytes _ _

/-- **The defaults of `kfsw_param_init`**, which no `apply` can refuse yet. -/
theorem writeDefaults_spec (cfg : Config) (owner : Owner ω) {entries : List Entry}
    (hinit : n.service.initialized = false) (hids : (entries.map (·.info.id)).Nodup) :
    (n.writeDefaults cfg owner entries).1 = none ∧
      (n.writeDefaults cfg owner entries).2.service = n.service ∧
      (∀ entry ∈ entries, (n.writeDefaults cfg owner entries).2.storage entry.info.id =
        put entry (readDefault cfg entry) (n.storage entry.info.id)) ∧
      ∀ id, (∀ entry ∈ entries, entry.info.id ≠ id) →
        (n.writeDefaults cfg owner entries).2.storage id = n.storage id := by
  induction entries generalizing n with
  | nil => exact ⟨rfl, rfl, by simp, fun _ _ => rfl⟩
  | cons entry entries ih =>
    obtain ⟨hnotin, hids⟩ := List.nodup_cons.1 hids
    have hresult : (n.wireApply owner entry (readDefault cfg entry)).1 = none :=
      wireApply_result (by rw [hinit, Bool.false_and])
    have hservice : (n.wireApply owner entry (readDefault cfg entry)).2.service = n.service :=
      wireApply_service
    have hstorage := wireApply_storage owner entry (readDefault cfg entry) n
    have hdefault : n.writeDefault cfg owner entry =
        n.wireApply owner entry (readDefault cfg entry) := by
      unfold writeDefault
      rw [hinit]
      rfl
    unfold writeDefaults
    rw [hdefault]
    rcases hwrite : n.wireApply owner entry (readDefault cfg entry) with ⟨_ | e, m⟩
    · rw [hwrite] at hservice hstorage
      dsimp only at hservice hstorage ⊢
      rw [if_pos rfl] at hstorage
      obtain ⟨hnone, hsame, hput, hother⟩ := ih (hservice ▸ hinit) hids
      have hne : ∀ e ∈ entries, e.info.id ≠ entry.info.id := fun e he heq =>
        hnotin (List.mem_map.2 ⟨e, he, heq⟩)
      refine ⟨hnone, hsame.trans hservice, fun e he => ?_, fun id hid => ?_⟩
      · rcases List.mem_cons.1 he with rfl | he
        · rw [hother _ hne, hstorage]
          exact Function.update_self _ _ _
        · rw [hput e he, hstorage]
          exact congrArg _ (Function.update_of_ne (hne e he) _ _)
      · rw [hother id fun e he => hid e (List.mem_cons_of_mem _ he), hstorage]
        exact Function.update_of_ne (hid entry List.mem_cons_self).symm _ _
    · rw [hwrite] at hresult
      cases hresult

/-- The registry of an initialized service, with every stored value valid. -/
structure Sane (cfg : Config) (n : Node ω) : Prop where
  accepted : Accepted cfg n.service
  typed : ∀ entry ∈ n.service.entries, entry.definition.Typed
  valid : n.AllValid cfg

/-- **What `kfsw_param_init` does** to a service that is not initialized: it returns an error and
leaves the registry empty or as it was, or every default is in the storage of an accepted one. -/
theorem init_spec {sets : List (Option DefinitionSet)} (hfresh : n.service.initialized = false) :
    (n.init cfg owner sets).1 ≠ none ∧ ((n.init cfg owner sets).2.service = n.service ∨
        (n.init cfg owner sets).2.service = Service.boot) ∨
      (n.init cfg owner sets).1 = none ∧ Registry sets (n.init cfg owner sets).2.service ∧
        Accepted cfg (n.init cfg owner sets).2.service ∧
        ∀ entry ∈ (n.init cfg owner sets).2.service.entries,
          (n.init cfg owner sets).2.storage entry.info.id =
            put entry (readDefault cfg entry) (n.storage entry.info.id) := by
  have hempty : ({ n.service with entries := [], tables := [] } : Service) = Service.boot :=
    congrArg (Service.mk [] []) hfresh
  have hparam : ∀ u, addSets cfg sets Service.boot = .ok u →
      ¬ u.entries.isEmpty → ¬ sets.isEmpty → Param.init cfg sets Service.boot =
        (none, { u with initialized := true }) := by
    intro u hadd hentries hsets
    have hregistered := addSets_registered registered_boot hadd
    have hdefaults : u.entries.findSome? (Param.writeDefault cfg u.initialized) = none := by
      rw [hregistered.fresh]
      exact List.findSome?_eq_none_iff.2 fun entry _ => writeDefault_uninitialized cfg entry
    have hadd' : addSets cfg sets { Service.boot with entries := [], tables := [] } = .ok u := hadd
    unfold Param.init
    rw [if_neg hsets, if_neg (by simp [Service.boot]), hadd']
    dsimp only
    rw [if_neg hentries, hdefaults]
  unfold init
  by_cases hsets : sets.isEmpty
  · rw [if_pos hsets]
    exact Or.inl ⟨(fun h => by cases h), Or.inl rfl⟩
  rw [if_neg hsets, if_neg (by simp [hfresh]), hempty]
  cases hadd : addSets cfg sets Service.boot with
  | error e => exact Or.inl ⟨(fun h => by cases h), Or.inr rfl⟩
  | ok u =>
    dsimp only
    by_cases hentries : u.entries.isEmpty
    · rw [if_pos hentries]
      exact Or.inl ⟨(fun h => by cases h), Or.inr rfl⟩
    · rw [if_neg hentries]
      have hregistered := addSets_registered registered_boot hadd
      have hinit := hparam u hadd hentries hsets
      have hacc := init_accepted hinit
      obtain ⟨hnone, hservice, hput, -⟩ := @writeDefaults_spec _ { n with service := u } cfg owner
        u.entries hregistered.fresh hacc.ids
      rw [hnone, hservice]
      exact Or.inr ⟨rfl, init_ok hinit, hacc, hput⟩

/-- **`kfsw_param_init`** leaves the service as after the boot, or every stored value valid. -/
theorem init_sane {sets : List (Option DefinitionSet)} (hboot : n.service = Service.boot)
    (htyped : ∀ d ∈ supplied sets, d.2.Typed) :
    (n.init cfg owner sets).2.service = Service.boot ∨ (n.init cfg owner sets).2.Sane cfg := by
  have hfresh : n.service.initialized = false := by
    rw [hboot]
    rfl
  rcases @init_spec _ cfg owner n sets hfresh with
    ⟨-, hservice | hservice⟩ | ⟨-, hregistry, hacc, hput⟩
  · exact Or.inl (hservice.trans hboot)
  · exact Or.inl hservice
  · have hpart : ∀ entry ∈ (n.init cfg owner sets).2.service.entries, entry.definition.Typed :=
      fun entry hentry => htyped _
        (hregistry.definitions.mem_iff.1 (List.mem_map.2 ⟨entry, hentry, rfl⟩))
    refine Or.inr ⟨hacc, hpart, fun entry hentry => ?_⟩
    obtain ⟨hvalid, hfits⟩ := readDefault_valid (hacc.admitted entry hentry) (hpart entry hentry)
    rw [hput entry hentry]
    exact valid_put (hacc.admitted entry hentry) hfits hvalid _

section

variable (h : n.Sane cfg)
include h

theorem Sane.wireApply (hentry : entry ∈ n.service.entries)
    (hput : ∀ cells, Valid cfg entry (put entry value cells)) :
    (n.wireApply owner entry value).2.Sane cfg := by
  have hservice : (n.wireApply owner entry value).2.service = n.service := wireApply_service
  exact ⟨hservice ▸ h.accepted, hservice ▸ h.typed,
    allValid_wireApply h.accepted hentry h.valid hput⟩

theorem Sane.refreshed {m : Node ω} (hsound : owner.Sound cfg)
    (hm : n.Refreshed owner m) : m.Sane cfg :=
  ⟨hm.service ▸ h.accepted, hm.service ▸ h.typed, hm.allValid hsound h.accepted h.valid⟩

theorem Sane.applyDefaults {entries : List Entry}
    (hmem : ∀ entry ∈ entries, entry ∈ n.service.entries) :
    (n.applyDefaults cfg owner entries).2.Sane cfg := by
  induction entries generalizing n with
  | nil => exact h
  | cons entry entries ih =>
    have hentry := hmem entry List.mem_cons_self
    have hmem' : ∀ e ∈ entries, e ∈ n.service.entries := fun e he =>
      hmem e (List.mem_cons_of_mem _ he)
    obtain ⟨hvalid, hfits⟩ := readDefault_valid (h.accepted.admitted entry hentry)
      (h.typed entry hentry)
    have hwritten : (n.wireApply owner entry (readDefault cfg entry)).2.Sane cfg :=
      h.wireApply hentry (valid_put (h.accepted.admitted entry hentry) hfits hvalid)
    have hservice : (n.wireApply owner entry (readDefault cfg entry)).2.service = n.service :=
      wireApply_service
    unfold Node.applyDefaults
    split_ifs
    · rcases hwrite : n.wireApply owner entry (readDefault cfg entry) with ⟨_ | e, m⟩
      · rw [hwrite] at hwritten hservice
        exact ih hwritten fun e he => hservice ▸ hmem' e he
      · rwa [hwrite] at hwritten
    · exact ih h hmem'

/-- **`kfsw_param_restore_defaults`.** -/
theorem Sane.restoreDefaults : (n.restoreDefaults cfg owner).2.Sane cfg := by
  unfold Node.restoreDefaults
  rcases checkDefaults cfg n.service.entries with _ | e
  · dsimp only
    split_ifs
    · exact h
    · exact h
    · exact h.applyDefaults fun _ he => he
  · dsimp only
    split_ifs <;> exact h

/-- **`kfsw_param_persist_load`.** -/
theorem Sane.persistLoad (r : Reading) : (n.persistLoad cfg owner r).2.Sane cfg := by
  unfold Node.persistLoad
  by_cases hready : (!n.service.initialized || !r.ready) = true
  · rwa [if_pos hready]
  rw [if_neg hready]
  rcases r.stat with e | ⟨isFile, size⟩
  · exact h
  dsimp only
  by_cases hsize : (!isFile) = true ∨ size < persistHeaderSize ∨ persistMaxBytes < size
  · rwa [if_pos hsize]
  rw [if_neg hsize]
  rcases r.content .EMSGSIZE size with e | content
  · exact h
  dsimp only
  rcases hvalid : validateSnapshot cfg content with e | ⟨count, data⟩
  · exact h
  dsimp only
  obtain ⟨-, entries, hentries⟩ := validateSnapshot_ok hvalid
  have hservice := applySnapshot_service cfg owner data count n
  refine ⟨hservice ▸ h.accepted, hservice ▸ h.typed, fun entry hentry => ?_⟩
  rw [hservice] at hentry
  obtain ⟨-, ⟨-, hsame⟩ | ⟨-, hrestored⟩⟩ := applySnapshot_cases cfg owner hentries n
  · rw [hsame]
    exact h.valid entry hentry
  · rcases hrestored entry.info.id with ⟨hsame, -⟩ |
      ⟨persist, -, entry', value, htaken, hid, cells, hput⟩
    · rw [hsame]
      exact h.valid entry hentry
    · obtain ⟨haddressed, hdecode⟩ := taken_eq_some.1 htaken
      obtain ⟨hmem, -⟩ := h.accepted.findName_eq_some.1 (addressed_eq_some.1 haddressed).1
      obtain rfl := h.accepted.eq_of_id hmem hentry hid
      obtain ⟨hvalue, hfits, -⟩ := wireDecode_ok (h.accepted.admitted entry' hmem) hdecode
      rw [hput]
      exact valid_put (h.accepted.admitted entry' hmem) hfits hvalue cells

end

/-- All that `build_snapshot` does to the node is to take samples. -/
theorem refreshed_buildEntries (cfg : Config) (owner : Owner ω) {entries : List Entry}
    (hids : (n.service.entries.map (·.info.id)).Nodup)
    (hmem : ∀ entry ∈ entries, entry ∈ n.service.entries) (payload : List UInt8) (count : ℕ) :
    n.Refreshed owner (n.buildEntries cfg owner entries payload count).2 := by
  induction entries generalizing n payload count with
  | nil => exact .refl owner n
  | cons entry entries ih =>
    have hentry := hmem entry List.mem_cons_self
    have hmem' : ∀ e ∈ entries, e ∈ n.service.entries := fun e he =>
      hmem e (List.mem_cons_of_mem _ he)
    have hencode := fun outputSize => refreshed_wireEncode cfg owner hentry outputSize
    unfold buildEntries
    by_cases hskip : entry.info.node ≠ 0 ∨ (!entry.persistent) = true
    · rw [if_pos hskip]
      exact ih hids hmem' payload count
    rw [if_neg hskip]
    by_cases hname : entry.info.name.length = 0 ∨ nameMax < entry.info.name.length
    · simp only [if_pos hname]
      exact .refl owner n
    simp only [if_neg hname]
    rcases wireTypeOf entry with e | ⟨type, size⟩
    · exact ih hids hmem' payload count
    · dsimp only
      by_cases hroom : persistMaxEntryCount ≤ count ∨
          persistMaxBytes < persistHeaderSize + payload.length + persistEntryHeaderSize +
            entry.info.name.length + (if entry.info.type = .STRING ∨ entry.info.type = .DATA then
              entry.info.arraySize else size).toNat
      · rw [if_pos hroom]
        exact .refl owner n
      rw [if_neg hroom]
      rcases hcase : n.wireEncode cfg owner entry (persistMaxBytes - (persistHeaderSize +
        payload.length + persistEntryHeaderSize + entry.info.name.length)) with ⟨e | octets, m⟩
      · have h := hencode (persistMaxBytes - (persistHeaderSize +
          payload.length + persistEntryHeaderSize + entry.info.name.length))
        rwa [hcase] at h
      · have h := hencode (persistMaxBytes - (persistHeaderSize +
          payload.length + persistEntryHeaderSize + entry.info.name.length))
        rw [hcase] at h
        exact h.trans hids (ih (h.service ▸ hids) (fun e he => h.service ▸ hmem' e he) _ _)

theorem refreshed_buildSnapshot (hids : (n.service.entries.map (·.info.id)).Nodup) :
    n.Refreshed owner (n.buildSnapshot cfg owner).2 := by
  have h := refreshed_buildEntries cfg owner hids (fun _ he => he) [] 0
  unfold buildSnapshot
  rcases hcase : n.buildEntries cfg owner n.service.entries [] 0 with ⟨e | ⟨payload, count⟩, m⟩
  · rwa [hcase] at h
  · rwa [hcase] at h

end Node

/-! ### Runs -/

/-- A value as the caller of `kfsw_param_set` hands it over, with its whole array. -/
abbrev ArgValue (cfg : Config) := { value : Value // value.bytes.length = cfg.stringMax }

/-- `kfsw_param_set`, with the snapshot that is built after it if it is called for. -/
def Node.setAndSave (cfg : Config) (owner : Owner ω) (autosave : Bool) (name : Option CString)
    (value : Option (ArgValue cfg)) (n : Node ω) : Option Errno × Node ω :=
  match n.set owner name (value.map Subtype.val) with
  | (some e, n) => (some e, n)
  | (none, n) =>
    match name.bind (findName n.service) with
    | none => (none, n)
    | some entry =>
      if autosave && entry.persistent then (none, (n.buildSnapshot cfg owner).2) else (none, n)

/-- A text that the parameter is asked about, and takes, is one that its validator takes cut off,
too.  Only a text that is longer than the parameter need not be. -/
def CutAccepted (s : Service) (name : Option CString) (value : Option Value) : Prop :=
  ∀ entry v, name.bind (findName s) = some entry → value = some v → entry.info.type = .STRING →
    entry.info.readOnly = false → validateEntry entry v = none →
      ∀ validate, entry.definition.validateText = some validate →
        validate (v.text.take (entry.info.arraySize.toNat - 1)) = none

/-- **`kfsw_param_set`.** -/
theorem Node.Sane.setAndSave (h : n.Sane cfg) (hsound : owner.Sound cfg) (autosave : Bool)
    {name : Option CString} {value : Option (ArgValue cfg)}
    (hcut : CutAccepted n.service name (value.map Subtype.val)) :
    (n.setAndSave cfg owner autosave name value).2.Sane cfg := by
  have hset : (n.set owner name (value.map Subtype.val)).2.Sane cfg := by
    unfold Node.set
    rcases name with _ | name
    · exact h
    rcases value with _ | ⟨value, hbytes⟩
    · exact h
    dsimp only [Option.map_some]
    rw [h.accepted.initialized, if_neg (by simp)]
    cases hfind : findName n.service name with
    | none => exact h
    | some entry =>
      dsimp only
      by_cases hreadOnly : entry.info.readOnly = true
      · rwa [if_pos hreadOnly]
      rw [if_neg hreadOnly]
      cases hvalid : validateEntry entry value with
      | some e => exact h
      | none =>
        obtain ⟨hmem, -⟩ := h.accepted.findName_eq_some.1 hfind
        exact h.wireApply hmem (valid_put_cut (h.accepted.admitted entry hmem)
          (h.typed entry hmem) hbytes hvalid fun htext =>
            hcut entry value hfind rfl htext (Bool.eq_false_iff.2 hreadOnly) hvalid)
  unfold Node.setAndSave
  rcases hcase : n.set owner name (value.map Subtype.val) with ⟨_ | e, m⟩
  · rw [hcase] at hset
    dsimp only
    cases name.bind (findName m.service) with
    | none => exact hset
    | some entry =>
      dsimp only
      split_ifs
      · exact hset.refreshed hsound (Node.refreshed_buildSnapshot hset.accepted.ids)
      · exact hset
  · rwa [hcase] at hset

/-! ### The registry stays -/

namespace Node

theorem applyDefaults_service {entries : List Entry} :
    (n.applyDefaults cfg owner entries).2.service = n.service := by
  induction entries generalizing n with
  | nil => rfl
  | cons entry entries ih =>
    have hservice : (n.wireApply owner entry (readDefault cfg entry)).2.service = n.service :=
      wireApply_service
    unfold applyDefaults
    split_ifs
    · rcases hwrite : n.wireApply owner entry (readDefault cfg entry) with ⟨_ | e, m⟩
      · rw [hwrite] at hservice
        exact ih.trans hservice
      · rwa [hwrite] at hservice
    · exact ih

theorem restoreDefaults_service : (n.restoreDefaults cfg owner).2.service = n.service := by
  unfold restoreDefaults
  rcases checkDefaults cfg n.service.entries with _ | e
  · dsimp only
    split_ifs
    · rfl
    · rfl
    · exact applyDefaults_service
  · dsimp only
    split_ifs <;> rfl

theorem persistLoad_service (r : Reading) : (n.persistLoad cfg owner r).2.service = n.service := by
  unfold persistLoad
  by_cases hready : (!n.service.initialized || !r.ready) = true
  · rw [if_pos hready]
  rw [if_neg hready]
  rcases r.stat with e | ⟨isFile, size⟩
  · rfl
  dsimp only
  by_cases hsize : (!isFile) = true ∨ size < persistHeaderSize ∨ persistMaxBytes < size
  · rw [if_pos hsize]
  rw [if_neg hsize]
  rcases r.content .EMSGSIZE size with e | content
  · rfl
  dsimp only
  rcases validateSnapshot cfg content with e | ⟨count, data⟩
  · rfl
  · exact applySnapshot_service cfg owner data count n

theorem set_service (n : Node ω) (owner : Owner ω) (name : Option CString) (value : Option Value) :
    (n.set owner name value).2.service = n.service := by
  unfold set
  rcases name with _ | name
  · rfl
  rcases value with _ | value
  · rfl
  dsimp only
  split_ifs
  · rfl
  · rcases findName n.service name with _ | entry
    · rfl
    · dsimp only
      split_ifs
      · rfl
      · rcases validateEntry entry value with _ | e
        · exact wireApply_service
        · rfl

theorem setAndSave_service (hids : (n.service.entries.map (·.info.id)).Nodup) (autosave : Bool)
    (name : Option CString) (value : Option (ArgValue cfg)) :
    (n.setAndSave cfg owner autosave name value).2.service = n.service := by
  have hset := n.set_service owner name (value.map Subtype.val)
  unfold setAndSave
  rcases hcase : n.set owner name (value.map Subtype.val) with ⟨_ | e, m⟩
  · rw [hcase] at hset
    dsimp only at hset ⊢
    cases name.bind (findName m.service) with
    | none => exact hset
    | some entry =>
      dsimp only
      split_ifs
      · exact (refreshed_buildSnapshot (hset ▸ hids)).service.trans hset
      · exact hset
  · rwa [hcase] at hset

end Node

end KfswServices.Param
