/-
# The declared defaults

What a definition declares as its default, and where `src/parameter/parameter.c` stores it: in
`kfsw_param_init`, and for the persistent parameters in `kfsw_param_restore_defaults`.

The check of `add_definition` copies a text into a buffer of `KFSW_PARAM_STRING_MAX` bytes before it
compares its length with the capacity, so that a text that does not fit the buffer passes where the
capacity is the size of the buffer (`Overlong`).  All other defaults are stored as they are declared
(`init_defaults_iff`, `restore_defaults_iff`).
-/

import KfswServices.Param.Stored

namespace KfswServices.Param

open Library

variable {ω : Type} {cfg : Config} {owner : Owner ω} {entry : Entry} {n : Node ω}

namespace Definition

/-- The text that a definition of a string declares. -/
def text (definition : Definition) : CString := definition.defaultText.getD CString.empty

/-- The bytes that a definition of an array declares. -/
def data (definition : Definition) : List UInt8 :=
  match definition.defaultData with
  | some data => data.take definition.capacity.toNat
  | none => List.replicate definition.capacity.toNat 0

/-- The default that a definition declares, as it is to be read. -/
def declared (cfg : Config) (definition : Definition) : Value :=
  if definition.type = .STRING then
    { Value.blank cfg .STRING (definition.text.length + 1) with text := definition.text }
  else if definition.type = .DATA then
    { Value.blank cfg .DATA definition.capacity.toNat with bytes := definition.data }
  else
    { Value.blank cfg definition.type (scalarSize definition.type) with
      scalar := UInt64.ofNat (definition.defaultValue.toNat % 256 ^ scalarSize definition.type) }

/-- The default fits the capacity. -/
def DefaultFits (definition : Definition) : Prop :=
  definition.type = .STRING → definition.text.length < definition.capacity.toNat

/-- The definition accepts its own default. -/
def DefaultAccepted (definition : Definition) : Prop :=
  if definition.type = .STRING then
    ∀ validate, definition.validateText = some validate → validate definition.text = none
  else if definition.type = .DATA then
    ∀ validate, definition.validateData = some validate → validate definition.data = none
  else ∀ validate, definition.validate = some validate → validate definition.defaultValue = none

/-- A string with the largest capacity, and a default that does not fit it. -/
def Overlong (cfg : Config) (definition : Definition) : Prop :=
  definition.type = .STRING ∧ definition.capacity.toNat = cfg.stringMax ∧
    cfg.stringMax ≤ definition.text.length

end Definition

/-! ### What is stored -/

/-- The check of `add_definition` lets no other text through that does not fit. -/
theorem Admitted.fits_iff (hadm : Admitted cfg entry) :
    entry.definition.DefaultFits ↔ ¬ entry.definition.Overlong cfg := by
  constructor
  · rintro hfits ⟨htext, hcapacity, hlong⟩
    have hlt := hfits htext
    omega
  · intro hlong htext
    have hdefault := hadm.default
    have hinfo : entry.info.type = .STRING := hadm.type.trans htext
    obtain ⟨-, hpos, hmax⟩ := hadm.capacity_text hinfo
    have hcapacity := hadm.arraySize
    rw [if_pos (Or.inl hinfo)] at hcapacity
    rw [hcapacity] at hpos hmax
    unfold acceptsDefault at hdefault
    rw [if_neg (by rw [htext]; decide), if_pos htext] at hdefault
    by_contra hge
    have hlength : (copyText cfg.stringMax entry.definition.text (cfg.stringMax - 1)).length =
        min (min (cfg.stringMax - 1) (cfg.stringMax - 1)) entry.definition.text.length :=
      List.length_take
    have hchecked : ¬ entry.definition.capacity.toNat ≤
        (copyText cfg.stringMax entry.definition.text (cfg.stringMax - 1)).length := by
      intro hle
      have hrefused := hdefault
      unfold Definition.text at hle
      rw [if_pos hle] at hrefused
      cases hrefused
    exact hlong ⟨htext, by omega, by omega⟩

/-- **A default is stored as it is declared**, unless it is too long for the buffer. -/
theorem stored_readDefault_iff (hadm : Admitted cfg entry) :
    stored cfg entry (readDefault cfg entry) = entry.definition.declared cfg ↔
      ¬ entry.definition.Overlong cfg := by
  rw [← hadm.fits_iff]
  unfold stored readDefault Definition.declared
  by_cases htext : entry.info.type = .STRING
  · have hne : entry.info.type ≠ .DATA := by
      rw [htext]
      decide
    have hdef : entry.definition.type = .STRING := hadm.type.symm.trans htext
    obtain ⟨-, hpos, hmax⟩ := hadm.capacity_text htext
    have hcapacity := hadm.arraySize
    rw [if_pos (Or.inl htext)] at hcapacity
    have htake : (copyText cfg.stringMax entry.definition.text entry.info.arraySize.toNat).take
        (entry.info.arraySize.toNat - 1) =
          entry.definition.text.take (entry.info.arraySize.toNat - 1) := by
      unfold copyText CString.take
      congr 1
      rw [List.take_take]
      congr 1
      omega
    rw [if_pos htext, if_neg hne, if_pos htext, if_pos hdef]
    dsimp only
    show { Value.blank cfg .STRING
        (((copyText cfg.stringMax entry.definition.text entry.info.arraySize.toNat).take
          (entry.info.arraySize.toNat - 1)).length + 1) with
      text := (copyText cfg.stringMax entry.definition.text entry.info.arraySize.toNat).take
        (entry.info.arraySize.toNat - 1) } = _ ↔ _
    rw [htake]
    constructor
    · intro h _
      have hsame : entry.definition.text.take (entry.info.arraySize.toNat - 1) =
          entry.definition.text := congrArg Value.text h
      have hle := CString.length_take_le (entry.info.arraySize.toNat - 1) entry.definition.text
      rw [hsame, hcapacity] at hle
      rw [hcapacity] at hpos
      omega
    · intro hfits
      have hlt := hfits hdef
      rw [CString.take_of_length_le (by rw [hcapacity]; omega)]
  · have hfits : entry.definition.DefaultFits := fun h => absurd (hadm.type.trans h) htext
    refine iff_of_true ?_ hfits
    have hdef : entry.definition.type ≠ .STRING := hadm.type ▸ htext
    rw [if_neg htext, if_neg hdef]
    by_cases hblock : entry.info.type = .DATA
    · obtain ⟨hcap, -, hmax⟩ := hadm.capacity_data hblock
      have hcapacity := hadm.arraySize
      rw [if_pos (Or.inr hblock)] at hcapacity
      rw [if_pos hblock, if_pos hblock, if_pos (hadm.type.symm.trans hblock), hcap, hcapacity]
      unfold Definition.data
      rw [hcapacity] at hmax
      cases hdata : entry.definition.defaultData with
      | none =>
        dsimp only
        rw [List.take_take, Nat.min_self, List.take_replicate, Nat.min_eq_left hmax]
      | some data =>
        dsimp only
        rw [List.take_take, Nat.min_self]
    · have hcap : entryCapacity entry = scalarSize entry.info.type :=
        if_neg (not_or.2 ⟨htext, hblock⟩)
      rw [if_neg hblock, if_neg hblock, if_neg htext, if_neg (hadm.type ▸ hblock), hcap,
        ← hadm.type]

/-- **A default that is stored is read as it was declared**, unless it is too long. -/
theorem readStoredEntry_default_iff {cells : Cells} (hadm : Admitted cfg entry)
    (htyped : entry.definition.Typed)
    (hput : n.storage entry.info.id = put entry (readDefault cfg entry) cells) :
    n.readStoredEntry cfg entry = .ok (entry.definition.declared cfg) ↔
      ¬ entry.definition.Overlong cfg := by
  obtain ⟨hvalid, hfits⟩ := readDefault_valid hadm htyped
  obtain ⟨hcap, htype, hsize, -⟩ := validateEntry_eq_none.1 hvalid
  have hread : readCells cfg entry (put entry (readDefault cfg entry) cells) =
      stored cfg entry (readDefault cfg entry) := by
    refine readCells_put hadm htype (fun hdata => ?_) cells
    have hinfo : entry.info.type = .DATA := htype.symm.trans hdata
    rw [if_neg (by rw [hinfo]; decide)] at hsize
    exact ⟨hsize, hfits.bytes hinfo⟩
  unfold Node.readStoredEntry
  rw [if_neg hcap, hput, hread, ← stored_readDefault_iff hadm]
  exact ⟨fun h => Except.ok.inj h, fun h => congrArg _ h⟩

/-- The bytes that a definition declares, as `read_default` copies them. -/
theorem Definition.data_eq {definition : Definition}
    (hmax : definition.capacity.toNat ≤ cfg.stringMax) :
    definition.data = (definition.defaultData.getD (List.replicate cfg.stringMax 0)).take
      definition.capacity.toNat := by
  unfold Definition.data
  cases definition.defaultData with
  | none =>
    dsimp only
    rw [Option.getD_none, List.take_replicate, Nat.min_eq_left hmax]
  | some data => rfl

/-- A default that is not too long is one that the validator has been asked about. -/
theorem Admitted.accepted (hadm : Admitted cfg entry) (hlong : ¬ entry.definition.Overlong cfg) :
    entry.definition.DefaultAccepted := by
  have hdefault := hadm.default
  have hcapacity := hadm.arraySize
  unfold acceptsDefault at hdefault
  unfold Definition.DefaultAccepted
  by_cases htext : entry.definition.type = .STRING
  · have hinfo : entry.info.type = .STRING := hadm.type.trans htext
    obtain ⟨-, -, hmax⟩ := hadm.capacity_text hinfo
    rw [if_pos (Or.inl hinfo)] at hcapacity
    rw [hcapacity] at hmax
    have hfits := hadm.fits_iff.2 hlong htext
    have hwhole : copyText cfg.stringMax (entry.definition.defaultText.getD CString.empty)
        (cfg.stringMax - 1) = entry.definition.text := by
      unfold copyText
      exact CString.take_of_length_le (show entry.definition.text.length ≤ _ by omega)
    rw [if_neg (by rw [htext]; decide), if_pos htext, hwhole] at hdefault
    dsimp only at hdefault
    rw [if_neg (not_le.2 hfits)] at hdefault
    rw [if_pos htext]
    intro validate hsome
    rw [hsome] at hdefault
    exact of_decide_eq_true hdefault
  · rw [if_neg htext]
    by_cases hblock : entry.definition.type = .DATA
    · have hinfo : entry.info.type = .DATA := hadm.type.trans hblock
      obtain ⟨-, -, hmax⟩ := hadm.capacity_data hinfo
      rw [if_pos (Or.inr hinfo)] at hcapacity
      rw [hcapacity] at hmax
      rw [if_pos hblock] at hdefault ⊢
      intro validate hsome
      rw [hsome] at hdefault
      rw [Definition.data_eq hmax]
      exact of_decide_eq_true hdefault
    · rw [if_neg hblock, if_neg htext] at hdefault
      rw [if_neg hblock]
      intro validate hsome
      rw [hsome] at hdefault
      exact of_decide_eq_true hdefault

/-! ### The first values -/

/-- **The first values.**  When `kfsw_param_init` returns 0 for some sets, their definitions are the
parameters; and each of them has its declared default, with every default fitting its capacity and
accepted by its own validator, exactly if no string of the largest capacity declares a default that
does not fit it. -/
theorem init_defaults_iff {sets : List (Option DefinitionSet)}
    (hfresh : n.service.initialized = false) (htyped : ∀ d ∈ supplied sets, d.2.Typed)
    (hok : (n.init cfg owner sets).1 = none) :
    let m := (n.init cfg owner sets).2
    (m.service.entries.map fun entry => (entry.info.table, entry.definition)).Perm (supplied sets) ∧
      (((∀ entry ∈ m.service.entries,
            m.readStoredEntry cfg entry = .ok (entry.definition.declared cfg)) ∧
          ∀ d ∈ supplied sets, d.2.DefaultFits ∧ d.2.DefaultAccepted) ↔
        ¬ ∃ d ∈ supplied sets, d.2.Overlong cfg) := by
  intro m
  rcases @Node.init_spec _ cfg owner n sets hfresh with ⟨herror, -⟩ | ⟨-, hregistry, hacc, hput⟩
  · exact absurd hok herror
  have hmem : ∀ d ∈ supplied sets, ∃ entry ∈ m.service.entries,
      (entry.info.table, entry.definition) = d := fun d hd =>
    List.mem_map.1 (hregistry.definitions.mem_iff.2 hd)
  have hsupplied : ∀ entry ∈ m.service.entries,
      (entry.info.table, entry.definition) ∈ supplied sets := fun entry hentry =>
    hregistry.definitions.mem_iff.1 (List.mem_map.2 ⟨entry, hentry, rfl⟩)
  refine ⟨hregistry.definitions, ?_, ?_⟩
  · rintro ⟨hread, -⟩ ⟨d, hd, hlong⟩
    obtain ⟨entry, hentry, rfl⟩ := hmem d hd
    exact (readStoredEntry_default_iff (hacc.admitted entry hentry) (htyped _ hd)
      (hput entry hentry)).1 (hread entry hentry) hlong
  · intro hlong
    refine ⟨fun entry hentry => ?_, fun d hd => ?_⟩
    · have hd := hsupplied entry hentry
      exact (readStoredEntry_default_iff (hacc.admitted entry hentry) (htyped _ hd)
        (hput entry hentry)).2 fun h => hlong ⟨_, hd, h⟩
    · obtain ⟨entry, hentry, rfl⟩ := hmem d hd
      have hshort : ¬ entry.definition.Overlong cfg := fun h => hlong ⟨_, hd, h⟩
      have hadm := hacc.admitted entry hentry
      exact ⟨hadm.fits_iff.2 hshort, hadm.accepted hshort⟩

/-- A node that has booted. -/
def bootedNode : Node Unit := ⟨Service.boot, fun _ _ => 0, ()⟩

/-- The definitions of a table with one byte. -/
theorem supplied_keptTable {d : UInt8 × Definition} (hd : d ∈ supplied [some keptTable]) :
    d.2.Typed ∧ d.2.type = .U8 := by
  obtain rfl := List.mem_singleton.1 hd
  exact ⟨Definition.Typed.of_none rfl rfl, rfl⟩

/-- The byte has its default. -/
theorem init_defaults_kept : (bootedNode.init smallBuild Owner.idle [some keptTable]).1 = none ∧
    ∀ entry ∈ (bootedNode.init smallBuild Owner.idle [some keptTable]).2.service.entries,
      (bootedNode.init smallBuild Owner.idle [some keptTable]).2.readStoredEntry smallBuild entry =
        .ok (entry.definition.declared smallBuild) :=
  ⟨by decide +kernel,
    ((@init_defaults_iff _ smallBuild Owner.idle bootedNode [some keptTable] rfl
      (fun _ hd => (supplied_keptTable hd).1) (by decide +kernel)).2.2 fun ⟨_, hd, htext, _⟩ => by
        rw [(supplied_keptTable hd).2] at htext
        cases htext).1⟩

/-- A text of as many characters as the largest capacity. -/
def longText : CString := ⟨List.replicate 104 0x61, by decide⟩

/-- A table with one string, of the largest capacity, that declares it as its default. -/
def longTable : DefinitionSet :=
  ⟨1, some (.ofString "long"), none, some [⟨0, .STRING, 104, flagPersistent,
    some (.ofString "text"), none, none, true, 0, some longText, none, none, false, none, false,
    none, false, none⟩]⟩

/-- The node with it. -/
def longNode : Node Unit := (bootedNode.init smallBuild Owner.idle [some longTable]).2

/-- **A default that is cut.**  `kfsw_param_init` returns 0 for a string of 104 bytes that declares
104 characters, and 103 of them are stored. -/
theorem init_cuts_default : (bootedNode.init smallBuild Owner.idle [some longTable]).1 = none ∧
    ¬ ∀ entry ∈ longNode.service.entries,
      longNode.readStoredEntry smallBuild entry = .ok (entry.definition.declared smallBuild) := by
  refine ⟨by decide +kernel, fun hall => ?_⟩
  have hstored : (longNode.service.entries.map fun entry =>
      (longNode.readStoredEntry smallBuild entry).toOption.map (·.text.length)) = [some 103] := by
    decide +kernel
  rw [List.map_congr_left fun entry hentry => by rw [hall entry hentry]] at hstored
  exact absurd hstored (by decide +kernel)

/-! ### The defaults that are restored -/

namespace Node

variable {entries : List Entry}

/-- What `kfsw_param_restore_defaults` does not write. -/
theorem applyDefaults_other {id : UInt16}
    (h : ∀ entry ∈ entries, entry.persistent = true → entry.info.id ≠ id) :
    (n.applyDefaults cfg owner entries).2.storage id = n.storage id := by
  induction entries generalizing n with
  | nil => rfl
  | cons entry entries ih =>
    obtain ⟨hentry, hentries⟩ := List.forall_mem_cons.1 h
    unfold applyDefaults
    by_cases hpersistent : entry.persistent = true
    · have hstorage := wireApply_storage owner entry (readDefault cfg entry) n
      have hne : id ≠ entry.info.id := (hentry hpersistent).symm
      have hsame : (n.wireApply owner entry (readDefault cfg entry)).2.storage id =
          n.storage id := by
        rw [hstorage]
        split_ifs
        · exact Function.update_of_ne hne _ _
        · rfl
      rw [if_pos hpersistent]
      rcases hwrite : n.wireApply owner entry (readDefault cfg entry) with ⟨_ | e, m⟩
      · rw [hwrite] at hsame
        exact (ih hentries).trans hsame
      · rw [hwrite] at hsame
        exact hsame
    · rw [if_neg hpersistent]
      exact ih hentries

/-- What it writes, when it returns 0. -/
theorem applyDefaults_persistent (hids : (entries.map (·.info.id)).Nodup)
    (hnone : (n.applyDefaults cfg owner entries).1 = none) {entry : Entry}
    (hentry : entry ∈ entries) (hpersistent : entry.persistent = true) :
    (n.applyDefaults cfg owner entries).2.storage entry.info.id =
      put entry (readDefault cfg entry) (n.storage entry.info.id) := by
  induction entries generalizing n with
  | nil => cases hentry
  | cons e entries ih =>
    obtain ⟨hnotin, hids⟩ := List.nodup_cons.1 hids
    have hother : ∀ e' ∈ entries, e'.info.id ≠ e.info.id := fun e' he' heq =>
      hnotin (List.mem_map.2 ⟨e', he', heq⟩)
    unfold applyDefaults at hnone ⊢
    by_cases hp : e.persistent = true
    · have hstorage := wireApply_storage owner e (readDefault cfg e) n
      rw [if_pos hp] at hnone ⊢
      rcases hwrite : n.wireApply owner e (readDefault cfg e) with ⟨_ | error, m⟩
      · rw [hwrite] at hnone hstorage
        dsimp only at hnone hstorage ⊢
        rw [if_pos rfl] at hstorage
        rcases List.mem_cons.1 hentry with rfl | hentry
        · rw [applyDefaults_other fun e' he' _ => hother e' he', hstorage]
          exact Function.update_self _ _ _
        · rw [ih hids hnone hentry, hstorage]
          exact congrArg _ (Function.update_of_ne (hother entry hentry) _ _)
      · rw [hwrite] at hnone
        cases hnone
    · rw [if_neg hp] at hnone ⊢
      rcases List.mem_cons.1 hentry with rfl | hentry
      · exact absurd hpersistent hp
      · exact ih hids hnone hentry

/-- Without an `apply` it returns 0. -/
theorem applyDefaults_infallible
    (h : ∀ entry ∈ entries, entry.persistent = true → entry.definition.apply = none) :
    (n.applyDefaults cfg owner entries).1 = none := by
  induction entries generalizing n with
  | nil => rfl
  | cons entry entries ih =>
    obtain ⟨hentry, hentries⟩ := List.forall_mem_cons.1 h
    unfold applyDefaults
    by_cases hpersistent : entry.persistent = true
    · have hresult : (n.wireApply owner entry (readDefault cfg entry)).1 = none :=
        wireApply_infallible (hentry hpersistent)
      rw [if_pos hpersistent]
      rcases hwrite : n.wireApply owner entry (readDefault cfg entry) with ⟨_ | e, m⟩
      · exact ih hentries
      · rw [hwrite] at hresult
        cases hresult
    · rw [if_neg hpersistent]
      exact ih hentries

/-- With nothing to write it returns 0. -/
theorem applyDefaults_nothing (h : entries.filter Entry.persistent = []) :
    (n.applyDefaults cfg owner entries).1 = none :=
  applyDefaults_infallible fun entry hentry hpersistent =>
    absurd hpersistent (List.filter_eq_nil_iff.1 h entry hentry)

/-- **A single write that is refused** leaves everything as it was. -/
theorem applyDefaults_single (hquiet : owner.Quiet)
    (hsingle : (entries.filter Entry.persistent).length = 1)
    (herror : (n.applyDefaults cfg owner entries).1 ≠ none) :
    (n.applyDefaults cfg owner entries).2 = n := by
  induction entries with
  | nil => cases hsingle
  | cons entry entries ih =>
    unfold applyDefaults at herror ⊢
    by_cases hpersistent : entry.persistent = true
    · rw [List.filter_cons_of_pos hpersistent, List.length_cons, Nat.add_eq_right] at hsingle
      rw [if_pos hpersistent] at herror ⊢
      rcases hwrite : n.wireApply owner entry (readDefault cfg entry) with ⟨_ | e, m⟩
      · rw [hwrite] at herror
        exact absurd (applyDefaults_nothing (List.length_eq_zero_iff.1 hsingle)) herror
      · obtain ⟨happly, hleft⟩ := wireApply_error (congrArg Prod.fst hwrite)
        have hsame : (owner.apply entry (readDefault cfg entry).scalar n.owner).2 = n.owner :=
          hquiet entry _ n.owner (by rw [happly]; exact fun h => by cases h)
        rw [hwrite, hsame] at hleft
        exact hleft
    · rw [List.filter_cons_of_neg hpersistent] at hsingle
      rw [if_neg hpersistent] at herror ⊢
      exact ih hsingle herror

end Node

/-- What is to hold of a restore of the defaults. -/
structure Node.AllOrNothing (cfg : Config) (n : Node ω) (r : Option Errno × Node ω) : Prop where
  /-- With 0 every persistent parameter has its declared default, -/
  persistent : r.1 = none → ∀ entry ∈ n.service.entries, entry.persistent = true →
    r.2.readStoredEntry cfg entry = .ok (entry.definition.declared cfg)
  /-- and every other one what it had. -/
  other : r.1 = none → ∀ entry ∈ n.service.entries, entry.persistent = false →
    r.2.storage entry.info.id = n.storage entry.info.id
  /-- With an error nothing has changed. -/
  error : r.1 ≠ none → r.2 = n

/-- The default of every persistent parameter is accepted by its validator. -/
theorem Accepted.checkDefaults {s : Service} (h : Accepted cfg s)
    (htyped : ∀ entry ∈ s.entries, entry.definition.Typed) :
    Node.checkDefaults cfg s.entries = none := by
  refine List.findSome?_eq_none_iff.2 fun entry hentry => ?_
  have hmem := (List.mem_filter.1 hentry).1
  exact (readDefault_valid (h.admitted entry hmem) (htyped entry hmem)).1

/-- A text that is too long is restored only where no persistent parameter has an `apply`. -/
theorem Accepted.infallible_of_overlong {s : Service} (h : Accepted cfg s)
    (hmix : ¬ ((s.entries.filter Entry.persistent).any (·.definition.apply.isSome) ∧
      (s.entries.filter Entry.persistent).length ≠ 1)) (hentry : entry ∈ s.entries)
    (hpersistent : entry.persistent = true) (hlong : entry.definition.Overlong cfg) :
    ∀ e ∈ s.entries, e.persistent = true → e.definition.apply = none := by
  intro e he hp
  by_contra happly
  have hany : (s.entries.filter Entry.persistent).any (·.definition.apply.isSome) = true :=
    List.any_eq_true.2 ⟨e, List.mem_filter.2 ⟨he, hp⟩, Option.isSome_iff_ne_none.2 happly⟩
  have hsingle : (s.entries.filter Entry.persistent).length = 1 := by
    by_contra hne
    exact hmix ⟨hany, hne⟩
  obtain ⟨only, honly⟩ := List.length_eq_one_iff.1 hsingle
  have hsame : ∀ x ∈ s.entries, x.persistent = true → x = only := fun x hx hxp => by
    have hmem : x ∈ s.entries.filter Entry.persistent := List.mem_filter.2 ⟨hx, hxp⟩
    rw [honly] at hmem
    exact List.mem_singleton.1 hmem
  obtain rfl := (hsame e he hp).trans (hsame entry hentry hpersistent).symm
  have htype := ((h.admitted e he).fallible (Option.isSome_iff_ne_none.2 happly)).1
  exact htype ((h.admitted e he).type.trans hlong.1)

/-- **The defaults that are restored.**  `kfsw_param_restore_defaults` is all or nothing, whatever
is stored: exactly unless no persistent parameter has an `apply` and one of them is a string of the
largest capacity with a default that does not fit it. -/
theorem restore_defaults_iff (hregistry : n.service.initialized = true → Accepted cfg n.service)
    (htyped : ∀ entry ∈ n.service.entries, entry.definition.Typed) (hquiet : owner.Quiet) :
    n.AllOrNothing cfg (n.restoreDefaults cfg owner) ↔ ¬ (n.service.initialized = true ∧
        (∀ entry ∈ n.service.entries, entry.persistent = true → entry.definition.apply = none) ∧
        ∃ entry ∈ n.service.entries, entry.persistent = true ∧ entry.definition.Overlong cfg) := by
  have hunchanged : ∀ e, n.AllOrNothing cfg (some e, n) := fun _ => ⟨nofun, nofun, fun _ => rfl⟩
  unfold Node.restoreDefaults
  dsimp only
  by_cases hinit : n.service.initialized = true
  swap
  · rw [if_pos (by simpa using hinit)]
    exact iff_of_true (hunchanged _) fun h => hinit h.1
  have hacc := hregistry hinit
  rw [if_neg (by simpa using hinit), hacc.checkDefaults htyped]
  dsimp only
  by_cases hmix : (n.service.entries.filter Entry.persistent).any (·.definition.apply.isSome) ∧
      (n.service.entries.filter Entry.persistent).length ≠ 1
  · rw [if_pos hmix]
    refine iff_of_true (hunchanged _) fun h => ?_
    obtain ⟨entry, hentry, happly⟩ := List.any_eq_true.1 hmix.1
    obtain ⟨hmem, hpersistent⟩ := List.mem_filter.1 hentry
    exact Option.isSome_iff_ne_none.1 happly (h.2.1 entry hmem hpersistent)
  rw [if_neg hmix]
  by_cases hresult : (n.applyDefaults cfg owner n.service.entries).1 = none
  · have hread : ∀ entry ∈ n.service.entries, entry.persistent = true →
        ((n.applyDefaults cfg owner n.service.entries).2.readStoredEntry cfg entry =
          .ok (entry.definition.declared cfg) ↔ ¬ entry.definition.Overlong cfg) :=
      fun entry hentry hpersistent =>
        readStoredEntry_default_iff (hacc.admitted entry hentry) (htyped entry hentry)
          (Node.applyDefaults_persistent hacc.ids hresult hentry hpersistent)
    constructor
    · rintro hall ⟨-, -, entry, hentry, hpersistent, hlong⟩
      exact (hread entry hentry hpersistent).1 (hall.persistent hresult entry hentry hpersistent)
        hlong
    · intro hshort
      refine ⟨fun _ entry hentry hpersistent => ?_, fun _ entry hentry hpersistent => ?_,
        fun h => absurd hresult h⟩
      · refine (hread entry hentry hpersistent).2 fun hlong => hshort ⟨hinit, ?_, ?_⟩
        · exact hacc.infallible_of_overlong hmix hentry hpersistent hlong
        · exact ⟨entry, hentry, hpersistent, hlong⟩
      · refine Node.applyDefaults_other fun e he hp heq => ?_
        obtain rfl := hacc.eq_of_id he hentry heq
        rw [hp] at hpersistent
        cases hpersistent
  · have hfallible : ¬ ∀ entry ∈ n.service.entries, entry.persistent = true →
        entry.definition.apply = none := fun h => hresult (Node.applyDefaults_infallible h)
    refine iff_of_true ⟨fun h => absurd h hresult, fun h => absurd h hresult, fun _ => ?_⟩
      fun h => hfallible h.2.1
    push Not at hfallible
    obtain ⟨entry, hentry, hpersistent, happly⟩ := hfallible
    refine Node.applyDefaults_single hquiet ?_ hresult
    by_contra hne
    exact hmix ⟨List.any_eq_true.2 ⟨entry, List.mem_filter.2 ⟨hentry, hpersistent⟩,
      Option.isSome_iff_ne_none.2 happly⟩, hne⟩

/-- The byte is restored. -/
theorem restore_defaults_kept :
    (keptNode 9).AllOrNothing smallBuild ((keptNode 9).restoreDefaults smallBuild Owner.idle) := by
  have hinit := init_keptTable 9
  have hentry : ∀ entry ∈ (keptNode 9).service.entries,
      entry.definition.Typed ∧ entry.definition.type = .U8 := fun entry hentry =>
    supplied_keptTable ((init_ok hinit).definitions.mem_iff.1 (List.mem_map.2 ⟨entry, hentry, rfl⟩))
  refine (restore_defaults_iff (fun _ => init_accepted hinit) (fun entry he => (hentry entry he).1)
    fun _ _ _ h => absurd rfl h).2 ?_
  rintro ⟨-, -, entry, he, -, htext, -⟩
  rw [(hentry entry he).2] at htext
  cases htext

/-- **A default that is restored in part.**  The string of 104 bytes again: the restore returns 0,
and it has 103 of the characters that it declares. -/
theorem restore_cuts_default : Accepted smallBuild longNode.service ∧
    (longNode.restoreDefaults smallBuild Owner.idle).1 = none ∧
    ¬ longNode.AllOrNothing smallBuild (longNode.restoreDefaults smallBuild Owner.idle) := by
  have hinit : Param.init smallBuild [some longTable] Service.boot = (none, longNode.service) :=
    Prod.ext (by decide +kernel) (by rfl)
  have hnone : (longNode.restoreDefaults smallBuild Owner.idle).1 = none := by decide +kernel
  refine ⟨init_accepted hinit, hnone, fun hall => ?_⟩
  have hpersistent : ∀ entry ∈ longNode.service.entries, entry.persistent = true := by
    decide +kernel
  have hstored : (longNode.service.entries.map fun entry =>
      ((longNode.restoreDefaults smallBuild Owner.idle).2.readStoredEntry smallBuild
        entry).toOption.map (·.text.length)) = [some 103] := by
    decide +kernel
  rw [List.map_congr_left fun entry hentry => by
    rw [hall.persistent hnone entry hentry (hpersistent entry hentry)]] at hstored
  exact absurd hstored (by decide +kernel)

end KfswServices.Param
