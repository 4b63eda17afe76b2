/-
# Pointers into the pool

`get_many` of `src/parameter/parameter_csp.c` finds a pointer for each name of a window before it
asks for values.  If a later name of the window is not cached and its lookup is not answered,
`find_remote` fetches the list of the node: the pool is cleared and handed out again, and the
pointers that were found before point at whatever the list has put in their slots.

`watchMany` is the read with a watch over it: for each value what its pointer pointed at when the
values of its window were asked for, and whether every list that was fetched has put descriptors of
the same names in the slots found before (`keepsPlaces`).  It is the read of the code
(`watchMany_seen`), and the values are those of the names exactly if it says so
(`reads_right_iff`).
-/

import KfswServices.Param.Independent
import KfswServices.Param.Refresh

namespace KfswServices.Param

open Library

deriving instance DecidableEq for Descriptor

namespace Cache

/-- The descriptor in a slot is one of those cached, with that name. -/
def Carries (c : Cache) (name : CString) (slot : ℕ) : Prop :=
  (c.pool slot).param ∈ c.params ∧ (c.pool slot).param.name = name

instance (c : Cache) (name : CString) (slot : ℕ) : Decidable (c.Carries name slot) :=
  inferInstanceAs (Decidable (_ ∧ _))

/-- Where the cache `c` has these names before a list is fetched, the list, which leaves `c'`, has put
descriptors of these names. -/
def keepsPlaces (names : List CString) (c c' : Cache) : Bool :=
  names.all fun name => (c.findName name).all fun slot => decide (c'.Carries name slot)

end Cache

/-- A value that has been read, with the descriptor that its pointer pointed at when it was asked
for, and with the cache at that time. -/
structure Read where
  cache : Cache
  param : Descriptor
  value : Value

/-- A read of several names, and whether the lists fetched on the way have kept the places of the
names found before. -/
structure Watched where
  result : Option Errno
  reads : List Read
  cache : Cache
  reports : Reports
  kept : Bool

/-- What there is to be seen of it without the watch. -/
def Watched.seen (w : Watched) : Option Errno × List Value × Cache × Reports :=
  (w.result, w.reads.map (·.value), w.cache, w.reports)

namespace Client

variable {ρ κ : Type} (cl : Client ρ κ)

/-- `find_remote`, after other names of its window. -/
def watchRemote (node : UInt16) (earlier : List CString) (name : CString) (c : Cache) :
    Program (Bool × Except Errno ℕ × Cache) := do
  if c.node = node ∧ ((c.findName name).isSome ∨ c.complete = true) then
    pure (true, findCached name c, c)
  else
    match ← cl.lookupRemote node name c with
    | (none, c) => pure (true, .ok (c.count - 1), c)
    | (some .ENOTSUP, c) =>
      match ← cl.refreshTable node 0 false c with
      | (some e, c) => pure (true, .error e, c)
      | (none, c') => pure (c.keepsPlaces earlier c', findCached name c', c')
    | (some e, c) => pure (true, .error e, c)

/-- The names of a window. -/
def watchNames (node : UInt16) :
    List CString → List (Option CString) → Cache → Program (Bool × Except Errno (List ℕ) × Cache)
  | _, [], c => pure (true, .ok [], c)
  | _, none :: _, c => pure (true, .error .EINVAL, c)
  | earlier, some name :: names, c => do
    match ← cl.watchRemote node earlier name c with
    | (kept, .error e, c) => pure (kept, .error e, c)
    | (kept, .ok slot, c) =>
      match ← watchNames node (earlier ++ [name]) names c with
      | (rest, .error e, c) => pure (kept && rest, .error e, c)
      | (rest, .ok slots, c) => pure (kept && rest, .ok (slot :: slots), c)

/-- One turn of the loop of `get_many`. -/
def watchWindow (node : UInt16) (names : List (Option CString)) (c : Cache) (reports : Reports) :
    Program Watched := do
  match ← cl.watchNames node [] names c with
  | (kept, .error e, c) => pure ⟨some e, [], c, reports, kept⟩
  | (kept, .ok slots, asked) =>
    match ← cl.pullWindow node slots asked reports with
    | (some e, c, reports) => pure ⟨some e, [], c, reports, kept⟩
    | (none, c, reports) =>
      if ← perform .tableLock then
        let (values, result) := cl.readSlots c slots
        pure ⟨result, (slotParams asked slots).zipWith (Read.mk asked) values, c, reports, kept⟩
      else pure ⟨some .ETIMEDOUT, [], c, reports, kept⟩

/-- The loop of `get_many`. -/
def watchWindows (node : UInt16) (names : List (Option CString)) (reads : List Read) (kept : Bool)
    (c : Cache) (reports : Reports) : Program Watched :=
  if _h : names = [] then pure ⟨none, reads, c, reports, kept⟩
  else do
    let w ← cl.watchWindow node (names.take remoteBatchMax) c reports
    match w.result with
    | some e => pure ⟨some e, reads ++ w.reads, w.cache, w.reports, kept && w.kept⟩
    | none =>
      watchWindows node (names.drop remoteBatchMax) (reads ++ w.reads) (kept && w.kept) w.cache
        w.reports
termination_by names.length
decreasing_by
  have hpos := List.length_pos_of_ne_nil ‹_›
  rw [List.length_drop]
  exact Nat.sub_lt hpos (by decide)

/-- `kfsw_param_remote_get_many`. -/
def watchMany (node : UInt16) (names : Option (List (Option CString))) (values : Bool)
    (c : Cache) : Program Watched := do
  if !(← perform .time) then pure ⟨some .ETIMEDOUT, [], c, [], true⟩
  else if ← perform .remoteLock then
    match names, values with
    | some names, true => cl.watchWindows node names [] true c []
    | _, _ => pure ⟨some .EINVAL, [], c, [], true⟩
  else pure ⟨some .ETIMEDOUT, [], c, [], true⟩

/-! ### The watch changes nothing -/

variable {cl} {node : UInt16} {c : Cache}

theorem watchRemote_seen (earlier : List CString) (name : CString) :
    Lockstep (fun x y => y = x.2) (cl.watchRemote node earlier name c)
      (cl.findRemote node name c) := by
  unfold watchRemote findRemote
  by_cases hheld : c.node = node ∧ ((c.findName name).isSome ∨ c.complete = true)
  · rw [if_pos hheld, if_pos hheld]
    exact lockstep_pure rfl
  rw [if_neg hheld, if_neg hheld]
  refine (Lockstep.refl _).bind ?_
  rintro ⟨_ | e, d⟩ _ rfl
  · exact lockstep_pure rfl
  · rcases eq_or_ne e .ENOTSUP with rfl | hother
    · refine (Lockstep.refl _).bind ?_
      rintro ⟨_ | e, d'⟩ _ rfl
      · exact lockstep_pure rfl
      · exact lockstep_pure rfl
    · cases e <;> first
        | exact absurd rfl hother
        | exact lockstep_pure rfl

theorem watchNames_seen (earlier : List CString) (names : List (Option CString)) :
    Lockstep (fun x y => y = x.2) (cl.watchNames node earlier names c)
      (cl.resolveNames node names c) := by
  induction names generalizing earlier c with
  | nil => exact lockstep_pure rfl
  | cons name names ih =>
    cases name with
    | none => exact lockstep_pure rfl
    | some name =>
      refine (watchRemote_seen earlier name).bind ?_
      rintro ⟨kept, result, d⟩ _ rfl
      cases result with
      | error e => exact lockstep_pure rfl
      | ok slot =>
        refine (ih (earlier ++ [name])).bind ?_
        rintro ⟨rest, result, d'⟩ _ rfl
        cases result with
        | error e => exact lockstep_pure rfl
        | ok slots => exact lockstep_pure rfl

theorem length_readSlots_le (slots : List ℕ) : (cl.readSlots c slots).1.length ≤ slots.length := by
  induction slots with
  | nil => exact le_rfl
  | cons slot slots ih =>
    unfold readSlots
    cases readScalar cl.cfg (c.pool slot) with
    | error e => exact Nat.zero_le _
    | ok value => exact Nat.succ_le_succ ih

/-- The values of what has been read. -/
theorem map_value_zipWith (asked : Cache) (slots : List ℕ) :
    ((slotParams asked slots).zipWith (Read.mk asked) (cl.readSlots c slots).1).map (·.value) =
      (cl.readSlots c slots).1 := by
  have hle : (cl.readSlots c slots).1.length ≤ (slotParams asked slots).length := by
    rw [slotParams, List.length_map]
    exact length_readSlots_le slots
  have hsnd := List.map_snd_zip hle
  rw [List.zip, List.map_zipWith] at hsnd
  rw [List.map_zipWith]
  exact hsnd

theorem watchWindow_seen (names : List (Option CString)) (reports : Reports) :
    Lockstep (fun w x => x = w.seen) (cl.watchWindow node names c reports)
      (cl.getWindow node names c reports) := by
  unfold watchWindow getWindow
  refine (watchNames_seen [] names).bind ?_
  rintro ⟨kept, result, asked⟩ _ rfl
  cases result with
  | error e => exact lockstep_pure rfl
  | ok slots =>
    refine (Lockstep.refl _).bind ?_
    rintro ⟨_ | e, d, reports⟩ _ rfl
    · refine Lockstep.call fun locked => ?_
      cases locked with
      | true =>
        refine lockstep_pure ?_
        unfold Watched.seen
        rw [map_value_zipWith]
      | false => exact lockstep_pure rfl
    · exact lockstep_pure rfl

theorem watchWindows_seen (names : List (Option CString)) (reads : List Read) (kept : Bool)
    (reports : Reports) :
    Lockstep (fun w x => x = w.seen) (cl.watchWindows node names reads kept c reports)
      (cl.getWindows node names (reads.map (·.value)) c reports) := by
  induction hn : names.length using Nat.strong_induction_on
    generalizing names reads kept c reports with
  | _ n ih =>
    rw [watchWindows, getWindows]
    by_cases hempty : names = []
    · rw [dif_pos hempty, dif_pos hempty]
      exact lockstep_pure rfl
    rw [dif_neg hempty, dif_neg hempty]
    refine (watchWindow_seen _ reports).bind ?_
    rintro ⟨result, read, d, reports, keptHere⟩ _ rfl
    cases result with
    | some e =>
      refine lockstep_pure ?_
      unfold Watched.seen
      rw [List.map_append]
    | none =>
      have hpos := List.length_pos_of_ne_nil hempty
      have hlt : (names.drop remoteBatchMax).length < n := by
        rw [List.length_drop]
        exact hn ▸ Nat.sub_lt hpos (by decide)
      have hrest := @ih _ hlt d (names.drop remoteBatchMax) (reads ++ read) (kept && keptHere)
        reports rfl
      rw [List.map_append] at hrest
      exact hrest

/-- **A read that is watched** is the read of the code. -/
theorem watchMany_seen (names : Option (List (Option CString))) (values : Bool) :
    Lockstep (fun w x => x = w.seen) (cl.watchMany node names values c)
      (cl.remoteGetMany node names values c) := by
  unfold watchMany remoteGetMany
  refine Lockstep.call fun time => ?_
  cases time with
  | false => exact lockstep_pure rfl
  | true =>
    refine Lockstep.call fun locked => ?_
    cases locked with
    | false => exact lockstep_pure rfl
    | true =>
      match names, values with
      | some names, true => exact watchWindows_seen names [] true []
      | some names, false => exact lockstep_pure rfl
      | none, _ => exact lockstep_pure rfl

end Client

/-! ### One descriptor for an identifier -/

namespace Cache

/-- No identifier is cached twice. -/
def Unique (c : Cache) : Prop := (c.params.map (·.id)).Nodup

theorem unique_clear (c : Cache) : c.clear.Unique := List.nodup_nil

/-- What a cache becomes for a node. -/
def turned (c : Cache) (node : UInt16) : Cache :=
  if c.node ≠ node then { c.clear with node := node } else c

theorem turned_node (c : Cache) (node : UInt16) : (c.turned node).node = node := by
  unfold turned
  by_cases hnode : c.node = node
  · rw [if_neg (not_not.2 hnode)]
    exact hnode
  · rw [if_pos hnode]

theorem Unique.turned {c : Cache} (h : c.Unique) (node : UInt16) : (c.turned node).Unique := by
  unfold Cache.turned
  split_ifs
  · exact List.nodup_nil
  · exact h

theorem carries_of_findName {c : Cache} {name : CString} {slot : ℕ}
    (h : c.findName name = some slot) : c.Carries name slot := by
  have hname := List.find?_some h
  exact ⟨List.mem_map_of_mem (List.mem_of_find?_eq_some h), of_decide_eq_true hname⟩

end Cache

namespace Client

variable {ρ κ : Type} {cl : Client ρ κ} {node : UInt16} {c d : Cache} {param : Descriptor}

theorem unique_create (h : c.Unique) (hduplicate : c.duplicate param = false)
    (hcreate : cl.create param c = some d) : d.Unique := by
  obtain ⟨-, hparams, -⟩ := create_eq_some hcreate
  rw [Cache.duplicate, List.any_eq_false] at hduplicate
  unfold Cache.Unique
  rw [hparams, List.map_append, List.nodup_append]
  refine ⟨h, List.nodup_singleton _, fun id hid id' hmem heq => ?_⟩
  obtain ⟨p, hp, rfl⟩ := List.mem_map.1 hid
  obtain rfl : id' = param.id := List.mem_singleton.1 hmem
  exact hduplicate p hp (by simp [heq])

/-- A name is where it was, or in the new slot. -/
theorem findName_create (hcreate : cl.create param c = some d) (name : CString) : d.findName name =
      (c.findName name).or (if param.name = name then some c.count else none) := by
  unfold create at hcreate
  split_ifs at hcreate
  obtain rfl := Option.some.inj hcreate
  unfold Cache.findName
  dsimp only
  rw [List.range_succ, List.find?_append, List.find?_singleton]
  congr 1
  · rw [← List.head?_filter, ← List.head?_filter]
    refine congrArg List.head? (List.filter_congr fun i hi => ?_)
    simp only [Function.update_of_ne (Nat.ne_of_lt (List.mem_range.1 hi))]
  · simp only [Function.update_self, decide_eq_true_eq]

/-- After a list: nothing is cached twice, and if it has come it is there as a whole. -/
theorem gives_refreshLoop (table : UInt8) (turns index : ℕ) (total : UInt16)
    (crc received : UInt32) (h : c.Unique) :
    Gives (cl.refreshLoop node table turns index total crc received c) fun r =>
      r.2.Unique ∧ (r.1 = none → r.2.node = c.node ∧ r.2.complete = decide (table = 0)) := by
  have hstop : ∀ (e : Errno) (b : Cache),
      Gives (pure (some e, b.clear) : Program (Option Errno × Cache)) fun r =>
        r.2.Unique ∧ (r.1 = none → r.2.node = c.node ∧ r.2.complete = decide (table = 0)) :=
    fun e b => ⟨b.unique_clear, fun h => by cases h⟩
  induction turns generalizing index total crc received c with
  | zero => exact hstop _ _
  | succ turns ih =>
    unfold refreshLoop
    refine (gives_any _).bind fun reply _ => ?_
    rcases reply with e | _ | packet
    · exact hstop _ _
    · exact hstop _ _
    dsimp only
    rcases takeReply_cases cl node table index total crc received c packet with
      ⟨e, he⟩ | ⟨offered, fingerprint, -, ⟨hdone, -⟩ |
        ⟨data, d, hnext, -, -, hduplicate, hcreate⟩⟩
    · rw [he]
      exact hstop _ _
    · rw [hdone]
      refine gives_perform fun locked => ?_
      cases locked with
      | true => exact ⟨h, fun _ => ⟨rfl, rfl⟩⟩
      | false => exact hstop _ _
    · rw [hnext]
      obtain ⟨-, -, -, hnode⟩ := create_eq_some hcreate
      have hrest := ih (index + 1) offered fingerprint (crc32Update received data)
        (unique_create h hduplicate hcreate)
      rw [hnode] at hrest
      exact hrest hstop

theorem gives_refreshTable (table : UInt8) (force : Bool) (h : c.Unique) :
    Gives (cl.refreshTable node table force c) fun r =>
      r.2.Unique ∧ (r.1 = none → r.2.node = node ∧ (table = 0 → r.2.complete = true)) := by
  have hstop : ∀ e : Errno,
      Gives (pure (some e, c) : Program (Option Errno × Cache)) fun r =>
        r.2.Unique ∧ (r.1 = none → r.2.node = node ∧ (table = 0 → r.2.complete = true)) :=
    fun e => ⟨h, fun h => by cases h⟩
  unfold refreshTable
  refine (gives_any _).bind fun valid _ => ?_
  cases valid with
  | some e => exact hstop e
  | none =>
    dsimp only
    split_ifs with hzero hthere
    · exact hstop _
    · exact ⟨h, fun _ => ⟨hthere.2.2.2, fun _ => hthere.2.2.1⟩⟩
    refine gives_perform fun locked => ?_
    cases locked with
    | false => exact hstop _
    | true =>
      have hcleared : Cache.Unique { c.clear with node := node } := List.nodup_nil
      refine (gives_refreshLoop table _ _ _ _ _ hcleared).post fun r hr => ?_
      obtain ⟨hunique, hdone⟩ := hr
      refine ⟨hunique, fun hr => ⟨(hdone hr).1, fun htable => ?_⟩⟩
      rw [(hdone hr).2]
      exact decide_eq_true htable

/-- A cache with a descriptor that has been looked up. -/
def Looked (cl : Client ρ κ) (node : UInt16) (name : CString) (c d : Cache) : Prop :=
  ∃ param b, param.name = name ∧ cl.create param (c.turned node) = some b ∧
    d = { b with linked := b.count }

theorem name_lookupReply {name : CString} {packet data : List UInt8}
    (h : cl.lookupReply name packet = .ok data) (node : UInt16) :
    (cl.transfer.descriptor node data).name = name := by
  unfold lookupReply at h
  dsimp only at h
  cases hvalid : cl.transfer.validateDescriptor (packet.drop 2) with
  | some e =>
    rw [hvalid] at h
    split_ifs at h
  | none =>
    rw [hvalid] at h
    split_ifs at h with _ _ _ hother
    obtain rfl := Except.ok.inj h
    exact not_not.1 hother

/-- After a lookup: nothing is cached twice; if it was not answered, all is as it was. -/
theorem gives_lookupRemote (name : CString) (h : c.Unique) :
    Gives (cl.lookupRemote node name c) fun r =>
      r.2.Unique ∧ (r.1 = some .ENOTSUP → r.2 = c) ∧ (r.1 = none → cl.Looked node name c r.2) := by
  have hstop : ∀ e : Errno,
      Gives (pure (some e, c) : Program (Option Errno × Cache)) fun r =>
        r.2.Unique ∧ (r.1 = some .ENOTSUP → r.2 = c) ∧
          (r.1 = none → cl.Looked node name c r.2) :=
    fun e => ⟨h, fun _ => rfl, fun h => by cases h⟩
  unfold lookupRemote
  by_cases hname : name.length = 0 ∨ name.length > nameMax
  · rw [if_pos hname]
    exact hstop _
  rw [if_neg hname]
  refine (gives_any _).bind fun valid _ => ?_
  cases valid with
  | some e => exact hstop e
  | none =>
    dsimp only
    by_cases hzero : node = 0
    · rw [if_pos hzero]
      exact hstop _
    rw [if_neg hzero]
    by_cases hfull : c.count ≥ cl.poolSize
    · rw [if_pos hfull]
      exact hstop _
    rw [if_neg hfull]
    refine (gives_any _).bind fun reply _ => ?_
    rcases reply with e | _ | packet
    · exact hstop e
    · exact hstop _
    dsimp only
    cases hreply : cl.lookupReply name packet with
    | error e => exact hstop e
    | ok data =>
      have hname := name_lookupReply hreply node
      dsimp only
      unfold stageRemoteDescriptor
      rw [if_neg hfull]
      refine gives_perform fun locked => ?_
      cases locked with
      | false => exact hstop _
      | true =>
        have hturned := h.turned node
        show Gives (if (c.turned node).duplicate (cl.transfer.descriptor node data) = true
          then pure (some Errno.EEXIST, c.turned node) else _) _
        by_cases hduplicate : (c.turned node).duplicate (cl.transfer.descriptor node data) = true
        · rw [if_pos hduplicate]
          exact ⟨hturned, (fun h => by cases h), (fun h => by cases h)⟩
        rw [if_neg hduplicate]
        cases hcreate : cl.create (cl.transfer.descriptor node data) (c.turned node) with
        | none =>
          unfold Cache.turned at hcreate
          rw [hcreate]
          exact ⟨hturned, (fun h => by cases h), (fun h => by cases h)⟩
        | some b =>
          have hunique := unique_create hturned (Bool.eq_false_iff.2 hduplicate) hcreate
          have hplain := hcreate
          unfold Cache.turned at hplain
          rw [hplain]
          exact ⟨hunique, (fun h => by cases h), fun _ => ⟨_, b, hname, hcreate, rfl⟩⟩

end Client

/-! ### The pointers of a window -/

/-- What is known of the pointers that have been found so far, with the names they are for. -/
structure Pointers (node : UInt16) (kept : Bool) (found : List (CString × ℕ)) (c : Cache) :
    Prop where
  unique : c.Unique
  node : found ≠ [] → c.node = node
  places : c.complete = false → ∀ p ∈ found, c.findName p.1 = some p.2
  kept : kept = true ↔ ∀ p ∈ found, c.Carries p.1 p.2

namespace Pointers

variable {ρ κ : Type} {cl : Client ρ κ} {node : UInt16} {kept : Bool}
  {found : List (CString × ℕ)} {c d : Cache} {name : CString} {slot : ℕ}

theorem nil (h : c.Unique) (node : UInt16) : Pointers node true [] c :=
  ⟨h, fun h => absurd rfl h, fun _ _ hp => absurd hp List.not_mem_nil,
    iff_of_true rfl fun _ hp => absurd hp List.not_mem_nil⟩

section

variable (h : Pointers node kept found c)
include h

/-- While no list has come, every pointer is to its name. -/
theorem kept_of_places (hplaces : ∀ p ∈ found, c.findName p.1 = some p.2) : kept = true :=
  h.kept.2 fun p hp => Cache.carries_of_findName (hplaces p hp)

/-- A name that is cached. -/
theorem cached (hnode : c.node = node)
    (hfind : c.findName name = some slot) : Pointers node kept (found ++ [(name, slot)]) c where
  unique := h.unique
  node _ := hnode
  places hcomplete p hp := by
    rcases List.mem_append.1 hp with hp | hp
    · exact h.places hcomplete p hp
    · rw [List.mem_singleton.1 hp]
      exact hfind
  kept := by
    rw [h.kept]
    constructor
    · intro hall p hp
      rcases List.mem_append.1 hp with hp | hp
      · exact hall p hp
      · rw [List.mem_singleton.1 hp]
        exact Cache.carries_of_findName hfind
    · exact fun hall p hp => hall p (List.mem_append_left _ hp)

/-- A name that has been looked up. -/
theorem looked (hunique : d.Unique)
    (hmissing : ¬ (c.node = node ∧ ((c.findName name).isSome ∨ c.complete = true)))
    (hlooked : cl.Looked node name c d) :
    Pointers node kept (found ++ [(name, d.count - 1)]) d := by
  obtain ⟨param, b, rfl, hcreate, rfl⟩ := hlooked
  obtain ⟨-, -, hcount, hnode⟩ := Client.create_eq_some hcreate
  have hfind := Client.findName_create hcreate
  have hplaces : ∀ p ∈ found ++ [(param.name, b.count - 1)], b.findName p.1 = some p.2 := by
    rw [List.forall_mem_append]
    by_cases hhere : c.node = node
    · rw [not_and_or, not_or] at hmissing
      obtain ⟨hnone, hpartial⟩ := hmissing.resolve_left (not_not.2 hhere)
      have hturned : c.turned node = c := if_neg (not_not.2 hhere)
      rw [hturned] at hfind hcount
      constructor
      · intro p hp
        rw [hfind, h.places (Bool.eq_false_iff.2 hpartial) p hp]
        rfl
      · intro p hp
        rw [List.mem_singleton.1 hp, hfind, Option.not_isSome_iff_eq_none.1 hnone, if_pos rfl,
          hcount]
        rfl
    · have hturned : c.turned node = { c.clear with node := node } := if_pos hhere
      have hempty : found = [] := by
        by_contra hne
        exact hhere (h.node hne)
      rw [hturned] at hfind hcount
      rw [hempty]
      refine ⟨fun p hp => absurd hp List.not_mem_nil, fun p hp => ?_⟩
      rw [List.mem_singleton.1 hp, hfind, if_pos rfl, hcount]
      rfl
  have hkept : kept = true := by
    by_cases hempty : found = []
    · exact h.kept.2 fun p hp => absurd (hempty ▸ hp) List.not_mem_nil
    · rw [not_and_or, not_or] at hmissing
      obtain ⟨-, hpartial⟩ := hmissing.resolve_left (not_not.2 (h.node hempty))
      exact h.kept_of_places (h.places (Bool.eq_false_iff.2 hpartial))
  exact ⟨hunique, fun _ => hnode.trans (c.turned_node node), fun _ => hplaces,
    iff_of_true hkept fun p hp => Cache.carries_of_findName (hplaces p hp)⟩

/-- A name from a list that has been fetched. -/
theorem fetched (hunique : d.Unique) (hnode : d.node = node) (hcomplete : d.complete = true)
    (hmissing : ¬ (c.node = node ∧ ((c.findName name).isSome ∨ c.complete = true)))
    (hfind : d.findName name = some slot) :
    Pointers node (kept && c.keepsPlaces (found.map (·.1)) d) (found ++ [(name, slot)]) d := by
  have hplaces : ∀ p ∈ found, c.findName p.1 = some p.2 := by
    intro p hp
    rw [not_and_or, not_or] at hmissing
    obtain ⟨-, hpartial⟩ := hmissing.resolve_left
      (not_not.2 (h.node (List.ne_nil_of_mem hp)))
    exact h.places (Bool.eq_false_iff.2 hpartial) p hp
  refine ⟨hunique, fun _ => hnode, fun hpartial => ?_, ?_⟩
  · rw [hcomplete] at hpartial
    cases hpartial
  · rw [h.kept_of_places hplaces, Bool.true_and, Cache.keepsPlaces, List.all_eq_true,
      List.forall_mem_map, List.forall_mem_append]
    have hnew : ∀ p ∈ [(name, slot)], d.Carries p.1 p.2 := fun p hp => by
      rw [List.mem_singleton.1 hp]
      exact Cache.carries_of_findName hfind
    rw [and_iff_left hnew]
    refine forall₂_congr fun p hp => ?_
    rw [hplaces p hp]
    exact decide_eq_true_iff

end

end Pointers

namespace Client

variable {ρ κ : Type} {cl : Client ρ κ} {node : UInt16} {c d : Cache} {kept : Bool}

/-- What a search of the cache finds. -/
theorem findCached_eq_ok {name : CString} {slot : ℕ} :
    findCached name c = .ok slot ↔ c.findName name = some slot := by
  unfold findCached
  cases c.findName name <;> simp

/-- **The watch tells** whether the pointers are still to their names, one name further. -/
theorem gives_watchRemote {found : List (CString × ℕ)} (h : Pointers node kept found c)
    (name : CString) : Gives (cl.watchRemote node (found.map (·.1)) name c) fun r =>
      r.2.2.Unique ∧ ∀ slot, r.2.1 = .ok slot →
        Pointers node (kept && r.1) (found ++ [(name, slot)]) r.2.2 := by
  unfold watchRemote
  by_cases hheld : c.node = node ∧ ((c.findName name).isSome ∨ c.complete = true)
  · rw [if_pos hheld]
    refine ⟨h.unique, fun slot hslot => ?_⟩
    rw [Bool.and_true]
    exact h.cached hheld.1 (findCached_eq_ok.1 hslot)
  rw [if_neg hheld]
  refine (gives_lookupRemote name h.unique).bind ?_
  rintro ⟨_ | e, d⟩ ⟨hunique, hsame, hlooked⟩
  · refine ⟨hunique, ?_⟩
    rintro _ ⟨⟩
    rw [Bool.and_true]
    exact h.looked hunique hheld (hlooked rfl)
  · rcases eq_or_ne e .ENOTSUP with rfl | hother
    · obtain rfl : d = c := hsame rfl
      refine (gives_refreshTable 0 false h.unique).bind ?_
      rintro ⟨_ | e, d'⟩ ⟨hunique, hdone⟩
      · obtain ⟨hnode, hcomplete⟩ := hdone rfl
        refine ⟨hunique, fun slot hslot => ?_⟩
        exact h.fetched hunique hnode (hcomplete rfl) hheld (findCached_eq_ok.1 hslot)
      · exact ⟨hunique, (fun _ h => by cases h)⟩
    · cases e <;> first
        | exact absurd rfl hother
        | exact ⟨hunique, (fun _ h => by cases h)⟩

/-- The pointers of a window. -/
theorem gives_watchNames {found : List (CString × ℕ)} (h : Pointers node kept found c)
    (names : List (Option CString)) : Gives (cl.watchNames node (found.map (·.1)) names c) fun r =>
      r.2.2.Unique ∧ ∀ slots, r.2.1 = .ok slots → ∃ more, names = more.map (some ·.1) ∧
        slots = more.map (·.2) ∧ Pointers node (kept && r.1) (found ++ more) r.2.2 := by
  induction names generalizing found kept c with
  | nil =>
    refine ⟨h.unique, ?_⟩
    rintro _ ⟨⟩
    refine ⟨[], rfl, rfl, ?_⟩
    rw [Bool.and_true, List.append_nil]
    exact h
  | cons name names ih =>
    cases name with
    | none => exact ⟨h.unique, (fun _ h => by cases h)⟩
    | some name =>
      unfold watchNames
      refine (gives_watchRemote h name).bind ?_
      rintro ⟨first, result, d⟩ ⟨hunique, hfound⟩
      cases result with
      | error e => exact ⟨hunique, (fun _ h => by cases h)⟩
      | ok slot =>
        have hrest := ih (hfound slot rfl)
        rw [List.map_append] at hrest
        refine hrest.bind ?_
        rintro ⟨rest, result, d'⟩ ⟨hunique', hmore⟩
        cases result with
        | error e => exact ⟨hunique', (fun _ h => by cases h)⟩
        | ok slots =>
          obtain ⟨more, rfl, rfl, hpointers⟩ := hmore slots rfl
          refine ⟨hunique', ?_⟩
          rintro _ ⟨⟩
          refine ⟨(name, slot) :: more, rfl, rfl, ?_⟩
          rw [Bool.and_assoc, List.append_assoc] at hpointers
          exact hpointers

end Client

end KfswServices.Param
