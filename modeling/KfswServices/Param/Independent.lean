/-
# Reading one node beside another

The cache of `src/parameter/parameter_csp.c` has the descriptors of one node.  A call on a node is
in step with the same call from another cache, as long as the two caches have the same of that node,
or both nothing (`Alike`): what is left in the pool from another node is never looked at.

What another node has left is not without effect, though.  `lookup_remote` refuses when the pool is
full, before `stage_remote_descriptor` would have cleared it, so a call on a node fails from a cache
that is full of another node's descriptors, and not from one that is not (`independent_iff`).
-/

import KfswServices.Library.Lockstep
import KfswServices.Param.Tables
import KfswServices.Param.Values

namespace KfswServices.Param

open Library

/-- A cache with nothing of a node: it is of another node, or of none. -/
def Cache.Other (c : Cache) (node : UInt16) : Prop :=
  c.node ≠ node ∨ (c.node = 0 ∧ c.count = 0 ∧ c.complete = false)

namespace Cache.Other

variable {c : Cache} {node : UInt16}

theorem node_ne (h : c.Other node) (hzero : node ≠ 0) : c.node ≠ node := by
  rcases h with hne | ⟨hnode, -⟩
  · exact hne
  · rw [hnode]
    exact hzero.symm

/-- There is nothing to be found in it. -/
theorem not_held (h : c.Other node) (name : CString) :
    ¬ (c.node = node ∧ ((c.findName name).isSome ∨ c.complete = true)) := by
  rintro ⟨hnode, hheld⟩
  rcases h with hne | ⟨-, hcount, hcomplete⟩
  · exact hne hnode
  · unfold Cache.findName at hheld
    rw [hcount, hcomplete] at hheld
    simp at hheld

end Cache.Other

/-- Two caches that have the same of a node, up to a slot, or both nothing of it; then both are full
or neither is. -/
structure Alike (poolSize : ℕ) (node : UInt16) (m : ℕ) (c c' : Cache) : Prop where
  pool : ∀ i < m, c'.pool i = c.pool i
  same : (c'.node = c.node ∧ c'.complete = c.complete ∧ c'.count = c.count ∧ c.count ≤ m) ∨
    (c.node ≠ node ∧ c'.node ≠ node ∧ (poolSize ≤ c.count ↔ poolSize ≤ c'.count))

namespace Alike

variable {poolSize m : ℕ} {node : UInt16} {c c' : Cache}

section

variable (h : Alike poolSize node m c c')
include h

theorem full : poolSize ≤ c.count ↔ poolSize ≤ c'.count := by
  rcases h.same with ⟨-, -, hcount, -⟩ | ⟨-, -, hfull⟩
  · rw [hcount]
  · exact hfull

theorem here : c'.node = node ↔ c.node = node := by
  rcases h.same with ⟨hnode, -⟩ | ⟨hne, hne', -⟩
  · rw [hnode]
  · exact iff_of_false hne' hne

/-- What two caches of the node have in common. -/
theorem of_node (hnode : c.node = node) :
    c'.complete = c.complete ∧ c'.count = c.count ∧ c.count ≤ m := by
  rcases h.same with ⟨-, hsame⟩ | ⟨hne, -⟩
  · exact hsame
  · exact absurd hnode hne

theorem params_eq (hnode : c.node = node) : c'.params = c.params := by
  obtain ⟨-, hcount, hle⟩ := h.of_node hnode
  unfold Cache.params
  rw [hcount]
  refine List.map_congr_left fun i hi => ?_
  have hlt := List.mem_range.1 hi
  rw [h.pool i (by omega)]

theorem findName_eq (hnode : c.node = node) (name : CString) :
    c'.findName name = c.findName name := by
  obtain ⟨-, hcount, hle⟩ := h.of_node hnode
  unfold Cache.findName
  rw [hcount, ← List.head?_filter, ← List.head?_filter]
  refine congrArg List.head? (List.filter_congr fun i hi => ?_)
  have hlt := List.mem_range.1 hi
  rw [h.pool i (by omega)]

theorem duplicate_eq (hnode : c.node = node)
    (param : Descriptor) : c'.duplicate param = c.duplicate param := by
  unfold Cache.duplicate
  rw [h.params_eq hnode]

/-- **A cache that is cleared for the node** has the same of it as another one. -/
theorem clear :
    Alike poolSize node m { c.clear with node := node } { c'.clear with node := node } :=
  ⟨h.pool, Or.inl ⟨rfl, rfl, rfl, Nat.zero_le m⟩⟩

theorem cleared : Alike poolSize node m c.clear c'.clear :=
  ⟨h.pool, Or.inl ⟨rfl, rfl, rfl, Nat.zero_le m⟩⟩

theorem store (slot : ℕ) (cells : Cells)
    (hslot : slot < m) : Alike poolSize node m (c.store slot cells) (c'.store slot cells) := by
  refine ⟨fun i hi => ?_, h.same⟩
  unfold Cache.store
  dsimp only
  rw [h.pool slot hslot]
  by_cases hne : i = slot
  · rw [hne, Function.update_self, Function.update_self]
  · rw [Function.update_of_ne hne, Function.update_of_ne hne, h.pool i hi]

end

end Alike

/-- Two ends of a call: the same result, and caches that are alike, with more than that. -/
def SameEnd {α : Type} (poolSize : ℕ) (node : UInt16) (m : ℕ) (more : α → ℕ → Cache → Prop)
    (x y : α × Cache) : Prop :=
  y.1 = x.1 ∧ ∃ m' ≥ m, Alike poolSize node m' x.2 y.2 ∧ more x.1 m' x.2

namespace Client

variable {ρ κ : Type} {cl : Client ρ κ} {node : UInt16} {m : ℕ} {c c' : Cache}

/-- A descriptor is put into both, or into neither. -/
theorem create_alike (h : Alike cl.poolSize node m c c') (hnode : c.node = node)
    (param : Descriptor) : (cl.create param c = none ∧ cl.create param c' = none) ∨
      ∃ d d', cl.create param c = some d ∧ cl.create param c' = some d' ∧
        d.node = node ∧ 0 < d.count ∧ ∃ m' ≥ m, Alike cl.poolSize node m' d d' := by
  obtain ⟨hcomplete, hcount, hle⟩ := h.of_node hnode
  have hnode' := h.here.2 hnode
  unfold create
  rw [hcount]
  by_cases hroom : c.count < cl.poolSize
  · rw [if_pos hroom, if_pos hroom]
    refine Or.inr ⟨_, _, rfl, rfl, hnode, Nat.succ_pos _, max m (c.count + 1), le_max_left _ _,
      fun i hi => ?_, Or.inl ⟨hnode'.trans hnode.symm, hcomplete, rfl, le_max_right _ _⟩⟩
    dsimp only
    by_cases hne : i = c.count
    · rw [hne, Function.update_self, Function.update_self]
    · rw [Function.update_of_ne hne, Function.update_of_ne hne, h.pool i (by omega)]
  · rw [if_neg hroom, if_neg hroom]
    exact Or.inl ⟨rfl, rfl⟩

/-! ### The list -/

/-- Two turns that are the same, but for what is in the pools. -/
def SameTurn (poolSize : ℕ) (node : UInt16) (m : ℕ) : Turn → Turn → Prop
  | .stop e, .stop e' => e' = e
  | .done, .done => True
  | .next total crc received c, .next total' crc' received' c' =>
    total' = total ∧ crc' = crc ∧ received' = received ∧ c.node = node ∧
      ∃ m' ≥ m, Alike poolSize node m' c c'
  | _, _ => False

theorem takeReply_alike (h : Alike cl.poolSize node m c c') (hnode : c.node = node) (table : UInt8)
    (index : ℕ) (total : UInt16) (crc received : UInt32) (packet : List UInt8) :
    SameTurn cl.poolSize node m (cl.takeReply node table index total crc received c packet)
      (cl.takeReply node table index total crc received c' packet) := by
  unfold takeReply
  dsimp only
  rw [h.duplicate_eq hnode]
  rcases create_alike h hnode (cl.transfer.descriptor node (packet.drop listReplyHeader)) with
    ⟨hnone, hnone'⟩ | ⟨d, d', hsome, hsome', hd, -, halike⟩
  · rw [hnone, hnone']
    split_ifs <;> first | rfl | exact trivial
  · rw [hsome, hsome']
    split_ifs <;> first | rfl | exact trivial | exact ⟨rfl, rfl, rfl, hd, halike⟩

/-- After a list: if it has come, the cache is of the node. -/
abbrev AfterList (node : UInt16) (result : Option Errno) (_ : ℕ) (c : Cache) : Prop :=
  result = none → c.node = node

theorem sameEnd_error {e : Errno} (h : Alike cl.poolSize node m c c') :
    SameEnd cl.poolSize node m (AfterList node) (some e, c) (some e, c') :=
  ⟨rfl, m, le_rfl, h, fun h => by cases h⟩

/-- **The list is taken in step.** -/
theorem refreshLoop_alike (table : UInt8) (turns index : ℕ) (total : UInt16) (crc received : UInt32)
    (h : Alike cl.poolSize node m c c') (hnode : c.node = node) :
    Lockstep (SameEnd cl.poolSize node m (AfterList node))
      (cl.refreshLoop node table turns index total crc received c)
      (cl.refreshLoop node table turns index total crc received c') := by
  induction turns generalizing index total crc received m c c' with
  | zero => exact lockstep_pure (sameEnd_error h.cleared)
  | succ turns ih =>
    unfold refreshLoop
    refine (Lockstep.refl _).bind ?_
    rintro (e | _ | packet) _ rfl
    · exact lockstep_pure (sameEnd_error h.cleared)
    · exact lockstep_pure (sameEnd_error h.cleared)
    have hturn := takeReply_alike h hnode table index total crc received packet
    dsimp only
    cases hleft : cl.takeReply node table index total crc received c packet with
    | stop e =>
      cases hright : cl.takeReply node table index total crc received c' packet with
      | stop e' =>
        rw [hleft, hright] at hturn
        obtain rfl : e' = e := hturn
        exact lockstep_pure (sameEnd_error h.cleared)
      | done => rw [hleft, hright] at hturn; exact hturn.elim
      | next => rw [hleft, hright] at hturn; exact hturn.elim
    | done =>
      cases hright : cl.takeReply node table index total crc received c' packet with
      | stop e' => rw [hleft, hright] at hturn; exact hturn.elim
      | done =>
        refine Lockstep.call fun locked => ?_
        obtain ⟨hcomplete, hcount, hle⟩ := h.of_node hnode
        cases locked with
        | true =>
          exact lockstep_pure ⟨rfl, m, le_rfl, ⟨h.pool,
            Or.inl ⟨(h.here.2 hnode).trans hnode.symm, rfl, hcount, hle⟩⟩, fun _ => hnode⟩
        | false => exact lockstep_pure (sameEnd_error h.cleared)
      | next => rw [hleft, hright] at hturn; exact hturn.elim
    | next total₁ crc₁ received₁ d =>
      cases hright : cl.takeReply node table index total crc received c' packet with
      | stop e' => rw [hleft, hright] at hturn; exact hturn.elim
      | done => rw [hleft, hright] at hturn; exact hturn.elim
      | next total₂ crc₂ received₂ d' =>
        rw [hleft, hright] at hturn
        obtain ⟨rfl, rfl, rfl, hd, m', hm, halike⟩ := hturn
        refine (ih (index + 1) _ _ _ halike hd).mono ?_
        rintro x y ⟨hresult, m'', hm', hend⟩
        exact ⟨hresult, m'', hm.trans hm', hend⟩

/-- `refresh_table`. -/
theorem refreshTable_alike (h : Alike cl.poolSize node m c c') (table : UInt8) (force : Bool) :
    Lockstep (SameEnd cl.poolSize node m (AfterList node)) (cl.refreshTable node table force c)
      (cl.refreshTable node table force c') := by
  unfold refreshTable
  refine (Lockstep.refl _).bind ?_
  rintro (_ | e) _ rfl
  swap
  · exact lockstep_pure (sameEnd_error h)
  dsimp only
  by_cases hzero : node = 0
  · rw [if_pos hzero, if_pos hzero]
    exact lockstep_pure (sameEnd_error h)
  rw [if_neg hzero, if_neg hzero]
  have hheld : (force = false ∧ table = 0 ∧ c'.complete = true ∧ c'.node = node) ↔
      (force = false ∧ table = 0 ∧ c.complete = true ∧ c.node = node) := by
    constructor
    · rintro ⟨hforce, htable, hcomplete, hnode⟩
      have hnode := h.here.1 hnode
      exact ⟨hforce, htable, (h.of_node hnode).1 ▸ hcomplete, hnode⟩
    · rintro ⟨hforce, htable, hcomplete, hnode⟩
      exact ⟨hforce, htable, (h.of_node hnode).1.trans hcomplete, h.here.2 hnode⟩
  rw [if_congr hheld rfl rfl]
  by_cases hthere : force = false ∧ table = 0 ∧ c.complete = true ∧ c.node = node
  · rw [if_pos hthere, if_pos hthere]
    exact lockstep_pure ⟨rfl, m, le_rfl, h, fun _ => hthere.2.2.2⟩
  rw [if_neg hthere, if_neg hthere]
  refine Lockstep.call fun locked => ?_
  cases locked with
  | true => exact refreshLoop_alike table _ _ _ _ _ h.clear rfl
  | false => exact lockstep_pure (sameEnd_error h)

/-! ### One name -/

/-- After a lookup: if it has found the name, the cache is of the node, and is not empty. -/
abbrev AfterLookup (node : UInt16) (result : Option Errno) (_ : ℕ) (c : Cache) : Prop :=
  result = none → c.node = node ∧ 0 < c.count

section

variable (h : Alike cl.poolSize node m c c')
include h

theorem sameLookup_error {e : Errno} :
    SameEnd cl.poolSize node m (AfterLookup node) (some e, c) (some e, c') :=
  ⟨rfl, m, le_rfl, h, fun h => by cases h⟩

/-- `stage_remote_descriptor`. -/
theorem stageRemoteDescriptor_alike (data : List UInt8) :
    Lockstep (SameEnd cl.poolSize node m (AfterLookup node)) (cl.stageRemoteDescriptor node data c)
      (cl.stageRemoteDescriptor node data c') := by
  unfold stageRemoteDescriptor
  by_cases hfull : c.count ≥ cl.poolSize
  · rw [if_pos hfull, if_pos (h.full.1 hfull)]
    exact lockstep_pure (sameLookup_error h)
  rw [if_neg hfull, if_neg (mt h.full.2 hfull)]
  refine Lockstep.call fun locked => ?_
  cases locked with
  | false => exact lockstep_pure (sameLookup_error h)
  | true =>
    have hturned : ∃ d d', (if c.node ≠ node then { c.clear with node := node } else c) = d ∧
        (if c'.node ≠ node then { c'.clear with node := node } else c') = d' ∧
          Alike cl.poolSize node m d d' ∧ d.node = node := by
      by_cases hnode : c.node = node
      · rw [if_neg (not_not.2 hnode), if_neg (not_not.2 (h.here.2 hnode))]
        exact ⟨c, c', rfl, rfl, h, hnode⟩
      · rw [if_pos hnode, if_pos (mt h.here.1 hnode)]
        exact ⟨_, _, rfl, rfl, h.clear, rfl⟩
    obtain ⟨d, d', hd, hd', halike, hnode⟩ := hturned
    simp only [if_true]
    rw [hd, hd', halike.duplicate_eq hnode]
    by_cases hduplicate : d.duplicate (cl.transfer.descriptor node data) = true
    · rw [if_pos hduplicate, if_pos hduplicate]
      exact lockstep_pure (sameLookup_error halike)
    rw [if_neg hduplicate, if_neg hduplicate]
    rcases create_alike halike hnode (cl.transfer.descriptor node data) with
      ⟨hnone, hnone'⟩ | ⟨e, e', hsome, hsome', he, hpos, m', hm, hsame⟩
    · rw [hnone, hnone']
      exact lockstep_pure (sameLookup_error halike)
    · rw [hsome, hsome']
      obtain ⟨hcomplete, hcount, hle⟩ := hsame.of_node he
      exact lockstep_pure ⟨rfl, m', hm, ⟨hsame.pool,
        Or.inl ⟨(hsame.here.2 he).trans he.symm, hcomplete, hcount, hle⟩⟩, fun _ => ⟨he, hpos⟩⟩

/-- `lookup_remote`. -/
theorem lookupRemote_alike (name : CString) :
    Lockstep (SameEnd cl.poolSize node m (AfterLookup node)) (cl.lookupRemote node name c)
      (cl.lookupRemote node name c') := by
  unfold lookupRemote
  by_cases hname : name.length = 0 ∨ name.length > nameMax
  · rw [if_pos hname, if_pos hname]
    exact lockstep_pure (sameLookup_error h)
  rw [if_neg hname, if_neg hname]
  refine (Lockstep.refl _).bind ?_
  rintro (_ | e) _ rfl
  swap
  · exact lockstep_pure (sameLookup_error h)
  dsimp only
  by_cases hzero : node = 0
  · rw [if_pos hzero, if_pos hzero]
    exact lockstep_pure (sameLookup_error h)
  rw [if_neg hzero, if_neg hzero]
  by_cases hfull : c.count ≥ cl.poolSize
  · rw [if_pos hfull, if_pos (h.full.1 hfull)]
    exact lockstep_pure (sameLookup_error h)
  rw [if_neg hfull, if_neg (mt h.full.2 hfull)]
  refine (Lockstep.refl _).bind ?_
  rintro (e | _ | packet) _ rfl
  · exact lockstep_pure (sameLookup_error h)
  · exact lockstep_pure (sameLookup_error h)
  dsimp only
  cases cl.lookupReply name packet with
  | error e => exact lockstep_pure (sameLookup_error h)
  | ok data => exact stageRemoteDescriptor_alike h data

end

/-- After a search: the slot is among those that are the same. -/
abbrev AfterSearch (result : Except Errno ℕ) (m : ℕ) (_ : Cache) : Prop :=
  ∀ slot, result = .ok slot → slot < m

section

variable (h : Alike cl.poolSize node m c c')
include h

theorem sameSlot_error {e : Errno} :
    SameEnd cl.poolSize node m AfterSearch (.error e, c) (.error e, c') :=
  ⟨rfl, m, le_rfl, h, fun _ h => by cases h⟩

theorem findCached_alike (hnode : c.node = node) (name : CString) :
    SameEnd cl.poolSize node m AfterSearch (findCached name c, c) (findCached name c', c') := by
  unfold findCached
  rw [h.findName_eq hnode]
  cases hfind : c.findName name with
  | none => exact sameSlot_error h
  | some slot =>
    refine ⟨rfl, m, le_rfl, h, ?_⟩
    rintro _ ⟨⟩
    have hlt := List.mem_range.1 (List.mem_of_find?_eq_some hfind)
    obtain ⟨-, -, hle⟩ := h.of_node hnode
    omega

/-- **A name is found in step.** -/
theorem findRemote_alike (name : CString) :
    Lockstep (SameEnd cl.poolSize node m AfterSearch) (cl.findRemote node name c)
      (cl.findRemote node name c') := by
  have hheld : (c'.node = node ∧ ((c'.findName name).isSome ∨ c'.complete = true)) ↔
      (c.node = node ∧ ((c.findName name).isSome ∨ c.complete = true)) := by
    constructor
    · rintro ⟨hnode, hheld⟩
      have hnode := h.here.1 hnode
      rw [h.findName_eq hnode, (h.of_node hnode).1] at hheld
      exact ⟨hnode, hheld⟩
    · rintro ⟨hnode, hheld⟩
      rw [h.findName_eq hnode, (h.of_node hnode).1]
      exact ⟨h.here.2 hnode, hheld⟩
  unfold findRemote
  rw [if_congr hheld rfl rfl]
  by_cases hthere : c.node = node ∧ ((c.findName name).isSome ∨ c.complete = true)
  · rw [if_pos hthere, if_pos hthere]
    exact lockstep_pure (findCached_alike h hthere.1 name)
  rw [if_neg hthere, if_neg hthere]
  refine (lookupRemote_alike h name).bind ?_
  rintro ⟨result, d⟩ ⟨result', d'⟩ ⟨hresult, m₁, hm₁, halike, hmore⟩
  obtain rfl : result' = result := hresult
  have hweaker : ∀ {x y : Except Errno ℕ × Cache}, SameEnd cl.poolSize node m₁ AfterSearch x y →
      SameEnd cl.poolSize node m AfterSearch x y := fun ⟨hresult, m', hm', hend⟩ =>
    ⟨hresult, m', hm₁.trans hm', hend⟩
  cases result' with
  | none =>
    obtain ⟨hnode, hpos⟩ := hmore rfl
    obtain ⟨-, hcount, hle⟩ := halike.of_node hnode
    dsimp only at hcount hle hpos ⊢
    rw [hcount]
    refine lockstep_pure (hweaker ⟨rfl, m₁, le_rfl, halike, ?_⟩)
    rintro _ ⟨⟩
    omega
  | some e =>
    rcases eq_or_ne e .ENOTSUP with rfl | hother
    · refine (refreshTable_alike halike 0 false).bind ?_
      rintro ⟨result, e⟩ ⟨result', e'⟩ ⟨hresult, m₂, hm₂, halike, hmore⟩
      obtain rfl : result' = result := hresult
      cases result' with
      | none =>
        obtain ⟨hresult, m', hm', hend⟩ := findCached_alike halike (hmore rfl) name
        exact lockstep_pure ⟨hresult, m', hm₁.trans (hm₂.trans hm'), hend⟩
      | some e =>
        obtain ⟨hresult, m', hm', hend⟩ := sameSlot_error halike
        exact lockstep_pure ⟨hresult, m', hm₁.trans (hm₂.trans hm'), hend⟩
    · cases e <;> first
        | exact absurd rfl hother
        | exact lockstep_pure (hweaker (sameSlot_error halike))

end

/-! ### Values -/

/-- The names of a window. -/
theorem resolveNames_alike (h : Alike cl.poolSize node m c c') (names : List (Option CString)) :
    Lockstep (SameEnd cl.poolSize node m fun result m' _ =>
        ∀ slots, result = .ok slots → ∀ slot ∈ slots, slot < m')
      (cl.resolveNames node names c) (cl.resolveNames node names c') := by
  induction names generalizing m c c' with
  | nil =>
    refine lockstep_pure ⟨rfl, m, le_rfl, h, ?_⟩
    rintro _ ⟨⟩ slot hslot
    cases hslot
  | cons name names ih =>
    cases name with
    | none => exact lockstep_pure ⟨rfl, m, le_rfl, h, fun _ h => by cases h⟩
    | some name =>
      unfold resolveNames
      refine (findRemote_alike h name).bind ?_
      rintro ⟨result, d⟩ ⟨result', d'⟩ ⟨hresult, m₁, hm₁, halike, hfound⟩
      obtain rfl : result' = result := hresult
      cases result' with
      | error e => exact lockstep_pure ⟨rfl, m₁, hm₁, halike, fun _ h => by cases h⟩
      | ok slot =>
        have hslot := hfound slot rfl
        refine (ih halike).bind ?_
        rintro ⟨result, e⟩ ⟨result', e'⟩ ⟨hresult, m₂, hm₂, halike, hslots⟩
        obtain rfl : result' = result := hresult
        cases result' with
        | error e =>
          exact lockstep_pure ⟨rfl, m₂, hm₁.trans hm₂, halike, fun _ h => by cases h⟩
        | ok slots =>
          refine lockstep_pure ⟨rfl, m₂, hm₁.trans hm₂, halike, ?_⟩
          rintro _ ⟨⟩
          exact List.forall_mem_cons.2 ⟨by omega, hslots slots rfl⟩

variable {slots : List ℕ}

theorem slotParams_alike (h : Alike cl.poolSize node m c c') (hslots : ∀ slot ∈ slots, slot < m) :
    slotParams c' slots = slotParams c slots :=
  List.map_congr_left fun slot hslot => by rw [h.pool slot (hslots slot hslot)]

theorem storeBatch_alike (h : Alike cl.poolSize node m c c') (hslots : ∀ slot ∈ slots, slot < m)
    (staged : List (Option Value)) :
    Alike cl.poolSize node m (storeBatch slots staged c) (storeBatch slots staged c') := by
  induction slots generalizing staged c c' with
  | nil => exact h
  | cons slot slots ih =>
    obtain ⟨hslot, hslots⟩ := List.forall_mem_cons.1 hslots
    match staged with
    | [] => exact h
    | none :: _ => exact h
    | some value :: staged =>
      unfold storeBatch
      rw [h.pool slot hslot]
      exact ih (h.store slot _ hslot) hslots staged

/-- Two ends of a pull: the same result and the same reports, and caches that are alike. -/
def SamePull {α : Type} (poolSize : ℕ) (node : UInt16) (m : ℕ) (x y : α × Cache × Reports) :
    Prop :=
  y.1 = x.1 ∧ Alike poolSize node m x.2.1 y.2.1 ∧ y.2.2 = x.2.2

section

variable (h : Alike cl.poolSize node m c c')
include h

section

variable (hslots : ∀ slot ∈ slots, slot < m)
include hslots

/-- `pull_remote_batch`. -/
theorem pullRemoteBatch_alike (reports : Reports) :
    Lockstep (SamePull cl.poolSize node m) (cl.pullRemoteBatch node slots c reports)
      (cl.pullRemoteBatch node slots c' reports) := by
  have htake : ∀ count, slotParams c' (slots.take count) = slotParams c (slots.take count) :=
    fun count => slotParams_alike h fun slot hslot => hslots slot (List.mem_of_mem_take hslot)
  unfold pullRemoteBatch
  dsimp only
  rw [slotParams_alike h hslots, htake]
  refine Lockstep.call fun buffer => ?_
  cases buffer with
  | false => exact lockstep_pure ⟨rfl, h, rfl⟩
  | true =>
    simp only [Bool.not_true, Bool.false_eq_true, if_false]
    split_ifs with hcount
    swap
    · exact lockstep_pure ⟨rfl, h, rfl⟩
    refine Lockstep.call fun time => ?_
    cases time with
    | false => exact lockstep_pure ⟨rfl, h, rfl⟩
    | true =>
      refine Lockstep.call fun connected => ?_
      cases connected with
      | false => exact lockstep_pure ⟨rfl, h, rfl⟩
      | true =>
        refine Lockstep.call fun _ => (Lockstep.refl _).bind ?_
        rintro ⟨e | staged, reports⟩ _ rfl
        · exact lockstep_pure ⟨rfl, h, rfl⟩
        dsimp only
        split_ifs with hmissing
        · exact lockstep_pure ⟨rfl, h, rfl⟩
        refine Lockstep.call fun locked => ?_
        cases locked with
        | false => exact lockstep_pure ⟨rfl, h, rfl⟩
        | true =>
          refine lockstep_pure ⟨rfl, storeBatch_alike h (fun slot hslot => ?_) staged, rfl⟩
          exact hslots slot (List.mem_of_mem_take hslot)

/-- The batches of a window. -/
theorem pullWindow_alike (reports : Reports) :
    Lockstep (SamePull cl.poolSize node m) (cl.pullWindow node slots c reports)
      (cl.pullWindow node slots c' reports) := by
  induction hn : slots.length using Nat.strong_induction_on
    generalizing slots c c' reports with
  | _ n ih =>
    rw [pullWindow, pullWindow]
    by_cases hempty : slots = []
    · rw [dif_pos hempty, dif_pos hempty]
      exact lockstep_pure ⟨rfl, h, rfl⟩
    rw [dif_neg hempty, dif_neg hempty]
    refine (pullRemoteBatch_alike h hslots reports).bind ?_
    rintro ⟨result, d, reports⟩ ⟨result', d', reports'⟩ ⟨hresult, halike, hreports⟩
    obtain rfl : result' = result := hresult
    obtain rfl : reports' = reports := hreports
    cases result' with
    | error e => exact lockstep_pure ⟨rfl, halike, rfl⟩
    | ok consumed =>
      have hpos := List.length_pos_of_ne_nil hempty
      have hconsumed := consumed.2
      refine ih _ ?_ halike (fun slot hslot => hslots slot (List.mem_of_mem_drop hslot)) _ rfl
      rw [List.length_drop]
      omega

theorem readSlots_alike : cl.readSlots c' slots = cl.readSlots c slots := by
  induction slots with
  | nil => rfl
  | cons slot slots ih =>
    obtain ⟨hslot, hslots⟩ := List.forall_mem_cons.1 hslots
    rw [readSlots, readSlots, h.pool slot hslot, ih hslots]

end

end

/-- Two ends of a read: the same result and the same values, and caches that are alike. -/
def SameRead (poolSize : ℕ) (node : UInt16) (x y : Option Errno × List Value × Cache × Reports) :
    Prop :=
  y.1 = x.1 ∧ y.2.1 = x.2.1 ∧ (∃ m, Alike poolSize node m x.2.2.1 y.2.2.1) ∧ y.2.2.2 = x.2.2.2

section

variable (h : Alike cl.poolSize node m c c')
include h

/-- One turn of the loop of `get_many`. -/
theorem getWindow_alike (names : List (Option CString)) (reports : Reports) :
    Lockstep (SameRead cl.poolSize node) (cl.getWindow node names c reports)
      (cl.getWindow node names c' reports) := by
  unfold getWindow
  refine (resolveNames_alike h names).bind ?_
  rintro ⟨result, d⟩ ⟨result', d'⟩ ⟨hresult, m', -, halike, hslots⟩
  obtain rfl : result' = result := hresult
  cases result' with
  | error e => exact lockstep_pure ⟨rfl, rfl, ⟨m', halike⟩, rfl⟩
  | ok slots =>
    have hslots := hslots slots rfl
    refine (pullWindow_alike halike hslots reports).bind ?_
    rintro ⟨result, e, reports⟩ ⟨result', e', reports'⟩ ⟨hresult, halike, hreports⟩
    obtain rfl : result' = result := hresult
    obtain rfl : reports' = reports := hreports
    cases result' with
    | some e => exact lockstep_pure ⟨rfl, rfl, ⟨m', halike⟩, rfl⟩
    | none =>
      refine Lockstep.call fun locked => ?_
      cases locked with
      | false => exact lockstep_pure ⟨rfl, rfl, ⟨m', halike⟩, rfl⟩
      | true =>
        simp only [if_true]
        rw [readSlots_alike halike hslots]
        exact lockstep_pure ⟨rfl, rfl, ⟨m', halike⟩, rfl⟩

/-- The loop of `get_many`. -/
theorem getWindows_alike (names : List (Option CString)) (values : List Value) (reports : Reports) :
    Lockstep (SameRead cl.poolSize node) (cl.getWindows node names values c reports)
      (cl.getWindows node names values c' reports) := by
  induction hn : names.length using Nat.strong_induction_on
    generalizing names m c c' values reports with
  | _ n ih =>
    rw [getWindows, getWindows]
    by_cases hempty : names = []
    · rw [dif_pos hempty, dif_pos hempty]
      exact lockstep_pure ⟨rfl, rfl, ⟨m, h⟩, rfl⟩
    rw [dif_neg hempty, dif_neg hempty]
    refine (getWindow_alike h _ reports).bind ?_
    rintro ⟨result, read, d, reports⟩ ⟨result', read', d', reports'⟩
      ⟨hresult, hread, ⟨m', halike⟩, hreports⟩
    obtain rfl : result' = result := hresult
    obtain rfl : read' = read := hread
    obtain rfl : reports' = reports := hreports
    cases result' with
    | some e => exact lockstep_pure ⟨rfl, rfl, ⟨m', halike⟩, rfl⟩
    | none =>
      have hpos := List.length_pos_of_ne_nil hempty
      refine ih _ ?_ halike _ _ _ rfl
      rw [List.length_drop]
      exact hn ▸ Nat.sub_lt hpos (by decide)

/-- `get_many`. -/
theorem getMany_alike (names : Option (List (Option CString))) (values : Bool) :
    Lockstep (SameRead cl.poolSize node) (cl.getMany node names values c)
      (cl.getMany node names values c') := by
  unfold getMany
  split
  · exact getWindows_alike h _ _ _
  · exact lockstep_pure ⟨rfl, rfl, ⟨m, h⟩, rfl⟩

/-- `set_remote`. -/
theorem setRemote_alike (name : Option CString) (value : Option Value) :
    Lockstep (SameEnd cl.poolSize node m fun _ _ _ => True) (cl.setRemote node name value c)
      (cl.setRemote node name value c') := by
  unfold setRemote
  split
  swap
  · exact lockstep_pure ⟨rfl, m, le_rfl, h, trivial⟩
  next name value =>
  refine (findRemote_alike h name).bind ?_
  rintro ⟨result, d⟩ ⟨result', d'⟩ ⟨hresult, m', hm, halike, hfound⟩
  obtain rfl : result' = result := hresult
  cases result' with
  | error e => exact lockstep_pure ⟨rfl, m', hm, halike, trivial⟩
  | ok slot =>
    have hslot := hfound slot rfl
    have hsame : ∀ result : Option Errno, SameEnd cl.poolSize node m (fun _ _ _ => True)
        (result, d) (result, d') := fun _ => ⟨rfl, m', hm, halike, trivial⟩
    dsimp only
    rw [halike.pool slot hslot]
    refine Lockstep.call fun locked => ?_
    cases locked with
    | false => exact lockstep_pure (hsame _)
    | true =>
      simp only [Bool.not_true, Bool.false_eq_true, if_false]
      split_ifs with hreadOnly
      · exact lockstep_pure (hsame _)
      cases validateScalar (d.pool slot).param value with
      | some e => exact lockstep_pure (hsame _)
      | none =>
        refine (Lockstep.refl _).bind ?_
        rintro (_ | e) _ rfl
        swap
        · exact lockstep_pure (hsame _)
        refine Lockstep.call fun locked => ?_
        cases locked with
        | false => exact lockstep_pure (hsame _)
        | true => exact lockstep_pure ⟨rfl, m', hm, halike.store slot _ hslot, trivial⟩

end

end Client

/-! ### The calls -/

/-- A call to read or to write values of a node. -/
inductive RemoteCall
  | get (name : Option CString) (value : Bool)
  | getMany (names : Option (List (Option CString))) (values : Bool)
  | set (name : Option CString) (value : Option Value)

namespace RemoteCall

variable {ρ κ : Type} {cl : Client ρ κ} {node : UInt16} {c c' : Cache}

/-- The call: what it returns, and the values that it has read. -/
def run (cl : Client ρ κ) (node : UInt16) (c : Cache) :
    RemoteCall → Program (Option Errno × List Value)
  | get name value => do
    let (result, values, _) ← cl.remoteGet node name value c
    pure (result, values)
  | getMany names values => do
    let (result, values, _) ← cl.remoteGetMany node names values c
    pure (result, values)
  | set name value => do
    let (result, _) ← cl.remoteSet node name value c
    pure (result, [])

/-- The name that is looked for first. -/
def first : RemoteCall → Option CString
  | get name true => name
  | getMany (some (name :: _)) true => name
  | set name (some _) => name
  | _ => none

/-- What a call does before it looks for a name. -/
def enter (p : Program (Option Errno × List Value)) :
    RemoteCall → Program (Option Errno × List Value)
  | set _ _ => do
    if ← perform .remoteLock then p else pure (some .ETIMEDOUT, [])
  | _ => do
    if !(← perform .time) then pure (some .ETIMEDOUT, [])
    else if ← perform .remoteLock then p
    else pure (some .ETIMEDOUT, [])

theorem getMany_eq (cl : Client ρ κ) (node : UInt16) (name : CString)
    (names : List (Option CString)) :
    ∃ rest : Except Errno ℕ × Cache → Program (Option Errno × List Value × Cache × Reports),
      (∀ e d, rest (.error e, d) = pure (some e, [], d, [])) ∧
        ∀ c, cl.getMany node (some (some name :: names)) true c =
          cl.findRemote node name c >>= rest := by
  refine ⟨?_, ?_, fun c => ?_⟩
  rotate_left 2
  · unfold Client.getMany
    dsimp only
    rw [Client.getWindows, dif_neg (List.cons_ne_nil _ _), Client.getWindow, List.take_succ_cons,
      Client.resolveNames, bind_assoc]
    exact bind_assoc (m := Program) _ _ _
  · intro e d
    rfl


variable {call : RemoteCall}

/-- **A call looks for its first name first**, and returns what the search refuses with. -/
theorem run_eq (cl : Client ρ κ) (node : UInt16) {name : CString} (h : call.first = some name) :
    ∃ rest : Except Errno ℕ × Cache → Program (Option Errno × List Value),
      (∀ e d, rest (.error e, d) = pure (some e, [])) ∧
        ∀ c, call.run cl node c = call.enter (cl.findRemote node name c >>= rest) := by
  have hmany : ∀ names : List (Option CString),
      ∃ rest : Except Errno ℕ × Cache → Program (Option Errno × List Value),
        (∀ e d, rest (.error e, d) = pure (some e, [])) ∧
          ∀ c, run cl node c (.getMany (some (some name :: names)) true) =
            enter (cl.findRemote node name c >>= rest)
              (.getMany (some (some name :: names)) true) := by
    intro names
    obtain ⟨rest, herror, hrest⟩ := getMany_eq cl node name names
    refine ⟨fun x => do let (result, values, _) ← rest x; pure (result, values), ?_, fun c => ?_⟩
    · intro e d
      dsimp only
      rw [herror]
      rfl
    · unfold run enter Client.remoteGetMany
      dsimp only
      rw [hrest, bind_assoc]
      refine bind_congr fun time => ?_
      cases time with
      | false => rfl
      | true =>
        show (_ >>= _ : Program _) >>= _ = _
        rw [bind_assoc]
        refine bind_congr fun locked => ?_
        cases locked with
        | false => rfl
        | true => exact bind_assoc _ _ _
  match call, h with
  | .get (some _) true, rfl => exact hmany []
  | .getMany (some (some _ :: names)) true, rfl => exact hmany names
  | .set (some name) (some value), rfl =>
    refine ⟨?_, ?_, fun c => ?_⟩
    rotate_left 2
    · unfold run enter Client.remoteSet
      dsimp only
      rw [bind_assoc]
      refine bind_congr fun locked => ?_
      cases locked with
      | false => rfl
      | true => exact bind_assoc (m := Program) _ _ _
    · intro e d
      rfl

/-- A call without a name looks for nothing. -/
theorem run_eq_of_first_none (cl : Client ρ κ) (node : UInt16) (h : call.first = none) :
    ∃ result, ∀ c, call.run cl node c = call.enter (pure result) := by
  have hmany : ∀ (names : Option (List (Option CString))) (values : Bool) (result : Option Errno),
      (∀ c, cl.getMany node names values c = pure (result, [], c, [])) →
        ∀ c, run cl node c (.getMany names values) =
          enter (pure (result, [])) (.getMany names values) := by
    intro names values result hresult c
    unfold run enter Client.remoteGetMany
    dsimp only
    rw [hresult, bind_assoc]
    refine bind_congr fun time => ?_
    cases time with
    | false => rfl
    | true =>
      show (_ >>= _ : Program _) >>= _ = _
      rw [bind_assoc]
      refine bind_congr fun locked => ?_
      cases locked <;> rfl
  have hnull : ∀ names : List (Option CString), ∀ c,
      cl.getMany node (some (none :: names)) true c = pure (some .EINVAL, [], c, []) := by
    intro names c
    unfold Client.getMany
    dsimp only
    rw [Client.getWindows, dif_neg (List.cons_ne_nil _ _), Client.getWindow, List.take_succ_cons,
      Client.resolveNames]
    rfl
  match call, h with
  | .get name false, _ => exact ⟨_, hmany (some [name]) false (some .EINVAL) fun _ => rfl⟩
  | .get none true, _ => exact ⟨_, hmany (some [none]) true _ (hnull [])⟩
  | .getMany none values, _ => exact ⟨_, hmany none values (some .EINVAL) fun _ => rfl⟩
  | .getMany (some names) false, _ => exact ⟨_, hmany (some names) false _ fun _ => rfl⟩
  | .getMany (some []) true, _ =>
    refine ⟨_, hmany (some []) true none fun c => ?_⟩
    unfold Client.getMany
    dsimp only
    rw [Client.getWindows, dif_pos rfl]
  | .getMany (some (none :: names)) true, _ => exact ⟨_, hmany _ true _ (hnull names)⟩
  | .set name none, _ =>
    refine ⟨(some .EINVAL, []), fun c => ?_⟩
    unfold run enter Client.remoteSet
    dsimp only
    rw [bind_assoc]
    refine bind_congr fun locked => ?_
    cases name <;> cases locked <;> rfl
  | .set none (some value), _ =>
    refine ⟨(some .EINVAL, []), fun c => ?_⟩
    unfold run enter Client.remoteSet
    dsimp only
    rw [bind_assoc]
    refine bind_congr fun locked => ?_
    cases locked <;> rfl

/-- What is done before the search is done in step. -/
theorem enter_lockstep {p q : Program (Option Errno × List Value)} (h : Lockstep Eq p q)
    (call : RemoteCall) : Lockstep Eq (call.enter p) (call.enter q) := by
  have hlock : Lockstep Eq
      (do if ← perform .remoteLock then p else pure (some .ETIMEDOUT, []))
      (do if ← perform .remoteLock then q else pure (some .ETIMEDOUT, [])) :=
    Lockstep.call fun locked => by
      cases locked with
      | true => exact h
      | false => exact lockstep_pure rfl
  have htime : Lockstep Eq
      (do
        if !(← perform .time) then pure (some .ETIMEDOUT, [])
        else if ← perform .remoteLock then p else pure (some .ETIMEDOUT, []))
      (do
        if !(← perform .time) then pure (some .ETIMEDOUT, [])
        else if ← perform .remoteLock then q else pure (some .ETIMEDOUT, [])) :=
    Lockstep.call fun time => by
      cases time with
      | true => exact hlock
      | false => exact lockstep_pure rfl
  cases call with
  | get => exact htime
  | getMany => exact htime
  | set => exact hlock

/-- The call has a valid name to look for, on a node that there may be. -/
def Asks (node : UInt16) (call : RemoteCall) : Prop :=
  node ≠ 0 ∧ ∃ name, call.first = some name ∧ 0 < name.length ∧ name.length ≤ nameMax

/-- A call from alike caches. -/
theorem run_alike {m : ℕ} (h : Alike cl.poolSize node m c c') (call : RemoteCall) :
    Lockstep Eq (call.run cl node c) (call.run cl node c') := by
  have hmany : ∀ names values, Lockstep Eq (run cl node c (.getMany names values))
      (run cl node c' (.getMany names values)) := by
    intro names values
    refine Lockstep.bind (R := Client.SameRead cl.poolSize node) ?_ ?_
    · refine Lockstep.call fun time => ?_
      cases time with
      | false => exact lockstep_pure ⟨rfl, rfl, ⟨m, h⟩, rfl⟩
      | true =>
        refine Lockstep.call fun locked => ?_
        cases locked with
        | false => exact lockstep_pure ⟨rfl, rfl, ⟨m, h⟩, rfl⟩
        | true => exact Client.getMany_alike h names values
    · rintro ⟨result, values, d⟩ ⟨result', values', d'⟩ ⟨hresult, hvalues, -⟩
      exact lockstep_pure (Prod.ext hresult.symm hvalues.symm)
  cases call with
  | get name value => exact hmany (some [name]) value
  | getMany names values => exact hmany names values
  | set name value =>
    refine Lockstep.bind (R := SameEnd cl.poolSize node m fun _ _ _ => True) ?_ ?_
    · refine Lockstep.call fun locked => ?_
      cases locked with
      | false => exact lockstep_pure ⟨rfl, m, le_rfl, h, trivial⟩
      | true => exact Client.setRemote_alike h name value
    · rintro ⟨result, d⟩ ⟨result', d'⟩ ⟨hresult, -⟩
      exact lockstep_pure (Prod.ext hresult.symm rfl)

/-- A call that asks for nothing fails the same way from every cache that is not of the node. -/
theorem run_lockstep_of_not_asks (hasks : ¬ call.Asks node) (hc : c.Other node)
    (hc' : c'.Other node) : Lockstep Eq (call.run cl node c) (call.run cl node c') := by
  cases hfirst : call.first with
  | none =>
    obtain ⟨result, hrun⟩ := run_eq_of_first_none cl node hfirst
    rw [hrun, hrun]
    exact Lockstep.refl _
  | some name =>
    have hfind : Lockstep (fun x y => ∃ e, x.1 = .error e ∧ y.1 = .error e)
        (cl.findRemote node name c) (cl.findRemote node name c') := by
      unfold Client.findRemote
      rw [if_neg (hc.not_held name), if_neg (hc'.not_held name)]
      refine Lockstep.bind (R := fun x y => ∃ e, e ≠ .ENOTSUP ∧ x.1 = some e ∧ y.1 = some e) ?_ ?_
      · unfold Client.lookupRemote
        by_cases hname : name.length = 0 ∨ name.length > nameMax
        · rw [if_pos hname, if_pos hname]
          exact lockstep_pure ⟨_, by decide, rfl, rfl⟩
        rw [if_neg hname, if_neg hname]
        have hzero : node = 0 := by
          by_contra hzero
          exact hasks ⟨hzero, name, hfirst, by omega, by omega⟩
        have hvalid : Lockstep (fun x y => x = y ∧ x ≠ some .ENOTSUP)
            (Client.validateRemoteNode node) (Client.validateRemoteNode node) := by
          refine Lockstep.call fun info => ?_
          split_ifs <;> exact lockstep_pure ⟨rfl, by decide⟩
        refine hvalid.bind ?_
        rintro (_ | e) _ ⟨rfl, hother⟩
        · dsimp only
          rw [if_pos hzero, if_pos hzero]
          exact lockstep_pure ⟨_, by decide, rfl, rfl⟩
        · exact lockstep_pure ⟨e, fun heq => hother (congrArg some heq), rfl, rfl⟩
      · rintro ⟨_, d⟩ ⟨_, d'⟩ ⟨e, hother, rfl, rfl⟩
        cases e <;> first
          | exact absurd rfl hother
          | exact lockstep_pure ⟨_, rfl, rfl⟩
    obtain ⟨rest, herror, hrun⟩ := run_eq cl node hfirst
    rw [hrun, hrun]
    refine enter_lockstep (hfind.bind ?_) call
    rintro ⟨_, d⟩ ⟨_, d'⟩ ⟨e, rfl, rfl⟩
    rw [herror, herror]
    exact lockstep_pure rfl

/-- A node that has no such name. -/
theorem findRemote_answering {info : LinkInfo} (hinfo : Client.Reaches info node) (hzero : node ≠ 0)
    {name : CString} (hpos : 0 < name.length) (hle : name.length ≤ nameMax) (hc : c.Other node)
    (last : List UInt8) : ((cl.findRemote node name c).exec
        (Client.answering info fun _ => some [listLookupVersion, listEnd]) last).2.1 =
      (.error (if c.count ≥ cl.poolSize then .ENOSPC else .ENOENT), c) := by
  have hlookup : ((cl.lookupRemote node name c).exec
      (Client.answering info fun _ => some [listLookupVersion, listEnd]) last).2.1 =
        (some (if c.count ≥ cl.poolSize then .ENOSPC else .ENOENT), c) := by
    unfold Client.lookupRemote
    rw [if_neg (by omega), Prog.exec_bind_of (Client.validateRemoteNode_answering hinfo _ last)]
    dsimp only
    rw [if_neg hzero]
    by_cases hfull : c.count ≥ cl.poolSize
    · rw [if_pos hfull, if_pos hfull]
      rfl
    · rw [if_neg hfull, if_neg hfull, Prog.exec_bind_of (Client.exchange_answering info _ node _ _)]
      rfl
  unfold Client.findRemote
  rw [if_neg (hc.not_held name), Prog.exec_bind]
  dsimp only
  rw [hlookup]
  split_ifs <;> rfl

/-- A call on a node that has no such name. -/
theorem run_answering {info : LinkInfo} (hinfo : Client.Reaches info node) (hzero : node ≠ 0)
    {name : CString} (hfirst : call.first = some name) (hpos : 0 < name.length)
    (hle : name.length ≤ nameMax) (hc : c.Other node) (last : List UInt8) :
    ((call.run cl node c).exec
        (Client.answering info fun _ => some [listLookupVersion, listEnd]) last).2.1 =
      (some (if c.count ≥ cl.poolSize then .ENOSPC else .ENOENT), []) := by
  obtain ⟨rest, herror, hrun⟩ := run_eq cl node hfirst
  have henter : ∀ p : Program (Option Errno × List Value),
      ((call.enter p).exec (Client.answering info fun _ => some [listLookupVersion, listEnd])
        last).2 = (p.exec (Client.answering info fun _ => some [listLookupVersion, listEnd])
          last).2 := fun p => by cases call <;> rfl
  rw [hrun, henter, Prog.exec_bind]
  dsimp only
  rw [findRemote_answering hinfo hzero hpos hle hc, herror]
  rfl

/-- **Independent of other nodes.**  From two caches with nothing of a node, a call on the node
returns the same result and the same values, whatever comes back, exactly if both pools are full or
neither is, or the call asks for nothing. -/
theorem independent_iff (cl : Client ρ κ) (hc : c.Other node) (hc' : c'.Other node)
    (call : RemoteCall) : (∀ (σ : Type) (handle : (o : Call) → σ → Answer o × σ) (s : σ),
        ((call.run cl node c).exec handle s).2.1 = ((call.run cl node c').exec handle s).2.1) ↔
      ((cl.poolSize ≤ c.count ↔ cl.poolSize ≤ c'.count) ∨ ¬ call.Asks node) := by
  constructor
  · intro hsame
    by_contra hnot
    obtain ⟨hfull, hasks⟩ := not_or.1 hnot
    obtain ⟨hzero, name, hfirst, hpos, hle⟩ := not_not.1 hasks
    have hinfo : Client.Reaches ⟨true, true, true, 0, 16⟩ node :=
      ⟨rfl, rfl, rfl, hzero, node.toNat_lt⟩
    have hsame := hsame _ (Client.answering ⟨true, true, true, 0, 16⟩
      fun _ => some [listLookupVersion, listEnd]) []
    rw [run_answering hinfo hzero hfirst hpos hle hc,
      run_answering hinfo hzero hfirst hpos hle hc'] at hsame
    by_cases hleft : cl.poolSize ≤ c.count
    · have hright : ¬ cl.poolSize ≤ c'.count := fun hright => hfull (iff_of_true hleft hright)
      rw [if_pos hleft, if_neg hright] at hsame
      cases hsame
    · have hright : cl.poolSize ≤ c'.count := by
        by_contra hright
        exact hfull (iff_of_false hleft hright)
      rw [if_neg hleft, if_pos hright] at hsame
      cases hsame
  · intro h σ handle s
    have hlockstep : Lockstep Eq (call.run cl node c) (call.run cl node c') := by
      by_cases hasks : call.Asks node
      · have hfull := h.resolve_right (not_not.2 hasks)
        have halike : Alike cl.poolSize node 0 c c' :=
          ⟨by simp, Or.inr ⟨hc.node_ne hasks.1, hc'.node_ne hasks.1, hfull⟩⟩
        exact run_alike halike call
      · exact run_lockstep_of_not_asks hasks hc hc'
    exact (hlockstep.exec handle s).2.1

end RemoteCall

/-! ### A pool that another node has filled -/

/-- A node with five parameters. -/
def fiveParams : ListServer :=
  ⟨[byteParam 0x100 "a", byteParam 0x101 "b", byteParam 0x102 "c", byteParam 0x103 "d",
    byteParam 0x104 "e"], 0⟩

/-- It answers lookups, and reports 42 for its first parameter. -/
def fiveParamsServe (request : List UInt8) : Option (List UInt8) :=
  if request.getD 0 0 = listLookupVersion then fiveParams.serveLookup packedTransfer request
  else some [7, 0x80, 0x41, 0, 7, 42]

/-- The cache after names of node 3 have been looked up. -/
def cachedNames (names : List String) : Cache :=
  names.foldl (fun c name =>
    ((smallClient.findRemote 3 (CString.ofString name) c).exec
      (Client.answering farLink fiveParamsServe) []).2.1.2) Cache.start

theorem cachedNames_counts : (cachedNames ["a", "b", "c", "d", "e"]).node = 3 ∧
    (cachedNames ["a", "b", "c", "d", "e"]).count = 5 ∧ (cachedNames ["a"]).node = 3 ∧
      (cachedNames ["a"]).count = 1 ∧ (cachedNames ["a", "b"]).node = 3 ∧
        (cachedNames ["a", "b"]).count = 2 := by
  decide +kernel

/-- A read of node 7, with one or with two descriptors of node 3 in the pool. -/
theorem independent_iff_partial : (∀ (σ : Type) (handle : (o : Call) → σ → Answer o × σ) (s : σ),
        (((RemoteCall.get (some (.ofString "a")) true).run smallClient 7
            (cachedNames ["a"])).exec handle s).2.1 =
          (((RemoteCall.get (some (.ofString "a")) true).run smallClient 7
            (cachedNames ["a", "b"])).exec handle s).2.1) ↔
      ((5 ≤ (cachedNames ["a"]).count ↔ 5 ≤ (cachedNames ["a", "b"]).count) ∨
        ¬ (RemoteCall.get (some (.ofString "a")) true).Asks 7) := by
  obtain ⟨-, -, hone, -, htwo, -⟩ := cachedNames_counts
  exact RemoteCall.independent_iff smallClient (Or.inl (by rw [hone]; decide))
    (Or.inl (by rw [htwo]; decide)) (.get (some (.ofString "a")) true)

/-- **A pool that is full.**  Node 7 is asked for a value that it has.  It is read with one
descriptor of node 3 in the pool, and refused with five. -/
theorem full_pool_refuses : ¬ ∀ c c' : Cache, c.Other 7 → c'.Other 7 →
      ∀ (call : RemoteCall) (σ : Type) (handle : (o : Call) → σ → Answer o × σ) (s : σ),
        ((call.run smallClient 7 c).exec handle s).2.1 =
          ((call.run smallClient 7 c').exec handle s).2.1 := by
  intro h
  obtain ⟨hfive, -, hone, -⟩ := cachedNames_counts
  have hsame := h (cachedNames ["a", "b", "c", "d", "e"]) (cachedNames ["a"])
    (Or.inl (by rw [hfive]; decide)) (Or.inl (by rw [hone]; decide))
    (.get (some (.ofString "a")) true) _ (Client.answering farLink fiveParamsServe) []
  have hfull : (((RemoteCall.get (some (.ofString "a")) true).run smallClient 7
      (cachedNames ["a", "b", "c", "d", "e"])).exec (Client.answering farLink fiveParamsServe)
        []).2.1 = (some .ENOSPC, []) := by
    decide +kernel
  have hread : (((RemoteCall.get (some (.ofString "a")) true).run smallClient 7
      (cachedNames ["a"])).exec (Client.answering farLink fiveParamsServe) []).2.1 =
        (none, [{ Value.blank smallBuild .U8 1 with scalar := 42 }]) := by
    decide +kernel
  rw [hfull, hread] at hsame
  cases hsame

end KfswServices.Param
