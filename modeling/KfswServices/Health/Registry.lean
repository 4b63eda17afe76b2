/-
# The registry of the components

`kfsw_health_register` and `kfsw_health_unregister` of `src/health/health.c`, over any history of
calls, against the components that the calls have registered (`Roll`).

A name is compared as it is given and kept up to `KFSW_HEALTH_NAME_SIZE - 1` characters, so that a
longer one is found under no entry, not under its own either.  The names of the entries stay
distinct exactly as long as no such name comes whose beginning is in use (`registry_sound_iff`).
-/

import KfswServices.Health.Supervision
import Mathlib.Data.Fintype.Card
import Mathlib.Data.Finset.Card

namespace KfswServices.Health

open Library
open Function (update update_of_ne update_self)

variable {b : Build}

/-- The component of an entry that is used: its name, and its deadline. -/
def Entry.component (entry : Entry) : Option (CString × UInt32) :=
  if entry.used then some (entry.name, entry.deadlineMs) else none

/-- The entries that are used. -/
def State.used (s : State b) : Finset (Handle b) :=
  Finset.univ.filter fun i => (s.entries i).used = true

/-- A component as it is registered, by its entry. -/
def kept (name : CString) (deadlineMs : UInt32) : CString × UInt32 :=
  (name.take (nameSize - 1), deadlineMs)

/-! ### The components that are registered -/

/-- The state, with the component that was registered last under every handle, as long as it is. -/
structure Roll (b : Build) where
  state : State b
  registered : Handle b → Option (CString × UInt32)

/-- The reset. -/
def Roll.reset (b : Build) (intervalMs : UInt32) : Roll b :=
  ⟨State.reset b intervalMs, fun _ => none⟩

/-- What a call that succeeded makes of who is registered. -/
def enrol (call : Call) (handle : Option (Handle b)) (r : Handle b → Option (CString × UInt32)) :
    Handle b → Option (CString × UInt32) :=
  match call, handle with
  | .register name deadlineMs, some i => update r i (some (name, deadlineMs))
  | .unregister _, some i => update r i none
  | _, _ => r

/-- A call, at a time. -/
def Roll.call (r : Roll b) (c : Call × UInt64) : Roll b :=
  let reply := perform c.1 c.2 r.state
  ⟨reply.2.2, if reply.1.result.isSome then r.registered else enrol c.1 reply.2.1 r.registered⟩

/-- What is to hold of the registry. -/
structure Sound (r : Roll b) : Prop where
  /-- The names of the entries that are used are distinct. -/
  distinct : ∀ i j, i ≠ j → (r.state.entries i).used = true → (r.state.entries j).used = true →
    (r.state.entries i).name ≠ (r.state.entries j).name
  /-- `count` is their number, which never underflows. -/
  count : r.state.count.toNat = r.state.used.card
  /-- A handle designates the entry of the component that was registered under it. -/
  designates : ∀ i, (r.state.entries i).component = (r.registered i).map fun c => kept c.1 c.2
  /-- A handle that is returned was nobody's. -/
  fresh : ∀ name deadlineMs now i, (register name deadlineMs now r.state).1 = .ok i →
    r.registered i = none
  /-- No room is left only if all entries are in use. -/
  full : ∀ name deadlineMs now, (register name deadlineMs now r.state).1 = .error .ENOSPC →
    r.state.used = Finset.univ

/-- A component with a long name is to be registered, and its beginning is a name in use. -/
def Collides (r : Roll b) : Call × UInt64 → Prop
  | (.register name deadlineMs, _) => nameSize ≤ name.length ∧ deadlineMs ≠ 0 ∧
      r.state.used ≠ Finset.univ ∧
      ∃ i ∈ r.state.used, (r.state.entries i).name = name.take (nameSize - 1)
  | _ => False

/-! ### What a registration finds -/

variable {i : Handle b}

theorem mem_used {s : State b} : i ∈ s.used ↔ (s.entries i).used = true := by
  unfold State.used
  rw [Finset.mem_filter]
  exact ⟨fun h => h.2, fun h => ⟨Finset.mem_univ i, h⟩⟩

theorem component_isSome (entry : Entry) : entry.component.isSome = entry.used := by
  unfold Entry.component
  cases entry.used with
  | false => rfl
  | true => rfl

theorem component_eq_some {entry : Entry} (h : entry.used = true) :
    entry.component = some (entry.name, entry.deadlineMs) := if_pos h

/-- A name is not found exactly if no entry that is used has it. -/
theorem findByName_eq_none {name : CString} {s : State b} :
    findByName name s = none ↔ ∀ i ∈ s.used, (s.entries i).name ≠ name := by
  unfold findByName
  rw [List.find?_eq_none]
  constructor
  · intro h i hi hname
    exact h i (List.mem_finRange i) (by simp [mem_used.1 hi, hname])
  · intro h i _ hi
    rw [Bool.and_eq_true, decide_eq_true_eq] at hi
    exact h i (mem_used.2 hi.1) hi.2

/-- **What a registration comes to**: it is refused, there is no room, or it takes an entry that is
free. -/
theorem register_cases (name : CString) (deadlineMs : UInt32) (now : UInt64) (s : State b) :
    ((name.length = 0 ∨ deadlineMs = 0 ∨ ∃ i ∈ s.used, (s.entries i).name = name) ∧
        ∃ e, e ≠ .ENOSPC ∧ register name deadlineMs now s = (.error e, s)) ∨
      (s.used = Finset.univ ∧ register name deadlineMs now s = (.error .ENOSPC, s)) ∨
      ((name.length ≠ 0 ∧ deadlineMs ≠ 0 ∧ ∀ i ∈ s.used, (s.entries i).name ≠ name) ∧
        ∃ i ∉ s.used, register name deadlineMs now s = (.ok i,
          { s.setEntry i ⟨name.take (nameSize - 1), deadlineMs, now, 0, true, false⟩ with
            count := s.count + 1 })) := by
  unfold register
  by_cases hrefused : name.length = 0 ∨ deadlineMs = 0
  · rw [if_pos hrefused]
    exact Or.inl ⟨hrefused.imp_right Or.inl, .EINVAL, by decide, rfl⟩
  · rw [if_neg hrefused]
    rw [not_or] at hrefused
    cases hfind : findByName name s with
    | some i =>
      rw [if_pos Option.isSome_some]
      refine Or.inl ⟨Or.inr (Or.inr ?_), .EEXIST, by decide, rfl⟩
      by_contra hnone
      push Not at hnone
      rw [findByName_eq_none.2 hnone] at hfind
      cases hfind
    | none =>
      rw [if_neg (by simp)]
      cases hfree : (List.finRange b.maxComponents).find? fun i => !(s.entries i).used with
      | none =>
        rw [List.find?_eq_none] at hfree
        refine Or.inr (Or.inl ⟨Finset.eq_univ_of_forall fun i => mem_used.2 ?_, rfl⟩)
        simpa using hfree i (List.mem_finRange i)
      | some i =>
        have hi := List.find?_some hfree
        refine Or.inr (Or.inr ⟨⟨hrefused.1, hrefused.2, findByName_eq_none.1 hfind⟩, i, ?_, rfl⟩)
        rw [mem_used]
        simpa using hi

/-! ### Every call keeps the accounts -/

/-- An entry changes: who is used. -/
theorem used_setEntry (s : State b) (i : Handle b) (entry : Entry) :
    (s.setEntry i entry).used = if entry.used then insert i s.used else s.used.erase i := by
  ext j
  rw [mem_used]
  show (update s.entries i entry j).used = true ↔ _
  by_cases hj : j = i
  · rw [hj, update_self]
    cases hused : entry.used with
    | false => simp
    | true => simp
  · rw [update_of_ne hj, ← mem_used]
    cases entry.used with
    | false => simp [hj]
    | true => simp [hj]

/-- The part of the accounts that every call keeps. -/
structure Accounted (r : Roll b) : Prop where
  count : r.state.count.toNat = r.state.used.card
  designates : ∀ i, (r.state.entries i).component = (r.registered i).map fun c => kept c.1 c.2

variable {r : Roll b}

theorem Sound.accounted (h : Sound r) : Accounted r := ⟨h.count, h.designates⟩

/-- The names that are kept are short. -/
theorem Accounted.short (h : Accounted r) (hi : i ∈ r.state.used) :
    (r.state.entries i).name.length < nameSize := by
  have hcomponent := h.designates i
  rw [component_eq_some (mem_used.1 hi)] at hcomponent
  obtain ⟨c, -, hc⟩ := Option.map_eq_some_iff.1 hcomponent.symm
  have hname : (r.state.entries i).name = c.1.take (nameSize - 1) := (congrArg Prod.fst hc).symm
  rw [hname]
  exact Nat.lt_succ_of_le (CString.length_take_le _ _)

/-- An entry that is free is nobody's. -/
theorem Accounted.free (h : Accounted r) (hi : i ∉ r.state.used) : r.registered i = none := by
  rw [mem_used, ← component_isSome, h.designates i] at hi
  simpa using hi

/-- With distinct names the accounts are sound. -/
theorem Accounted.sound (h : Accounted r)
    (hdistinct : ∀ i j, i ≠ j → (r.state.entries i).used = true → (r.state.entries j).used = true →
      (r.state.entries i).name ≠ (r.state.entries j).name) : Sound r := by
  refine ⟨hdistinct, h.count, h.designates, fun name deadlineMs now i hok => ?_,
    fun name deadlineMs now herror => ?_⟩
  · rcases register_cases name deadlineMs now r.state with ⟨-, e, -, hr⟩ | ⟨-, hr⟩ | ⟨-, j, hj, hr⟩
    · rw [hr] at hok
      cases hok
    · rw [hr] at hok
      cases hok
    · rw [hr] at hok
      obtain rfl := Except.ok.inj hok
      exact h.free hj
  · rcases register_cases name deadlineMs now r.state with
      ⟨-, e, he, hr⟩ | ⟨hall, -⟩ | ⟨-, j, -, hr⟩
    · rw [hr] at herror
      exact absurd (Except.error.inj herror) he
    · exact hall
    · rw [hr] at herror
      cases herror

theorem card_used_le (s : State b) : s.used.card ≤ 32 := by
  have hcard := Finset.card_le_univ s.used
  rw [Fintype.card_fin] at hcard
  exact hcard.trans b.maxComponents_range.2

/-- A component is registered. -/
theorem Accounted.register (h : Accounted r) (hi : i ∉ r.state.used) (name : CString)
    (deadlineMs : UInt32) (now : UInt64) :
    @Accounted b ⟨{ r.state.setEntry i
        ⟨name.take (nameSize - 1), deadlineMs, now, 0, true, false⟩ with
          count := r.state.count + 1 },
      update r.registered i (some (name, deadlineMs))⟩ := by
  refine ⟨?_, fun j => ?_⟩
  · have hused := used_setEntry r.state i
      ⟨name.take (nameSize - 1), deadlineMs, now, 0, true, false⟩
    have hle := card_used_le (r.state.setEntry i
      ⟨name.take (nameSize - 1), deadlineMs, now, 0, true, false⟩)
    rw [if_pos rfl] at hused
    rw [hused, Finset.card_insert_of_notMem hi] at hle
    show (r.state.count + 1).toNat = (r.state.setEntry i _).used.card
    rw [hused, Finset.card_insert_of_notMem hi, UInt8.toNat_add, h.count]
    exact Nat.mod_eq_of_lt (show r.state.used.card + 1 < 256 by omega)
  · show (update r.state.entries i _ j).component =
      (update r.registered i _ j).map _
    by_cases hj : j = i
    · rw [hj, update_self, update_self]
      rfl
    · rw [update_of_ne hj, update_of_ne hj]
      exact h.designates j

/-- A component is no longer watched. -/
theorem Accounted.unregister (h : Accounted r) (hi : i ∈ r.state.used) (faultedBy : CString) :
    @Accounted b ⟨{ r.state.setEntry i
        { r.state.entries i with used := false, name := CString.empty } with
          faultedBy := faultedBy, count := r.state.count - 1 },
      update r.registered i none⟩ := by
  refine ⟨?_, fun j => ?_⟩
  · have hused := used_setEntry r.state i
      { r.state.entries i with used := false, name := CString.empty }
    have hpos := Finset.card_pos.2 ⟨i, hi⟩
    rw [if_neg Bool.false_ne_true] at hused
    show (r.state.count - 1).toNat = (r.state.setEntry i _).used.card
    rw [hused, Finset.card_erase_of_mem hi, UInt8.toNat_sub_of_le, h.count]
    · rfl
    · rw [UInt8.le_iff_toNat_le, h.count]
      exact hpos
  · show (update r.state.entries i _ j).component =
      (update r.registered i _ j).map _
    by_cases hj : j = i
    · rw [hj, update_self, update_self]
      rfl
    · rw [update_of_ne hj, update_of_ne hj]
      exact h.designates j

/-- The calls that neither register nor unregister. -/
def Call.supervises : Call → Prop
  | .register _ _ => False
  | .unregister _ => False
  | _ => True

/-- **The other calls** leave the components, and their number. -/
theorem perform_supervises {call : Call} (hcall : call.supervises) (now : UInt64) (s : State b) :
    (∀ i, ((perform call now s).2.2.entries i).component = (s.entries i).component) ∧
      (perform call now s).2.2.count = s.count := by
  cases call with
  | register name deadlineMs => exact hcall.elim
  | unregister handle => exact hcall.elim
  | report handle =>
    rcases perform_report handle now s with hp | ⟨i, hused, hp⟩
    · rw [hp]
      exact ⟨fun _ => rfl, rfl⟩
    · rw [hp]
      refine ⟨fun j => ?_, rfl⟩
      show (update s.entries i _ j).component = _
      by_cases hj : j = i
      · rw [hj, update_self]
        rfl
      · rw [update_of_ne hj]
  | start watchdog =>
    rcases perform_start watchdog now s with ⟨e, hp⟩ | hp
    · rw [hp]
      exact ⟨fun _ => rfl, rfl⟩
    · rw [hp]
      refine ⟨fun j => ?_, rfl⟩
      show (s.startEntries now j).component = _
      unfold State.startEntries
      split_ifs
      · rfl
      · rfl
  | evaluate watchdog =>
    show (∀ i, ((evaluate watchdog now s).2.entries i).component = _) ∧
      (evaluate watchdog now s).2.count = _
    have hentries := checkLoop_entries now (List.finRange b.maxComponents) s.entries
    unfold evaluate
    by_cases hstate : s.state = .STOPPED
    · rw [if_pos hstate]
      exact ⟨fun _ => rfl, rfl⟩
    · rw [if_neg hstate]
      rcases hloop : checkLoop now (List.finRange b.maxComponents) s.entries with ⟨entries, _ | i⟩
      · rw [hloop] at hentries
        refine ⟨fun j => ?_, rfl⟩
        obtain ⟨w, hw⟩ := hentries j
        exact (congrArg Entry.component hw).trans rfl
      · rw [hloop] at hentries
        refine ⟨fun j => ?_, rfl⟩
        obtain ⟨w, hw⟩ := hentries j
        exact (congrArg Entry.component hw).trans rfl
  | setIntervalMs watchdog intervalMs =>
    unfold perform setIntervalMs
    dsimp only
    cases checkIntervalMs watchdog intervalMs with
    | some e => exact ⟨fun _ => rfl, rfl⟩
    | none => exact ⟨fun _ => rfl, rfl⟩

/-- Entries with the same components are used alike. -/
theorem used_of_component {s s' : State b}
    (h : ∀ i, (s'.entries i).component = (s.entries i).component) : s'.used = s.used := by
  ext i
  rw [mem_used, mem_used, ← component_isSome, ← component_isSome, h i]

/-- A registration that is refused changes nothing. -/
theorem call_register_error {name : CString} {deadlineMs : UInt32} {now : UInt64} {e : Errno}
    (h : register name deadlineMs now r.state = (.error e, r.state)) :
    r.call (.register name deadlineMs, now) = r := by
  unfold Roll.call perform
  dsimp only
  rw [h]
  rfl

/-- A registration that takes an entry. -/
theorem call_register_ok {name : CString} {deadlineMs : UInt32} {now : UInt64} {s : State b}
    (h : register name deadlineMs now r.state = (.ok i, s)) :
    r.call (.register name deadlineMs, now) =
      ⟨s, update r.registered i (some (name, deadlineMs))⟩ := by
  unfold Roll.call perform
  dsimp only
  rw [h]
  rfl

/-- The end of the watch over nobody changes nothing. -/
theorem call_unregister_error {handle : UInt8} {now : UInt64}
    (h : perform (.unregister handle) now r.state = (⟨some .EINVAL, false⟩, none, r.state)) :
    r.call (.unregister handle, now) = r := by
  unfold Roll.call
  dsimp only
  rw [h]
  rfl

/-- **Every call** keeps the accounts. -/
theorem Accounted.call (h : Accounted r) (c : Call × UInt64) : Accounted (r.call c) := by
  rcases c with ⟨call, now⟩
  by_cases hcall : call.supervises
  · obtain ⟨hcomponent, hcount⟩ := perform_supervises hcall now r.state
    have hregistered : (r.call (call, now)).registered = r.registered := by
      unfold Roll.call enrol
      dsimp only
      cases call with
      | register name deadlineMs => exact hcall.elim
      | unregister handle => exact hcall.elim
      | report handle => exact ite_self _
      | start watchdog => exact ite_self _
      | evaluate watchdog => exact ite_self _
      | setIntervalMs watchdog intervalMs => exact ite_self _
    refine ⟨?_, fun i => ?_⟩
    · show (perform call now r.state).2.2.count.toNat = (perform call now r.state).2.2.used.card
      rw [hcount, used_of_component hcomponent]
      exact h.count
    · rw [hregistered]
      exact (hcomponent i).trans (h.designates i)
  · cases call with
    | register name deadlineMs =>
      rcases register_cases name deadlineMs now r.state with
        ⟨-, e, -, hr⟩ | ⟨-, hr⟩ | ⟨-, i, hi, hr⟩
      · rw [call_register_error hr]
        exact h
      · rw [call_register_error hr]
        exact h
      · rw [call_register_ok hr]
        exact h.register hi name deadlineMs now
    | unregister handle =>
      rcases perform_unregister handle now r.state with hp | ⟨i, hi, hp⟩
      · rw [call_unregister_error hp]
        exact h
      · unfold Roll.call
        dsimp only
        rw [hp]
        exact h.unregister (mem_used.2 hi) _
    | report handle => exact absurd trivial hcall
    | start watchdog => exact absurd trivial hcall
    | evaluate watchdog => exact absurd trivial hcall
    | setIntervalMs watchdog intervalMs => exact absurd trivial hcall

/-! ### Distinct names -/

/-- The names of two entries with the same component. -/
theorem name_of_component {entry entry' : Entry} (h : entry'.component = entry.component)
    (hused : entry'.used = true) : entry.used = true ∧ entry.name = entry'.name := by
  have hu : entry.used = true := by
    rw [← component_isSome, ← h, component_isSome]
    exact hused
  rw [component_eq_some hused, component_eq_some hu] at h
  exact ⟨hu, (congrArg Prod.fst (Option.some.inj h)).symm⟩

/-- **A call that does not collide** keeps the registry sound. -/
theorem Sound.call (h : Sound r) (c : Call × UInt64) (hc : ¬ Collides r c) : Sound (r.call c) := by
  refine (h.accounted.call c).sound ?_
  rcases c with ⟨call, now⟩
  by_cases hcall : call.supervises
  · intro i j hij hi hj
    have hcomponent := (perform_supervises hcall now r.state).1
    obtain ⟨hui, hni⟩ := name_of_component (hcomponent i) hi
    obtain ⟨huj, hnj⟩ := name_of_component (hcomponent j) hj
    have hne := h.distinct i j hij hui huj
    rw [hni, hnj] at hne
    exact hne
  · cases call with
    | register name deadlineMs =>
      rcases register_cases name deadlineMs now r.state with
        ⟨-, e, -, hr⟩ | ⟨-, hr⟩ | ⟨⟨-, hdeadline, hnew⟩, i, hi, hr⟩
      · rw [call_register_error hr]
        exact h.distinct
      · rw [call_register_error hr]
        exact h.distinct
      · rw [call_register_ok hr]
        -- the name as it is kept is no name in use
        have hother : ∀ j, j ∈ r.state.used →
            (r.state.entries j).name ≠ name.take (nameSize - 1) := by
          intro j hj hname
          by_cases hlong : nameSize ≤ name.length
          · refine hc ⟨hlong, hdeadline, fun hall => hi ?_, j, hj, hname⟩
            rw [hall]
            exact Finset.mem_univ i
          · refine hnew j hj (hname.trans (CString.take_of_length_le ?_))
            omega
        intro j k hjk hj hk
        by_cases hji : j = i
        · obtain rfl := hji
          change (update r.state.entries j _ k).used = true at hk
          show (update r.state.entries j _ j).name ≠
            (update r.state.entries j _ k).name
          rw [update_of_ne hjk.symm] at hk
          rw [update_self, update_of_ne hjk.symm]
          exact (hother k (mem_used.2 hk)).symm
        · change (update r.state.entries i _ j).used = true at hj
          change (update r.state.entries i _ k).used = true at hk
          show (update r.state.entries i _ j).name ≠
            (update r.state.entries i _ k).name
          rw [update_of_ne hji] at hj
          rw [update_of_ne hji]
          by_cases hki : k = i
          · rw [hki, update_self]
            exact hother j (mem_used.2 hj)
          · rw [update_of_ne hki] at hk
            rw [update_of_ne hki]
            exact h.distinct j k hjk hj hk
    | unregister handle =>
      rcases perform_unregister handle now r.state with hp | ⟨i, hi, hp⟩
      · rw [call_unregister_error hp]
        exact h.distinct
      · unfold Roll.call
        dsimp only
        rw [hp]
        intro j k hjk hj hk
        change (update r.state.entries i _ j).used = true at hj
        change (update r.state.entries i _ k).used = true at hk
        show (update r.state.entries i _ j).name ≠
          (update r.state.entries i _ k).name
        have hji : j ≠ i := by
          rintro rfl
          rw [update_self] at hj
          exact Bool.false_ne_true hj
        have hki : k ≠ i := by
          rintro rfl
          rw [update_self] at hk
          exact Bool.false_ne_true hk
        rw [update_of_ne hji] at hj
        rw [update_of_ne hki] at hk
        rw [update_of_ne hji, update_of_ne hki]
        exact h.distinct j k hjk hj hk
    | report handle => exact absurd trivial hcall
    | start watchdog => exact absurd trivial hcall
    | evaluate watchdog => exact absurd trivial hcall
    | setIntervalMs watchdog intervalMs => exact absurd trivial hcall

/-- **A call that collides** leaves two entries of one name. -/
theorem Sound.not_call (h : Sound r) (c : Call × UInt64) (hc : Collides r c) :
    ¬ Sound (r.call c) := by
  obtain ⟨call, now⟩ := c
  cases call with
  | register name deadlineMs =>
    obtain ⟨hlong, hdeadline, hroom, k, hk, hname⟩ := hc
    rcases register_cases name deadlineMs now r.state with
      ⟨hzero | hzero | ⟨j, hj, hsame⟩, -⟩ | ⟨hall, -⟩ | ⟨-, i, hi, hr⟩
    · rw [hzero] at hlong
      exact absurd hlong (by decide)
    · exact absurd hzero hdeadline
    · have hshort := h.accounted.short hj
      rw [hsame] at hshort
      exact absurd hlong (not_le.2 hshort)
    · exact absurd hall hroom
    · have hki : k ≠ i := fun hki => hi (hki ▸ hk)
      rw [call_register_ok hr]
      intro hsound
      refine hsound.distinct i k hki.symm ?_ ?_ ?_
      · show (update r.state.entries i _ i).used = true
        rw [update_self]
      · show (update r.state.entries i _ k).used = true
        rw [update_of_ne hki]
        exact mem_used.1 hk
      · show (update r.state.entries i _ i).name =
          (update r.state.entries i _ k).name
        rw [update_self, update_of_ne hki]
        exact hname.symm
  | unregister handle => exact hc.elim
  | report handle => exact hc.elim
  | start watchdog => exact hc.elim
  | evaluate watchdog => exact hc.elim
  | setIntervalMs watchdog intervalMs => exact hc.elim

theorem sound_reset (b : Build) (intervalMs : UInt32) : Sound (Roll.reset b intervalMs) := by
  have hempty : (Roll.reset b intervalMs).state.used = ∅ :=
    Finset.filter_eq_empty_iff.2 fun _ _ => Bool.false_ne_true
  refine Accounted.sound ⟨?_, fun i => rfl⟩ fun i j _ hi => absurd hi Bool.false_ne_true
  rw [hempty]
  rfl

/-- **The registry.**  Throughout a history the names of the used entries are distinct, their number
is `count`, every handle designates the entry of its component, and `-ENOSPC` says that all entries
are in use, exactly as long as no component is registered, with an entry left for it, whose name has
`KFSW_HEALTH_NAME_SIZE` characters or more and begins with a name in use of one less. -/
theorem registry_sound_iff (b : Build) (intervalMs : UInt32) (calls : List (Call × UInt64)) :
    (∀ before, before <+: calls → Sound (before.foldl Roll.call (.reset b intervalMs))) ↔
      ∀ before c, before ++ [c] <+: calls →
        ¬ Collides (before.foldl Roll.call (.reset b intervalMs)) c :=
  foldl_prefixes_iff (fun _ h => h) (fun _ c h hc => h.call c hc)
    (fun _ c h hc => h.not_call c (not_not.1 hc)) calls _ (sound_reset b intervalMs)

/-- The number of the components, and what their handles designate, are right in any case. -/
theorem registry_accounted (b : Build) (intervalMs : UInt32) (calls : List (Call × UInt64)) :
    Accounted (calls.foldl Roll.call (.reset b intervalMs)) :=
  List.foldlRecOn calls Roll.call (sound_reset b intervalMs).accounted fun _ h c _ => h.call c

/-- A name that is not kept as a whole. -/
def longName : CString := .ofString "navigation-filter"

/-- **Two components of one name.**  A component is registered twice, under a name of 17 characters:
both succeed, and the entries have one name. -/
theorem registers_twice : ¬ ∀ before,
      before <+: [(Call.register longName 1000, (0 : UInt64)), (.register longName 1000, 0)] →
      Sound (before.foldl Roll.call (.reset ⟨8, by decide⟩ 0)) := by
  intro h
  have hsound := h _ List.prefix_rfl
  exact hsound.distinct ⟨0, by decide⟩ ⟨1, by decide⟩ (by decide) (by decide) (by decide)
    (by decide)

end KfswServices.Health
