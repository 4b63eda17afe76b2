/-
# The order of the selected samples

`kfsw_hk_collect` numbers the samples of all reports with one counter, and `kfsw_hk_get_selected`
merges the rings of a class by these numbers.  In every run the numbers in a ring fall with the age,
and no two samples have the same; so the merge is one of `Library.Sequences`, and what the indices
name is every sample that the reports of the selected classes hold, each once, the lower class
first and the newest first within a class (`get_selected_order`).

The counter has 64 bits.  When it comes round, a sample has the number 0, with which nothing is
found (`selected_after_wrap`).
-/

import KfswServices.Hk.Selection
import KfswServices.Library.Merge

namespace KfswServices.Hk

open Library
open Relation (ReflTransGen)

variable {b : Build}

/-! ### What is selected -/

/-- The number of the sample of a report at an age, among those of all reports. -/
def orderAt (s : State b) (report : UInt8) (age : ℕ) : ℕ :=
  ((s.reports report).collectedOrder
    (ageSlot b.history (s.reports report).nextSlot age)).toNat

/-- The report is defined, with a class of the mask. -/
def Report.selected (r : Report b) (mask : UInt8) : Bool :=
  r.definition.any fun d => selects mask d.retrievalClass

/-- The samples that these reports hold, by report and age. -/
def heldSamples (s : State b) (mask : UInt8) : List (UInt8 × ℕ) :=
  ((reportIndices b).filter fun r => (s.reports r).selected mask).flatMap fun r =>
    (List.range (s.reports r).held).map fun age => (r, age)

/-- How many they are. -/
def heldTotal (s : State b) (mask : UInt8) : ℕ :=
  (((reportIndices b).filter fun r => (s.reports r).selected mask).map fun r =>
    (s.reports r).held).sum

/-- A sample comes before another: its class is lower, or it is of the same class and was collected
later. -/
def Before (s : State b) (p q : UInt8 × ℕ) : Prop :=
  ∃ c c', (s.reports p.1).ofClass c = true ∧ (s.reports q.1).ofClass c' = true ∧
    (c < c' ∨ (c = c' ∧ orderAt s q.1 q.2 < orderAt s p.1 p.2))

/-- **The indices name the samples in this order**, each sample once, and behind them nothing. -/
def SelectedInOrder (s : State b) (mask : UInt8) : Prop :=
  ∃ xs : List (UInt8 × ℕ), xs.Perm (heldSamples s mask) ∧ xs.Pairwise (Before s) ∧
    xs.length = heldTotal s mask ∧
    (∀ i p, xs[i]? = some p → ∃ sample, get p.1 p.2 s = .ok sample ∧
      getSelected mask i s = .ok sample) ∧
    ∀ i, heldTotal s mask ≤ i → getSelected mask i s = .error .ENOENT

/-! ### The numbers in a run -/

/-- What leaves the definitions and the samples as they are leaves their numbers, too. -/
structure KeepsOrder (s s' : State b) : Prop where
  counter : s'.collectedOrder = s.collectedOrder
  orders : ∀ report, (s'.reports report).collectedOrder = (s.reports report).collectedOrder

/-- A step of any thread.  What goes on besides, and ends no collection, does not touch the
numbers. -/
def OrderStep (u u' : System b) : Prop :=
  SystemStep u u' ∧
    (Keeps u.state u'.state → u'.collecting = u.collecting → KeepsOrder u.state u'.state)

/-- A step in which the counter does not come round. -/
def UnwrappedStep (u u' : System b) : Prop :=
  OrderStep u u' ∧ u.state.collectedOrder ≤ u'.state.collectedOrder

/-- The numbers of the samples that are held: from 1 up to the counter, falling with the age, and
all different. -/
structure OrderInv (s : State b) : Prop where
  nextSlot_lt : ∀ r, (s.reports r).nextSlot < b.history
  held_le : ∀ r, (s.reports r).held ≤ b.history
  range : ∀ r age, age < (s.reports r).held →
    0 < orderAt s r age ∧ orderAt s r age ≤ s.collectedOrder.toNat
  desc : ∀ r age age', age < age' → age' < (s.reports r).held → orderAt s r age' < orderAt s r age
  apart : ∀ r r' age age', r ≠ r' → age < (s.reports r).held → age' < (s.reports r').held →
    orderAt s r age ≠ orderAt s r' age'

theorem orderInv_reset (b : Build) : OrderInv (State.reset b) := by
  have hpos := b.history_range.1
  refine ⟨fun _ => hpos, fun _ => Nat.zero_le _, fun _ _ h => absurd h (Nat.not_lt_zero _),
    fun _ _ _ _ h => absurd h (Nat.not_lt_zero _), fun _ _ _ _ _ h => absurd h (Nat.not_lt_zero _)⟩

variable {s s' : State b}

/-- The numbers of a report are in the report. -/
theorem orderAt_congr {report : UInt8}
    (hnext : (s'.reports report).nextSlot = (s.reports report).nextSlot)
    (horders : (s'.reports report).collectedOrder = (s.reports report).collectedOrder) (age : ℕ) :
    orderAt s' report age = orderAt s report age := by
  unfold orderAt
  rw [hnext, horders]

/-- **Reports that keep their samples, or lose all**, keep the invariant. -/
theorem orderInv_of_kept (hs : OrderInv s) (hcounter : s'.collectedOrder = s.collectedOrder)
    (hreports : ∀ r, ((s'.reports r).held = 0 ∧ (s'.reports r).nextSlot = 0) ∨
      ((s'.reports r).held = (s.reports r).held ∧ (s'.reports r).nextSlot = (s.reports r).nextSlot ∧
        (s'.reports r).collectedOrder = (s.reports r).collectedOrder)) : OrderInv s' := by
  have hpos := b.history_range.1
  have hkept : ∀ r age, age < (s'.reports r).held →
      (s'.reports r).held = (s.reports r).held ∧
        ∀ age', orderAt s' r age' = orderAt s r age' := by
    intro r age hage
    rcases hreports r with ⟨hheld, -⟩ | ⟨hheld, hnext, horders⟩
    · omega
    · exact ⟨hheld, orderAt_congr hnext horders⟩
  refine ⟨fun r => ?_, fun r => ?_, fun r age hage => ?_, fun r age age' hlt hage' => ?_,
    fun r r' age age' hne hage hage' => ?_⟩
  · rcases hreports r with ⟨-, hnext⟩ | ⟨-, hnext, -⟩
    · rw [hnext]
      omega
    · rw [hnext]
      exact hs.nextSlot_lt r
  · rcases hreports r with ⟨hheld, -⟩ | ⟨hheld, -⟩
    · rw [hheld]
      omega
    · rw [hheld]
      exact hs.held_le r
  · obtain ⟨hheld, horder⟩ := hkept r age hage
    rw [horder, hcounter]
    exact hs.range r age (hheld ▸ hage)
  · obtain ⟨hheld, horder⟩ := hkept r age' hage'
    rw [horder, horder]
    exact hs.desc r age age' hlt (hheld ▸ hage')
  · obtain ⟨hheld, horder⟩ := hkept r age hage
    obtain ⟨hheld', horder'⟩ := hkept r' age' hage'
    rw [horder, horder']
    exact hs.apart r r' age age' hne (hheld ▸ hage) (hheld' ▸ hage')

/-- The numbers of a report that gets a sample. -/
theorem orderAt_push {report : UInt8} {x : Sample} {order : UInt64}
    (h : s'.reports report = (s.reports report).push x order)
    (hnext : (s.reports report).nextSlot < b.history) : orderAt s' report 0 = order.toNat ∧
      ∀ age, age + 1 < b.history → orderAt s' report (age + 1) = orderAt s report age := by
  unfold orderAt
  rw [h]
  dsimp only [Report.push]
  refine ⟨?_, fun age hage => ?_⟩
  · rw [ageSlot_push_zero hnext, Function.update_self]
  · rw [ageSlot_push_succ hnext hage, Function.update_of_ne (ageSlot_ne hnext hage)]

/-- **A sample that is committed** has the greatest number. -/
theorem orderInv_push (hs : OrderInv s) {report : UInt8} {x : Sample}
    (hcounter : s'.collectedOrder.toNat = s.collectedOrder.toNat + 1)
    (hreport : s'.reports report = (s.reports report).push x s'.collectedOrder)
    (hother : ∀ r, r ≠ report → s'.reports r = s.reports r) : OrderInv s' := by
  have hpos := b.history_range.1
  obtain ⟨hzero, hsucc⟩ := orderAt_push hreport (hs.nextSlot_lt report)
  have hheld : (s'.reports report).held =
      if (s.reports report).held = b.history then (s.reports report).held
      else (s.reports report).held + 1 := by
    rw [hreport]
    rfl
  have hle := hs.held_le report
  -- an older sample of the report was held before
  have hold : ∀ age, age + 1 < (s'.reports report).held → age < (s.reports report).held ∧
      orderAt s' report (age + 1) = orderAt s report age := by
    intro age hage
    rw [hheld] at hage
    split_ifs at hage with hfull
    · exact ⟨by omega, hsucc age (by omega)⟩
    · exact ⟨by omega, hsucc age (by omega)⟩
  have hsame : ∀ r, r ≠ report → (s'.reports r).held = (s.reports r).held ∧
      ∀ age, orderAt s' r age = orderAt s r age := fun r hr => by
    unfold orderAt
    rw [hother r hr]
    exact ⟨rfl, fun _ => rfl⟩
  -- a sample that was held has a number below the new one
  have hbelow : ∀ r age, age < (s'.reports r).held →
      (r = report ∧ age = 0 ∧ orderAt s' r age = s.collectedOrder.toNat + 1) ∨
        ∃ before, before < (s.reports r).held ∧ orderAt s' r age = orderAt s r before ∧
          (r = report → age = before + 1) ∧ (r ≠ report → age = before) := by
    intro r age hage
    by_cases hr : r = report
    · subst hr
      cases age with
      | zero => exact Or.inl ⟨rfl, rfl, by rw [hzero, hcounter]⟩
      | succ age =>
        obtain ⟨hlt, horder⟩ := hold age hage
        exact Or.inr ⟨age, hlt, horder, fun _ => rfl, fun h => absurd rfl h⟩
    · obtain ⟨hheld', horder⟩ := hsame r hr
      exact Or.inr ⟨age, by omega, horder age, fun h => absurd h hr, fun _ => rfl⟩
  refine ⟨fun r => ?_, fun r => ?_, fun r age hage => ?_, fun r age age' hlt hage' => ?_,
    fun r r' age age' hne hage hage' => ?_⟩
  · by_cases hr : r = report
    · rw [hr, hreport]
      exact Nat.mod_lt _ (by omega)
    · rw [hother r hr]
      exact hs.nextSlot_lt r
  · by_cases hr : r = report
    · rw [hr, hheld]
      split_ifs <;> omega
    · rw [(hsame r hr).1]
      exact hs.held_le r
  · rcases hbelow r age hage with ⟨-, -, horder⟩ | ⟨before, hbefore, horder, -⟩
    · omega
    · have := hs.range r before hbefore
      omega
  · rcases hbelow r age' hage' with ⟨-, rfl, -⟩ | ⟨before', hbefore', horder', hage1, hage2⟩
    · omega
    rcases hbelow r age (by omega) with ⟨-, -, horder⟩ | ⟨before, hbefore, horder, hage3, hage4⟩
    · have := hs.range r before' hbefore'
      omega
    · rw [horder, horder']
      refine hs.desc r before before' ?_ hbefore'
      by_cases hr : r = report
      · have := hage1 hr
        have := hage3 hr
        omega
      · have := hage2 hr
        have := hage4 hr
        omega
  · rcases hbelow r age hage with ⟨hr, -, horder⟩ | ⟨before, hbefore, horder, -⟩
    · rcases hbelow r' age' hage' with ⟨hr', -⟩ | ⟨before', hbefore', horder', -⟩
      · exact absurd (hr.trans hr'.symm) hne
      · have := hs.range r' before' hbefore'
        omega
    · rcases hbelow r' age' hage' with ⟨-, -, horder'⟩ | ⟨before', hbefore', horder', -⟩
      · have := hs.range r before hbefore
        omega
      · rw [horder, horder']
        exact hs.apart r r' before before' hne hbefore hbefore'

/-- A report whose definition changes holds nothing. -/
theorem orderInv_change (hs : OrderInv s) {report : UInt8} {r : Report b}
    (hreports : s'.reports = (s.setReport report r).reports) (hheld : r.held = 0)
    (hnext : r.nextSlot = 0) (hcounter : s'.collectedOrder = s.collectedOrder) : OrderInv s' := by
  refine orderInv_of_kept hs hcounter fun r' => ?_
  rw [hreports]
  by_cases hr : r' = report
  · rw [hr, State.setReport_same]
    exact Or.inl ⟨hheld, hnext⟩
  · rw [State.setReport_ne _ _ hr]
    exact Or.inr ⟨rfl, rfl, rfl⟩

/-- **A step keeps the invariant.** -/
theorem orderInv_step {u u' : System b} (hu : OrderInv u.state) (h : UnwrappedStep u u') :
    OrderInv u'.state := by
  obtain ⟨⟨hstep, hother⟩, hcounter⟩ := h
  cases hstep with
  | @other s' hkeeps =>
    obtain ⟨hcounter', horders⟩ := hother hkeeps rfl
    exact orderInv_of_kept hu hcounter' fun r =>
      Or.inr ⟨hkeeps.held r, hkeeps.nextSlot r, horders r⟩
  | begin hfree hbegin => exact hu
  | @commit c clock reads hc =>
    unfold collectCommit at hcounter ⊢
    dsimp only at hcounter ⊢
    by_cases hstale : (u.state.reports c.report).definition.isNone = true ∨
        c.generation ≠ u.state.generations c.report
    · rw [if_pos hstale]
      exact orderInv_of_kept hu rfl fun r => Or.inr ⟨rfl, rfl, rfl⟩
    · rw [if_neg hstale] at hcounter ⊢
      have hnat : (u.state.collectedOrder + 1).toNat = u.state.collectedOrder.toNat + 1 := by
        have hle : u.state.collectedOrder ≤ u.state.collectedOrder + 1 := hcounter
        rw [UInt64.le_iff_toNat_le, UInt64.toNat_add] at hle
        have hlt := u.state.collectedOrder.toNat_lt
        rw [UInt64.toNat_add]
        rw [show (1 : UInt64).toNat = 1 from rfl] at hle ⊢
        omega
      exact orderInv_push hu hnat (State.setReport_same _ _ _) fun r hr => State.setReport_ne _ _ hr
  | define report d now => exact orderInv_change hu rfl rfl rfl rfl
  | clear report => exact orderInv_change hu rfl rfl rfl rfl
  | restore report definition period sequence now =>
    refine orderInv_change hu rfl ?_ ?_ rfl
    · cases definition <;> rfl
    · cases definition <;> rfl

/-- **A run keeps the invariant.** -/
theorem orderInv_run {u : System b}
    (hr : ReflTransGen UnwrappedStep (System.reset b) u) : OrderInv u.state := by
  induction hr with
  | refl => exact orderInv_reset b
  | tail _ h ih => exact orderInv_step ih h

/-! ### The merge -/

/-- The rings of a class, as sequences. -/
def rings (s : State b) (cls : UInt8) : Sequences UInt8 ℕ where
  indices := (reportIndices b).filter fun r => (s.reports r).ofClass cls
  length r := (s.reports r).held
  key := orderAt s

/-- The ring that is picked from. -/
def chosen (s : State b) (cls : UInt8) (taken : UInt8 → ℕ) : UInt8 := (pick s cls taken).selected

theorem rings_descending (hs : OrderInv s) (cls : UInt8) : (rings s cls).Descending where
  nodup := (nodup_reportIndices b).filter _
  desc i _ a a' hlt hlt' := hs.desc i a a' hlt hlt'
  apart i _ j _ hne a a' ha ha' := hs.apart i j a a' hne ha ha'

/-- What the loop over the reports knows: a ring with the number it has found, or nothing. -/
structure Found (s : State b) (cls : UInt8) (ages : UInt8 → ℕ) (p : Pick) : Prop where
  nothing : p.chosen = none → p.newest.toNat = 0
  sample : ∀ x, p.chosen = some x → (rings s cls).More ages p.selected ∧
    p.newest.toNat = orderAt s p.selected (ages p.selected) ∧ 0 < p.newest.toNat

/-- **The loop finds the greatest number.** -/
theorem foldl_pickNext {cls : UInt8} {ages : UInt8 → ℕ} {reports : List UInt8}
    (hreports : ∀ r ∈ reports, r ∈ reportIndices b) {p : Pick} (hp : Found s cls ages p) :
    Found s cls ages (reports.foldl (pickNext s cls ages) p) ∧
      p.newest.toNat ≤ (reports.foldl (pickNext s cls ages) p).newest.toNat ∧
      ∀ i ∈ reports, (rings s cls).More ages i →
        orderAt s i (ages i) ≤ (reports.foldl (pickNext s cls ages) p).newest.toNat := by
  induction reports generalizing p with
  | nil => exact ⟨hp, le_rfl, fun i hi => by cases hi⟩
  | cons r reports ih =>
    have hr := hreports r List.mem_cons_self
    have hstep : Found s cls ages (pickNext s cls ages p r) ∧
        p.newest.toNat ≤ (pickNext s cls ages p r).newest.toNat ∧
        ((rings s cls).More ages r →
          orderAt s r (ages r) ≤ (pickNext s cls ages p r).newest.toNat) := by
      dsimp only [pickNext]
      split_ifs with hskip hnewer
      · refine ⟨hp, le_rfl, fun hmore => ?_⟩
        -- a ring that is left out has no sample
        obtain ⟨hmem, hlt⟩ := hmore
        have hclass : (s.reports r).ofClass cls = true := (List.mem_filter.1 hmem).2
        have hheld : ages r < (s.reports r).held := hlt
        rw [hclass, Bool.not_true, Bool.false_or, decide_eq_true_eq] at hskip
        omega
      · obtain ⟨hclass, hheld⟩ : (s.reports r).ofClass cls = true ∧
            ¬ (s.reports r).held ≤ ages r := by simpa using hskip
        rw [UInt64.lt_iff_toNat_lt] at hnewer
        have hmore : (rings s cls).More ages r :=
          ⟨List.mem_filter.2 ⟨hr, hclass⟩, not_le.1 hheld⟩
        exact ⟨⟨fun h => (by cases h), fun x _ => ⟨hmore, rfl, (Nat.zero_le _).trans_lt hnewer⟩⟩,
          hnewer.le, fun _ => le_rfl⟩
      · rw [UInt64.lt_iff_toNat_lt] at hnewer
        exact ⟨hp, le_rfl, fun _ => not_lt.1 hnewer⟩
    obtain ⟨hfound, hle, hhead⟩ := hstep
    obtain ⟨hfound', hle', hrest⟩ := ih (fun i hi => hreports i (List.mem_cons_of_mem _ hi)) hfound
    refine ⟨hfound', hle.trans hle', fun i hi hmore => ?_⟩
    rcases List.mem_cons.1 hi with rfl | hi
    · exact (hhead hmore).trans hle'
    · exact hrest i hi hmore

theorem pick_found (s : State b) (cls : UInt8) (ages : UInt8 → ℕ) :
    Found s cls ages (pick s cls ages) ∧ ∀ i, (rings s cls).More ages i →
      orderAt s i (ages i) ≤ (pick s cls ages).newest.toNat := by
  have hnothing : Found s cls ages ⟨0, 0, none⟩ := ⟨fun _ => rfl, fun x hx => by cases hx⟩
  obtain ⟨hfound, -, hgreatest⟩ := foldl_pickNext (fun _ hr => hr) hnothing
  exact ⟨hfound, fun i hmore => hgreatest i (List.mem_filter.1 hmore.1).1 hmore⟩

/-- Something is found as long as a ring has a sample. -/
theorem pick_some (hs : OrderInv s) {cls : UInt8} {ages : UInt8 → ℕ}
    (h : ∃ i, (rings s cls).More ages i) : ∃ x, (pick s cls ages).chosen = some x := by
  obtain ⟨i, hmore⟩ := h
  obtain ⟨hfound, hgreatest⟩ := pick_found s cls ages
  have hle := hgreatest i hmore
  have hpos := (hs.range i (ages i) hmore.2).1
  cases hx : (pick s cls ages).chosen with
  | none =>
    have := hfound.nothing hx
    omega
  | some x => exact ⟨x, rfl⟩

/-- **What is picked is the greatest head.** -/
theorem chosen_chooses (hs : OrderInv s) (cls : UInt8) : (rings s cls).Chooses (chosen s cls) := by
  intro taken hmore
  obtain ⟨hfound, hgreatest⟩ := pick_found s cls taken
  obtain ⟨x, hx⟩ := pick_some hs hmore
  obtain ⟨hselected, hnewest, -⟩ := hfound.sample x hx
  refine ⟨hselected, fun i hi => ?_⟩
  show orderAt s i (taken i) ≤
    orderAt s (pick s cls taken).selected (taken (pick s cls taken).selected)
  rw [← hnewest]
  exact hgreatest i hi

/-- **The merge of a class gives its samples in the order in which they are taken.** -/
theorem mergeFrom_eq (hs : OrderInv s) {cls : UInt8} {index n : ℕ} {taken : UInt8 → ℕ}
    (hn : (rings s cls).left taken = n) (hindex : index < n) :
    ∃ p, (Sequences.merged (chosen s cls) n taken)[index]? = some p ∧
      ∃ sample, get p.1 p.2 s = .ok sample ∧ mergeFrom s cls taken index = .ok sample := by
  induction index generalizing n taken with
  | zero =>
    obtain ⟨n, rfl⟩ := Nat.exists_eq_succ_of_ne_zero (by omega : n ≠ 0)
    obtain ⟨x, hx⟩ := pick_some hs (Sequences.left_pos_iff.1 (by rw [hn]; omega))
    refine ⟨_, rfl, x, (pick_placed hx).get_eq, ?_⟩
    rw [mergeFrom, hx]
  | succ index ih =>
    obtain ⟨n, rfl⟩ := Nat.exists_eq_succ_of_ne_zero (by omega : n ≠ 0)
    obtain ⟨hmore, -⟩ :=
      chosen_chooses hs cls taken (Sequences.left_pos_iff.1 (by rw [hn]; omega))
    have hleft := Sequences.left_take (rings_descending hs cls).nodup hmore
    obtain ⟨p, hp, sample, hget, hmerge⟩ :=
      @ih n (Sequences.take taken (chosen s cls taken)) (by omega) (by omega)
    exact ⟨p, hp, sample, hget, hmerge⟩

/-! ### The classes -/

/-- What a class has to give. -/
theorem available_eq (s : State b) (cls : UInt8) :
    available s cls = (rings s cls).left fun _ => 0 := by
  unfold available Sequences.left rings
  dsimp only
  induction reportIndices b with
  | nil => rfl
  | cons r reports ih =>
    rw [List.map_cons, List.sum_cons, ih]
    by_cases hclass : (s.reports r).ofClass cls = true
    · rw [if_pos hclass, @List.filter_cons_of_pos _ (fun r => (s.reports r).ofClass cls) _ _ hclass,
        List.map_cons, List.sum_cons, Nat.sub_zero]
    · rw [if_neg hclass, @List.filter_cons_of_neg _ (fun r => (s.reports r).ofClass cls) _ _ hclass,
        Nat.zero_add]

/-- The samples of some classes, in the order in which they are given. -/
def ordered (s : State b) (mask : UInt8) (cs : List UInt8) : List (UInt8 × ℕ) :=
  (cs.filter (selects mask)).flatMap fun cls =>
    Sequences.merged (chosen s cls) (available s cls) fun _ => 0

variable {mask : UInt8}

/-- **The loop over the classes goes through them.** -/
theorem selectFrom_eq (hs : OrderInv s) {cs : List UInt8} {index : ℕ} :
    (∀ p, (ordered s mask cs)[index]? = some p →
      ∃ sample, get p.1 p.2 s = .ok sample ∧ selectFrom s mask cs index = .ok sample) ∧
    ((ordered s mask cs)[index]? = none → selectFrom s mask cs index = .error .ENOENT) := by
  induction cs generalizing index with
  | nil => exact ⟨fun p hp => (by cases hp), fun _ => rfl⟩
  | cons cls cs ih =>
    by_cases hselects : selects mask cls = true
    · have hsplit : ordered s mask (cls :: cs) =
          Sequences.merged (chosen s cls) (available s cls) (fun _ => 0) ++ ordered s mask cs := by
        unfold ordered
        rw [List.filter_cons_of_pos hselects, List.flatMap_cons]
      rw [hsplit, selectFrom, hselects, Bool.not_true, if_neg Bool.false_ne_true]
      have hlength := Sequences.length_merged (chosen s cls) (available s cls) fun _ => 0
      by_cases hbehind : available s cls ≤ index
      · rw [if_pos hbehind, List.getElem?_append_right (by omega), hlength]
        exact ih
      · rw [if_neg hbehind, List.getElem?_append_left (by omega)]
        obtain ⟨p, hp, sample, hget, hmerge⟩ :=
          mergeFrom_eq hs (available_eq s cls).symm (not_le.1 hbehind)
        rw [hp]
        refine ⟨fun q hq => ?_, fun h => by cases h⟩
        obtain rfl := Option.some.inj hq
        exact ⟨sample, hget, hmerge⟩
    · have hsplit : ordered s mask (cls :: cs) = ordered s mask cs := by
        unfold ordered
        rw [List.filter_cons_of_neg hselects]
      rw [hsplit, selectFrom, if_pos (by simpa using hselects)]
      exact ih

theorem mem_classes {cls : UInt8} (h : cls ≤ classMax) : cls ∈ classes := by
  have hle : cls.toNat ≤ 7 := UInt8.le_iff_toNat_le.1 h
  rw [show classes = (List.range 8).map UInt8.ofNat from rfl]
  exact List.mem_map.2 ⟨cls.toNat, List.mem_range.2 (by omega), UInt8.ofNat_toNat⟩

/-- A report is selected by its class. -/
theorem selected_iff {r : Report b} :
    r.selected mask = true ↔ ∃ cls ∈ classes, selects mask cls = true ∧ r.ofClass cls = true := by
  unfold Report.selected Report.ofClass
  cases r.definition with
  | none => simp
  | some d =>
    simp only [Option.any_some, decide_eq_true_eq]
    constructor
    · exact fun h => ⟨_, mem_classes d.class_le, h, rfl⟩
    · rintro ⟨_, -, h, rfl⟩
      exact h

/-- **Every sample that is held.** -/
theorem mem_ordered (hs : OrderInv s) {p : UInt8 × ℕ} :
    p ∈ ordered s mask classes ↔ p ∈ heldSamples s mask := by
  obtain ⟨r, age⟩ := p
  unfold ordered heldSamples
  simp only [List.mem_flatMap, List.mem_filter, List.mem_map, List.mem_range, Prod.mk.injEq]
  constructor
  · rintro ⟨cls, ⟨hcls, hselects⟩, hmem⟩
    obtain ⟨hr, -, hage⟩ := (Sequences.mem_merged (rings_descending hs cls) (chosen_chooses hs cls)
      (available_eq s cls).symm r age).1 hmem
    obtain ⟨hindex, hclass⟩ := List.mem_filter.1 hr
    exact ⟨r, ⟨hindex, selected_iff.2 ⟨cls, hcls, hselects, hclass⟩⟩, age, hage, rfl, rfl⟩
  · rintro ⟨r', ⟨hindex, hselected⟩, age', hage, rfl, rfl⟩
    obtain ⟨cls, hcls, hselects, hclass⟩ := selected_iff.1 hselected
    exact ⟨cls, ⟨hcls, hselects⟩, (Sequences.mem_merged (rings_descending hs cls)
      (chosen_chooses hs cls) (available_eq s cls).symm r' age').2
        ⟨List.mem_filter.2 ⟨hindex, hclass⟩, Nat.zero_le _, hage⟩⟩

/-- **Lower classes first, and the newest first in a class.** -/
theorem pairwise_ordered (hs : OrderInv s) (mask : UInt8) :
    (ordered s mask classes).Pairwise (Before s) := by
  have hclass : ∀ cls, ∀ p ∈ Sequences.merged (chosen s cls) (available s cls) (fun _ => 0),
      (s.reports p.1).ofClass cls = true := by
    intro cls p hp
    have hr := ((Sequences.mem_merged (rings_descending hs cls) (chosen_chooses hs cls)
      (available_eq s cls).symm p.1 p.2).1 hp).1
    exact (List.mem_filter.1 hr).2
  unfold ordered
  rw [List.pairwise_flatMap]
  constructor
  · intro cls _
    refine List.Pairwise.imp_of_mem (fun hp hq hlt => ?_) (Sequences.pairwise_merged
      (rings_descending hs cls) (chosen_chooses hs cls) (available_eq s cls).symm)
    exact ⟨cls, cls, hclass cls _ hp, hclass cls _ hq, Or.inr ⟨rfl, hlt⟩⟩
  · have hclasses : classes.Pairwise (· < ·) := by decide
    refine (hclasses.filter _).imp fun hlt p hp q hq => ?_
    exact ⟨_, _, hclass _ p hp, hclass _ q hq, Or.inl hlt⟩

/-- No sample comes before itself. -/
theorem Before.ne {p q : UInt8 × ℕ} (h : Before s p q) : p ≠ q := by
  rintro rfl
  obtain ⟨c, c', hc, hc', hlt | ⟨-, hlt⟩⟩ := h
  · rw [Report.ofClass_unique hc hc'] at hlt
    exact absurd hlt (UInt8.lt_irrefl c)
  · omega

theorem nodup_heldSamples (s : State b) (mask : UInt8) : (heldSamples s mask).Nodup := by
  unfold heldSamples
  rw [List.nodup_flatMap]
  refine ⟨fun r _ => List.nodup_range.map fun _ _ h => (Prod.mk.inj h).2, ?_⟩
  refine ((nodup_reportIndices b).filter _).imp fun hne p hp hq => ?_
  obtain ⟨_, -, rfl⟩ := List.mem_map.1 hp
  obtain ⟨_, -, heq⟩ := List.mem_map.1 hq
  exact hne (Prod.mk.inj heq).1.symm

theorem length_heldSamples (s : State b) (mask : UInt8) :
    (heldSamples s mask).length = heldTotal s mask := by
  unfold heldSamples heldTotal
  rw [List.length_flatMap]
  simp only [List.length_map, List.length_range]

/-- **With these numbers the indices name the samples in order.** -/
theorem selectedInOrder (hs : OrderInv s) (mask : UInt8) : SelectedInOrder s mask := by
  have hnodup : (ordered s mask classes).Nodup := (pairwise_ordered hs mask).imp Before.ne
  have hperm : (ordered s mask classes).Perm (heldSamples s mask) :=
    (List.perm_ext_iff_of_nodup hnodup (nodup_heldSamples s mask)).2 fun _ => mem_ordered hs
  have hlength := hperm.length_eq.trans (length_heldSamples s mask)
  refine ⟨_, hperm, pairwise_ordered hs mask, hlength, fun i p hp => (selectFrom_eq hs).1 p hp,
    fun i hi => (selectFrom_eq hs).2 (List.getElem?_eq_none (by omega))⟩

/-- **Selected samples in order.**  In every run in which the counter of the collections does not
come round, and for every mask: the indices below the total of what the selected reports hold name
these samples, each once, by ascending class and within a class by descending collection; every
index from the total on gives `ENOENT`. -/
theorem get_selected_order {u : System b}
    (hr : ReflTransGen UnwrappedStep (System.reset b) u) (mask : UInt8) :
    SelectedInOrder u.state mask :=
  selectedInOrder (orderInv_run hr) mask

/-! ### One report that is collected again and again -/

/-- Report 0 alone is defined and can be collected, and this many collections have been counted. -/
structure Collectable (d : Definition b) (count : UInt64) (u : System b) : Prop where
  free : u.collecting = none
  initialized : u.state.initialized = true
  restoring : u.state.restoring = false
  definition : (u.state.reports 0).definition = some d
  others : ∀ r, r ≠ 0 → (u.state.reports r).definition = none
  nextSlot_lt : (u.state.reports 0).nextSlot < b.history
  counter : u.state.collectedOrder = count

/-- **A collection of it**, from the copy to the commit. -/
theorem Collectable.collect {d : Definition b} {count : UInt64} {u : System b}
    (h : Collectable d count u) (reads : Reads) :
    ∃ v u', OrderStep u v ∧ OrderStep v u' ∧ v.state.collectedOrder = count ∧
      Collectable d (count + 1) u' ∧ 0 < (u'.state.reports 0).held ∧
      orderAt u'.state 0 0 = (count + 1).toNat := by
  have hreports := b.reports_range.1
  have hhistory := b.history_range.1
  set c : Collecting b := ⟨0, d, (u.state.reports 0).sequence, u.state.generations 0⟩ with hc
  have hbegin : collectBegin 0 u.state = .ok c := by
    unfold collectBegin
    rw [if_neg (by show ¬ 0 ≥ b.reports; omega), h.initialized, h.restoring, h.definition]
    rfl
  have hfresh : ¬ ((u.state.reports 0).definition.isNone = true ∨
      c.generation ≠ u.state.generations c.report) := by
    rw [h.definition]
    simp [hc]
  set sample := (collectReport c.definition c.sequence none reads).1
  set u' : System b := ⟨(collectCommit c sample
    (collectReport c.definition c.sequence none reads).2.failures u.state).2, none, 0⟩ with hu'
  have hreport : u'.state.reports 0 = (u.state.reports 0).push (sample.stamp 0) (count + 1) := by
    rw [hu', ← h.counter]
    unfold collectCommit
    dsimp only
    rw [if_neg hfresh]
    exact State.setReport_same u.state 0
      ((u.state.reports 0).push (sample.stamp 0) (u.state.collectedOrder + 1))
  have hothers : ∀ r, r ≠ 0 → u'.state.reports r = u.state.reports r := by
    intro r hr
    rw [hu']
    unfold collectCommit
    dsimp only
    rw [if_neg hfresh]
    exact State.setReport_ne _ _ hr
  have hrest : u'.state.initialized = u.state.initialized ∧
      u'.state.restoring = u.state.restoring ∧ u'.state.collectedOrder = count + 1 := by
    rw [hu', ← h.counter]
    unfold collectCommit
    dsimp only
    rw [if_neg hfresh]
    exact ⟨rfl, rfl, rfl⟩
  refine ⟨⟨u.state, some c, 0⟩, u', ⟨.begin h.free hbegin, fun _ _ => ⟨rfl, fun _ => rfl⟩⟩,
    ⟨.commit none reads rfl, fun _ hnone => by cases hnone⟩, h.counter,
    ⟨rfl, hrest.1.trans h.initialized, hrest.2.1.trans h.restoring, ?_, fun r hr => ?_, ?_,
      hrest.2.2⟩, ?_, (orderAt_push hreport h.nextSlot_lt).1⟩
  · rw [hreport]
    exact h.definition
  · rw [hothers r hr]
    exact h.others r hr
  · rw [hreport]
    exact Nat.mod_lt _ (by omega)
  · rw [hreport]
    show 0 < if (u.state.reports 0).held = b.history then _ else _
    split_ifs <;> omega

/-- A report that is selected and holds something. -/
theorem heldTotal_pos {r : UInt8} (hr : r.toNat < b.reports)
    (hselected : (s.reports r).selected mask = true) (hheld : 0 < (s.reports r).held) :
    0 < heldTotal s mask := by
  unfold heldTotal
  rw [List.sum_pos_iff_exists_pos_nat]
  exact ⟨_, List.mem_map_of_mem (List.mem_filter.2 ⟨mem_reportIndices.2 hr, hselected⟩), hheld⟩

/-- The mask of all classes selects a byte. -/
theorem selected_byte {count : UInt64} {u : System smallBuild}
    (h : Collectable (byteDefinition ⟨0, 256⟩) count u) :
    (u.state.reports 0).selected 255 = true := by
  unfold Report.selected
  rw [h.definition]
  decide

/-- Report 0 is of a byte, and nothing else is defined. -/
theorem byte_collectable :
    Collectable (byteDefinition ⟨0, 256⟩) 0 (⟨byteState, none, 0⟩ : System smallBuild) where
  free := rfl
  initialized := rfl
  restoring := rfl
  definition := congrArg Report.definition (State.setReport_same _ _ _)
  others r hr := congrArg Report.definition (State.setReport_ne _ _ hr)
  nextSlot_lt := by decide
  counter := rfl

/-- A definition leaves the numbers. -/
theorem define_unwrapped (u : System smallBuild) (report : UInt8) (d : Definition smallBuild) :
    UnwrappedStep u (u.change report (u.state.define report d 0)) := by
  refine ⟨⟨.define report d 0, fun _ _ => ⟨rfl, fun r => ?_⟩⟩, UInt64.le_refl _⟩
  by_cases hr : r = report
  · rw [hr]
    exact (congrArg Report.collectedOrder (State.setReport_same _ _ _)).trans rfl
  · exact congrArg Report.collectedOrder (State.setReport_ne _ _ hr)

/-- A run up to it. -/
theorem byte_ordered_run : ReflTransGen UnwrappedStep (System.reset smallBuild)
    ⟨byteState, none, 0⟩ := by
  have hinit : UnwrappedStep _ (⟨byteState, none, 0⟩ : System smallBuild) :=
    ⟨⟨@SystemStep.other _ ((System.reset smallBuild).change 0
        ((System.reset smallBuild).state.define 0 (byteDefinition ⟨0, 256⟩) 0)) byteState
      ⟨fun _ => rfl, fun _ => rfl, fun _ => rfl, fun _ => rfl, fun _ => rfl, rfl⟩,
      fun _ _ => ⟨rfl, fun _ => rfl⟩⟩, UInt64.le_refl _⟩
  exact (ReflTransGen.single
    (define_unwrapped _ 0 (byteDefinition ⟨0, 256⟩))).tail hinit

/-- A collection in which the counter does not come round. -/
theorem collectOnce_unwrapped (report : UInt8) {u : System smallBuild} (hfree : u.collecting = none)
    (hle : u.state.collectedOrder ≤ (collectOnce report u).state.collectedOrder) :
    ReflTransGen UnwrappedStep u (collectOnce report u) := by
  obtain hsame | ⟨c, hbegin, heq⟩ := collectOnce_cases report u
  · rw [hsame]
  · rw [heq] at hle ⊢
    refine .tail (.single ⟨⟨.begin hfree hbegin, fun _ h => ?_⟩, UInt64.le_refl _⟩)
      ⟨⟨.commit none byteReads rfl, fun _ h => ?_⟩, hle⟩
    · rw [hfree] at h
      cases h
    · cases h

/-- Both reports are collected, report 0 more often than its ring is long. -/
def bothCollected : System smallBuild :=
  collectOnce 0 (collectOnce 0 (collectOnce 1 (collectOnce 0 bothDefined)))

theorem bothCollected_run : ReflTransGen UnwrappedStep (System.reset smallBuild) bothCollected :=
  (byte_ordered_run.tail (define_unwrapped _ 1 lastDefinition)).trans
    ((collectOnce_unwrapped 0 rfl (by decide)).trans ((collectOnce_unwrapped 1 rfl (by decide)).trans
      ((collectOnce_unwrapped 0 rfl (by decide)).trans (collectOnce_unwrapped 0 rfl (by decide)))))

/-- The indices name the three samples that are held. -/
theorem get_selected_three : heldTotal bothCollected.state 255 = 3 ∧
    ∀ i < 3, ∃ sample, getSelected 255 i bothCollected.state = .ok sample := by
  have htotal : heldTotal bothCollected.state 255 = 3 := by decide +kernel
  obtain ⟨xs, -, -, hlength, hget, -⟩ := get_selected_order bothCollected_run 255
  refine ⟨htotal, fun i hi => ?_⟩
  obtain ⟨sample, -, hsample⟩ := hget i _ (List.getElem?_eq_getElem (by omega))
  exact ⟨sample, hsample⟩

/-! ### The counter comes round -/

/-- Any number of collections, one after the other. -/
theorem Collectable.collect_many {d : Definition b} {u : System b} (h : Collectable d 0 u)
    (reads : Reads) (n : ℕ) : ∃ u', ReflTransGen OrderStep u u' ∧
      Collectable d (UInt64.ofNat (n + 1)) u' ∧ 0 < (u'.state.reports 0).held ∧
      orderAt u'.state 0 0 = (UInt64.ofNat (n + 1)).toNat := by
  induction n with
  | zero =>
    obtain ⟨v, u', hbegin, hcommit, -, hu', hheld, horder⟩ := h.collect reads
    exact ⟨u', (ReflTransGen.single hbegin).tail hcommit, hu', hheld, horder⟩
  | succ n ih =>
    obtain ⟨w, hrun, hw, -⟩ := ih
    obtain ⟨v, u', hbegin, hcommit, -, hu', hheld, horder⟩ := hw.collect reads
    rw [← UInt64.ofNat_one, ← UInt64.ofNat_add] at hu' horder
    exact ⟨u', (hrun.tail hbegin).tail hcommit, hu', hheld, horder⟩

/-- Where every head has the number 0, nothing is found. -/
theorem selectFrom_zero {cs : List UInt8}
    (h : ∀ cls i, (rings s cls).More (fun _ => 0) i → orderAt s i 0 = 0) :
    selectFrom s mask cs 0 = .error .ENOENT := by
  induction cs with
  | nil => rfl
  | cons cls cs ih =>
    unfold selectFrom
    split_ifs with hskip hbehind
    · exact ih
    · rw [Nat.zero_sub]
      exact ih
    · rw [mergeFrom]
      obtain ⟨hfound, -⟩ := pick_found s cls fun _ => 0
      cases hx : (pick s cls fun _ => 0).chosen with
      | none => rfl
      | some x =>
        obtain ⟨hmore, hnewest, hpos⟩ := hfound.sample x hx
        have := h cls _ hmore
        omega

/-- After `2 ^ 64` collections of one report its newest sample has the number 0: the report holds a
sample, and none is given. -/
theorem selected_after_wrap : ¬ ∀ u : System smallBuild,
    ReflTransGen OrderStep (System.reset smallBuild) u →
      ∀ mask, SelectedInOrder u.state mask := by
  intro h
  obtain ⟨u, hrun, hu, hheld, horder⟩ := byte_collectable.collect_many byteReads (2 ^ 64 - 1)
  have hzero : orderAt u.state 0 0 = 0 := horder.trans (by decide +kernel)
  have hstart := ReflTransGen.mono (fun _ _ h => h.1) _ _ byte_ordered_run
  obtain ⟨xs, -, -, hlength, hget, -⟩ := h u (hstart.trans hrun) 255
  have htotal := heldTotal_pos (by decide) (selected_byte hu) hheld
  obtain ⟨sample, -, hsample⟩ := hget 0 _ (List.getElem?_eq_getElem (by omega))
  have hnone : getSelected 255 0 u.state = .error .ENOENT := by
    refine selectFrom_zero fun cls i hmore => ?_
    by_cases hi : i = 0
    · rw [hi]
      exact hzero
    · -- no other report is defined
      have hclass : (u.state.reports i).ofClass cls = true := (List.mem_filter.1 hmore.1).2
      unfold Report.ofClass at hclass
      rw [hu.others i hi] at hclass
      cases hclass
  rw [hnone] at hsample
  cases hsample

end KfswServices.Hk
