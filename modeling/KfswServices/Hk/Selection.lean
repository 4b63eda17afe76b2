/-
# Samples across reports

`src/hk/hk_selection.c`: the samples of the reports whose retrieval class is in a mask, the lower
class first and the newest collection first within a class.  A sample is named by its index, and
each call merges the rings again, from the state it finds.

In one state two indices name two different samples (`getSelected_apart`).  A sample that is
committed moves what comes behind the lower classes, and only that (`getSelected_below`).
-/

import KfswServices.Hk.Reload

namespace KfswServices.Hk

open Library

variable {b : Build}

/-- The bit of a class in a mask. -/
def selects (mask cls : UInt8) : Bool := mask &&& (1 <<< cls) ≠ 0

/-- The report is defined, with this class. -/
def Report.ofClass (r : Report b) (cls : UInt8) : Bool :=
  r.definition.any fun d => d.retrievalClass = cls

variable {cls : UInt8}

theorem Report.ofClass_unique {r : Report b} {cls' : UInt8} (h : r.ofClass cls = true)
    (h' : r.ofClass cls' = true) : cls' = cls := by
  unfold Report.ofClass at h h'
  cases hd : r.definition with
  | none =>
    rw [hd] at h
    cases h
  | some d =>
    rw [hd] at h h'
    rw [← of_decide_eq_true h, ← of_decide_eq_true h']

/-- What the loop over the reports has found: the highest order, whose it is, and the sample. -/
structure Pick where
  newest : UInt64
  selected : UInt8
  chosen : Option Sample

/-- One turn of it. -/
def pickNext (s : State b) (cls : UInt8) (ages : UInt8 → ℕ) (p : Pick) (report : UInt8) : Pick :=
  let target := s.reports report
  let slot := ageSlot b.history target.nextSlot (ages report)
  if !target.ofClass cls || decide (target.held ≤ ages report) then p
  else if p.newest < target.collectedOrder slot then
    ⟨target.collectedOrder slot, report, some (target.ring slot)⟩
  else p

/-- The newest of the next samples of the rings. -/
def pick (s : State b) (cls : UInt8) (ages : UInt8 → ℕ) : Pick :=
  (reportIndices b).foldl (pickNext s cls ages) ⟨0, 0, none⟩

/-- The ring that was picked from goes on to its next sample. -/
def advance (s : State b) (cls : UInt8) (ages : UInt8 → ℕ) : UInt8 → ℕ :=
  let selected := (pick s cls ages).selected
  Function.update ages selected (ages selected + 1)

/-- The merge of the rings of a class, up to an index. -/
def mergeFrom (s : State b) (cls : UInt8) : (UInt8 → ℕ) → ℕ → Except Errno Sample
  | ages, 0 =>
    match (pick s cls ages).chosen with
    | none => .error .ENOENT
    | some sample => .ok sample
  | ages, position + 1 => mergeFrom s cls (advance s cls ages) position

/-- The samples of a class. -/
def available (s : State b) (cls : UInt8) : ℕ :=
  ((reportIndices b).map fun report =>
    if (s.reports report).ofClass cls then (s.reports report).held else 0).sum

/-- The loop over the classes. -/
def selectFrom (s : State b) (mask : UInt8) : List UInt8 → ℕ → Except Errno Sample
  | [], _ => .error .ENOENT
  | cls :: rest, index =>
    if !selects mask cls then selectFrom s mask rest index
    else if available s cls ≤ index then selectFrom s mask rest (index - available s cls)
    else mergeFrom s cls (fun _ => 0) index

/-- The classes, up to `KFSW_HK_CLASS_MAX`. -/
def classes : List UInt8 := [0, 1, 2, 3, 4, 5, 6, 7]

/-- `kfsw_hk_get_selected`. -/
def getSelected (mask : UInt8) (index : ℕ) (s : State b) : Except Errno Sample :=
  selectFrom s mask classes index

/-- The samples of the classes that are selected. -/
def selectable (s : State b) (mask : UInt8) (cs : List UInt8) : ℕ :=
  (cs.map fun cls => if selects mask cls then available s cls else 0).sum

theorem selectFrom_lt {s : State b} {mask : UInt8} {cs : List UInt8} {index : ℕ} {sample : Sample}
    (h : selectFrom s mask cs index = .ok sample) : index < selectable s mask cs := by
  induction cs generalizing index with
  | nil => cases h
  | cons cls rest ih =>
    unfold selectFrom at h
    unfold selectable at ih ⊢
    rw [List.map_cons, List.sum_cons]
    by_cases hskip : selects mask cls = true
    · rw [hskip, Bool.not_true, if_neg Bool.false_ne_true] at h
      rw [if_pos hskip]
      split_ifs at h with hbehind
      · have := ih h
        omega
      · omega
    · rw [Bool.not_eq_true] at hskip
      rw [hskip, Bool.not_false, if_pos rfl] at h
      have := ih h
      omega

/-! ### Different indices -/

/-- The sample of a report of a class, at an age. -/
structure Placed (s : State b) (cls report : UInt8) (age : ℕ) (sample : Sample) : Prop where
  report_lt : report.toNat < b.reports
  ofClass : (s.reports report).ofClass cls = true
  get_eq : get report age s = .ok sample

variable {s : State b}

/-- What is picked is the next sample of the ring it is picked from. -/
theorem pick_placed {ages : UInt8 → ℕ} {sample : Sample}
    (h : (pick s cls ages).chosen = some sample) :
    Placed s cls (pick s cls ages).selected (ages (pick s cls ages).selected) sample := by
  suffices hall : ∀ (reports : List UInt8) (p : Pick), (∀ r ∈ reports, r.toNat < b.reports) →
      (∀ x, p.chosen = some x → Placed s cls p.selected (ages p.selected) x) →
      ∀ x, (reports.foldl (pickNext s cls ages) p).chosen = some x →
        Placed s cls (reports.foldl (pickNext s cls ages) p).selected
          (ages (reports.foldl (pickNext s cls ages) p).selected) x by
    exact hall (reportIndices b) ⟨0, 0, none⟩ (fun r hr => mem_reportIndices.1 hr)
      (fun x hx => by cases hx) sample h
  intro reports
  induction reports with
  | nil => exact fun p _ hp => hp
  | cons report rest ih =>
    intro p hlt hp
    refine ih (pickNext s cls ages p report) (fun r hr => hlt r (List.mem_cons_of_mem _ hr)) ?_
    dsimp only [pickNext]
    split_ifs with hskip hnewer
    · exact hp
    · intro x hx
      obtain ⟨hclass, hheld⟩ : (s.reports report).ofClass cls = true ∧
          ¬ (s.reports report).held ≤ ages report := by simpa using hskip
      have hreport := hlt report List.mem_cons_self
      refine ⟨hreport, hclass, ?_⟩
      unfold get
      rw [if_neg (not_le.2 hreport), if_neg hheld, Option.some.inj hx]
    · exact hp

/-- The ages after some picks. -/
def agesAfter (s : State b) (cls : UInt8) (ages : UInt8 → ℕ) (position : ℕ) : UInt8 → ℕ :=
  (advance s cls)^[position] ages

theorem mergeFrom_add (s : State b) (cls : UInt8) (ages : UInt8 → ℕ) (i n : ℕ) :
    mergeFrom s cls ages (i + n) = mergeFrom s cls (agesAfter s cls ages i) n := by
  induction i generalizing ages with
  | zero => rw [Nat.zero_add]; rfl
  | succ i ih =>
    rw [Nat.succ_add_eq_add_succ, Nat.add_succ, mergeFrom, ih]
    rfl

/-- A ring never goes back. -/
theorem le_advance (s : State b) (cls : UInt8) (ages : UInt8 → ℕ) (report : UInt8) :
    ages report ≤ advance s cls ages report := by
  unfold advance
  by_cases h : report = (pick s cls ages).selected
  · rw [h, Function.update_self]
    omega
  · rw [Function.update_of_ne h]

/-- What the merge gives is a sample no newer than the ages it starts from. -/
theorem mergeFrom_placed {ages : UInt8 → ℕ} {index : ℕ} {sample : Sample}
    (h : mergeFrom s cls ages index = .ok sample) :
    ∃ report age, ages report ≤ age ∧ Placed s cls report age sample := by
  induction index generalizing ages with
  | zero =>
    unfold mergeFrom at h
    cases hchosen : (pick s cls ages).chosen with
    | none =>
      rw [hchosen] at h
      cases h
    | some x =>
      rw [hchosen] at h
      obtain rfl := Except.ok.inj h
      exact ⟨_, _, le_rfl, pick_placed hchosen⟩
  | succ index ih =>
    obtain ⟨report, age, hle, hplaced⟩ := ih h
    exact ⟨report, age, (le_advance s cls ages report).trans hle, hplaced⟩

/-- **Two places of the merge hold two samples.** -/
theorem mergeFrom_apart {ages : UInt8 → ℕ} {i j : ℕ} (hij : i < j) {x y : Sample}
    (hx : mergeFrom s cls ages i = .ok x) (hy : mergeFrom s cls ages j = .ok y) :
    ∃ r age r' age', Placed s cls r age x ∧ Placed s cls r' age' y ∧ (r, age) ≠ (r', age') := by
  obtain ⟨n, rfl⟩ := Nat.exists_eq_add_of_lt hij
  rw [← Nat.add_zero i, mergeFrom_add, mergeFrom] at hx
  rw [Nat.add_assoc, mergeFrom_add, mergeFrom] at hy
  generalize agesAfter s cls ages i = now at hx hy
  cases hchosen : (pick s cls now).chosen with
  | none =>
    rw [hchosen] at hx
    cases hx
  | some x' =>
    rw [hchosen] at hx
    obtain rfl := Except.ok.inj hx
    obtain ⟨report, age, hle, hplaced⟩ := mergeFrom_placed hy
    refine ⟨_, _, _, _, pick_placed hchosen, hplaced, fun heq => ?_⟩
    -- The ring that was picked from has gone on.
    obtain ⟨rfl, rfl⟩ := Prod.mk.inj heq
    unfold advance at hle
    rw [Function.update_self] at hle
    omega

variable {mask : UInt8}

theorem selectFrom_placed {cs : List UInt8} {index : ℕ} {sample : Sample}
    (h : selectFrom s mask cs index = .ok sample) :
    ∃ cls ∈ cs, ∃ report age, Placed s cls report age sample := by
  induction cs generalizing index with
  | nil => cases h
  | cons cls rest ih =>
    unfold selectFrom at h
    split_ifs at h with hskip hbehind
    · obtain ⟨cls', hmem, hplaced⟩ := ih h
      exact ⟨cls', List.mem_cons_of_mem _ hmem, hplaced⟩
    · obtain ⟨cls', hmem, hplaced⟩ := ih h
      exact ⟨cls', List.mem_cons_of_mem _ hmem, hplaced⟩
    · obtain ⟨report, age, -, hplaced⟩ := mergeFrom_placed h
      exact ⟨cls, List.mem_cons_self, report, age, hplaced⟩

theorem selectFrom_apart {cs : List UInt8} (hcs : cs.Nodup) {i j : ℕ} (hij : i < j) {x y : Sample}
    (hx : selectFrom s mask cs i = .ok x) (hy : selectFrom s mask cs j = .ok y) :
    ∃ cls r age cls' r' age', Placed s cls r age x ∧ Placed s cls' r' age' y ∧
      (r, age) ≠ (r', age') := by
  induction cs generalizing i j with
  | nil => cases hx
  | cons cls rest ih =>
    obtain ⟨hnew, hrest⟩ := List.nodup_cons.1 hcs
    unfold selectFrom at hx hy
    by_cases hskip : (!selects mask cls) = true
    · rw [if_pos hskip] at hx hy
      exact ih hrest hij hx hy
    rw [if_neg hskip] at hx hy
    by_cases hj : available s cls ≤ j
    · rw [if_pos hj] at hy
      by_cases hi : available s cls ≤ i
      · rw [if_pos hi] at hx
        exact ih hrest (by omega) hx hy
      · rw [if_neg hi] at hx
        obtain ⟨r, age, -, hplaced⟩ := mergeFrom_placed hx
        obtain ⟨cls', hmem, r', age', hplaced'⟩ := selectFrom_placed hy
        refine ⟨cls, r, age, cls', r', age', hplaced, hplaced', fun heq => ?_⟩
        -- A report has one class.
        obtain ⟨rfl, -⟩ := Prod.mk.inj heq
        exact hnew (Report.ofClass_unique hplaced.ofClass hplaced'.ofClass ▸ hmem)
    · rw [if_neg hj] at hy
      rw [if_neg (by omega)] at hx
      obtain ⟨r, age, r', age', h⟩ := mergeFrom_apart hij hx hy
      exact ⟨cls, r, age, cls, r', age', h⟩

/-- **In one state two indices name two samples.** -/
theorem getSelected_apart {i j : ℕ} (hij : i < j) {x y : Sample}
    (hx : getSelected mask i s = .ok x) (hy : getSelected mask j s = .ok y) :
    ∃ cls r age cls' r' age', Placed s cls r age x ∧ Placed s cls' r' age' y ∧
      (r, age) ≠ (r', age') :=
  selectFrom_apart (by decide) hij hx hy

/-! ### What a sample that is committed moves -/

/-- The reports of a class are the same in two states. -/
def SameIn (cls : UInt8) (s s' : State b) : Prop :=
  ∀ report, ((s'.reports report).ofClass cls = (s.reports report).ofClass cls) ∧
    ((s.reports report).ofClass cls = true → s'.reports report = s.reports report)

variable {s' : State b}

theorem pick_congr (h : SameIn cls s s') (ages : UInt8 → ℕ) :
    pick s' cls ages = pick s cls ages := by
  have hnext : pickNext s' cls ages = pickNext s cls ages := by
    funext p report
    obtain ⟨hclass, hsame⟩ := h report
    dsimp only [pickNext]
    rw [hclass]
    by_cases hc : (s.reports report).ofClass cls = true
    · rw [hsame hc]
    · rw [show (s.reports report).ofClass cls = false by simpa using hc]
      rfl
  unfold pick
  rw [hnext]

theorem mergeFrom_congr (h : SameIn cls s s') (ages : UInt8 → ℕ) (index : ℕ) :
    mergeFrom s' cls ages index = mergeFrom s cls ages index := by
  induction index generalizing ages with
  | zero => rw [mergeFrom, mergeFrom, pick_congr h]
  | succ index ih =>
    rw [mergeFrom, mergeFrom, ih, advance, advance, pick_congr h]

theorem available_congr (h : SameIn cls s s') : available s' cls = available s cls := by
  unfold available
  congr 1
  refine List.map_congr_left fun report _ => ?_
  obtain ⟨hclass, hsame⟩ := h report
  rw [hclass]
  split_ifs with hc
  · rw [hsame hc]
  · rfl

theorem selectFrom_congr (h : ∀ c, SameIn c s s') (cs : List UInt8) (index : ℕ) :
    selectFrom s' mask cs index = selectFrom s mask cs index := by
  induction cs generalizing index with
  | nil => rfl
  | cons c rest ih =>
    rw [selectFrom, selectFrom, ih, ih, available_congr (h c), mergeFrom_congr (h c)]

/-- The samples in front of those of a class. -/
def heldBelow (s : State b) (mask cls : UInt8) : List UInt8 → ℕ
  | [] => 0
  | c :: rest =>
    if c = cls then 0
    else (if selects mask c then available s c else 0) + heldBelow s mask cls rest

theorem selectFrom_below (h : ∀ c, c ≠ cls → SameIn c s s') {cs : List UInt8} {index : ℕ}
    (hindex : selects mask cls = false ∨ index < heldBelow s mask cls cs) :
    selectFrom s' mask cs index = selectFrom s mask cs index := by
  induction cs generalizing index with
  | nil => rfl
  | cons c rest ih =>
    unfold selectFrom
    by_cases hskip : selects mask c = true
    swap
    · have hfalse : selects mask c = false := by simpa using hskip
      rw [hfalse, Bool.not_false, if_pos rfl, if_pos rfl]
      refine ih (hindex.imp_right fun hlt => ?_)
      unfold heldBelow at hlt
      split_ifs at hlt
      · omega
      · omega
    · rw [hskip, Bool.not_true, if_neg Bool.false_ne_true, if_neg Bool.false_ne_true]
      have hc : c ≠ cls := by
        rintro rfl
        rcases hindex with hnot | hlt
        · rw [hskip] at hnot
          cases hnot
        · unfold heldBelow at hlt
          rw [if_pos rfl] at hlt
          omega
      rw [available_congr (h c hc), mergeFrom_congr (h c hc)]
      split_ifs with hbehind
      · refine ih (hindex.imp_right fun hlt => ?_)
        unfold heldBelow at hlt
        rw [if_neg hc, if_pos hskip] at hlt
        omega
      · rfl

/-- **What lies in front of a class stays where it is**, and so does everything if the class is not
selected, when reports of that class only change. -/
theorem getSelected_below (h : ∀ c, c ≠ cls → SameIn c s s') {index : ℕ}
    (hindex : selects mask cls = false ∨ index < heldBelow s mask cls classes) :
    getSelected mask index s' = getSelected mask index s :=
  selectFrom_below h hindex

/-- A report that gets a sample changes its own class only. -/
theorem sameIn_push {report : UInt8} {x : Sample} {order : UInt64}
    (h : s'.reports = Function.update s.reports report ((s.reports report).push x order))
    {c : UInt8} (hc : (s.reports report).ofClass c = false) : SameIn c s s' := by
  intro r
  rw [h]
  by_cases hr : r = report
  · subst hr
    rw [Function.update_self]
    refine ⟨rfl, fun hclass => ?_⟩
    rw [hc] at hclass
    cases hclass
  · rw [Function.update_of_ne hr]
    exact ⟨rfl, fun _ => rfl⟩

end KfswServices.Hk
