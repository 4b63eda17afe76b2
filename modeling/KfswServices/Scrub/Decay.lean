/-
# An image that decays

An image that was learned should not change unnoticed.  The calls of a node are followed with what
a reader of its results would know: what every sweep found since the last boot, and the bytes each
region was last learned with.

* Every maximal run of mismatches of a region is counted once (`run_counts`), in every run.
* A region that was never learned is never found to match (`decay_noticed_iff`).
* A region that was learned is found to match, or not to, by what its learned bytes have become —
  as long as its header still describes an image, and the learned checksum is not zero
  (`decay_noticed_iff`).

The length that is measured is read from the bytes under test, so an image whose header decays
reads as an empty slot; and a checksum of zero is what a reference that was never learned holds.
-/

import KfswServices.Library.Count
import KfswServices.Library.Run
import KfswServices.Scrub.Sweep

namespace KfswServices.Scrub

open Library
open Function (update update_eq_self update_of_ne update_self)

variable {b : Build}

/-- A node, what its sweeps found since it booted, and the bytes `kfsw_scrub_learn` last returned 0
on. -/
structure World where
  node : Node
  log : List (Region × ScrubState)
  learned : Region → Option (List UInt8)

/-- A node that was never used. -/
def factory (b : Build) : World := ⟨bootNode b (fun _ => 0) (fun _ => 0), [], fun _ => none⟩

/-- The calls of the service, a write to the parameter that holds a reference, a save of the
parameters by another service, and a reset. -/
inductive Call
  | sweepRegion (r : Region)
  | sweep (nowMs : UInt32)
  | learn (r : Region) (persist : Option Errno)
  | start (nowMs : UInt32)
  | stop
  | setReference (r : Region) (value : UInt32)
  | save
  | reset (readBack : Bool)

/-- A sweep of a region, and what it found. -/
def World.sweepOne (b : Build) (w : World) (flash : Flash b) (r : Region) : World :=
  { w with node := w.node.sweepOne b flash r, log := w.log ++ [(r, w.node.found b flash r)] }

/-- `kfsw_scrub_sweep`. -/
def World.sweep (b : Build) (w : World) (flash : Flash b) (nowMs : UInt32) : World :=
  let w := regions.foldl (fun w r => w.sweepOne b flash r) w
  { w with node := { w.node with sweeps := saturatingInc w.node.sweeps, lastSweepMs := nowMs } }

/-- `kfsw_scrub_learn`: its sweep finds something, and what it adopts it reports as `OK`. -/
def World.learn (b : Build) (w : World) (flash : Flash b) (r : Region) (persist : Option Errno) :
    World :=
  let (result, adopted, node) := w.node.learn b flash r persist
  { node := node
    log := w.log ++ (r, w.node.found b flash r) :: if adopted then [(r, .OK)] else []
    learned :=
      if result = none then
        update w.learned r (some (image b r (flash r) (node.results r).bytes.toNat))
      else w.learned }

/-- One call, on the flash it finds. -/
def World.act (b : Build) (w : World) (flash : Flash b) : Call → World
  | .sweepRegion r => w.sweepOne b flash r
  | .sweep nowMs => w.sweep b flash nowMs
  | .learn r persist => w.learn b flash r persist
  | .start nowMs =>
    if w.node.running then w
    else World.sweep b { w with node := { w.node with running := true } } flash nowMs
  | .stop => { w with node := { w.node with running := false } }
  | .setReference r value =>
    { w with node := { w.node with references := update w.node.references r value } }
  | .save => { w with node := { w.node with saved := w.node.references } }
  | .reset readBack =>
    { w with node := bootNode b (w.node.restored b readBack) w.node.saved, log := [] }

/-- One step. -/
def Step (b : Build) (w : World) (e : Flash b × Call) (w' : World) : Prop := w' = w.act b e.1 e.2

/-! ## Once per run of mismatches -/

/-- What was found in a region, in order. -/
def reports (r : Region) (log : List (Region × ScrubState)) : List ScrubState :=
  (log.filter (·.1 = r)).map (·.2)

def isMismatch (state : ScrubState) : Bool := state = .MISMATCH

/-- The maximal runs of mismatches, over all regions. -/
def mismatchRuns (log : List (Region × ScrubState)) : ℕ :=
  (regions.map fun r => maximalRuns isMismatch (reports r log)).sum

@[simp] theorem reports_concat_self (r : Region) (log : List (Region × ScrubState))
    (state : ScrubState) : reports r (log ++ [(r, state)]) = reports r log ++ [state] := by
  simp [reports]

variable {r : Region}

theorem reports_concat_ne {r' : Region} (h : r' ≠ r) (log : List (Region × ScrubState))
    (state : ScrubState) : reports r (log ++ [(r', state)]) = reports r log := by
  simp [reports, h]

/-- A report starts a run if it is a mismatch and the one before it was none. -/
theorem mismatchRuns_concat (log : List (Region × ScrubState)) (r : Region) (state : ScrubState) :
    mismatchRuns (log ++ [(r, state)]) = mismatchRuns log +
      if isMismatch state && !(reports r log).getLast?.any isMismatch then 1 else 0 := by
  have hsum : ∀ f g : Region → ℕ, (∀ r', r' ≠ r → f r' = g r') → ∀ k, f r = g r + k →
      (regions.map f).sum = (regions.map g).sum + k := by
    intro f g hne k hr
    simp only [regions, List.map_cons, List.map_nil, List.sum_cons, List.sum_nil]
    cases r with
    | SLOT0 =>
      rw [hr, hne .SLOT1 (by decide), hne .GOLDEN (by decide)]
      omega
    | SLOT1 =>
      rw [hr, hne .SLOT0 (by decide), hne .GOLDEN (by decide)]
      omega
    | GOLDEN =>
      rw [hr, hne .SLOT0 (by decide), hne .SLOT1 (by decide)]
      omega
  refine hsum _ _ (fun r' h => ?_) _ ?_
  · rw [reports_concat_ne (Ne.symm h)]
  · rw [reports_concat_self, maximalRuns_concat]

/-- What the latch and the counter say: whether the last report of a region is a mismatch, and how
many runs of mismatches there were. -/
structure Counts (b : Build) (node : Node) (log : List (Region × ScrubState)) : Prop where
  latch : ∀ r, node.mismatching r = (reports r log).getLast?.any isMismatch
  counter : node.mismatches.toNat = min (mismatchRuns log) (2 ^ 32 - 1)
  absent : ∀ r, b.present r = false → node.mismatching r = false

variable {node : Node} {log : List (Region × ScrubState)}

/-- The latch says whether what is reported last is a mismatch. -/
theorem latch_concat {state : ScrubState}
    (h : ∀ r, node.mismatching r = (reports r log).getLast?.any isMismatch) (r' : Region) :
    update node.mismatching r (isMismatch state) r' =
      (reports r' (log ++ [(r, state)])).getLast?.any isMismatch := by
  by_cases hr : r' = r
  · subst hr
    rw [update_self, reports_concat_self, List.getLast?_concat]
    rfl
  · rw [update_of_ne hr, reports_concat_ne (Ne.symm hr)]
    exact h r'

section

variable (h : Counts b node log)
include h

/-- A report that is no mismatch ends a run. -/
theorem Counts.calm {node' : Node} {state : ScrubState}
    (hstate : isMismatch state = false)
    (hmis : node'.mismatching = update node.mismatching r false)
    (hcount : node'.mismatches = node.mismatches) : Counts b node' (log ++ [(r, state)]) := by
  refine ⟨fun r' => ?_, ?_, fun r' habsent => ?_⟩
  · rw [hmis, ← hstate]
    exact latch_concat h.latch r'
  · rw [hcount, mismatchRuns_concat, hstate, Bool.false_and, if_neg Bool.false_ne_true,
      Nat.add_zero]
    exact h.counter
  · rw [hmis]
    by_cases hr : r' = r
    · rw [hr, update_self]
    · rw [update_of_ne hr]
      exact h.absent r' habsent

/-- What the latch and the counter do not depend on. -/
theorem Counts.congr {node' : Node}
    (hmis : node'.mismatching = node.mismatching) (hcount : node'.mismatches = node.mismatches) :
    Counts b node' log :=
  ⟨by rw [hmis]; exact h.latch, by rw [hcount]; exact h.counter, by rw [hmis]; exact h.absent⟩

/-- The latch of a region that is present keeps the count. -/
theorem Counts.latched (hpresent : b.present r = true) (state : ScrubState) (measured : UInt32) :
    Counts b (node.latch b r state measured) (log ++ [(r, state)]) := by
  unfold Node.latch
  by_cases hstate : state = .MISMATCH
  swap
  · rw [if_neg hstate]
    exact h.calm (decide_eq_false hstate) rfl rfl
  subst hstate
  rw [if_pos rfl]
  by_cases hlatched : node.mismatching r = true
  · -- The run goes on.
    rw [if_pos hlatched]
    refine ⟨fun r' => ?_, ?_, h.absent⟩
    · rw [← latch_concat h.latch r', show isMismatch .MISMATCH = true from rfl, ← hlatched,
        update_eq_self]
    · rw [mismatchRuns_concat, ← h.latch r, hlatched]
      exact h.counter
  · -- A run begins.
    have hclear : node.mismatching r = false := by simpa using hlatched
    rw [if_neg hlatched]
    refine ⟨fun r' => ?_, ?_, fun r' habsent => ?_⟩
    · rw [← latch_concat h.latch r']
      rfl
    · rw [mismatchRuns_concat, ← h.latch r, hclear]
      show (saturatingInc node.mismatches).toNat = min (mismatchRuns log + 1) (2 ^ 32 - 1)
      have hcounter := h.counter
      rw [toNat_saturatingInc]
      omega
    · have hr : r' ≠ r := by
        rintro rfl
        rw [hpresent] at habsent
        cases habsent
      show update node.mismatching r true r' = false
      rw [update_of_ne hr]
      exact h.absent r' habsent

/-- **One sweep of a region keeps the count.** -/
theorem Counts.sweepOne (flash : Flash b) (r : Region) :
    Counts b (node.sweepOne b flash r) (log ++ [(r, node.found b flash r)]) := by
  unfold Node.sweepOne Node.found
  by_cases hpresent : b.present r = true
  · rw [if_pos hpresent, if_pos hpresent]
    have hrecord : ∀ state bytes measured, Counts b (node.record r state bytes measured) log :=
      fun _ _ _ => h.congr rfl rfl
    exact (hrecord _ _ _).latched hpresent _ _
  · rw [if_neg hpresent, if_neg hpresent]
    refine h.calm rfl ?_ rfl
    rw [← h.absent r (by simpa using hpresent), update_eq_self]
    rfl

end

variable {w : World}

/-- What is learned is found to match. -/
theorem Counts.learn (h : Counts b w.node w.log) (flash : Flash b) (r : Region)
    (persist : Option Errno) :
    Counts b (w.learn b flash r persist).node (w.learn b flash r persist).log := by
  have hswept := h.sweepOne flash r
  have hadopted : Counts b ((w.node.sweepOne b flash r).adopt r)
      (w.log ++ [(r, w.node.found b flash r)] ++ [(r, .OK)]) := hswept.calm rfl rfl rfl
  rw [List.append_assoc] at hadopted
  unfold World.learn
  rcases learn_cases w.node flash r persist with
    ⟨-, e, hlearn⟩ | ⟨-, -, -, hlearn⟩ | ⟨-, -, hlearn⟩
  · rw [hlearn]
    exact hswept
  · rw [hlearn]
    exact hadopted
  · rw [hlearn]
    exact hadopted.congr rfl rfl

theorem Counts.sweep (h : Counts b w.node w.log) (flash : Flash b) (nowMs : UInt32) :
    Counts b (w.sweep b flash nowMs).node (w.sweep b flash nowMs).log := by
  have hall := ((h.sweepOne flash .SLOT0).sweepOne flash .SLOT1).sweepOne flash .GOLDEN
  exact hall.congr rfl rfl

/-- A node that boots has nothing to count. -/
theorem counts_boot (references saved : Region → UInt32) :
    Counts b (bootNode b references saved) [] :=
  ⟨fun _ => rfl, rfl, fun _ _ => rfl⟩

theorem Counts.act (h : Counts b w.node w.log) (flash : Flash b) (call : Call) :
    Counts b (w.act b flash call).node (w.act b flash call).log := by
  cases call with
  | sweepRegion r => exact h.sweepOne flash r
  | sweep nowMs => exact h.sweep flash nowMs
  | learn r persist => exact h.learn flash r persist
  | start nowMs =>
    by_cases hrun : w.node.running = true
    · rw [show w.act b flash (.start nowMs) = w from if_pos hrun]
      exact h
    · rw [show w.act b flash (.start nowMs) = _ from if_neg hrun]
      exact Counts.sweep (w := { w with node := { w.node with running := true } })
        (h.congr rfl rfl) flash nowMs
  | stop => exact h.congr rfl rfl
  | setReference r value => exact h.congr rfl rfl
  | save => exact h.congr rfl rfl
  | reset readBack => exact counts_boot _ _

/-- **Every maximal run of mismatches of a region is counted once**, whatever happens. -/
theorem run_counts {es : List (Flash b × Call)} (hr : Run (Step b) (factory b) es w) :
    Counts b w.node w.log := by
  refine hr.invariant (I := fun _ w => Counts b w.node w.log) (counts_boot _ _) ?_
  rintro es w ⟨flash, call⟩ w' h rfl
  exact h.act flash call

/-! ## What was learned -/

/-- Nothing but a learning that is saved changes a reference: learning a region that can be measured
saves it, a parameter write writes what is there, and a reset brings the references back. -/
def Steady (b : Build) (w : World) (flash : Flash b) : Call → Prop
  | .learn r persist => Measures b flash r → b.persistence = true → persist = none
  | .setReference r value => value = w.node.references r
  | .reset readBack => w.node.restored b readBack = w.node.references
  | .sweepRegion _ | .sweep _ | .start _ | .stop | .save => True

/-- A steady step. -/
def SteadyStep (b : Build) (w : World) (e : Flash b × Call) (w' : World) : Prop :=
  Step b w e w' ∧ Steady b w e.1 e.2

/-- The references are the checksums of what was learned, and what was learned is an image. -/
structure Learned (b : Build) (w : World) : Prop where
  reference : ∀ r, w.node.references r = ((w.learned r).map crc32).getD 0
  described : ∀ r img, w.learned r = some img → b.present r = true ∧
    ∃ (area : Area (b.size r)) (length : UInt32),
      imageLength b r area = .ok length ∧ img = image b r area length.toNat

/-- A call that leaves the references alone. -/
theorem Learned.congr {w' : World} (h : Learned b w)
    (href : w'.node.references = w.node.references) (hlearned : w'.learned = w.learned) :
    Learned b w' :=
  ⟨by rw [href, hlearned]; exact h.reference, by rw [hlearned]; exact h.described⟩

theorem Learned.sweepOne (h : Learned b w) (flash : Flash b) (r : Region) :
    Learned b (w.sweepOne b flash r) :=
  h.congr (sweepOne_references w.node flash r).1 rfl

theorem Learned.sweep (h : Learned b w) (flash : Flash b) (nowMs : UInt32) :
    Learned b (w.sweep b flash nowMs) :=
  (((h.sweepOne flash .SLOT0).sweepOne flash .SLOT1).sweepOne flash .GOLDEN).congr rfl rfl

/-- A learning that returns 0 keeps the bytes on flash, and their checksum. -/
theorem learn_measured (w : World) {flash : Flash b} {persist : Option Errno}
    (hmeasures : Measures b flash r) (hpersist : b.persistence = true → persist = none) :
    (w.learn b flash r persist).learned = update w.learned r
        (some (image b r (flash r) (measure b r (flash r)).bytes.toNat)) ∧
      (w.learn b flash r persist).node.references = update w.node.references r
        (measure b r (flash r)).crc := by
  have hrefs := (sweepOne_references w.node flash r).1
  have hres := sweepOne_results w.node flash hmeasures.1
  rcases learn_cases w.node flash r persist with
    ⟨hnot, -⟩ | ⟨-, hpersistence, hfailed, -⟩ | ⟨-, -, hlearn⟩
  · exact absurd hmeasures hnot
  · exact absurd (hpersist hpersistence) hfailed
  · unfold World.learn
    rw [hlearn]
    unfold Node.adopt
    dsimp only
    rw [update_self, hrefs, hres]
    exact ⟨rfl, rfl⟩

/-- **What is learned is the image on flash, and its checksum is the reference.** -/
theorem Learned.learn (h : Learned b w) (flash : Flash b) (r : Region) {persist : Option Errno}
    (hsteady : Steady b w flash (.learn r persist)) : Learned b (w.learn b flash r persist) := by
  by_cases hmeasures : Measures b flash r
  · obtain ⟨hlength, hcrc⟩ := measure_ok hmeasures.2
    obtain ⟨hlearned, hrefs⟩ := learn_measured w hmeasures (hsteady hmeasures)
    refine ⟨fun r' => ?_, fun r' img himg => ?_⟩
    · rw [hrefs, hlearned]
      by_cases hr : r' = r
      · subst hr
        rw [update_self, update_self, hcrc]
        rfl
      · rw [update_of_ne hr, update_of_ne hr]
        exact h.reference r'
    · rw [hlearned] at himg
      by_cases hr : r' = r
      · subst hr
        rw [update_self] at himg
        exact ⟨hmeasures.1, flash r', _, hlength, (Option.some.inj himg).symm⟩
      · rw [update_of_ne hr] at himg
        exact h.described r' img himg
  · rcases learn_cases w.node flash r persist with ⟨-, e, hlearn⟩ | ⟨h', -⟩ | ⟨h', -⟩
    · have hnode : (w.learn b flash r persist).node = w.node.sweepOne b flash r := by
        unfold World.learn
        rw [hlearn]
      have hlearned : (w.learn b flash r persist).learned = w.learned := by
        unfold World.learn
        rw [hlearn]
        rfl
      refine h.congr ?_ hlearned
      rw [hnode]
      exact (sweepOne_references w.node flash r).1
    · exact absurd h' hmeasures
    · exact absurd h' hmeasures

theorem Learned.act (h : Learned b w) (flash : Flash b) {call : Call}
    (hsteady : Steady b w flash call) : Learned b (w.act b flash call) := by
  cases call with
  | sweepRegion r => exact h.sweepOne flash r
  | sweep nowMs => exact h.sweep flash nowMs
  | learn r persist => exact h.learn flash r hsteady
  | start nowMs =>
    by_cases hrun : w.node.running = true
    · rw [show w.act b flash (.start nowMs) = w from if_pos hrun]
      exact h
    · rw [show w.act b flash (.start nowMs) = _ from if_neg hrun]
      exact Learned.sweep (w := { w with node := { w.node with running := true } })
        (h.congr rfl rfl) flash nowMs
  | stop => exact h.congr rfl rfl
  | setReference r value =>
    refine h.congr ?_ rfl
    show update w.node.references r value = w.node.references
    rw [show value = w.node.references r from hsteady, update_eq_self]
  | save => exact h.congr rfl rfl
  | reset readBack => exact h.congr hsteady rfl

/-- Over a steady run the references are what was learned. -/
theorem run_learned {es : List (Flash b × Call)} (hr : Run (SteadyStep b) (factory b) es w) :
    Learned b w := by
  refine hr.invariant (I := fun _ w => Learned b w) ⟨fun _ => rfl, fun _ _ h => by cases h⟩ ?_
  rintro es w ⟨flash, call⟩ w' h ⟨rfl, hsteady⟩
  exact h.act flash hsteady

/-! ## What a sweep finds -/

/-- The learned bytes are still on flash. -/
def Unchanged (b : Build) (r : Region) (area : Area (b.size r)) (img : List UInt8) : Prop :=
  image b r area img.length = img

/-- The image a sweep would measure does not collide with the learned one. -/
def NoCollision (b : Build) (r : Region) (area : Area (b.size r)) (img : List UInt8) : Prop :=
  ∀ length, imageLength b r area = .ok length →
    crc32 (image b r area length.toNat) = crc32 img → image b r area length.toNat = img

/-- A sweep tells what became of the learned bytes. -/
structure Noticed (b : Build) (w : World) (flash : Flash b) (r : Region) (img : List UInt8) :
    Prop where
  unchanged : Unchanged b r (flash r) img → ((w.node.sweepOne b flash r).results r).state = .OK
  changed : ¬ Unchanged b r (flash r) img →
    ((w.node.sweepOne b flash r).results r).state = .MISMATCH

/-- The learned checksum is not the mark of a reference that was not learned, and the header still
describes an image; one of the learned length, if the learned bytes are unchanged. -/
structure StillDescribed (b : Build) (r : Region) (area : Area (b.size r)) (img : List UInt8) :
    Prop where
  marked : crc32 img ≠ 0
  described : ∃ length, imageLength b r area = .ok length ∧
    (Unchanged b r area img → length.toNat = img.length)

theorem length_image {area : Area (b.size r)} {length : UInt32}
    (h : imageLength b r area = .ok length) :
    (image b r area length.toNat).length = length.toNat := by
  have hfit := imageLength_fits h
  have hbytes := area.length_bytes
  rw [image, length_region]
  omega

/-- What a sweep of a readable region finds. -/
theorem found_readable {flash : Flash b} (hread : (flash r).Readable) {length : UInt32}
    (hpresent : b.present r = true) (hlength : imageLength b r (flash r) = .ok length) :
    node.found b flash r =
      if node.references r = 0 then .UNKNOWN
      else if node.references r = crc32 (image b r (flash r) length.toNat) then .OK
      else .MISMATCH := by
  rw [Node.found, if_pos hpresent, measure_readable hread, hlength]
  rfl

/-- A sweep that compares has a reference, and an image to compare. -/
theorem found_compared {flash : Flash b} (hread : (flash r).Readable)
    (h : node.found b flash r = .OK ∨ node.found b flash r = .MISMATCH) :
    node.references r ≠ 0 ∧ ∃ length, imageLength b r (flash r) = .ok length := by
  by_cases hpresent : b.present r = true
  swap
  · rw [Node.found, if_neg hpresent] at h
    rcases h with h | h
    · cases h
    · cases h
  cases hlength : imageLength b r (flash r) with
  | ok length =>
    rw [found_readable hread hpresent hlength] at h
    refine ⟨fun hzero => ?_, length, rfl⟩
    rw [if_pos hzero] at h
    rcases h with h | h
    · cases h
    · cases h
  | error e =>
    rw [Node.found, if_pos hpresent, measure_readable hread, hlength] at h
    have hnot := @judge_measured (node.references r) ⟨some e, 0, 0⟩
    rcases h with h | h
    · rw [h] at hnot
      exact absurd (hnot.1 ⟨by decide, by decide⟩) (by simp)
    · rw [h] at hnot
      exact absurd (hnot.1 ⟨by decide, by decide⟩) (by simp)

/-- **A learned image does not decay unnoticed.**  In every run in which only a learning that is saved
changes a reference: every maximal run of mismatches of a region is counted once; a region that was
never learned is not found to match; and a sweep of a learned region that can be read tells what
became of its learned bytes exactly if the learned checksum is not zero and the header still
describes the image. -/
theorem decay_noticed_iff {es : List (Flash b × Call)} {w : World}
    (hr : Run (SteadyStep b) (factory b) es w) :
    w.node.mismatches.toNat = min (mismatchRuns w.log) (2 ^ 32 - 1) ∧
      (∀ r flash, w.learned r = none → ((w.node.sweepOne b flash r).results r).state ≠ .OK) ∧
      ∀ r flash img, w.learned r = some img → (flash r).Readable →
        NoCollision b r (flash r) img →
        (Noticed b w flash r img ↔ StillDescribed b r (flash r) img) := by
  have hlearned := run_learned hr
  refine ⟨(run_counts (hr.mono fun _ _ _ h => h.1)).counter, fun r flash hnone => ?_,
    fun r flash img himg hread hcollision => ?_⟩
  · have hzero : w.node.references r = 0 := by rw [hlearned.reference, hnone]; rfl
    rw [sweepOne_state, Node.found, hzero]
    by_cases hpresent : b.present r = true
    · rw [if_pos hpresent]
      exact judge_zero _
    · rw [if_neg hpresent]
      decide
  have href : w.node.references r = crc32 img := by rw [hlearned.reference, himg]; rfl
  have hpresent := (hlearned.described r img himg).1
  constructor
  · rintro ⟨hsame, hchanged⟩
    rw [sweepOne_state] at hsame hchanged
    by_cases hunchanged : Unchanged b r (flash r) img
    · have hok := hsame hunchanged
      obtain ⟨hmark, length, hlength⟩ := found_compared hread (.inl hok)
      rw [href] at hmark
      refine ⟨hmark, length, hlength, fun _ => ?_⟩
      rw [found_readable hread hpresent hlength, href, if_neg hmark] at hok
      split_ifs at hok with hcrc
      rw [← length_image hlength, hcollision length hlength hcrc.symm]
    · obtain ⟨hmark, length, hlength⟩ := found_compared hread (.inr (hchanged hunchanged))
      rw [href] at hmark
      exact ⟨hmark, length, hlength, fun h => absurd h hunchanged⟩
  · rintro ⟨hmark, length, hlength, hsame⟩
    have hfound := @found_readable b r w.node flash hread length hpresent hlength
    rw [href, if_neg hmark, ← sweepOne_state] at hfound
    constructor
    · intro hunchanged
      rw [hfound, if_pos]
      rw [hsame hunchanged, show image b r (flash r) img.length = img from hunchanged]
    · intro hchanged
      rw [hfound, if_neg]
      intro hcrc
      have himage := hcollision length hlength hcrc.symm
      have hlen : length.toNat = img.length := by rw [← length_image hlength, himage]
      exact hchanged (by rw [Unchanged, ← hlen, himage])

/-- A partition of 32 bytes with an image of 24, whose first byte and first payload byte are given,
and only that partition. -/
def slotBuild : Build := ⟨(· = .SLOT0), fun _ => 32, fun _ => 0, fun _ => by decide, true, true⟩

def slotBytes (first payload : UInt8) : List UInt8 :=
  [first, 0xb8, 0xf3, 0x96, 0, 0, 0, 0, 16, 0, 0, 0, 8, 0, 0, 0, payload, 2, 3, 4, 5, 6, 7, 8]

def slotFlash (first payload : UInt8) : Flash slotBuild := fun _ =>
  ⟨slotBytes first payload ++ List.replicate 8 0xff, rfl, true, fun _ _ => false⟩

theorem slotFlash_readable (first payload : UInt8) :
    (slotFlash first payload .SLOT0).Readable := ⟨rfl, fun _ _ => rfl⟩

/-- The node that learned the image. -/
def slotLearned : World :=
  (factory slotBuild).act slotBuild (slotFlash 0x3d 1) (.learn .SLOT0 none)

theorem slotLearned_run :
    Run (SteadyStep slotBuild) (factory slotBuild) [(slotFlash 0x3d 1, .learn .SLOT0 none)]
      slotLearned := .single ⟨rfl, fun _ _ => rfl⟩

theorem slotLearned_learned : slotLearned.learned .SLOT0 = some (slotBytes 0x3d 1) := by
  have hlength : imageLength slotBuild .SLOT0 (slotFlash 0x3d 1 .SLOT0) = .ok 24 := by
    decide +kernel
  have hmeasure := measure_readable (slotFlash_readable 0x3d 1)
  rw [hlength] at hmeasure
  have hmeasures : Measures slotBuild (slotFlash 0x3d 1) .SLOT0 := ⟨rfl, by rw [hmeasure]⟩
  have hlearned := (learn_measured (factory slotBuild) hmeasures fun _ => rfl).1
  rw [hmeasure] at hlearned
  exact (congrFun hlearned .SLOT0).trans (by decide +kernel)

/-- A payload byte that flips is found. -/
theorem decay_noticed_payload :
    ((slotLearned.node.sweepOne slotBuild (slotFlash 0x3d 9) .SLOT0).results .SLOT0).state =
      .MISMATCH := by
  have hlength : imageLength slotBuild .SLOT0 (slotFlash 0x3d 9 .SLOT0) = .ok 24 := by
    decide +kernel
  have hcrc : crc32 (slotBytes 0x3d 9) ≠ crc32 (slotBytes 0x3d 1) := by decide +kernel
  have hnoticed := ((decay_noticed_iff slotLearned_run).2.2 .SLOT0 (slotFlash 0x3d 9) _
    slotLearned_learned (slotFlash_readable 0x3d 9) fun length h hcollide => by
      rw [hlength] at h
      obtain rfl := Except.ok.inj h
      exact absurd hcollide hcrc).2 ⟨by decide +kernel, 24, hlength, fun _ => rfl⟩
  exact hnoticed.changed (by unfold Unchanged; decide +kernel)

/-- A bit of the magic that flips reads as an empty slot. -/
theorem magic_decay_reads_empty :
    Run (SteadyStep slotBuild) (factory slotBuild) [(slotFlash 0x3d 1, .learn .SLOT0 none)]
        slotLearned ∧ slotLearned.learned .SLOT0 = some (slotBytes 0x3d 1) ∧
      (slotFlash 0x3c 1 .SLOT0).Readable ∧
      NoCollision slotBuild .SLOT0 (slotFlash 0x3c 1 .SLOT0) (slotBytes 0x3d 1) ∧
      ¬ Unchanged slotBuild .SLOT0 (slotFlash 0x3c 1 .SLOT0) (slotBytes 0x3d 1) ∧
      ((slotLearned.node.sweepOne slotBuild (slotFlash 0x3c 1) .SLOT0).results .SLOT0).state =
        .EMPTY := by
  have hlength : imageLength slotBuild .SLOT0 (slotFlash 0x3c 1 .SLOT0) = .error .ENOENT := by
    decide +kernel
  refine ⟨slotLearned_run, slotLearned_learned, slotFlash_readable 0x3c 1, fun length h => ?_,
    by unfold Unchanged; decide +kernel, ?_⟩
  · rw [hlength] at h
    cases h
  · rw [sweepOne_state, Node.found, measure_readable (slotFlash_readable 0x3c 1), hlength]
    rfl

end KfswServices.Scrub
