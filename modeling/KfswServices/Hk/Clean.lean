/-
# Settings that are clean

A call that changes the settings holds one lock while it changes them and counts a revision, and then
saves them under another, `kfsw_hk_save` saves them too, and the state has a lock of its own: any
threads, in any order, and any failure of the file system (`SaveStep`).  `settings_dirty` is cleared
by a save whose snapshot has the revision that is there when it ends.

Where the settings are clean and no call is under way the file reproduces what a snapshot walks over
(`clean_reproduces`), which is all of the settings but the beacon of a report that is not defined:
`clean_saved_iff`.
-/

import KfswServices.Hk.Reproduced
import KfswServices.Storage.SnapshotFile
import Mathlib.Data.Set.Card

namespace KfswServices.Hk

open Library Relation Ftp
open KfswServices.Storage (snapshotWrite Replaces replaces_snapshotWrite)

variable {b : Build} {T : Type} [DecidableEq T]

/-! ### The file -/

/-- `KFSW_HK_PERSIST_DIRECTORY`, `KFSW_HK_PERSIST_PATH` and `KFSW_HK_PERSIST_TEMP_PATH`. -/
structure Paths where
  directory : CString
  path : CString
  temporary : CString
  path_ne_directory : path ≠ directory
  path_ne_temporary : path ≠ temporary

/-- The end of `save_snapshot`, with the bytes of a snapshot. -/
def Paths.write (p : Paths) (ready : Bool) (data : List UInt8) : Program (Option Errno) := do
  match ← fsMkdir p.directory with
  | some e =>
    if e ≠ .EEXIST then pure (some e)
    else snapshotWrite ready (some p.path) (some p.temporary) (some data)
  | none => snapshotWrite ready (some p.path) (some p.temporary) (some data)

/-- What a save leaves of the file: what it had, if it fails, and the bytes of the snapshot if not. -/
def Paths.Leaves (p : Paths) (data : List UInt8) (s₀ : Fs) (result : Option Errno) (s : Fs) : Prop :=
  (result ≠ none → SameName p.path s₀ s) ∧ (result = none → s.content p.path = some data)

/-- **The file is replaced whole or not at all**, all along. -/
theorem Paths.replaces_write (p : Paths) (ready : Bool) (data : List UInt8) (s : Fs) :
    Replaces p.path data s (p.write ready data) (p.Leaves data s) s := by
  have hmkdir : Replaces p.path data s (fsMkdir p.directory)
      (fun _ s' => SameName p.path s s') s := by
    rintro _ rfl r s' hstep
    have hsame : SameName p.path s s' := by
      rcases r with _ | e
      · obtain ⟨-, rfl⟩ := hstep
        exact ⟨Function.update_of_ne p.path_ne_directory _ _,
          Fs.content_mkdir_of_ne _ p.path_ne_directory⟩
      · obtain rfl : s' = s := hstep
        exact SameName.refl _ _
    exact ⟨Or.inl hsame, hsame⟩
  have hwrite : ∀ s₁, SameName p.path s s₁ → Replaces p.path data s
      (snapshotWrite ready (some p.path) (some p.temporary) (some data)) (p.Leaves data s) s₁ := by
    intro s₁ hsame
    refine (replaces_snapshotWrite ready p.path_ne_temporary).mono (fun _ _ h => h)
      (fun _ _ _ _ h => ?_) fun r s' h => ⟨fun hr => hsame.trans (h.1 hr), h.2⟩
    rcases h with h | h
    · exact Or.inl (hsame.trans h)
    · exact Or.inr h
  refine hmkdir.bind fun r s₁ hsame => ?_
  rcases r with _ | e
  · exact hwrite s₁ hsame
  · dsimp only
    split_ifs
    · exact ⟨fun _ => hsame, fun hr => by cases hr⟩
    · exact hwrite s₁ hsame

/-! ### The calls -/

namespace State

/-- What `kfsw_hk_config_end` does with a change that was made. -/
def configChanged (s : State b) : State b :=
  { s with
    configRevision := s.configRevision + 1
    stats := { s.stats with settingsDirty := true } }

/-- What `kfsw_hk_save` does first. -/
def unblock (s : State b) : State b := { s with saveBlocked := false }

/-- `kfsw_hk_save_result`. -/
def saveResult (revision : UInt64) (result : Option Errno) (s : State b) : State b :=
  { s with stats := { s.stats with
      lastSaveError := result
      settingsDirty := if result = none ∧ s.configRevision = revision then false
        else s.stats.settingsDirty } }

/-- `kfsw_hk_restore_end`. -/
def restoreEnd (result : Option Errno) (s : State b) : State b :=
  let blocked := decide (result ≠ none ∧ result ≠ some .ENOENT)
  { s with
    stats := { s.stats with
      lastLoadError := if result = some .ENOENT then none else result
      settingsDirty := if result = none then false else blocked }
    saveBlocked := blocked
    configRevision := if result = none then s.configRevision + 1 else s.configRevision
    restoring := false }

end State

/-- Where a thread is in a call.  One that has begun holds `config_lock` until its change is counted,
and one that has the lock of the file holds it until the save has a result. -/
inductive Call
  | idle
  | begun
  | changed (result : Option Errno)
  | unsaved
  | locked
  | writing (revision : UInt64) (data : List UInt8) (p : Program (Option Errno))
  | written (revision : UInt64) (result : Option Errno)

namespace Call

/-- The thread holds `config_lock`. -/
def HasConfig : Call → Prop
  | begun | changed _ => True
  | _ => False

/-- The thread holds `file_lock`. -/
def HasFile : Call → Prop
  | locked | writing .. | written .. => True
  | _ => False

end Call

/-- The state, the files, and where the threads are. -/
structure Saving (T : Type) (b : Build) where
  state : State b
  fs : Fs
  call : T → Call

/-- A thread goes on. -/
def Saving.go (σ : Saving T b) (t : T) (c : Call) : Saving T b :=
  { σ with call := Function.update σ.call t c }

/-- A step of a thread: of a change, `kfsw_hk_config_begin` and `kfsw_hk_config_end`, of
`kfsw_hk_save`, and of `kfsw_hk_persist_save`, with each call of the file system; or what goes on
besides. -/
inductive SaveStep (p : Paths) : Saving T b → Saving T b → Prop
  | begin {σ : Saving T b} {t : T} (hidle : σ.call t = .idle) (hready : σ.state.isReady = true)
      (hfree : ∀ t', ¬ (σ.call t').HasConfig) : SaveStep p σ (σ.go t .begun)
  | change {σ : Saving T b} {t : T} (c : Change b) (h : σ.call t = .begun) :
      SaveStep p σ
        (Saving.go { σ with state := (c.apply σ.state).2 } t (.changed (c.apply σ.state).1))
  | refused {σ : Saving T b} {t : T} {e : Errno} (h : σ.call t = .changed (some e)) :
      SaveStep p σ (σ.go t .idle)
  | applied {σ : Saving T b} {t : T} (h : σ.call t = .changed none) :
      SaveStep p σ (Saving.go { σ with state := σ.state.configChanged } t .unsaved)
  | save {σ : Saving T b} {t : T} (hidle : σ.call t = .idle) (hready : σ.state.isReady = true) :
      SaveStep p σ (Saving.go { σ with state := σ.state.unblock } t .unsaved)
  | lock {σ : Saving T b} {t : T} (h : σ.call t = .unsaved)
      (hfree : ∀ t', ¬ (σ.call t').HasFile) : SaveStep p σ (σ.go t .locked)
  | unready {σ : Saving T b} {t : T} (h : σ.call t = .locked) :
      SaveStep p σ (σ.go t (.written 0 (some .ENODEV)))
  | blocked {σ : Saving T b} {t : T} (h : σ.call t = .locked)
      (hblocked : σ.state.saveBlocked = true) :
      SaveStep p σ (σ.go t (.written σ.state.configRevision (some .EROFS)))
  | snapshot {σ : Saving T b} {t : T} (ready : Bool) (h : σ.call t = .locked)
      (hblocked : σ.state.saveBlocked = false) :
      SaveStep p σ (σ.go t (.writing σ.state.configRevision (snapshotOf σ.state)
        (p.write ready (snapshotOf σ.state))))
  | write {σ : Saving T b} {t : T} {revision : UInt64} {data : List UInt8}
      {q q' : Program (Option Errno)} {e : Event OpResult Fs} {fs' : Fs}
      (h : σ.call t = .writing revision data q) (hstep : Prog.Step FsStep (q, σ.fs) e (q', fs')) :
      SaveStep p σ (Saving.go { σ with fs := fs' } t (.writing revision data q'))
  | wrote {σ : Saving T b} {t : T} {revision : UInt64} {data : List UInt8} {result : Option Errno}
      (h : σ.call t = .writing revision data (.ret result)) :
      SaveStep p σ (σ.go t (.written revision result))
  | saved {σ : Saving T b} {t : T} {revision : UInt64} {result : Option Errno}
      (h : σ.call t = .written revision result) :
      SaveStep p σ (Saving.go { σ with state := σ.state.saveResult revision result } t .idle)
  | other {σ : Saving T b} {s' : State b} (h : KeepsSettings σ.state s')
      (hdirty : s'.stats.settingsDirty = σ.state.stats.settingsDirty)
      (hrevision : s'.configRevision = σ.state.configRevision) :
      SaveStep p σ { σ with state := s' }

/-- The node after `kfsw_hk_init`: a reset, and a load of the settings that ends with a result. -/
inductive Booted (p : Paths) : Option Errno → Saving T b → Prop
  | mk {fs : Fs} {io : LoadIo} {lists : ℕ → Listings} {now : ℤ}
      {files : UInt8 → Option (List UInt8)} {n : Node b} {result : Option Errno}
      (h : loadSnapshot io lists now (.zero b) (fs.content p.path) ⟨State.reset b, files⟩ =
        (.ended (.returned result), n)) :
      Booted p result ⟨{ n.state.restoreEnd result with initialized := true }, fs, fun _ => .idle⟩

/-! ### What holds all along -/

section

variable {p : Paths} {σ : Saving T b} {t : T} {c : Call}

@[simp] theorem Saving.go_same : (σ.go t c).call t = c := Function.update_self _ _ _

theorem Saving.go_ne {t' : T} (h : t' ≠ t) : (σ.go t c).call t' = σ.call t' :=
  Function.update_of_ne h _ _

/-- A change is made that is not counted yet. -/
def Saving.Midway (σ : Saving T b) : Prop := ∃ t, σ.call t = .changed none

/-- A file has the settings, but for a change that is not counted yet. -/
def Saving.Current (σ : Saving T b) (file : Option (List UInt8)) : Prop :=
  σ.Midway ∨ Reproduces file σ.state.savedSettings

/-- How many threads wait for the lock of the file. -/
noncomputable def Saving.waiting (σ : Saving T b) : ℕ := {t | σ.call t = .unsaved}.ncard

/-- What a snapshot was taken of is what is there, or was changed since; each of the threads that did
is waiting. -/
def Saving.Tracked (σ : Saving T b) (revision : UInt64) (file : Option (List UInt8)) : Prop :=
  ∃ count ≤ σ.waiting, σ.state.configRevision = revision + UInt64.ofNat count ∧
    (0 < count → σ.state.stats.settingsDirty = true) ∧ (count = 0 → σ.Current file)

/-- What is known of a save that is under way. -/
def Saving.Held (p : Paths) (σ : Saving T b) : Call → Prop
  | .writing revision data q => σ.Tracked revision (some data) ∧ ∃ s₀ : Fs,
      (σ.state.stats.settingsDirty = false → σ.Current (s₀.content p.path)) ∧
      (SameName p.path s₀ σ.fs ∨ σ.fs.content p.path = some data) ∧
      Replaces p.path data s₀ q (p.Leaves data s₀) σ.fs
  | .written revision none => σ.Tracked revision (σ.fs.content p.path)
  | _ => True

/-- **The invariant.**  At most one thread has each of the locks, and where the settings are clean
the file has them, but for a change that is not counted yet. -/
structure Saving.Inv (p : Paths) (σ : Saving T b) : Prop where
  known : SettledBy Definition.WasPrepared σ.state
  config : ∀ t t', (σ.call t).HasConfig → (σ.call t').HasConfig → t = t'
  file : ∀ t t', (σ.call t).HasFile → (σ.call t').HasFile → t = t'
  clean : σ.state.stats.settingsDirty = false → σ.Current (σ.fs.content p.path)
  held : ∀ t, σ.Held p (σ.call t)

omit [DecidableEq T] in
/-- Without the lock of the file there is no save. -/
theorem Saving.held_of_not (h : ¬ c.HasFile) : σ.Held p c := by
  cases c with
  | writing => exact absurd trivial h
  | written => exact absurd trivial h
  | _ => trivial

theorem Saving.Midway.go (h : σ.Midway) (ht : σ.call t ≠ .changed none) : (σ.go t c).Midway := by
  obtain ⟨t', ht'⟩ := h
  refine ⟨t', ?_⟩
  rw [Saving.go_ne (by rintro rfl; exact ht ht')]
  exact ht'

variable [Finite T]

theorem Saving.waiting_go_le (h : σ.call t ≠ .unsaved ∨ c = .unsaved) :
    σ.waiting ≤ (σ.go t c).waiting := by
  refine Set.ncard_le_ncard (fun t' ht' => ?_) (Set.toFinite _)
  show (σ.go t c).call t' = .unsaved
  by_cases heq : t' = t
  · subst heq
    rw [Saving.go_same]
    exact h.resolve_left fun h => h ht'
  · rw [Saving.go_ne heq]
    exact ht'

theorem Saving.waiting_go_unsaved (h : σ.call t ≠ .unsaved) :
    (σ.go t .unsaved).waiting = σ.waiting + 1 := by
  unfold Saving.waiting
  rw [← Set.ncard_insert_of_notMem (show t ∉ {t | σ.call t = .unsaved} from h) (Set.toFinite _)]
  congr 1
  ext t'
  show (σ.go t .unsaved).call t' = .unsaved ↔ t' = t ∨ σ.call t' = .unsaved
  by_cases heq : t' = t
  · subst heq
    exact iff_of_true Saving.go_same (Or.inl rfl)
  · rw [Saving.go_ne heq]
    exact ⟨Or.inr, fun h => h.resolve_left heq⟩

omit [DecidableEq T] in
theorem Saving.waiting_le : σ.waiting ≤ Nat.card T := by
  rw [← Set.ncard_univ]
  exact Set.ncard_le_ncard (Set.subset_univ _) (Set.toFinite _)

end

/-- A lock that a thread takes when it is free, or has, is held by one thread. -/
theorem Saving.exclusive_go {H : Call → Prop} {σ : Saving T b} {t : T} {c : Call}
    (hone : ∀ t t', H (σ.call t) → H (σ.call t') → t = t')
    (h : H c → H (σ.call t) ∨ ∀ t', ¬ H (σ.call t')) (t₁ t₂ : T) (h₁ : H ((σ.go t c).call t₁))
    (h₂ : H ((σ.go t c).call t₂)) : t₁ = t₂ := by
  by_cases heq₁ : t₁ = t
  · by_cases heq₂ : t₂ = t
    · exact heq₁.trans heq₂.symm
    · subst heq₁
      rw [Saving.go_same] at h₁
      rw [Saving.go_ne heq₂] at h₂
      rcases h h₁ with hold | hfree
      · exact hone _ _ hold h₂
      · exact absurd h₂ (hfree t₂)
  · rw [Saving.go_ne heq₁] at h₁
    by_cases heq₂ : t₂ = t
    · subst heq₂
      rw [Saving.go_same] at h₂
      rcases h h₂ with hold | hfree
      · exact hone _ _ h₁ hold
      · exact absurd h₁ (hfree t₁)
    · rw [Saving.go_ne heq₂] at h₂
      exact hone _ _ h₁ h₂

omit [DecidableEq T] in
/-- What is known of a save is still known where the files, the revision and the flag are the same
and no thread stops waiting. -/
theorem Saving.Held.mono {p : Paths} {σ σ' : Saving T b} {c : Call} (h : σ.Held p c)
    (hfs : σ'.fs = σ.fs) (hdirty : σ'.state.stats.settingsDirty = σ.state.stats.settingsDirty)
    (hrevision : σ'.state.configRevision = σ.state.configRevision)
    (hwaiting : σ.waiting ≤ σ'.waiting) (hcurrent : ∀ file, σ.Current file → σ'.Current file) :
    σ'.Held p c := by
  have htracked : ∀ revision file, σ.Tracked revision file → σ'.Tracked revision file := by
    rintro revision file ⟨count, hcount, heq, hdirtied, hzero⟩
    refine ⟨count, hcount.trans hwaiting, ?_, ?_, fun h0 => hcurrent _ (hzero h0)⟩
    · rw [hrevision, heq]
    · rw [hdirty]
      exact hdirtied
  cases c with
  | writing revision data q =>
    obtain ⟨htrack, s₀, hclean, hwhole, hreplaces⟩ := h
    refine ⟨htracked _ _ htrack, s₀, fun hd => hcurrent _ (hclean (hdirty ▸ hd)), ?_, ?_⟩
    · rw [hfs]
      exact hwhole
    · rw [hfs]
      exact hreplaces
  | written revision result =>
    cases result with
    | none =>
      show σ'.Tracked revision (σ'.fs.content p.path)
      rw [hfs]
      exact htracked _ _ h
    | some e => trivial
  | _ => trivial

section

variable [Finite T] {p : Paths} {σ : Saving T b} {t : T} {c : Call}

/-- **A step that changes no setting**, and neither the files nor the revision nor the flag. -/
theorem Saving.Inv.quiet (h : σ.Inv p) {s' : State b} (hknown : SettledBy Definition.WasPrepared s')
    (hsaved : s'.savedSettings = σ.state.savedSettings)
    (hdirty : s'.stats.settingsDirty = σ.state.stats.settingsDirty)
    (hrevision : s'.configRevision = σ.state.configRevision)
    (hmidway : σ.call t ≠ .changed none) (hwaiting : σ.call t ≠ .unsaved ∨ c = .unsaved)
    (hconfig : c.HasConfig → (σ.call t).HasConfig ∨ ∀ t', ¬ (σ.call t').HasConfig)
    (hfile : c.HasFile → (σ.call t).HasFile ∨ ∀ t', ¬ (σ.call t').HasFile)
    (hheld : (Saving.go { σ with state := s' } t c).Held p c) :
    (Saving.go { σ with state := s' } t c).Inv p := by
  have hcurrent : ∀ file, σ.Current file → (Saving.go { σ with state := s' } t c).Current file := by
    rintro file (hmid | hrep)
    · exact Or.inl (hmid.go hmidway)
    · exact Or.inr (hsaved ▸ hrep)
  refine ⟨hknown, Saving.exclusive_go h.config hconfig, Saving.exclusive_go h.file hfile,
    fun hd => hcurrent _ (h.clean (hdirty ▸ hd)), fun t' => ?_⟩
  by_cases heq : t' = t
  · subst heq
    rw [Saving.go_same]
    exact hheld
  · rw [Saving.go_ne heq]
    exact (h.held t').mono rfl hdirty hrevision (Saving.waiting_go_le hwaiting) hcurrent

/-- **A change**, that is made or refused. -/
theorem Saving.Inv.change (h : σ.Inv p) (ht : σ.call t = .begun) (c : Change b) :
    (Saving.go { σ with state := (c.apply σ.state).2 } t (.changed (c.apply σ.state).1)).Inv p := by
  obtain ⟨hrevision, hdirty⟩ := c.apply_stats σ.state
  have hknown := h.known.apply c fun d => wasPrepared_of_change
  have hconfig : (σ.call t).HasConfig := by
    rw [ht]
    trivial
  have hmidway : σ.call t ≠ .changed none := by
    rw [ht]
    exact fun h => by cases h
  have hcurrent : ∀ file, σ.Current file → (Saving.go { σ with state := (c.apply σ.state).2 } t
      (.changed (c.apply σ.state).1)).Current file := by
    intro file hfile
    cases hresult : (c.apply σ.state).1 with
    | none => exact Or.inl ⟨t, Saving.go_same⟩
    | some e =>
      rcases hfile with hmid | hrep
      · exact Or.inl (hmid.go hmidway)
      · refine Or.inr ?_
        show Reproduces file (c.apply σ.state).2.savedSettings
        rw [c.apply_refused σ.state hresult]
        exact hrep
  refine ⟨hknown, Saving.exclusive_go h.config fun _ => Or.inl hconfig,
    Saving.exclusive_go h.file fun h => h.elim, fun hd => hcurrent _ (h.clean (hdirty ▸ hd)),
    fun t' => ?_⟩
  by_cases heq : t' = t
  · subst heq
    rw [Saving.go_same]
    trivial
  · rw [Saving.go_ne heq]
    exact (h.held t').mono rfl hdirty hrevision
      (Saving.waiting_go_le (Or.inl (by rw [ht]; exact fun h => by cases h))) hcurrent

/-- **A change is counted**: the settings are not clean any more, and its thread waits. -/
theorem Saving.Inv.applied (h : σ.Inv p) (ht : σ.call t = .changed none) :
    (Saving.go { σ with state := σ.state.configChanged } t .unsaved).Inv p := by
  have hwaiting : (Saving.go { σ with state := σ.state.configChanged } t .unsaved).waiting =
      σ.waiting + 1 := Saving.waiting_go_unsaved (by rw [ht]; exact fun h => by cases h)
  have htracked : ∀ revision file file', σ.Tracked revision file →
      (Saving.go { σ with state := σ.state.configChanged } t .unsaved).Tracked revision file' := by
    rintro revision file file' ⟨count, hcount, heq, -, -⟩
    refine ⟨count + 1, ?_, ?_, fun _ => rfl, fun h0 => absurd h0 (Nat.succ_ne_zero _)⟩
    · rw [hwaiting]
      exact Nat.succ_le_succ hcount
    · show σ.state.configRevision + 1 = revision + UInt64.ofNat (count + 1)
      rw [heq, UInt64.ofNat_add, UInt64.add_assoc]
      rfl
  refine ⟨⟨h.known.undefined, h.known.holds⟩, Saving.exclusive_go h.config fun h => h.elim,
    Saving.exclusive_go h.file fun h => h.elim, fun hd => ?_, fun t' => ?_⟩
  · exact Bool.noConfusion hd
  · by_cases heq : t' = t
    · subst heq
      rw [Saving.go_same]
      trivial
    · rw [Saving.go_ne heq]
      have hheld := h.held t'
      cases hcall : σ.call t' with
      | writing revision data q =>
        rw [hcall] at hheld
        obtain ⟨htrack, s₀, -, hwhole, hreplaces⟩ := hheld
        exact ⟨htracked _ _ _ htrack, s₀, fun hd => (Bool.noConfusion hd), hwhole, hreplaces⟩
      | written revision result =>
        rw [hcall] at hheld
        cases result with
        | none => exact htracked _ _ _ hheld
        | some e => trivial
      | _ => trivial

omit [Finite T] in
/-- The lock of the file is taken: no save is under way. -/
theorem Saving.Inv.lock (h : σ.Inv p) (ht : σ.call t = .unsaved)
    (hfree : ∀ t', ¬ (σ.call t').HasFile) : (σ.go t .locked).Inv p := by
  have hmidway : σ.call t ≠ .changed none := by
    rw [ht]
    exact fun h => by cases h
  refine ⟨h.known, Saving.exclusive_go h.config fun h => h.elim,
    Saving.exclusive_go h.file fun _ => Or.inr hfree, fun hd => ?_, fun t' => ?_⟩
  · exact (h.clean hd).imp (fun hmid => hmid.go hmidway) id
  · by_cases heq : t' = t
    · subst heq
      rw [Saving.go_same]
      trivial
    · rw [Saving.go_ne heq]
      exact Saving.held_of_not (hfree t')

/-- **A snapshot is taken**: it is what is there. -/
theorem Saving.Inv.snapshot (h : σ.Inv p) (ht : σ.call t = .locked) (ready : Bool) :
    (σ.go t (.writing σ.state.configRevision (snapshotOf σ.state)
      (p.write ready (snapshotOf σ.state)))).Inv p := by
  have hmidway : σ.call t ≠ .changed none := by
    rw [ht]
    exact fun h => by cases h
  refine h.quiet h.known rfl rfl rfl hmidway (Or.inl (by rw [ht]; exact fun h => by cases h))
    (fun h => h.elim) (fun _ => Or.inl (by rw [ht]; trivial)) ⟨?_, σ.fs, fun hd => ?_, ?_, ?_⟩
  · refine ⟨0, Nat.zero_le _, ?_, fun h0 => absurd h0 (Nat.lt_irrefl 0), fun _ => Or.inr ?_⟩
    · exact (UInt64.add_zero _).symm
    · exact reproduces_snapshotOf h.known
  · exact (h.clean hd).imp (fun hmid => hmid.go hmidway) id
  · exact Or.inl (SameName.refl _ _)
  · exact p.replaces_write ready _ σ.fs

/-- **A call of the file system**: the file is whole. -/
theorem Saving.Inv.write (h : σ.Inv p) {revision : UInt64} {data : List UInt8}
    {q q' : Program (Option Errno)} {e : Event OpResult Fs} {fs' : Fs}
    (ht : σ.call t = .writing revision data q) (hstep : Prog.Step FsStep (q, σ.fs) e (q', fs')) :
    (Saving.go { σ with fs := fs' } t (.writing revision data q')).Inv p := by
  have hmidway : σ.call t ≠ .changed none := by
    rw [ht]
    exact fun h => by cases h
  have hheld := h.held t
  rw [ht] at hheld
  obtain ⟨⟨count, hcount, hrevision, hdirtied, hzero⟩, s₀, hclean, hwhole, hreplaces⟩ := hheld
  cases hstep with
  | call hcall =>
    obtain ⟨hwhole', hreplaces'⟩ := hreplaces σ.fs rfl _ _ hcall
    have hcurrent : ∀ c file, σ.Current file → (Saving.go { σ with fs := fs' } t c).Current file :=
      fun c file hfile => hfile.imp (fun hmid => hmid.go hmidway) id
    refine ⟨h.known, Saving.exclusive_go h.config fun h => h.elim,
      Saving.exclusive_go h.file fun _ => Or.inl (by rw [ht]; trivial), fun hd => ?_, fun t' => ?_⟩
    · rcases hwhole' with hsame | hnew
      · show (Saving.go { σ with fs := fs' } t _).Current (fs'.content p.path)
        rw [hsame.2]
        exact hcurrent _ _ (hclean hd)
      · show (Saving.go { σ with fs := fs' } t _).Current (fs'.content p.path)
        rw [hnew]
        refine hcurrent _ _ (hzero (Nat.eq_zero_of_not_pos fun hpos => ?_))
        exact Bool.false_ne_true (Eq.symm ((hdirtied hpos).symm.trans hd))
    · by_cases heq : t' = t
      · subst heq
        rw [Saving.go_same]
        refine ⟨⟨count, hcount.trans (Saving.waiting_go_le (Or.inl ?_)), hrevision, hdirtied,
          fun h0 => hcurrent _ _ (hzero h0)⟩, s₀, fun hd => hcurrent _ _ (hclean hd), hwhole',
          hreplaces'⟩
        show σ.call t' ≠ _
        rw [ht]
        exact fun h => by cases h
      · rw [Saving.go_ne heq]
        refine Saving.held_of_not fun hfile => heq (h.file t' t hfile ?_)
        rw [ht]
        trivial

variable {result : Option Errno}

/-- The write has a result. -/
theorem Saving.Inv.wrote (h : σ.Inv p) {revision : UInt64} {data : List UInt8}
    (ht : σ.call t = .writing revision data (.ret result)) :
    (σ.go t (.written revision result)).Inv p := by
  have hmidway : σ.call t ≠ .changed none := by
    rw [ht]
    exact fun h => by cases h
  have hwaits : σ.call t ≠ .unsaved := by
    rw [ht]
    exact fun h => by cases h
  have hheld := h.held t
  rw [ht] at hheld
  obtain ⟨⟨count, hcount, hrevision, hdirtied, hzero⟩, s₀, -, -, hreplaces⟩ := hheld
  refine h.quiet h.known rfl rfl rfl hmidway (Or.inl hwaits) (fun h => h.elim)
    (fun _ => Or.inl (by rw [ht]; trivial)) ?_
  cases result with
  | some e => trivial
  | none =>
    refine ⟨count, hcount.trans (Saving.waiting_go_le (Or.inl hwaits)), hrevision, hdirtied,
      fun h0 => ?_⟩
    show (σ.go t _).Current (σ.fs.content p.path)
    rw [show σ.fs.content p.path = some data from hreplaces.2 rfl]
    exact (hzero h0).imp (fun hmid => hmid.go hmidway) id

/-- **A save has a result**: where it clears the flag the file is current. -/
theorem Saving.Inv.saved (h : σ.Inv p) (hT : Nat.card T < 2 ^ 64) {revision : UInt64}
    (ht : σ.call t = .written revision result) :
    (Saving.go { σ with state := σ.state.saveResult revision result } t .idle).Inv p := by
  have hmidway : σ.call t ≠ .changed none := by
    rw [ht]
    exact fun h => by cases h
  have hheld := h.held t
  rw [ht] at hheld
  have hcurrent : ∀ file, σ.Current file →
      (Saving.go { σ with state := σ.state.saveResult revision result } t .idle).Current file :=
    fun file hfile => hfile.imp (fun hmid => hmid.go hmidway) id
  refine ⟨⟨h.known.undefined, h.known.holds⟩, Saving.exclusive_go h.config fun h => h.elim,
    Saving.exclusive_go h.file fun h => h.elim, fun hd => hcurrent _ ?_, fun t' => ?_⟩
  · replace hd : (if result = none ∧ σ.state.configRevision = revision then false
        else σ.state.stats.settingsDirty) = false := hd
    by_cases hcleared : result = none ∧ σ.state.configRevision = revision
    · obtain ⟨rfl, hrev⟩ := hcleared
      obtain ⟨count, hcount, hrevision, -, hzero⟩ := hheld
      -- fewer changes than threads, so the revision did not come round
      have hlt : count < 2 ^ 64 := (hcount.trans Saving.waiting_le).trans_lt hT
      have h0 : UInt64.ofNat count = 0 := by
        rw [hrev] at hrevision
        rw [← UInt64.add_sub_cancel (UInt64.ofNat count) revision, UInt64.add_comm, ← hrevision,
          UInt64.sub_self]
      have hnat := congrArg UInt64.toNat h0
      rw [UInt64.toNat_ofNat', Nat.mod_eq_of_lt hlt] at hnat
      exact hzero hnat
    · rw [if_neg hcleared] at hd
      exact h.clean hd
  · by_cases heq : t' = t
    · subst heq
      rw [Saving.go_same]
      trivial
    · rw [Saving.go_ne heq]
      refine Saving.held_of_not fun hfile => heq (h.file t' t hfile ?_)
      rw [ht]
      trivial

/-- **A step keeps the invariant.** -/
theorem Saving.Inv.step (hT : Nat.card T < 2 ^ 64) {σ' : Saving T b} (h : σ.Inv p)
    (hstep : SaveStep p σ σ') : σ'.Inv p := by
  cases hstep with
  | begin hidle hready hfree =>
    refine h.quiet h.known rfl rfl rfl (by rw [hidle]; exact fun h => by cases h)
      (Or.inl (by rw [hidle]; exact fun h => by cases h)) (fun _ => Or.inr hfree) (fun h => h.elim)
      trivial
  | change c ht => exact h.change ht c
  | refused ht =>
    refine h.quiet h.known rfl rfl rfl (by rw [ht]; exact fun h => by cases h)
      (Or.inl (by rw [ht]; exact fun h => by cases h)) (fun h => h.elim) (fun h => h.elim) trivial
  | applied ht => exact h.applied ht
  | save hidle hready =>
    refine h.quiet ⟨h.known.undefined, h.known.holds⟩ rfl rfl rfl
      (by rw [hidle]; exact fun h => by cases h) (Or.inr rfl) (fun h => h.elim) (fun h => h.elim)
      trivial
  | lock ht hfree => exact h.lock ht hfree
  | unready ht =>
    refine h.quiet h.known rfl rfl rfl (by rw [ht]; exact fun h => by cases h)
      (Or.inl (by rw [ht]; exact fun h => by cases h)) (fun h => h.elim)
      (fun _ => Or.inl (by rw [ht]; trivial)) trivial
  | blocked ht hblocked =>
    refine h.quiet h.known rfl rfl rfl (by rw [ht]; exact fun h => by cases h)
      (Or.inl (by rw [ht]; exact fun h => by cases h)) (fun h => h.elim)
      (fun _ => Or.inl (by rw [ht]; trivial)) trivial
  | snapshot ready ht hblocked => exact h.snapshot ht ready
  | write ht hcall => exact h.write ht hcall
  | wrote ht => exact h.wrote ht
  | saved ht => exact h.saved hT ht
  | @other s' hkeeps hdirty hrevision =>
    obtain ⟨-, hsaved⟩ := hkeeps.settings
    have hcurrent : ∀ file, σ.Current file → Saving.Current { σ with state := s' } file := by
      rintro file (hmid | hrep)
      · exact Or.inl hmid
      · exact Or.inr (hsaved ▸ hrep)
    exact ⟨h.known.other hkeeps, h.config, h.file, fun hd => hcurrent _ (h.clean (hdirty ▸ hd)),
      fun t' => (h.held t').mono rfl hdirty hrevision le_rfl hcurrent⟩

omit [DecidableEq T] [Finite T] in
/-- **What `kfsw_hk_init` leaves**, if a result of `-ENOENT` was that there is no file. -/
theorem Saving.Inv.booted {σ₀ : Saving T b} (hboot : Booted p result σ₀)
    (hfound : result = some .ENOENT → σ₀.fs.content p.path = none) : σ₀.Inv p := by
  cases hboot with
  | @mk fs io lists now files n _ hload =>
    have hsafe := loadSnapshot_safe io lists now (.zero b) (fs.content p.path)
      ⟨State.reset b, files⟩
    rw [hload] at hsafe
    have hreset : ∀ e, result = some e → n.state = State.reset b := by
      rintro e rfl
      exact hsafe.2 (fun h => by cases h)
    have hknown : SettledBy Definition.WasPrepared n.state := by
      cases result with
      | none =>
        exact (settledBy_reset _).load (fun _ _ => wasPrepared_of_checkSnapshot) hload
      | some e =>
        rw [hreset e rfl]
        exact settledBy_reset _
    have hreproduces : ∀ file : Option (List UInt8), Restores file n.state →
        Reproduces file n.state.savedSettings := by
      intro file hrestores
      refine ⟨⟨_, hrestores⟩, fun t ht index hindex => ?_⟩
      rw [hknown.saved_iff.2 hrestores.covered index hindex]
      exact ht.unique hrestores index hindex
    refine ⟨⟨hknown.undefined, hknown.holds⟩, fun _ _ h => h.elim, fun _ _ h => h.elim, fun hd => ?_,
      fun _ => trivial⟩
    refine Or.inr ?_
    show Reproduces (fs.content p.path) n.state.savedSettings
    cases result with
    | none => exact hreproduces _ (.loaded hload)
    | some e =>
      by_cases hmissing : e = .ENOENT
      · subst hmissing
        refine hreproduces _ ?_
        rw [hreset _ rfl]
        exact .absent (hfound rfl)
      · replace hd : decide (some e ≠ none ∧ some e ≠ some Errno.ENOENT) = false := hd
        exact absurd ⟨Option.some_ne_none e, fun h => hmissing (Option.some.inj h)⟩
          (of_decide_eq_false hd)

theorem Saving.Inv.run (hT : Nat.card T < 2 ^ 64) {σ' : Saving T b} (h : σ.Inv p)
    (hrun : ReflTransGen (SaveStep p) σ σ') : σ'.Inv p := by
  induction hrun with
  | refl => exact h
  | tail _ hstep ih => exact ih.step hT hstep

/-- **A clean file reproduces what a snapshot walks over**, in any run. -/
theorem clean_reproduces (hT : Nat.card T < 2 ^ 64) {σ₀ : Saving T b} (hboot : Booted p result σ₀)
    (hfound : result = some .ENOENT → σ₀.fs.content p.path = none)
    (hrun : ReflTransGen (SaveStep p) σ₀ σ) (hidle : ∀ t, σ.call t = .idle)
    (hclean : σ.state.stats.settingsDirty = false) : SettledBy Definition.WasPrepared σ.state ∧
      Reproduces (σ.fs.content p.path) σ.state.savedSettings := by
  have hinv := Saving.Inv.run hT (.booted hboot hfound) hrun
  refine ⟨hinv.known, (hinv.clean hclean).resolve_left ?_⟩
  rintro ⟨t, ht⟩
  rw [hidle t] at ht
  cases ht

end

/-! ### A beacon of a report that is not defined -/

/-- The files of the settings. -/
def hkPaths : Paths where
  directory := CString.ofString "/kfsw/hk"
  path := CString.ofString "/kfsw/hk/reports.dat"
  temporary := CString.ofString "/kfsw/hk/reports.tmp"
  path_ne_directory := by decide
  path_ne_temporary := by decide

/-- A node that has booted without a file, with two threads. -/
def bootedNode : Saving Bool smallBuild :=
  ⟨{ (State.reset smallBuild).restoreEnd (some .ENOENT) with initialized := true }, .empty,
    fun _ => .idle⟩

theorem bootedNode_booted : Booted hkPaths (some .ENOENT) bootedNode := by
  have hload : loadSnapshot .working (fun _ => byteLists) 0 (.zero smallBuild)
      (Fs.empty.content hkPaths.path) ⟨State.reset smallBuild, fun _ => none⟩ =
        (.ended (.returned (some .ENOENT)), ⟨State.reset smallBuild, fun _ => none⟩) := rfl
  exact .mk hload

/-- The calls of a program are steps of its thread. -/
theorem Saving.run_write {p : Paths} {σ : Saving T b} {t : T} {revision : UInt64}
    {data : List UInt8} {q q' : Program (Option Errno)} {es : List (Event OpResult Fs)} {fs' : Fs}
    (ht : σ.call t = .writing revision data q)
    (hrun : Run (Prog.Step FsStep) (q, σ.fs) es (q', fs')) : ∃ σ', ReflTransGen (SaveStep p) σ σ' ∧
      σ'.state = σ.state ∧ σ'.fs = fs' ∧ σ'.call t = .writing revision data q' ∧
      ∀ t', t' ≠ t → σ'.call t' = σ.call t' := by
  generalize hx : (q, σ.fs) = x at hrun
  generalize hy : (q', fs') = y at hrun
  induction hrun generalizing q' fs' with
  | nil =>
    obtain ⟨hq, hfs⟩ := Prod.mk.inj (hy.trans hx.symm)
    exact ⟨σ, .refl, rfl, hfs.symm, hq ▸ ht, fun _ _ => rfl⟩
  | @snoc y z es e _ hstep ih =>
    subst hy
    obtain ⟨q₁, fs₁⟩ := y
    obtain ⟨σ', hsteps, hstate, rfl, hcall, hothers⟩ := ih rfl
    refine ⟨Saving.go { σ' with fs := fs' } t (.writing revision data q'),
      hsteps.tail (.write hcall hstep), hstate, rfl, Saving.go_same, fun t' h => ?_⟩
    exact (Saving.go_ne h).trans (hothers t' h)

/-- A save that finds the lock of the file free goes to its end. -/
theorem Saving.run_save {p : Paths} {σ : Saving T b} {t : T} (ht : σ.call t = .unsaved)
    (hfree : ∀ t', ¬ (σ.call t').HasFile) (hblocked : σ.state.saveBlocked = false) {ready : Bool}
    {es : List (Event OpResult Fs)} {result : Option Errno} {fs' : Fs}
    (hrun : Run (Prog.Step FsStep) (p.write ready (snapshotOf σ.state), σ.fs) es
      (.ret result, fs')) : ∃ σ', ReflTransGen (SaveStep p) σ σ' ∧
        σ'.state = σ.state.saveResult σ.state.configRevision result ∧ σ'.fs = fs' ∧
        σ'.call t = .idle ∧ ∀ t', t' ≠ t → σ'.call t' = σ.call t' := by
  have hlock : SaveStep p σ (σ.go t .locked) := .lock ht hfree
  have hsnapshot : SaveStep p (σ.go t .locked) ((σ.go t .locked).go t
      (.writing σ.state.configRevision (snapshotOf σ.state) (p.write ready (snapshotOf σ.state)))) :=
    .snapshot ready Saving.go_same hblocked
  obtain ⟨σ₁, hwrite, hstate, hfs, hcall, hothers⟩ := Saving.run_write (p := p)
    (Saving.go_same (σ := σ.go t .locked)) hrun
  refine ⟨_, ((((ReflTransGen.single hlock).tail hsnapshot).trans hwrite).tail (.wrote hcall)).tail
    (.saved Saving.go_same), ?_, hfs, Saving.go_same, fun t' h => ?_⟩
  · show σ₁.state.saveResult σ.state.configRevision result = _
    rw [hstate]
    rfl
  · rw [Saving.go_ne h]
    show (σ₁.go t _).call t' = _
    rw [Saving.go_ne h, hothers t' h, Saving.go_ne h, Saving.go_ne h]

/-- A change that is made, and counted, while no other is. -/
theorem Saving.run_change {p : Paths} {σ : Saving T b} {t : T} (change : Change b)
    (hidle : σ.call t = .idle) (hready : σ.state.isReady = true)
    (hfree : ∀ t', ¬ (σ.call t').HasConfig) (hset : (change.apply σ.state).1 = none) :
    ∃ σ', ReflTransGen (SaveStep p) σ σ' ∧ σ'.state = (change.apply σ.state).2.configChanged ∧
      σ'.fs = σ.fs ∧ σ'.call t = .unsaved ∧ ∀ t', t' ≠ t → σ'.call t' = σ.call t' := by
  have hbegun : SaveStep p σ (σ.go t .begun) := .begin hidle hready hfree
  have hchanged : SaveStep p (σ.go t .begun) (Saving.go { σ.go t .begun with
      state := (change.apply (σ.go t .begun).state).2 } t
        (.changed (change.apply (σ.go t .begun).state).1)) := .change change Saving.go_same
  refine ⟨_, ((ReflTransGen.single hbegun).tail hchanged).tail
    (.applied (Saving.go_same.trans (congrArg Call.changed hset))), rfl, rfl, Saving.go_same,
      fun t' h => ?_⟩
  rw [Saving.go_ne h]
  show (Saving.go _ t _).call t' = _
  rw [Saving.go_ne h]
  exact Saving.go_ne h

/-- A save on a disk that answers every call. -/
theorem Saving.run_saveOnDisk {p : Paths} {σ : Saving T b} {t : T} (ht : σ.call t = .unsaved)
    (hfree : ∀ t', ¬ (σ.call t').HasFile) (hblocked : σ.state.saveBlocked = false)
    (hwritten : ((p.write true (snapshotOf σ.state)).exec disk (σ.fs, [])).2.1 = none) :
    ∃ σ', ReflTransGen (SaveStep p) σ σ' ∧
      σ'.state = σ.state.saveResult σ.state.configRevision none ∧
      σ'.fs = afterDisk (p.write true (snapshotOf σ.state)) σ.fs [] ∧
      σ'.call t = .idle ∧ ∀ t', t' ≠ t → σ'.call t' = σ.call t' := by
  have hrun := run_onDisk (p.write true (snapshotOf σ.state)) σ.fs []
  rw [hwritten] at hrun
  exact Saving.run_save ht hfree hblocked hrun

/-- What neither of two threads has, none has. -/
theorem Saving.neither {H : Call → Prop} {σ : Saving Bool b} {c c' : Call}
    (hfalse : σ.call false = c) (htrue : σ.call true = c') (h : ¬ H c) (h' : ¬ H c') :
    ∀ t, ¬ H (σ.call t) := by
  intro t
  cases t with
  | false => rwa [hfalse]
  | true => rwa [htrue]

/-- What the settings are after a change. -/
def changedBy (change : Change smallBuild) (s : State smallBuild) : State smallBuild :=
  (change.apply s).2.configChanged

/-- Report 0 gets a beacon, and no definition. -/
def beaconAlone : State smallBuild := changedBy (.setBeacon 0 5 1000) bootedNode.state

/-- The beacon is set by thread `false`, and everything is saved. -/
theorem beacon_dropped : ∃ σ : Saving Bool smallBuild,
    ReflTransGen (SaveStep hkPaths) bootedNode σ ∧ (∀ t, σ.call t = .idle) ∧
      σ.state.stats.settingsDirty = false ∧ ¬ σ.state.Covered := by
  obtain ⟨u, hchange, hstate, hfs, hcall, hothers⟩ := Saving.run_change (p := hkPaths)
    (σ := bootedNode) (t := false) (.setBeacon 0 5 1000) rfl rfl (fun _ h => h.elim) rfl
  replace hstate : u.state = beaconAlone := hstate
  replace hfs : u.fs = .empty := hfs
  have hfree : ∀ t', ¬ (u.call t').HasFile :=
    Saving.neither hcall (hothers true (by decide)) (fun h => h) fun h => h
  obtain ⟨σ, hsaved, hstate', -, hidle, hothers'⟩ := Saving.run_saveOnDisk (p := hkPaths) (σ := u)
    (t := false) hcall hfree (by rw [hstate]; rfl) (by rw [hstate, hfs]; decide +kernel)
  refine ⟨σ, hchange.trans hsaved, fun t => ?_, by rw [hstate', hstate]; rfl, fun h => ?_⟩
  · cases t with
    | false => exact hidle
    | true => exact (hothers' true (by decide)).trans (hothers true (by decide))
  · rw [hstate', hstate] at h
    exact absurd (h 0 (by decide) rfl).1 (by decide)

/-- **Settings that are clean are saved** exactly if no report that is not defined has a beacon.  From
a boot whose `-ENOENT` was that of a missing file, in any order of the steps of any calls: where no
call is under way and `settings_dirty` is false, the file can be loaded, and whatever loads it after
a reset gets the entries, the class, the period, the store and the beacon of every report, if and
only if the beacons are those of reports that are defined. -/
theorem clean_saved_iff [Finite T] (hT : Nat.card T < 2 ^ 64) {p : Paths} {result : Option Errno}
    {σ₀ σ : Saving T b} (hboot : Booted p result σ₀)
    (hfound : result = some .ENOENT → σ₀.fs.content p.path = none)
    (hrun : ReflTransGen (SaveStep p) σ₀ σ) (hidle : ∀ t, σ.call t = .idle)
    (hclean : σ.state.stats.settingsDirty = false) :
    Reproduces (σ.fs.content p.path) σ.state.settings ↔ σ.state.Covered := by
  obtain ⟨hknown, hsaved⟩ := clean_reproduces hT hboot hfound hrun hidle hclean
  rw [← hknown.saved_iff]
  constructor
  · exact fun hall index hindex => hsaved.unique hall index hindex
  · exact fun heq => hsaved.congr heq

/-- Report 0 gets a definition, and a beacon to node 5 every second. -/
def reportWithBeacon : State smallBuild :=
  changedBy (.setBeacon 0 5 1000)
    (changedBy (.define (fun _ => false) byteLists 0 [⟨0, 256⟩] classDefault 0) bootedNode.state)

/-- Thread `false` defines the report and thread `true` sets its beacon, before either saves. -/
theorem report_run : ∃ σ : Saving Bool smallBuild,
    ReflTransGen (SaveStep hkPaths) bootedNode σ ∧ (∀ t, σ.call t = .idle) ∧
      σ.state = (reportWithBeacon.saveResult 2 none).saveResult 2 none := by
  obtain ⟨u₁, hdefine, hstate₁, hfs₁, hfalse₁, htrue₁⟩ := Saving.run_change (p := hkPaths)
    (σ := bootedNode) (t := false) (.define (fun _ => false) byteLists 0 [⟨0, 256⟩] classDefault 0)
    rfl rfl (fun _ h => h.elim) (by decide +kernel)
  replace htrue₁ : u₁.call true = .idle := htrue₁ true (by decide)
  have hconfig : ∀ t', ¬ (u₁.call t').HasConfig :=
    Saving.neither hfalse₁ htrue₁ (fun h => h) fun h => h
  obtain ⟨u₂, hbeacon, hstate₂, hfs₂, htrue₂, hfalse₂⟩ := Saving.run_change (p := hkPaths) (σ := u₁)
    (t := true) (.setBeacon 0 5 1000) htrue₁ (by rw [hstate₁]; decide +kernel) hconfig
    (by rw [hstate₁]; decide +kernel)
  replace hfalse₂ : u₂.call false = .unsaved := (hfalse₂ false (by decide)).trans hfalse₁
  replace hstate₂ : u₂.state = reportWithBeacon := by
    rw [hstate₂, hstate₁]
    rfl
  replace hfs₂ : u₂.fs = .empty := hfs₂.trans hfs₁
  have hfree : ∀ t', ¬ (u₂.call t').HasFile :=
    Saving.neither hfalse₂ htrue₂ (fun h => h) fun h => h
  obtain ⟨u₃, hsave, hstate₃, hfs₃, htrue₃, hfalse₃⟩ := Saving.run_saveOnDisk (p := hkPaths)
    (σ := u₂) (t := true) htrue₂ hfree (by rw [hstate₂]; decide +kernel)
    (by rw [hstate₂, hfs₂]; decide +kernel)
  replace hfalse₃ : u₃.call false = .unsaved := (hfalse₃ false (by decide)).trans hfalse₂
  replace hstate₃ : u₃.state = reportWithBeacon.saveResult 2 none := by
    rw [hstate₃, hstate₂]
    rfl
  have hfree' : ∀ t', ¬ (u₃.call t').HasFile :=
    Saving.neither hfalse₃ htrue₃ (fun h => h) fun h => h
  obtain ⟨σ, hsave', hstate, -, hfalse, htrue⟩ := Saving.run_saveOnDisk (p := hkPaths) (σ := u₃)
    (t := false) hfalse₃ hfree' (by rw [hstate₃]; decide +kernel)
    (by rw [hstate₃, hfs₃, hstate₂, hfs₂]; decide +kernel)
  refine ⟨σ, hdefine.trans (hbeacon.trans (hsave.trans hsave')), fun t => ?_, ?_⟩
  · cases t with
    | false => exact hfalse
    | true => exact (htrue true (by decide)).trans htrue₃
  · rw [hstate, hstate₃]
    rfl

/-- A definition of one thread and a beacon of another are clean, and saved. -/
theorem clean_saved_both : ∃ σ : Saving Bool smallBuild,
    ReflTransGen (SaveStep hkPaths) bootedNode σ ∧ (σ.state.reports 0).definition ≠ none ∧
      (σ.state.beacons 0).node = 5 ∧ Reproduces (σ.fs.content hkPaths.path) σ.state.settings := by
  have hcard : Nat.card Bool < 2 ^ 64 := by
    rw [Nat.card_eq_fintype_card]
    decide
  have hcovered : ((reportWithBeacon.saveResult 2 none).saveResult 2 none).Covered := by
    intro index hindex hnone
    have hcases : index = 0 ∨ index = 1 := by
      replace hindex : index.toNat < 2 := hindex
      rcases (by omega : index.toNat = 0 ∨ index.toNat = 1) with h | h
      · exact Or.inl (UInt8.toNat_inj.1 h)
      · exact Or.inr (UInt8.toNat_inj.1 h)
    rcases hcases with rfl | rfl
    · exact absurd hnone (by decide +kernel)
    · exact ⟨rfl, rfl⟩
  obtain ⟨σ, hrun, hidle, hstate⟩ := report_run
  refine ⟨σ, hrun, by rw [hstate]; decide +kernel, by rw [hstate]; decide +kernel, ?_⟩
  refine (clean_saved_iff hcard bootedNode_booted (fun _ => rfl) hrun hidle ?_).2 ?_
  · rw [hstate]
    decide +kernel
  · rw [hstate]
    exact hcovered

/-- A beacon of a report that is not defined is clean, and not saved. -/
theorem clean_beacon_lost : ¬ ∀ (p : Paths) (result : Option Errno) (σ₀ σ : Saving Bool smallBuild),
    Booted p result σ₀ → (result = some .ENOENT → σ₀.fs.content p.path = none) →
      ReflTransGen (SaveStep p) σ₀ σ → (∀ t, σ.call t = .idle) →
        σ.state.stats.settingsDirty = false →
          Reproduces (σ.fs.content p.path) σ.state.settings := by
  intro h
  obtain ⟨σ, hrun, hidle, hclean, hlost⟩ := beacon_dropped
  have hcard : Nat.card Bool < 2 ^ 64 := by
    rw [Nat.card_eq_fintype_card]
    decide
  obtain ⟨hknown, hsaved⟩ := clean_reproduces hcard bootedNode_booted (fun _ => rfl) hrun hidle hclean
  have hall := h hkPaths _ bootedNode σ bootedNode_booted (fun _ => rfl) hrun hidle hclean
  exact hlost (hknown.saved_iff.1 fun index hindex => hsaved.unique hall index hindex)

end KfswServices.Hk
