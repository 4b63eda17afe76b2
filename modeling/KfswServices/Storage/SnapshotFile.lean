/-
# Replacing a file

`kfsw_snapshot_write` of `src/snapshot_file.c` writes a temporary file beside the target and renames
it over the target.  Parameters, table dumps, boot records and housekeeping settings are saved with
it.  Whatever the filesystem does, and wherever the node is reset, the target has what it had or all
of the new bytes, and what it had if the call fails (`snapshot_write_atomic`).

The two paths name two files: a target that is its own temporary file is removed before anything is
written.
-/

import KfswServices.Ftp.Commit

namespace KfswServices.Storage

open Library Ftp

/-- `write_all`, the loop of which is that of the file transfer service. -/
def writeAll (file : Handle) (data : List UInt8) : Program (Except Errno Handle) :=
  writeAllLoop data.length file data

/-- The bytes are written, and synced before the rename. -/
def writeSynced (file : Handle) (data : List UInt8) : Program (Option Errno) := do
  match ← writeAll file data with
  | .error e => pure (some e)
  | .ok file => fsSync file

/-- What follows the `fs_open`. -/
def replaceFile (path temporary : CString) (data : List UInt8) (file : Handle) :
    Program (Option Errno) := do
  let result ← writeSynced file data
  let closeResult ← fsClose file
  match result.or closeResult with
  | some e =>
    let _ ← fsUnlink temporary
    pure (some e)
  | none =>
    match ← fsRename temporary path with
    | some e =>
      let _ ← fsUnlink temporary
      pure (some e)
    | none => pure none

/-- `kfsw_snapshot_write`; `ready` is what `kfsw_storage_is_ready` says. -/
def snapshotWrite (ready : Bool) (path temporary : Option CString) (data : Option (List UInt8)) :
    Program (Option Errno) :=
  match path, temporary, data with
  | some path, some temporary, some data =>
    if !ready then pure (some .ENODEV)
    else do
      let _ ← fsUnlink temporary
      match ← fsOpen temporary .CREATE_TRUNC with
      | .error e => pure (some e)
      | .ok file => replaceFile path temporary data file
  | _, _, _ => pure (some .EINVAL)

/-- The target is what it was, or it is all of the new bytes. -/
def Whole (path : CString) (data : List UInt8) (s₀ s : Fs) : Prop :=
  SameName path s₀ s ∨ s.content path = some data

/-- The temporary file is open and has `written` in it. -/
structure Filling (path temporary : CString) (s₀ : Fs) (file : Handle) (written : List UInt8)
    (s : Fs) : Prop where
  same : SameName path s₀ s
  names : s.names temporary = some (.file file.id)
  data : s.data file.id = written
  pos : written.length = file.pos

/-- A program all along which the target is whole. -/
abbrev Replaces {α : Type} (path : CString) (data : List UInt8) (s₀ : Fs) (p : Program α)
    (Q : α → Fs → Prop) (s : Fs) : Prop :=
  Ensures FsStep Eq (fun _ _ _ s' => Whole path data s₀ s') p Q s

section

variable {path temporary : CString} {data written rest : List UInt8} {s₀ s : Fs} {file : Handle}

theorem Filling.whole (h : Filling path temporary s₀ file written s) : Whole path data s₀ s :=
  Or.inl h.same

/-- A call that looks on. -/
theorem replaces_readOnly {o : Op} (ho : o.readOnly = true) {A : Fs → Prop} (h : A s)
    (hA : A s → Whole path data s₀ s) :
    Replaces path data s₀ (Prog.perform o : Program (OpResult o)) (fun _ s' => A s') s := by
  rintro _ rfl r s' hstep
  obtain rfl := hstep.readOnly ho
  exact ⟨hA h, h⟩

section

variable (hne : path ≠ temporary)
include hne

theorem replaces_unlink (h : SameName path s₀ s) :
    Replaces path data s₀ (fsUnlink temporary) (fun _ s' => SameName path s₀ s') s := by
  rintro _ rfl r s' hstep
  have hsame : SameName path s₀ s' := by
    rcases r with _ | e
    · obtain ⟨-, -, rfl⟩ := hstep
      exact h.trans ⟨Function.update_of_ne hne _ _, Fs.content_unlink_of_ne _ hne⟩
    · obtain rfl : s' = s := hstep
      exact h
  exact ⟨Or.inl hsame, hsame⟩

theorem replaces_open (h : SameName path s₀ s) :
    Replaces path data s₀ (fsOpen temporary .CREATE_TRUNC) (fun r s' => SameName path s₀ s' ∧
      ∀ file, r = .ok file → Filling path temporary s₀ file [] s') s := by
  rintro _ rfl r s' hstep
  rcases r with e | file
  · obtain rfl : s' = s := hstep
    exact ⟨Or.inl h, h, by rintro _ ⟨⟩⟩
  · have hfilling : Filling path temporary s₀ file [] s' := by
      rcases hstep with ⟨id, hnames, rfl, rfl⟩ | ⟨-, hnames, rfl, rfl⟩
      · rw [if_pos rfl]
        exact ⟨h.trans (SameName.setData [] hnames hne), hnames, s.data_setData id [], rfl⟩
      · exact ⟨h.trans ⟨Function.update_of_ne hne _ _, s.content_create_of_ne hne⟩,
          Function.update_self .., Function.update_self .., rfl⟩
    refine ⟨hfilling.whole, hfilling.same, ?_⟩
    rintro _ ⟨⟩
    exact hfilling

/-- **A write** gets a part of the bytes in, behind those that are there. -/
theorem replaces_write (h : Filling path temporary s₀ file written s) :
    Replaces path data s₀ (fsWrite file rest) (fun r s' => SameName path s₀ s' ∧
      ∀ count file', r = .ok (count, file') → count ≤ rest.length ∧ file'.id = file.id ∧
        Filling path temporary s₀ file' (written ++ rest.take count) s') s := by
  have hend : (s.data file.id).length = file.pos := by
    rw [h.data]
    exact h.pos
  have hwrite : ∀ k, Filling path temporary s₀ ⟨file.id, file.pos + (rest.take k).length⟩
      (written ++ rest.take k) (s.writeData file (rest.take k)) := by
    intro k
    rw [s.writeData_end _ hend, h.data]
    refine ⟨h.same.trans (SameName.setData _ h.names hne), h.names, s.data_setData _ _, ?_⟩
    rw [List.length_append, h.pos]
  rintro _ rfl r s' hstep
  rcases r with e | ⟨count, file'⟩
  · obtain ⟨k, rfl⟩ := hstep
    exact ⟨(hwrite k).whole, (hwrite k).same, by rintro _ _ ⟨⟩⟩
  · obtain ⟨hle, rfl, rfl⟩ := hstep
    refine ⟨(hwrite count).whole, (hwrite count).same, ?_⟩
    rintro _ _ ⟨⟩
    have hfilling := hwrite count
    rw [List.length_take_of_le hle] at hfilling
    exact ⟨hle, rfl, hfilling⟩

theorem replaces_writeAllLoop {turns : ℕ} (hturns : rest.length ≤ turns)
    (h : Filling path temporary s₀ file written s) :
    Replaces path data s₀ (writeAllLoop turns file rest) (fun r s' => SameName path s₀ s' ∧
      ∀ file', r = .ok file' → file'.id = file.id ∧
        Filling path temporary s₀ file' (written ++ rest) s') s := by
  induction turns generalizing s written rest file with
  | zero =>
    obtain rfl := List.length_eq_zero_iff.1 (Nat.le_zero.1 hturns)
    refine ⟨h.same, ?_⟩
    rintro _ ⟨⟩
    rw [List.append_nil]
    exact ⟨rfl, h⟩
  | succ turns ih =>
    unfold writeAllLoop
    split_ifs with hnil
    · subst hnil
      refine ⟨h.same, ?_⟩
      rintro _ ⟨⟩
      rw [List.append_nil]
      exact ⟨rfl, h⟩
    · refine (replaces_write hne h).bind ?_
      rintro (e | ⟨count, file'⟩) s₁ ⟨hsame, hok⟩
      · exact ⟨hsame, by rintro _ ⟨⟩⟩
      · obtain ⟨hle, hid, hfilling⟩ := hok count file' rfl
        dsimp only
        split_ifs with hzero
        · exact ⟨hsame, by rintro _ ⟨⟩⟩
        · refine (ih ?_ hfilling).post ?_
          · rw [List.length_drop]
            omega
          · rintro r s₂ ⟨hsame₂, hok₂⟩
            refine ⟨hsame₂, fun file'' hr => ?_⟩
            obtain ⟨hid₂, hfilling₂⟩ := hok₂ file'' hr
            rw [List.append_assoc, List.take_append_drop] at hfilling₂
            exact ⟨hid₂.trans hid, hfilling₂⟩

end

/-- **The rename** puts all of the bytes in place, or nothing. -/
theorem replaces_rename (h : Filling path temporary s₀ file data s) :
    Replaces path data s₀ (fsRename temporary path) (fun r s' => (r ≠ none → SameName path s₀ s') ∧
      (r = none → s'.content path = some data)) s := by
  rintro _ rfl r s' hstep
  rcases r with _ | e
  · obtain ⟨-, -, rfl⟩ := hstep
    have hcontent : (s.rename temporary path).content path = some data := by
      rw [Fs.content_rename_target, Fs.content_of_names h.names, h.data]
    exact ⟨Or.inr hcontent, fun hr => absurd rfl hr, fun _ => hcontent⟩
  · obtain rfl : s' = s := hstep
    exact ⟨h.whole, fun _ => h.same, fun hr => by cases hr⟩

/-- A failure that takes the temporary file away. -/
theorem replaces_giveUp (hne : path ≠ temporary) (h : SameName path s₀ s) (e : Errno) :
    Replaces path data s₀ (do let _ ← fsUnlink temporary; pure (some e)) (fun r s' =>
      (r ≠ none → SameName path s₀ s') ∧ (r = none → s'.content path = some data)) s :=
  (replaces_unlink hne h).bind fun _ _ h₁ => ⟨fun _ => h₁, fun hr => by cases hr⟩

theorem replaces_writeSynced (hne : path ≠ temporary) (h : Filling path temporary s₀ file [] s) :
    Replaces path data s₀ (writeSynced file data) (fun r s' => SameName path s₀ s' ∧
      (r = none → ∃ file', Filling path temporary s₀ file' data s')) s := by
  refine (replaces_writeAllLoop hne le_rfl h).bind ?_
  rintro (e | file') s₁ ⟨hsame, hok⟩
  · exact ⟨hsame, fun hr => by cases hr⟩
  · obtain ⟨-, hfilling⟩ := hok file' rfl
    refine (replaces_readOnly rfl hfilling Filling.whole).post fun r s₂ hs => ?_
    exact ⟨hs.same, fun _ => ⟨file', hs⟩⟩

theorem replaces_replaceFile (hne : path ≠ temporary) (h : Filling path temporary s₀ file [] s) :
    Replaces path data s₀ (replaceFile path temporary data file) (fun r s' =>
      (r ≠ none → SameName path s₀ s') ∧ (r = none → s'.content path = some data)) s := by
  refine (replaces_writeSynced hne h).bind fun result s₁ hresult => ?_
  have hclose : Replaces path data s₀ (fsClose file) (fun _ s₂ => SameName path s₀ s₂ ∧
      (result = none → ∃ file', Filling path temporary s₀ file' data s₂)) s₁ :=
    replaces_readOnly rfl hresult fun h => Or.inl h.1
  refine hclose.bind fun closeResult s₂ hclosed => ?_
  rcases hfailed : result.or closeResult with _ | e
  · rw [Option.or_eq_none_iff] at hfailed
    obtain ⟨file', hfilling⟩ := hclosed.2 hfailed.1
    refine (replaces_rename hfilling).bind ?_
    rintro (_ | e) s₃ ⟨hsame, hnew⟩
    · exact ⟨fun hr => absurd rfl hr, hnew⟩
    · exact replaces_giveUp hne (hsame (by simp)) e
  · exact replaces_giveUp hne hclosed.1 e

theorem replaces_snapshotWrite (ready : Bool) (hne : path ≠ temporary) :
    Replaces path data s (snapshotWrite ready (some path) (some temporary) (some data)) (fun r s' =>
      (r ≠ none → SameName path s s') ∧ (r = none → s'.content path = some data)) s := by
  unfold snapshotWrite
  dsimp only
  split_ifs
  · exact ⟨fun _ => SameName.refl path s, fun hr => by cases hr⟩
  · refine (replaces_unlink hne (SameName.refl path s)).bind fun _ s₁ h₁ => ?_
    refine (replaces_open hne h₁).bind ?_
    rintro (e | file) s₂ ⟨hsame, hok⟩
    · exact ⟨fun _ => hsame, fun hr => by cases hr⟩
    · exact replaces_replaceFile hne (hok file rfl)

end

/-- **A file is replaced whole or not at all.**  All along every run of `kfsw_snapshot_write`, with
another file as the temporary one, the target has what it had or all of the new bytes; a call that
fails leaves it as it was, and one that returns 0 leaves the new bytes. -/
theorem snapshot_write_atomic (ready : Bool) (path temporary : CString) (data : List UInt8)
    (s s' : Fs) (es : List (Event OpResult Fs)) (q : Program (Option Errno))
    (hne : path ≠ temporary)
    (hrun : Run (Prog.Step FsStep) (snapshotWrite ready (some path) (some temporary) (some data), s)
      es (q, s')) : (SameName path s s' ∨ s'.content path = some data) ∧
      ∀ r, q = .ret r → (r ≠ none → SameName path s s') ∧
        (r = none → s'.content path = some data) := by
  have hprog : Replaces path data s _ _ s := replaces_snapshotWrite ready hne
  constructor
  · exact hprog.holds (I := Whole path data s) (fun _ s => s) (fun _ => rfl)
      (fun _ _ _ _ _ h => h) (Or.inl (SameName.refl path s)) hrun
  · rintro r rfl
    exact (hprog.run (fun _ s => s) (fun _ => rfl) (fun _ _ _ _ _ h => h) hrun).2

/-- The path of a boot record. -/
def recordPath : CString := CString.ofString "/kfsw/boot-trial.dat"

/-- A file system with an old record in it. -/
def recorded : Fs := Fs.empty.withFile recordPath [1]

/-- On a store that does what it is asked, the record is replaced. -/
theorem snapshot_write_atomic_record :
    (afterDisk (snapshotWrite true (some recordPath) (some (.ofString "/kfsw/boot-trial.tmp"))
      (some [2, 3])) recorded []).content recordPath = some [2, 3] :=
  ((snapshot_write_atomic true recordPath (.ofString "/kfsw/boot-trial.tmp") [2, 3] recorded _ _ _
    (by decide) (run_onDisk _ recorded [])).2 _ rfl).2 (by decide +kernel)

/-- The calls of a write whose target is its own temporary file, up to an `fs_open` that fails. -/
theorem removed_run : ∃ es, Run (Prog.Step FsStep)
    (snapshotWrite true (some recordPath) (some recordPath) (some [2, 3]), recorded) es
      (.ret (some Errno.EIO), recorded.unlink recordPath) := by
  have hunlink : FsStep (.fsUnlink recordPath) recorded none (recorded.unlink recordPath) :=
    ⟨by decide, fun h => absurd h (by decide), rfl⟩
  have hopen : FsStep (.fsOpen recordPath .CREATE_TRUNC) (recorded.unlink recordPath)
      (.error Errno.EIO) (recorded.unlink recordPath) := rfl
  exact ⟨_, Run.cons (.call hunlink) (Run.cons (.call hopen) (.nil _))⟩

/-- A target that is its own temporary file is gone when the file cannot be opened. -/
theorem own_temporary_removed : ¬ ∀ (ready : Bool) (path temporary : CString) (data : List UInt8)
    (s s' : Fs) (es : List (Event OpResult Fs)) (r : Option Errno),
    Run (Prog.Step FsStep) (snapshotWrite ready (some path) (some temporary) (some data), s) es
      (.ret r, s') →
      (SameName path s s' ∨ s'.content path = some data) ∧ (r ≠ none → SameName path s s') := by
  intro h
  obtain ⟨es, hrun⟩ := removed_run
  have hgone : (recorded.unlink recordPath).content recordPath =
      recorded.content recordPath := ((h _ _ _ _ _ _ _ _ hrun).2 (by simp)).2
  rw [Fs.content_unlink] at hgone
  cases hgone

end KfswServices.Storage
