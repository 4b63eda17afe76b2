/-
# Uploads one after the other

A server that answers one upload after the other, each of which may end anywhere.  An upload of the
firmware and one that is refused for its request have no target (`uploadTarget`).  A path that is
neither the partial file nor the note of any target holds what the last rename to it brought there
(`content_after_uploads`).  The partial file of a target is a target too, though, and an upload to
that target takes it away (`upload_removes_other`).
-/

import KfswServices.Ftp.Commit

namespace KfswServices.Ftp

open Library

/-! ### Uploads that write no file -/

/-- The calls of a program leave the files alone. -/
abbrev ReadsOnly {α : Type} (p : Program α) (Q : α → Prop) : Prop :=
  Calls (fun o => o.readOnly = true) p Q

theorem readsOnly_perform {o : Op} (h : o.readOnly = true) :
    ReadsOnly (Prog.perform o : Program (OpResult o)) fun _ => True :=
  calls_perform h

theorem readsOnly_sendStatus {opcode status : UInt8} {requestId totalSize crc32 : UInt32} :
    ReadsOnly (sendStatus opcode requestId status totalSize crc32) fun _ => True :=
  calls_perform rfl

/-- The file that `serve_put` uploads, if it does not refuse the request. -/
def uploadTarget (cfg : Config) (request : Message) : Option CString :=
  if request.data ≠ [] ∨ request.status ≠ 0 ∨ request.flags &&& ~~~flagResume ≠ 0 ∨
      request.offset ≠ 0 then none
  else if pathIsFirmware cfg request.path then none
  else (resolveMessagePath cfg request false).toOption

variable {cfg : Config} {request : Message}

theorem uploadTarget_eq_some {target : CString} (h : uploadTarget cfg request = some target) :
    resolveMessagePath cfg request false = .ok target ∧
      pathIsFirmware cfg request.path = false := by
  unfold uploadTarget at h
  split_ifs at h with hbad hfirmware
  rcases hresolved : resolveMessagePath cfg request false with e | target'
  · rw [hresolved] at h
    cases h
  · rw [hresolved] at h
    exact ⟨congrArg Except.ok (Option.some.inj h), Bool.not_eq_true _ ▸ hfirmware⟩

theorem uploadTarget_firmware (h : pathIsFirmware cfg request.path = true) :
    uploadTarget cfg request = none := by
  unfold uploadTarget
  rw [if_pos h]
  exact ite_self _

/-- What is opened for an upload of the firmware is no file. -/
theorem readsOnly_openUpload (h : uploadTarget cfg request = none) :
    ReadsOnly (openUpload cfg request) fun r => ∀ t path, r = .ok (t, path) →
      t.firmware = true := by
  unfold uploadTarget at h
  unfold openUpload
  dsimp only
  by_cases hbad : request.data ≠ [] ∨ request.status ≠ 0 ∨
      request.flags &&& ~~~flagResume ≠ 0 ∨ request.offset ≠ 0
  · rw [if_pos hbad]
    rintro _ _ ⟨⟩
  rw [if_neg hbad] at h ⊢
  rcases hresolved : resolveMessagePath cfg request false with e | target
  · rintro _ _ ⟨⟩
  dsimp only
  have hfirmware : pathIsFirmware cfg request.path = true := by
    by_contra hfirmware
    rw [if_neg hfirmware, hresolved] at h
    cases h
  rw [if_pos hfirmware]
  have hopen : ∀ t, ReadsOnly (transferOpenFirmwareSink t) fun r => ∀ t', r = .ok t' →
      t'.firmware = true := by
    intro t
    refine (readsOnly_perform rfl).bind ?_
    rintro (_ | e) -
    · rintro _ ⟨⟩
      rfl
    · rintro _ ⟨⟩
  refine (hopen _).bind ?_
  rintro (e | t) ht
  · rintro _ _ ⟨⟩
  · rintro _ _ ⟨⟩
    exact ht t rfl

section

variable {t : Transfer} (h : t.firmware = true)
include h

theorem readsOnly_receiveData {m : Message} :
    ReadsOnly (receiveData t m) fun r => ∀ t', r = .ok t' → t'.firmware = true := by
  unfold receiveData
  by_cases hvalid : (!dataMessageIsValid t m) = true
  · rw [if_pos hvalid]
    rintro _ ⟨⟩
  rw [if_neg hvalid]
  dsimp only
  rw [if_pos h]
  refine (readsOnly_perform rfl).bind ?_
  rintro (_ | e) -
  · rintro _ ⟨⟩
    exact h
  · rintro _ ⟨⟩

theorem readsOnly_transferReceiveLoop {turns : ℕ} :
    ReadsOnly (transferReceiveLoop turns t) fun r => r.2.firmware = true := by
  induction turns generalizing t with
  | zero => exact h
  | succ turns ih =>
    unfold transferReceiveLoop
    split_ifs with hmore
    · refine (readsOnly_perform rfl).bind ?_
      rintro (e | m) -
      · exact h
      refine (readsOnly_receiveData h).bind ?_
      rintro (e | t') ht'
      · exact h
      · exact ih (ht' t' rfl)
    · exact h

theorem readsOnly_reportUpload {path : CString} {result : Option Errno} :
    ReadsOnly (reportUpload request path t result) fun _ => True := by
  have habort : ∀ result : Option Errno, ReadsOnly (if result ≠ none then do
      let _ ← fwuAbort
      pure result
    else pure result) fun _ => True := by
    intro result
    split_ifs
    · exact (readsOnly_perform rfl).bind fun _ _ => trivial
    · trivial
  unfold reportUpload transferFinish
  rw [if_pos h]
  dsimp only
  split_ifs
  · refine Calls.bind ((readsOnly_perform rfl).bind fun r _ => habort r) fun _ _ => ?_
    exact readsOnly_sendStatus
  · exact Calls.bind (habort _) fun _ _ => readsOnly_sendStatus

end

/-- **An upload of the firmware leaves the files alone**, and so does one that is refused for its
request. -/
theorem readsOnly_servePut (h : uploadTarget cfg request = none) :
    ReadsOnly (servePut cfg request) fun _ => True := by
  refine (readsOnly_openUpload h).bind ?_
  rintro (e | ⟨t, path⟩) ht
  · exact readsOnly_sendStatus
  have hfirmware := ht t path rfl
  refine (readsOnly_perform rfl).bind ?_
  rintro (_ | e) -
  · refine (readsOnly_transferReceiveLoop hfirmware).bind ?_
    rintro ⟨result, t'⟩ ht'
    exact readsOnly_reportUpload ht'
  · exact readsOnly_reportUpload hfirmware

/-! ### What is left of a path -/

/-- What the renames to a path have brought there, or what was there before. -/
def committed (p : CString) (content : Option (List UInt8)) (es : List (Event OpResult Fs)) :
    Option (List UInt8) :=
  es.foldl (fun content e =>
    if commits p e then e.before.content (temporaryPath p) else content) content

variable {es : List (Event OpResult Fs)}

theorem committed_append {p : CString} {content : Option (List UInt8)}
    {fs : List (Event OpResult Fs)} :
    committed p content (es ++ fs) = committed p (committed p content es) fs :=
  List.foldl_append

/-- A path that only a rename to it changes. -/
theorem content_after_run {α : Type} {p : CString} {c c' : Program α × Fs}
    (hr : Run (Prog.Step FsStep) c es c')
    (hes : ∀ e ∈ es, SameName p e.before e.after ∨ commits p e = true) :
    c'.2.content p = committed p (c.2.content p) es := by
  refine hr.invariant (I := fun es c' => (∀ e ∈ es, SameName p e.before e.after ∨
    commits p e = true) → c'.2.content p = committed p (c.2.content p) es) (fun _ => rfl) ?_ hes
  rintro es ⟨_, s⟩ _ ⟨_, s'⟩ ih ⟨hstep⟩ hes
  rename_i o k r
  rw [committed_append, ← ih fun e he => hes e (List.mem_append_left _ he)]
  show s'.content p = if commits p ⟨o, s, r, s'⟩ = true then _ else _
  split_ifs with hcommits
  · obtain ⟨_, _, heq⟩ := commits_iff.1 hcommits
    cases heq
    obtain ⟨-, -, rfl⟩ := hstep
    exact Fs.content_rename_target s
  · exact ((hes ⟨o, s, r, s'⟩ (by simp)).resolve_right hcommits).2

/-- **One upload**, as far as it gets: it leaves a path that is neither the partial file nor the
note of its target as it is, unless it renames to it; and it only renames to its target. -/
theorem servePut_frame {s u : Fs} {q : Program (Option Errno)} {p : CString}
    (hr : Run (Prog.Step FsStep) (servePut cfg request, s) es (q, u))
    (hp : ∀ target, uploadTarget cfg request = some target →
      p ≠ temporaryPath target ∧ p ≠ notePath target) : ∀ e ∈ es, SameName p e.before e.after ∨
      (commits p e = true ∧ uploadTarget cfg request = some p) := by
  intro e he
  obtain ⟨before, after, rfl⟩ := List.append_of_mem he
  rcases htarget : uploadTarget cfg request with _ | target
  · have h : ReadsOnly (servePut cfg request) fun _ => True := readsOnly_servePut htarget
    obtain ⟨m, m', -, ⟨hstep⟩, -⟩ := run_split_iff.1 hr
    have hsame := hstep.readOnly (h.run hr _ he)
    exact Or.inl (hsame ▸ SameName.refl p _)
  · obtain ⟨hresolved, hfirmware⟩ := uploadTarget_eq_some htarget
    have h : Receives (uploadSide target request) True (servePut cfg request) (fun _ _ => True)
        (s, Ledger.start (some request.note)) :=
      receives_servePut hresolved hfirmware ⟨rfl, rfl⟩
    obtain ⟨hstep, hg⟩ := (receives_run h hr).1 before e (by simp)
    obtain ⟨hpart, hnote⟩ := hp target htarget
    rcases hg.frame hstep (ledgerAfter_undisturbed rfl) hpart hnote with hsame | ⟨rfl, hcommits⟩
    · exact Or.inl hsame
    · exact Or.inr ⟨hcommits, rfl⟩

/-- One upload after the other, each with its request and its calls. -/
def Upload (cfg : Config) (s : Fs) (l : Message × List (Event OpResult Fs)) (u : Fs) : Prop :=
  ∃ q, Run (Prog.Step FsStep) (servePut cfg l.1, s) l.2 (q, u)

/-- **What uploads leave of a path.**  If it is neither the partial file nor the note of any of
their targets, it holds what the last upload to it has renamed there, and without one what it held
before.  No upload that has another target, or none, changes it. -/
theorem content_after_uploads (cfg : Config) (s u : Fs) (p : CString)
    (ls : List (Message × List (Event OpResult Fs)))
    (hp : ∀ l ∈ ls, ∀ target, uploadTarget cfg l.1 = some target →
      p ≠ temporaryPath target ∧ p ≠ notePath target) (hr : Run (Upload cfg) s ls u) :
    u.content p = committed p (s.content p) (ls.flatMap Prod.snd) ∧
      ∀ l ∈ ls, uploadTarget cfg l.1 ≠ some p → ∀ e ∈ l.2, SameName p e.before e.after := by
  refine hr.invariant (I := fun ls u => (∀ l ∈ ls, ∀ target,
    uploadTarget cfg l.1 = some target → p ≠ temporaryPath target ∧ p ≠ notePath target)
      → u.content p = committed p (s.content p) (ls.flatMap Prod.snd) ∧
        ∀ l ∈ ls, uploadTarget cfg l.1 ≠ some p →
          ∀ e ∈ l.2, SameName p e.before e.after) (fun _ => ⟨rfl, by simp⟩) ?_ hp
  rintro ls t l u ih ⟨q, hrun⟩ hp
  obtain ⟨hcontent, hothers⟩ := ih fun l' hl' => hp l' (List.mem_append_left _ hl')
  have hframe := servePut_frame hrun (hp l (by simp))
  constructor
  · rw [List.flatMap_append, List.flatMap_singleton, committed_append, ← hcontent]
    exact content_after_run hrun fun e he => (hframe e he).imp_right And.left
  · intro l' hl' hother e he
    rcases List.mem_append.1 hl' with hl' | hl'
    · exact hothers l' hl' hother e he
    · obtain rfl := List.mem_singleton.1 hl'
      exact (hframe e he).resolve_right fun h => hother h.2

/-- The upload of one byte on a store that does what it is asked. -/
def uploadByte (path : CString) (b : UInt8) (s : Fs) : Message × List (Event OpResult Fs) :=
  (uploadRequest path 0 [b],
    onDisk (servePut plainBuild (uploadRequest path 0 [b])) s [uploadData [b] 0 1])

def afterUpload (path : CString) (b : UInt8) (s : Fs) : Fs :=
  afterDisk (servePut plainBuild (uploadRequest path 0 [b])) s [uploadData [b] 0 1]

theorem upload_uploadByte (path : CString) (b : UInt8) (s : Fs) :
    Upload plainBuild s (uploadByte path b s) (afterUpload path b s) := ⟨_, run_onDisk _ _ _⟩

theorem run_twoUploads (path path' : CString) (b b' : UInt8) (s : Fs) :
    Run (Upload plainBuild) s [uploadByte path b s, uploadByte path' b' (afterUpload path b s)]
      (afterUpload path' b' (afterUpload path b s)) :=
  (Run.single (upload_uploadByte path b s)).snoc (upload_uploadByte path' b' _)

/-- Two uploads to two paths. -/
theorem content_after_uploads_apart : (afterUpload (.ofString "y") 66
      (afterUpload (.ofString "x") 65 .empty)).content (.ofString "/kfsw/ftp/x") =
        committed (.ofString "/kfsw/ftp/x") none
          ((uploadByte (.ofString "x") 65 .empty).2 ++
            (uploadByte (.ofString "y") 66 (afterUpload (.ofString "x") 65 .empty)).2)
      ∧ committed (.ofString "/kfsw/ftp/x") none
          ((uploadByte (.ofString "x") 65 .empty).2 ++
            (uploadByte (.ofString "y") 66 (afterUpload (.ofString "x") 65 .empty)).2) =
          some [65] := by
  have hx : uploadTarget plainBuild (uploadRequest (.ofString "x") 0 [65]) =
      some (.ofString "/kfsw/ftp/x") := by decide +kernel
  have hy : uploadTarget plainBuild (uploadRequest (.ofString "y") 0 [66]) =
      some (.ofString "/kfsw/ftp/y") := by decide +kernel
  refine ⟨((content_after_uploads plainBuild .empty _ (.ofString "/kfsw/ftp/x") _ ?_
    (run_twoUploads (.ofString "x") (.ofString "y") 65 66 .empty)).1).trans ?_,
      by decide +kernel⟩
  · intro l hl target hresolved
    rcases List.mem_pair.1 hl with rfl | rfl
    · rw [uploadByte, hx] at hresolved
      cases hresolved
      decide +kernel
    · rw [uploadByte, hy] at hresolved
      cases hresolved
      decide +kernel
  · simp only [List.flatMap_cons, List.flatMap_nil, List.append_nil]
    rfl

/-- The partial file of a target is a target of its own, and the upload to that target takes it
away. -/
theorem upload_removes_other : ¬ ∀ (cfg : Config) (s u : Fs) (p : CString)
    (ls : List (Message × List (Event OpResult Fs))), Run (Upload cfg) s ls u →
      u.content p = committed p (s.content p) (ls.flatMap Prod.snd) := by
  intro h
  have hcontent := h plainBuild .empty _ (.ofString "/kfsw/ftp/x.part") _
    (run_twoUploads (.ofString "x.part") (.ofString "x") 65 66 .empty)
  exact absurd hcontent (by decide +kernel)

end KfswServices.Ftp
