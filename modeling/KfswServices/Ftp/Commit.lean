/-
# What a transfer does to its target

The runs of the two receivers, from what is known of each of their calls.  Alone, a receiver
changes no name but its partial file and its note, except for the one rename at its end:
`receives_commitSafe`, for the upload and the download together in `commit_safety`.

Two receivers with one target share the partial file.  What the one renames is what was announced
to it as long as the other has not changed the partial file since it was opened:
`concurrent_commits`.
-/

import KfswServices.Ftp.Disk
import KfswServices.Ftp.Receive

namespace KfswServices.Ftp

open Library

/-- The ledger of a side that has been told what it is to leave, or not. -/
def Ledger.start (announced : Option Note) : Ledger := ⟨announced, none, false, false⟩

/-- The ledger of a side after its calls. -/
def ledgerAfter (target : CString) (l : Ledger) (es : List (Event OpResult Fs)) : Ledger :=
  es.foldl (fun l e => l.call target e.op e.result) l

/-- A file has been renamed. -/
def renames : Event OpResult Fs → Bool
  | ⟨.fsRename _ _, _, none, _⟩ => true
  | _ => false

/-- The partial file of a target has been renamed to it. -/
def commits (target : CString) : Event OpResult Fs → Bool
  | ⟨.fsRename source name, _, none, _⟩ => source = temporaryPath target && name = target
  | _ => false

/-- An upload is reported as a success. -/
def reportsUpload : Event OpResult Fs → Bool
  | ⟨.linkSend m, _, _, _⟩ => m.opcode = opPutResult && m.status = statusOk
  | _ => false

/-- The message a call has received. -/
def received : Event OpResult Fs → Option Message
  | ⟨.linkReceive, _, .ok m, _⟩ => some m
  | _ => none

/-! ### The ledger of a history -/

section

variable {target : CString} {l : Ledger} {es : List (Event OpResult Fs)} {e : Event OpResult Fs}

theorem ledgerAfter_concat :
    ledgerAfter target l (es ++ [e]) = (ledgerAfter target l es).call target e.op e.result := by
  rw [ledgerAfter, List.foldl_append]
  rfl

/-- What a call of its own does to the ledger of a side. -/
theorem call_committed : (l.call target e.op e.result).committed = (l.committed || renames e) := by
  rcases e with ⟨o, s, r, s'⟩
  cases o with
  | fsOpen p mode =>
    rcases r with e | file
    · simp [Ledger.call, renames]
    · simp only [Ledger.call, renames, Bool.or_false]
      split_ifs <;> rfl
  | fsRename source name => rcases r with _ | e <;> simp [Ledger.call, renames]
  | linkReceive => rcases r with e | m <;> simp [Ledger.call, Ledger.receive, renames]
  | _ => simp [Ledger.call, renames]

theorem call_announced :
    (l.call target e.op e.result).announced = l.announced.or ((received e).map Message.note) := by
  rcases e with ⟨o, s, r, s'⟩
  cases o with
  | fsOpen p mode =>
    rcases r with e | file
    · simp [Ledger.call, received]
    · simp only [Ledger.call, received, Option.map_none, Option.or_none]
      split_ifs <;> rfl
  | fsRename source name => rcases r with _ | e <;> simp [Ledger.call, received]
  | linkReceive => rcases r with e | m <;> simp [Ledger.call, Ledger.receive, received]
  | _ => simp [Ledger.call, received]

/-- Nobody disturbs his own file. -/
theorem call_undisturbed (h : l.disturbed = false) :
    (l.call target e.op e.result).disturbed = false := by
  rcases e with ⟨o, s, r, s'⟩
  cases o with
  | fsOpen p mode =>
    rcases r with e | file
    · exact h
    · simp only [Ledger.call]
      split_ifs
      · rfl
      · exact h
  | fsRename source name => rcases r with _ | e <;> exact h
  | linkReceive => rcases r with e | m <;> exact h
  | _ => exact h

theorem ledgerAfter_undisturbed (h : l.disturbed = false) :
    (ledgerAfter target l es).disturbed = false := by
  induction es using List.reverseRecOn with
  | nil => exact h
  | append_singleton es e ih =>
    rw [ledgerAfter_concat]
    exact call_undisturbed ih

theorem ledgerAfter_committed :
    (ledgerAfter target l es).committed = (l.committed || es.any renames) := by
  induction es using List.reverseRecOn with
  | nil => simp [ledgerAfter]
  | append_singleton es e ih =>
    rw [ledgerAfter_concat, call_committed, ih, List.any_append, List.any_cons, List.any_nil,
      Bool.or_false, Bool.or_assoc]

/-- The first message announces what comes to a side that has not been told. -/
theorem ledgerAfter_announced : (ledgerAfter target l es).announced =
      l.announced.or ((es.findSome? received).map Message.note) := by
  induction es using List.reverseRecOn with
  | nil => simp [ledgerAfter]
  | append_singleton es e ih =>
    rw [ledgerAfter_concat, call_announced, ih, List.findSome?_append, Option.or_assoc,
      List.findSome?_singleton]
    rcases es.findSome? received with _ | m <;> simp

end

/-! ### A call of an isolated side -/

theorem commits_iff {target : CString} {e : Event OpResult Fs} : commits target e = true ↔
    ∃ s s', e = ⟨.fsRename (temporaryPath target) target, s, none, s'⟩ := by
  constructor
  · intro h
    rcases e with ⟨o, s, r, s'⟩
    cases o with
    | fsRename source name =>
      rcases r with _ | e
      · simp only [commits, Bool.and_eq_true, decide_eq_true_eq] at h
        obtain ⟨rfl, rfl⟩ := h
        exact ⟨s, s', rfl⟩
      · cases h
    | _ => cases h
  · rintro ⟨s, s', rfl⟩
    simp [commits]

/-- Another file's name stays what it is when the bytes of a file change. -/
theorem SameName.setData {s : Fs} {p q : CString} {id : ℕ} (bytes : List UInt8)
    (hnames : s.names q = some (.file id)) (hne : p ≠ q) : SameName p s (s.setData id bytes) :=
  ⟨rfl, s.content_setData_of_ne bytes fun h => hne (s.single _ _ _ h hnames)⟩

variable {side : Side}

/-- **The frame of a call.**  It leaves every name but the partial file and the note as it is, or
is the rename to the target. -/
theorem Guarantee.frame {e : Event OpResult Fs} {l l' : Ledger} {p : CString}
    (hstep : FsStep e.op e.before e.result e.after)
    (h : Guarantee side True e.op (e.before, l) e.result (e.after, l'))
    (hundisturbed : l.disturbed = false) (hpart : p ≠ temporaryPath side.target)
    (hnote : p ≠ notePath side.target) :
    SameName p e.before e.after ∨ (p = side.target ∧ commits side.target e = true) := by
  rcases e with ⟨o, s, r, s'⟩
  have hquiet : s' = s → SameName p s s' := fun hs => hs ▸ SameName.refl p s
  cases o with
  | fsOpen q mode =>
    refine Or.inl ?_
    rcases r with e | file
    · exact hquiet hstep
    have hq : mode = .READ ∨ mode = .WRITE ∨ p ≠ q := by
      rcases h with h | ⟨rfl, -⟩ | ⟨rfl, -⟩
      · exact Or.inl h
      · exact Or.inr (Or.inr hnote)
      · exact Or.inr (Or.inr hpart)
    rcases hstep with ⟨id, hnames, -, hs⟩ | ⟨hmode, -, -, hs⟩
    · change s' = _ at hs
      split_ifs at hs with hmode
      · rw [hs]
        refine SameName.setData [] hnames ?_
        subst hmode
        simpa using hq
      · exact hquiet hs
    · have hne : p ≠ q := by
        subst hmode
        simpa using hq
      change s' = _ at hs
      rw [hs]
      exact ⟨Function.update_of_ne hne _ _, s.content_create_of_ne hne⟩
  | fsWrite file data =>
    refine Or.inl ?_
    have hwritten : ∃ bytes, s' = s.setData file.id bytes := by
      rcases r with e | ⟨written, file'⟩
      · obtain ⟨k, hs⟩ := hstep
        obtain ⟨bytes, hbytes⟩ := s.exists_writeData file (data.take k)
        exact ⟨bytes, hs.trans hbytes⟩
      · obtain ⟨bytes, hbytes⟩ := s.exists_writeData file (data.take written)
        exact ⟨bytes, hstep.2.1.trans hbytes⟩
    obtain ⟨bytes, rfl⟩ := hwritten
    rcases h with h | h
    · exact SameName.setData bytes (h hundisturbed).1 hpart
    · exact SameName.setData bytes (h trivial).1 hnote
  | fsRename source name =>
    obtain ⟨rfl, rfl, -⟩ := h
    rcases r with _ | e
    · obtain ⟨-, -, hs⟩ := hstep
      change s' = _ at hs
      by_cases hp : p = side.target
      · exact Or.inr ⟨hp, commits_iff.2 ⟨s, s', rfl⟩⟩
      · refine Or.inl ?_
        rw [hs]
        refine ⟨?_, s.content_rename_of_ne hpart hp⟩
        show s.renamed _ _ p = s.names p
        rw [Fs.renamed, if_neg hp, if_neg hpart]
    · exact Or.inl (hquiet hstep)
  | fsUnlink q =>
    refine Or.inl ?_
    have hne : p ≠ q := by
      rcases h with rfl | rfl
      · exact hpart
      · exact hnote
    rcases r with _ | e
    · obtain ⟨-, -, hs⟩ := hstep
      change s' = _ at hs
      rw [hs]
      exact ⟨Function.update_of_ne hne _ _, s.content_unlink_of_ne hne⟩
    · exact hquiet hstep
  | fsMkdir q => exact h.elim
  | fsStat q => exact Or.inl (hquiet hstep.1)
  | fsRead file size => exact Or.inl (hquiet hstep.1)
  | fsSeek file offset => exact Or.inl (hquiet hstep.1)
  | _ => exact Or.inl (hquiet hstep)

/-- What is to be renamed is what was announced, unless another side has changed it. -/
theorem Guarantee.sound {isolated : Prop} {e : Event OpResult Fs} {l l' : Ledger}
    {source name : CString} (hop : e.op = .fsRename source name)
    (hstep : FsStep e.op e.before e.result e.after)
    (h : Guarantee side isolated e.op (e.before, l) e.result (e.after, l'))
    (hundisturbed : l.disturbed = false) : source = temporaryPath side.target ∧ name = side.target ∧
      ∃ n bytes, l.announced = some n ∧ e.before.content (temporaryPath side.target) = some bytes ∧
          bytes.length = n.totalSize.toNat ∧ crc32 bytes = n.crc32 ∧
            (commits side.target e = true → e.after.content side.target = some bytes) := by
  rcases e with ⟨o, s, r, s'⟩
  obtain rfl : o = .fsRename source name := hop
  obtain ⟨rfl, rfl, -, hsound⟩ := h
  obtain ⟨n, bytes, hannounced, hcontent, hsize, hcrc⟩ := hsound hundisturbed
  refine ⟨rfl, rfl, n, bytes, hannounced, hcontent, hsize, hcrc, fun hcommits => ?_⟩
  rcases r with _ | e
  · obtain ⟨-, -, hs⟩ := hstep
    change s' = _ at hs
    show s'.content side.target = _
    rw [hs, Fs.content_rename_target]
    exact hcontent
  · cases hcommits

/-- A side renames nothing but its partial file to its target. -/
theorem Guarantee.renames {isolated : Prop} {e : Event OpResult Fs} {l l' : Ledger}
    (h : Guarantee side isolated e.op (e.before, l) e.result (e.after, l'))
    (hrenames : renames e = true) : commits side.target e = true ∧ l.committed = false := by
  rcases e with ⟨o, s, r, s'⟩
  cases o with
  | fsRename source name =>
    rcases r with _ | e
    · obtain ⟨rfl, rfl, hfirst, -⟩ := h
      exact ⟨commits_iff.2 ⟨s, s', rfl⟩, hfirst⟩
    · cases hrenames
  | _ => cases hrenames

/-! ### An isolated side -/

/-- **Commit safety** of a history, for a side whose transfer was announced as `announced` says.
Every step leaves the target as it is, or is the rename of the partial file to it; a rename is only
made of a partial file that is what was announced, and succeeds once at most. -/
structure CommitSafe (target : CString) (announced : List (Event OpResult Fs) → Option Note)
    (es : List (Event OpResult Fs)) : Prop where
  frame : ∀ e ∈ es, SameName target e.before e.after ∨ commits target e = true
  sound : ∀ before e, before ++ [e] <+: es → ∀ source name, e.op = .fsRename source name →
    source = temporaryPath target ∧ name = target ∧ ∃ n bytes, announced before = some n ∧
      e.before.content (temporaryPath target) = some bytes ∧ bytes.length = n.totalSize.toNat ∧
        crc32 bytes = n.crc32 ∧ (commits target e = true → e.after.content target = some bytes)
  once : ∀ before e, before ++ [e] <+: es → commits target e = true →
    ∀ c ∈ before, commits target c = false

/-- What is known of the run of an isolated side: what each call may be and may do, and what holds
where the run has come to. -/
theorem receives_run {α : Type} {p q : Program α} {Q : α → Fs × Ledger → Prop} {s u : Fs}
    {l : Ledger} {es : List (Event OpResult Fs)} (h : Receives side True p Q (s, l))
    (hr : Run (Prog.Step FsStep) (p, s) es (q, u)) :
    (∀ before e, before ++ [e] <+: es → FsStep e.op e.before e.result e.after ∧
      Guarantee side True e.op (e.before, ledgerAfter side.target l before) e.result
        (e.after, ledgerAfter side.target l (before ++ [e]))) ∧
      Receives side True q Q (u, ledgerAfter side.target l es) :=
  Ensures.run (fun es s => (s, ledgerAfter side.target l es)) (Rely.refl _ _)
    (fun _ _ _ _ _ hstep => ⟨hstep, ledgerAfter_concat⟩) h hr

section

variable {α : Type} {p q : Program α} {Q : α → Fs × Ledger → Prop} {s u : Fs}
  {announced : Option Note} (h : Receives side True p Q (s, Ledger.start announced))
include h

theorem receives_commitSafe {es : List (Event OpResult Fs)}
    (hr : Run (Prog.Step FsStep) (p, s) es (q, u)) :
    CommitSafe side.target (fun before => announced.or ((before.findSome? received).map
      Message.note)) es := by
  obtain ⟨hes, -⟩ := receives_run h hr
  have hundisturbed : ∀ before,
      (ledgerAfter side.target (Ledger.start announced) before).disturbed = false :=
    fun before => ledgerAfter_undisturbed rfl
  constructor
  · intro e he
    obtain ⟨before, after, rfl⟩ := List.append_of_mem he
    obtain ⟨hstep, hg⟩ := hes before e (by simp)
    rcases hg.frame hstep (hundisturbed before) (ne_temporaryPath _) (ne_notePath _) with h | h
    · exact Or.inl h
    · exact Or.inr h.2
  · intro before e hpre source name hop
    obtain ⟨hstep, hg⟩ := hes before e hpre
    have hsound := hg.sound hop hstep (hundisturbed before)
    rw [ledgerAfter_announced] at hsound
    exact hsound
  · intro before e hpre hcommits c hc
    obtain ⟨-, hg⟩ := hes before e hpre
    have hrenames : renames e = true := by
      obtain ⟨s, s', rfl⟩ := commits_iff.1 hcommits
      rfl
    obtain ⟨-, hfirst⟩ := hg.renames hrenames
    rw [ledgerAfter_committed, Bool.or_eq_false_iff, List.any_eq_false] at hfirst
    by_contra hcommitted
    obtain ⟨s, s', rfl⟩ := commits_iff.1 (Bool.not_eq_false _ ▸ hcommitted)
    exact hfirst.2 _ hc rfl

/-- What has been committed according to the ledger has been renamed. -/
theorem exists_commit {es before : List (Event OpResult Fs)}
    (hr : Run (Prog.Step FsStep) (p, s) es (q, u)) (hpre : before <+: es)
    (hcommitted : (ledgerAfter side.target (Ledger.start announced) before).committed = true) :
    ∃ c ∈ before, commits side.target c = true := by
  obtain ⟨hes, -⟩ := receives_run h hr
  rw [ledgerAfter_committed, show (Ledger.start announced).committed = false from rfl,
    Bool.false_or, List.any_eq_true] at hcommitted
  obtain ⟨c, hc, hrenames⟩ := hcommitted
  obtain ⟨front, back, rfl⟩ := List.append_of_mem hc
  have hcut : front ++ [c] <+: es := List.IsPrefix.trans ⟨back, by simp⟩ hpre
  exact ⟨c, hc, ((hes front c hcut).2.renames hrenames).1⟩

end

/-- **Commit safety.**  An upload, unless it is one of the firmware, and a download leave their
target as it is up to one rename of a partial file that is what was announced: in the request of
the upload, and in the first message that comes in reply to that of the download.  A success is
only reported, or returned, after the rename. -/
theorem commit_safety (cfg : Config) (s : Fs) (es : List (Event OpResult Fs))
    (q : Program (Option Errno)) (u : Fs) (target : CString) :
    (∀ request, resolveMessagePath cfg request false = .ok target →
      pathIsFirmware cfg request.path = false →
        Run (Prog.Step FsStep) (servePut cfg request, s) es (q, u) →
          CommitSafe target (fun _ => some request.note) es ∧
            ∀ before e, before ++ [e] <+: es → reportsUpload e = true →
              ∃ c ∈ before, commits target c = true) ∧ ∀ st node remotePath localPath requestId,
        resolvePath cfg localPath false fullPathSize = .ok target →
          Run (Prog.Step FsStep) (get cfg st node remotePath localPath requestId, s) es (q, u) →
            CommitSafe target (fun before => (before.findSome? received).map Message.note) es ∧
              (q = .ret none → ∃ c ∈ es, commits target c = true) := by
  constructor
  · intro request hresolved hfirmware hr
    have h : Receives (uploadSide target request) True (servePut cfg request) (fun _ _ => True)
        (s, Ledger.start (some request.note)) :=
      receives_servePut hresolved hfirmware ⟨rfl, rfl⟩
    refine ⟨receives_commitSafe h hr, fun before e hpre hreports => ?_⟩
    refine exists_commit h hr ((List.prefix_append _ _).trans hpre) ?_
    obtain ⟨-, hg⟩ := (receives_run h hr).1 before e hpre
    rcases e with ⟨o, t, r, t'⟩
    cases o with
    | linkSend m =>
      simp only [reportsUpload, Bool.and_eq_true, decide_eq_true_eq] at hreports
      exact hg hreports.1 hreports.2
    | _ => cases hreports
  · intro st node remotePath localPath requestId hlocal hr
    have h : Receives (downloadSide target requestId) True
        (get cfg st node remotePath localPath requestId) (fun r x' => Reported r x')
        (s, Ledger.start none) := receives_get hlocal ⟨rfl, rfl⟩
    refine ⟨receives_commitSafe h hr, ?_⟩
    rintro rfl
    exact exists_commit h hr (List.prefix_refl _) ((receives_run h hr).2 rfl)

/-- An upload and a download of one byte, with the rename of each. -/
theorem commit_safety_byte :
    (CommitSafe (.ofString "/kfsw/ftp/x") (fun _ => some (noteOf [65]))
        (onDisk (servePut plainBuild (uploadRequest (.ofString "x") 0 [65])) .empty
          [uploadData [65] 0 1]) ∧
      (onDisk (servePut plainBuild (uploadRequest (.ofString "x") 0 [65])) .empty
        [uploadData [65] 0 1]).any (commits (.ofString "/kfsw/ftp/x")) = true) ∧
      ∃ c ∈ onDisk (get plainBuild station 2 (.ofString "y") (.ofString "x") 1) .empty
        (downloadReplies [65]), commits (.ofString "/kfsw/ftp/x") c = true :=
  ⟨⟨((commit_safety plainBuild .empty _ _ _ (.ofString "/kfsw/ftp/x")).1
      (uploadRequest (.ofString "x") 0 [65]) (by decide +kernel) (by decide)
      (run_onDisk _ _ [uploadData [65] 0 1])).1, by decide +kernel⟩,
    ((commit_safety plainBuild .empty _ (.ret none) _ (.ofString "/kfsw/ftp/x")).2
      station 2 (.ofString "y") (.ofString "x") 1 (by decide +kernel)
      (run_onDisk _ _ (downloadReplies [65]))).2 rfl⟩

/-- An upload to the firmware path is reported as a success, and nothing has been renamed. -/
theorem firmware_renames_nothing : ¬ ∀ (cfg : Config) (s : Fs) (es : List (Event OpResult Fs))
    (q : Program (Option Errno)) (u : Fs) (target : CString) (request : Message),
    resolveMessagePath cfg request false = .ok target →
      Run (Prog.Step FsStep) (servePut cfg request, s) es (q, u) →
        ∀ before e, before ++ [e] <+: es → reportsUpload e = true →
          ∃ c ∈ before, commits target c = true := by
  intro h
  have hrun := run_onDisk (servePut ⟨none, some (.ofString "fw"), 0⟩
    (uploadRequest (.ofString "fw") 0 [65])) .empty [uploadData [65] 0 1]
  have hevents : (onDisk (servePut ⟨none, some (.ofString "fw"), 0⟩
      (uploadRequest (.ofString "fw") 0 [65])) .empty [uploadData [65] 0 1]).any
        reportsUpload = true ∧
      (onDisk (servePut ⟨none, some (.ofString "fw"), 0⟩
        (uploadRequest (.ofString "fw") 0 [65])) .empty [uploadData [65] 0 1]).any
          (commits (.ofString "/kfsw/ftp/fw")) = false := by decide +kernel
  obtain ⟨e, he, hreports⟩ := List.any_eq_true.1 hevents.1
  obtain ⟨before, after, hsplit⟩ := List.append_of_mem he
  obtain ⟨c, hc, hcommits⟩ := h _ _ _ _ _ (.ofString "/kfsw/ftp/fw") _
    (by decide +kernel) hrun before e ⟨after, by rw [hsplit]; simp⟩ hreports
  have hmem : c ∈ before ++ e :: after := List.mem_append_left _ hc
  rw [← hsplit] at hmem
  exact List.any_eq_false.1 hevents.2 c hmem hcommits

/-! ### Two sides -/

/-- After a call of another side. -/
def Ledger.other (target : CString) (l : Ledger) (s s' : Fs) : Ledger :=
  { l with disturbed := l.disturbed || !decide (SameName (temporaryPath target) s s') }

/-- **What the left side of two knows**: what it has been told and has done, and whether the right
side has changed the partial file since the left one last opened it, to read it or to start it
anew. -/
def watch (target : CString) (announced : Option Note)
    (es : List (Event OpResult Fs ⊕ Event OpResult Fs)) : Ledger :=
  es.foldl (fun l e => match e with
    | .inl e => l.call target e.op e.result
    | .inr e => l.other target e.before e.after) (Ledger.start announced)

/-- The same history, seen from the right side. -/
def mirror (es : List (Event OpResult Fs ⊕ Event OpResult Fs)) :
    List (Event OpResult Fs ⊕ Event OpResult Fs) := es.map Sum.swap

section

variable {target : CString} {announced : Option Note}
  {es : List (Event OpResult Fs ⊕ Event OpResult Fs)}

theorem watch_left {e : Event OpResult Fs} : watch target announced (es ++ [.inl e]) =
    (watch target announced es).call target e.op e.result := by
  rw [watch, List.foldl_append]
  rfl

theorem watch_right {e : Event OpResult Fs} : watch target announced (es ++ [.inr e]) =
    (watch target announced es).other target e.before e.after := by
  rw [watch, List.foldl_append]
  rfl

/-- A call of the right side is interference for the left one. -/
theorem rely_watch {e : Event OpResult Fs} : Rely target False
    (e.before, watch target announced es) (e.after, watch target announced (es ++ [.inr e])) := by
  rw [watch_right]
  refine ⟨False.elim, rfl, rfl, rfl, fun h => ?_⟩
  simpa [Ledger.other] using h

/-- A side that watches has been told what the first message said, unless it was told before. -/
theorem watch_announced : (watch target announced es).announced =
      announced.or (((es.filterMap Sum.getLeft?).findSome? received).map Message.note) := by
  induction es using List.reverseRecOn with
  | nil => simp [watch, Ledger.start]
  | append_singleton es e ih =>
    rcases e with e | e
    · rw [watch_left, call_announced, ih, List.filterMap_append, List.findSome?_append,
        Option.or_assoc]
      rcases ((es.filterMap Sum.getLeft?).findSome? received) with _ | m <;> simp
    · have hnil : [Sum.inr e].filterMap Sum.getLeft? = ([] : List (Event OpResult Fs)) := rfl
      rw [watch_right, List.filterMap_append, hnil, List.append_nil]
      exact ih

/-- The file at the target is what was announced. -/
def IsNoted (target : CString) (note : Note) (s : Fs) : Prop :=
  ∃ bytes, s.content target = some bytes ∧ bytes.length = note.totalSize.toNat ∧
    crc32 bytes = note.crc32

/-- What an undisturbed side has renamed is what was announced to it. -/
theorem Guarantee.isNoted {e : Event OpResult Fs} {l l' : Ledger}
    (hstep : FsStep e.op e.before e.result e.after)
    (h : Guarantee side False e.op (e.before, l) e.result (e.after, l'))
    (hundisturbed : l.disturbed = false) (hcommits : commits side.target e = true) :
    ∃ n, l.announced = some n ∧ IsNoted side.target n e.after := by
  have hop : e.op = .fsRename (temporaryPath side.target) side.target := by
    obtain ⟨s, s', rfl⟩ := commits_iff.1 hcommits
    rfl
  obtain ⟨-, -, n, bytes, hn, -, hsize, hcrc, hafter⟩ := h.sound hop hstep hundisturbed
  exact ⟨n, hn, bytes, hafter hcommits, hsize, hcrc⟩

/-- **Two transfers to one target.**  The upload on the left and the download on the right take
their calls in any order.  Each leaves at the target what was announced to it, whenever it commits
and the other has not changed the partial file since it was opened. -/
theorem concurrent_commits (cfg : Config) (st : Station) (node : UInt16) (request : Message)
    (remotePath localPath target : CString) (requestId : UInt32) (s u : Fs)
    (p q : Program (Option Errno)) (es : List (Event OpResult Fs ⊕ Event OpResult Fs))
    (hresolved : resolveMessagePath cfg request false = .ok target)
    (hfirmware : pathIsFirmware cfg request.path = false)
    (hlocal : resolvePath cfg localPath false fullPathSize = .ok target)
    (hr : Run (Interleave FsStep FsStep)
      ((servePut cfg request, get cfg st node remotePath localPath requestId), s) es ((p, q), u)) :
    (∀ before e, before ++ [.inl e] <+: es → commits target e = true →
      (watch target (some request.note) before).disturbed = false →
        IsNoted target request.note e.after) ∧
      ∀ before e, before ++ [.inr e] <+: es → commits target e = true →
        (watch target none (mirror before)).disturbed = false →
          ∃ m, ((before.filterMap Sum.getRight?).findSome? received) = some m ∧
            IsNoted target m.note e.after := by
  have hmirror : ∀ es : List (Event OpResult Fs ⊕ Event OpResult Fs), ∀ e,
      mirror (es ++ [e]) = mirror es ++ [e.swap] := fun es e => by simp [mirror]
  have hput : Receives (uploadSide target request) False (servePut cfg request) (fun _ _ => True)
      (s, watch target (some request.note) []) :=
    receives_servePut hresolved hfirmware ⟨rfl, rfl⟩
  have hget : Receives (downloadSide target requestId) False
      (get cfg st node remotePath localPath requestId) (fun _ _ => True)
      (s, watch target none (mirror [])) :=
    (receives_get hlocal ⟨rfl, rfl⟩).post fun _ _ _ => trivial
  have hviewL : ∀ es o t r t', FsStep o t r t' →
      OwnStep target o (t, watch target (some request.note) es) r
          (t', watch target (some request.note) (es ++ [.inl ⟨o, t, r, t'⟩])) ∧
        Rely target False (t, watch target none (mirror es))
          (t', watch target none (mirror (es ++ [.inl ⟨o, t, r, t'⟩]))) := by
    intro es o t r t' hstep
    refine ⟨⟨hstep, watch_left⟩, ?_⟩
    rw [hmirror]
    exact rely_watch (e := ⟨o, t, r, t'⟩)
  have hviewR : ∀ es o t r t', FsStep o t r t' →
      OwnStep target o (t, watch target none (mirror es)) r
          (t', watch target none (mirror (es ++ [.inr ⟨o, t, r, t'⟩]))) ∧
        Rely target False (t, watch target (some request.note) es)
          (t', watch target (some request.note) (es ++ [.inr ⟨o, t, r, t'⟩])) := by
    intro es o t r t' hstep
    refine ⟨⟨hstep, ?_⟩, rely_watch (e := ⟨o, t, r, t'⟩)⟩
    rw [hmirror]
    exact watch_left
  obtain ⟨hleft, hright⟩ := Ensures.interleave
    (fun es s => (s, watch target (some request.note) es))
    (fun es s => (s, watch target none (mirror es)))
    hput hget Rely.trans (Rely.refl _ _) Rely.trans (Rely.refl _ _) hviewL hviewR hr
  constructor
  · intro before e hpre hcommits hundisturbed
    obtain ⟨hstep, hg⟩ := hleft before e hpre
    have hannounced : (watch target (some request.note) before).announced =
        some request.note := watch_announced
    obtain ⟨n, hn, hnoted⟩ := hg.isNoted hstep hundisturbed hcommits
    rw [hannounced] at hn
    cases hn
    exact hnoted
  · intro before e hpre hcommits hundisturbed
    obtain ⟨hstep, hg⟩ := hright before e hpre
    have hview : (mirror before).filterMap Sum.getLeft? = before.filterMap Sum.getRight? := by
      rw [mirror, List.filterMap_map]
      congr 1
      funext e
      cases e <;> rfl
    obtain ⟨n, hn, hnoted⟩ := hg.isNoted hstep hundisturbed hcommits
    rw [watch_announced, hview, Option.none_or, Option.map_eq_some_iff] at hn
    obtain ⟨m, hm, rfl⟩ := hn
    exact ⟨m, hm, hnoted⟩

end

/-- The calls of the upload of a byte and of the download of two, to one target. -/
def twoTransfers (order : List Bool) : List (Event OpResult Fs ⊕ Event OpResult Fs) :=
  bothOnDisk order (servePut plainBuild (uploadRequest (.ofString "x") 0 [65]))
    (get plainBuild station 2 (.ofString "y") (.ofString "x") 1) .empty
    [uploadData [65] 0 1] (downloadReplies [66, 66])

/-- Ten calls of the download, then the upload. -/
def downloadFirst : List Bool := .replicate 10 false ++ .replicate 16 true

/-- The rename of the upload is the fourteenth of its calls, and takes what the upload wrote. -/
theorem concurrent_commits_apart : ∃ e, (twoTransfers downloadFirst)[23]? = some (.inl e) ∧
    IsNoted (.ofString "/kfsw/ftp/x") (noteOf [65]) e.after := by
  have hcommits : (twoTransfers downloadFirst)[23]?.any
      (Sum.elim (commits (.ofString "/kfsw/ftp/x")) fun _ => false) = true := by
    decide +kernel
  have hundisturbed : (watch (.ofString "/kfsw/ftp/x") (some (noteOf [65]))
      ((twoTransfers downloadFirst).take 23)).disturbed = false := by decide +kernel
  obtain ⟨c, hrun⟩ := run_bothOnDisk downloadFirst
    (servePut plainBuild (uploadRequest (.ofString "x") 0 [65]))
    (get plainBuild station 2 (.ofString "y") (.ofString "x") 1) .empty
    [uploadData [65] 0 1] (downloadReplies [66, 66])
  rcases he : (twoTransfers downloadFirst)[23]? with _ | e | e
  · rw [he] at hcommits
    cases hcommits
  · rw [he] at hcommits
    have hpre : (twoTransfers downloadFirst).take 23 ++ [.inl e] <+:
        twoTransfers downloadFirst := by
      have htake := List.take_prefix 24 (twoTransfers downloadFirst)
      rw [List.take_add_one, he] at htake
      exact htake
    exact ⟨e, rfl, (concurrent_commits plainBuild station 2 (uploadRequest (.ofString "x") 0
      [65]) (.ofString "y") (.ofString "x") (.ofString "/kfsw/ftp/x") 1 .empty
      c.2 c.1.1 c.1.2 _ (by decide +kernel) rfl (by decide +kernel) hrun).1 _ e hpre hcommits
        hundisturbed⟩
  · rw [he] at hcommits
    cases hcommits

/-- Two transfers in turn: the download starts the partial file anew before the upload renames
it, and the target is left empty. -/
theorem concurrent_commit_of_other : ¬ ∀ (cfg : Config) (st : Station) (node : UInt16)
    (request : Message) (remotePath localPath target : CString) (requestId : UInt32) (s : Fs)
    (c : (Program (Option Errno) × Program (Option Errno)) × Fs)
    (es : List (Event OpResult Fs ⊕ Event OpResult Fs)),
    resolveMessagePath cfg request false = .ok target → pathIsFirmware cfg request.path = false →
        resolvePath cfg localPath false fullPathSize = .ok target → Run (Interleave FsStep FsStep)
            ((servePut cfg request, get cfg st node remotePath localPath requestId), s) es c →
            ∀ before e, before ++ [.inl e] <+: es → commits target e = true →
              IsNoted target request.note e.after := by
  intro h
  obtain ⟨c, hrun⟩ := run_bothOnDisk (.replicate 13 true ++ .replicate 21 false ++ [true])
    (servePut plainBuild (uploadRequest (.ofString "x") 0 [65]))
    (get plainBuild station 2 (.ofString "y") (.ofString "x") 1) .empty
    [uploadData [65] 0 1] (downloadReplies [66, 66])
  have hempty : (twoTransfers (.replicate 13 true ++ .replicate 21 false ++ [true])).any
      (fun e => match e with
        | .inl e => commits (.ofString "/kfsw/ftp/x") e &&
          e.after.content (.ofString "/kfsw/ftp/x") = some []
        | .inr _ => false) = true := by decide +kernel
  obtain ⟨e | e, he, hcommits⟩ := List.any_eq_true.1 hempty
  · simp only [Bool.and_eq_true, decide_eq_true_eq] at hcommits
    obtain ⟨before, after, hsplit⟩ := List.append_of_mem he
    obtain ⟨bytes, hbytes, hsize, -⟩ := h _ _ _ _ _ _ (.ofString "/kfsw/ftp/x") _ _ _ _
      (by decide +kernel) rfl (by decide +kernel) hrun before e
      ⟨after, by rw [List.append_assoc]; exact hsplit.symm⟩ hcommits.1
    rw [hcommits.2, Option.some_inj] at hbytes
    subst hbytes
    exact absurd hsize (by decide)
  · cases hcommits

end KfswServices.Ftp
