/-
# The upload that goes on

What `kfsw_ftp_partial_resume_point` finds after a history of uploads, and what an upload makes of
it that nothing cuts off: it sends the rest of the file, and leaves all of it (`resume_sound`).
-/

import KfswServices.Ftp.Resume

namespace KfswServices.Ftp

open Library

/-- What only looks leaves the store and its messages as they are. -/
theorem LooksOnly.exec_disk {α : Type} {p : Program α} {R : α → Prop} (h : LooksOnly p R)
    (x : Fs × List Message) : (p.exec disk x).2.2 = x := by
  have hsame : ∀ o : Op, o.looks = true → ∀ x, (disk o x).2 = x := by
    rintro o ho ⟨s, inbox⟩
    cases o with
    | fsStat p => rcases hp : s.names p with _ | node <;> simp only [disk, hp]
    | fsOpen p mode =>
      obtain rfl : mode = .READ := of_decide_eq_true ho
      rcases hp : s.names p with _ | _ | id <;> simp [disk, hp]
    | fsRead file size => rfl
    | fsClose file => rfl
    | _ => cases ho
  induction p generalizing x with
  | ret a => rfl
  | call o k ih =>
    obtain ⟨ho, hk⟩ := h () trivial (disk o x).1 () trivial
    exact (ih _ hk _).trans (hsame o ho x)

/-- What `kfsw_ftp_partial_resume_point` comes to is what there is. -/
theorem found_of_ends {target : CString} {wanted : Note} {s v : Fs} {offset : ℕ} {crc : UInt32}
    (h : Prog.Ends FsStep (partialResumePoint target wanted) s (offset, crc) v) (hne : offset ≠ 0) :
    Noted target wanted s ∧ ∃ p, s.content (temporaryPath target) = some p ∧ p.length = offset ∧
      crc32 p = crc :=
  (h.post (partialResumePoint_found s) fun _ => rfl).2.2 hne

/-- **An upload that asks to go on**, to a node with a store that does what it is asked and has the
space, and which is sent what is left of the file. -/
structure Resumption (cfg : Config) (target : CString) (s : Fs) where
  request : Message
  content : List UInt8
  messages : List Message
  resolved : resolveMessagePath cfg request false = .ok target
  file : pathIsFirmware cfg request.path = false
  announced : request.note = noteOf content
  small : content.length < 2 ^ 32
  data : request.data = []
  status : request.status = 0
  flags : request.flags = flagResume
  start : request.offset = 0
  free : s.names target ≠ some .directory
  space : content.length + cfg.spaceMargin ≤ 2 ^ 32

namespace Resumption

variable {cfg : Config} {target : CString} {s : Fs} (rs : Resumption cfg target s)

/-- Where it goes on, and the checksum of what is there. -/
def point : ℕ × UInt32 :=
  ((partialResumePoint target rs.request.note).exec disk (s, rs.messages)).2.1

/-- The transfer that it leads to. -/
def transfer (file : Handle) : Transfer :=
  ⟨rs.request.requestId, rs.request.totalSize, rs.request.crc32, rs.point.1, rs.point.2, opPutData,
    false, file⟩

/-- The messages are the rest of the file. -/
def Sends : Prop :=
  Accepted (rs.transfer ⟨0, 0⟩) rs.messages ∧
    rs.messages.flatMap (·.data) = rs.content.drop rs.point.1

theorem exec_point : ((partialResumePoint target rs.request.note).exec disk (s, rs.messages)).2 =
    (rs.point, s, rs.messages) := Prod.ext rfl (looksOnly_partialResumePoint.exec_disk _)

theorem ends_point : ∃ v,
    Prog.Ends FsStep (partialResumePoint target rs.request.note) s rs.point v :=
  ⟨_, _, run_onDisk _ s rs.messages⟩

/-- What is there, when it goes on. -/
theorem found (h : rs.point.1 ≠ 0) : Noted target rs.request.note s ∧
    ∃ p, s.content (temporaryPath target) = some p ∧ p.length = rs.point.1 ∧
      crc32 p = rs.point.2 := by
  obtain ⟨v, hend⟩ := rs.ends_point
  exact found_of_ends hend h

/-- It is opened to go on there. -/
theorem exec_open {id : ℕ} (h : rs.point.1 ≠ 0)
    (hnames : s.names (temporaryPath target) = some (.file id)) :
    ((openUpload cfg rs.request).exec disk (s, rs.messages)).2 =
      (.ok (rs.transfer ⟨id, rs.point.1⟩, target), s, rs.messages) := by
  have htemporary : ∃ temporary, makeTemporaryPath target fullPathSize = .ok temporary := by
    rcases hname : makeTemporaryPath target fullPathSize with e | temporary
    · refine absurd ?_ h
      unfold point partialResumePoint makeNotePath
      rw [hname]
      rfl
    · exact ⟨temporary, rfl⟩
  obtain ⟨temporary, htemporary⟩ := htemporary
  have hstat : ∃ stat, (disk (.fsStat target) (s, rs.messages)) = (stat, s, rs.messages) ∧
      statRefusal stat = none := by
    rcases hnode : s.names target with _ | _ | id'
    · exact ⟨.error .ENOENT, by simp only [disk, hnode], rfl⟩
    · exact absurd hnode rs.free
    · exact ⟨.ok .FILE, by simp only [disk, hnode]; rfl, rfl⟩
  obtain ⟨stat, hstat, haccepted⟩ := hstat
  -- there is space for what is left
  have hreserve : ((reserveUpload cfg target (rs.transfer ⟨0, 0⟩)).exec disk (s, rs.messages)).2 =
      (.ok (rs.transfer ⟨0, 0⟩), s, rs.messages) := by
    have hroom : ¬ 0x100000 * 0x1000 % 2 ^ 64 <
        (rs.transfer ⟨0, 0⟩).totalSize.toNat - (rs.transfer ⟨0, 0⟩).offset + cfg.spaceMargin := by
      have hsize : (rs.transfer ⟨0, 0⟩).totalSize.toNat = rs.content.length := by
        rw [show (rs.transfer ⟨0, 0⟩).totalSize = (noteOf rs.content).totalSize from
          congrArg Note.totalSize rs.announced]
        exact toNat_totalSize rs.small
      have := rs.space
      omega
    have hspace : ((checkSpace cfg target ((rs.transfer ⟨0, 0⟩).totalSize.toNat -
        (rs.transfer ⟨0, 0⟩).offset)).exec disk (s, rs.messages)).2 = (none, s, rs.messages) := by
      unfold checkSpace
      rw [Prog.exec_bind_of (a := .ok ⟨0x100000, 0x1000⟩) (t := (s, rs.messages)) rfl]
      dsimp only
      rw [if_neg hroom]
      rfl
    have hgoes : ¬ (rs.transfer ⟨0, 0⟩).offset = 0 := h
    unfold reserveUpload
    rw [Prog.exec_bind_of hspace]
    dsimp only
    rw [if_neg hgoes]
    rfl
  have hprepare : ((prepareUploadTarget cfg target ⟨rs.request.requestId, rs.request.totalSize,
      rs.request.crc32, 0, 0, opPutData, false, ⟨0, 0⟩⟩
        (rs.request.flags &&& flagResume ≠ 0)).exec disk (s, rs.messages)).2 =
      (.ok (rs.transfer ⟨0, 0⟩), s, rs.messages) := by
    have hresume : rs.request.flags &&& flagResume ≠ 0 := by
      rw [rs.flags]
      decide
    have hfound : ((fsStat target).exec disk (s, rs.messages)).2 = (stat, s, rs.messages) := hstat
    unfold prepareUploadTarget
    rw [htemporary]
    dsimp only
    rw [Prog.exec_bind_of hfound, haccepted]
    dsimp only
    rw [if_pos (decide_eq_true hresume)]
    exact (Prog.exec_bind_of rs.exec_point).trans hreserve
  have hsink : ((transferOpenSink (rs.transfer ⟨0, 0⟩) (temporaryPath target)).exec disk
      (s, rs.messages)).2 = (.ok (rs.transfer ⟨id, rs.point.1⟩), s, rs.messages) := by
    have hopen : ((fsOpen (temporaryPath target) .WRITE).exec disk (s, rs.messages)).2 =
        (.ok ⟨id, 0⟩, s, rs.messages) := by
      show disk (.fsOpen (temporaryPath target) .WRITE) (s, rs.messages) = _
      simp [disk, hnames]
    have hgoes : ¬ (rs.transfer ⟨0, 0⟩).offset = 0 := h
    unfold transferOpenSink
    rw [if_neg hgoes, Prog.exec_bind_of hopen]
    rfl
  have hgood : ¬ (rs.request.data ≠ [] ∨ rs.request.status ≠ 0 ∨
      rs.request.flags &&& ~~~flagResume ≠ 0 ∨ rs.request.offset ≠ 0) := by
    simp [rs.data, rs.status, rs.flags, rs.start]
  unfold openUpload
  rw [if_neg hgood, rs.resolved, rs.file]
  dsimp only
  rw [if_neg Bool.false_ne_true, Prog.exec_bind_of hprepare]
  dsimp only
  rw [Prog.exec_bind_of hsink]
  rfl

/-- **It leaves the file**, if what is there is the start of it. -/
theorem commits (h : rs.point.1 ≠ 0) (hsends : rs.Sends)
    (hstart : ∀ p, s.content (temporaryPath target) = some p → p <+: rs.content) :
    ((servePut cfg rs.request).exec disk (s, rs.messages)).2.2.1.content target =
      some rs.content := by
  obtain ⟨-, p, hp, hlength, hcrc⟩ := rs.found h
  have hpre := hstart p hp
  obtain ⟨id, hnames, rfl⟩ := Fs.content_eq_some_iff.1 hp
  have haccepted : Accepted (rs.transfer ⟨id, rs.point.1⟩) rs.messages := by
    refine (accepted_congr ?_ ?_ ?_ ?_ ?_).1 hsends.1 <;> rfl
  have hwhole : s.data id ++ rs.messages.flatMap (·.data) = rs.content := by
    rw [hsends.2, ← hlength]
    exact List.prefix_iff_eq_append.1 hpre
  have hreceive := receiveAll_exec haccepted rs.announced rs.small hnames rs.free rfl hlength.symm
    rfl hcrc.symm hwhole
  have hready : ((sendReady opPutReady rs.request.requestId (rs.transfer ⟨id, rs.point.1⟩).offset
      rs.request.totalSize rs.request.crc32).exec disk (s, rs.messages)).2 =
        (none, s, rs.messages) := rfl
  have hserve : ((servePut cfg rs.request).exec disk (s, rs.messages)).2.2 =
      ((receiveAll (rs.transfer ⟨id, rs.point.1⟩) target).exec disk (s, rs.messages)).2.2 := by
    unfold servePut
    rw [Prog.exec_bind_of (rs.exec_open h hnames)]
    dsimp only
    rw [Prog.exec_bind_of hready]
    -- the report changes nothing
    unfold receiveAll reportUpload
    rw [Prog.exec_bind, Prog.exec_bind]
    dsimp only
    rw [Prog.exec_bind]
    rfl
  rw [hserve]
  exact hreceive.2

end Resumption

/-- **An upload goes on with its own file.**  After any history of uploads to a path, each cut off
anywhere, `kfsw_ftp_partial_resume_point` finds the start of a file announced as what is wanted, and
an upload of that file that goes on there leaves it: if no upload goes on with another file of the
same size and checksum, and none is cut off between its note and the partial file of another. -/
theorem resume_continues (cfg : Config) (target : CString) {s u : Fs} {as : List Attempt}
    (hclean : s.names (temporaryPath target) = none) (hr : Run (Attempts cfg target) s as u)
    (hsame : ∀ before a, before ++ [a] <+: as → a.request.flags &&& flagResume ≠ 0 →
      ∀ b ∈ before, b.request.note = a.request.note → b.content = a.content)
    (hstrays : ∀ a ∈ as, ¬ a.Strays target) :
    (∀ wanted offset crc v, Prog.Ends FsStep (partialResumePoint target wanted) u (offset, crc) v →
      offset ≠ 0 → ∃ p, u.content (temporaryPath target) = some p ∧ p.length = offset ∧
        ∃ a ∈ as, a.request.note = wanted ∧ p <+: a.content) ∧
    ∀ rs : Resumption cfg target u, rs.point.1 ≠ 0 → rs.Sends →
      (∀ a ∈ as, a.request.note = rs.request.note → a.content = rs.content) →
        ((servePut cfg rs.request).exec disk (u, rs.messages)).2.2.1.content target =
          some rs.content := by
  have hcontinues := history_continues hr hclean hsame hstrays
  constructor
  · intro wanted offset crc v hend hne
    obtain ⟨hnoted, p, hp, rfl, -⟩ := found_of_ends hend hne
    exact ⟨p, hp, rfl, hcontinues wanted p hnoted hp (List.length_pos_iff.1 (Nat.pos_of_ne_zero hne))⟩
  · intro rs hne hsends hunchanged
    obtain ⟨hnoted, q, hq, hlength, -⟩ := rs.found hne
    refine rs.commits hne hsends fun p hp => ?_
    obtain rfl : q = p := Option.some_inj.1 (hq.symm.trans hp)
    have hpos : q ≠ [] := by
      rintro rfl
      exact hne hlength.symm
    obtain ⟨a, ha, hnote, hpre⟩ := hcontinues _ q hnoted hq hpos
    exact hunchanged a ha hnote ▸ hpre

/-- An upload that gets as far as its messages last. -/
def cutUpload (flags : UInt8) (bytes : List UInt8) (s : Fs) (inbox : List Message) : Attempt :=
  ⟨s, uploadRequest (.ofString "x") flags bytes, bytes,
    onDisk (servePut plainBuild (uploadRequest (.ofString "x") flags bytes)) s inbox⟩

/-- What it leaves. -/
def afterCut (flags : UInt8) (bytes : List UInt8) (s : Fs) (inbox : List Message) : Fs :=
  afterDisk (servePut plainBuild (uploadRequest (.ofString "x") flags bytes)) s inbox

theorem attempts_cutUpload {flags : UInt8} {bytes : List UInt8} {s : Fs} {inbox : List Message}
    (hresolved : resolveMessagePath plainBuild (uploadRequest (.ofString "x") flags bytes)
      false = .ok (.ofString "/kfsw/ftp/x")) (hsmall : bytes.length < 2 ^ 32)
    (hpieces : ∀ e ∈ (cutUpload flags bytes s inbox).events,
      honest (uploadRequest (.ofString "x") flags bytes) bytes e = true) :
    Attempts plainBuild (.ofString "/kfsw/ftp/x") s (cutUpload flags bytes s inbox)
      (afterCut flags bytes s inbox) :=
  ⟨rfl, hresolved, rfl, hsmall, hpieces, _, run_onDisk _ _ _⟩

/-- The upload of two bytes of which the first has come. -/
def halfUpload : Attempt := cutUpload 0 [65, 66] .empty [uploadData [65, 66] 0 1]

def halfUploaded : Fs := afterCut 0 [65, 66] .empty [uploadData [65, 66] 0 1]

theorem attempts_halfUpload :
    Attempts plainBuild (.ofString "/kfsw/ftp/x") .empty halfUpload halfUploaded :=
  attempts_cutUpload (by decide +kernel) (by decide) (by decide +kernel)

/-- The upload of the same two bytes, which goes on. -/
def restOfUpload : Resumption plainBuild (.ofString "/kfsw/ftp/x") halfUploaded where
  request := uploadRequest (.ofString "x") flagResume [65, 66]
  content := [65, 66]
  messages := [uploadData [65, 66] 1 1]
  resolved := by decide +kernel
  file := by decide +kernel
  announced := by decide +kernel
  small := by decide +kernel
  data := rfl
  status := rfl
  flags := by decide +kernel
  start := rfl
  free := by decide +kernel
  space := by decide +kernel

theorem resume_continues_half :
    (∃ p, halfUploaded.content (temporaryPath (.ofString "/kfsw/ftp/x")) = some p ∧
      p.length = 1 ∧ ∃ a ∈ [halfUpload], a.request.note = noteOf [65, 66] ∧ p <+: a.content) ∧
    ((servePut plainBuild restOfUpload.request).exec disk
      (halfUploaded, restOfUpload.messages)).2.2.1.content (.ofString "/kfsw/ftp/x") =
        some [65, 66] := by
  have hstrays : ∀ a ∈ [halfUpload], ¬ a.Strays (.ofString "/kfsw/ftp/x") := by
    rintro a ha ⟨hexposed, -⟩
    rw [List.mem_singleton.1 ha] at hexposed
    exact absurd hexposed (by decide +kernel)
  have hsame : ∀ before a, before ++ [a] <+: [halfUpload] → a.request.flags &&& flagResume ≠ 0 →
      ∀ b ∈ before, b.request.note = a.request.note → b.content = a.content := by
    intro before a hpre hflags
    have ha : a = halfUpload := List.mem_singleton.1 (hpre.subset (by simp))
    rw [ha] at hflags
    exact absurd hflags (by decide +kernel)
  have hpoint : restOfUpload.point = (1, 3554254475) := by decide +kernel
  obtain ⟨v, hend⟩ := restOfUpload.ends_point
  rw [hpoint] at hend
  obtain ⟨hfound, hcommits⟩ := resume_continues plainBuild (.ofString "/kfsw/ftp/x")
    (s := .empty) rfl (Run.single attempts_halfUpload) hsame hstrays
  refine ⟨hfound _ 1 _ _ hend one_ne_zero, hcommits restOfUpload ?_ ?_ ?_⟩
  · rw [hpoint]
    exact one_ne_zero
  · exact ⟨⟨by decide +kernel, trivial⟩, by decide +kernel⟩
  · rintro a ha -
    rw [List.mem_singleton.1 ha]
    rfl

/-- An upload that is cut off after some of its calls. -/
def resetUpload (n : ℕ) (flags : UInt8) (bytes : List UInt8) (s : Fs) : Attempt :=
  { cutUpload flags bytes s [] with events := (cutUpload flags bytes s []).events.take (n + 1) }

theorem attempts_resetUpload {n : ℕ} {flags : UInt8} {bytes : List UInt8} {s : Fs}
    {e : Event OpResult Fs} (he : (cutUpload flags bytes s []).events[n]? = some e)
    (hresolved : resolveMessagePath plainBuild (uploadRequest (.ofString "x") flags bytes)
      false = .ok (.ofString "/kfsw/ftp/x")) (hsmall : bytes.length < 2 ^ 32)
    (hpieces : ∀ e ∈ (resetUpload n flags bytes s).events,
      honest (uploadRequest (.ofString "x") flags bytes) bytes e = true) :
    Attempts plainBuild (.ofString "/kfsw/ftp/x") s (resetUpload n flags bytes s) e.after :=
  ⟨rfl, hresolved, rfl, hsmall, hpieces, run_take (run_onDisk _ _ _) he⟩

/-- The start of one file is found for another, whose upload has been cut off when its note had been
written. -/
theorem stray_partial_found : ¬ ∀ (cfg : Config) (target : CString) (s u : Fs) (as : List Attempt),
    s.names (temporaryPath target) = none → Run (Attempts cfg target) s as u →
      ∀ wanted offset crc v, Prog.Ends FsStep (partialResumePoint target wanted) u (offset, crc) v →
        offset ≠ 0 → ∃ p, u.content (temporaryPath target) = some p ∧ p.length = offset ∧
          ∃ a ∈ as, a.request.note = wanted ∧ p <+: a.content := by
  intro h
  obtain ⟨e, he⟩ : ∃ e, (cutUpload 0 [67, 68, 69] halfUploaded []).events[3]? = some e :=
    Option.isSome_iff_exists.1 (by decide +kernel)
  have hstray := attempts_resetUpload he (by decide +kernel) (by decide) (by decide +kernel)
  have hpart : ((cutUpload 0 [67, 68, 69] halfUploaded []).events[3]?.map fun e =>
      e.after.content (temporaryPath (.ofString "/kfsw/ftp/x"))) = some (some [65]) := by
    decide +kernel
  have hpoint : ((cutUpload 0 [67, 68, 69] halfUploaded []).events[3]?.map fun e =>
      ((partialResumePoint (.ofString "/kfsw/ftp/x") (noteOf [67, 68, 69])).exec disk
        (e.after, [])).2.1) = some (1, 3554254475) := by decide +kernel
  rw [he, Option.map_some, Option.some_inj] at hpart hpoint
  have hrun := (Run.single attempts_halfUpload).snoc hstray
  have hend := run_onDisk (partialResumePoint (.ofString "/kfsw/ftp/x")
    (noteOf [67, 68, 69])) e.after []
  rw [hpoint] at hend
  obtain ⟨p, hp, -, a, ha, hnote, hpre⟩ := h _ _ _ _ _ rfl hrun _ _ _ _ ⟨_, hend⟩ one_ne_zero
  rw [hpart, Option.some_inj] at hp
  rw [← hp] at hpre
  rcases List.mem_pair.1 ha with rfl | rfl
  · exact absurd hnote (by decide +kernel)
  · exact absurd hpre (by decide +kernel)

end KfswServices.Ftp
