/-
# The read-only roots

Which operations write below a root that is not writable.  The names a call writes to are those it
opens, renames, unlinks or makes.  None of them is below a read-only root, whatever is asked of a
node and whatever happens on the way, except in one case: a download takes its local path without
asking whether it may be written (`operation_spares_iff`).
-/

import KfswServices.Ftp.Uploads

namespace KfswServices.Ftp

open Library

/-- The names a call writes to. -/
def Op.writesTo : Op → List CString
  | .fsOpen p mode => if mode = .READ then [] else [p]
  | .fsRename source target => [source, target]
  | .fsUnlink p | .fsMkdir p => [p]
  | _ => []

/-- The name is a root, or lies under it. -/
def Below (root p : CString) : Prop := p = root ∨ (root.bytes ++ [slash]) <+: p.bytes

/-- The name lies under a root that is not writable. -/
def ReadOnlyName (cfg : Config) (p : CString) : Prop :=
  ∃ root ∈ extraRoots cfg, root.writable = false ∧ Below root.path p

/-- The call writes to no such name. -/
def Spares (cfg : Config) (o : Op) : Prop := ∀ p ∈ o.writesTo, ¬ ReadOnlyName cfg p

/-- What holds of every build: the margin is an `int`, and the temporary mount is a volume of its
own, apart from the read-only ones. -/
structure Build (cfg : Config) : Prop where
  margin : cfg.spaceMargin < 2 ^ 64
  apart : ∀ mount, cfg.tmp = some mount → ∀ root ∈ extraRoots cfg, root.writable = false →
    ¬ (mount.bytes ++ [slash]) <+: (root.path.bytes ++ [slash]) ∧
      ¬ (root.path.bytes ++ [slash]) <+: (mount.bytes ++ [slash])

/-! ### Names below the roots -/

variable {cfg : Config}

/-- The roots that may be written are apart from those that may not. -/
theorem roots_apart (hbuild : Build cfg) {root readOnly : Root} (hroot : root ∈ roots cfg)
    (hwritable : root.writable = true) (hreadOnly : readOnly ∈ extraRoots cfg)
    (hnot : readOnly.writable = false) :
    ¬ (root.path.bytes ++ [slash]) <+: (readOnly.path.bytes ++ [slash]) ∧
      ¬ (readOnly.path.bytes ++ [slash]) <+: (root.path.bytes ++ [slash]) := by
  rcases List.mem_cons.1 hroot with rfl | hextra
  · simp only [extraRoots, List.mem_append, List.mem_cons, List.not_mem_nil, or_false] at hreadOnly
    rcases hreadOnly with (rfl | rfl) | htmp
    · decide
    · decide
    · rcases htmpdef : cfg.tmp with _ | mount
      · simp [htmpdef] at htmp
      · simp only [htmpdef, Option.map_some, Option.toList_some, List.mem_singleton] at htmp
        subst htmp
        cases hnot
  · simp only [extraRoots, List.mem_append, List.mem_cons, List.not_mem_nil, or_false] at hextra
    rcases hextra with (rfl | rfl) | htmp
    · cases hwritable
    · cases hwritable
    · rcases htmpdef : cfg.tmp with _ | mount
      · simp [htmpdef] at htmp
      · simp only [htmpdef, Option.map_some, Option.toList_some, List.mem_singleton] at htmp
        subst htmp
        exact hbuild.apart mount htmpdef readOnly hreadOnly hnot

/-- A name under a root that may be written lies under no other. -/
theorem not_readOnlyName (hbuild : Build cfg) {root : Root} {p : CString}
    (hroot : root ∈ roots cfg) (hwritable : root.writable = true)
    (hp : (root.path.bytes ++ [slash]) <+: p.bytes) : ¬ ReadOnlyName cfg p := by
  rintro ⟨readOnly, hreadOnly, hnot, hbelow⟩
  obtain ⟨h, h'⟩ := roots_apart hbuild hroot hwritable hreadOnly hnot
  rcases hbelow with rfl | hbelow
  · exact h (hp.trans (List.prefix_append _ _))
  · rcases List.prefix_or_prefix_of_prefix hp hbelow with hpre | hpre
    · exact h hpre
    · exact h' hpre

variable {resolved : CString}

/-- What a path resolves to lies under the root it selects. -/
theorem below_of_resolve {virtualPath : CString} {size : ℕ}
    (h : resolvePath cfg virtualPath false size = .ok resolved) :
    ((select cfg virtualPath).1.path.bytes ++ [slash]) <+: resolved.bytes := by
  obtain ⟨-, ⟨-, habs, -⟩ | ⟨-, -, hname, -⟩⟩ := resolvePath_eq_ok_iff.1 h
  · cases habs
  · rw [hname]
    exact List.prefix_append _ _

/-- **What a path that is not read-only resolves to**, and what starts with it, may be written. -/
theorem spares_resolved (hbuild : Build cfg) {virtualPath p : CString} {size : ℕ}
    (h : resolvePath cfg virtualPath false size = .ok resolved)
    (hreadOnly : pathIsReadOnly cfg virtualPath = false) (hp : resolved.bytes <+: p.bytes) :
    ¬ ReadOnlyName cfg p := by
  obtain ⟨hroot, hwritable⟩ := select_root cfg virtualPath
  refine not_readOnlyName hbuild hroot ?_ ((below_of_resolve h).trans hp)
  by_contra hnot
  rw [hwritable.1 (Bool.not_eq_true _ ▸ hnot)] at hreadOnly
  cases hreadOnly

/-- What a read-only path resolves to may not. -/
theorem readOnlyName_of_resolve {virtualPath p : CString} {size : ℕ}
    (h : resolvePath cfg virtualPath false size = .ok resolved)
    (hreadOnly : pathIsReadOnly cfg virtualPath = true) (hp : resolved.bytes <+: p.bytes) :
    ReadOnlyName cfg p := by
  obtain ⟨hroot, hwritable⟩ := select_root cfg virtualPath
  have hnot := hwritable.2 hreadOnly
  rcases List.mem_cons.1 hroot with heq | hextra
  · rw [heq] at hnot
    cases hnot
  · exact ⟨_, hextra, hnot, Or.inr ((below_of_resolve h).trans hp)⟩

/-! ### Operations that write no file -/

theorem LooksOnly.readsOnly {α : Type} {p : Program α} {Q : α → Prop} (h : LooksOnly p Q) :
    ReadsOnly p fun _ => True :=
  (h.mono fun _ => Op.readOnly_of_looks).post fun _ _ => trivial

section

variable {γ : Type} {visitor : Visitor γ}
  (hvisitor : ∀ entry context, ReadsOnly (visitor entry context) fun _ => True)

include hvisitor

theorem readsOnly_listRoots {rs : List Root} {context : γ} :
    ReadsOnly (listRoots visitor rs context) fun _ => True := by
  induction rs generalizing context with
  | nil => trivial
  | cons root rest ih =>
    refine (readsOnly_perform rfl).bind ?_
    rintro (e | type) -
    · exact ih
    refine (hvisitor _ _).bind ?_
    rintro ⟨_ | _, context'⟩ -
    · trivial
    · exact ih

theorem readsOnly_localListLoop {turns : ℕ} {dir : Dir} {context : γ} :
    ReadsOnly (localListLoop visitor turns dir context) fun _ => True := by
  induction turns generalizing dir context with
  | zero => trivial
  | succ turns ih =>
    refine (readsOnly_perform rfl).bind ?_
    rintro (e | ⟨_ | entry, dir'⟩) -
    · trivial
    · trivial
    dsimp only
    split_ifs
    · trivial
    · trivial
    all_goals
      refine (hvisitor _ _).bind ?_
      rintro ⟨_ | _, context'⟩ -
      · trivial
      · exact ih

theorem readsOnly_localList {turns : ℕ} {path : CString} {context : γ} :
    ReadsOnly (localList cfg turns path visitor context) fun _ => True := by
  unfold localList
  rcases resolvePath cfg path true fullPathSize with e | resolved
  · trivial
  refine (readsOnly_perform rfl).bind ?_
  rintro (e | dir) -
  · trivial
  refine (readsOnly_localListLoop hvisitor).bind ?_
  rintro ⟨result, visiting, context'⟩ -
  refine (readsOnly_perform rfl).bind ?_
  intro closed _
  dsimp only
  split_ifs
  · trivial
  · exact (readsOnly_listRoots hvisitor).bind fun _ _ => trivial
  · trivial

end

variable {request : Message}

theorem readsOnly_serveStat : ReadsOnly (serveStat cfg request) fun _ => True := by
  unfold serveStat
  rcases copyRequestPath request with e | path
  · exact readsOnly_perform rfl
  · exact looksOnly_localStat.readsOnly.bind fun _ _ => readsOnly_perform rfl

theorem readsOnly_serveList {turns : ℕ} :
    ReadsOnly (serveList cfg turns request) fun _ => True := by
  unfold serveList
  rcases copyRequestPath request with e | path
  · exact readsOnly_perform rfl
  · refine Calls.bind (readsOnly_localList ?_) fun _ _ => readsOnly_perform rfl
    exact fun entry context => (readsOnly_perform rfl).bind fun _ _ => trivial

theorem readsOnly_transferOpenSource {t : Transfer} {path : CString} :
    ReadsOnly (transferOpenSource t path) fun _ => True := by
  refine (readsOnly_perform rfl).bind ?_
  rintro (e | file) -
  · trivial
  dsimp only
  split_ifs
  · trivial
  · refine (readsOnly_perform rfl).bind ?_
    rintro (e | file') -
    · exact (readsOnly_perform rfl).bind fun _ _ => trivial
    · trivial

variable {chunk : ℕ}

theorem readsOnly_transferSendLoop {turns : ℕ} {t : Transfer} :
    ReadsOnly (transferSendLoop chunk turns t) fun _ => True := by
  induction turns generalizing t with
  | zero => trivial
  | succ turns ih =>
    unfold transferSendLoop
    split_ifs with hmore
    · refine (readsOnly_perform rfl).bind ?_
      rintro (e | ⟨bytes, file⟩) -
      · trivial
      dsimp only
      split_ifs
      · trivial
      · refine (readsOnly_perform rfl).bind ?_
        rintro (_ | e) -
        · exact ih
        · trivial
    · trivial

theorem readsOnly_transferSend {turns : ℕ} {t : Transfer} :
    ReadsOnly (transferSend chunk turns t) fun _ => True :=
  readsOnly_transferSendLoop.bind fun _ _ => (readsOnly_perform rfl).bind fun _ _ => trivial

theorem readsOnly_openDownload : ReadsOnly (openDownload cfg request) fun _ => True := by
  unfold openDownload
  rcases resolveMessagePath cfg request false with e | path
  · split_ifs <;> trivial
  split_ifs
  · trivial
  refine (readsOnly_perform rfl).bind ?_
  rintro (e | _ | _) -
  · trivial
  · refine looksOnly_fileCrc.readsOnly.bind ?_
    rintro (e | sums) -
    · trivial
    · exact readsOnly_transferOpenSource
  · trivial

theorem readsOnly_serveGet {turns : ℕ} :
    ReadsOnly (serveGet cfg chunk turns request) fun _ => True := by
  refine readsOnly_openDownload.bind ?_
  rintro (e | t) -
  · exact readsOnly_sendStatus
  refine (readsOnly_perform rfl).bind ?_
  rintro (_ | e) -
  · exact readsOnly_transferSend.bind fun _ _ => readsOnly_sendStatus
  · exact (readsOnly_perform rfl).bind fun _ _ => readsOnly_sendStatus

variable {requestId : UInt32}

theorem readsOnly_receiveResponse {opcode : UInt8} :
    ReadsOnly (receiveResponse opcode requestId) fun _ => True := by
  refine (readsOnly_perform rfl).bind ?_
  rintro (e | m) -
  · trivial
  dsimp only
  rcases wireStatusToErrno m.status with _ | e <;> split_ifs <;> trivial

variable {st : Station} {node : UInt16}

theorem readsOnly_simplePathRequest {path : CString} {allowRoot : Bool}
    {requestOpcode responseOpcode : UInt8} :
    ReadsOnly (simplePathRequest cfg st node path allowRoot requestOpcode responseOpcode requestId)
      fun _ => True := by
  unfold simplePathRequest
  rcases validateClient st node with _ | e
  · rcases validateVirtualPath cfg path allowRoot with e | resolved
    · trivial
    refine (readsOnly_perform rfl).bind ?_
    rintro (_ | e) -
    · refine (readsOnly_perform rfl).bind ?_
      rintro (_ | e) -
      · exact readsOnly_receiveResponse
      · trivial
    · trivial
  · trivial

theorem readsOnly_awaitPutReady {totalSize : UInt32} :
    ReadsOnly (awaitPutReady requestId totalSize) fun _ => True := by
  refine (readsOnly_perform rfl).bind ?_
  rintro (e | m) -
  · trivial
  dsimp only
  rcases wireStatusToErrno m.status with _ | e
  · dsimp only
    split_ifs <;> trivial
  · split_ifs <;> trivial

theorem readsOnly_awaitTransferResult {opcode : UInt8} {t : Transfer} :
    ReadsOnly (awaitTransferResult opcode t) fun _ => True := by
  refine readsOnly_receiveResponse.bind ?_
  rintro (e | m) -
  · trivial
  dsimp only
  split_ifs <;> trivial

variable {localPath remotePath : CString}

theorem readsOnly_prepareUpload :
    ReadsOnly (prepareUpload cfg localPath remotePath) fun _ => True := by
  unfold prepareUpload
  rcases validateVirtualPath cfg localPath false with e | path
  · trivial
  rcases validateVirtualPath cfg remotePath false with e | remote
  · trivial
  refine looksOnly_fileCrc.readsOnly.bind ?_
  rintro (e | sums) - <;> trivial

theorem readsOnly_put {turns : ℕ} :
    ReadsOnly (put cfg st chunk turns node localPath remotePath requestId) fun _ => True := by
  unfold put
  split_ifs
  · trivial
  rcases validateClient st node with _ | e
  swap
  · trivial
  refine readsOnly_prepareUpload.bind ?_
  rintro (e | ⟨path, size, crc⟩) -
  · trivial
  refine (readsOnly_perform rfl).bind ?_
  rintro (_ | e) -
  swap
  · trivial
  refine (readsOnly_perform rfl).bind ?_
  rintro (_ | e) -
  swap
  · trivial
  refine readsOnly_awaitPutReady.bind ?_
  rintro (e | offset) -
  · trivial
  refine readsOnly_transferOpenSource.bind ?_
  rintro (e | t) -
  · trivial
  refine readsOnly_transferSend.bind ?_
  rintro ⟨_ | e, t'⟩ -
  · exact readsOnly_awaitTransferResult
  · trivial

/-! ### Operations that write -/

/-- The calls of a program, from a state on, spare the read-only names. -/
abbrev Sparing {α : Type} (cfg : Config) (p : Program α) (s : Fs) : Prop :=
  Ensures FsStep (fun s u => u = s) (fun o _ _ _ => Spares cfg o) p (fun _ _ => True) s

variable {s : Fs}

theorem ReadsOnly.sparing {α : Type} {p : Program α} {Q : α → Prop} (h : ReadsOnly p Q) :
    Sparing cfg p s := by
  refine (Calls.ensures h).mono (fun _ _ hs => hs) (fun o _ _ _ ho => ?_) fun _ _ _ => trivial
  cases o with
  | fsOpen p mode =>
    obtain rfl : mode = .READ := of_decide_eq_true ho
    simp [Spares, Op.writesTo]
  | fsWrite file data => cases ho
  | fsRename source target => cases ho
  | fsUnlink p => cases ho
  | fsMkdir p => cases ho
  | _ => simp [Spares, Op.writesTo]

/-- A receiving side writes to its target, its partial file and its note. -/
theorem Receives.sparing {α : Type} {side : Side} {p : Program α} {Q : α → Fs × Ledger → Prop}
    {l : Ledger} (hside : ∀ p, side.target.bytes <+: p.bytes → ¬ ReadOnlyName cfg p)
    (h : Receives side True p Q (s, l)) : Sparing cfg p s := by
  have hpart : ¬ ReadOnlyName cfg (temporaryPath side.target) :=
    hside _ (List.prefix_append _ _)
  have hnote : ¬ ReadOnlyName cfg (notePath side.target) :=
    hside _ ((List.prefix_append _ _).trans (List.prefix_append _ _))
  have hforget : Ensures FsStep (fun s u => u = s) (fun o _ _ _ => Spares cfg o) p _ s :=
    Ensures.forget (f := Prod.fst) (Rely.refl _ _)
      (fun o x r t hstep => ⟨(t, x.2.call side.target o r), rfl, hstep, rfl⟩) ?_ h
  · exact hforget.post fun _ _ _ => trivial
  intro o x r x' hg
  cases o with
  | fsOpen p mode =>
    intro q hq
    simp only [Op.writesTo] at hq
    split_ifs at hq with hmode
    · cases hq
    · obtain rfl := List.mem_singleton.1 hq
      rcases hg with h | ⟨rfl, -⟩ | ⟨rfl, -⟩
      · exact absurd h hmode
      · exact hnote
      · exact hpart
  | fsRename source target =>
    obtain ⟨rfl, rfl, -⟩ := hg
    intro q hq
    rcases List.mem_pair.1 hq with rfl | rfl
    · exact hpart
    · exact hside _ (List.prefix_refl _)
  | fsUnlink p =>
    intro q hq
    obtain rfl := List.mem_singleton.1 hq
    rcases hg with rfl | rfl
    · exact hpart
    · exact hnote
  | fsMkdir p => exact hg.elim
  | _ => simp [Spares, Op.writesTo]

section

variable (hbuild : Build cfg)
include hbuild

theorem sparing_localMkdir {path : CString} : Sparing cfg (localMkdir cfg path) s := by
  unfold localMkdir resolveWritePath
  split_ifs with hreadOnly
  · trivial
  rcases hresolved : resolvePath cfg path false fullPathSize with e | resolved
  · trivial
  rintro _ rfl r s' -
  refine ⟨fun p hp => ?_, trivial⟩
  obtain rfl := List.mem_singleton.1 hp
  exact spares_resolved hbuild hresolved (Bool.not_eq_true _ ▸ hreadOnly) (List.prefix_refl _)

theorem sparing_mkdir {path : CString} : Sparing cfg (mkdir cfg st node path requestId) s := by
  unfold mkdir
  split_ifs
  · rcases validateLocal st with _ | e
    · exact sparing_localMkdir hbuild
    · trivial
  · refine ReadsOnly.sparing (Q := fun _ => True) (readsOnly_simplePathRequest.bind fun _ _ => ?_)
    trivial

theorem sparing_serveMkdir : Sparing cfg (serveMkdir cfg request) s := by
  unfold serveMkdir
  rcases copyRequestPath request with e | path
  · exact readsOnly_sendStatus.sparing
  · exact (sparing_localMkdir hbuild).bind fun _ _ _ => readsOnly_sendStatus.sparing

/-- An upload whose path is not read-only. -/
theorem sparing_servePut (h : ∀ path, copyMessagePath request (maxPathSize + 1) = .ok path →
      pathIsReadOnly cfg path = false) : Sparing cfg (servePut cfg request) s := by
  rcases htarget : uploadTarget cfg request with _ | target
  · exact (readsOnly_servePut htarget).sparing
  · obtain ⟨hresolved, hfirmware⟩ := uploadTarget_eq_some htarget
    have hreceives : Receives (uploadSide target request) True (servePut cfg request)
        (fun _ _ => True) (s, Ledger.start (some request.note)) :=
      receives_servePut hresolved hfirmware ⟨rfl, rfl⟩
    refine hreceives.sparing fun p hp => ?_
    unfold resolveMessagePath at hresolved
    rcases hpath : copyMessagePath request (maxPathSize + 1) with e | path
    · rw [hpath] at hresolved
      cases hresolved
    · rw [hpath] at hresolved
      exact spares_resolved hbuild hresolved (h path hpath) hp

theorem sparing_serveMessage {turns : ℕ} :
    Sparing cfg (serveMessage cfg chunk turns request) s := by
  unfold serveMessage
  split_ifs with hreadOnly hmkdir hlist hstat hput hget
  · exact readsOnly_sendStatus.sparing
  · exact sparing_serveMkdir hbuild
  · exact readsOnly_serveList.sparing
  · exact readsOnly_serveStat.sparing
  · refine sparing_servePut hbuild fun path hpath => ?_
    simp only [requestIsReadOnly, hput, hpath, Bool.and_eq_true, not_and, Bool.not_eq_true] at hreadOnly
    exact hreadOnly (by decide)
  · exact readsOnly_serveGet.sparing
  · exact readsOnly_sendStatus.sparing

theorem sparing_serveConnection {turns : ℕ} : Sparing cfg (serveConnection cfg chunk turns) s := by
  rintro _ rfl r s' -
  refine ⟨by simp [Spares, Op.writesTo], ?_⟩
  rcases r with e | request
  · exact readsOnly_sendStatus.sparing
  · exact sparing_serveMessage hbuild

end

/-! ### Downloads -/

/-- What is selected below a root is no longer than the path. -/
theorem length_select_le (cfg : Config) (path : CString) :
    (select cfg path).2.length ≤ path.length := by
  have hdrop : ∀ bytes, (dropSlash bytes).length ≤ bytes.length := by
    intro bytes
    unfold dropSlash
    split_ifs
    · rw [List.length_tail]
      omega
    · exact le_rfl
  unfold select
  rcases extraRoot cfg path with _ | root
  · exact hdrop _
  · refine (hdrop _).trans ?_
    rw [List.length_drop]
    have := hdrop path.bytes
    show _ ≤ path.bytes.length
    omega

/-- A read-only path leaves room for the names beside it. -/
theorem makeNotePath_readOnly {path : CString}
    (h : resolvePath cfg path false fullPathSize = .ok resolved)
    (hreadOnly : pathIsReadOnly cfg path = true) :
    makeTemporaryPath resolved fullPathSize = .ok (temporaryPath resolved) ∧
      makeNotePath resolved fullPathSize = .ok (notePath resolved) := by
  have hpart : (CString.ofString ".part").bytes.length = 5 := by decide
  have hsep : (CString.ofString "/").bytes.length = 1 := by decide
  have hroot : (select cfg path).1.path.length ≤ 10 := by
    obtain ⟨hroot, hwritable⟩ := select_root cfg path
    have hnot := hwritable.2 hreadOnly
    simp only [roots, extraRoots, List.mem_cons, List.mem_append, List.not_mem_nil, or_false] at hroot
    rcases hroot with hroot | (hroot | hroot) | hroot
    · rw [hroot] at hnot
      cases hnot
    · rw [hroot]
      decide
    · rw [hroot]
      decide
    · rcases htmp : cfg.tmp with _ | mount
      · simp [htmp] at hroot
      · simp only [htmp, Option.map_some, Option.toList_some, List.mem_singleton] at hroot
        rw [hroot] at hnot
        cases hnot
  have hresolved : resolved.length ≤ 107 := by
    obtain ⟨hlength, ⟨-, habs, -⟩ | ⟨-, -, rfl, -⟩⟩ := resolvePath_eq_ok_iff.1 h
    · cases habs
    have hselect := length_select_le cfg path
    unfold join CString.length
    show ((_ ++ _) ++ (select cfg path).2 : List UInt8).length ≤ _
    rw [List.length_append, List.length_append, hsep]
    unfold CString.length at hroot
    simp only [maxPathSize] at hlength
    omega
  have htemporary : (temporaryPath resolved).length = resolved.length + 5 := by
    rw [← hpart]
    exact List.length_append
  have hmake : makeTemporaryPath resolved fullPathSize = .ok (temporaryPath resolved) := by
    rw [makeTemporaryPath, if_neg (by simp only [fullPathSize]; omega)]
  refine ⟨hmake, ?_⟩
  rw [makeNotePath, hmake]
  dsimp only
  rw [if_neg (by simp only [fullPathSize]; omega)]

/-- A store that refuses to open anything, and a peer that has an empty file to send. -/
def refusing (requestId : UInt32) : (o : Op) → Fs → OpResult o × Fs
  | .fsStat _, s => (.error .ENOENT, s)
  | .fsStatvfs _, s => (.ok ⟨2 ^ 64 - 1, 1⟩, s)
  | .fsOpen _ _, s => (.error Errno.EIO, s)
  | .fsRead _ _, s => (.error Errno.EIO, s)
  | .fsSeek _ _, s => (.error Errno.EIO, s)
  | .fsWrite _ _, s => (.error Errno.EIO, s)
  | .fsOpendir _, s => (.error Errno.EIO, s)
  | .fsReaddir _, s => (.error Errno.EIO, s)
  | .linkReceive, s => (.ok (.plain opGetInfo statusOk requestId), s)
  | .fsRename _ _, s | .fsUnlink _, s | .fsMkdir _, s => (some Errno.EIO, s)
  | .fsSync _, s | .fsClose _, s | .fsClosedir _, s | .linkConnect _, s | .linkSend _, s
  | .fwuBegin _ _, s | .fwuWrite _ _, s | .fwuFinish, s | .fwuAbort, s => (none, s)

theorem refusing_step (requestId : UInt32) (o : Op) (s : Fs) :
    FsStep o s (refusing requestId o s).1 (refusing requestId o s).2 := by
  cases o with
  | fsStat p => exact ⟨rfl, by rintro _ ⟨⟩⟩
  | fsRead file size => exact ⟨rfl, by rintro _ _ ⟨⟩⟩
  | fsSeek file offset => exact ⟨rfl, by rintro _ ⟨⟩⟩
  | fsWrite file data => exact ⟨0, by rw [List.take_zero, Fs.writeData, if_pos rfl]; rfl⟩
  | _ => rfl

/-- **A download to a read-only path** opens the note beside it to write it. -/
theorem get_writes (hbuild : Build cfg) {remote target : CString} (s : Fs)
    (hnode : node ≠ st.localNode) (hclient : validateClient st node = none)
    (hremote : resolvePath cfg remotePath false fullPathSize = .ok remote)
    (hlocal : resolvePath cfg localPath false fullPathSize = .ok target)
    (hreadOnly : pathIsReadOnly cfg localPath = true) :
    ∃ e ∈ ((get cfg st node remotePath localPath requestId).exec (refusing requestId) s).1,
      notePath target ∈ e.op.writesTo := by
  obtain ⟨htemporary, hnote⟩ := makeNotePath_readOnly hlocal hreadOnly
  have hdownload : ((prepareDownload cfg remotePath localPath).exec (refusing requestId) s).2 =
      (.ok (target, ⟨0, 0⟩, 0, 0), s) := by
    unfold prepareDownload validateVirtualPath
    rw [hremote, hlocal]
    dsimp only
    rw [Prog.exec_bind]
    simp only [htemporary, partialNoteRead, hnote]
    rfl
  have hinfo : ((awaitGetInfo requestId 0).exec (refusing requestId) s).2 =
      (.ok (⟨0, 0⟩, 0), s) := by
    unfold awaitGetInfo
    rw [Prog.exec_bind]
    show (Prog.exec _ (if (requestId ≠ requestId ∨ opGetInfo ≠ opGetInfo ∧
      opGetInfo ≠ opGetResult) then _ else _) s).2 = _
    rw [if_neg (by simp)]
    rfl
  have hspace : ((checkSpace cfg target (((0 : UInt32) - UInt32.ofNat 0).toNat)).exec
      (refusing requestId) s).2 = (none, s) := by
    have hmargin := hbuild.margin
    unfold checkSpace
    rw [Prog.exec_bind]
    show (Prog.exec _ (if (2 ^ 64 - 1) * 1 % 2 ^ 64 < 0 + cfg.spaceMargin then _ else _) s).2 = _
    rw [if_neg (by omega)]
    rfl
  have hopen : ∃ e ∈ ((openPartial cfg target ⟨requestId, 0, 0, 0, 0, opGetData, false, ⟨0, 0⟩⟩
      0).exec (refusing requestId) s).1, notePath target ∈ e.op.writesTo := by
    refine ⟨⟨.fsOpen (notePath target) .CREATE_TRUNC, s, .error Errno.EIO, s⟩, ?_, by
      simp [Op.writesTo]⟩
    unfold openPartial
    rw [Prog.exec_bind]
    refine List.mem_append_right _ ?_
    rw [hspace]
    dsimp only
    rw [Prog.exec_bind]
    refine List.mem_append_left _ ?_
    unfold preparePartial
    rw [if_neg (fun habs => absurd rfl habs), Prog.exec_bind]
    refine List.mem_append_left _ ?_
    unfold partialNoteWrite
    rw [hnote]
    exact List.mem_cons_self
  unfold get
  rw [if_neg hnode, hclient]
  dsimp only
  rw [Prog.exec_bind, hdownload]
  obtain ⟨e, he, hwrites⟩ := hopen
  refine ⟨e, List.mem_append_right _ ?_, hwrites⟩
  -- the connection, the request and the reply
  dsimp only
  rw [Prog.exec_bind, Prog.exec_perform]
  refine List.mem_append_right _ ?_
  dsimp only [refusing]
  rw [Prog.exec_bind, Prog.exec_perform]
  refine List.mem_append_right _ ?_
  dsimp only [refusing]
  rw [Prog.exec_bind, hinfo]
  refine List.mem_append_right _ ?_
  dsimp only
  rw [Prog.exec_bind]
  exact List.mem_append_left _ he

/-! ### What may be asked of a node -/

/-- What is asked of a node: by its own client functions, or by whatever comes over a connection. -/
inductive Operation
  | mkdir (node : UInt16) (path : CString)
  | put (node : UInt16) (localPath remotePath : CString)
  | get (node : UInt16) (remotePath localPath : CString)
  | serve

/-- What the node does. -/
def Operation.program (cfg : Config) (st : Station) (chunk turns : ℕ) (requestId : UInt32) :
    Operation → Program (Option Errno)
  | mkdir node path => Ftp.mkdir cfg st node path requestId
  | put node localPath remotePath => Ftp.put cfg st chunk turns node localPath remotePath requestId
  | get node remotePath localPath => Ftp.get cfg st node remotePath localPath requestId
  | serve => serveConnection cfg chunk turns

/-- A download, from another node and with paths that resolve, to a read-only path. -/
def Operation.Offends (cfg : Config) (st : Station) : Operation → Prop
  | get node remotePath localPath =>
    (node ≠ st.localNode ∧ validateClient st node = none) ∧
      (∃ remote, resolvePath cfg remotePath false fullPathSize = .ok remote) ∧
        (∃ target, resolvePath cfg localPath false fullPathSize = .ok target) ∧
          pathIsReadOnly cfg localPath = true
  | _ => False

/-- A download that gets nowhere, or one to a path that may be written. -/
theorem sparing_get (hbuild : Build cfg)
    (h : ¬ (Operation.get node remotePath localPath).Offends cfg st) :
    Sparing cfg (get cfg st node remotePath localPath requestId) s := by
  by_cases hnode : node = st.localNode
  · unfold get
    rw [if_pos hnode]
    trivial
  rcases hclient : validateClient st node with _ | e
  swap
  · unfold get
    rw [if_neg hnode, hclient]
    trivial
  rcases hremote : resolvePath cfg remotePath false fullPathSize with e | remote
  · unfold get prepareDownload validateVirtualPath
    rw [if_neg hnode, hclient, hremote]
    trivial
  rcases hlocal : resolvePath cfg localPath false fullPathSize with e | target
  · unfold get prepareDownload validateVirtualPath
    rw [if_neg hnode, hclient, hremote, hlocal]
    trivial
  have hwritable : pathIsReadOnly cfg localPath = false := by
    by_contra hreadOnly
    exact h ⟨⟨hnode, hclient⟩, ⟨remote, hremote⟩, ⟨target, hlocal⟩, Bool.not_eq_false _ ▸ hreadOnly⟩
  have hreceives : Receives (downloadSide target requestId) True
      (get cfg st node remotePath localPath requestId) (fun r x' => Reported r x')
      (s, Ledger.start none) := receives_get hlocal ⟨rfl, rfl⟩
  exact hreceives.sparing fun p hp => spares_resolved hbuild hlocal hwritable hp

/-- **The read-only roots stay read-only** under every operation but one: whatever happens on the
way, no call writes to a name below a root that is not writable, exactly if the operation is not a
download to such a name. -/
theorem operation_spares_iff (cfg : Config) (hbuild : Build cfg) (st : Station) (chunk turns : ℕ)
    (requestId : UInt32) (operation : Operation) :
    (∀ s es q u, Run (Prog.Step FsStep) (operation.program cfg st chunk turns requestId, s) es
      (q, u) → ∀ e ∈ es, Spares cfg e.op) ↔ ¬ operation.Offends cfg st := by
  constructor
  · rintro h hoffends
    cases operation with
    | get node remotePath localPath =>
      obtain ⟨⟨hnode, hclient⟩, ⟨remote, hremote⟩, ⟨target, hlocal⟩, hreadOnly⟩ := hoffends
      obtain ⟨e, he, hwrites⟩ : ∃ e ∈ ((Ftp.get cfg st node remotePath localPath requestId).exec
          (refusing requestId) .empty).1, notePath target ∈ e.op.writesTo :=
        get_writes hbuild .empty hnode hclient hremote hlocal hreadOnly
      have hrun := Prog.exec_run (f := id) (refusing_step requestId)
        (get cfg st node remotePath localPath requestId) .empty
      refine h _ _ _ _ hrun _ (List.mem_map_of_mem he) _ hwrites ?_
      exact readOnlyName_of_resolve hlocal hreadOnly
        ((List.prefix_append _ _).trans (List.prefix_append _ _))
    | _ => exact hoffends
  · intro h s es q u hr e he
    have hsparing : Sparing cfg (operation.program cfg st chunk turns requestId) s := by
      cases operation with
      | mkdir node path => exact sparing_mkdir hbuild
      | put node localPath remotePath => exact readsOnly_put.sparing
      | get node remotePath localPath => exact sparing_get hbuild h
      | serve => exact sparing_serveConnection hbuild
    obtain ⟨before, after, rfl⟩ := List.append_of_mem he
    exact ((Ensures.run (fun _ s => s) (by intro s; rfl) (fun _ _ _ _ _ hstep => hstep)
      hsparing hr).1 before e (by simp)).2

/-- A build with nothing to be said about it. -/
theorem build_plain : Build plainBuild :=
  ⟨by decide, by rintro mount ⟨⟩⟩

/-- A download to the root of the transfers is fine, and one to the housekeeping files is not. -/
theorem operation_spares_ftp :
    (∀ s es q u, Run (Prog.Step FsStep) ((Operation.get 2 (.ofString "y")
      (.ofString "x")).program plainBuild station 192 10 1, s) es (q, u) →
        ∀ e ∈ es, Spares plainBuild e.op) ∧
      ¬ ∀ s es q u, Run (Prog.Step FsStep) ((Operation.get 2 (.ofString "y")
        (.ofString "hk/x")).program plainBuild station 192 10 1, s) es (q, u) →
          ∀ e ∈ es, Spares plainBuild e.op :=
  ⟨(operation_spares_iff plainBuild build_plain station 192 10 1 (.get 2 (.ofString "y")
      (.ofString "x"))).2 fun h => absurd h.2.2.2 (by decide),
    fun h => (operation_spares_iff plainBuild build_plain station 192 10 1
      (.get 2 (.ofString "y") (.ofString "hk/x"))).1 h
        ⟨⟨by decide, by decide⟩, ⟨CString.ofString "/kfsw/ftp/y", by decide +kernel⟩,
          ⟨CString.ofString "/kfsw/hk/x", by decide +kernel⟩, by decide⟩⟩

/-- The note of a download to the housekeeping files is opened to be written. -/
theorem download_writes_readOnly : ¬ ∀ (cfg : Config) (st : Station) (chunk turns : ℕ)
    (requestId : UInt32) (operation : Operation) (s : Fs) (es : List (Event OpResult Fs))
    (q : Program (Option Errno)) (u : Fs), Build cfg →
      Run (Prog.Step FsStep) (operation.program cfg st chunk turns requestId, s) es (q, u) →
        ∀ e ∈ es, Spares cfg e.op := by
  intro h
  have hrun := run_onDisk ((Operation.get 2 (.ofString "y") (.ofString "hk/x")).program
    plainBuild station 192 10 1) .empty (downloadReplies [65])
  have hopens : (onDisk ((Operation.get 2 (.ofString "y")
      (.ofString "hk/x")).program plainBuild station 192 10 1) .empty
        (downloadReplies [65])).any (fun e => CString.ofString "/kfsw/hk/x.part.map" ∈ e.op.writesTo) =
          true := by decide +kernel
  obtain ⟨e, he, hwrites⟩ := List.any_eq_true.1 hopens
  refine h _ _ _ _ _ _ _ _ _ _ build_plain hrun e he _ (of_decide_eq_true hwrites) ?_
  exact ⟨⟨CString.ofString "hk", CString.ofString "/kfsw/hk", false⟩, by decide, rfl,
    Or.inr (by decide)⟩

end KfswServices.Ftp
