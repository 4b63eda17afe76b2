/-
# The store below the transfer root

`src/ftp/ftp_store.c`, function by function: the CRC pass over a file, the temporary file `.part`
of a transfer and the note `.part.map` beside it, the commit, and the operations on local paths.
-/

import KfswServices.Ftp.Files
import KfswServices.Library.LittleEndian

namespace KfswServices.Ftp

open Library

/-- `UINT32_MAX`. -/
abbrev uint32Max : ℕ := 4294967295

/-- Of two return values, the first error. -/
def firstError (result next : Option Errno) : Option Errno :=
  match result with
  | none => next
  | some e => some e

/-- The loop of `kfsw_ftp_file_crc`.  A turn reads a byte at least, and there are not more than
`UINT32_MAX` of them, so that the turns are counted. -/
def fileCrcLoop : ℕ → Handle → ℕ → UInt32 → Program (Except Errno (ℕ × UInt32))
  | 0, _, _, _ => pure (.error .EFBIG)
  | turns + 1, file, size, crc => do
    match ← fsRead file chunkSize with
    | .error e => pure (.error e)
    | .ok (bytes, file) =>
      if bytes = [] then pure (.ok (size, crc))
      else if uint32Max - size < bytes.length then pure (.error .EFBIG)
      else fileCrcLoop turns file (size + bytes.length) (crc32Update crc bytes)

/-- `kfsw_ftp_file_crc`. -/
def fileCrc (path : CString) : Program (Except Errno (ℕ × UInt32)) := do
  match ← fsOpen path .READ with
  | .error e => pure (.error e)
  | .ok file =>
    let result ← fileCrcLoop (uint32Max + 1) file 0 0
    let closeResult ← fsClose file
    match result, closeResult with
    | .error e, _ => pure (.error e)
    | .ok _, some e => pure (.error e)
    | .ok sums, none => pure (.ok sums)

/-- `kfsw_ftp_check_space`. -/
def checkSpace (cfg : Config) (path : CString) (bytes : ℕ) : Program (Option Errno) := do
  match ← fsStatvfs path with
  | .error e => pure (some e)
  | .ok volume =>
    if volume.bfree * volume.frsize % 2 ^ 64 < bytes + cfg.spaceMargin then pure (some .ENOSPC)
    else pure none

/-- The name of the temporary file of a transfer to a path. -/
def temporaryPath (path : CString) : CString := path ++ CString.ofString ".part"

/-- The name of the note beside it. -/
def notePath (path : CString) : CString := temporaryPath path ++ CString.ofString ".map"

/-- `kfsw_ftp_make_temporary_path`, into a buffer of `size` bytes. -/
def makeTemporaryPath (path : CString) (size : ℕ) : Except Errno CString :=
  if size < path.length + 6 then .error .ENAMETOOLONG else .ok (temporaryPath path)

/-- `make_note_path`. -/
def makeNotePath (path : CString) (size : ℕ) : Except Errno CString :=
  match makeTemporaryPath path size with
  | .error e => .error e
  | .ok temporary => if size < temporary.length + 5 then .error .ENAMETOOLONG else .ok (notePath path)

/-- What a partial file is going to become: a size and a checksum. -/
structure Note where
  totalSize : UInt32
  crc32 : UInt32
  deriving DecidableEq

/-- The fields of `struct partial_note` before the last. -/
def Note.head (note : Note) : List UInt8 :=
  putLe32 0x4B465450 ++ (putLe32 1 ++ (putLe32 note.totalSize ++ putLe32 note.crc32))

/-- `struct partial_note`, as it lies in memory. -/
def Note.encode (note : Note) : List UInt8 := note.head ++ putLe32 (Library.crc32 note.head)

/-- The checks of `read_note`. -/
def Note.decode (bytes : List UInt8) : Except Errno Note :=
  if bytes.length ≠ 20 then .error .EILSEQ
  else if getLe32 bytes ≠ 0x4B465450 ∨ getLe32 (bytes.drop 4) ≠ 1 ∨
      getLe32 (bytes.drop 16) ≠ Library.crc32 (bytes.take 16) then .error .EILSEQ
  else .ok ⟨getLe32 (bytes.drop 8), getLe32 (bytes.drop 12)⟩

/-- `read_note`. -/
def readNote (path : CString) : Program (Except Errno Note) := do
  match ← fsOpen path .READ with
  | .error e => pure (.error e)
  | .ok file =>
    let read ← fsRead file 20
    let closeResult ← fsClose file
    match read, closeResult with
    | .error e, _ => pure (.error e)
    | .ok _, some e => pure (.error e)
    | .ok (bytes, _), none => pure (Note.decode bytes)

/-- `kfsw_ftp_partial_note_read`. -/
def partialNoteRead (path : CString) : Program (Except Errno Note) :=
  match makeNotePath path fullPathSize with
  | .error e => pure (.error e)
  | .ok note => readNote note

/-- `kfsw_ftp_partial_resume_point`: the offset, and the checksum of the bytes before it. -/
def partialResumePoint (path : CString) (wanted : Note) : Program (ℕ × UInt32) :=
  match makeNotePath path fullPathSize with
  | .error _ => pure (0, 0)
  | .ok note => do
    match ← readNote note with
    | .error _ => pure (0, 0)
    | .ok found =>
      if found ≠ wanted then pure (0, 0)
      else
        match makeTemporaryPath path fullPathSize with
        | .error _ => pure (0, 0)
        | .ok temporary =>
          match ← fileCrc temporary with
          | .error _ => pure (0, 0)
          | .ok (size, crc) =>
            if size = 0 ∨ wanted.totalSize.toNat ≤ size then pure (0, 0) else pure (size, crc)

/-- `kfsw_ftp_partial_note_write`. -/
def partialNoteWrite (path : CString) (note : Note) : Program (Option Errno) :=
  match makeNotePath path fullPathSize with
  | .error e => pure (some e)
  | .ok name => do
    match ← fsOpen name .CREATE_TRUNC with
    | .error e => pure (some e)
    | .ok file =>
      let written ← fsWrite file note.encode
      let result := match written with
        | .error e => some e
        | .ok (count, _) => if count ≠ note.encode.length then some Errno.EIO else none
      let result ← if result = none then fsSync file else pure result
      let closeResult ← fsClose file
      let result := firstError result closeResult
      if result ≠ none then
        let _ ← fsUnlink name
        pure result
      else pure result

/-- `kfsw_ftp_partial_note_remove`. -/
def partialNoteRemove (path : CString) : Program Unit :=
  match makeNotePath path fullPathSize with
  | .error _ => pure ()
  | .ok note => do
    let _ ← fsUnlink note
    pure ()

/-- `kfsw_ftp_commit_temporary`. -/
def commitTemporary (path temporary : CString) (actualSize : ℕ) (actualCrc32 : UInt32)
    (expectedSize : ℕ) (expectedCrc32 : UInt32) : Program (Option Errno) := do
  let result ← if actualSize ≠ expectedSize ∨ actualCrc32 ≠ expectedCrc32 then
      pure (some .EILSEQ)
    else fsRename temporary path
  if result ≠ none then
    let _ ← fsUnlink temporary
    partialNoteRemove path
    pure result
  else
    partialNoteRemove path
    pure result

/-- `struct kfsw_ftp_stat`. -/
structure Stat where
  type : EntryType
  size : ℕ
  crc32 : UInt32
  deriving DecidableEq

/-- `kfsw_ftp_local_mkdir`. -/
def localMkdir (cfg : Config) (virtualPath : CString) : Program (Option Errno) :=
  match resolveWritePath cfg virtualPath fullPathSize with
  | .error e => pure (some e)
  | .ok path => fsMkdir path

/-- `kfsw_ftp_local_stat`. -/
def localStat (cfg : Config) (virtualPath : CString) : Program (Except Errno Stat) :=
  match resolvePath cfg virtualPath true fullPathSize with
  | .error e => pure (.error e)
  | .ok path => do
    match ← fsStat path with
    | .error e => pure (.error e)
    | .ok .DIR => pure (.ok ⟨.DIR, 0, 0⟩)
    | .ok .FILE =>
      match ← fileCrc path with
      | .error e => pure (.error e)
      | .ok (size, crc) => pure (.ok ⟨.FILE, size, crc⟩)

/-- `struct kfsw_ftp_entry`. -/
structure ListEntry where
  name : CString
  type : EntryType
  size : ℕ
  deriving DecidableEq

/-- A visitor of a listing, with the context it is handed: whether to go on. -/
abbrev Visitor (γ : Type) := ListEntry → γ → Program (Bool × γ)

/-- The visit of each extra root that is there, of `kfsw_ftp_list_roots`. -/
def listRoots {γ : Type} (visitor : Visitor γ) : List Root → γ → Program (Bool × γ)
  | [], context => pure (true, context)
  | root :: rest, context => do
    match ← fsStat root.path with
    | .error _ => listRoots visitor rest context
    | .ok _ =>
      match ← visitor ⟨root.selector, .DIR, 0⟩ context with
      | (false, context) => pure (false, context)
      | (true, context) => listRoots visitor rest context

/-- The loop of `kfsw_ftp_local_list`, for as many turns: the result, whether no visitor has
stopped it, and the context.  The loop itself has no bound but the directory. -/
def localListLoop {γ : Type} (visitor : Visitor γ) :
    ℕ → Dir → γ → Program (Option Errno × Bool × γ)
  | 0, _, context => pure (none, true, context)
  | turns + 1, dir, context => do
    match ← fsReaddir dir with
    | .error e => pure (some e, true, context)
    | .ok (none, _) => pure (none, true, context)
    | .ok (some entry, dir) =>
      if maxPathSize < entry.name.length then pure (some .ENAMETOOLONG, true, context)
      else if entry.type = .FILE ∧ uint32Max < entry.size then pure (some .EFBIG, true, context)
      else
        match ← visitor ⟨entry.name, entry.type, if entry.type = .FILE then entry.size else 0⟩
          context with
        | (false, context) => pure (none, false, context)
        | (true, context) => localListLoop visitor turns dir context

/-- `kfsw_ftp_local_list`, with at most `turns` turns of its loop. -/
def localList {γ : Type} (cfg : Config) (turns : ℕ) (virtualPath : CString) (visitor : Visitor γ)
    (context : γ) : Program (Option Errno × γ) :=
  match resolvePath cfg virtualPath true fullPathSize with
  | .error e => pure (some e, context)
  | .ok path => do
    match ← fsOpendir path with
    | .error e => pure (some e, context)
    | .ok dir =>
      let (result, visiting, context) ← localListLoop visitor turns dir context
      let closeResult ← fsClosedir dir
      if result ≠ none then pure (result, context)
      else if closeResult = none ∧ visiting ∧ path = rootPath then
        let (_, context) ← listRoots visitor (extraRoots cfg) context
        pure (closeResult, context)
      else pure (closeResult, context)

/-! ### What only looks at the store -/

/-- The calls of a program only look at the store. -/
abbrev LooksOnly {α : Type} (p : Program α) (Q : α → Prop) : Prop :=
  Calls (fun o => o.looks = true) p Q

theorem looksOnly_perform {o : Op} (h : o.looks = true) :
    LooksOnly (Prog.perform o : Program (OpResult o)) fun _ => True :=
  calls_perform h

/-- The CRC pass looks at the file, and the size it counts fits 32 bits. -/
theorem looksOnly_fileCrcLoop {turns : ℕ} {file : Handle} {size : ℕ} {crc : UInt32}
    (hsize : size ≤ uint32Max) : LooksOnly (fileCrcLoop turns file size crc) fun r =>
      ∀ sums, r = .ok sums → sums.1 ≤ uint32Max := by
  induction turns generalizing file size crc with
  | zero => rintro sums ⟨⟩
  | succ turns ih =>
    refine (looksOnly_perform rfl).bind ?_
    rintro (e | ⟨bytes, file'⟩) -
    · rintro sums ⟨⟩
    · dsimp only
      split_ifs with hnil hbig
      · rintro sums ⟨⟩
        exact hsize
      · rintro sums ⟨⟩
      · exact ih (by omega)

theorem looksOnly_fileCrc {path : CString} :
    LooksOnly (fileCrc path) fun r => ∀ sums, r = .ok sums → sums.1 ≤ uint32Max := by
  refine (looksOnly_perform rfl).bind ?_
  rintro (e | file) -
  · rintro sums ⟨⟩
  refine (looksOnly_fileCrcLoop (Nat.zero_le _)).bind ?_
  intro result hresult
  refine (looksOnly_perform rfl).bind ?_
  intro closed _
  rcases result with e | sums
  · rintro sums ⟨⟩
  rcases closed with _ | e
  · rintro _ ⟨⟩
    exact hresult sums rfl
  · rintro sums ⟨⟩

theorem looksOnly_localStat {cfg : Config} {virtualPath : CString} :
    LooksOnly (localStat cfg virtualPath) fun r => ∀ info, r = .ok info →
      info.size ≤ uint32Max := by
  unfold localStat
  rcases resolvePath cfg virtualPath true fullPathSize with e | path
  · rintro info ⟨⟩
  refine (looksOnly_perform rfl).bind ?_
  rintro (e | _ | _) -
  · rintro info ⟨⟩
  · refine looksOnly_fileCrc.bind ?_
    rintro (e | ⟨size, crc⟩) hsums
    · rintro info ⟨⟩
    · rintro info ⟨⟩
      exact hsums _ rfl
  · rintro info ⟨⟩
    exact Nat.zero_le _

/-! ### The names beside a target -/

theorem makeTemporaryPath_eq {path temporary : CString} {size : ℕ}
    (h : makeTemporaryPath path size = .ok temporary) : temporary = temporaryPath path := by
  unfold makeTemporaryPath at h
  split_ifs at h
  cases h
  rfl

theorem makeNotePath_eq {path name : CString} {size : ℕ} (h : makeNotePath path size = .ok name) :
    name = notePath path := by
  unfold makeNotePath at h
  split at h
  · cases h
  · split_ifs at h
    cases h
    rfl

/-- A partial file and a note are no targets of themselves. -/
theorem ne_temporaryPath (target : CString) : target ≠ temporaryPath target := by
  intro h
  have hlength := congrArg CString.length h
  have hpart : (CString.ofString ".part").bytes.length = 5 := by decide
  have happend : (temporaryPath target).length = target.length + 5 := by
    rw [← hpart]
    exact List.length_append
  omega

theorem ne_notePath (target : CString) : target ≠ notePath target := by
  intro h
  have hlength := congrArg CString.length h
  have hpart : (CString.ofString ".part").bytes.length = 5 := by decide
  have hmap : (CString.ofString ".map").bytes.length = 4 := by decide
  have happend : (notePath target).length = target.length + 5 + 4 := by
    rw [← hpart, ← hmap]
    exact List.length_append.trans (congrArg (· + _) List.length_append)
  omega

theorem temporaryPath_ne_notePath (target : CString) : temporaryPath target ≠ notePath target := by
  intro h
  have hlength := congrArg CString.length h
  have hmap : (CString.ofString ".map").bytes.length = 4 := by decide
  have happend : (notePath target).length = (temporaryPath target).length + 4 := by
    rw [← hmap]
    exact List.length_append
  omega

end KfswServices.Ftp
