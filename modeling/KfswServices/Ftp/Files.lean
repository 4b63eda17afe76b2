/-
# What a transfer calls

The calls of the file transfer service to the outside: the filesystem, the link, and the firmware
update service.  `FsStep` says what each of them may do.  Any call may fail; a call that fails
changes nothing, except that a write may have got some of its bytes in.  The link delivers what it
likes, and the update service has no part in the filesystem.

A file is the bytes of an identity that its name stands for.  An open file goes on being the file
it was opened as, whatever becomes of the name.
-/

import KfswServices.Ftp.Protocol
import KfswServices.Library.Program
import KfswServices.Library.Splice
import Mathlib.Logic.Function.Basic

namespace KfswServices.Ftp

open Library
open Function (update update_eq_self update_idem update_of_ne update_self)

/-- What a name stands for. -/
inductive Node
  | directory
  | file (id : ℕ)
  deriving DecidableEq

/-- The filesystem: the names, the bytes of the files, and the identities given out so far.  No
file has two names. -/
structure Fs where
  names : CString → Option Node
  data : ℕ → List UInt8
  next : ℕ
  fresh : ∀ p id, names p = some (.file id) → id < next
  single : ∀ p q id, names p = some (.file id) → names q = some (.file id) → p = q

/-- `enum fs_dir_entry_type`. -/
inductive EntryType
  | FILE
  | DIR
  deriving DecidableEq

/-- What `fs_stat` says of a node. -/
def Node.type : Node → EntryType
  | directory => .DIR
  | file _ => .FILE

/-- The entry of a directory, as `fs_readdir` gives it. -/
structure DirEntry where
  name : CString
  type : EntryType
  size : ℕ
  deriving DecidableEq

/-- The flags a file is opened with: `FS_O_READ`, `FS_O_WRITE`, or
`FS_O_CREATE | FS_O_WRITE | FS_O_TRUNC`. -/
inductive Mode
  | READ
  | WRITE
  | CREATE_TRUNC
  deriving DecidableEq

/-- `struct fs_file_t`: the open file, and the position in it. -/
structure Handle where
  id : ℕ
  pos : ℕ
  deriving DecidableEq

/-- `struct fs_dir_t`: the open directory, and how many of its entries have been read. -/
structure Dir where
  path : CString
  pos : ℕ
  deriving DecidableEq

/-- `struct fs_statvfs`, as far as it is used. -/
structure Volume where
  bfree : ℕ
  frsize : ℕ

/-- A call. -/
inductive Op
  | fsStat (path : CString)
  | fsStatvfs (path : CString)
  | fsOpen (path : CString) (mode : Mode)
  | fsRead (file : Handle) (size : ℕ)
  | fsSeek (file : Handle) (offset : ℕ)
  | fsWrite (file : Handle) (data : List UInt8)
  | fsSync (file : Handle)
  | fsClose (file : Handle)
  | fsRename (source target : CString)
  | fsUnlink (path : CString)
  | fsMkdir (path : CString)
  | fsOpendir (path : CString)
  | fsReaddir (dir : Dir)
  | fsClosedir (dir : Dir)
  | linkConnect (node : UInt16)
  | linkSend (m : Message)
  | linkReceive
  | fwuBegin (size crc32 : UInt32)
  | fwuWrite (offset : ℕ) (data : List UInt8)
  | fwuFinish
  | fwuAbort
  deriving DecidableEq

/-- What it comes back with. -/
abbrev OpResult : Op → Type
  | .fsStat _ => Except Errno EntryType
  | .fsStatvfs _ => Except Errno Volume
  | .fsOpen _ _ => Except Errno Handle
  | .fsRead _ _ => Except Errno (List UInt8 × Handle)
  | .fsSeek _ _ => Except Errno Handle
  | .fsWrite _ _ => Except Errno (ℕ × Handle)
  | .fsOpendir _ => Except Errno Dir
  | .fsReaddir _ => Except Errno (Option DirEntry × Dir)
  | .linkReceive => Except Errno Message
  | _ => Option Errno

/-- A program of the service. -/
abbrev Program (α : Type) := Prog OpResult α

abbrev fsStat (path : CString) : Program (Except Errno EntryType) := Prog.perform (Op.fsStat path)

abbrev fsStatvfs (path : CString) : Program (Except Errno Volume) :=
  Prog.perform (Op.fsStatvfs path)

abbrev fsOpen (path : CString) (mode : Mode) : Program (Except Errno Handle) :=
  Prog.perform (Op.fsOpen path mode)

abbrev fsRead (file : Handle) (size : ℕ) : Program (Except Errno (List UInt8 × Handle)) :=
  Prog.perform (Op.fsRead file size)

abbrev fsSeek (file : Handle) (offset : ℕ) : Program (Except Errno Handle) :=
  Prog.perform (Op.fsSeek file offset)

abbrev fsWrite (file : Handle) (data : List UInt8) : Program (Except Errno (ℕ × Handle)) :=
  Prog.perform (Op.fsWrite file data)

abbrev fsSync (file : Handle) : Program (Option Errno) := Prog.perform (Op.fsSync file)

abbrev fsClose (file : Handle) : Program (Option Errno) := Prog.perform (Op.fsClose file)

abbrev fsRename (source target : CString) : Program (Option Errno) :=
  Prog.perform (Op.fsRename source target)

abbrev fsUnlink (path : CString) : Program (Option Errno) := Prog.perform (Op.fsUnlink path)

abbrev fsMkdir (path : CString) : Program (Option Errno) := Prog.perform (Op.fsMkdir path)

abbrev fsOpendir (path : CString) : Program (Except Errno Dir) := Prog.perform (Op.fsOpendir path)

abbrev fsReaddir (dir : Dir) : Program (Except Errno (Option DirEntry × Dir)) :=
  Prog.perform (Op.fsReaddir dir)

abbrev fsClosedir (dir : Dir) : Program (Option Errno) := Prog.perform (Op.fsClosedir dir)

abbrev linkConnect (node : UInt16) : Program (Option Errno) := Prog.perform (Op.linkConnect node)

abbrev linkSend (m : Message) : Program (Option Errno) := Prog.perform (Op.linkSend m)

abbrev linkReceive : Program (Except Errno Message) := Prog.perform Op.linkReceive

abbrev fwuBegin (size crc32 : UInt32) : Program (Option Errno) :=
  Prog.perform (Op.fwuBegin size crc32)

abbrev fwuWrite (offset : ℕ) (data : List UInt8) : Program (Option Errno) :=
  Prog.perform (Op.fwuWrite offset data)

abbrev fwuFinish : Program (Option Errno) := Prog.perform Op.fwuFinish

abbrev fwuAbort : Program (Option Errno) := Prog.perform Op.fwuAbort

namespace Fs

/-- The bytes of a name. -/
def content (s : Fs) (p : CString) : Option (List UInt8) :=
  match s.names p with
  | some (.file id) => some (s.data id)
  | _ => none

/-- Other bytes in a file. -/
def setData (s : Fs) (id : ℕ) (bytes : List UInt8) : Fs :=
  { s with data := update s.data id bytes }

/-- What a write leaves of a file, when it got `written` in. -/
def writeData (s : Fs) (file : Handle) (written : List UInt8) : Fs :=
  if written = [] then s else s.setData file.id (splice 0 (s.data file.id) file.pos written)

/-- A new empty file. -/
def create (s : Fs) (p : CString) : Fs where
  names := update s.names p (some (.file s.next))
  data := update s.data s.next []
  next := s.next + 1
  fresh q id h := by
    by_cases hq : q = p
    · subst hq
      rw [update_self] at h
      cases h
      omega
    · rw [update_of_ne hq] at h
      have := s.fresh q id h
      omega
  single q r id hq hr := by
    by_cases hqp : q = p <;> by_cases hrp : r = p
    · rw [hqp, hrp]
    · rw [hqp, update_self] at hq
      rw [update_of_ne hrp] at hr
      cases hq
      exact absurd (s.fresh r _ hr) (by omega)
    · rw [hrp, update_self] at hr
      rw [update_of_ne hqp] at hq
      cases hr
      exact absurd (s.fresh q _ hq) (by omega)
    · rw [update_of_ne hqp] at hq
      rw [update_of_ne hrp] at hr
      exact s.single q r id hq hr

/-- A name that stands for no file from now on. -/
def setName (s : Fs) (p : CString) (node : Option Node) (hnode : ∀ id, node ≠ some (.file id)) :
    Fs where
  names := update s.names p node
  data := s.data
  next := s.next
  fresh q id h := by
    by_cases hq : q = p
    · rw [hq, update_self] at h
      exact absurd h (hnode id)
    · rw [update_of_ne hq] at h
      exact s.fresh q id h
  single q r id hq hr := by
    by_cases hqp : q = p
    · rw [hqp, update_self] at hq
      exact absurd hq (hnode id)
    · by_cases hrp : r = p
      · rw [hrp, update_self] at hr
        exact absurd hr (hnode id)
      · rw [update_of_ne hqp] at hq
        rw [update_of_ne hrp] at hr
        exact s.single q r id hq hr

/-- A name is taken away. -/
def unlink (s : Fs) (p : CString) : Fs := s.setName p none (by simp)

/-- A new directory. -/
def mkdir (s : Fs) (p : CString) : Fs := s.setName p (some .directory) (by simp)

/-- The names after a rename. -/
def renamed (s : Fs) (source target q : CString) : Option Node :=
  if q = target then s.names source else if q = source then none else s.names q

/-- A file that is renamed keeps one name. -/
theorem renamed_single (s : Fs) (source target : CString) {q r : CString} {id : ℕ}
    (hq : s.renamed source target q = some (.file id))
    (hr : s.renamed source target r = some (.file id)) : q = r := by
  unfold renamed at hq hr
  split_ifs at hq hr with h₁ h₂ h₃ h₄ h₅
  · rw [h₁, h₂]
  · exact absurd (s.single _ _ _ hr hq) h₃
  · exact absurd (s.single _ _ _ hq hr) h₄
  · exact s.single q r id hq hr

/-- A file gets another name; a file of that name is gone. -/
def rename (s : Fs) (source target : CString) : Fs where
  names := s.renamed source target
  data := s.data
  next := s.next
  fresh q id h := by
    unfold renamed at h
    split_ifs at h
    · exact s.fresh source id h
    · exact s.fresh q id h
  single _ _ _ := s.renamed_single source target

/-- A directory with nothing in it. -/
def Empty (s : Fs) (p : CString) : Prop :=
  ∀ q, (p.bytes ++ [slash]) <+: q.bytes → s.names q = none

end Fs

/-- **What a call may do**, and come back with. -/
def FsStep : (o : Op) → Fs → OpResult o → Fs → Prop
  | .fsStat p, s, r, s' =>
    s' = s ∧ ∀ type, r = .ok type → (s.names p).map Node.type = some type
  | .fsOpen p mode, s, r, s' =>
    match r with
    | .error _ => s' = s
    | .ok file =>
      (∃ id, s.names p = some (.file id) ∧ file = ⟨id, 0⟩ ∧
        s' = if mode = .CREATE_TRUNC then s.setData id [] else s) ∨
      (mode = .CREATE_TRUNC ∧ s.names p = none ∧ file = ⟨s.next, 0⟩ ∧ s' = s.create p)
  | .fsRead file size, s, r, s' =>
    s' = s ∧ ∀ bytes file', r = .ok (bytes, file') →
      bytes <+: (s.data file.id).drop file.pos ∧ bytes.length ≤ size ∧
        (bytes = [] → size = 0 ∨ (s.data file.id).length ≤ file.pos) ∧
        file' = ⟨file.id, file.pos + bytes.length⟩
  | .fsSeek file offset, s, r, s' => s' = s ∧ ∀ file', r = .ok file' → file' = ⟨file.id, offset⟩
  | .fsWrite file data, s, r, s' =>
    match r with
    | .error _ => ∃ k, s' = s.writeData file (data.take k)
    | .ok (written, file') =>
      written ≤ data.length ∧ s' = s.writeData file (data.take written) ∧
        file' = ⟨file.id, file.pos + written⟩
  | .fsRename source target, s, r, s' =>
    match r with
    | some _ => s' = s
    | none =>
      (∃ id, s.names source = some (.file id)) ∧ s.names target ≠ some .directory ∧
        s' = s.rename source target
  | .fsUnlink p, s, r, s' =>
    match r with
    | some _ => s' = s
    | none =>
      s.names p ≠ none ∧ (s.names p = some .directory → s.Empty p) ∧ s' = s.unlink p
  | .fsMkdir p, s, r, s' =>
    match r with
    | some _ => s' = s
    | none => s.names p = none ∧ s' = s.mkdir p
  | _, s, _, s' => s' = s

/-- A call that leaves every name and every file as it is. -/
def Op.readOnly : Op → Bool
  | .fsOpen _ mode => mode = .READ
  | .fsWrite _ _ | .fsRename _ _ | .fsUnlink _ | .fsMkdir _ => false
  | _ => true

theorem FsStep.readOnly {o : Op} {s s' : Fs} {r : OpResult o} (h : FsStep o s r s')
    (ho : o.readOnly = true) : s' = s := by
  cases o with
  | fsOpen p mode =>
    obtain rfl : mode = .READ := of_decide_eq_true ho
    rcases r with e | file
    · exact h
    · rcases h with ⟨id, -, -, hs⟩ | ⟨habs, -⟩
      · exact hs
      · cases habs
  | fsWrite file data => cases ho
  | fsRename source target => cases ho
  | fsUnlink p => cases ho
  | fsMkdir p => cases ho
  | fsStat p => exact h.1
  | fsRead file size => exact h.1
  | fsSeek file offset => exact h.1
  | _ => exact h

/-- A call that only looks at the store. -/
def Op.looks : Op → Bool
  | .fsOpen _ mode => mode = .READ
  | .fsStat _ | .fsRead _ _ | .fsClose _ => true
  | _ => false

theorem Op.readOnly_of_looks {o : Op} (h : o.looks = true) : o.readOnly = true := by
  cases o <;> first | exact h | rfl

/-! ### What is left of the names -/

namespace Fs

variable (s : Fs) {p q : CString}

theorem content_eq_some_iff {s : Fs} {bytes : List UInt8} :
    s.content p = some bytes ↔ ∃ id, s.names p = some (.file id) ∧ s.data id = bytes := by
  unfold content
  rcases s.names p with _ | _ | id <;> simp

theorem content_of_names {s : Fs} {id : ℕ} (h : s.names p = some (.file id)) :
    s.content p = some (s.data id) := content_eq_some_iff.2 ⟨id, h, rfl⟩

/-- Two states that agree on a name and on its file. -/
theorem content_congr {s s' : Fs} (hnames : s'.names p = s.names p)
    (hdata : ∀ id, s.names p = some (.file id) → s'.data id = s.data id) :
    s'.content p = s.content p := by
  unfold content
  rw [hnames]
  rcases hp : s.names p with _ | _ | id
  · rfl
  · rfl
  · simp only [hdata id hp]

/-- Another file's bytes are not this name's. -/
theorem content_setData_of_ne {id : ℕ} (bytes : List UInt8)
    (h : s.names p ≠ some (.file id)) : (s.setData id bytes).content p = s.content p := by
  refine content_congr rfl fun id' hid' => update_of_ne ?_ _ _
  rintro rfl
  exact h hid'

theorem content_setData {id : ℕ} (bytes : List UInt8) (h : s.names p = some (.file id)) :
    (s.setData id bytes).content p = some bytes :=
  content_eq_some_iff.2 ⟨id, h, update_self ..⟩

theorem setData_self (id : ℕ) : s.setData id (s.data id) = s := by
  rw [setData, update_eq_self]

theorem data_setData (id : ℕ) (bytes : List UInt8) : (s.setData id bytes).data id = bytes :=
  update_self ..

theorem setData_setData (id : ℕ) (bytes bytes' : List UInt8) :
    (s.setData id bytes).setData id bytes' = s.setData id bytes' := by
  simp only [setData, update_idem]

/-- A write at the end of a file. -/
theorem writeData_end {file : Handle} (written : List UInt8)
    (h : (s.data file.id).length = file.pos) :
    s.writeData file written = s.setData file.id (s.data file.id ++ written) := by
  unfold writeData
  split_ifs with hnil
  · rw [hnil, List.append_nil, setData_self]
  · rw [← h, splice_length]

theorem exists_writeData (file : Handle) (written : List UInt8) :
    ∃ bytes, s.writeData file written = s.setData file.id bytes := by
  unfold writeData
  split_ifs
  · exact ⟨_, (s.setData_self file.id).symm⟩
  · exact ⟨_, rfl⟩

theorem content_create_of_ne (h : q ≠ p) : (s.create p).content q = s.content q := by
  refine content_congr (update_of_ne h _ _) fun id hid => update_of_ne ?_ _ _
  have := s.fresh q id hid
  omega

theorem content_unlink_of_ne (h : q ≠ p) : (s.unlink p).content q = s.content q :=
  content_congr (update_of_ne h _ _) fun _ _ => rfl

theorem content_unlink : (s.unlink p).content p = none := by
  have hnames : (s.unlink p).names p = none := update_self ..
  unfold content
  rw [hnames]

theorem content_mkdir_of_ne (h : q ≠ p) : (s.mkdir p).content q = s.content q :=
  content_congr (update_of_ne h _ _) fun _ _ => rfl

theorem content_rename_of_ne {source target : CString} (hs : p ≠ source) (ht : p ≠ target) :
    (s.rename source target).content p = s.content p := by
  refine content_congr ?_ fun _ _ => rfl
  show s.renamed source target p = s.names p
  rw [renamed, if_neg ht, if_neg hs]

theorem content_rename_target {source target : CString} :
    (s.rename source target).content target = s.content source := by
  have hnames : (s.rename source target).names target = s.names source := if_pos rfl
  unfold content
  rw [hnames]
  rfl

end Fs

end KfswServices.Ftp
