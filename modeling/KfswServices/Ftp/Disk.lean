/-
# A store that does what it is asked

A machine that carries out the calls of a transfer: no call fails but for what it finds, a write
gets all of its bytes in, and the link delivers the messages it has been given.  It is one of the
stores that `FsStep` allows (`disk_step`), and it can be run, with the messages of an upload or a
download that has nothing to hide.
-/

import KfswServices.Ftp.Client

namespace KfswServices.Ftp

open Library

namespace Fs

/-- Nothing at all. -/
def empty : Fs where
  names _ := none
  data _ := []
  next := 0
  fresh _ _ h := by cases h
  single _ _ _ h := by cases h

/-- A store with one more file. -/
def withFile (s : Fs) (p : CString) (bytes : List UInt8) : Fs :=
  (s.create p).setData s.next bytes

end Fs

/-- What a call comes back with, and the store after it. -/
def disk : (o : Op) → Fs × List Message → OpResult o × (Fs × List Message)
  | .fsStat p, x =>
    match x.1.names p with
    | none => (.error .ENOENT, x)
    | some node => (.ok node.type, x)
  | .fsStatvfs _, x => (.ok ⟨0x100000, 0x1000⟩, x)
  | .fsOpen p mode, x =>
    match x.1.names p with
    | none =>
      if mode = .CREATE_TRUNC then (.ok ⟨x.1.next, 0⟩, (x.1.create p, x.2)) else (.error .ENOENT, x)
    | some .directory => (.error .EISDIR, x)
    | some (.file id) =>
      (.ok ⟨id, 0⟩, (if mode = .CREATE_TRUNC then x.1.setData id [] else x.1, x.2))
  | .fsRead file size, x =>
    let bytes := ((x.1.data file.id).drop file.pos).take size
    (.ok (bytes, ⟨file.id, file.pos + bytes.length⟩), x)
  | .fsSeek file offset, x => (.ok ⟨file.id, offset⟩, x)
  | .fsWrite file data, x =>
    (.ok (data.length, ⟨file.id, file.pos + data.length⟩), (x.1.writeData file data, x.2))
  | .fsRename source target, x =>
    match x.1.names source with
    | some (.file _) =>
      if x.1.names target = some .directory then (some .EISDIR, x)
      else (none, (x.1.rename source target, x.2))
    | _ => (some .ENOENT, x)
  | .fsUnlink p, x =>
    match x.1.names p with
    | none => (some .ENOENT, x)
    | some .directory => (some .EISDIR, x)
    | some (.file _) => (none, (x.1.unlink p, x.2))
  | .fsMkdir p, x => if x.1.names p = none then (none, (x.1.mkdir p, x.2)) else (some .EEXIST, x)
  | .fsOpendir p, x => (.ok ⟨p, 0⟩, x)
  | .fsReaddir dir, x => (.ok (none, dir), x)
  | .linkReceive, (s, []) => (.error .ETIMEDOUT, (s, []))
  | .linkReceive, (s, m :: inbox) => (.ok m, (s, inbox))
  | .fsSync _, x | .fsClose _, x | .fsClosedir _, x | .linkConnect _, x | .linkSend _, x
  | .fwuBegin _ _, x | .fwuWrite _ _, x | .fwuFinish, x | .fwuAbort, x => (none, x)

/-- **The store is one that a transfer may find.** -/
theorem disk_step (o : Op) (x : Fs × List Message) : FsStep o x.1 (disk o x).1 (disk o x).2.1 := by
  obtain ⟨s, inbox⟩ := x
  cases o with
  | fsStat p =>
    rcases hp : s.names p with _ | node
    · simp only [disk, FsStep, hp]
      exact ⟨trivial, by rintro _ ⟨⟩⟩
    · simp only [disk, FsStep, hp]
      exact ⟨trivial, by rintro _ ⟨⟩; rfl⟩
  | fsOpen p mode =>
    rcases hp : s.names p with _ | _ | id
    · by_cases hmode : mode = .CREATE_TRUNC
      · simp only [disk, FsStep, hp, if_pos hmode]
        exact Or.inr ⟨hmode, trivial, trivial, trivial⟩
      · simp only [disk, FsStep, hp, if_neg hmode]
    · simp only [disk, FsStep, hp]
    · simp only [disk, FsStep, hp]
      exact Or.inl ⟨id, rfl, rfl, rfl⟩
  | fsRead file size =>
    refine ⟨rfl, ?_⟩
    rintro _ _ ⟨⟩
    refine ⟨List.take_prefix _ _, List.length_take_le _ _, fun hnil => ?_, rfl⟩
    rcases List.take_eq_nil_iff.1 hnil with hsize | hdrop
    · exact Or.inl hsize
    · exact Or.inr (List.drop_eq_nil_iff.1 hdrop)
  | fsSeek file offset => exact ⟨rfl, by rintro _ ⟨⟩; rfl⟩
  | fsWrite file data =>
    refine ⟨le_rfl, ?_, rfl⟩
    rw [List.take_length]
    rfl
  | fsRename source target =>
    rcases hp : s.names source with _ | _ | id
    · simp only [disk, FsStep, hp]
    · simp only [disk, FsStep, hp]
    · by_cases ht : s.names target = some .directory
      · simp only [disk, FsStep, hp, if_pos ht]
      · simp only [disk, FsStep, hp, if_neg ht]
        exact ⟨⟨id, rfl⟩, ht, trivial⟩
  | fsUnlink p =>
    rcases hp : s.names p with _ | _ | id
    · simp only [disk, FsStep, hp]
    · simp only [disk, FsStep, hp]
    · simp only [disk, FsStep, hp]
      exact ⟨by simp, by simp, trivial⟩
  | fsMkdir p =>
    by_cases hp : s.names p = none
    · simp only [disk, FsStep, if_pos hp]
      exact ⟨hp, trivial⟩
    · simp only [disk, FsStep, if_neg hp]
  | linkReceive => cases inbox <;> rfl
  | _ => rfl

/-- The run of a program on the store, from these files and messages on. -/
def onDisk {α : Type} (p : Program α) (s : Fs) (inbox : List Message) :
    List (Event OpResult Fs) :=
  (p.exec disk (s, inbox)).1.map (Event.view Prod.fst)

/-- The store after it. -/
def afterDisk {α : Type} (p : Program α) (s : Fs) (inbox : List Message) : Fs :=
  (p.exec disk (s, inbox)).2.2.1

theorem run_onDisk {α : Type} (p : Program α) (s : Fs) (inbox : List Message) :
    Run (Prog.Step FsStep) (p, s) (onDisk p s inbox)
      (.ret (p.exec disk (s, inbox)).2.1, afterDisk p s inbox) :=
  Prog.exec_run disk_step p (s, inbox)

/-! ### Receiving a file -/

/-- What a file is announced as. -/
def noteOf (bytes : List UInt8) : Note := ⟨UInt32.ofNat bytes.length, crc32 bytes⟩

theorem toNat_totalSize {content : List UInt8} (h : content.length < 2 ^ 32) :
    (noteOf content).totalSize.toNat = content.length := by
  show (UInt32.ofNat _).toNat = _
  rw [UInt32.toNat_ofNat', Nat.mod_eq_of_lt h]

/-- What the receiver does once it is ready for the data. -/
def receiveAll (t : Transfer) (target : CString) : Program (Option Errno) := do
  let (result, t) ← transferReceive t
  transferFinish t target (temporaryPath target) result

/-- Every message passes the check of the receiver when it comes. -/
def Accepted : Transfer → List Message → Prop
  | _, [] => True
  | t, m :: ms => dataMessageIsValid t m = true ∧
      Accepted { t with offset := t.offset + m.data.length } ms

variable {t : Transfer}

/-- The check looks at neither the file nor the checksum so far. -/
theorem accepted_congr {t' : Transfer} (hid : t'.requestId = t.requestId)
    (htotal : t'.totalSize = t.totalSize) (hcrc : t'.crc32 = t.crc32)
    (hoffset : t'.offset = t.offset) (hopcode : t'.dataOpcode = t.dataOpcode) {ms : List Message} :
    Accepted t' ms ↔ Accepted t ms := by
  induction ms generalizing t t' with
  | nil => exact Iff.rfl
  | cons m ms ih =>
    have hvalid : dataMessageIsValid t' m = dataMessageIsValid t m := by
      simp only [dataMessageIsValid, hid, htotal, hcrc, hoffset, hopcode]
    rw [Accepted, Accepted, hvalid]
    exact and_congr_right fun _ => ih hid htotal hcrc (congrArg (· + _) hoffset) hopcode

section

variable {s : Fs} {inbox : List Message} {file : Handle}

/-- A write of a working store gets in everything at once. -/
theorem writeAll_exec {data : List UInt8} (hend : (s.data file.id).length = file.pos) :
    ((writeAll file data).exec disk (s, inbox)).2 = (.ok ⟨file.id, file.pos + data.length⟩,
      s.setData file.id (s.data file.id ++ data), inbox) := by
  rcases data with _ | ⟨b, rest⟩
  · rw [List.append_nil, Fs.setData_self]
    rfl
  · have hdone : ∀ turns file, writeAllLoop turns file [] = pure (.ok file) := by
      rintro (_ | turns) file <;> rfl
    have hwrite : ((writeAll file (b :: rest)).exec disk (s, inbox)).2 =
        ((writeAllLoop rest.length ⟨file.id, file.pos + (b :: rest).length⟩
          ((b :: rest).drop (b :: rest).length)).exec disk
            (s.writeData file (b :: rest), inbox)).2 := rfl
    rw [hwrite, List.drop_length, hdone, s.writeData_end _ hend]
    rfl

/-- A transfer that has received some more. -/
def Transfer.received (t : Transfer) (data : List UInt8) : Transfer :=
  { t with
    offset := t.offset + data.length
    actualCrc32 := crc32Update t.actualCrc32 data
    file := ⟨t.file.id, t.file.pos + data.length⟩ }

theorem received_nil (t : Transfer) : t.received [] = t := by
  simp [Transfer.received]

theorem received_append (t : Transfer) (data data' : List UInt8) :
    t.received (data ++ data') = (t.received data).received data' := by
  simp [Transfer.received, crc32Update_append, Nat.add_assoc]

theorem receiveData_exec {m : Message} (hvalid : dataMessageIsValid t m = true)
    (hfirmware : t.firmware = false) (hend : (s.data t.file.id).length = t.file.pos) :
    ((receiveData t m).exec disk (s, inbox)).2 = (.ok (t.received m.data),
      s.setData t.file.id (s.data t.file.id ++ m.data), inbox) := by
  have hfile : ¬ t.firmware = true := hfirmware ▸ Bool.false_ne_true
  unfold receiveData
  rw [hvalid, Bool.not_true, if_neg Bool.false_ne_true, if_neg hfile, Prog.exec_bind,
    writeAll_exec hend]
  rfl

/-- **Messages that pass the check** and come to the announced size are received. -/
theorem receiveLoop_exec {turns : ℕ} {messages : List Message} (haccepted : Accepted t messages)
    (htotal : t.offset + (messages.flatMap (·.data)).length = t.totalSize.toNat)
    (hturns : t.totalSize.toNat - t.offset ≤ turns) (hfirmware : t.firmware = false)
    (hend : (s.data t.file.id).length = t.file.pos) :
    ((transferReceiveLoop turns t).exec disk (s, messages)).2 =
      ((none, t.received (messages.flatMap (·.data))),
        s.setData t.file.id (s.data t.file.id ++ messages.flatMap (·.data)), []) := by
  induction messages generalizing turns t s with
  | nil =>
    have hoffset : ¬ t.offset < t.totalSize.toNat := (le_of_eq htotal.symm).not_gt
    have hdone : transferReceiveLoop turns t = pure (none, t) := by
      rcases turns with _ | turns
      · rfl
      · exact if_neg hoffset
    rw [hdone, List.flatMap_nil, received_nil, List.append_nil, Fs.setData_self]
    rfl
  | cons m messages ih =>
    obtain ⟨hvalid, hrest⟩ := haccepted
    rw [List.flatMap_cons, List.length_append] at htotal
    have hne : m.data ≠ [] := by
      rintro habs
      simp [dataMessageIsValid, habs] at hvalid
    have hpos := List.length_pos_iff.2 hne
    obtain ⟨turns, rfl⟩ : ∃ k, turns = k + 1 := Nat.exists_eq_succ_of_ne_zero (by omega)
    have hgoes : t.offset < t.totalSize.toNat := by omega
    have hturn : ((transferReceiveLoop (turns + 1) t).exec disk (s, m :: messages)).2 =
        ((transferReceiveLoop turns (t.received m.data)).exec disk
          (s.setData t.file.id (s.data t.file.id ++ m.data), messages)).2 := by
      rw [transferReceiveLoop, if_pos hgoes, Prog.exec_bind]
      show ((receiveData t m >>= _).exec disk (s, messages)).2 = _
      rw [Prog.exec_bind, receiveData_exec hvalid hfirmware hend]
    have hafter : Accepted (t.received m.data) messages := by
      refine (accepted_congr ?_ ?_ ?_ ?_ ?_).1 hrest <;> rfl
    have htotal' : (t.received m.data).offset + (messages.flatMap (·.data)).length =
        (t.received m.data).totalSize.toNat := (Nat.add_assoc ..).trans htotal
    have hend' : ((s.setData t.file.id (s.data t.file.id ++ m.data)).data
        (t.received m.data).file.id).length = (t.received m.data).file.pos := by
      show (Fs.data _ t.file.id).length = t.file.pos + m.data.length
      rw [Fs.data_setData, List.length_append, hend]
    have hturns' : (t.received m.data).totalSize.toNat - (t.received m.data).offset ≤ turns := by
      show t.totalSize.toNat - (t.offset + m.data.length) ≤ turns
      omega
    rw [hturn, ih hafter htotal' hturns' hfirmware hend', List.flatMap_cons, received_append,
      show (t.received m.data).file.id = t.file.id from rfl, Fs.data_setData, Fs.setData_setData,
      List.append_assoc]

/-- The note goes, and nothing else. -/
theorem partialNoteRemove_exec {target p : CString} (hp : p ≠ notePath target) :
    ((partialNoteRemove target).exec disk (s, inbox)).2.2.1.content p = s.content p := by
  unfold partialNoteRemove
  rcases hname : makeNotePath target fullPathSize with e | name
  · rfl
  obtain rfl := makeNotePath_eq hname
  have hunlink : (disk (.fsUnlink (notePath target)) (s, inbox)).2.1.content p = s.content p := by
    rcases hnode : s.names (notePath target) with _ | _ | id
    · simp only [disk, hnode]
    · simp only [disk, hnode]
    · simp only [disk, hnode]
      exact s.content_unlink_of_ne hp
  exact hunlink

/-- A partial file that is what was announced becomes the target. -/
theorem transferFinish_exec {target : CString} (hfirmware : t.firmware = false)
    (hpart : s.names (temporaryPath target) = some (.file t.file.id))
    (hfree : s.names target ≠ some .directory) (hsize : t.offset = t.totalSize.toNat)
    (hcrc : t.actualCrc32 = t.crc32) :
    ((transferFinish t target (temporaryPath target) none).exec disk (s, inbox)).2.1 = none ∧
      ((transferFinish t target (temporaryPath target) none).exec disk (s, inbox)).2.2.1.content
        target = some (s.data t.file.id) := by
  have hfile : ¬ t.firmware = true := hfirmware ▸ Bool.false_ne_true
  have hsame : ¬ (t.offset ≠ t.totalSize.toNat ∨ t.actualCrc32 ≠ t.crc32) := by
    simp [hsize, hcrc]
  have hrename : disk (.fsRename (temporaryPath target) target) (s, inbox) =
      (none, s.rename (temporaryPath target) target, inbox) := by
    simp only [disk, hpart, if_neg hfree]
  have hcommit : ((transferFinish t target (temporaryPath target) none).exec disk (s, inbox)).2 =
      ((partialNoteRemove target >>= fun _ => pure none).exec disk
        (s.rename (temporaryPath target) target, inbox)).2 := by
    unfold transferFinish commitTemporary
    rw [if_neg hfile, if_neg hsame]
    show ((fsRename (temporaryPath target) target >>= _).exec disk (s, inbox)).2 = _
    rw [Prog.exec_bind, Prog.exec_perform, hrename]
    rfl
  rw [hcommit, Prog.exec_bind]
  refine ⟨rfl, (partialNoteRemove_exec (ne_notePath target)).trans ?_⟩
  rw [Fs.content_rename_target, Fs.content_of_names hpart]

/-- **A transfer that goes on with what there is**, from messages that hold the rest, leaves the
file. -/
theorem receiveAll_exec {target : CString} {content : List UInt8} {messages : List Message}
    (haccepted : Accepted t messages) (hnote : t.note = noteOf content)
    (hsmall : content.length < 2 ^ 32)
    (hpart : s.names (temporaryPath target) = some (.file t.file.id))
    (hfree : s.names target ≠ some .directory) (hfirmware : t.firmware = false)
    (hoffset : t.offset = (s.data t.file.id).length) (hpos : t.file.pos = t.offset)
    (hcrc : t.actualCrc32 = crc32 (s.data t.file.id))
    (hdata : s.data t.file.id ++ messages.flatMap (·.data) = content) :
    ((receiveAll t target).exec disk (s, messages)).2.1 = none ∧
      ((receiveAll t target).exec disk (s, messages)).2.2.1.content target = some content := by
  have htotal : t.totalSize.toNat = content.length := by
    rw [show t.totalSize = (noteOf content).totalSize from congrArg Note.totalSize hnote]
    exact toNat_totalSize hsmall
  have hlength : t.offset + (messages.flatMap (·.data)).length = t.totalSize.toNat := by
    rw [htotal, ← hdata, List.length_append, hoffset]
  have hloop := receiveLoop_exec haccepted hlength le_rfl hfirmware (hoffset.symm.trans hpos.symm)
  rw [hdata] at hloop
  have hall : ((receiveAll t target).exec disk (s, messages)).2 =
      ((transferFinish (t.received (messages.flatMap (·.data))) target (temporaryPath target)
        none).exec disk (s.setData t.file.id content, [])).2 := by
    unfold receiveAll transferReceive
    rw [Prog.exec_bind, hloop]
  have hsum : (t.received (messages.flatMap (·.data))).actualCrc32 = t.crc32 := by
    show crc32Update t.actualCrc32 _ = t.crc32
    rw [hcrc, crc32, ← crc32Update_append, hdata]
    exact (congrArg Note.crc32 hnote).symm
  have hsize : (t.received (messages.flatMap (·.data))).offset =
      (t.received (messages.flatMap (·.data))).totalSize.toNat := hlength
  rw [hall]
  obtain ⟨hnone, hfile⟩ := transferFinish_exec (s := s.setData t.file.id content)
    (t := t.received (messages.flatMap (·.data))) hfirmware hpart hfree hsize hsum
  exact ⟨hnone, hfile.trans (congrArg some (Fs.data_setData ..))⟩

end

/-! ### Runs to look at -/

/-- Two programs on one store, each with its own messages. -/
def diskLeft (o : Op) (x : Fs × List Message × List Message) :
    OpResult o × (Fs × List Message × List Message) :=
  let (r, s, inbox) := disk o (x.1, x.2.1)
  (r, s, inbox, x.2.2)

def diskRight (o : Op) (x : Fs × List Message × List Message) :
    OpResult o × (Fs × List Message × List Message) :=
  let (r, s, inbox) := disk o (x.1, x.2.2)
  (r, s, x.2.1, inbox)

/-- The calls of two programs on the store, in a given order. -/
def bothOnDisk {α β : Type} (order : List Bool) (p : Program α) (q : Program β) (s : Fs)
    (left right : List Message) : List (Event OpResult Fs ⊕ Event OpResult Fs) :=
  (Interleave.exec diskLeft diskRight order p q (s, left, right)).1.map
    (Sum.map (Event.view Prod.fst) (Event.view Prod.fst))

theorem run_bothOnDisk {α β : Type} (order : List Bool) (p : Program α) (q : Program β) (s : Fs)
    (left right : List Message) :
    ∃ c, Run (Interleave FsStep FsStep) ((p, q), s) (bothOnDisk order p q s left right) c := by
  have hleft : ∀ o (x : Fs × List Message × List Message),
      FsStep o x.1 (diskLeft o x).1 (diskLeft o x).2.1 := fun o x => disk_step o (x.1, x.2.1)
  have hright : ∀ o (x : Fs × List Message × List Message),
      FsStep o x.1 (diskRight o x).1 (diskRight o x).2.1 := fun o x => disk_step o (x.1, x.2.2)
  exact ⟨_, Interleave.exec_run (f := Prod.fst) hleft hright order p q (s, left, right)⟩

/-- A message about a file. -/
def messageOf (opcode flags : UInt8) (requestId : UInt32) (path : CString) (bytes : List UInt8)
    (offset : ℕ) (data : List UInt8) : Message :=
  ⟨opcode, flags, 0, requestId, UInt32.ofNat offset, (noteOf bytes).totalSize, (noteOf bytes).crc32,
    path.bytes, data⟩

/-- The request of the upload of a file. -/
def uploadRequest (path : CString) (flags : UInt8) (bytes : List UInt8) : Message :=
  messageOf opPutRequest flags 1 path bytes 0 []

/-- A part of the file that is uploaded. -/
def uploadData (bytes : List UInt8) (offset count : ℕ) : Message :=
  messageOf opPutData 0 1 CString.empty bytes offset ((bytes.drop offset).take count)

/-- The messages of a server that sends a file in one piece. -/
def downloadReplies (bytes : List UInt8) : List Message :=
  [messageOf opGetInfo 0 1 CString.empty bytes 0 [],
    messageOf opGetData 0 1 CString.empty bytes 0 bytes,
    messageOf opGetResult 0 1 CString.empty bytes 0 []]

/-- A node that has everything, at address 1. -/
def station : Station := ⟨true, true, true, 30, 1⟩

/-- A build without a temporary mount and without a firmware path. -/
def plainBuild : Config := ⟨none, none, 0⟩

end KfswServices.Ftp
