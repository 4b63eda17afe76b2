/-
# The receiving side of a transfer

`kfsw_ftp_get` and the server's answer to an upload receive a file in the same way: into a partial
file beside the target, with a note that says what it is going to become, and with a rename at the
end.  `Guarantee` says for each of their calls what it may be, and what is known when it is made;
`receives_servePut` and `receives_get` say that all their calls are so.

Part of what is known is about the partial file, and only holds as long as nobody else has touched
it.  `Ledger` keeps what a side has been told and has done, and whether another side has changed
the partial file since this one last opened it to read it or to start it anew.  `Rely` is what
another side may do; an isolated side has no other.
-/

import KfswServices.Ftp.Client

namespace KfswServices.Ftp

open Library

/-- A name and its bytes are as before. -/
def SameName (p : CString) (s s' : Fs) : Prop :=
  s'.names p = s.names p ∧ s'.content p = s.content p

instance (p : CString) (s s' : Fs) : Decidable (SameName p s s') := instDecidableAnd

theorem SameName.refl (p : CString) (s : Fs) : SameName p s s := ⟨rfl, rfl⟩

theorem SameName.trans {p : CString} {s t u : Fs} (h : SameName p s t) (h' : SameName p t u) :
    SameName p s u := ⟨h'.1.trans h.1, h'.2.trans h.2⟩

/-- The note of a path reads as `note`, as far as it is read. -/
def Noted (target : CString) (note : Note) (s : Fs) : Prop :=
  ∃ bytes, s.content (notePath target) = some bytes ∧ Note.decode (bytes.take 20) = .ok note

/-- What a message says is to be left. -/
def Message.note (m : Message) : Note := ⟨m.totalSize, m.crc32⟩

/-- What a receiving side has been told and has done. -/
structure Ledger where
  announced : Option Note
  received : Option Message
  disturbed : Bool
  committed : Bool

/-- The first message a side receives announces what it is to leave, if it has not been told. -/
def Ledger.receive (l : Ledger) (m : Message) : Ledger :=
  { l with announced := l.announced.or (some m.note), received := some m }

/-- After a call of its own. -/
def Ledger.call (target : CString) (l : Ledger) : (o : Op) → OpResult o → Ledger
  | .linkReceive, .ok m => l.receive m
  | .fsOpen p mode, .ok _ =>
    if p = temporaryPath target ∧ mode ≠ .WRITE then { l with disturbed := false } else l
  | .fsRename _ _, none => { l with committed := true }
  | _, _ => l

/-- A side makes a call. -/
def OwnStep (target : CString) (o : Op) (x : Fs × Ledger) (r : OpResult o) (x' : Fs × Ledger) :
    Prop := FsStep o x.1 r x'.1 ∧ x'.2 = x.2.call target o r

/-- What another side may do: anything, but a change to the partial file is seen. -/
structure Rely (target : CString) (isolated : Prop) (x x' : Fs × Ledger) : Prop where
  alone : isolated → x' = x
  announced : x'.2.announced = x.2.announced
  received : x'.2.received = x.2.received
  committed : x'.2.committed = x.2.committed
  undisturbed : x'.2.disturbed = false →
    x.2.disturbed = false ∧ SameName (temporaryPath target) x.1 x'.1

theorem Rely.refl (target : CString) (isolated : Prop) (x : Fs × Ledger) :
    Rely target isolated x x := ⟨fun _ => rfl, rfl, rfl, rfl, fun h => ⟨h, .refl _ _⟩⟩

variable {target : CString}

theorem Rely.trans {isolated : Prop} {x y z : Fs × Ledger} (h : Rely target isolated x y)
    (h' : Rely target isolated y z) : Rely target isolated x z where
  alone hi := (h'.alone hi).trans (h.alone hi)
  announced := h'.announced.trans h.announced
  received := h'.received.trans h.received
  committed := h'.committed.trans h.committed
  undisturbed hz :=
    ⟨(h.undisturbed (h'.undisturbed hz).1).1,
      (h.undisturbed (h'.undisturbed hz).1).2.trans (h'.undisturbed hz).2⟩

/-- The receiving side of a transfer: its target, how its data messages are known, and what it
finds beside a partial file that it goes on with. -/
structure Side where
  target : CString
  dataOpcode : UInt8
  requestId : UInt32
  Resumable : Fs → Prop

/-- The partial file is the file of this identity, unless another side has changed it. -/
def PartIs (target : CString) (id : ℕ) (P : List UInt8 → Prop) (x : Fs × Ledger) : Prop :=
  x.2.disturbed = false → x.1.names (temporaryPath target) = some (.file id) ∧
    ∃ bytes, x.1.content (temporaryPath target) = some bytes ∧ P bytes

/-- It is of this size and checksum. -/
abbrev Holds (target : CString) (id size : ℕ) (crc : UInt32) : Fs × Ledger → Prop :=
  PartIs target id fun bytes => bytes.length = size ∧ crc32 bytes = crc

/-- The bytes to write are the rest of the message last received, from the position on. -/
def RestOfMessage (side : Side) (l : Ledger) (pos : ℕ) (data : List UInt8) : Prop :=
  ∃ m, l.received = some m ∧ m.opcode = side.dataOpcode ∧ m.requestId = side.requestId ∧
    l.announced = some m.note ∧ m.offset.toNat ≤ pos ∧
      data = m.data.drop (pos - m.offset.toNat)

/-- A write to the partial file: at its end, and of what was received for there. -/
def WritesPart (side : Side) (x : Fs × Ledger) (file : Handle) (data : List UInt8) : Prop :=
  x.1.names (temporaryPath side.target) = some (.file file.id) ∧
    (x.1.data file.id).length = file.pos ∧ RestOfMessage side x.2 file.pos data

/-- A write to the note: of the note, into an empty file. -/
def WritesNote (side : Side) (x : Fs × Ledger) (file : Handle) (data : List UInt8) : Prop :=
  x.1.names (notePath side.target) = some (.file file.id) ∧ x.1.data file.id = [] ∧
    file.pos = 0 ∧ ∃ note, x.2.announced = some note ∧ data = note.encode

/-- **What a call of a receiving side may be**, and what is known when it is made. -/
def Guarantee (side : Side) (isolated : Prop) :
    (o : Op) → Fs × Ledger → OpResult o → Fs × Ledger → Prop
  | .fsOpen p mode, x, _, _ =>
    mode = .READ ∨ (p = notePath side.target ∧ mode = .CREATE_TRUNC) ∨
      (p = temporaryPath side.target ∧ (mode = .CREATE_TRUNC ∨ (isolated → side.Resumable x.1)))
  | .fsWrite file data, x, _, _ =>
    (x.2.disturbed = false → WritesPart side x file data) ∨
      (isolated → WritesNote side x file data)
  | .fsRename source target, x, _, _ =>
    source = temporaryPath side.target ∧ target = side.target ∧ x.2.committed = false ∧
      (x.2.disturbed = false → ∃ note bytes, x.2.announced = some note ∧
        x.1.content (temporaryPath side.target) = some bytes ∧
          bytes.length = note.totalSize.toNat ∧ crc32 bytes = note.crc32)
  | .fsUnlink p, _, _, _ => p = temporaryPath side.target ∨ p = notePath side.target
  | .fsMkdir _, _, _, _ => False
  | .linkSend m, x, _, _ =>
    m.opcode = opPutResult → m.status = statusOk → x.2.committed = true
  | _, _, _, _ => True

/-- The calls of a program are those of a receiving side. -/
abbrev Receives {α : Type} (side : Side) (isolated : Prop) (p : Program α)
    (Q : α → Fs × Ledger → Prop) (x : Fs × Ledger) : Prop :=
  Ensures (OwnStep side.target) (Rely side.target isolated) (Guarantee side isolated) p Q x

section

variable {side : Side} {isolated : Prop} {A : Fs × Ledger → Prop} {x x' : Fs × Ledger}
  {note : Option Note} {id size : ℕ} {crc : UInt32}

/-! ### What stays true -/

/-- Another side does not change it. -/
def Stable (side : Side) (isolated : Prop) (A : Fs × Ledger → Prop) : Prop :=
  ∀ x x', Rely side.target isolated x x' → A x → A x'

/-- Nor is it about who has changed the partial file. -/
def Steady (side : Side) (isolated : Prop) (A : Fs × Ledger → Prop) : Prop :=
  Stable side isolated A ∧ ∀ s l, A (s, l) → A (s, { l with disturbed := false })

/-- The side has been told what is to come, or not yet, and has not committed. -/
def Pending (note : Option Note) (x : Fs × Ledger) : Prop :=
  x.2.announced = note ∧ x.2.committed = false

theorem Stable.and {B : Fs × Ledger → Prop} (hA : Stable side isolated A)
    (hB : Stable side isolated B) : Stable side isolated fun x => A x ∧ B x :=
  fun x x' hrely h => ⟨hA x x' hrely h.1, hB x x' hrely h.2⟩

theorem Steady.and {B : Fs × Ledger → Prop} (hA : Steady side isolated A)
    (hB : Steady side isolated B) : Steady side isolated fun x => A x ∧ B x :=
  ⟨hA.1.and hB.1, fun s l h => ⟨hA.2 s l h.1, hB.2 s l h.2⟩⟩

theorem steady_pending : Steady side isolated (Pending note) :=
  ⟨fun _ _ hrely h => ⟨hrely.announced.trans h.1, hrely.committed.trans h.2⟩, fun _ _ h => h⟩

/-- What an isolated side finds in the filesystem. -/
theorem steady_found (side : Side) (isolated : Prop) (P : Fs → Prop) :
    Steady side isolated fun x => isolated → P x.1 :=
  ⟨fun _ _ hrely h hi => by rw [hrely.alone hi]; exact h hi, fun _ _ h => h⟩

theorem stable_part (P : List UInt8 → Prop) : Stable side isolated (PartIs side.target id P) := by
  intro x x' hrely h hundisturbed
  obtain ⟨hbefore, hnames, hcontent⟩ := hrely.undisturbed hundisturbed
  obtain ⟨hname, bytes, hbytes, hP⟩ := h hbefore
  exact ⟨hnames.trans hname, bytes, hcontent.trans hbytes, hP⟩

/-! ### Calls that change nothing -/

/-- A call that leaves the filesystem and the ledger alone, and that may be made at any time. -/
def Op.quiet : Op → Bool
  | .fsStat _ | .fsStatvfs _ | .fsRead _ _ | .fsSeek _ _ | .fsSync _ | .fsClose _
  | .linkConnect _ => true
  | _ => false

theorem receives_quiet {o : Op} (ho : o.quiet = true) (hA : Stable side isolated A) (h : A x) :
    Receives side isolated (Prog.perform o) (fun r x' => A x' ∧ FsStep o x'.1 r x'.1) x := by
  rintro ⟨s, l⟩ hrely r ⟨s', l'⟩ ⟨hfs, hl⟩
  have hsame : s' = s ∧ l' = l := by
    cases o <;> first
      | exact absurd ho Bool.false_ne_true
      | exact ⟨hfs, hl⟩
      | exact ⟨hfs.1, hl⟩
  obtain ⟨rfl, rfl⟩ := hsame
  refine ⟨?_, hA _ _ hrely h, hfs⟩
  cases o <;> first | exact absurd ho Bool.false_ne_true | trivial

variable {m : Message}

/-- A message that is not the report of an upload. -/
theorem receives_send (hm : m.opcode = opPutResult → m.status ≠ statusOk)
    (hA : Stable side isolated A) (h : A x) :
    Receives side isolated (linkSend m) (fun _ x' => A x') x := by
  rintro ⟨s, l⟩ hrely r ⟨s', l'⟩ ⟨hfs, hl⟩
  obtain rfl : s' = s := hfs
  obtain rfl : l' = l := hl
  exact ⟨fun hop hstatus => absurd hstatus (hm hop), hA _ _ hrely h⟩

/-- The removal of the note or of the partial file. -/
theorem receives_unlink {p : CString}
    (hp : p = temporaryPath side.target ∨ p = notePath side.target)
    (hA : Stable side isolated A) (hframe : ∀ s s' l, A (s, l) → A (s', l)) (h : A x) :
    Receives side isolated (fsUnlink p) (fun _ x' => A x') x := by
  rintro ⟨s, l⟩ hrely r ⟨s', l'⟩ ⟨hfs, hl⟩
  obtain rfl : l' = l := by rcases r with _ | e <;> exact hl
  exact ⟨hp, hframe _ _ _ (hA _ _ hrely h)⟩

/-- A file is opened to be read. -/
theorem receives_openRead {p : CString} (hA : Steady side isolated A) (h : A x) :
    Receives side isolated (fsOpen p .READ) (fun r x' => A x' ∧ ∀ file, r = .ok file →
      ∃ id, file = ⟨id, 0⟩ ∧ x'.1.names p = some (.file id)) x := by
  rintro ⟨s, l⟩ hrely r ⟨s', l'⟩ ⟨hfs, hl⟩
  refine ⟨Or.inl rfl, ?_⟩
  have h' := hA.1 _ _ hrely h
  rcases r with e | file
  · obtain rfl : s' = s := hfs
    obtain rfl : l' = l := hl
    exact ⟨h', by rintro file ⟨⟩⟩
  · obtain ⟨id, hnames, rfl, rfl⟩ : ∃ id, s.names p = some (.file id) ∧ file = ⟨id, 0⟩ ∧ s' = s := by
      rcases hfs with ⟨id, hnames, hfile, hs⟩ | ⟨habs, -⟩
      · exact ⟨id, hnames, hfile, hs⟩
      · cases habs
    refine ⟨?_, ?_⟩
    · simp only [Ledger.call] at hl
      subst hl
      split_ifs
      · exact hA.2 _ _ h'
      · exact h'
    · rintro _ ⟨⟩
      exact ⟨id, rfl, hnames⟩

/-! ### What is read -/

/-- The bytes of the partial file. -/
theorem PartIs.data {P : List UInt8 → Prop} (h : PartIs side.target id P x)
    (hundisturbed : x.2.disturbed = false) : P (x.1.data id) := by
  obtain ⟨hnames, bytes, hbytes, hP⟩ := h hundisturbed
  rw [Fs.content_of_names hnames] at hbytes
  cases hbytes
  exact hP

theorem partIs_of_names {P : List UInt8 → Prop}
    (hnames : x.1.names (temporaryPath side.target) = some (.file id)) (hP : P (x.1.data id)) :
    PartIs side.target id P x :=
  fun _ => ⟨hnames, _, Fs.content_of_names hnames, hP⟩

/-- **The CRC pass** counts and sums the bytes up to where it has read. -/
theorem receives_fileCrcLoop (hA : Stable side isolated A) {turns : ℕ}
    (h : A x) (hpart : PartIs side.target id
      (fun bytes => size ≤ bytes.length ∧ crc32 (bytes.take size) = crc) x) :
    Receives side isolated (fileCrcLoop turns ⟨id, size⟩ size crc) (fun r x' => A x' ∧
      ∀ sums, r = .ok sums → Holds side.target id sums.1 sums.2 x') x := by
  induction turns generalizing x size crc with
  | zero => exact ⟨h, by rintro sums ⟨⟩⟩
  | succ turns ih =>
    refine (receives_quiet rfl (hA.and (stable_part _)) ⟨h, hpart⟩).bind ?_
    rintro (e | ⟨bytes, file⟩) x' ⟨⟨h', hpart'⟩, -, hread⟩
    · exact ⟨h', by rintro sums ⟨⟩⟩
    · obtain ⟨hpre, -, hend, rfl⟩ := hread bytes file rfl
      dsimp only
      split_ifs with hnil hbig
      · -- the end of the file, as far as it is still the one that was opened
        refine ⟨h', ?_⟩
        rintro _ ⟨⟩ hundisturbed
        obtain ⟨hnames, data, hdata, hle, hcrc⟩ := hpart' hundisturbed
        obtain ⟨hle', -⟩ := hpart'.data hundisturbed
        have hsize : data.length = size := by
          rw [Fs.content_of_names hnames, Option.some_inj] at hdata
          have := (hend hnil).resolve_left (by decide)
          rw [hdata] at this
          exact le_antisymm this hle
        rw [← hsize, List.take_length] at hcrc
        exact ⟨hnames, data, hdata, hsize, hcrc⟩
      · exact ⟨h', by rintro sums ⟨⟩⟩
      · refine ih h' fun hundisturbed => ?_
        obtain ⟨hnames, data, hdata, hle, hcrc⟩ := hpart' hundisturbed
        rw [Fs.content_of_names hnames, Option.some_inj] at hdata
        rw [hdata] at hpre
        have htake : data.take (size + bytes.length) = data.take size ++ bytes := by
          rw [List.take_add, ← List.prefix_iff_eq_take.1 hpre]
        have hlength : bytes.length ≤ data.length - size := by simpa using hpre.length_le
        refine ⟨hnames, data, hdata ▸ Fs.content_of_names hnames, ?_, ?_⟩
        · have hpos := List.length_pos_iff.2 hnil
          omega
        · rw [htake, crc32, crc32Update_append, ← crc32, hcrc]

theorem receives_fileCrc (hA : Steady side isolated A) (h : A x) :
    Receives side isolated (fileCrc (temporaryPath side.target)) (fun r x' => A x' ∧
      ∀ sums, r = .ok sums → ∃ id, Holds side.target id sums.1 sums.2 x') x := by
  refine (receives_openRead hA h).bind ?_
  rintro (e | file) x₁ ⟨h₁, hfile⟩
  · exact ⟨h₁, by rintro sums ⟨⟩⟩
  · obtain ⟨id, rfl, hnames⟩ := hfile file rfl
    have hstart : PartIs side.target id
        (fun bytes => 0 ≤ bytes.length ∧ crc32 (bytes.take 0) = 0) x₁ :=
      partIs_of_names hnames ⟨Nat.zero_le _, by simp [crc32]⟩
    refine (receives_fileCrcLoop hA.1 h₁ hstart).bind ?_
    rintro r x₂ ⟨h₂, hr⟩
    have hstable : Stable side isolated fun x => A x ∧
        ∀ sums, r = .ok sums → Holds side.target id sums.1 sums.2 x :=
      hA.1.and fun x x' hrely hx sums hsums => stable_part _ x x' hrely (hx sums hsums)
    refine (receives_quiet rfl hstable ⟨h₂, hr⟩).bind ?_
    rintro closed x₃ ⟨⟨h₃, hr₃⟩, -⟩
    rcases r with e | sums <;> rcases closed with _ | e'
    · exact ⟨h₃, by rintro sums ⟨⟩⟩
    · exact ⟨h₃, by rintro sums ⟨⟩⟩
    · exact ⟨h₃, by rintro _ ⟨⟩; exact ⟨id, hr₃ sums rfl⟩⟩
    · exact ⟨h₃, by rintro sums ⟨⟩⟩

variable {n : Note}

/-- What makes a note is all of it. -/
theorem length_of_decode {bytes : List UInt8} (h : Note.decode bytes = .ok n) :
    bytes.length = 20 := by
  by_contra hne
  rw [Note.decode, if_pos hne] at h
  cases h

theorem receives_readNote (hA : Steady side isolated A) (h : A x) :
    Receives side isolated (readNote (notePath side.target)) (fun r x' => A x' ∧
      ∀ n, r = .ok n → isolated → Noted side.target n x'.1) x := by
  refine (receives_openRead hA h).bind ?_
  rintro (e | file) x₁ ⟨h₁, hfile⟩
  · exact ⟨h₁, by rintro n ⟨⟩⟩
  · obtain ⟨id, rfl, hnames⟩ := hfile file rfl
    have hfound := steady_found side isolated fun s => s.names (notePath side.target) = some (.file id)
    refine (receives_quiet rfl (hA.1.and hfound.1) ⟨h₁, fun _ => hnames⟩).bind ?_
    rintro read x₂ ⟨⟨h₂, hnames₂⟩, -, hread⟩
    have hnoted : ∀ bytes file, read = .ok (bytes, file) → ∀ n, Note.decode bytes = .ok n →
        isolated → Noted side.target n x₂.1 := by
      intro bytes file hr n hdecode hi
      obtain ⟨hpre, -, -, -⟩ := hread bytes file hr
      refine ⟨_, Fs.content_of_names (hnames₂ hi), ?_⟩
      rw [List.drop_zero, List.prefix_iff_eq_take, length_of_decode hdecode] at hpre
      rw [← hpre]
      exact hdecode
    have hsteady : Stable side isolated fun x => A x ∧ ∀ bytes file, read = .ok (bytes, file) →
        ∀ n, Note.decode bytes = .ok n → isolated → Noted side.target n x.1 :=
      hA.1.and fun x x' hrely hx bytes file hr n hn hi => by
        rw [hrely.alone hi]
        exact hx bytes file hr n hn hi
    refine (receives_quiet rfl hsteady ⟨h₂, hnoted⟩).bind ?_
    rintro closed x₃ ⟨⟨h₃, hnoted₃⟩, -⟩
    rcases read with e | ⟨bytes, file⟩ <;> rcases closed with _ | e'
    · exact ⟨h₃, by rintro n ⟨⟩⟩
    · exact ⟨h₃, by rintro n ⟨⟩⟩
    · exact ⟨h₃, fun n hn => hnoted₃ bytes file rfl n hn⟩
    · exact ⟨h₃, by rintro n ⟨⟩⟩

/-- **Where to go on.**  The offset is the size of the partial file, the checksum is its own, and
the note beside it is the one that is wanted. -/
theorem receives_partialResumePoint {wanted : Note} (hA : Steady side isolated A) (h : A x) :
    Receives side isolated (partialResumePoint side.target wanted) (fun r x' => A x' ∧
      (r.1 = 0 → r.2 = 0) ∧ (r.1 ≠ 0 → (isolated → Noted side.target wanted x'.1) ∧
        ∃ id, Holds side.target id r.1 r.2 x')) x := by
  have hnone : ∀ x', A x' → A x' ∧ ((0 : ℕ) = 0 → (0 : UInt32) = 0) ∧ ((0 : ℕ) ≠ 0 →
      (isolated → Noted side.target wanted x'.1) ∧ ∃ id, Holds side.target id 0 0 x') :=
    fun x' hx' => ⟨hx', fun _ => rfl, fun hne => absurd rfl hne⟩
  unfold partialResumePoint
  rcases hname : makeNotePath side.target fullPathSize with e | name
  · exact hnone x h
  obtain rfl := makeNotePath_eq hname
  refine (receives_readNote hA h).bind ?_
  rintro (e | found) x₁ ⟨h₁, hfound⟩
  · exact hnone x₁ h₁
  dsimp only
  split_ifs with hne
  · exact hnone x₁ h₁
  obtain rfl : found = wanted := not_not.1 hne
  rcases htemporary : makeTemporaryPath side.target fullPathSize with e | temporary
  · exact hnone x₁ h₁
  obtain rfl := makeTemporaryPath_eq htemporary
  have hnoted := steady_found side isolated (Noted side.target found)
  refine (receives_fileCrc (hA.and hnoted) ⟨h₁, hfound found rfl⟩).bind ?_
  rintro (e | ⟨size, crc⟩) x₂ ⟨⟨h₂, hnoted₂⟩, hsums⟩
  · exact hnone x₂ h₂
  dsimp only
  split_ifs with hsize
  · exact hnone x₂ h₂
  · exact ⟨h₂, fun h0 => absurd (Or.inl h0) hsize, fun _ => ⟨hnoted₂, hsums _ rfl⟩⟩

variable {cfg : Config}

theorem receives_checkSpace {path : CString} {bytes : ℕ} (hA : Stable side isolated A) (h : A x) :
    Receives side isolated (checkSpace cfg path bytes) (fun _ x' => A x') x := by
  refine (receives_quiet rfl hA h).bind ?_
  rintro (e | volume) x' ⟨h', -⟩
  · exact h'
  · dsimp only
    split_ifs
    · exact h'
    · exact h'

/-! ### What is written -/

/-- The note or the partial file is started anew. -/
theorem receives_openCreate {p : CString}
    (hp : p = temporaryPath side.target ∨ p = notePath side.target) (h : Pending note x) :
    Receives side isolated (fsOpen p .CREATE_TRUNC) (fun r x' => Pending note x' ∧
      ∀ file, r = .ok file → ∃ id, file = ⟨id, 0⟩ ∧ x'.1.names p = some (.file id) ∧
        x'.1.data id = []) x := by
  rintro ⟨s, l⟩ hrely r ⟨s', l'⟩ ⟨hfs, hl⟩
  have h' := steady_pending.1 _ _ hrely h
  refine ⟨?_, ?_, ?_⟩
  · rcases hp with hp | hp
    · exact Or.inr (Or.inr ⟨hp, Or.inl rfl⟩)
    · exact Or.inr (Or.inl ⟨hp, rfl⟩)
  · rcases r with e | file
    · obtain rfl : l' = l := hl
      exact h'
    · simp only [Ledger.call] at hl
      subst hl
      split_ifs <;> exact h'
  · rintro file rfl
    rcases hfs with ⟨id, hnames, rfl, hs⟩ | ⟨-, -, rfl, hs⟩
    · rw [if_pos rfl] at hs
      change s' = s.setData id [] at hs
      subst hs
      exact ⟨id, rfl, hnames, Function.update_self ..⟩
    · change s' = s.create p at hs
      subst hs
      exact ⟨s.next, rfl, Function.update_self .., Function.update_self ..⟩

variable {file : Handle}

/-- A write to the note. -/
theorem receives_writeNote (h : Pending (some n) x)
    (hfile : isolated → x.1.names (notePath side.target) = some (.file file.id) ∧
      x.1.data file.id = [] ∧ file.pos = 0) :
    Receives side isolated (fsWrite file n.encode) (fun _ x' => Pending (some n) x') x := by
  rintro ⟨s, l⟩ hrely r ⟨s', l'⟩ ⟨hfs, hl⟩
  have h' := steady_pending.1 _ _ hrely h
  refine ⟨Or.inr fun hi => ?_, ?_⟩
  · obtain rfl := hrely.alone hi
    obtain ⟨hnames, hdata, hpos⟩ := hfile hi
    exact ⟨hnames, hdata, hpos, n, h.1, rfl⟩
  · obtain rfl : l' = l := hl
    exact h'

theorem receives_partialNoteWrite (h : Pending (some n) x) :
    Receives side isolated (partialNoteWrite side.target n)
      (fun _ x' => Pending (some n) x') x := by
  unfold partialNoteWrite
  rcases hname : makeNotePath side.target fullPathSize with e | name
  · exact h
  obtain rfl := makeNotePath_eq hname
  refine (receives_openCreate (Or.inr rfl) h).bind ?_
  rintro (e | file) x₁ ⟨h₁, hfile⟩
  · exact h₁
  obtain ⟨id, rfl, hnames, hdata⟩ := hfile file rfl
  refine (receives_writeNote h₁ fun _ => ⟨hnames, hdata, rfl⟩).bind ?_
  intro written x₂ h₂
  -- whatever the write and the sync came to, the file is closed and the note taken back on an error
  have hclose : ∀ (result : Option Errno) x₃, Pending (some n) x₃ → Receives side isolated (do
      let closeResult ← fsClose ⟨id, 0⟩
      let result := firstError result closeResult
      if result ≠ none then
        let _ ← fsUnlink (notePath side.target)
        pure result
      else pure result) (fun _ x' => Pending (some n) x') x₃ := by
    intro result x₃ h₃
    refine (receives_quiet rfl steady_pending.1 h₃).bind ?_
    rintro closed x₄ ⟨h₄, -⟩
    dsimp only
    split_ifs
    · exact (receives_unlink (Or.inr rfl) steady_pending.1 (fun _ _ _ hx => hx) h₄).bind
        fun _ _ h₅ => h₅
    · exact h₄
  dsimp only
  split_ifs
  · exact (receives_quiet rfl steady_pending.1 h₂).bind fun result x₃ h₃ => hclose result x₃ h₃.1
  · exact hclose _ x₂ h₂

/-- The transfer is this side's, and what it is to leave has been announced. -/
def Carries (side : Side) (t : Transfer) (x : Fs × Ledger) : Prop :=
  t.firmware = false ∧ t.dataOpcode = side.dataOpcode ∧ t.requestId = side.requestId ∧
    Pending (some t.note) x

variable {t : Transfer}

theorem steady_carries : Steady side isolated (Carries side t) :=
  ⟨fun _ _ hrely h => ⟨h.1, h.2.1, h.2.2.1, steady_pending.1 _ _ hrely h.2.2.2⟩, fun _ _ h => h⟩

/-- What the partial file has to be for a transfer to go on where it starts. -/
def Ready (side : Side) (isolated : Prop) (t : Transfer) (x : Fs × Ledger) : Prop :=
  (t.offset = 0 → t.actualCrc32 = 0) ∧
    (t.offset ≠ 0 → (isolated → side.Resumable x.1) ∧
      ∃ id, Holds side.target id t.offset t.actualCrc32 x)

/-- The open file is the partial file, up to the transfer's offset. -/
def Holding (side : Side) (t : Transfer) (x : Fs × Ledger) : Prop :=
  t.file.pos = t.offset ∧ Holds side.target t.file.id t.offset t.actualCrc32 x

theorem stable_holding : Stable side isolated (Holding side t) :=
  fun _ _ hrely h => ⟨h.1, stable_part _ _ _ hrely h.2⟩

theorem stable_ready : Stable side isolated (Ready side isolated t) := by
  intro x x' hrely h
  refine ⟨h.1, fun hne => ⟨fun hi => ?_, ?_⟩⟩
  · rw [hrely.alone hi]
    exact (h.2 hne).1 hi
  · obtain ⟨id, hid⟩ := (h.2 hne).2
    exact ⟨id, stable_part _ _ _ hrely hid⟩

/-- The partial file is opened to go on with it. -/
theorem receives_openWrite (hne : t.offset ≠ 0) (h : Carries side t x)
    (hready : Ready side isolated t x) :
    Receives side isolated (fsOpen (temporaryPath side.target) .WRITE) (fun r x' =>
      Carries side t x' ∧ ∀ file, r = .ok file →
        Holds side.target file.id t.offset t.actualCrc32 x') x := by
  rintro ⟨s, l⟩ hrely r ⟨s', l'⟩ ⟨hfs, hl⟩
  have h' := steady_carries.1 _ _ hrely h
  obtain ⟨hresumable, id, hpart⟩ := (stable_ready _ _ hrely hready).2 hne
  refine ⟨Or.inr (Or.inr ⟨rfl, Or.inr hresumable⟩), ?_⟩
  rcases r with e | file
  · obtain rfl : l' = l := hl
    exact ⟨h', by rintro file ⟨⟩⟩
  · have hcall : l' = l := by
      rw [Ledger.call, if_neg fun hc => hc.2 rfl] at hl
      exact hl
    subst hcall
    refine ⟨h', ?_⟩
    rintro _ ⟨⟩
    rcases hfs with ⟨id', hnames, rfl, hs⟩ | ⟨habs, -⟩
    · obtain rfl : s' = s := hs
      intro hundisturbed
      have hid := (hpart hundisturbed).1
      change s'.names _ = _ at hid
      rw [hid] at hnames
      cases hnames
      exact hpart hundisturbed
    · cases habs

/-- **The sink.**  The file that is opened is the partial file, at its end. -/
theorem receives_transferOpenSink (h : Carries side t x) (hready : Ready side isolated t x) :
    Receives side isolated (transferOpenSink t (temporaryPath side.target)) (fun r x' =>
      Pending (some t.note) x' ∧ ∀ t', r = .ok t' →
        t'.note = t.note ∧ Carries side t' x' ∧ Holding side t' x') x := by
  unfold transferOpenSink
  split_ifs with h0
  · refine (receives_unlink (Or.inl rfl) steady_carries.1 (fun _ _ _ hx => hx) h).bind ?_
    intro _ x₁ h₁
    refine (receives_openCreate (Or.inl rfl) h₁.2.2.2).bind ?_
    rintro (e | file) x₂ ⟨h₂, hfile⟩
    · exact ⟨h₂, by rintro t' ⟨⟩⟩
    · obtain ⟨id, rfl, hnames, hdata⟩ := hfile file rfl
      refine ⟨h₂, ?_⟩
      rintro _ ⟨⟩
      refine ⟨rfl, ⟨h.1, h.2.1, h.2.2.1, h₂⟩, h0.symm, partIs_of_names hnames ?_⟩
      rw [hdata, hready.1 h0]
      exact ⟨h0.symm, by simp [crc32]⟩
  · refine (receives_openWrite h0 h hready).bind ?_
    rintro (e | file) x₁ ⟨h₁, hfile⟩
    · exact ⟨h₁.2.2.2, by rintro t' ⟨⟩⟩
    have hstable : Stable side isolated fun x =>
        Carries side t x ∧ Holds side.target file.id t.offset t.actualCrc32 x :=
      steady_carries.1.and (stable_part _)
    refine (receives_quiet rfl hstable ⟨h₁, hfile file rfl⟩).bind ?_
    rintro (e | file') x₂ ⟨⟨h₂, hpart⟩, -, hseek⟩
    · refine (receives_quiet rfl steady_pending.1 h₂.2.2.2).bind ?_
      rintro _ x₃ ⟨h₃, -⟩
      exact ⟨h₃, by rintro t' ⟨⟩⟩
    · obtain rfl := hseek file' rfl
      refine ⟨h₂.2.2.2, ?_⟩
      rintro _ ⟨⟩
      exact ⟨rfl, h₂, rfl, hpart⟩

/-- A write that gets some of its bytes in, at the end of the partial file. -/
theorem Holds.write {s : Fs} {l : Ledger} {written : List UInt8}
    (h : Holds side.target file.id file.pos crc (s, l)) :
    Holds side.target file.id (file.pos + written.length) (crc32Update crc written)
      (s.writeData file written, l) := by
  intro hundisturbed
  obtain ⟨hnames, -⟩ := h hundisturbed
  obtain ⟨hlength, hcrc⟩ := h.data hundisturbed
  show (s.writeData file written).names _ = _ ∧ ∃ bytes, (s.writeData file written).content _ = _ ∧ _
  rw [s.writeData_end written hlength]
  refine ⟨hnames, s.data file.id ++ written, s.content_setData _ hnames, ?_, ?_⟩
  · rw [List.length_append, hlength]
  · rw [crc32, crc32Update_append, ← crc32, hcrc]

/-- The data of the message in hand has been written up to the position. -/
def Writing (side : Side) (t : Transfer) (m : Message) (done : List UInt8) (file : Handle)
    (x : Fs × Ledger) : Prop :=
  Carries side t x ∧ x.2.received = some m ∧ file.pos = t.offset + done.length ∧
    Holds side.target file.id file.pos (crc32Update t.actualCrc32 done) x

theorem stable_writing {done : List UInt8} : Stable side isolated (Writing side t m done file) :=
  fun _ _ hrely h => ⟨steady_carries.1 _ _ hrely h.1, hrely.received.trans h.2.1, h.2.2.1,
    stable_part _ _ _ hrely h.2.2.2⟩

/-- A write to the partial file, of the rest of the message. -/
theorem receives_writePart {done rest : List UInt8} (hvalid : dataMessageIsValid t m = true)
    (hdata : m.data = done ++ rest) (h : Writing side t m done file x) :
    Receives side isolated (fsWrite file rest) (fun r x' => Carries side t x' ∧
      ∀ written file', r = .ok (written, file') → written ≤ rest.length ∧
        Writing side t m (done ++ rest.take written) file' x') x := by
  rintro ⟨s, l⟩ hrely r ⟨s', l'⟩ ⟨hfs, hl⟩
  obtain ⟨hcarries, hreceived, hpos, hholds⟩ := stable_writing _ _ hrely h
  simp only [dataMessageIsValid, Bool.and_eq_true, decide_eq_true_eq] at hvalid
  obtain ⟨⟨⟨⟨⟨⟨⟨⟨⟨hop, hid⟩, -⟩, -⟩, -⟩, -⟩, hoffset⟩, hsize⟩, hcrc⟩, -⟩ := hvalid
  refine ⟨Or.inl fun hundisturbed => ⟨(hholds hundisturbed).1, (hholds.data hundisturbed).1, m,
    hreceived, hop.trans hcarries.2.1, hid.trans hcarries.2.2.1, ?_, ?_, ?_⟩, ?_⟩
  · rw [hcarries.2.2.2.1, Message.note, hsize, hcrc]
    rfl
  · omega
  · rw [show file.pos - m.offset.toNat = done.length by omega, hdata, List.drop_left]
  · rcases r with e | ⟨written, file'⟩
    · obtain rfl : l' = l := hl
      exact ⟨hcarries, by rintro _ _ ⟨⟩⟩
    · obtain rfl : l' = l := hl
      obtain ⟨hle, hs, rfl⟩ := hfs
      change s' = s.writeData file (rest.take written) at hs
      subst hs
      refine ⟨hcarries, ?_⟩
      rintro _ _ ⟨⟩
      have hlen : (rest.take written).length = written := List.length_take_of_le hle
      refine ⟨hle, hcarries, hreceived, ?_, ?_⟩
      · show file.pos + written = _
        rw [List.length_append, hlen]
        omega
      · have hwritten : Holds side.target file.id (file.pos + (rest.take written).length)
            (crc32Update (crc32Update t.actualCrc32 done) (rest.take written))
              (s.writeData file (rest.take written), l') := hholds.write
        rw [hlen, ← crc32Update_append] at hwritten
        exact hwritten

theorem receives_writeAllLoop {turns : ℕ} {done rest : List UInt8}
    (hvalid : dataMessageIsValid t m = true) (hdata : m.data = done ++ rest)
    (hturns : rest.length ≤ turns) (h : Writing side t m done file x) :
    Receives side isolated (writeAllLoop turns file rest) (fun r x' => Carries side t x' ∧
      ∀ file', r = .ok file' → Writing side t m m.data file' x') x := by
  induction turns generalizing x done rest file with
  | zero =>
    obtain rfl := List.length_eq_zero_iff.1 (Nat.le_zero.1 hturns)
    rw [List.append_nil] at hdata
    refine ⟨h.1, ?_⟩
    rintro _ ⟨⟩
    exact hdata ▸ h
  | succ turns ih =>
    unfold writeAllLoop
    split_ifs with hnil
    · subst hnil
      rw [List.append_nil] at hdata
      refine ⟨h.1, ?_⟩
      rintro _ ⟨⟩
      exact hdata ▸ h
    · refine (receives_writePart hvalid hdata h).bind ?_
      rintro (e | ⟨written, file'⟩) x₁ ⟨h₁, hok⟩
      · exact ⟨h₁, by rintro _ ⟨⟩⟩
      · obtain ⟨hle, hwriting⟩ := hok written file' rfl
        dsimp only
        split_ifs with hzero
        · exact ⟨h₁, by rintro _ ⟨⟩⟩
        · refine ih ?_ ?_ hwriting
          · rw [List.append_assoc, List.take_append_drop, hdata]
          · rw [List.length_drop]
            omega

/-- **A turn.**  A message that is taken is at the end of the partial file after it. -/
theorem receives_receiveData (h : Carries side t x) (hreceived : x.2.received = some m)
    (hholding : Holding side t x) :
    Receives side isolated (receiveData t m) (fun r x' => Pending (some t.note) x' ∧
      ∀ t', r = .ok t' → t'.note = t.note ∧ Carries side t' x' ∧ Holding side t' x') x := by
  unfold receiveData
  split_ifs with hvalid hfirmware
  · exact ⟨h.2.2.2, by rintro _ ⟨⟩⟩
  · rw [h.1] at hfirmware
    cases hfirmware
  · have hwriting : Writing side t m [] t.file x :=
      ⟨h, hreceived, by rw [hholding.1]; rfl, by
        rw [hholding.1, crc32Update_nil]
        exact hholding.2⟩
    rw [Bool.not_eq_true', Bool.not_eq_false] at hvalid
    refine (receives_writeAllLoop hvalid rfl le_rfl hwriting).bind ?_
    rintro (e | file) x₁ ⟨h₁, hok⟩
    · exact ⟨h₁.2.2.2, by rintro _ ⟨⟩⟩
    · obtain ⟨hcarries, -, hpos, hholds⟩ := hok file rfl
      refine ⟨h₁.2.2.2, ?_⟩
      rintro _ ⟨⟩
      refine ⟨rfl, hcarries, hpos, ?_⟩
      rw [hpos] at hholds
      exact hholds

/-- A message comes in, for a side that has been told what it is to leave. -/
theorem receives_linkReceive (h : Pending (some n) x) (hholding : Holding side t x) :
    Receives side isolated linkReceive (fun r x' => Pending (some n) x' ∧ Holding side t x' ∧
      ∀ m, r = .ok m → x'.2.received = some m) x := by
  rintro ⟨s, l⟩ hrely r ⟨s', l'⟩ ⟨hfs, hl⟩
  obtain rfl : s' = s := hfs
  have h' := steady_pending.1 _ _ hrely h
  have hholding' := stable_holding _ _ hrely hholding
  refine ⟨trivial, ?_⟩
  rcases r with e | m
  · obtain rfl : l' = l := hl
    exact ⟨h', hholding', by rintro _ ⟨⟩⟩
  · obtain rfl : l' = l.receive m := hl
    refine ⟨⟨?_, h'.2⟩, hholding', by rintro _ ⟨⟩; rfl⟩
    show l.announced.or _ = _
    rw [show l.announced = some n from h'.1]
    rfl

theorem receives_transferReceiveLoop {turns : ℕ} (h : Carries side t x)
    (hholding : Holding side t x) :
    Receives side isolated (transferReceiveLoop turns t) (fun r x' => r.2.note = t.note ∧
      r.2.firmware = false ∧ Pending (some t.note) x' ∧ (r.1 = none → Holding side r.2 x')) x := by
  induction turns generalizing x t with
  | zero => exact ⟨rfl, h.1, h.2.2.2, fun _ => hholding⟩
  | succ turns ih =>
    unfold transferReceiveLoop
    split_ifs with hmore
    · refine (receives_linkReceive h.2.2.2 hholding).bind ?_
      rintro (e | m) x₁ ⟨h₁, hholding₁, hreceived⟩
      · exact ⟨rfl, h.1, h₁, by rintro ⟨⟩⟩
      refine (receives_receiveData ⟨h.1, h.2.1, h.2.2.1, h₁⟩ (hreceived m rfl) hholding₁).bind ?_
      rintro (e | t') x₂ ⟨h₂, hok⟩
      · exact ⟨rfl, h.1, h₂, by rintro ⟨⟩⟩
      · obtain ⟨hnote, hcarries, hholding₂⟩ := hok t' rfl
        have := ih hcarries hholding₂
        rw [hnote] at this
        exact this
    · exact ⟨rfl, h.1, h.2.2.2, fun _ => hholding⟩

/-! ### The end -/

/-- A success has been committed. -/
def Reported (result : Option Errno) (x : Fs × Ledger) : Prop :=
  result = none → x.2.committed = true

variable {result : Option Errno}

theorem stable_reported : Stable side isolated (Reported result) :=
  fun _ _ hrely h hr => hrely.committed.trans (h hr)

/-- The rename, of a partial file that is what was announced. -/
theorem receives_rename (h : Pending (some n) x)
    (hholds : Holds side.target id n.totalSize.toNat n.crc32 x) :
    Receives side isolated (fsRename (temporaryPath side.target) side.target)
      (fun r x' => Reported r x') x := by
  rintro ⟨s, l⟩ hrely r ⟨s', l'⟩ ⟨hfs, hl⟩
  have h' := steady_pending.1 _ _ hrely h
  have hholds' := stable_part _ _ _ hrely hholds
  refine ⟨⟨rfl, rfl, h'.2, fun hundisturbed => ?_⟩, ?_⟩
  · obtain ⟨-, bytes, hbytes, hsize, hcrc⟩ := hholds' hundisturbed
    exact ⟨n, bytes, h'.1, hbytes, hsize, hcrc⟩
  · rintro rfl
    obtain rfl : l' = { l with committed := true } := hl
    rfl

theorem receives_partialNoteRemove {path : CString} (hpath : path = side.target)
    (h : Reported result x) :
    Receives side isolated (partialNoteRemove path) (fun _ x' => Reported result x') x := by
  subst hpath
  unfold partialNoteRemove
  rcases hname : makeNotePath side.target fullPathSize with e | name
  · exact h
  obtain rfl := makeNotePath_eq hname
  exact (receives_unlink (Or.inr rfl) stable_reported (fun _ _ _ hx => hx) h).bind
    fun _ _ hx => hx

/-- **The commit.**  The partial file becomes the target if it is what was announced. -/
theorem receives_commitTemporary {size : ℕ} (h : Pending (some n) x)
    (hholds : Holds side.target id size crc x) :
    Receives side isolated (commitTemporary side.target (temporaryPath side.target) size crc
      n.totalSize.toNat n.crc32) (fun r x' => Reported r x') x := by
  -- whatever came of the rename, the note is removed, and the partial file if it is still there
  have hclean : ∀ result x₁, Reported result x₁ → Receives side isolated
      (if result ≠ none then do
        let _ ← fsUnlink (temporaryPath side.target)
        partialNoteRemove side.target
        pure result
      else do
        partialNoteRemove side.target
        pure result) (fun r x' => Reported r x') x₁ := by
    intro result x₁ h₁
    split_ifs
    · refine (receives_unlink (Or.inl rfl) stable_reported (fun _ _ _ hx => hx) h₁).bind ?_
      intro _ x₂ h₂
      exact (receives_partialNoteRemove rfl h₂).bind fun _ _ h₃ => h₃
    · exact (receives_partialNoteRemove rfl h₁).bind fun _ _ h₂ => h₂
  unfold commitTemporary
  dsimp only
  split_ifs with hbad
  · exact hclean (some .EILSEQ) x fun habs => by cases habs
  · obtain ⟨rfl, rfl⟩ : size = n.totalSize.toNat ∧ crc = n.crc32 := by
      rw [not_or, not_not, not_not] at hbad
      exact hbad
    exact (receives_rename h hholds).bind hclean

theorem receives_transferFinish (hfirmware : t.firmware = false) (h : Pending (some t.note) x)
    (hholding : result = none → Holding side t x) :
    Receives side isolated (transferFinish t side.target (temporaryPath side.target) result)
      (fun r x' => Reported r x') x := by
  unfold transferFinish
  rw [hfirmware]
  simp only [Bool.false_eq_true, if_false]
  have hstable : Stable side isolated fun x =>
      Pending (some t.note) x ∧ (result = none → Holding side t x) :=
    steady_pending.1.and fun x x' hrely hx hr => stable_holding _ _ hrely (hx hr)
  refine (receives_quiet rfl hstable ⟨h, hholding⟩).bind ?_
  rintro synced x₁ ⟨h₁, -⟩
  refine (receives_quiet rfl hstable h₁).bind ?_
  rintro closed x₂ ⟨⟨h₂, hholding₂⟩, -⟩
  split_ifs with hnone
  · have hresult : result = none := by
      rcases result with _ | e
      · rfl
      · cases hnone
    exact receives_commitTemporary (n := t.note) h₂ (hholding₂ hresult).2
  · exact fun habs => absurd habs hnone

/-! ### The two receivers -/

/-- The server's side of an upload. -/
def uploadSide (target : CString) (request : Message) : Side :=
  ⟨target, opPutData, request.requestId, Noted target request.note⟩

theorem receives_reserveUpload (h : Carries side t x) (hready : Ready side isolated t x) :
    Receives side isolated (reserveUpload cfg side.target t) (fun r x' =>
      Pending (some t.note) x' ∧ ∀ t', r = .ok t' → t'.note = t.note ∧ Carries side t' x' ∧
        Ready side isolated t' x') x := by
  refine (receives_checkSpace (steady_carries.1.and stable_ready) ⟨h, hready⟩).bind ?_
  rintro (_ | e) x₁ ⟨h₁, hready₁⟩
  · dsimp only
    split_ifs with h0
    · refine (receives_partialNoteWrite h₁.2.2.2).bind ?_
      rintro (_ | e) x₂ h₂
      · refine ⟨h₂, ?_⟩
        rintro _ ⟨⟩
        exact ⟨rfl, ⟨h.1, h.2.1, h.2.2.1, h₂⟩, hready.1, fun hne => absurd h0 hne⟩
      · exact ⟨h₂, by rintro _ ⟨⟩⟩
    · refine ⟨h₁.2.2.2, ?_⟩
      rintro _ ⟨⟩
      exact ⟨rfl, h₁, hready₁⟩
  · exact ⟨h₁.2.2.2, by rintro _ ⟨⟩⟩

variable {request : Message}

theorem receives_prepareUploadTarget {mayResume : Bool} (ht : t.note = request.note)
    (hoffset : t.offset = 0) (hcrc : t.actualCrc32 = 0)
    (h : Carries (uploadSide target request) t x) :
    Receives (uploadSide target request) isolated (prepareUploadTarget cfg target t mayResume)
      (fun r x' => Pending (some t.note) x' ∧ ∀ t', r = .ok t' → t'.note = t.note ∧
        Carries (uploadSide target request) t' x' ∧
          Ready (uploadSide target request) isolated t' x') x := by
  unfold prepareUploadTarget
  rcases makeTemporaryPath target fullPathSize with e | temporary
  · exact ⟨h.2.2.2, by rintro _ ⟨⟩⟩
  refine (receives_quiet rfl steady_carries.1 h).bind ?_
  rintro stat x₁ ⟨h₁, -⟩
  rcases statRefusal stat with _ | e
  · dsimp only
    split_ifs
    · have hresume : Receives (uploadSide target request) isolated
          (partialResumePoint (uploadSide target request).target t.note) _ x₁ :=
        receives_partialResumePoint steady_carries h₁
      refine hresume.bind ?_
      rintro ⟨offset, crc⟩ x₂ ⟨h₂, hzero, hsome⟩
      refine receives_reserveUpload (t := { t with offset := offset, actualCrc32 := crc }) h₂
        ⟨hzero, fun hne => ⟨fun hi => ?_, (hsome hne).2⟩⟩
      rw [ht] at hsome
      exact (hsome hne).1 hi
    · exact receives_reserveUpload h₁ ⟨fun _ => hcrc, fun hne => absurd hoffset hne⟩
  · exact ⟨h₁.2.2.2, by rintro _ ⟨⟩⟩

/-- What `serve_put` opens is ready to hold the announced file, if it is not the firmware slot. -/
theorem receives_openUpload (hresolved : resolveMessagePath cfg request false = .ok target)
    (hfirmware : pathIsFirmware cfg request.path = false) (h : Pending (some request.note) x) :
    Receives (uploadSide target request) isolated (openUpload cfg request)
      (fun r x' => Pending (some request.note) x' ∧ ∀ t path, r = .ok (t, path) → path = target ∧
        t.note = request.note ∧ Carries (uploadSide target request) t x' ∧
          Holding (uploadSide target request) t x') x := by
  unfold openUpload
  rw [hresolved, hfirmware]
  dsimp only
  split_ifs with hbad habs
  · exact ⟨h, by rintro _ _ ⟨⟩⟩
  · cases habs
  refine (receives_prepareUploadTarget (t := ⟨request.requestId, request.totalSize, request.crc32,
    0, 0, opPutData, false, ⟨0, 0⟩⟩) rfl rfl rfl ⟨rfl, rfl, rfl, h⟩).bind ?_
  rintro (e | t) x₁ ⟨h₁, hok⟩
  · exact ⟨h₁, by rintro _ _ ⟨⟩⟩
  obtain ⟨hnote, hcarries, hready⟩ := hok t rfl
  have hopen : Receives (uploadSide target request) isolated
      (transferOpenSink t (temporaryPath (uploadSide target request).target)) _ x₁ :=
    receives_transferOpenSink hcarries hready
  refine hopen.bind ?_
  rintro (e | t') x₂ ⟨h₂, hok₂⟩
  · rw [hnote] at h₂
    exact ⟨h₂, by rintro _ _ ⟨⟩⟩
  · obtain ⟨hnote', hcarries', hholding⟩ := hok₂ t' rfl
    rw [hnote] at h₂ hnote'
    refine ⟨h₂, ?_⟩
    rintro _ _ ⟨⟩
    exact ⟨rfl, hnote', hcarries', hholding⟩

variable {requestId : UInt32}

/-- The report of a success that has been committed. -/
theorem receives_sendStatus {opcode : UInt8} {totalSize crc32 : UInt32} (h : Reported result x) :
    Receives side isolated (sendStatus opcode requestId (wireStatus result) totalSize crc32)
      (fun _ _ => True) x := by
  rintro x₁ hrely r x₂ hstep
  refine ⟨fun _ hstatus => ?_, trivial⟩
  rcases result with _ | e
  · exact stable_reported _ _ hrely h rfl
  · exact absurd hstatus (wireStatus_some e)

theorem receives_reportUpload (hfirmware : t.firmware = false) (h : Pending (some t.note) x)
    (hholding : result = none → Holding (uploadSide target request) t x) :
    Receives (uploadSide target request) isolated (reportUpload request target t result)
      (fun _ _ => True) x := by
  have hfinish : Receives (uploadSide target request) isolated
      (transferFinish t (uploadSide target request).target
        (temporaryPath (uploadSide target request).target) result) _ x :=
    receives_transferFinish hfirmware h hholding
  exact hfinish.bind fun _ _ => receives_sendStatus

/-- **The calls of `serve_put` are those of a receiving side.** -/
theorem receives_servePut (hresolved : resolveMessagePath cfg request false = .ok target)
    (hfirmware : pathIsFirmware cfg request.path = false) (h : Pending (some request.note) x) :
    Receives (uploadSide target request) isolated (servePut cfg request) (fun _ _ => True) x := by
  refine (receives_openUpload hresolved hfirmware h).bind ?_
  rintro (e | ⟨t, path⟩) x₁ ⟨h₁, hok⟩
  · have hrefused : Reported (some e) x₁ := fun habs => by cases habs
    exact receives_sendStatus hrefused
  obtain ⟨rfl, hnote, hcarries, hholding⟩ := hok t path rfl
  refine (receives_send (fun hop => absurd (show opPutReady = opPutResult from hop) (by decide))
    (steady_carries.1.and stable_holding) ⟨hcarries, hholding⟩).bind ?_
  rintro (_ | e) x₂ ⟨hcarries₂, hholding₂⟩
  · refine (receives_transferReceiveLoop hcarries₂ hholding₂).bind ?_
    rintro ⟨result, t'⟩ x₃ ⟨hnote', hfirmware', h₃, hholding₃⟩
    rw [← hnote'] at h₃
    exact receives_reportUpload hfirmware' h₃ hholding₃
  · exact receives_reportUpload hcarries₂.1 hcarries₂.2.2.2 fun habs => by cases habs

/-- The client's side of a download. -/
def downloadSide (target : CString) (requestId : UInt32) : Side :=
  ⟨target, opGetData, requestId, fun _ => True⟩

/-- What `prepare_download` finds of the partial file. -/
theorem receives_prepareDownload {remotePath localPath : CString} (hside : side.target = target)
    (hlocal : resolvePath cfg localPath false fullPathSize = .ok target) (h : Pending none x) :
    Receives side isolated (prepareDownload cfg remotePath localPath) (fun r x' =>
      Pending none x' ∧ ∀ path noted offset crc, r = .ok (path, noted, offset, crc) →
        path = target ∧ (offset = 0 → crc = 0) ∧
          (offset ≠ 0 → ∃ id, Holds side.target id offset crc x')) x := by
  subst hside
  unfold prepareDownload validateVirtualPath
  rw [hlocal]
  rcases resolvePath cfg remotePath false fullPathSize with e | remote
  · exact ⟨h, by rintro _ _ _ _ ⟨⟩⟩
  refine (receives_quiet rfl steady_pending.1 h).bind ?_
  rintro stat x₁ ⟨h₁, -⟩
  rcases statRefusal stat with _ | e
  · rcases makeTemporaryPath side.target fullPathSize with e | temporary
    · exact ⟨h₁, by rintro _ _ _ _ ⟨⟩⟩
    have hread : Receives side isolated (partialNoteRead side.target)
        (fun _ x' => Pending none x') x₁ := by
      unfold partialNoteRead
      rcases hname : makeNotePath side.target fullPathSize with e | name
      · exact h₁
      obtain rfl := makeNotePath_eq hname
      exact (receives_readNote steady_pending h₁).post fun _ _ hx => hx.1
    refine hread.bind ?_
    rintro (e | noted) x₂ h₂
    · refine ⟨h₂, ?_⟩
      rintro _ _ _ _ ⟨⟩
      exact ⟨rfl, fun _ => rfl, fun habs => absurd rfl habs⟩
    refine (receives_partialResumePoint steady_pending h₂).bind ?_
    rintro ⟨offset, crc⟩ x₃ ⟨h₃, hzero, hsome⟩
    refine ⟨h₃, ?_⟩
    rintro _ _ _ _ ⟨⟩
    exact ⟨rfl, hzero, fun hne => (hsome hne).2⟩
  · exact ⟨h₁, by rintro _ _ _ _ ⟨⟩⟩

/-- The reply to the request, which says what comes. -/
theorem receives_awaitGetInfo {claimed : ℕ} (h : Pending none x)
    (hpart : claimed ≠ 0 → ∃ id, Holds side.target id claimed crc x) :
    Receives side isolated (awaitGetInfo requestId claimed) (fun r x' =>
      ∀ n start, r = .ok (n, start) → Pending (some n) x' ∧
        (start ≠ 0 → start = claimed ∧ ∃ id, Holds side.target id claimed crc x')) x := by
  refine Ensures.bind (R := fun r x' => ∀ m, r = .ok m → Pending (some m.note) x' ∧
    (claimed ≠ 0 → ∃ id, Holds side.target id claimed crc x')) ?_ ?_
  · rintro ⟨s, l⟩ hrely r ⟨s', l'⟩ ⟨hfs, hl⟩
    obtain rfl : s' = s := hfs
    refine ⟨trivial, ?_⟩
    rintro m rfl
    obtain rfl : l' = l.receive m := hl
    have h' := steady_pending.1 _ _ hrely h
    refine ⟨⟨?_, h'.2⟩, fun hne => ?_⟩
    · show l.announced.or _ = _
      rw [show l.announced = none from h'.1]
      rfl
    · obtain ⟨id, hid⟩ := hpart hne
      have hid' : Holds side.target id claimed crc (s', l) := stable_part _ _ _ hrely hid
      exact ⟨id, hid'⟩
  · rintro (e | m) x' hm
    · rintro _ _ ⟨⟩
    dsimp only
    rcases wireStatusToErrno m.status with _ | e
    · dsimp only
      split_ifs with hother hresult hstart
      · rintro _ _ ⟨⟩
      · rintro _ _ ⟨⟩
      · rintro _ _ ⟨⟩
      · rintro _ _ ⟨⟩
        refine ⟨(hm m rfl).1, fun hne => ?_⟩
        have hclaimed : m.offset.toNat = claimed := by
          by_contra hdiff
          refine hstart ⟨fun hzero => hne ?_, hdiff⟩
          rw [hzero]
          rfl
        exact ⟨hclaimed, (hm m rfl).2 (hclaimed ▸ hne)⟩
    · split_ifs <;> rintro _ _ ⟨⟩

/-- What `kfsw_ftp_get` opens is ready to hold what comes. -/
theorem receives_openPartial {partialCrc32 : UInt32} (hside : ∀ s, side.Resumable s)
    (hzero : t.actualCrc32 = 0) (h : Carries side t x)
    (hpart : t.offset ≠ 0 → ∃ id, Holds side.target id t.offset partialCrc32 x) :
    Receives side isolated (openPartial cfg side.target t partialCrc32) (fun r x' =>
      ∀ t', r = .ok t' → t'.note = t.note ∧ Carries side t' x' ∧ Holding side t' x') x := by
  have hstable : Stable side isolated fun x => Carries side t x ∧
      (t.offset ≠ 0 → ∃ id, Holds side.target id t.offset partialCrc32 x) := by
    refine steady_carries.1.and fun x x' hrely hx hne => ?_
    obtain ⟨id, hid⟩ := hx hne
    exact ⟨id, stable_part _ _ _ hrely hid⟩
  unfold openPartial preparePartial
  refine (receives_checkSpace hstable ⟨h, hpart⟩).bind ?_
  rintro (_ | e) x₁ ⟨h₁, hpart₁⟩
  · dsimp only
    split_ifs with h0
    · refine (receives_transferOpenSink (t := { t with actualCrc32 := partialCrc32 }) h₁
        ⟨fun habs => absurd habs h0, fun hne => ⟨fun _ => hside _, hpart₁ hne⟩⟩).post ?_
      exact fun _ _ hok => hok.2
    · rw [ensures_bind, ensures_bind]
      refine (receives_partialNoteWrite h₁.2.2.2).post ?_
      rintro (_ | e) x₂ h₂
      · refine (receives_transferOpenSink ⟨h.1, h.2.1, h.2.2.1, h₂⟩
          ⟨fun _ => hzero, fun hne => absurd hne h0⟩).post ?_
        exact fun _ _ hok => hok.2
      · rintro _ ⟨⟩
  · rintro _ ⟨⟩

theorem receives_receiveResponse {opcode : UInt8} (h : Pending (some n) x)
    (hholding : Holding side t x) :
    Receives side isolated (receiveResponse opcode requestId) (fun _ x' => Pending (some n) x' ∧
      Holding side t x') x := by
  refine (receives_linkReceive h hholding).bind ?_
  rintro (e | m) x₁ ⟨h₁, hholding₁, -⟩
  · exact ⟨h₁, hholding₁⟩
  dsimp only
  split_ifs
  · exact ⟨h₁, hholding₁⟩
  · rcases wireStatusToErrno m.status with _ | e <;> exact ⟨h₁, hholding₁⟩

/-- What came of a download, and whether the server reports a success too. -/
theorem receives_awaitDownload (h : Pending (some t.note) x)
    (hholding : result = none → Holding side t x) :
    Receives side isolated (awaitDownload t result) (fun r x' => Pending (some t.note) x' ∧
      (r = none → Holding side t x')) x := by
  unfold awaitDownload awaitTransferResult
  split_ifs with hnone
  · refine (receives_receiveResponse h (hholding hnone)).bind ?_
    rintro (e | m) x₁ ⟨h₁, hholding₁⟩
    · exact ⟨h₁, by rintro ⟨⟩⟩
    · dsimp only
      split_ifs
      · exact ⟨h₁, by rintro ⟨⟩⟩
      · exact ⟨h₁, fun _ => hholding₁⟩
  · exact ⟨h, hholding⟩

/-- **The calls of `kfsw_ftp_get` are those of a receiving side**, and it returns no error only
after the commit. -/
theorem receives_get {st : Station} {node : UInt16} {remotePath localPath : CString}
    (hlocal : resolvePath cfg localPath false fullPathSize = .ok target) (h : Pending none x) :
    Receives (downloadSide target requestId) isolated
      (get cfg st node remotePath localPath requestId) (fun r x' => Reported r x') x := by
  unfold get
  split_ifs with hnode
  · rintro ⟨⟩
  rcases validateClient st node with _ | e
  swap
  · rintro ⟨⟩
  refine (receives_prepareDownload rfl hlocal h).bind ?_
  rintro (e | ⟨path, noted, offset, partialCrc32⟩) x₁ ⟨h₁, hok⟩
  · rintro ⟨⟩
  obtain ⟨rfl, -, hpart⟩ := hok path noted offset partialCrc32 rfl
  have hstable : Stable (downloadSide path requestId) isolated fun x => Pending none x ∧
      (offset ≠ 0 → ∃ id, Holds path id offset partialCrc32 x) := by
    refine steady_pending.1.and fun x x' hrely hx hne => ?_
    obtain ⟨id, hid⟩ := hx hne
    have hid' : PartIs (downloadSide path requestId).target id _ x' := stable_part _ _ _ hrely hid
    exact ⟨id, hid'⟩
  refine (receives_quiet rfl hstable ⟨h₁, hpart⟩).bind ?_
  rintro (_ | e) x₂ ⟨h₂, -⟩
  swap
  · rintro ⟨⟩
  have hsend : (getRequest requestId remotePath noted offset).opcode ≠ opPutResult := by
    have hne : opGetRequest ≠ opPutResult := by decide
    unfold getRequest
    split_ifs <;> exact hne
  refine (receives_send (fun hop => absurd hop hsend) hstable h₂).bind ?_
  rintro (_ | e) x₃ h₃
  swap
  · rintro ⟨⟩
  refine (receives_awaitGetInfo h₃.1 h₃.2).bind ?_
  rintro (e | ⟨n, start⟩) x₄ hinfo
  · rintro ⟨⟩
  obtain ⟨h₄, hstart⟩ := hinfo n start rfl
  have hopen : Receives (downloadSide path requestId) isolated (openPartial cfg
      (downloadSide path requestId).target ⟨requestId, n.totalSize, n.crc32, start, 0, opGetData,
        false, ⟨0, 0⟩⟩ partialCrc32) _ x₄ :=
    receives_openPartial (fun _ => trivial) rfl ⟨rfl, rfl, rfl, h₄⟩ fun hne => by
      obtain ⟨rfl, hid⟩ := hstart hne
      exact hid
  refine hopen.bind ?_
  rintro (e | t) x₅ hopened
  · rintro ⟨⟩
  obtain ⟨-, hcarries, hholding⟩ := hopened t rfl
  refine (receives_transferReceiveLoop hcarries hholding).bind ?_
  rintro ⟨result, t'⟩ x₆ ⟨hnote, hfirmware, h₆, hholding₆⟩
  rw [← hnote] at h₆
  refine (receives_awaitDownload h₆ hholding₆).bind ?_
  rintro result' x₇ ⟨h₇, hholding₇⟩
  exact receives_transferFinish hfirmware h₇ hholding₇

end

end KfswServices.Ftp
