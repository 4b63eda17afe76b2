/-
# Going on with an upload that was cut off

An upload that is cut off leaves its partial file, and beside it the note of what it was to become.
The next upload of the same file goes on where that one stopped.  The note and the partial file are
two files, though: an upload that starts afresh writes its note first, and takes away the partial
file it has found after that.  When it is cut off in between (`exposed`), the note is its own, and
the partial file is still another's.  But for that, a partial file is the start of a file that was
announced with its note (`history_continues`).
-/

import KfswServices.Ftp.Uploads

namespace KfswServices.Ftp

open Library

/-! ### Histories of uploads -/

/-- An upload, as far as it got: what it found, its request, the file that the client sends, and
the calls of the server. -/
structure Attempt where
  before : Fs
  request : Message
  content : List UInt8
  events : List (Event OpResult Fs)

/-- What is received as data of an upload is a piece of its file. -/
def honest (request : Message) (content : List UInt8) (e : Event OpResult Fs) : Bool :=
  match e with
  | ⟨.linkReceive, _, .ok m, _⟩ =>
    !(m.opcode = opPutData && m.requestId = request.requestId && m.note = request.note) ||
      m.data.isPrefixOf (content.drop m.offset.toNat)
  | _ => true

/-- **An upload to a path**, which may be cut off after any of its calls. -/
structure Attempts (cfg : Config) (target : CString) (s : Fs) (a : Attempt) (u : Fs) : Prop where
  before : a.before = s
  resolved : resolveMessagePath cfg a.request false = .ok target
  announced : a.request.note = noteOf a.content
  small : a.content.length < 2 ^ 32
  pieces : ∀ e ∈ a.events, honest a.request a.content e = true
  run : ∃ q, Run (Prog.Step FsStep) (servePut cfg a.request, s) a.events (q, u)

/-- Whether the note of an upload is complete while the partial file is the one it has found, after
a call. -/
def exposed (target : CString) (now : Bool) (e : Event OpResult Fs) : Bool :=
  match e with
  | ⟨.fsWrite file data, s, _, s'⟩ => now ||
    (s.names (notePath target) = some (.file file.id) && s'.content (notePath target) = some data)
  | ⟨.fsUnlink p, _, none, _⟩ => now && p ≠ notePath target && p ≠ temporaryPath target
  | ⟨.fsOpen p .CREATE_TRUNC, _, .ok _, _⟩ => now && p ≠ temporaryPath target
  | _ => now

/-- The upload has been cut off there, and what it found is no start of its file. -/
def Attempt.Strays (target : CString) (a : Attempt) : Prop :=
  a.events.foldl (exposed target) false = true ∧
    ∃ p, a.before.content (temporaryPath target) = some p ∧ ¬ p <+: a.content

/-- **What the partial file has to be**, if there is one: the start of a file that was announced
with the note beside it. -/
def Continues (target : CString) (as : List Attempt) (s : Fs) : Prop :=
  ∀ n p, Noted target n s → s.content (temporaryPath target) = some p → p ≠ [] →
    ∃ a ∈ as, a.request.note = n ∧ p <+: a.content

/-! ### The note -/

theorem decode_encode_note (n : Note) : Note.decode n.encode = .ok n := by
  have hhead : n.head.length = 16 := rfl
  have hlength : n.encode.length = 20 := rfl
  have h16 : n.encode.drop 16 = putLe32 (crc32 n.head) := List.drop_left' hhead
  have htake : n.encode.take 16 = n.head := List.take_left' hhead
  have hmagic : getLe32 n.encode = 0x4B465450 := getLe32_putLe32 _ _
  have hversion : getLe32 (n.encode.drop 4) = 1 := getLe32_putLe32 _ _
  have hsize : getLe32 (n.encode.drop 8) = n.totalSize := getLe32_putLe32 _ _
  have hcrc : getLe32 (n.encode.drop 12) = n.crc32 := getLe32_putLe32 _ _
  have hsum : getLe32 (n.encode.drop 16) = crc32 (n.encode.take 16) := by
    rw [h16, htake]
    exact List.append_nil (putLe32 (crc32 n.head)) ▸ getLe32_putLe32 _ []
  rw [Note.decode, if_neg (not_not.2 hlength), if_neg (by simp [hmagic, hversion, hsum]), hsize,
    hcrc]

section

variable {target : CString} {n n' : Note} {s s' : Fs} {as : List Attempt} {a : Attempt}
  {bytes : List UInt8}

theorem Noted.unique (h : Noted target n s) (h' : Noted target n' s) : n = n' := by
  obtain ⟨bytes, hbytes, hn⟩ := h
  obtain ⟨bytes', hbytes', hn'⟩ := h'
  cases hbytes.symm.trans hbytes'
  exact Except.ok.inj (hn.symm.trans hn')

theorem Noted.congr (h : Noted target n s)
    (hsame : s'.content (notePath target) = s.content (notePath target)) : Noted target n s' := by
  obtain ⟨bytes, hbytes, hn⟩ := h
  exact ⟨bytes, hsame.trans hbytes, hn⟩

theorem noted_encode (h : s.content (notePath target) = some n.encode) : Noted target n s :=
  ⟨_, h, decode_encode_note n⟩

/-- Less than a note is none. -/
theorem not_noted (h : s.content (notePath target) = some bytes) (hshort : bytes.length < 20) :
    ¬ Noted target n s := by
  rintro ⟨bytes', hbytes', hn⟩
  cases h.symm.trans hbytes'
  have hlength := length_of_decode hn
  rw [List.length_take] at hlength
  omega

/-! ### The partial file -/

theorem continues_of_empty (h : ∀ p, s.content (temporaryPath target) = some p → p = []) :
    Continues target as s := fun _ p _ hp hne => absurd (h p hp) hne

theorem continues_of_unnoted (h : ∀ n, ¬ Noted target n s) : Continues target as s :=
  fun n _ hn => absurd hn (h n)

/-- The start of a file, beside its own note. -/
theorem continues_own (ha : a ∈ as) (hnoted : Noted target a.request.note s)
    (hpart : ∀ p, s.content (temporaryPath target) = some p → p <+: a.content) :
    Continues target as s :=
  fun _ p hn hp _ => ⟨a, ha, hnoted.unique hn, hpart p hp⟩

theorem Continues.append (h : Continues target as s) (a : Attempt) :
    Continues target (as ++ [a]) s := by
  intro n p hn hp hne
  obtain ⟨b, hb, hnote, hpre⟩ := h n p hn hp hne
  exact ⟨b, List.mem_append_left _ hb, hnote, hpre⟩

/-- A removal, of the note or of the partial file. -/
theorem Continues.unlink {p : CString} (h : Continues target as s) :
    Continues target as (s.unlink p) := by
  intro n q hn hq hne
  by_cases hnote : notePath target = p
  · obtain ⟨bytes, hbytes, -⟩ := hn
    rw [hnote, Fs.content_unlink] at hbytes
    cases hbytes
  by_cases hpart : temporaryPath target = p
  · rw [hpart, Fs.content_unlink] at hq
    cases hq
  rw [Fs.content_unlink_of_ne _ hpart] at hq
  exact h n q (hn.congr (Fs.content_unlink_of_ne _ hnote).symm) hq hne

/-- The partial file is made the target. -/
theorem continues_rename : Continues target as (s.rename (temporaryPath target) target) := by
  refine continues_of_empty fun p hp => ?_
  have hgone : (s.rename (temporaryPath target) target).names (temporaryPath target) = none := by
    show s.renamed _ _ _ = none
    rw [Fs.renamed, if_neg (ne_temporaryPath target).symm, if_pos rfl]
  obtain ⟨id, hnames, -⟩ := Fs.content_eq_some_iff.1 hp
  rw [hgone] at hnames
  cases hnames

end

/-! ### Calls that change the files -/

variable {file : Handle}

theorem openCreate_step {s s' : Fs} {p q : CString}
    (h : FsStep (.fsOpen p .CREATE_TRUNC) s (.ok file) s') (hq : q ≠ p) :
    SameName q s s' ∧ s'.names p = some (.file file.id) ∧ s'.data file.id = [] ∧ file.pos = 0 := by
  rcases h with ⟨id, hnames, rfl, hs⟩ | ⟨-, -, rfl, hs⟩
  · change s' = s.setData id [] at hs
    subst hs
    exact ⟨SameName.setData [] hnames hq, hnames, Fs.data_setData .., rfl⟩
  · change s' = s.create p at hs
    subst hs
    exact ⟨⟨Function.update_of_ne hq _ _, s.content_create_of_ne hq⟩, Function.update_self ..,
      Function.update_self .., rfl⟩

/-- A write gets some of its bytes in, whatever it comes back with. -/
theorem write_step {s s' : Fs} {data : List UInt8} {r : OpResult (.fsWrite file data)}
    (h : FsStep (.fsWrite file data) s r s') :
    ∃ k, s' = s.writeData file (data.take k) ∧ ∀ written file', r = .ok (written, file') →
      written ≤ data.length ∧ k = written ∧ file' = ⟨file.id, file.pos + written⟩ := by
  rcases r with e | ⟨written, file'⟩
  · obtain ⟨k, hs⟩ := h
    exact ⟨k, hs, by rintro _ _ ⟨⟩⟩
  · obtain ⟨hle, hs, hfile⟩ := h
    refine ⟨written, hs, ?_⟩
    rintro _ _ ⟨⟩
    exact ⟨hle, rfl, hfile⟩

/-! ### Where an upload goes on -/

theorem looksOnly_readNote {path : CString} : LooksOnly (readNote path) fun _ => True := by
  refine (looksOnly_perform rfl).bind ?_
  rintro (e | file) -
  · trivial
  refine (looksOnly_perform rfl).bind fun read _ => (looksOnly_perform rfl).bind fun closed _ => ?_
  rcases read with e | ⟨bytes, file'⟩ <;> rcases closed with _ | e' <;> trivial

theorem looksOnly_partialResumePoint {path : CString} {wanted : Note} :
    LooksOnly (partialResumePoint path wanted) fun _ => True := by
  unfold partialResumePoint
  rcases makeNotePath path fullPathSize with e | name
  · trivial
  refine looksOnly_readNote.bind ?_
  rintro (e | found) -
  · trivial
  dsimp only
  split_ifs
  · trivial
  rcases makeTemporaryPath path fullPathSize with e | temporary
  · trivial
  refine looksOnly_fileCrc.bind ?_
  rintro (e | ⟨size, crc⟩) -
  · trivial
  dsimp only
  split_ifs <;> trivial

theorem readsOnly_checkSpace {cfg : Config} {path : CString} {bytes : ℕ} :
    ReadsOnly (checkSpace cfg path bytes) fun _ => True := by
  refine (readsOnly_perform rfl).bind ?_
  rintro (e | volume) -
  · trivial
  · dsimp only
    split_ifs <;> trivial

/-- What only reads leaves the files as they are. -/
theorem ReadsOnly.ensures {α : Type} {p : Program α} {R : α → Prop} (h : ReadsOnly p R) (s : Fs) :
    Ensures FsStep (fun s s' => s' = s) (fun o _ _ _ => o.readOnly = true) p
      (fun a s' => R a ∧ s' = s) s := by
  have hcalls : Ensures FsStep (fun s s' => s' = s) (fun o _ _ _ => o.readOnly = true) p
      (fun a _ => R a) s := Calls.ensures h
  have hown := hcalls.own
  refine (hown.keeps (K := fun s s' => s' = s) (fun _ => rfl) ?_ (fun _ _ h => h) ?_).mono ?_ ?_ ?_
  · rintro _ _ _ rfl rfl
    rfl
  · exact fun o s r s' h => h.2.readOnly h.1
  · exact fun _ _ h => h
  · exact fun _ _ _ _ h => h.1
  · exact fun _ _ h => h

/-- **Where an upload goes on**, when nobody else is there: at the end of the partial file, with the
note that is wanted beside it. -/
theorem partialResumePoint_found {target : CString} {wanted : Note} (s : Fs) :
    Ensures FsStep (fun s s' => s' = s) (fun o _ _ _ => o.readOnly = true)
      (partialResumePoint target wanted) (fun r s' => s' = s ∧ (r.1 = 0 → r.2 = 0) ∧
        (r.1 ≠ 0 → Noted target wanted s ∧ ∃ p, s.content (temporaryPath target) = some p ∧
          p.length = r.1 ∧ crc32 p = r.2)) s := by
  have hlooks : ReadsOnly (partialResumePoint target wanted) fun _ => True :=
    looksOnly_partialResumePoint.mono fun _ => Op.readOnly_of_looks
  have hundisturbed : Steady ⟨target, opPutData, 0, fun _ => True⟩ True
      fun x => x.2.disturbed = false :=
    ⟨fun x x' hrely h => by rw [hrely.alone trivial]; exact h, fun _ _ _ => rfl⟩
  have hreceives : Receives ⟨target, opPutData, 0, fun _ => True⟩ True
      (partialResumePoint target wanted) _ (s, Ledger.start none) :=
    receives_partialResumePoint hundisturbed rfl
  have hforget : Ensures FsStep (fun s u => u = s) (fun _ _ _ _ => True)
      (partialResumePoint target wanted) _ s :=
    Ensures.forget (f := Prod.fst) (Rely.refl _ _)
      (fun o x r t hstep => ⟨(t, x.2.call target o r), rfl, hstep, rfl⟩)
      (fun _ _ _ _ _ => trivial) hreceives
  refine ((hforget.and (hlooks.ensures s)).mono (fun _ _ h => h) (fun _ _ _ _ h => h.2) ?_)
  rintro ⟨offset, crc⟩ s' ⟨⟨⟨t, l⟩, rfl, hdisturbed, hzero, hsome⟩, -, rfl⟩
  refine ⟨rfl, hzero, fun hne => ?_⟩
  obtain ⟨hnoted, id, hholds⟩ := hsome hne
  obtain ⟨-, p, hp, hlength, hcrc⟩ := hholds hdisturbed
  exact ⟨hnoted trivial, p, hp, hlength, hcrc⟩

/-! ### The calls of an upload -/

/-- A call of an upload, with whether its note is complete beside what it has found. -/
def WatchStep (target : CString) (a : Attempt) (o : Op) (x : Fs × Bool) (r : OpResult o)
    (x' : Fs × Bool) : Prop :=
  (FsStep o x.1 r x'.1 ∧ honest a.request a.content ⟨o, x.1, r, x'.1⟩ = true) ∧
    x'.2 = exposed target x.2 ⟨o, x.1, r, x'.1⟩

/-- The partial file is the start of a file announced with its note, or the upload is exposed. -/
def Window (target : CString) (as : List Attempt) (a : Attempt) (x : Fs × Bool) : Prop :=
  Continues target (as ++ [a]) x.1 ∨
    x.2 = true ∧ SameName (temporaryPath target) a.before x.1 ∧ Noted target a.request.note x.1

/-- The calls of a part of an upload. -/
abbrev Watches {α : Type} (target : CString) (as : List Attempt) (a : Attempt) (p : Program α)
    (Q : α → Fs × Bool → Prop) (x : Fs × Bool) : Prop :=
  Ensures (WatchStep target a) (fun x x' => x' = x) (fun _ _ _ x' => Window target as a x') p Q x

theorem exposed_readOnly {target : CString} {now : Bool} {o : Op} {s s' : Fs} {r : OpResult o}
    (h : o.readOnly = true) : exposed target now ⟨o, s, r, s'⟩ = now := by
  cases o with
  | fsOpen p mode =>
    obtain rfl : mode = .READ := of_decide_eq_true h
    rcases r with e | file <;> rfl
  | fsWrite file data => cases h
  | fsRename source target => cases h
  | fsUnlink p => cases h
  | fsMkdir p => cases h
  | linkReceive => rcases r with e | m <;> rfl
  | _ => rfl

section

variable {target : CString} {as : List Attempt} {a : Attempt} {x : Fs × Bool}

/-- What only reads changes nothing. -/
theorem watches_reads {α : Type} {p : Program α} {Q : α → Fs → Prop}
    (h : Ensures FsStep (fun s s' => s' = s) (fun o _ _ _ => o.readOnly = true) p Q x.1)
    (hx : Window target as a x) : Watches target as a p (fun r x' => x' = x ∧ Q r x.1) x := by
  refine (h.simulate (R := fun s y => s = x.1 ∧ y = x) ?_ ?_ ⟨rfl, rfl⟩).post ?_
  · rintro _ _ _ ⟨rfl, rfl⟩ rfl
    exact ⟨_, rfl, rfl, rfl⟩
  · rintro o _ y r ⟨s', now⟩ ⟨rfl, rfl⟩ ⟨⟨hfs, -⟩, hnow⟩
    refine ⟨s', hfs, fun ho => ?_⟩
    obtain rfl : s' = y.1 := hfs.readOnly ho
    have hy : (y.1, now) = y := Prod.ext rfl (hnow.trans (exposed_readOnly ho))
    rw [hy]
    exact ⟨hx, rfl, rfl⟩
  · rintro r _ ⟨_, ⟨rfl, rfl⟩, hQ⟩
    exact ⟨rfl, hQ⟩

theorem watches_quiet {o : Op} (ho : o.readOnly = true) (hx : Window target as a x) :
    Watches target as a (Prog.perform o) (fun r x' => x' = x ∧ FsStep o x.1 r x.1 ∧
      honest a.request a.content ⟨o, x.1, r, x.1⟩ = true) x := by
  rintro y rfl r ⟨s', now⟩ ⟨⟨hfs, hhonest⟩, hnow⟩
  obtain rfl : s' = y.1 := hfs.readOnly ho
  have hy : (y.1, now) = y := Prod.ext rfl (hnow.trans (exposed_readOnly ho))
  rw [hy]
  exact ⟨hx, rfl, hfs, hhonest⟩

/-! ### The note of an upload -/

/-- The note of the upload is complete, and the partial file is the one it has found. -/
def AtRisk (target : CString) (a : Attempt) (x : Fs × Bool) : Prop :=
  x.2 = true ∧ SameName (temporaryPath target) a.before x.1 ∧ Noted target a.request.note x.1

/-- The note has been started anew, beside the partial file that was found. -/
structure Noting (target : CString) (a : Attempt) (file : Handle) (x : Fs × Bool) : Prop where
  hidden : x.2 = false
  found : SameName (temporaryPath target) a.before x.1
  names : x.1.names (notePath target) = some (.file file.id)
  empty : x.1.data file.id = []
  start : file.pos = 0

theorem watches_openNote (hx : x = (a.before, false)) (hc : Continues target as a.before) :
    Watches target as a (fsOpen (notePath target) .CREATE_TRUNC) (fun r x' =>
      Window target as a x' ∧ ∀ file, r = .ok file → Noting target a file x') x := by
  subst hx
  rintro _ rfl r ⟨s', now⟩ ⟨⟨hfs, -⟩, hnow⟩
  rcases r with e | file
  · obtain rfl : s' = a.before := hfs
    exact ⟨Or.inl (hc.append a), Or.inl (hc.append a), by rintro _ ⟨⟩⟩
  · obtain ⟨hsame, hnames, hdata, hpos⟩ := openCreate_step hfs (temporaryPath_ne_notePath target)
    have hnote : s'.content (notePath target) = some [] := by
      rw [Fs.content_of_names hnames, hdata]
    have hwindow : Window target as a (s', now) :=
      Or.inl (continues_of_unnoted fun n => not_noted hnote (by decide))
    refine ⟨hwindow, hwindow, ?_⟩
    rintro _ ⟨⟩
    exact ⟨hnow, hsame, hnames, hdata, hpos⟩

/-- What there is of the note, after a write to it. -/
theorem watches_writeNote (hx : Noting target a file x) :
    Watches target as a (fsWrite file a.request.note.encode) (fun r x' =>
      (AtRisk target a x' ∨ ∀ n, ¬ Noted target n x'.1) ∧
        ∀ file', r = .ok (20, file') → AtRisk target a x') x := by
  rintro y rfl r ⟨s', now⟩ ⟨⟨hfs, -⟩, hnow⟩
  obtain ⟨k, hs, hok⟩ := write_step hfs
  rw [y.1.writeData_end _ (by rw [hx.empty, hx.start]; rfl), hx.empty, List.nil_append] at hs
  change s' = _ at hs
  have hnote : s'.content (notePath target) = some (a.request.note.encode.take k) := by
    rw [hs]
    exact y.1.content_setData _ hx.names
  have hsame : SameName (temporaryPath target) y.1 s' := by
    rw [hs]
    exact SameName.setData _ hx.names (temporaryPath_ne_notePath target)
  have hwhole : 20 ≤ k → AtRisk target a (s', now) := by
    intro hk
    rw [List.take_of_length_le (show a.request.note.encode.length ≤ k from hk)] at hnote
    refine ⟨hnow.trans ?_, hx.found.trans hsame, noted_encode hnote⟩
    simp only [exposed, hx.names, hnote, decide_true, Bool.and_self, Bool.or_true]
  have hpart : AtRisk target a (s', now) ∨ ∀ n, ¬ Noted target n s' := by
    by_cases hk : 20 ≤ k
    · exact Or.inl (hwhole hk)
    · refine Or.inr fun n => not_noted hnote ?_
      rw [List.length_take]
      omega
  refine ⟨?_, hpart, ?_⟩
  · exact hpart.elim Or.inr fun h => Or.inl (continues_of_unnoted h)
  · rintro file' rfl
    obtain ⟨-, rfl, -⟩ := hok 20 file' rfl
    exact hwhole le_rfl

/-- The removal of the note or of the partial file. -/
theorem watches_unlink {p : CString} (hp : p = temporaryPath target ∨ p = notePath target)
    (hx : Window target as a x) : Watches target as a (fsUnlink p) (fun _ x' =>
      Window target as a x' ∧ (p = temporaryPath target → ∀ n, Noted target n x.1 →
        Noted target n x'.1)) x := by
  rintro y rfl r ⟨s', now⟩ ⟨⟨hfs, -⟩, hnow⟩
  rcases r with _ | e
  · obtain ⟨-, -, hs⟩ := hfs
    change s' = y.1.unlink p at hs
    subst hs
    have hwindow : Window target as a (y.1.unlink p, now) := by
      rcases hx with hx | -
      · exact Or.inl hx.unlink
      · -- what was at risk is gone with either of the two
        rcases hp with rfl | rfl
        · refine Or.inl (continues_of_empty fun p h => ?_)
          rw [Fs.content_unlink] at h
          cases h
        · refine Or.inl (continues_of_unnoted fun n hn => ?_)
          obtain ⟨bytes, hbytes, -⟩ := hn
          rw [Fs.content_unlink] at hbytes
          cases hbytes
    refine ⟨hwindow, hwindow, ?_⟩
    rintro rfl n hn
    exact hn.congr (Fs.content_unlink_of_ne _ (temporaryPath_ne_notePath target).symm)
  · obtain rfl : s' = y.1 := hfs
    have hy : (y.1, now) = y := Prod.ext rfl hnow
    rw [hy]
    exact ⟨hx, hx, fun _ _ hn => hn⟩

theorem watches_partialNoteWrite (hx : x = (a.before, false)) (hc : Continues target as a.before) :
    Watches target as a (partialNoteWrite target a.request.note) (fun r x' =>
      Window target as a x' ∧ (r = none → AtRisk target a x')) x := by
  unfold partialNoteWrite
  rcases hname : makeNotePath target fullPathSize with e | name
  · subst hx
    exact ⟨Or.inl (hc.append a), by rintro ⟨⟩⟩
  obtain rfl := makeNotePath_eq hname
  refine (watches_openNote hx hc).bind ?_
  rintro (e | file) x₁ ⟨h₁, hfile⟩
  · exact ⟨h₁, by rintro ⟨⟩⟩
  refine (watches_writeNote (hfile file rfl)).bind ?_
  intro written x₂ ⟨h₂, hwritten⟩
  have hwindow : Window target as a x₂ :=
    h₂.elim Or.inr fun h => Or.inl (continues_of_unnoted h)
  -- the file is closed, and the note taken back on an error
  have hclose : ∀ result : Option Errno, (result = none → AtRisk target a x₂) →
      Watches target as a (do
        let closeResult ← fsClose file
        let result := firstError result closeResult
        if result ≠ none then
          let _ ← fsUnlink (notePath target)
          pure result
        else pure result) (fun r x' => Window target as a x' ∧ (r = none → AtRisk target a x'))
          x₂ := by
    intro result hresult
    refine (watches_quiet rfl hwindow).bind ?_
    rintro closed x₃ ⟨rfl, -⟩
    dsimp only
    split_ifs with hfailed
    · refine (watches_unlink (Or.inr rfl) hwindow).bind ?_
      rintro r x₄ ⟨h₄, -⟩
      exact ⟨h₄, fun h => absurd h hfailed⟩
    · refine ⟨hwindow, fun h => hresult ?_⟩
      rcases result with _ | e
      · rfl
      · cases h
  dsimp only
  split_ifs with hnone
  · refine (watches_quiet rfl hwindow).bind ?_
    rintro synced x₃ ⟨rfl, -⟩
    refine hclose synced fun _ => ?_
    rcases written with e | ⟨count, file'⟩
    · cases hnone
    · have hcount : count = a.request.note.encode.length := by
        by_contra hne
        exact absurd hnone (by simp [if_pos hne])
      exact hwritten file' (by rw [hcount]; rfl)
  · exact hclose _ fun h => absurd h hnone

/-! ### The partial file of an upload -/

/-- The partial file is the start of the file, up to the position in it, beside the note. -/
structure Filling (target : CString) (a : Attempt) (file : Handle) (x : Fs × Bool) : Prop where
  names : x.1.names (temporaryPath target) = some (.file file.id)
  start : x.1.data file.id <+: a.content
  size : (x.1.data file.id).length = file.pos
  noted : Noted target a.request.note x.1

theorem Filling.window (h : Filling target a file x) : Window target as a x := by
  refine Or.inl (continues_own (List.mem_append_right _ (List.mem_singleton_self a)) h.noted ?_)
  intro p hp
  rw [Fs.content_of_names h.names] at hp
  cases hp
  exact h.start

/-- The transfer is the one of the upload. -/
structure Attempt.Transfers (a : Attempt) (t : Transfer) : Prop where
  requestId : t.requestId = a.request.requestId
  note : t.note = a.request.note
  dataOpcode : t.dataOpcode = opPutData
  firmware : t.firmware = false

theorem watches_openPart (hx : Window target as a x) (hn : Noted target a.request.note x.1) :
    Watches target as a (fsOpen (temporaryPath target) .CREATE_TRUNC) (fun r x' =>
      Window target as a x' ∧ ∀ file, r = .ok file → file.pos = 0 ∧ Filling target a file x') x := by
  rintro y rfl r ⟨s', now⟩ ⟨⟨hfs, -⟩, hnow⟩
  rcases r with e | file
  · obtain rfl : s' = y.1 := hfs
    have hy : (y.1, now) = y := Prod.ext rfl hnow
    rw [hy]
    exact ⟨hx, hx, by rintro _ ⟨⟩⟩
  · obtain ⟨hsame, hnames, hdata, hpos⟩ :=
      openCreate_step hfs (temporaryPath_ne_notePath target).symm
    have hfilling : Filling target a file (s', now) :=
      ⟨hnames, hdata ▸ List.nil_prefix, by rw [hdata, hpos]; rfl, hn.congr hsame.2⟩
    refine ⟨hfilling.window, hfilling.window, ?_⟩
    rintro _ ⟨⟩
    exact ⟨hpos, hfilling⟩

/-- The partial file that was found is opened, to go on with it. -/
theorem watches_openFound {p : List UInt8} (hx : Window target as a x)
    (hn : Noted target a.request.note x.1)
    (hp : x.1.content (temporaryPath target) = some p) (hpre : p <+: a.content) :
    Watches target as a (fsOpen (temporaryPath target) .WRITE) (fun r x' => x' = x ∧
      ∀ file, r = .ok file → Filling target a ⟨file.id, p.length⟩ x) x := by
  rintro y rfl r ⟨s', now⟩ ⟨⟨hfs, -⟩, hnow⟩
  rcases r with e | file
  · obtain rfl : s' = y.1 := hfs
    have hy : (y.1, now) = y := Prod.ext rfl hnow
    rw [hy]
    exact ⟨hx, rfl, by rintro _ ⟨⟩⟩
  · rcases hfs with ⟨id, hnames, rfl, hs⟩ | ⟨habs, -⟩
    · change s' = y.1 at hs
      subst hs
      have hy : (y.1, now) = y := Prod.ext rfl hnow
      rw [hy]
      refine ⟨hx, rfl, ?_⟩
      rintro _ ⟨⟩
      rw [Fs.content_of_names hnames] at hp
      cases hp
      exact ⟨hnames, hpre, rfl, hn⟩
    · cases habs

variable {t : Transfer}

theorem watches_transferOpenSink (ht : a.Transfers t) (hx : Window target as a x)
    (hn : Noted target a.request.note x.1) (hfound : t.offset ≠ 0 →
      ∃ p, x.1.content (temporaryPath target) = some p ∧ p <+: a.content ∧ p.length = t.offset) :
    Watches target as a (transferOpenSink t (temporaryPath target)) (fun r x' =>
      Window target as a x' ∧ ∀ t', r = .ok t' → a.Transfers t' ∧ t'.file.pos = t'.offset ∧
        Filling target a t'.file x') x := by
  unfold transferOpenSink
  split_ifs with h0
  · refine (watches_unlink (Or.inl rfl) hx).bind ?_
    rintro r x₁ ⟨h₁, hkeeps⟩
    refine (watches_openPart h₁ (hkeeps rfl _ hn)).bind ?_
    rintro (e | file) x₂ ⟨h₂, hfile⟩
    · exact ⟨h₂, by rintro _ ⟨⟩⟩
    · obtain ⟨hpos, hfilling⟩ := hfile file rfl
      refine ⟨h₂, ?_⟩
      rintro _ ⟨⟩
      exact ⟨⟨ht.requestId, ht.note, ht.dataOpcode, ht.firmware⟩, hpos.trans h0.symm, hfilling⟩
  · obtain ⟨p, hp, hpre, hlength⟩ := hfound h0
    refine (watches_openFound hx hn hp hpre).bind ?_
    rintro (e | file) x₁ ⟨rfl, hfile⟩
    · exact ⟨hx, by rintro _ ⟨⟩⟩
    have hfilling := hfile file rfl
    refine (watches_quiet rfl hx).bind ?_
    rintro (e | file') x₂ ⟨rfl, ⟨-, hseek⟩, -⟩
    · exact (watches_quiet rfl hx).bind fun _ x₃ h₃ => by
        obtain ⟨rfl, -⟩ := h₃
        exact ⟨hx, by rintro _ ⟨⟩⟩
    · obtain rfl := hseek file' rfl
      refine ⟨hx, ?_⟩
      rintro _ ⟨⟩
      exact ⟨⟨ht.requestId, ht.note, ht.dataOpcode, ht.firmware⟩, rfl, hlength ▸ hfilling⟩

/-! ### The data of an upload -/

/-- A write goes on with the file. -/
theorem watches_writePart {data : List UInt8} (hx : Filling target a file x)
    (hdata : data <+: a.content.drop file.pos) :
    Watches target as a (fsWrite file data) (fun r x' => Window target as a x' ∧
      ∀ written file', r = .ok (written, file') → written ≤ data.length ∧
        file' = ⟨file.id, file.pos + written⟩ ∧ Filling target a file' x') x := by
  rintro y rfl r ⟨s', now⟩ ⟨⟨hfs, -⟩, hnow⟩
  obtain ⟨k, hs, hok⟩ := write_step hfs
  rw [y.1.writeData_end _ hx.size] at hs
  change s' = _ at hs
  have hpre : y.1.data file.id ++ data.take k <+: a.content := by
    have hsplit : a.content = y.1.data file.id ++ a.content.drop file.pos := by
      rw [← hx.size]
      exact (List.prefix_iff_eq_append.1 hx.start).symm
    rw [hsplit, List.prefix_append_right_inj]
    exact (List.take_prefix k data).trans hdata
  have hsame : SameName (notePath target) y.1 s' := by
    rw [hs]
    exact SameName.setData _ hx.names (temporaryPath_ne_notePath target).symm
  have hfilling : Filling target a ⟨file.id, file.pos + (data.take k).length⟩ (s', now) := by
    refine ⟨?_, ?_, ?_, hx.noted.congr hsame.2⟩
    · rw [hs]
      exact hx.names
    · rw [hs]
      exact (y.1.data_setData file.id _).symm ▸ hpre
    · show (s'.data file.id).length = _
      rw [hs, y.1.data_setData, List.length_append, hx.size]
  refine ⟨hfilling.window, hfilling.window, ?_⟩
  intro written file' hr
  obtain ⟨hle, rfl, rfl⟩ := hok written file' hr
  refine ⟨hle, rfl, ?_⟩
  rw [List.length_take, Nat.min_eq_left hle] at hfilling
  exact hfilling

theorem watches_writeAllLoop {turns : ℕ} {data : List UInt8} (hx : Filling target a file x)
    (hdata : data <+: a.content.drop file.pos) (hturns : data.length ≤ turns) :
    Watches target as a (writeAllLoop turns file data) (fun r x' => Window target as a x' ∧
      ∀ file', r = .ok file' → file' = ⟨file.id, file.pos + data.length⟩ ∧
        Filling target a file' x') x := by
  induction turns generalizing x file data with
  | zero =>
    obtain rfl := List.length_eq_zero_iff.1 (Nat.le_zero.1 hturns)
    refine ⟨hx.window, ?_⟩
    rintro _ ⟨⟩
    exact ⟨rfl, hx⟩
  | succ turns ih =>
    unfold writeAllLoop
    split_ifs with hnil
    · refine ⟨hx.window, ?_⟩
      rintro _ ⟨⟩
      rw [hnil]
      exact ⟨rfl, hx⟩
    refine (watches_writePart hx hdata).bind ?_
    rintro (e | ⟨written, file'⟩) x₁ ⟨h₁, hfile⟩
    · exact ⟨h₁, by rintro _ ⟨⟩⟩
    obtain ⟨hle, rfl, hfilling⟩ := hfile written file' rfl
    dsimp only
    split_ifs with hzero
    · exact ⟨h₁, by rintro _ ⟨⟩⟩
    have hrest : data.drop written <+: a.content.drop (file.pos + written) := by
      rw [← List.drop_drop]
      exact hdata.drop written
    have hlength : (data.drop written).length = data.length - written := List.length_drop
    refine (ih hfilling hrest (by omega)).post ?_
    rintro r x₂ ⟨h₂, hr⟩
    refine ⟨h₂, fun file' hfile' => ?_⟩
    obtain ⟨rfl, hfilling'⟩ := hr file' hfile'
    have hpos : file.pos + written + (data.drop written).length = file.pos + data.length := by omega
    rw [hpos] at hfilling' ⊢
    exact ⟨rfl, hfilling'⟩

/-- A data message that passes the check holds the next piece of the file. -/
theorem data_of_honest {m : Message} {s s' : Fs} (ht : a.Transfers t)
    (hhonest : honest a.request a.content ⟨.linkReceive, s, .ok m, s'⟩ = true)
    (hvalid : dataMessageIsValid t m = true) : m.data <+: a.content.drop t.offset := by
  simp only [dataMessageIsValid, Bool.and_eq_true, decide_eq_true_eq] at hvalid
  obtain ⟨⟨⟨⟨⟨⟨⟨⟨⟨hop, hid⟩, -⟩, -⟩, -⟩, -⟩, hoffset⟩, htotal⟩, hcrc⟩, -⟩ := hvalid
  have hnote : m.note = a.request.note := by
    rw [← ht.note, Message.note, htotal, hcrc]
    rfl
  rw [ht.dataOpcode] at hop
  rw [ht.requestId] at hid
  simpa [honest, hop, hid, hnote, hoffset] using hhonest

theorem watches_receiveData {m : Message} (ht : a.Transfers t) (hpos : t.file.pos = t.offset)
    (hx : Filling target a t.file x)
    (hdata : dataMessageIsValid t m = true → m.data <+: a.content.drop t.offset) :
    Watches target as a (receiveData t m) (fun r x' => Window target as a x' ∧ ∀ t', r = .ok t' →
      a.Transfers t' ∧ t'.file.pos = t'.offset ∧ Filling target a t'.file x') x := by
  have hfile : ¬ t.firmware = true := ht.firmware ▸ Bool.false_ne_true
  unfold receiveData
  rcases hvalid : dataMessageIsValid t m with _ | _
  · exact ⟨hx.window, by rintro _ ⟨⟩⟩
  rw [Bool.not_true, if_neg Bool.false_ne_true, if_neg hfile]
  refine (watches_writeAllLoop hx (by rw [hpos]; exact hdata hvalid) le_rfl).bind ?_
  rintro (e | file) x₁ ⟨h₁, hok⟩
  · exact ⟨h₁, by rintro _ ⟨⟩⟩
  · obtain ⟨rfl, hfilling⟩ := hok file rfl
    refine ⟨h₁, ?_⟩
    rintro _ ⟨⟩
    exact ⟨⟨ht.requestId, ht.note, ht.dataOpcode, ht.firmware⟩, congrArg (· + _) hpos, hfilling⟩

theorem watches_transferReceiveLoop {turns : ℕ} (ht : a.Transfers t)
    (hpos : t.file.pos = t.offset) (hx : Filling target a t.file x) :
    Watches target as a (transferReceiveLoop turns t) (fun r x' => Window target as a x' ∧
      r.2.firmware = false) x := by
  induction turns generalizing x t with
  | zero => exact ⟨hx.window, ht.firmware⟩
  | succ turns ih =>
    unfold transferReceiveLoop
    split_ifs with hmore
    · refine (watches_quiet rfl hx.window).bind ?_
      rintro (e | m) x₁ ⟨rfl, -, hhonest⟩
      · exact ⟨hx.window, ht.firmware⟩
      refine (watches_receiveData ht hpos hx (data_of_honest ht hhonest)).bind ?_
      rintro (e | t') x₂ ⟨h₂, hok⟩
      · exact ⟨h₂, ht.firmware⟩
      · obtain ⟨ht', hpos', hx'⟩ := hok t' rfl
        exact ih ht' hpos' hx'
    · exact ⟨hx.window, ht.firmware⟩

/-! ### A whole upload -/

theorem watches_rename (hx : Window target as a x) :
    Watches target as a (fsRename (temporaryPath target) target) (fun _ x' =>
      Window target as a x') x := by
  rintro y rfl r ⟨s', now⟩ ⟨⟨hfs, -⟩, hnow⟩
  rcases r with _ | e
  · obtain ⟨-, -, hs⟩ := hfs
    change s' = _ at hs
    rw [hs]
    exact ⟨Or.inl continues_rename, Or.inl continues_rename⟩
  · obtain rfl : s' = y.1 := hfs
    have hy : (y.1, now) = y := Prod.ext rfl hnow
    rw [hy]
    exact ⟨hx, hx⟩

theorem watches_commitTemporary {size size' : ℕ} {crc crc' : UInt32} (hx : Window target as a x) :
    Watches target as a (commitTemporary target (temporaryPath target) size crc size' crc')
      (fun _ x' => Window target as a x') x := by
  have hremove : ∀ x, Window target as a x → Watches target as a (partialNoteRemove target)
      (fun _ x' => Window target as a x') x := by
    intro x hx
    unfold partialNoteRemove
    rcases hname : makeNotePath target fullPathSize with e | name
    · exact hx
    obtain rfl := makeNotePath_eq hname
    exact (watches_unlink (Or.inr rfl) hx).bind fun _ _ h => h.1
  have hrest : ∀ (result : Option Errno) x, Window target as a x → Watches target as a (
      if result ≠ none then do
        let _ ← fsUnlink (temporaryPath target)
        partialNoteRemove target
        pure result
      else do
        partialNoteRemove target
        pure result) (fun _ x' => Window target as a x') x := by
    intro result x hx
    split_ifs
    · refine (watches_unlink (Or.inl rfl) hx).bind fun _ x₁ h₁ => ?_
      exact (hremove x₁ h₁.1).bind fun _ _ h => h
    · exact (hremove x hx).bind fun _ _ h => h
  unfold commitTemporary
  split_ifs
  · exact hrest (some .EILSEQ) x hx
  · exact (watches_rename hx).bind fun result x₁ h₁ => hrest result x₁ h₁

theorem watches_transferFinish {result : Option Errno} (ht : t.firmware = false)
    (hx : Window target as a x) :
    Watches target as a (transferFinish t target (temporaryPath target) result)
      (fun _ x' => Window target as a x') x := by
  have hfile : ¬ t.firmware = true := ht ▸ Bool.false_ne_true
  unfold transferFinish
  rw [if_neg hfile]
  refine (watches_quiet rfl hx).bind ?_
  rintro synced x₁ ⟨rfl, -⟩
  refine (watches_quiet rfl hx).bind ?_
  rintro closed x₂ ⟨rfl, -⟩
  dsimp only
  split_ifs
  · exact watches_commitTemporary hx
  · exact hx

theorem watches_sendStatus {opcode status : UInt8} {requestId totalSize crc32 : UInt32}
    (hx : Window target as a x) :
    Watches target as a (sendStatus opcode requestId status totalSize crc32)
      (fun _ x' => Window target as a x') x := by
  refine (watches_quiet rfl hx).post ?_
  rintro _ _ ⟨rfl, -⟩
  exact hx

theorem watches_reportUpload {result : Option Errno} (ht : t.firmware = false)
    (hx : Window target as a x) : Watches target as a (reportUpload a.request target t result)
      (fun _ x' => Window target as a x') x :=
  (watches_transferFinish ht hx).bind fun _ _ h => watches_sendStatus h

/-- The uploads that go on with a partial file of this note are of this file. -/
theorem found_of_noted {p : List UInt8} (hc : Continues target as a.before)
    (hsame : ∀ b ∈ as, b.request.note = a.request.note → b.content = a.content)
    (hn : Noted target a.request.note a.before)
    (hp : a.before.content (temporaryPath target) = some p) (hne : p ≠ []) : p <+: a.content := by
  obtain ⟨b, hb, hnote, hpre⟩ := hc _ p hn hp hne
  exact hsame b hb hnote ▸ hpre

/-- The end of the preparation, and the partial file that it leads to. -/
theorem watches_reserveUpload {cfg : Config} (ht : a.Transfers t) (hx : x = (a.before, false))
    (hc : Continues target as a.before)
    (hfound : t.offset ≠ 0 → Noted target a.request.note a.before ∧
      ∃ p, a.before.content (temporaryPath target) = some p ∧ p <+: a.content ∧
        p.length = t.offset) :
    Watches target as a (reserveUpload cfg target t) (fun r x' => Window target as a x' ∧
      ∀ t', r = .ok t' → a.Transfers t' ∧ Noted target a.request.note x'.1 ∧
        (t'.offset ≠ 0 → ∃ p, x'.1.content (temporaryPath target) = some p ∧ p <+: a.content ∧
          p.length = t'.offset)) x := by
  have hwindow : Window target as a x := by
    subst hx
    exact Or.inl (hc.append a)
  refine (watches_reads (readsOnly_checkSpace.ensures x.1) hwindow).bind ?_
  rintro (_ | e) x₁ ⟨rfl, -⟩
  · dsimp only
    split_ifs with h0
    · rw [ht.note]
      refine (watches_partialNoteWrite hx hc).bind ?_
      rintro (_ | e) x₂ ⟨h₂, hrisk⟩
      · refine ⟨h₂, ?_⟩
        rintro _ ⟨⟩
        exact ⟨ht, (hrisk rfl).2.2, fun hne => absurd h0 hne⟩
      · exact ⟨h₂, by rintro _ ⟨⟩⟩
    · subst hx
      refine ⟨hwindow, ?_⟩
      rintro _ ⟨⟩
      exact ⟨ht, (hfound h0).1, fun _ => (hfound h0).2⟩
  · exact ⟨hwindow, by rintro _ ⟨⟩⟩

section

variable {cfg : Config} (hresolved : resolveMessagePath cfg a.request false = .ok target)
include hresolved

theorem watches_openUpload (hfirmware : pathIsFirmware cfg a.request.path = false)
    (hx : x = (a.before, false)) (hc : Continues target as a.before)
    (hsame : a.request.flags &&& flagResume ≠ 0 → ∀ b ∈ as, b.request.note = a.request.note →
      b.content = a.content) :
    Watches target as a (openUpload cfg a.request) (fun r x' => Window target as a x' ∧
      ∀ t path, r = .ok (t, path) → path = target ∧ a.Transfers t ∧ t.file.pos = t.offset ∧
        Filling target a t.file x') x := by
  have hwindow : Window target as a x := by
    subst hx
    exact Or.inl (hc.append a)
  have hprepare : Watches target as a (prepareUploadTarget cfg target ⟨a.request.requestId,
      a.request.totalSize, a.request.crc32, 0, 0, opPutData, false, ⟨0, 0⟩⟩
        (a.request.flags &&& flagResume ≠ 0)) (fun r x' => Window target as a x' ∧
      ∀ t', r = .ok t' → a.Transfers t' ∧ Noted target a.request.note x'.1 ∧
        (t'.offset ≠ 0 → ∃ p, x'.1.content (temporaryPath target) = some p ∧ p <+: a.content ∧
          p.length = t'.offset)) x := by
    unfold prepareUploadTarget
    rcases makeTemporaryPath target fullPathSize with e | temporary
    · exact ⟨hwindow, by rintro _ ⟨⟩⟩
    refine (watches_quiet rfl hwindow).bind ?_
    rintro stat x₁ ⟨rfl, -⟩
    rcases statRefusal stat with _ | e
    swap
    · exact ⟨hwindow, by rintro _ ⟨⟩⟩
    dsimp only
    split_ifs with hresume
    · refine (watches_reads (partialResumePoint_found x₁.1) hwindow).bind ?_
      rintro ⟨offset, crc⟩ x₂ ⟨rfl, -, -, hfound⟩
      refine watches_reserveUpload ⟨rfl, rfl, rfl, rfl⟩ hx hc fun hne => ?_
      obtain ⟨hnoted, p, hp, hlength, -⟩ := hfound hne
      subst hx
      refine ⟨hnoted, p, hp, ?_, hlength⟩
      refine found_of_noted hc (hsame (of_decide_eq_true hresume)) hnoted hp ?_
      rintro rfl
      exact hne hlength.symm
    · exact watches_reserveUpload ⟨rfl, rfl, rfl, rfl⟩ hx hc fun habs => absurd rfl habs
  unfold openUpload
  rw [hresolved, hfirmware]
  dsimp only
  split_ifs with hbad habs
  · exact ⟨hwindow, by rintro _ _ ⟨⟩⟩
  · cases habs
  refine hprepare.bind ?_
  rintro (e | t) x₁ ⟨h₁, hok⟩
  · exact ⟨h₁, by rintro _ _ ⟨⟩⟩
  obtain ⟨ht, hnoted, hfound⟩ := hok t rfl
  refine (watches_transferOpenSink ht h₁ hnoted hfound).bind ?_
  rintro (e | t') x₂ ⟨h₂, hok₂⟩
  · exact ⟨h₂, by rintro _ _ ⟨⟩⟩
  · refine ⟨h₂, ?_⟩
    rintro _ _ ⟨⟩
    exact ⟨rfl, hok₂ t' rfl⟩

/-- **The calls of an upload** keep the partial file the start of a file that was announced with its
note, but for where the upload is exposed. -/
theorem watches_servePut (hfirmware : pathIsFirmware cfg a.request.path = false)
    (hx : x = (a.before, false)) (hc : Continues target as a.before)
    (hsame : a.request.flags &&& flagResume ≠ 0 → ∀ b ∈ as, b.request.note = a.request.note →
      b.content = a.content) :
    Watches target as a (servePut cfg a.request) (fun _ x' => Window target as a x') x := by
  refine (watches_openUpload hresolved hfirmware hx hc hsame).bind ?_
  rintro (e | ⟨t, path⟩) x₁ ⟨h₁, hok⟩
  · exact watches_sendStatus h₁
  obtain ⟨rfl, ht, hpos, hfilling⟩ := hok t path rfl
  refine (watches_quiet rfl h₁).bind ?_
  rintro (_ | e) x₂ ⟨rfl, -⟩
  · refine (watches_transferReceiveLoop ht hpos hfilling).bind ?_
    rintro ⟨result, t'⟩ x₃ ⟨h₃, hfile⟩
    exact watches_reportUpload hfile h₃
  · exact watches_reportUpload ht.firmware h₁

end

end

section

variable {cfg : Config} {target : CString} {as : List Attempt} {a : Attempt} {s u : Fs}

/-- **One more upload.** -/
theorem Attempts.continues (h : Attempts cfg target s a u) (hc : Continues target as s)
    (hsame : a.request.flags &&& flagResume ≠ 0 → ∀ b ∈ as, b.request.note = a.request.note →
      b.content = a.content) (hstrays : ¬ a.Strays target) : Continues target (as ++ [a]) u := by
  obtain ⟨q, hr⟩ := h.run
  obtain rfl := h.before
  rcases hfirmware : pathIsFirmware cfg a.request.path with _ | _
  · have hwatch := watches_servePut (x := (a.before, false)) h.resolved hfirmware rfl hc hsame
    have hrun : Run (Prog.Step fun o s r s' => FsStep o s r s' ∧
        honest a.request a.content ⟨o, s, r, s'⟩ = true) (servePut cfg a.request, a.before) a.events
          (q, u) := by
      refine (hr.restrict h.pieces).mono ?_
      rintro _ _ _ ⟨⟨hstep⟩, hhonest⟩
      exact .call ⟨hstep, hhonest⟩
    have hwindow : Window target as a (u, a.events.foldl (exposed target) false) := by
      refine Ensures.holds (fun es t => (t, es.foldl (exposed target) false)) ?_ ?_ hwatch
        (Or.inl (hc.append a)) hrun
      · exact fun _ => rfl
      · intro es o t r t' hstep
        exact ⟨hstep, by rw [List.foldl_append]; rfl⟩
    rcases hwindow with hwindow | ⟨hexposed, hfound, hnoted⟩
    · exact hwindow
    · refine continues_own (List.mem_append_right _ (List.mem_singleton_self a)) hnoted ?_
      intro p hp
      by_contra hother
      exact hstrays ⟨hexposed, p, hfound.2.symm.trans hp, hother⟩
  · have hreads : ReadsOnly (servePut cfg a.request) fun _ => True :=
      readsOnly_servePut (uploadTarget_firmware hfirmware)
    have hs : u = a.before := by
      refine (hr.restrict (hreads.run hr)).invariant (I := fun _ c => c.2 = a.before) rfl ?_
      rintro _ _ _ _ hs ⟨⟨hstep⟩, ho⟩
      exact (hstep.readOnly ho).trans hs
    rw [hs]
    exact hc.append a

end

section

variable {cfg : Config} {target : CString} {as : List Attempt} {s u : Fs}

/-- **All of a history**: what is left is the start of a file that was announced with the note. -/
theorem history_continues (hr : Run (Attempts cfg target) s as u)
    (hclean : s.names (temporaryPath target) = none)
    (hsame : ∀ before a, before ++ [a] <+: as → a.request.flags &&& flagResume ≠ 0 →
      ∀ b ∈ before, b.request.note = a.request.note → b.content = a.content)
    (hstrays : ∀ a ∈ as, ¬ a.Strays target) : Continues target as u := by
  refine hr.invariant (I := fun as u => (∀ before a, before ++ [a] <+: as →
    a.request.flags &&& flagResume ≠ 0 → ∀ b ∈ before, b.request.note = a.request.note →
      b.content = a.content) → (∀ a ∈ as, ¬ a.Strays target) → Continues target as u) ?_ ?_
    hsame hstrays
  · rintro - -
    refine continues_of_empty fun p hp => ?_
    obtain ⟨id, hnames, -⟩ := Fs.content_eq_some_iff.1 hp
    rw [hclean] at hnames
    cases hnames
  · intro as t a u ih hstep hsame hstrays
    have hc := ih (fun before b hb => hsame before b (hb.trans (List.prefix_append _ _)))
      fun b hb => hstrays b (List.mem_append_left _ hb)
    exact hstep.continues hc (hsame as a List.prefix_rfl) (hstrays a (by simp))

end

end KfswServices.Ftp
