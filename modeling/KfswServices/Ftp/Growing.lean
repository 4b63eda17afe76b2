/-
# Sending a file that grows

`kfsw_ftp_transfer_send` reads as many bytes as a chunk has, and the size it has announced ends the
loop, not a read.  As long as a file is what was announced, its end cuts the last piece.  When it
has grown, the last piece is cut by nothing, and the receiver refuses what goes beyond the
announced size: `growing_sent_iff` says for which files and chunks that happens.
-/

import KfswServices.Ftp.Disk

namespace KfswServices.Ftp

open Library

/-- A call of the sender, with the bytes of its source before and after it: a read gets what is
there, the link takes every message, and meanwhile the source may have been appended to. -/
def SourceStep : (o : Op) → List UInt8 → OpResult o → List UInt8 → Prop
  | .fsRead file size, s, r, s' =>
    s <+: s' ∧ r = .ok ((s.drop file.pos).take size,
      ⟨file.id, file.pos + ((s.drop file.pos).take size).length⟩)
  | .linkSend _, s, r, s' => s <+: s' ∧ r = none
  | .fsClose _, s, r, s' => s <+: s' ∧ r = none
  | _, _, _, _ => False

variable {s : List UInt8}

theorem SourceStep.grows {o : Op} {s' : List UInt8} {r : OpResult o} (h : SourceStep o s r s') :
    s <+: s' := by
  cases o with
  | fsRead file size => exact h.1
  | linkSend m => exact h.1
  | fsClose file => exact h.1
  | _ => exact h.elim

/-- The message a call has sent. -/
def sent {σ : Type} : Event OpResult σ → Option Message
  | ⟨.linkSend m, _, none, _⟩ => some m
  | _ => none

/-- A transfer that is sent: the file as it was announced, where to start, and the chunk.  The loop
has a turn for every byte, and one to end with. -/
structure Sending where
  content : List UInt8
  offset : ℕ
  chunk : ℕ
  turns : ℕ
  requestId : UInt32
  dataOpcode : UInt8
  id : ℕ
  content_lt : content.length < 2 ^ 32
  offset_le : offset ≤ content.length
  chunk_pos : 0 < chunk
  turns_gt : content.length - offset < turns

namespace Sending

/-- The size of a piece. -/
def piece (sd : Sending) : ℕ := min sd.chunk chunkSize

/-- Where the last piece starts. -/
def lastPiece (sd : Sending) : ℕ :=
  sd.offset + (sd.content.length - sd.offset - 1) / sd.piece * sd.piece

/-- The transfer of the sender, when `offset` is where it has come to. -/
def transfer (sd : Sending) (offset : ℕ) : Transfer :=
  ⟨sd.requestId, (noteOf sd.content).totalSize, (noteOf sd.content).crc32, offset, 0, sd.dataOpcode,
    false, ⟨sd.id, offset⟩⟩

end Sending

/-- The file the transfer is received into: the partial file beside the target holds the bytes
before the start. -/
structure Sink (sd : Sending) where
  store : Fs
  target : CString
  id : ℕ
  part : store.names (temporaryPath target) = some (.file id)
  data : store.data id = sd.content.take sd.offset
  free : store.names target ≠ some .directory

/-- The transfer of the receiver. -/
def Sink.transfer {sd : Sending} (sink : Sink sd) : Transfer :=
  { sd.transfer sd.offset with
    actualCrc32 := crc32 (sd.content.take sd.offset)
    file := ⟨sink.id, sd.offset⟩ }

/-- What a receiver with a working store does with the messages of the sender. -/
def Sink.receive {sd : Sending} (sink : Sink sd) (messages : List Message) : Option Errno × Fs :=
  let x := ((receiveAll sink.transfer sink.target).exec disk (sink.store, messages)).2
  (x.1, x.2.1)

/-! ### What the receiver checks -/

namespace Sending

variable (sd : Sending)

theorem piece_pos : 0 < sd.piece := lt_min sd.chunk_pos (by decide)

variable {offset : ℕ} {bytes : List UInt8}

/-- A data message passes the check when it goes no further than the announced size. -/
theorem valid_iff (h : offset ≤ sd.content.length) :
    dataMessageIsValid (sd.transfer offset) (dataMessage (sd.transfer offset) bytes) = true ↔
      bytes ≠ [] ∧ bytes.length ≤ sd.content.length - offset := by
  have hoffset : (UInt32.ofNat offset).toNat = offset := by
    rw [UInt32.toNat_ofNat']
    exact Nat.mod_eq_of_lt (lt_of_le_of_lt h sd.content_lt)
  simp only [dataMessageIsValid, dataMessage, transfer, hoffset, toNat_totalSize sd.content_lt,
    Bool.and_eq_true, decide_eq_true_eq, true_and, and_true]
  exact and_congr_left' decide_eq_true_iff

/-- The last piece starts where less than a piece is left, if the pieces do not come out even. -/
theorem lastPiece_eq (h : sd.piece ∣ offset - sd.offset) (hle : sd.offset ≤ offset)
    (hlt : offset < sd.content.length) (hshort : sd.content.length - offset < sd.piece) :
    sd.lastPiece = offset ∧ ¬ sd.piece ∣ sd.content.length - sd.offset := by
  obtain ⟨k, hk⟩ := h
  have hdiv : (sd.content.length - sd.offset - 1) / sd.piece = k := by
    rw [Nat.div_eq_iff sd.piece_pos, Nat.mul_comm k]
    omega
  constructor
  · rw [lastPiece, hdiv, Nat.mul_comm k, ← hk]
    omega
  · intro hdvd
    have hrest : sd.piece ∣ sd.content.length - sd.offset - (offset - sd.offset) :=
      Nat.dvd_sub hdvd ⟨k, hk⟩
    have := Nat.le_of_dvd (by omega) hrest
    omega

/-- The pieces come out even, or the file is as it was announced when the last piece is read. -/
def Fits (es : List (Event OpResult (List UInt8))) : Prop :=
  sd.piece ∣ sd.content.length - sd.offset ∨ ∀ e ∈ es, ∀ file size, e.op = .fsRead file size →
    file.pos = sd.lastPiece → e.before.length = sd.content.length

theorem lt_lastPiece (h : ¬ sd.piece ∣ sd.content.length - sd.offset) :
    sd.content.length - sd.lastPiece < sd.piece := by
  have hdiv := Nat.div_add_mod (sd.content.length - sd.offset - 1) sd.piece
  have hmod := Nat.mod_lt (sd.content.length - sd.offset - 1) sd.piece_pos
  rw [lastPiece, Nat.mul_comm]
  by_contra hle
  refine h ⟨(sd.content.length - sd.offset - 1) / sd.piece + 1, ?_⟩
  rw [Nat.mul_add]
  omega

/-! ### What is sent -/

/-- What the sender has come to: to the end, or to the start of a piece. -/
def Reached (offset : ℕ) : Prop :=
  offset = sd.content.length ∨
    sd.offset ≤ offset ∧ offset < sd.content.length ∧ sd.piece ∣ offset - sd.offset

variable {sd}

variable {es : List (Event OpResult (List UInt8))}

/-- A read that is not of the last piece, or of a file that has not grown. -/
theorem fits_cons {file : Handle} {size : ℕ} {r : OpResult (.fsRead file size)}
    {bytes' : List UInt8} : sd.Fits (⟨.fsRead file size, bytes, r, bytes'⟩ :: es) ↔
      (sd.piece ∣ sd.content.length - sd.offset ∨
        (file.pos = sd.lastPiece → bytes.length = sd.content.length)) ∧ sd.Fits es := by
  unfold Fits
  constructor
  · rintro (hdvd | h)
    · exact ⟨Or.inl hdvd, Or.inl hdvd⟩
    · rw [List.forall_mem_cons] at h
      exact ⟨Or.inr (h.1 file size rfl), Or.inr h.2⟩
  · rintro ⟨hdvd | hread, hdvd' | hes⟩
    · exact Or.inl hdvd
    · exact Or.inl hdvd
    · exact Or.inl hdvd'
    · refine Or.inr (List.forall_mem_cons.2 ⟨?_, hes⟩)
      rintro _ _ ⟨⟩
      exact hread

theorem fits_cons_send {bytes' : List UInt8} {m : Message} {r : OpResult (.linkSend m)} :
    sd.Fits (⟨.linkSend m, bytes, r, bytes'⟩ :: es) ↔ sd.Fits es := by
  unfold Fits
  rw [List.forall_mem_cons]
  exact or_congr_right (and_iff_right (by rintro _ _ ⟨⟩))

section

variable (hcontent : sd.content <+: s)
include hcontent

/-- A turn reads a piece of what the file has become, and sends it. -/
theorem run_turn {turns : ℕ} {u : List UInt8} {x : Option Errno × Transfer}
    (hlt : offset < sd.content.length) (hr : Run (Prog.Step SourceStep)
      (transferSendLoop sd.chunk (turns + 1) (sd.transfer offset), s) es (.ret x, u)) :
    ∃ bytes r s₁ s₂ fs, bytes = (s.drop offset).take sd.piece ∧ s <+: s₂ ∧
      es = ⟨.fsRead ⟨sd.id, offset⟩ sd.piece, s, r, s₁⟩ ::
        ⟨.linkSend (dataMessage (sd.transfer offset) bytes), s₁, none, s₂⟩ :: fs ∧
      Run (Prog.Step SourceStep) (transferSendLoop sd.chunk turns { sd.transfer offset with
          file := ⟨sd.id, offset + bytes.length⟩
          offset := (offset + bytes.length) % 2 ^ 32 }, s₂) fs (.ret x, u) := by
  have hgoes : (sd.transfer offset).offset < (sd.transfer offset).totalSize.toNat := by
    rw [show (sd.transfer offset).totalSize = (noteOf sd.content).totalSize from rfl,
      toNat_totalSize sd.content_lt]
    exact hlt
  rw [transferSendLoop, if_pos hgoes] at hr
  obtain ⟨r, s₁, fs, rfl, ⟨hs₁, rfl⟩, hr⟩ := run_call_iff.1 hr
  have hne : (s.drop offset).take sd.piece ≠ [] := by
    rw [← List.length_pos_iff, List.length_take, List.length_drop]
    have := hcontent.length_le
    have := sd.piece_pos
    omega
  change Run _ (ite (List.take sd.piece (s.drop offset) = []) _ _, s₁) fs (Prog.ret x, u) at hr
  rw [if_neg hne] at hr
  obtain ⟨r, s₂, fs, rfl, ⟨hs₂, rfl⟩, hr⟩ := run_call_iff.1 hr
  exact ⟨_, _, s₁, s₂, fs, rfl, hs₁.trans hs₂, rfl, hr⟩

/-- What a read gets is within the announced size, but for the last piece of a file that has
grown. -/
theorem read_fits_iff (hle : sd.offset ≤ offset)
    (hlt : offset < sd.content.length) (hdvd : sd.piece ∣ offset - sd.offset)
    (hbytes : bytes = (s.drop offset).take sd.piece) :
    bytes.length ≤ sd.content.length - offset ↔ sd.piece ∣ sd.content.length - sd.offset ∨
      (offset = sd.lastPiece → s.length = sd.content.length) := by
  have hlength : bytes.length = min sd.piece (s.length - offset) := by
    rw [hbytes, List.length_take, List.length_drop]
  have hgrown := hcontent.length_le
  constructor
  · intro hfits
    by_cases heven : sd.piece ∣ sd.content.length - sd.offset
    · exact Or.inl heven
    · refine Or.inr fun hlast => ?_
      have hshort := sd.lt_lastPiece heven
      omega
  · intro h
    by_cases hshort : sd.content.length - offset < sd.piece
    · obtain ⟨hlast, hodd⟩ := sd.lastPiece_eq hdvd hle hlt hshort
      have hsame := h.resolve_left hodd hlast.symm
      omega
    · omega

/-- A piece within the announced size is a piece of the announced file, and the next one starts
where it ends. -/
theorem reached_add (hle : sd.offset ≤ offset)
    (hlt : offset < sd.content.length) (hdvd : sd.piece ∣ offset - sd.offset)
    (hbytes : bytes = (s.drop offset).take sd.piece)
    (hfits : bytes.length ≤ sd.content.length - offset) :
    sd.Reached (offset + bytes.length) ∧ bytes ≠ [] ∧
      sd.content.drop offset = bytes ++ sd.content.drop (offset + bytes.length) := by
  have hlength : bytes.length = min sd.piece (s.length - offset) := by
    rw [hbytes, List.length_take, List.length_drop]
  have hgrown := hcontent.length_le
  have hpos := sd.piece_pos
  refine ⟨?_, ?_, ?_⟩
  · by_cases hend : offset + bytes.length = sd.content.length
    · exact Or.inl hend
    · have hfull : bytes.length = sd.piece := by omega
      refine Or.inr ⟨by omega, by omega, ?_⟩
      rw [Nat.sub_add_comm hle, hfull]
      exact Nat.dvd_add_self_right.2 hdvd
  · rw [← List.length_pos_iff]
    omega
  · have hread : bytes <+: s.drop offset := hbytes ▸ List.take_prefix _ _
    have hpre : bytes <+: sd.content.drop offset := by
      refine List.prefix_of_prefix_length_le hread (hcontent.drop offset) ?_
      rw [List.length_drop]
      exact hfits
    obtain ⟨rest, hrest⟩ := hpre
    rw [← List.drop_drop, ← hrest, List.drop_left]

/-- **What a sender sends** is what was announced, exactly when it fits. -/
theorem sendLoop_accepted_iff {turns : ℕ} {u : List UInt8} {x : Option Errno × Transfer}
    (hreached : sd.Reached offset) (hturns : sd.content.length - offset < turns) (hr : Run (Prog.Step SourceStep)
      (transferSendLoop sd.chunk turns (sd.transfer offset), s) es (.ret x, u)) :
    (Accepted (sd.transfer offset) (es.filterMap sent) ↔ sd.Fits es) ∧
      (sd.Fits es → (es.filterMap sent).flatMap (·.data) = sd.content.drop offset) := by
  induction turns generalizing offset s es with
  | zero => omega
  | succ turns ih =>
    rcases hreached with rfl | ⟨hle, hlt, hdvd⟩
    · have hends : ¬ (sd.transfer sd.content.length).offset <
          (sd.transfer sd.content.length).totalSize.toNat := by
        rw [show (sd.transfer sd.content.length).totalSize = (noteOf sd.content).totalSize from rfl,
          toNat_totalSize sd.content_lt]
        exact lt_irrefl _
      rw [transferSendLoop, if_neg hends] at hr
      obtain ⟨rfl, -, -⟩ := run_ret_iff.1 hr
      refine ⟨iff_of_true trivial (Or.inr (by simp)), fun _ => ?_⟩
      rw [List.drop_length]
      rfl
    · obtain ⟨bytes, r, s₁, s₂, fs, hbytes, hs, rfl, hnext⟩ := run_turn hcontent hlt hr
      have hread := read_fits_iff hcontent hle hlt hdvd hbytes
      have hsent : (⟨.fsRead ⟨sd.id, offset⟩ sd.piece, s, r, s₁⟩ ::
          ⟨.linkSend (dataMessage (sd.transfer offset) bytes), s₁, none, s₂⟩ :: fs :
            List (Event OpResult (List UInt8))).filterMap sent =
          dataMessage (sd.transfer offset) bytes :: fs.filterMap sent := rfl
      rw [hsent, Accepted, sd.valid_iff hlt.le, fits_cons, fits_cons_send, ← hread]
      by_cases hfits : bytes.length ≤ sd.content.length - offset
      · obtain ⟨hreached, hne, hdata⟩ := reached_add hcontent hle hlt hdvd hbytes hfits
        have hsmall : (offset + bytes.length) % 2 ^ 32 = offset + bytes.length :=
          Nat.mod_eq_of_lt (by have := sd.content_lt; omega)
        have hpos := List.length_pos_iff.2 hne
        rw [hsmall] at hnext
        obtain ⟨hiff, hrest⟩ := ih (hcontent.trans hs) hreached (by omega) hnext
        constructor
        · rw [and_iff_right ⟨hne, hfits⟩, and_iff_right hfits]
          refine Iff.trans (accepted_congr ?_ ?_ ?_ ?_ ?_) hiff <;> rfl
        · rintro ⟨-, h⟩
          rw [List.flatMap_cons, hrest h, hdata]
          rfl
      · exact ⟨iff_of_false (fun h => hfits h.1.2) fun h => hfits h.1, fun h => absurd h.1 hfits⟩

end

end Sending

/-- Messages that are accepted and hold the rest of the file leave the file. -/
theorem receive_committed {sd : Sending} (sink : Sink sd) {messages : List Message}
    (haccepted : Accepted sink.transfer messages)
    (hdata : messages.flatMap (·.data) = sd.content.drop sd.offset) :
    (sink.receive messages).1 = none ∧
      (sink.receive messages).2.content sink.target = some sd.content := by
  refine receiveAll_exec haccepted rfl sd.content_lt sink.part sink.free rfl ?_ rfl ?_ ?_
  · show sd.offset = (sink.store.data sink.id).length
    rw [sink.data, List.length_take, Nat.min_eq_left sd.offset_le]
  · show crc32 (sd.content.take sd.offset) = crc32 (sink.store.data sink.id)
    rw [sink.data]
  · show sink.store.data sink.id ++ _ = _
    rw [sink.data, hdata, List.take_append_drop]

/-- **A source that grows.**  However it grows, what is sent passes the check of the receiver, and
leaves what was announced there, exactly when the pieces come out even or the last one is read
before the file has grown. -/
theorem growing_sent_iff (sd : Sending) (sink : Sink sd) {bytes u : List UInt8}
    {es : List (Event OpResult (List UInt8))} {x : Option Errno × Transfer}
    (hgrown₀ : sd.content <+: bytes) (hr : Run (Prog.Step SourceStep)
      (transferSend sd.chunk sd.turns (sd.transfer sd.offset), bytes) es (.ret x, u)) :
    Accepted sink.transfer (es.filterMap sent) ∧ (sink.receive (es.filterMap sent)).1 = none ∧
      (sink.receive (es.filterMap sent)).2.content sink.target = some (u.take sd.content.length) ↔
        sd.Fits es := by
  have hgrown : sd.content <+: u := by
    refine hr.invariant (I := fun _ c => sd.content <+: c.2) hgrown₀ ?_
    rintro _ _ _ _ hpre ⟨hstep⟩
    exact hpre.trans hstep.grows
  have htake : u.take sd.content.length = sd.content := (List.prefix_iff_eq_take.1 hgrown).symm
  obtain ⟨es₁, es₂, y, t, rfl, hloop, hclose⟩ := run_bind_iff.1 hr
  -- closing the file sends nothing, and reads nothing
  have hquiet : es₂.filterMap sent = [] ∧ (sd.Fits (es₁ ++ es₂) ↔ sd.Fits es₁) := by
    obtain ⟨r, s', fs, rfl, -, hret⟩ := run_call_iff.1 hclose
    obtain ⟨rfl, -, -⟩ := run_ret_iff.1 hret
    refine ⟨rfl, or_congr_right ?_⟩
    rw [List.forall_mem_append]
    refine and_iff_left ?_
    rintro e he file size hop
    rw [List.mem_singleton.1 he] at hop
    cases hop
  have hreached : sd.Reached sd.offset := by
    by_cases hend : sd.offset = sd.content.length
    · exact Or.inl hend
    · exact Or.inr ⟨le_rfl, lt_of_le_of_ne sd.offset_le hend, by simp⟩
  obtain ⟨hiff, hdata⟩ := Sending.sendLoop_accepted_iff hgrown₀ hreached sd.turns_gt hloop
  have hsink : Accepted sink.transfer (es₁.filterMap sent) ↔
      Accepted (sd.transfer sd.offset) (es₁.filterMap sent) := by
    refine accepted_congr ?_ ?_ ?_ ?_ ?_ <;> rfl
  rw [List.filterMap_append, hquiet.1, List.append_nil, hquiet.2, htake]
  constructor
  · rintro ⟨haccepted, -⟩
    exact hiff.1 (hsink.1 haccepted)
  · intro hfits
    have haccepted := hsink.2 (hiff.2 hfits)
    exact ⟨haccepted, receive_committed sink haccepted (hdata hfits)⟩

/-- A file of one byte, that has been announced. -/
def byteSending (chunk : ℕ) (h : 0 < chunk) : Sending :=
  ⟨[65], 0, chunk, 2, 1, opGetData, 0, by decide, by decide, h, by decide⟩

/-- An empty partial file for it. -/
def byteSink (chunk : ℕ) (h : 0 < chunk) : Sink (byteSending chunk h) where
  store := Fs.empty.create (temporaryPath (.ofString "x"))
  target := CString.ofString "x"
  id := 0
  part := by decide +kernel
  data := rfl
  free := by decide +kernel

/-- The messages of a transfer whose source has got a second byte before the first read. -/
def byteMessages (chunk : ℕ) (h : 0 < chunk) : List Message :=
  [dataMessage ((byteSending chunk h).transfer 0) ([65, 66].take (byteSending chunk h).piece)]

/-- A source that has grown, in pieces that come out even. -/
theorem growing_sent_even : Accepted (byteSink 1 one_pos).transfer (byteMessages 1 one_pos) ∧
      ((byteSink 1 one_pos).receive (byteMessages 1 one_pos)).1 = none ∧
        ((byteSink 1 one_pos).receive (byteMessages 1 one_pos)).2.content
          (.ofString "x") = some [65] := by
  obtain ⟨es, x, hrun, hsent⟩ : ∃ es x, Run (Prog.Step SourceStep)
      (transferSend 1 2 ((byteSending 1 one_pos).transfer 0), [65, 66]) es (.ret x, [65, 66]) ∧
        es.filterMap sent = byteMessages 1 one_pos :=
    ⟨_, _, Run.cons (.call ⟨List.prefix_refl _, rfl⟩) (Run.cons (.call ⟨List.prefix_refl _, rfl⟩)
      (Run.cons (.call ⟨List.prefix_refl _, rfl⟩) (.nil _))), rfl⟩
  rw [← hsent]
  exact (growing_sent_iff (byteSending 1 one_pos) (byteSink 1 one_pos) ⟨[66], rfl⟩ hrun).2
    (Or.inl ⟨1, rfl⟩)

/-- A byte that has been appended is sent with the last piece, which is refused. -/
theorem grown_byte_refused : ¬ ∀ (sd : Sending) (sink : Sink sd) (bytes u : List UInt8)
    (es : List (Event OpResult (List UInt8))) (x : Option Errno × Transfer), sd.content <+: bytes →
      Run (Prog.Step SourceStep) (transferSend sd.chunk sd.turns (sd.transfer sd.offset), bytes) es
        (.ret x, u) →
        Accepted sink.transfer (es.filterMap sent) ∧ (sink.receive (es.filterMap sent)).1 = none ∧
          (sink.receive (es.filterMap sent)).2.content sink.target =
            some (u.take sd.content.length) := by
  intro h
  obtain ⟨haccepted, -⟩ := h (byteSending 192 (Nat.succ_pos 191))
    (byteSink 192 (Nat.succ_pos 191)) [65, 66] _ _ _ ⟨[66], rfl⟩ (Run.cons (.call ⟨List.prefix_refl _, rfl⟩)
      (Run.cons (.call ⟨List.prefix_refl _, rfl⟩)
        (Run.cons (.call ⟨List.prefix_refl _, rfl⟩) (.nil _))))
  have hrefused : dataMessageIsValid (byteSink 192 (Nat.succ_pos 191)).transfer
      (dataMessage ((byteSending 192 (Nat.succ_pos 191)).transfer 0) [65, 66]) = false := by
    decide +kernel
  exact absurd (haccepted.1.symm.trans hrefused) (by decide)

end KfswServices.Ftp
