/-
# The recovery image is installed whole or not at all

`kfsw_golden_present` and `kfsw_golden_install` of `src/golden/golden.c`, as programs that call the
flash and the update service.  Any call may fail, and between two calls readers of the secondary
slot come and go and the bootloader's record changes, as `src/fwu/fwu.c` lets them.

The image is read twice: for its checksum, and to be written.  The loop that writes is followed by
one invariant, `Sending`: the transfer is the installation's own, it has received what was read, and
nobody can read the slot.  So an installation that reports success has left the whole golden
partition in the slot, and one that fails leaves a service that did nothing or has no image to offer
(`install_all_or_nothing`).
-/

import KfswServices.Fwu.Readers
import KfswServices.Fwu.Sessions
import KfswServices.Library.Access
import KfswServices.Library.Program

namespace KfswServices.Golden

open Library
open Fwu (Service littleEndian imageMagic slotWriteOffset maxImageSize GuardInv UpdateInv)

/-- The build: `GOLDEN_SIZE`, if a partition is chosen, and what the update service has.  The
offsets of the loops have 32 bits. -/
structure Build where
  partition : Option ℕ
  update : Fwu.Config
  partition_lt : ∀ size, partition = some size → size ≤ 2 ^ 32 - 256

/-- A call of the update service other than those of a reader. -/
abbrev UpdateCall : Type := { c : Fwu.Call // c ≠ .acquire ∧ c ≠ .release }

/-- What the recovery calls: the flash map, and the update service. -/
inductive Op
  | flashOpen
  | flashRead (offset length : ℕ)
  | fwu (c : UpdateCall)

/-- What a call comes back with. -/
@[reducible] def OpResult : Op → Type
  | .flashOpen => Option Errno
  | .flashRead _ _ => Except Errno (List UInt8)
  | .fwu _ => Option Errno

abbrev Program (α : Type) : Type := Prog OpResult α

/-- `flash_area_open` of the golden partition. -/
def flashOpen : Program (Option Errno) := Prog.perform Op.flashOpen

/-- `flash_area_read`. -/
def flashRead (offset length : ℕ) : Program (Except Errno (List UInt8)) :=
  Prog.perform (Op.flashRead offset length)

/-- `kfsw_fwu_begin`, as a call. -/
abbrev fwuBegin (total : ℕ) (crc : UInt32) : UpdateCall := ⟨.begin total crc, by simp⟩

/-- `kfsw_fwu_write`. -/
abbrev fwuWrite (offset : ℕ) (chunk : List UInt8) : UpdateCall := ⟨.write offset (some chunk), by simp⟩

/-- `kfsw_fwu_finish`. -/
abbrev fwuFinish : UpdateCall := ⟨.finish, by simp⟩

/-- `kfsw_fwu_abort`. -/
abbrev fwuAbort : UpdateCall := ⟨.abort, by simp⟩

/-- A call of the update service. -/
def fwu (c : UpdateCall) : Program (Option Errno) := Prog.perform (Op.fwu c)

/-- `GOLDEN_CHUNK`. -/
abbrev chunkSize : ℕ := 256

/-- `kfsw_golden_present`. -/
def present (b : Build) : Program Bool :=
  match b.partition with
  | none => pure false
  | some _ => do
    match ← flashOpen with
    | some _ => pure false
    | none =>
      match ← flashRead 0 4 with
      | .error _ => pure false
      | .ok header => pure (littleEndian header 0 4 == imageMagic)

/-- The offsets that the loops of `kfsw_golden_install` go through. -/
def offsets (size : ℕ) : List ℕ := (List.range ((size + 255) / 256)).map (chunkSize * ·)

/-- The first loop of `kfsw_golden_install`. -/
def readAll : List ℕ → UInt32 → Program (Except Errno UInt32)
  | [], crc => pure (.ok crc)
  | offset :: rest, crc => do
    match ← flashRead offset chunkSize with
    | .error e => pure (.error e)
    | .ok chunk => readAll rest (crc32Update crc chunk)

/-- The second loop; a failure aborts the transfer. -/
def copyAll : List ℕ → Program (Option Errno)
  | [] => pure none
  | offset :: rest => do
    match ← flashRead offset chunkSize with
    | .error e =>
      let _ ← fwu fwuAbort
      pure (some e)
    | .ok chunk =>
      match ← fwu (fwuWrite offset chunk) with
      | some e =>
        let _ ← fwu fwuAbort
        pure (some e)
      | none => copyAll rest

/-- `kfsw_golden_install`. -/
def install (b : Build) : Program (Option Errno) :=
  match b.partition with
  | none => pure (some .ENODEV)
  | some size => do
    if !(← present b) then pure (some .ENOENT)
    else
      match ← flashOpen with
      | some e => pure (some e)
      | none =>
        match ← readAll (offsets size) 0 with
        | .error e => pure (some e)
        | .ok crc =>
          match ← fwu (fwuBegin size crc) with
          | some e => pure (some e)
          | none =>
            match ← copyAll (offsets size) with
            | some e => pure (some e)
            | none =>
              match ← fwu fwuFinish with
              | some e =>
                let _ ← fwu fwuAbort
                pure (some e)
              | none => pure none

/-! ### What the calls do -/

/-- A call, over a golden partition with this content: the flash gives the bytes or fails, and the
service does what it does under any answers of its own flash. -/
def Step (b : Build) (content : ℕ → UInt8) : (o : Op) → Service → OpResult o → Service → Prop
  | .flashOpen, s, _, t => t = s
  | .flashRead offset length, s, r, t => t = s ∧ ∀ bytes, r = .ok bytes →
      (∀ size, b.partition = some size → offset + length ≤ size) ∧
        bytes = window content offset length
  | .fwu c, s, r, t => ∃ env : Fwu.Env, env.Lawful b.update s ∧
      r = (s.exec b.update env c.1).result ∧ t = (s.exec b.update env c.1).service

/-- What happens between two calls. -/
inductive Disturbance
  | acquire
  | release
  | swapType (swapType : Fwu.SwapType)

/-- A reader of the secondary slot comes or goes, or the bootloader's record changes; it does not
become REVERT between two resets. -/
inductive Other : Service → Disturbance → Service → Prop
  | acquire {s : Service} : Other s .acquire s.acquire.service
  | release {s : Service} (h : s.readers ≠ 0) : Other s .release s.release.service
  | swapType {s : Service} {swapType : Fwu.SwapType}
      (h : swapType = .REVERT → s.swapType = .REVERT) :
      Other s (.swapType swapType) { s with swapType := swapType }

/-- What all that can come to. -/
structure Beside (cfg : Fwu.Config) (s t : Service) : Prop where
  status : t.status = s.status
  stream : t.stream = s.stream
  slot : t.slot = s.slot
  guarded : GuardInv cfg s → GuardInv cfg t

theorem Beside.refl (cfg : Fwu.Config) (s : Service) : Beside cfg s s := ⟨rfl, rfl, rfl, id⟩

variable {cfg : Fwu.Config}

theorem Beside.trans {s t u : Service} (h : Beside cfg s t) (h' : Beside cfg t u) :
    Beside cfg s u :=
  ⟨h'.status.trans h.status, h'.stream.trans h.stream, h'.slot.trans h.slot,
    fun hs => h'.guarded (h.guarded hs)⟩

/-- A reader, or a change of the record. -/
theorem Other.beside (cfg : Fwu.Config) {s t : Service} {e : Disturbance} (h : Other s e t) :
    Beside cfg s t := by
  cases h with
  | acquire =>
    unfold Service.acquire
    by_cases hbusy : s.status.state = .RECEIVING ∨ s.status.state = .FAILED
    · rw [if_pos hbusy]
      exact .refl cfg s
    · rw [if_neg hbusy]
      exact ⟨rfl, rfl, rfl, fun hs => ⟨fun h => absurd h hbusy, hs.kept⟩⟩
  | release hreaders =>
    exact ⟨rfl, rfl, rfl, fun hs => ⟨fun h => absurd (hs.unread h) hreaders, hs.kept⟩⟩
  | swapType hrevert =>
    refine ⟨rfl, rfl, rfl, fun hs => ⟨hs.unread, fun h => ?_⟩⟩
    have hkept := hs.kept h
    unfold Service.neededForRevert at hkept ⊢
    cases hm : cfg.mcuboot with
    | false => rfl
    | true =>
      rw [hm, Bool.true_and, decide_eq_false_iff_not] at hkept
      rw [Bool.true_and, decide_eq_false_iff_not]
      exact fun h => hkept (hrevert h)

/-! ### The two loops -/

section

variable {b : Build} {content : ℕ → UInt8} {size : ℕ} {crc : UInt32} {image : List UInt8}
  {s t : Service}

/-- What comes of a program from `s` on, among the others. -/
abbrev Meets (b : Build) (content : ℕ → UInt8) {α : Type} (p : Program α) (Q : α → Service → Prop)
    (s : Service) : Prop :=
  Ensures (Step b content) (Beside b.update) (fun _ _ _ _ => True) p Q s

/-- A read of the golden partition. -/
theorem meets_flashRead {α : Type} {k : Except Errno (List UInt8) → Program α}
    {Q : α → Service → Prop} {offset length : ℕ}
    (herror : ∀ e t, Beside b.update s t → Meets b content (k (.error e)) Q t)
    (hok : ∀ t, Beside b.update s t → (∀ size, b.partition = some size → offset + length ≤ size) →
      Meets b content (k (.ok (window content offset length))) Q t) :
    Meets b content (flashRead offset length >>= k) Q s := by
  refine ensures_bind.2 fun s₁ hs₁ r t ht => ⟨trivial, ?_⟩
  obtain ⟨rfl, hr⟩ := ht
  cases r with
  | error e => exact herror e t hs₁
  | ok bytes =>
    obtain ⟨hsize, rfl⟩ := hr bytes rfl
    exact hok t hs₁ hsize

/-- A call of the update service. -/
theorem meets_fwu {α : Type} {k : Option Errno → Program α} {Q : α → Service → Prop}
    {c : UpdateCall} (h : ∀ t (env : Fwu.Env), Beside b.update s t → env.Lawful b.update t →
      Meets b content (k (t.exec b.update env c.1).result) Q (t.exec b.update env c.1).service) :
    Meets b content (fwu c >>= k) Q s := by
  refine ensures_bind.2 fun s₁ hs₁ r t ht => ⟨trivial, ?_⟩
  obtain ⟨env, hlaw, rfl, rfl⟩ := ht
  exact h s₁ env hs₁ hlaw

/-- The bytes of a window, in two parts. -/
theorem window_add (content : ℕ → UInt8) (offset m n : ℕ) :
    window content offset (m + n) = window content offset m ++ window content (offset + m) n := by
  unfold window
  rw [List.range_add, List.map_append, List.map_map]
  congr 1
  refine List.map_congr_left fun k _ => ?_
  simp only [Function.comp, Nat.add_assoc]

/-- The offsets from the chunk `m` on. -/
def offsetsFrom (m n : ℕ) : List ℕ := (List.range' m n).map (chunkSize * ·)

theorem offsets_eq (size : ℕ) : offsets size = offsetsFrom 0 ((size + 255) / 256) := by
  rw [offsets, offsetsFrom, List.range_eq_range']

theorem offsetsFrom_succ (m n : ℕ) :
    offsetsFrom m (n + 1) = chunkSize * m :: offsetsFrom (m + 1) n := by
  rw [offsetsFrom, List.range'_succ, List.map_cons]
  rfl

/-- The next chunk. -/
theorem window_chunk (content : ℕ → UInt8) (m : ℕ) : window content 0 (chunkSize * (m + 1)) =
      window content 0 (chunkSize * m) ++ window content (chunkSize * m) chunkSize := by
  rw [Nat.mul_succ, window_add, Nat.zero_add]

/-- The checksum goes on with it. -/
theorem crc32_chunk (content : ℕ → UInt8) (m : ℕ) :
    crc32Update (crc32 (window content 0 (chunkSize * m)))
        (window content (chunkSize * m) chunkSize) =
      crc32 (window content 0 (chunkSize * (m + 1))) := by
  rw [window_chunk, crc32, crc32, crc32Update_append]

variable (content) in
/-- **The first loop** computes the checksum of the whole partition. -/
theorem meets_readAll (hpartition : b.partition = some size) (n : ℕ) : ∀ (m : ℕ) (s : Service),
    chunkSize * m ≤ size →
    Meets b content (readAll (offsetsFrom m n) (crc32 (window content 0 (chunkSize * m))))
      (fun r t => Beside b.update s t ∧ ∀ crc, r = .ok crc →
        chunkSize * (m + n) ≤ size ∧ crc = crc32 (window content 0 (chunkSize * (m + n)))) s := by
  induction n with
  | zero =>
    intro m s hle
    refine ⟨.refl _ _, ?_⟩
    rintro _ ⟨⟩
    exact ⟨hle, rfl⟩
  | succ n ih =>
    intro m s _
    rw [offsetsFrom_succ]
    refine meets_flashRead (fun e t ht => ⟨ht, fun _ h => by cases h⟩) fun t ht hsize => ?_
    rw [show m + (n + 1) = m + 1 + n by omega]
    dsimp only
    rw [crc32_chunk]
    refine (ih (m + 1) t ?_).post fun r u hu => ⟨ht.trans hu.1, hu.2⟩
    have hread := hsize size hpartition
    rw [Nat.mul_succ]
    exact hread

/-- The transfer of an installation, with this much of the image received. -/
structure Sending (cfg : Fwu.Config) (size : ℕ) (crc : UInt32) (image : List UInt8) (s : Service) :
    Prop where
  guarded : GuardInv cfg s
  state : s.status.state = .RECEIVING
  total : s.status.totalSize = size
  expected : s.status.expectedCrc32 = crc
  unscheduled : s.status.swapScheduled = false
  received : UpdateInv cfg image s

/-- The transfer has failed, or is to be aborted. -/
structure Failing (cfg : Fwu.Config) (s : Service) : Prop where
  guarded : GuardInv cfg s
  state : s.status.state = .RECEIVING ∨ s.status.state = .FAILED

/-- Nothing is offered. -/
def Aborted (s : Service) : Prop := s.status.state = .IDLE ∨ s.status.state = .FAILED

theorem Sending.beside (h : Sending cfg size crc image s) (ht : Beside cfg s t) :
    Sending cfg size crc image t where
  guarded := ht.guarded h.guarded
  state := (congrArg Fwu.Status.state ht.status).trans h.state
  total := (congrArg Fwu.Status.totalSize ht.status).trans h.total
  expected := (congrArg Fwu.Status.expectedCrc32 ht.status).trans h.expected
  unscheduled := (congrArg Fwu.Status.swapScheduled ht.status).trans h.unscheduled
  received := h.received.congr ht.status ht.stream ht.slot

theorem Failing.beside (h : Failing cfg s) (ht : Beside cfg s t) : Failing cfg t :=
  ⟨ht.guarded h.guarded, by rw [ht.status]; exact h.state⟩

theorem Sending.failing (h : Sending cfg size crc image s) : Failing cfg s :=
  ⟨h.guarded, .inl h.state⟩

/-- An abort ends the transfer. -/
theorem meets_abort {Q : Option Errno → Service → Prop} {r : Option Errno}
    (hs : Failing b.update s) (hQ : ∀ t, Aborted t → Q r t) :
    Meets b content (fwu fwuAbort >>= fun _ => pure r) Q s := by
  refine meets_fwu fun t env ht _ => hQ _ ?_
  have hfailing := hs.beside ht
  show Aborted (t.abort b.update env).service
  rcases t.abort_cases b.update env with ⟨e, he⟩ | ⟨-, e, slot, effects, he, -⟩ |
      ⟨-, effects, he, -⟩
  · rw [he]
    rcases hfailing.state with hstate | hstate
    · -- an abort of a transfer under way is not refused
      have hrefused := (Fwu.Sessions.abort_refused b.update env t).2
        (hfailing.guarded.free hstate) ⟨e, he⟩
      exact .inr hrefused
    · exact .inr hstate
  · rw [he]
    exact .inr rfl
  · rw [he]
    exact .inl rfl

/-- A write of the next chunk. -/
theorem Sending.write {env : Fwu.Env} (h : Sending cfg size crc image s) (hlaw : env.Lawful cfg s)
    (offset : ℕ) (chunk : List UInt8) :
    (∃ e, (s.exec cfg env (.write offset (some chunk))).result = some e ∧
        Failing cfg (s.exec cfg env (.write offset (some chunk))).service) ∨
      (s.exec cfg env (.write offset (some chunk))).result = none ∧
        Sending cfg size crc (image ++ chunk)
          (s.exec cfg env (.write offset (some chunk))).service := by
  have hguard := (Fwu.guardInv_exec env (c := .write offset (some chunk)) h.guarded (by simp)
    (by simp)).1
  have hinv := (Fwu.updateInv_exec (.write offset (some chunk)) hlaw h.received).1
  simp only [Service.exec] at hguard hinv ⊢
  rcases s.write_cases env offset (some chunk) with ⟨e, he⟩ | ⟨-, e, he⟩ |
      ⟨-, span, hspan, -, -, -, he⟩
  · rw [he] at hguard ⊢
    exact .inl ⟨e, rfl, hguard, .inl h.state⟩
  · rw [he] at hguard ⊢
    exact .inl ⟨e, rfl, hguard, .inr rfl⟩
  · obtain rfl := Option.some.inj hspan
    rw [he] at hguard hinv ⊢
    exact .inr ⟨rfl, hguard, h.state, h.total, h.expected, h.unscheduled, hinv⟩

/-- **The second loop** has the service receive the whole partition. -/
theorem meets_copyAll (n : ℕ) : ∀ (m : ℕ) (s : Service),
    Sending b.update size crc (window content 0 (chunkSize * m)) s →
    Meets b content (copyAll (offsetsFrom m n)) (fun r t => (r = none → Sending b.update size crc
          (window content 0 (chunkSize * (m + n))) t) ∧ (r ≠ none → Aborted t)) s := by
  induction n with
  | zero => exact fun m s hs => ⟨fun _ => hs, fun h => absurd rfl h⟩
  | succ n ih =>
    intro m s hs
    rw [offsetsFrom_succ]
    refine meets_flashRead (fun e t ht => ?_) fun t ht _ => ?_
    · exact meets_abort (hs.beside ht).failing fun u hu => ⟨fun h => (by cases h), fun _ => hu⟩
    · refine meets_fwu fun u env hu hlaw => ?_
      rcases ((hs.beside ht).beside hu).write hlaw (chunkSize * m)
        (window content (chunkSize * m) chunkSize) with ⟨e, hresult, hfailing⟩ | ⟨hresult, hsent⟩
      · rw [hresult]
        exact meets_abort hfailing fun v hv => ⟨fun h => (by cases h), fun _ => hv⟩
      · rw [hresult]
        rw [← window_chunk] at hsent
        have hrest := ih (m + 1) _ hsent
        rw [show m + 1 + n = m + (n + 1) by omega] at hrest
        exact hrest

variable (size crc) in
/-- The begin of an installation. -/
theorem begin_sending {env : Fwu.Env} (h : GuardInv cfg s) (hlaw : env.Lawful cfg s)
    (hinv : UpdateInv cfg image s) :
    let o := s.exec cfg env (.begin size crc)
    (o.result = none → Sending cfg size crc [] o.service) ∧
      (o.result ≠ none → o.service = s ∨ o.service.status.state = .FAILED) := by
  intro o
  have hguard := (Fwu.guardInv_exec env (c := .begin size crc) h (by simp) (by simp)).1
  have hnext := (Fwu.updateInv_exec (.begin size crc) hlaw hinv).1
  simp only [Service.exec, o] at hguard hnext ⊢
  rcases s.begin_cases cfg env size crc with ⟨e, he⟩ | ⟨-, -, e, slot, effects, he, -⟩ |
      ⟨-, -, -, -, he⟩
  · rw [he]
    exact ⟨fun h => (by cases h), fun _ => .inl rfl⟩
  · rw [he]
    exact ⟨fun h => (by cases h), fun _ => .inr rfl⟩
  · rw [he] at hguard hnext ⊢
    exact ⟨fun _ => ⟨hguard, rfl, rfl, rfl, rfl, hnext⟩, fun h => absurd rfl h⟩

/-- What an installation leaves that has succeeded: the whole golden partition is in the slot, and
the bootloader has been asked, if there is one. -/
structure Installed (b : Build) (content : ℕ → UInt8) (s : Service) : Prop where
  magic : littleEndian (window content 0 4) 0 4 = imageMagic
  state : s.status.state = .READY
  offered : s.status.swapScheduled = b.update.mcuboot
  bytes : ∃ size, b.partition = some size ∧ s.status.totalSize = size ∧ 0 < size ∧
    chunkSize ∣ size ∧ s.bytes (slotWriteOffset b.update) size = window content 0 size

/-- The end of an installation. -/
theorem Sending.finish {env : Fwu.Env} (h : Sending cfg size crc image s)
    (hlaw : env.Lawful cfg s) :
    let o := s.exec cfg env .finish
    (o.result = none → o.service.status.state = .READY ∧ o.service.status.totalSize = size ∧
        o.service.status.swapScheduled = cfg.mcuboot ∧
        o.service.bytes (slotWriteOffset cfg) size = image) ∧
      (o.result ≠ none → Failing cfg o.service) := by
  intro o
  have hguard := (Fwu.guardInv_exec env (c := .finish) h.guarded (by simp) (by simp)).1
  have hinv := (Fwu.updateInv_exec .finish hlaw h.received).1
  have hverify := s.verify_cases env
  simp only [Service.exec, o] at hguard hinv ⊢
  rcases s.finish_cases cfg env with ⟨e, he⟩ | ⟨-, e, v, effects, hv, he⟩ | ⟨-, v, effects, hv, hend⟩
  · rw [he] at hguard ⊢
    exact ⟨fun h => (by cases h), fun _ => ⟨hguard, .inl h.state⟩⟩
  · rw [he] at hguard ⊢
    refine ⟨fun h => (by cases h), fun _ => ⟨hguard, ?_⟩⟩
    rw [hv] at hverify
    rcases hverify with ⟨hst, -⟩ | ⟨-, _, hrefused⟩ | ⟨-, _, slot, _, hfailed, -⟩ | ⟨-, -, -, -, hok⟩
    · cases hst.symm.trans h.state
    · rw [show v = s from congrArg Fwu.Outcome.service hrefused]
      exact .inl h.state
    · rw [show v = _ from congrArg Fwu.Outcome.service hfailed]
      exact .inr rfl
    · cases congrArg Fwu.Outcome.result hok
  · -- what the verification leaves of the transfer
    have hkept : v.status.totalSize = size ∧ v.status.swapScheduled = false := by
      rw [hv] at hverify
      rcases hverify with ⟨hst, -⟩ | ⟨-, _, hrefused⟩ | ⟨-, _, slot, _, hfailed, -⟩ |
          ⟨-, -, -, -, hok⟩
      · cases hst.symm.trans h.state
      · cases congrArg Fwu.Outcome.result hrefused
      · cases congrArg Fwu.Outcome.result hfailed
      · rw [show v = _ from congrArg Fwu.Outcome.service hok]
        exact ⟨h.total, h.unscheduled⟩
    rcases hend with ⟨hmcuboot, he⟩ | ⟨-, e, he⟩ | ⟨hmcuboot, -, he⟩
    · rw [he] at hinv ⊢
      have hbytes := (hinv.intact (.inr rfl)).bytes
      exact ⟨fun _ => ⟨rfl, hkept.1, hkept.2.trans hmcuboot.symm, hkept.1 ▸ hbytes⟩,
        fun h => absurd rfl h⟩
    · rw [he] at hguard ⊢
      exact ⟨fun h => (by cases h), fun _ => ⟨hguard, .inr rfl⟩⟩
    · rw [he] at hinv ⊢
      have hbytes := (hinv.intact (.inr rfl)).bytes
      exact ⟨fun _ => ⟨rfl, hkept.1, hmcuboot.symm, hkept.1 ▸ hbytes⟩, fun h => absurd rfl h⟩

/-- What comes of a look at the header. -/
theorem meets_present : Meets b content (present b) (fun found t => Beside b.update s t ∧
      (found = true → littleEndian (window content 0 4) 0 4 = imageMagic ∧
        ∀ size, b.partition = some size → 0 + 4 ≤ size)) s := by
  unfold present
  cases hpartition : b.partition with
  | none => exact ⟨.refl _ _, fun h => by cases h⟩
  | some size =>
    refine ensures_bind.2 fun t ht r u hu => ⟨trivial, ?_⟩
    obtain rfl := hu
    cases r with
    | some e => exact ⟨ht, fun h => by cases h⟩
    | none =>
      refine meets_flashRead (fun e v hv => ?_) fun v hv hsize => ?_
      · exact ⟨ht.trans hv, fun h => by cases h⟩
      · exact ⟨ht.trans hv, fun h => ⟨beq_iff_eq.1 h, hpartition ▸ hsize⟩⟩

/-- What an installation that fails leaves: the service as it was, or one with nothing to offer. -/
def Unharmed (s t : Service) : Prop := t.status = s.status ∧ t.slot = s.slot ∨ Aborted t

/-- What comes of an installation. -/
structure Concluded (b : Build) (content : ℕ → UInt8) (s : Service) (r : Option Errno)
    (t : Service) : Prop where
  installed : r = none → Installed b content t
  unharmed : r ≠ none → Unharmed s t

theorem Concluded.beside {r : Option Errno} {u : Service} (h : Concluded b content s r t)
    (hu : Beside b.update t u) : Concluded b content s r u where
  installed hr := by
    obtain ⟨hmagic, hstate, hoffered, size, hpartition, htotal, hpos, hdvd, hbytes⟩ := h.installed hr
    refine ⟨hmagic, ?_, ?_, size, hpartition, ?_, hpos, hdvd, ?_⟩
    · rw [hu.status, hstate]
    · rw [hu.status, hoffered]
    · rw [hu.status, htotal]
    · rw [← hbytes, Service.bytes, Service.bytes, hu.slot]
  unharmed hr := by
    rcases h.unharmed hr with ⟨hstatus, hslot⟩ | haborted
    · exact .inl ⟨hu.status.trans hstatus, hu.slot.trans hslot⟩
    · exact .inr (by rw [Aborted, hu.status]; exact haborted)

theorem Beside.unharmed (h : Beside cfg s t) : Unharmed s t :=
  .inl ⟨h.status, h.slot⟩

variable (content) in
/-- **An installation**, from any service that the update operations can leave. -/
theorem meets_install {image : List UInt8} (hguard : GuardInv b.update s)
    (hinv : UpdateInv b.update image s) :
    Meets b content (install b) (Concluded b content s) s := by
  unfold install
  cases hpartition : b.partition with
  | none => exact ⟨fun h => (by cases h), fun _ => .inl ⟨rfl, rfl⟩⟩
  | some size =>
    refine meets_present.bind fun found t ⟨ht, hmagic⟩ => ?_
    cases found with
    | false => exact ⟨fun h => (by cases h), fun _ => ht.unharmed⟩
    | true =>
      refine ensures_bind.2 fun u hu r v hv => ⟨trivial, ?_⟩
      obtain rfl := hv
      have hopened := ht.trans hu
      cases r with
      | some e => exact ⟨fun h => (by cases h), fun _ => hopened.unharmed⟩
      | none =>
        rw [offsets_eq]
        have hchecksum := meets_readAll content hpartition ((size + 255) / 256) 0 v
          (Nat.zero_le _)
        have hnothing : crc32 (window content 0 (chunkSize * 0)) = 0 := crc32Update_nil 0
        rw [hnothing] at hchecksum
        refine Ensures.bind hchecksum fun r w ⟨hw, hcrc⟩ => ?_
        have hread := hopened.trans hw
        cases r with
        | error e => exact ⟨fun h => (by cases h), fun _ => hread.unharmed⟩
        | ok crc =>
          obtain ⟨hle, rfl⟩ := hcrc crc rfl
          -- every chunk was inside, so the chunks are all there is
          have hsize : chunkSize * (0 + (size + 255) / 256) = size := by
            have := Nat.div_add_mod (size + 255) 256
            have := Nat.mod_lt (size + 255) (by decide : 0 < 256)
            simp only [chunkSize] at hle ⊢
            omega
          rw [hsize]
          refine meets_fwu fun x env hx hlaw => ?_
          have hbefore := hread.trans hx
          obtain ⟨hbegun, hfailed⟩ := begin_sending size
            (crc32 (window content 0 size)) (hbefore.guarded hguard) hlaw
            (hinv.congr hbefore.status hbefore.stream hbefore.slot)
          cases hbegin : (x.exec b.update env (.begin size (crc32 (window content 0 size)))).result with
          | some e =>
            refine ⟨fun h => (by cases h), fun _ => ?_⟩
            rcases hfailed (by simp [hbegin]) with hsame | hstate
            · rw [hsame]
              exact hbefore.unharmed
            · exact .inr (.inr hstate)
          | none =>
            have hsending := hbegun hbegin
            refine Ensures.bind (meets_copyAll ((size + 255) / 256) 0 _ hsending)
              fun r y ⟨hsent, haborted⟩ => ?_
            cases r with
            | some e => exact ⟨fun h => (by cases h), fun _ => .inr (haborted (by simp))⟩
            | none =>
              have hall := hsent rfl
              rw [hsize] at hall
              refine meets_fwu fun z env hz hlaw => ?_
              obtain ⟨hdone, hfailing⟩ := (hall.beside hz).finish hlaw
              cases hfinish : (z.exec b.update env .finish).result with
              | some e =>
                refine meets_abort (hfailing (by simp [hfinish])) fun t ht => ?_
                exact ⟨fun h => (by cases h), fun _ => .inr ht⟩
              | none =>
                obtain ⟨hstate, htotal, hoffered, hbytes⟩ := hdone hfinish
                obtain ⟨hheader, hroom⟩ := hmagic rfl
                have hpos := hroom size hpartition
                exact ⟨fun _ => ⟨hheader, hstate, hoffered, size, hpartition, htotal, by omega,
                  ⟨_, hsize.symm⟩, hbytes⟩, fun h => absurd rfl h⟩

/-- What the service keeps, whoever uses it. -/
structure Kept (cfg : Fwu.Config) (s : Service) : Prop where
  guarded : GuardInv cfg s
  received : ∃ image, UpdateInv cfg image s

theorem kept_boot (cfg : Fwu.Config) (slot : ℕ → UInt8) (swapType : Fwu.SwapType) :
    Kept cfg (Service.boot slot swapType) :=
  ⟨Fwu.guardInv_of_rest (.inl rfl), [], trivial⟩

theorem Kept.exec {env : Fwu.Env} (h : Kept cfg s) (hlaw : env.Lawful cfg s) (c : UpdateCall) :
    Kept cfg (s.exec cfg env c.1).service := by
  obtain ⟨hguard, image, hinv⟩ := h
  exact ⟨(Fwu.guardInv_exec env hguard c.2.1 c.2.2).1, _, (Fwu.updateInv_exec c.1 hlaw hinv).1⟩

theorem Kept.other {e : Disturbance} (h : Kept cfg s) (hs : Other s e t) : Kept cfg t := by
  obtain ⟨hguard, image, hinv⟩ := h
  have hbeside := hs.beside cfg
  exact ⟨hbeside.guarded hguard, image, hinv.congr hbeside.status hbeside.stream hbeside.slot⟩

/-- A program of the recovery keeps it, among others. -/
theorem Kept.run {α : Type} {p q : Program α} {fs : List (Event OpResult Service ⊕ Disturbance)}
    (h : Kept b.update s)
    (hr : Run (Prog.Disturbed (Step b content) Other) (p, s) fs (q, t)) : Kept b.update t := by
  refine hr.invariant (I := fun _ c => Kept b.update c.2) h ?_
  rintro es c e d hc (@⟨o, k, s, t, r, hown⟩ | hother)
  · cases o with
    | flashOpen =>
      obtain rfl := hown
      exact hc
    | flashRead offset length =>
      obtain ⟨rfl, -⟩ := hown
      exact hc
    | fwu c =>
      obtain ⟨env, hlaw, -, rfl⟩ := hown
      exact hc.exec hlaw c
  · exact hc.other hother

/-- The use of the service: its operations, its readers, and its bootloader. -/
inductive ServiceStep (cfg : Fwu.Config) : Service → Unit → Service → Prop
  | call {s : Service} (c : UpdateCall) (env : Fwu.Env) (hlaw : env.Lawful cfg s) :
      ServiceStep cfg s () (s.exec cfg env c.1).service
  | other {s t : Service} {e : Disturbance} (h : Other s e t) : ServiceStep cfg s () t

theorem Kept.step {e : Unit} (h : Kept cfg s) (hs : ServiceStep cfg s e t) : Kept cfg t := by
  cases hs with
  | call c env hlaw => exact h.exec hlaw c
  | other hother => exact h.other hother

/-- **An installation is whole or nothing.**  After any use of the update service, whatever fails and
whoever reads the slot: an installation that reports success has left the whole golden partition in
the slot, for the bootloader to take; one that fails leaves the service and the slot as they were,
or a service that has nothing to offer. -/
theorem install_all_or_nothing {slot : ℕ → UInt8} {swapType : Fwu.SwapType} {es : List Unit}
    {fs : List (Event OpResult Service ⊕ Disturbance)} {r : Option Errno}
    (hs : Run (ServiceStep b.update) (Service.boot slot swapType) es s)
    (hr : Run (Prog.Disturbed (Step b content) Other) (install b, s) fs (.ret r, t)) :
    Concluded b content s r t := by
  obtain ⟨hguard, image, hinv⟩ : Kept b.update s :=
    hs.invariant (I := fun _ s => Kept b.update s) (kept_boot _ _ _) fun _ _ _ _ h hs => h.step hs
  refine (meets_install content hguard hinv).disturbed (.refl b.update) .trans
    (Other.beside b.update) ?_ hr
  exact fun h hu => h.beside hu

end

/-- A flash without faults. -/
def faultless (b : Build) (content : ℕ → UInt8) : (o : Op) → Service → OpResult o × Service
  | .flashOpen, s => (none, s)
  | .flashRead offset length, s =>
    (if ∀ size ∈ b.partition, offset + length ≤ size then .ok (window content offset length)
      else .error .EINVAL, s)
  | .fwu c, s =>
    ((s.exec b.update s.faultless c.1).result, (s.exec b.update s.faultless c.1).service)

theorem faultless_step (b : Build) (content : ℕ → UInt8) (o : Op) (s : Service) :
    Step b content o s (faultless b content o s).1 (faultless b content o s).2 := by
  cases o with
  | flashOpen => rfl
  | flashRead offset length =>
    refine ⟨rfl, fun bytes hbytes => ?_⟩
    simp only [faultless] at hbytes
    by_cases hsize : ∀ size ∈ b.partition, offset + length ≤ size
    · rw [if_pos hsize] at hbytes
      exact ⟨fun size h => hsize size h, (Except.ok.inj hbytes).symm⟩
    · rw [if_neg hsize] at hbytes
      cases hbytes
  | fwu c => exact ⟨s.faultless, s.faultless_lawful b.update, rfl, rfl⟩

section

variable {b : Build} {content : ℕ → UInt8} {size : ℕ} {crc : UInt32} {image : List UInt8}
  {s : Service}

/-- A read without faults, and what comes after it. -/
theorem exec_flashRead (hpartition : b.partition = some size) {offset length : ℕ}
    (hle : offset + length ≤ size) {α : Type} (k : Except Errno (List UInt8) → Program α)
    (s : Service) : ((flashRead offset length >>= k).exec (faultless b content) s).2 =
      ((k (.ok (window content offset length))).exec (faultless b content) s).2 := by
  have hsize : ∀ other ∈ b.partition, offset + length ≤ other := by
    rintro _ hother
    obtain rfl := Option.some.inj (hpartition.symm.trans hother)
    exact hle
  refine Prog.exec_bind_of ?_
  rw [flashRead, Prog.exec_perform, faultless, if_pos hsize]

/-- The partition is opened, and what comes after it. -/
theorem exec_flashOpen {α : Type} (k : Option Errno → Program α) (s : Service) :
    ((flashOpen >>= k).exec (faultless b content) s).2 =
      ((k none).exec (faultless b content) s).2 :=
  Prog.exec_bind_of rfl

/-- A call of the service, and what comes after it. -/
theorem exec_fwu {α : Type} (c : UpdateCall) (k : Option Errno → Program α) (s : Service) :
    ((fwu c >>= k).exec (faultless b content) s).2 =
      ((k (s.exec b.update s.faultless c.1).result).exec (faultless b content)
        (s.exec b.update s.faultless c.1).service).2 :=
  Prog.exec_bind_of rfl

variable (content) in
/-- The first loop, without faults. -/
theorem readAll_faultless (hpartition : b.partition = some size) (s : Service) (n : ℕ) :
    ∀ m, chunkSize * (m + n) ≤ size →
      ((readAll (offsetsFrom m n) (crc32 (window content 0 (chunkSize * m)))).exec
        (faultless b content) s).2 = (.ok (crc32 (window content 0 (chunkSize * (m + n)))), s) := by
  induction n with
  | zero => exact fun m _ => rfl
  | succ n ih =>
    intro m hle
    have hread : chunkSize * m + chunkSize ≤ size := by
      simp only [chunkSize] at hle ⊢
      omega
    have hrest := ih (m + 1) (by simp only [chunkSize] at hle ⊢; omega)
    rw [← crc32_chunk] at hrest
    rw [offsetsFrom_succ, readAll, exec_flashRead hpartition hread,
      show m + (n + 1) = m + 1 + n by omega]
    exact hrest

/-- A write of the next chunk, without faults. -/
theorem Sending.write_faultless (h : Sending b.update size crc image s) (chunk : List UInt8)
    (hchunk : chunk ≠ []) (hle : image.length + chunk.length ≤ size) :
    (s.exec b.update s.faultless (.write image.length (some chunk))).result = none := by
  have hreceived := h.received
  unfold UpdateInv at hreceived
  rw [h.state] at hreceived
  have hlength : chunk.length ≠ 0 := fun h => hchunk (List.length_eq_zero_iff.1 h)
  show (s.write s.faultless image.length (some chunk)).result = none
  unfold Service.write
  dsimp only
  rw [if_neg hlength, if_neg (not_not.2 h.state), if_neg (not_not.2 hreceived.2.1.symm),
    if_neg (by rw [h.total]; omega)]
  rfl

variable (content) in
/-- The second loop, without faults. -/
theorem copyAll_faultless (hpartition : b.partition = some size) (n : ℕ) : ∀ (m : ℕ) (s : Service),
    chunkSize * (m + n) ≤ size → Sending b.update size crc (window content 0 (chunkSize * m)) s →
    ((copyAll (offsetsFrom m n)).exec (faultless b content) s).2.1 = none ∧
      Sending b.update size crc (window content 0 (chunkSize * (m + n)))
        ((copyAll (offsetsFrom m n)).exec (faultless b content) s).2.2 := by
  induction n with
  | zero => exact fun m s _ hs => ⟨rfl, hs⟩
  | succ n ih =>
    intro m s hle hs
    have hread : chunkSize * m + chunkSize ≤ size := by
      simp only [chunkSize] at hle ⊢
      omega
    have hresult := hs.write_faultless (window content (chunkSize * m) chunkSize)
      (List.ne_nil_of_length_pos (by rw [length_window]; decide))
      (by rw [length_window, length_window]; exact hread)
    rw [length_window] at hresult
    rw [offsetsFrom_succ, copyAll, exec_flashRead hpartition hread]
    dsimp only
    rw [exec_fwu, hresult, show m + (n + 1) = m + 1 + n by omega]
    refine ih (m + 1) _ (by simp only [chunkSize] at hle ⊢; omega) ?_
    rcases hs.write (s.faultless_lawful b.update) (chunkSize * m)
      (window content (chunkSize * m) chunkSize) with ⟨e, he, -⟩ | ⟨-, hsent⟩
    · cases hresult.symm.trans he
    · rwa [← window_chunk] at hsent

/-- The end, without faults. -/
theorem Sending.finish_faultless (h : Sending b.update size crc image s)
    (hsize : image.length = size) (hcrc : crc = crc32 image) :
    (s.exec b.update s.faultless .finish).result = none := by
  have hreceived := h.received
  unfold UpdateInv at hreceived
  rw [h.state] at hreceived
  obtain ⟨-, hlength, hactual, -⟩ := hreceived
  have hverify : s.verify s.faultless = ⟨{ s with
      status := { s.status with state := .VERIFIED }
      slot := s.faultless.flush.slot s.slot }, none, [⟨.write, s⟩]⟩ := by
    unfold Service.verify
    rw [if_neg (by rw [h.state]; decide), if_neg (not_not.2 h.state),
      if_neg (not_not.2 (by rw [hlength, hsize, h.total])),
      if_neg (not_not.2 (by rw [hactual, h.expected, hcrc]))]
    rfl
  show (s.finish b.update s.faultless).result = none
  unfold Service.finish
  rw [if_neg (not_not.2 (h.guarded.free h.state).1), hverify]
  dsimp only
  cases b.update.mcuboot <;> rfl

/-- A look at a header with the magic, without faults. -/
theorem present_faultless (hpartition : b.partition = some size)
    (hmagic : littleEndian (window content 0 4) 0 4 = imageMagic) (hroom : 0 + 4 ≤ size)
    (s : Service) : ((present b).exec (faultless b content) s).2 = (true, s) := by
  unfold present
  rw [hpartition]
  dsimp only
  rw [exec_flashOpen, exec_flashRead hpartition hroom]
  dsimp only
  rw [hmagic, beq_self_eq_true]
  rfl

/-- **An installation that can be carried out is carried out**: a whole number of chunks behind the
magic, a slot that has room for them and that nobody uses, and a flash without faults. -/
theorem install_faultless {image : List UInt8} (hpartition : b.partition = some size)
    (hmagic : littleEndian (window content 0 4) 0 4 = imageMagic) (hpos : 0 < size)
    (hdvd : chunkSize ∣ size) (hmax : size ≤ maxImageSize b.update) (hguard : GuardInv b.update s)
    (hinv : UpdateInv b.update image s) (hfree : s.Free b.update)
    (hidle : s.status.state ≠ .RECEIVING) :
    ((install b).exec (faultless b content) s).2.1 = none := by
  obtain ⟨n, rfl⟩ := hdvd
  have hn : (chunkSize * n + 255) / 256 = n := by
    simp only [chunkSize]
    omega
  have hroom : 0 + 4 ≤ chunkSize * n := by
    simp only [chunkSize] at hpos ⊢
    omega
  have hchecksum := readAll_faultless content hpartition s n 0 (by rw [Nat.zero_add])
  have hnothing : crc32 (window content 0 (chunkSize * 0)) = 0 := crc32Update_nil 0
  rw [hnothing, Nat.zero_add] at hchecksum
  obtain ⟨hbegun, -⟩ := begin_sending (chunkSize * n)
    (crc32 (window content 0 (chunkSize * n))) hguard (s.faultless_lawful b.update) hinv
  have hbegin : (s.exec b.update s.faultless
      (.begin (chunkSize * n) (crc32 (window content 0 (chunkSize * n))))).result = none := by
    show (s.begin b.update s.faultless _ _).result = none
    unfold Service.begin
    rw [if_neg (Nat.pos_iff_ne_zero.1 hpos), if_neg (not_lt.2 hmax),
      if_neg (by simp [hidle, hfree.1, hfree.2])]
    rfl
  have hsending := hbegun hbegin
  obtain ⟨hcopied, hall⟩ := copyAll_faultless content hpartition n 0 _
    (by rw [Nat.zero_add]) hsending
  rw [Nat.zero_add] at hall
  have hfinished := hall.finish_faultless (length_window _ _ _) rfl
  unfold install
  rw [hpartition]
  dsimp only
  rw [Prog.exec_bind_of (present_faultless hpartition hmagic hroom s), offsets_eq, hn,
    if_neg (by decide), exec_flashOpen]
  dsimp only
  rw [Prog.exec_bind_of hchecksum]
  dsimp only
  rw [exec_fwu, hbegin]
  dsimp only
  rw [Prog.exec_bind_of (Prod.ext hcopied rfl)]
  dsimp only
  rw [exec_fwu, hfinished]
  rfl

end

/-- A golden partition of one chunk, in the build of `smallConfig`. -/
def smallBuild : Build := ⟨some 256, Fwu.smallConfig, by rintro _ ⟨⟩; decide⟩

/-- Its image: the magic of a header, and zeroes. -/
def smallImage (k : ℕ) : UInt8 := [0x3d, 0xb8, 0xf3, 0x96].getD k 0

theorem install_all_or_nothing_small :
    Installed smallBuild smallImage ((install smallBuild).exec (faultless smallBuild smallImage)
      (Service.boot (fun _ => 0) .NONE)).2.2 := by
  have hrun := Prog.exec_run (f := fun s => s) (faultless_step smallBuild smallImage)
    (install smallBuild) (Service.boot (fun _ => 0) .NONE)
  refine (install_all_or_nothing (.nil _) (Prog.disturbed_of_run hrun)).installed ?_
  have hinv : UpdateInv smallBuild.update [] (Service.boot (fun _ => 0) .NONE) := trivial
  exact install_faultless rfl (by decide) (by decide) ⟨1, rfl⟩ (by decide)
    (Fwu.guardInv_of_rest (.inl rfl)) hinv ⟨rfl, rfl⟩ (by decide)

end KfswServices.Golden
