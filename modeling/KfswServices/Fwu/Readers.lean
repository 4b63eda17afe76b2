/-
# Readers of the secondary slot

Threads open, close, stat and list the firmware files of `src/fwu/fwu_fs.c` while
others work on the update service.  A file operation is cut where it takes
`fwu_lock`: it registers as a reader, looks into the slot, and leaves, at the latest
when a handle it opened is closed.  `slot_files_lock` is held over the whole of
`slot_open` and `slot_close`.

`secondary_readers` is the number of open `firmware_2.bin` handles and of the
operations between their registering and their leaving; a `slot_open` that has
registered and not yet succeeded is one of these.  Nothing erases the slot, writes
it or asks the bootloader while there is a reader: `kfsw_fwu_write` and
`kfsw_fwu_verify` do not look at the count, the transfer they belong to does.
-/

import KfswServices.Fwu.Files
import KfswServices.Library.Run

namespace KfswServices.Fwu

open Library

/-! ### The update service as its readers see it -/

/-- A transfer that writes the slot has no reader, and does not touch an image the
bootloader may go back to. -/
structure GuardInv (cfg : Config) (s : Service) : Prop where
  unread : s.status.state = .RECEIVING ∨ s.status.state = .FAILED → s.readers = 0
  kept : s.status.state = .RECEIVING ∨ s.status.state = .VERIFIED → s.neededForRevert cfg = false

/-- The call was made with no reader, and not during a trial boot. -/
def Effect.Safe (cfg : Config) (fx : Effect) : Prop := fx.before.Free cfg

theorem GuardInv.free {cfg : Config} {s : Service} (h : GuardInv cfg s)
    (hst : s.status.state = .RECEIVING) : s.Free cfg :=
  ⟨h.unread (.inl hst), h.kept (.inl hst)⟩

/-- Verification: what it leaves of the guard, and its calls. -/
theorem guardInv_verify {cfg : Config} (env : Env) {s : Service} (h : GuardInv cfg s) :
    GuardInv cfg (s.verify env).service ∧ (s.verify env).service.readers = s.readers ∧
      (s.verify env).service.swapType = s.swapType ∧
      ((s.verify env).result = none → (s.verify env).service.status.state = .VERIFIED) ∧
      ∀ fx ∈ (s.verify env).effects, fx.Safe cfg := by
  rcases s.verify_cases env with ⟨hst, he⟩ | ⟨-, e, he⟩ | ⟨hst, e, slot, effects, he, hfx⟩ |
      ⟨hst, -, -, -, he⟩
  · rw [he]
    exact ⟨h, rfl, rfl, fun _ => hst, by simp⟩
  · rw [he]
    exact ⟨h, rfl, rfl, nofun, by simp [Service.refuse]⟩
  · rw [he]
    refine ⟨⟨fun _ => (h.free hst).1, fun hst' => ?_⟩, rfl, rfl, nofun, fun fx hmem => ?_⟩
    · rcases hst' with hst' | hst' <;> cases hst'
    · rw [Effect.Safe, (hfx fx hmem).1]
      exact h.free hst
  · rw [he]
    refine ⟨⟨fun hst' => ?_, fun _ => (h.free hst).2⟩, rfl, rfl, fun _ => rfl, fun fx hmem => ?_⟩
    · rcases hst' with hst' | hst' <;> cases hst'
    · rw [List.mem_singleton.1 hmem]
      exact h.free hst

/-- A service whose transfer has failed, with no reader. -/
theorem guardInv_of_failed {cfg : Config} {s : Service} (hst : s.status.state = .FAILED)
    (hreaders : s.readers = 0) : GuardInv cfg s := by
  refine ⟨fun _ => hreaders, fun h => ?_⟩
  rw [hst] at h
  rcases h with h | h <;> cases h

/-- A service at rest. -/
theorem guardInv_of_rest {cfg : Config} {s : Service}
    (hst : s.status.state = .IDLE ∨ s.status.state = .READY) : GuardInv cfg s := by
  constructor
  · intro h
    rcases hst with hst | hst <;> rw [hst] at h <;> rcases h with h | h <;> cases h
  · intro h
    rcases hst with hst | hst <;> rw [hst] at h <;> rcases h with h | h <;> cases h

/-- **An operation of the update service** keeps the guard and the readers, and every
call it makes is safe. -/
theorem guardInv_exec {cfg : Config} (env : Env) {s : Service} {c : Call} (h : GuardInv cfg s)
    (hacquire : c ≠ .acquire) (hrelease : c ≠ .release) : GuardInv cfg (s.exec cfg env c).service ∧
      (s.exec cfg env c).service.readers = s.readers ∧
      ∀ fx ∈ (s.exec cfg env c).effects, fx.Safe cfg := by
  cases c with
  | begin total crc =>
    simp only [Service.exec]
    rcases s.begin_cases cfg env total crc with ⟨e, he⟩ | ⟨hfree, -, e, slot, effects, he, hfx⟩ |
        ⟨hfree, -, -, -, he⟩
    · rw [he]
      exact ⟨h, rfl, by simp [Service.refuse]⟩
    · rw [he]
      refine ⟨guardInv_of_failed rfl hfree.1, rfl, fun fx hmem => ?_⟩
      rcases hfx with rfl | rfl
      · cases hmem
      · rw [List.mem_singleton.1 hmem]
        exact hfree
    · rw [he]
      refine ⟨⟨fun _ => hfree.1, fun _ => hfree.2⟩, rfl, fun fx hmem => ?_⟩
      rw [List.mem_singleton.1 hmem]
      exact hfree
  | write offset data =>
    simp only [Service.exec]
    rcases s.write_cases env offset data with ⟨e, he⟩ | ⟨hst, e, he⟩ | ⟨hst, span, -, -, -, -, he⟩
    · rw [he]
      exact ⟨h, rfl, by simp [Service.refuse]⟩
    · rw [he]
      refine ⟨guardInv_of_failed rfl (h.free hst).1, rfl, fun fx hmem => ?_⟩
      rw [List.mem_singleton.1 hmem]
      exact h.free hst
    · rw [he]
      refine ⟨⟨fun _ => (h.free hst).1, fun _ => (h.free hst).2⟩, rfl, fun fx hmem => ?_⟩
      rw [List.mem_singleton.1 hmem]
      exact h.free hst
  | verify =>
    obtain ⟨hinv, hreaders, -, -, hfx⟩ := guardInv_verify env h
    exact ⟨hinv, hreaders, hfx⟩
  | finish =>
    obtain ⟨hinv, hreaders, hswap, hverified, hfx⟩ := guardInv_verify env h
    simp only [Service.exec]
    rcases s.finish_cases cfg env with ⟨e, he⟩ | ⟨-, e, v, effects, hv, he⟩ |
        ⟨hzero, v, effects, hv, hend⟩
    · rw [he]
      exact ⟨h, rfl, by simp [Service.refuse]⟩
    · rw [hv] at hinv hreaders hfx
      rw [he]
      exact ⟨hinv, hreaders, hfx⟩
    · rw [hv] at hinv hreaders hfx hverified
      have hstate := hverified rfl
      have hvzero : v.readers = 0 := hreaders.trans hzero
      have hsafe : ∀ fx ∈ effects ++ [⟨.upgrade, v⟩], fx.Safe cfg := by
        intro fx hmem
        rcases List.mem_append.1 hmem with hmem | hmem
        · exact hfx fx hmem
        · rw [List.mem_singleton.1 hmem]
          exact ⟨hvzero, hinv.kept (.inr hstate)⟩
      rcases hend with ⟨-, he⟩ | ⟨-, e, he⟩ | ⟨-, -, he⟩
      · rw [he]
        exact ⟨guardInv_of_rest (.inr rfl), hreaders, hfx⟩
      · rw [he]
        exact ⟨guardInv_of_failed rfl hvzero, hreaders, hsafe⟩
      · rw [he]
        exact ⟨guardInv_of_rest (.inr rfl), hreaders, hsafe⟩
  | abort =>
    simp only [Service.exec]
    have hsafe (hfree : s.Free cfg) {fx : Effect} (hread : fx.before.readers = s.readers)
        (hswap : fx.before.swapType = s.swapType) : fx.Safe cfg := by
      refine ⟨hread.trans hfree.1, ?_⟩
      have := hfree.2
      simp only [Service.neededForRevert] at this ⊢
      rw [hswap, this]
    rcases s.abort_cases cfg env with ⟨e, he⟩ | ⟨hfree, e, slot, effects, he, hfx⟩ |
        ⟨hfree, effects, he, hfx⟩
    · rw [he]
      exact ⟨h, rfl, by simp [Service.refuse]⟩
    · rw [he]
      exact ⟨guardInv_of_failed rfl hfree.1, rfl,
        fun fx hmem => hsafe hfree (hfx fx hmem).2.1 (hfx fx hmem).2.2⟩
    · rw [he]
      exact ⟨guardInv_of_rest (.inl rfl), rfl,
        fun fx hmem => hsafe hfree (hfx fx hmem).2.1 (hfx fx hmem).2.2⟩
  | acquire => exact absurd rfl hacquire
  | release => exact absurd rfl hrelease

/-! ### The file operations -/

/-- What a file operation opens an image for. -/
inductive Probe
  /-- `slot_open`, into `files[i]`. -/
  | slotOpen (i : ℕ)
  /-- `slot_stat`. -/
  | slotStat
  /-- `slot_readdir`, with `dir->dirp`. -/
  | slotReaddir (dirp : ℕ)
  deriving DecidableEq

/-- Where a thread is in a file operation. -/
inductive Phase
  /-- Outside of them. -/
  | idle
  /-- At the beginning of `open_image`. -/
  | entering (p : Probe) (slot : Slot)
  /-- Registered, if it reads the secondary slot; about to look into the area. -/
  | locating (p : Probe) (slot : Slot)
  /-- Failed on the secondary slot, and about to leave. -/
  | abandoning (p : Probe) (e : Errno)
  /-- A stat or a listing that succeeded, before `release_image`. -/
  | describing (slot : Slot)
  /-- In `slot_close` of `files[i]`. -/
  | closing (i : ℕ) (slot : Slot)
  deriving DecidableEq

/-- The service, `files[]`, the owner of `slot_files_lock`, and the threads. -/
structure Shared where
  service : Service
  files : List (Option (Slot × Extent))
  lock : Option ℕ
  threads : List Phase

/-- `CONFIG_KFSW_FWU_FILE_HANDLES`, and the threads of the node: with the handles
fewer than an `unsigned int` can count. -/
structure FileConfig where
  update : Config
  handles : ℕ
  threads : ℕ
  countable : handles + threads < 2 ^ 32

/-- After a reset. -/
def Shared.boot (cfg : FileConfig) (content : ℕ → UInt8) (swapType : SwapType) : Shared :=
  ⟨Service.boot content swapType, List.replicate cfg.handles none, none,
    List.replicate cfg.threads .idle⟩

/-- The slot `slot_readdir` looks at next. -/
def slotAt : ℕ → Option Slot
  | 1 => some .primary
  | 2 => some .secondary
  | _ => none

/-- What a thread does after `open_image` failed: a listing skips the slots it cannot
show. -/
def Probe.after (e : Errno) : Probe → Phase
  | .slotOpen _ | .slotStat => .idle
  | .slotReaddir dirp =>
    if e = .ENOENT ∨ e = .EBUSY ∨ e = .EBADMSG then
      match slotAt (dirp + 1) with
      | some slot => .entering (.slotReaddir (dirp + 1)) slot
      | none => .idle
    else .idle

/-- `slot_files_lock` is held over `slot_open`. -/
def Probe.locked : Probe → Bool
  | .slotOpen _ => true
  | _ => false

/-- The thread goes to a phase. -/
def Shared.goto (s : Shared) (t : ℕ) (phase : Phase) : Shared :=
  { s with threads := s.threads.set t phase }

/-- `open_image` returns an error. -/
def Shared.failed (s : Shared) (t : ℕ) (p : Probe) (e : Errno) : Shared :=
  { s.goto t (p.after e) with lock := if p.locked then none else s.lock }

/-- `kfsw_fwu_secondary_release`, for a reader of the secondary slot. -/
def Shared.leave (s : Shared) (slot : Slot) : Shared :=
  if slot = .secondary then { s with service := s.service.release.service } else s

/-- A file operation. -/
inductive FileOp
  | slotOpen (path : CString) (readOnly : Bool)
  | slotClose (i : ℕ)
  | slotStat (path : CString)
  | slotReaddir (dirp : ℕ)

/-- An idle thread calls a file operation: the operation returns at once, or the
thread enters it.  None while `slot_files_lock` is taken, and for a handle that is
not open, which the file system does not close. -/
def Shared.enter (s : Shared) (t : ℕ) (op : FileOp) : Option Shared :=
  match s.threads[t]? with
  | some .idle =>
    match op with
    | .slotOpen path readOnly =>
      if !readOnly then some s
      else
        match slotNumber path with
        | .error _ => some s
        | .ok slot =>
          if s.lock ≠ none then none
          else
            match s.files.findIdx? (· = none) with
            | none => some s
            | some i => some { s.goto t (.entering (.slotOpen i) slot) with lock := some t }
    | .slotClose i =>
      match s.files[i]? with
      | some (some (slot, _)) =>
        if s.lock ≠ none then none else some { s.goto t (.closing i slot) with lock := some t }
      | _ => none
    | .slotStat path =>
      match slotNumber path with
      | .error _ => some s
      | .ok slot => some (s.goto t (.entering .slotStat slot))
    | .slotReaddir dirp =>
      match slotAt dirp with
      | none => some s
      | some slot => some (s.goto t (.entering (.slotReaddir dirp) slot))
  | _ => none

/-- A thread inside a file operation takes its next step; `area` is what
`flash_area_open` gives. -/
def Shared.proceed (cfg : FileConfig) (s : Shared) (t : ℕ) (area : Except Errno Area) :
    Option Shared :=
  match s.threads[t]? with
  | some (.entering p .primary) => some (s.goto t (.locating p .primary))
  | some (.entering p .secondary) =>
    match s.service.acquire.result with
    | some e => some (s.failed t p e)
    | none => some { s.goto t (.locating p .secondary) with service := s.service.acquire.service }
  | some (.locating p slot) =>
    match openImage cfg.update slot area with
    | .error e =>
      if slot = .secondary then some (s.goto t (.abandoning p e)) else some (s.failed t p e)
    | .ok x =>
      match p with
      | .slotOpen i =>
        some { s.goto t .idle with files := s.files.set i (some (slot, x)), lock := none }
      | _ => some (s.goto t (.describing slot))
  | some (.abandoning p e) => some ((s.failed t p e).leave .secondary)
  | some (.describing slot) => some ((s.goto t .idle).leave slot)
  | some (.closing i slot) =>
    some (({ s.goto t .idle with files := s.files.set i none, lock := none } : Shared).leave slot)
  | _ => none

/-- What happens on the node. -/
inductive FileEvent
  | call (c : Call) (result : Option Errno) (effects : List Effect)
  | swapType (swapType : SwapType)
  | enter (t : ℕ) (op : FileOp)
  | proceed (t : ℕ)

/-- One critical section.  The bootloader's record does not become REVERT between two
resets. -/
inductive FileStep (cfg : FileConfig) : Shared → FileEvent → Shared → Prop
  | call {s : Shared} (c : Call) (env : Env) (hacquire : c ≠ .acquire) (hrelease : c ≠ .release)
      (hrevert : env.swapAfter = .REVERT → s.service.swapType = .REVERT) :
      FileStep cfg s (.call c (s.service.exec cfg.update env c).result
          (s.service.exec cfg.update env c).effects)
        { s with service := (s.service.exec cfg.update env c).service }
  | swapType {s : Shared} {swapType : SwapType}
      (hrevert : swapType = .REVERT → s.service.swapType = .REVERT) :
      FileStep cfg s (.swapType swapType) { s with service := { s.service with swapType := swapType } }
  | enter {s s' : Shared} {t : ℕ} {op : FileOp} (h : s.enter t op = some s') :
      FileStep cfg s (.enter t op) s'
  | proceed {s s' : Shared} {t : ℕ} (area : Except Errno Area)
      (h : s.proceed cfg t area = some s') : FileStep cfg s (.proceed t) s'

/-! ### Counting the readers -/

/-- An open `firmware_2.bin` handle. -/
def openSecondary : Option (Slot × Extent) → Bool
  | some (.secondary, _) => true
  | _ => false

/-- A thread between registering as a reader and leaving, other than in a handle. -/
def Phase.registered : Phase → Bool
  | .locating _ .secondary | .abandoning _ _ | .describing .secondary => true
  | _ => false

/-- The handles open on the secondary slot. -/
def Shared.handles (s : Shared) : ℕ := s.files.countP openSecondary

/-- The operations that look into the secondary slot. -/
def Shared.probes (s : Shared) : ℕ := s.threads.countP (·.registered)

/-- The thread holds `slot_files_lock`. -/
def Phase.locked : Phase → Bool
  | .entering p _ | .locating p _ | .abandoning p _ => p.locked
  | .closing _ _ => true
  | .idle | .describing _ => false

/-- The handle an operation is about to open. -/
def Phase.opens : Phase → Option ℕ
  | .entering (.slotOpen i) _ | .locating (.slotOpen i) _ | .abandoning (.slotOpen i) _ => some i
  | _ => none

/-- Who holds `slot_files_lock`, and what it protects: the handle that is being
opened is free, the one that is being closed is open. -/
structure LockInv (cfg : FileConfig) (files : List (Option (Slot × Extent))) (lock : Option ℕ)
    (threads : List Phase) : Prop where
  locked : ∀ (t : ℕ) (phase : Phase), threads[t]? = some phase → phase.locked = true →
    lock = some t
  opens : ∀ (t : ℕ) (phase : Phase) (i : ℕ), threads[t]? = some phase → phase.opens = some i →
    files[i]? = some none
  closes : ∀ (t i : ℕ) (slot : Slot), threads[t]? = some (.closing i slot) →
    ∃ x, files[i]? = some (some (slot, x))
  sizes : files.length = cfg.handles ∧ threads.length = cfg.threads

/-- What holds between two steps. -/
structure ReadersInv (cfg : FileConfig) (s : Shared) : Prop where
  counted : s.service.readers = s.handles + s.probes
  guarded : GuardInv cfg.update s.service
  locks : LockInv cfg s.files s.lock s.threads

theorem locked_of_opens {phase : Phase} {i : ℕ} (h : phase.opens = some i) :
    phase.locked = true := by
  cases phase with
  | entering p slot => cases p <;> simp [Phase.opens] at h; rfl
  | locating p slot => cases p <;> simp [Phase.opens] at h; rfl
  | abandoning p e => cases p <;> simp [Phase.opens] at h; rfl
  | _ => simp [Phase.opens] at h

variable {files : List (Option (Slot × Extent))} {lock : Option ℕ} {threads : List Phase}

/-- **One thread moves.**  It may change the files only under the lock, and may not
take the lock from another. -/
theorem LockInv.move {cfg : FileConfig} {files' : List (Option (Slot × Extent))}
    {lock' : Option ℕ} (h : LockInv cfg files lock threads) {t : ℕ} {b : Phase}
    (hlock : ∀ u, u ≠ t → lock = some u → lock' = some u)
    (hown : b.locked = true → lock' = some t) (hfiles : files' = files ∨ lock = some t)
    (hlen : files'.length = files.length) (hopens : ∀ i, b.opens = some i → files'[i]? = some none)
    (hcloses : ∀ i slot, b = .closing i slot → ∃ x, files'[i]? = some (some (slot, x))) :
    LockInv cfg files' lock' (threads.set t b) := by
  have hget {u : ℕ} {phase : Phase} (hu : (threads.set t b)[u]? = some phase) :
      (u = t ∧ phase = b) ∨ (u ≠ t ∧ threads[u]? = some phase) := by
    by_cases hut : u = t
    · subst hut
      rw [List.getElem?_set_self (by simpa using (List.getElem?_eq_some_iff.1 hu).1)] at hu
      exact .inl ⟨rfl, (Option.some.inj hu).symm⟩
    · rw [List.getElem?_set_ne (Ne.symm hut)] at hu
      exact .inr ⟨hut, hu⟩
  -- the files of another thread that holds the lock are as they were
  have hsame {u : ℕ} {phase : Phase} (hne : u ≠ t) (hu : threads[u]? = some phase)
      (hl : phase.locked = true) : files' = files := by
    rcases hfiles with hfiles | hfiles
    · exact hfiles
    · have := (h.locked u phase hu hl).symm.trans hfiles
      exact absurd (Option.some.inj this) hne
  refine ⟨fun u phase hu hl => ?_, fun u phase i hu ho => ?_, fun u i slot hu => ?_, ?_⟩
  · rcases hget hu with ⟨rfl, rfl⟩ | ⟨hne, hu⟩
    · exact hown hl
    · exact hlock u hne (h.locked u phase hu hl)
  · rcases hget hu with ⟨rfl, rfl⟩ | ⟨hne, hu⟩
    · exact hopens i ho
    · rw [hsame hne hu (locked_of_opens ho)]
      exact h.opens u phase i hu ho
  · rcases hget hu with ⟨rfl, rfl⟩ | ⟨hne, hu⟩
    · exact hcloses i slot rfl
    · rw [hsame hne hu rfl]
      exact h.closes u i slot hu
  · rw [hlen, List.length_set]
    exact h.sizes

/-- Counting after one place changed. -/
theorem countP_set_add {α : Type*} {l : List α} {i : ℕ} {a b : α} (h : l[i]? = some a)
    (p : α → Bool) :
    (l.set i b).countP p + (if p a then 1 else 0) = l.countP p + if p b then 1 else 0 := by
  obtain ⟨hi, ha⟩ := List.getElem?_eq_some_iff.1 h
  have hpos : (if p l[i] then 1 else 0) ≤ l.countP p := by
    split_ifs with hp
    · exact List.countP_pos_iff.2 ⟨_, List.getElem_mem hi, hp⟩
    · exact Nat.zero_le _
  rw [List.countP_set hi, ha] at *
  omega

section

variable {cfg : Config} {s : Service} (h : GuardInv cfg s)
include h

/-- The guard allows readers where the slot is not being written. -/
theorem GuardInv.setReaders {n : ℕ}
    (hst : ¬ (s.status.state = .RECEIVING ∨ s.status.state = .FAILED)) :
    GuardInv cfg { s with readers := n } :=
  ⟨fun hst' => absurd hst' hst, h.kept⟩

/-- A new reader. -/
theorem GuardInv.acquire
    (hok : s.acquire.result = none) (hlt : s.readers + 1 < 2 ^ 32) :
    GuardInv cfg s.acquire.service ∧ s.acquire.service.readers = s.readers + 1 := by
  unfold Service.acquire at hok ⊢
  split_ifs at hok ⊢ with hbusy
  · cases hok
  · exact ⟨h.setReaders hbusy, Nat.mod_eq_of_lt hlt⟩

/-- A reader leaves. -/
theorem GuardInv.release (hpos : 0 < s.readers) :
    GuardInv cfg s.release.service ∧ s.release.service.readers + 1 = s.readers := by
  simp only [Service.release, if_neg (show ¬ s.readers = 0 by omega)]
  refine ⟨h.setReaders fun hst => ?_, by omega⟩
  have := h.unread hst
  omega

end

/-! ### Every step keeps the count -/

variable {cfg : FileConfig} {s : Shared} {t : ℕ} {a b : Phase}

theorem probes_goto (h : s.threads[t]? = some a) :
    (s.goto t b).probes + (if a.registered then 1 else 0) =
      s.probes + if b.registered then 1 else 0 :=
  countP_set_add h _

/-- A thread moves and neither registers nor leaves. -/
theorem ReadersInv.goto (h : ReadersInv cfg s) (ha : s.threads[t]? = some a) {lock' : Option ℕ}
    (hlocks : LockInv cfg s.files lock' (s.threads.set t b))
    (hreg : b.registered = a.registered) :
    ReadersInv cfg { s.goto t b with lock := lock' } := by
  refine ⟨?_, h.guarded, hlocks⟩
  have hprobes := probes_goto (b := b) ha
  rw [hreg] at hprobes
  have hcount := h.counted
  show s.service.readers = s.handles + (s.goto t b).probes
  omega

section

variable (h : LockInv cfg files lock threads)
include h

/-- A phase that holds no lock and no handle can be entered at any time. -/
theorem LockInv.plain (hb : b.locked = false) : LockInv cfg files lock (threads.set t b) := by
  refine h.move (fun u _ hu => hu) (fun hl => ?_) (.inl rfl) rfl (fun i ho => ?_) ?_
  · rw [hb] at hl
    cases hl
  · rw [locked_of_opens ho] at hb
    cases hb
  · rintro i slot rfl
    cases hb

/-- A phase that goes on with the same lock and the same handle. -/
theorem LockInv.carry (ha : threads[t]? = some a)
    (hlocked : b.locked = a.locked) (hopens : b.opens = a.opens)
    (hcloses : ∀ i slot, b ≠ .closing i slot) : LockInv cfg files lock (threads.set t b) := by
  refine h.move (fun u _ hu => hu) (fun hl => ?_) (.inl rfl) rfl (fun i ho => ?_) ?_
  · exact h.locked t a ha (hlocked ▸ hl)
  · exact h.opens t a i ha (hopens ▸ ho)
  · exact fun i slot hb => absurd hb (hcloses i slot)

/-- After a failure the lock of a `slot_open` is given back. -/
theorem LockInv.failed (ha : threads[t]? = some a)
    {p : Probe} (hlocked : a.locked = p.locked) (e : Errno) :
    LockInv cfg files (if p.locked then none else lock) (threads.set t (p.after e)) := by
  cases p with
  | slotOpen i =>
    have hown := h.locked t a ha (hlocked.trans rfl)
    refine h.move (fun u hne hu => ?_) (fun hl => by cases hl) (.inl rfl) rfl
      (fun i ho => by cases ho) (fun i slot hb => by cases hb)
    rw [hown] at hu
    exact absurd (Option.some.inj hu).symm hne
  | slotStat => exact h.plain rfl
  | slotReaddir dirp =>
    refine h.plain ?_
    unfold Probe.after
    simp only
    split_ifs
    · split <;> rfl
    · rfl

end

theorem registered_after (p : Probe) (e : Errno) : (p.after e).registered = false := by
  cases p with
  | slotOpen i => rfl
  | slotStat => rfl
  | slotReaddir dirp =>
    unfold Probe.after
    simp only
    split_ifs
    · split <;> rfl
    · rfl

/-- A registered thread leaves. -/
theorem ReadersInv.leave (h : ReadersInv cfg s) (ha : s.threads[t]? = some a)
    (hreg : a.registered = true) (hb : b.registered = false) {lock' : Option ℕ}
    (hlocks : LockInv cfg s.files lock' (s.threads.set t b)) :
    ReadersInv cfg { s.goto t b with lock := lock', service := s.service.release.service } := by
  have hprobes := probes_goto (b := b) ha
  rw [hreg, hb] at hprobes
  simp only [if_true, Bool.false_eq_true, if_false] at hprobes
  have hcount := h.counted
  obtain ⟨hguard, hreaders⟩ := h.guarded.release (by omega)
  refine ⟨?_, hguard, hlocks⟩
  show s.service.release.service.readers = s.handles + (s.goto t b).probes
  omega

/-- A thread registers. -/
theorem ReadersInv.register (h : ReadersInv cfg s) (ha : s.threads[t]? = some a)
    (hreg : a.registered = false) (hb : b.registered = true)
    (hok : s.service.acquire.result = none)
    (hlocks : LockInv cfg s.files s.lock (s.threads.set t b)) :
    ReadersInv cfg { s.goto t b with service := s.service.acquire.service } := by
  have hprobes := probes_goto (b := b) ha
  rw [hreg, hb] at hprobes
  simp only [if_true, Bool.false_eq_true, if_false] at hprobes
  have hcount := h.counted
  -- there is room for one more reader: the threads have not all registered
  have hroom : s.handles + (s.goto t b).probes ≤ cfg.handles + cfg.threads := by
    have hf : s.handles ≤ s.files.length := List.countP_le_length
    have ht : (s.goto t b).probes ≤ (s.threads.set t b).length := List.countP_le_length
    rw [List.length_set] at ht
    have := h.locks.sizes
    omega
  have hcfg := cfg.countable
  obtain ⟨hguard, hreaders⟩ := h.guarded.acquire hok (by omega)
  refine ⟨?_, hguard, hlocks⟩
  show s.service.acquire.service.readers = s.handles + (s.goto t b).probes
  omega

/-- The thread that holds the lock gives it back. -/
theorem LockInv.unlock {files' : List (Option (Slot × Extent))}
    (h : LockInv cfg files lock threads) (ha : threads[t]? = some a) (hlocked : a.locked = true)
    (hlen : files'.length = files.length) : LockInv cfg files' none (threads.set t .idle) := by
  have hown := h.locked t a ha hlocked
  refine h.move (fun u hne hu => ?_) nofun (.inr hown) hlen nofun nofun
  rw [hown] at hu
  exact absurd (Option.some.inj hu).symm hne

section

variable (h : ReadersInv cfg s)
include h

/-- `slot_open` succeeds: the reader goes on as a handle. -/
theorem ReadersInv.opened {i : ℕ} {slot : Slot} {x : Extent}
    (ha : s.threads[t]? = some (.locating (.slotOpen i) slot)) :
    ReadersInv cfg { s.goto t .idle with files := s.files.set i (some (slot, x)), lock := none } := by
  refine ⟨?_, h.guarded, h.locks.unlock ha rfl (List.length_set ..)⟩
  have hfree := h.locks.opens t _ i ha rfl
  have hfiles := countP_set_add (b := some (slot, x)) hfree openSecondary
  have hprobes := probes_goto (b := .idle) ha
  have hcount := h.counted
  show s.service.readers = (s.files.set i (some (slot, x))).countP openSecondary +
    (s.goto t .idle).probes
  unfold Shared.handles at hcount
  cases slot with
  | primary =>
    simp only [openSecondary, Phase.registered, Bool.false_eq_true, if_false] at hfiles hprobes
    omega
  | secondary =>
    simp only [openSecondary, Phase.registered, Bool.false_eq_true, if_false, if_true]
      at hfiles hprobes
    omega

/-- `slot_close`: the handle is given up, and its reader leaves. -/
theorem ReadersInv.closed {i : ℕ} {slot : Slot} (ha : s.threads[t]? = some (.closing i slot)) :
    ReadersInv cfg
      (({ s.goto t .idle with files := s.files.set i none, lock := none } : Shared).leave slot) := by
  have hlocks := h.locks.unlock ha rfl (show (s.files.set i none).length = _ from List.length_set ..)
  obtain ⟨x, hx⟩ := h.locks.closes t i slot ha
  have hfiles := countP_set_add (b := none) hx openSecondary
  have hprobes := probes_goto (b := .idle) ha
  have hcount := h.counted
  unfold Shared.handles at hcount
  cases slot with
  | primary =>
    simp only [openSecondary, Phase.registered, Bool.false_eq_true, if_false] at hfiles hprobes
    refine ⟨?_, h.guarded, hlocks⟩
    show s.service.readers = (s.files.set i none).countP openSecondary + (s.goto t .idle).probes
    omega
  | secondary =>
    simp only [openSecondary, Phase.registered, Bool.false_eq_true, if_false, if_true]
      at hfiles hprobes
    obtain ⟨hguard, hreaders⟩ := h.guarded.release (by omega)
    refine ⟨?_, hguard, hlocks⟩
    show s.service.release.service.readers =
      (s.files.set i none).countP openSecondary + (s.goto t .idle).probes
    omega

theorem readersInv_proceed {s' : Shared} {area : Except Errno Area}
    (hs : s.proceed cfg t area = some s') : ReadersInv cfg s' := by
  unfold Shared.proceed at hs
  split at hs
  next p ha =>
    obtain rfl := Option.some.inj hs
    have hlocks := h.locks.carry (b := .locating p .primary) ha rfl (by cases p <;> rfl) nofun
    exact h.goto ha hlocks rfl
  next p ha =>
    split at hs
    next e he =>
      obtain rfl := Option.some.inj hs
      exact h.goto ha (h.locks.failed ha rfl e) (registered_after p e)
    next hok =>
      obtain rfl := Option.some.inj hs
      exact h.register ha rfl rfl hok (h.locks.carry ha rfl (by cases p <;> rfl) nofun)
  next p slot ha =>
    split at hs
    next e he =>
      split_ifs at hs with hsec
      · obtain rfl := Option.some.inj hs
        subst hsec
        have hlocks := h.locks.carry (b := .abandoning p e) ha rfl (by cases p <;> rfl) nofun
        exact h.goto ha hlocks rfl
      · obtain rfl := Option.some.inj hs
        obtain rfl : slot = .primary := by cases slot <;> simp at hsec ⊢
        exact h.goto ha (h.locks.failed ha rfl e) (registered_after p e)
    next x hx =>
      split at hs
      next i =>
        obtain rfl := Option.some.inj hs
        exact h.opened ha
      next hno =>
        obtain rfl := Option.some.inj hs
        have hlocks := h.locks.plain (t := t) (b := .describing slot) rfl
        exact h.goto ha hlocks (by cases slot <;> rfl)
  next p e ha =>
    obtain rfl := Option.some.inj hs
    exact h.leave ha rfl (registered_after p e) (h.locks.failed ha rfl e)
  next slot ha =>
    obtain rfl := Option.some.inj hs
    have hlocks := h.locks.plain (t := t) (b := .idle) rfl
    cases slot with
    | primary => exact h.goto ha hlocks rfl
    | secondary => exact h.leave ha rfl rfl hlocks
  next i slot ha =>
    obtain rfl := Option.some.inj hs
    exact h.closed ha
  next => cases hs

theorem readersInv_enter {s' : Shared} {op : FileOp}
    (hs : s.enter t op = some s') : ReadersInv cfg s' := by
  unfold Shared.enter at hs
  split at hs
  next ha =>
    -- an operation that takes the lock finds it free
    have hfree (hl : ¬ s.lock ≠ none) (u : ℕ) (hu : s.lock = some u) : False := by
      rw [Decidable.not_not.1 hl] at hu
      cases hu
    cases op with
    | slotOpen path readOnly =>
      simp only at hs
      split at hs
      next => exact Option.some.inj hs ▸ h
      next =>
        split at hs
        next => exact Option.some.inj hs ▸ h
        next slot hslot =>
          split_ifs at hs with hl
          split at hs
          next => exact Option.some.inj hs ▸ h
          next i hi =>
            obtain rfl := Option.some.inj hs
            obtain ⟨hlt, hnone, -⟩ := List.findIdx?_eq_some_iff_getElem.1 hi
            refine h.goto ha (h.locks.move (fun u _ hu => (hfree hl u hu).elim) (fun _ => rfl)
              (.inl rfl) rfl (fun j hj => ?_) nofun) rfl
            obtain rfl : i = j := by simpa [Phase.opens] using hj
            rw [List.getElem?_eq_getElem hlt]
            simpa using hnone
    | slotClose i =>
      simp only at hs
      split at hs
      next slot x hx =>
        split_ifs at hs with hl
        obtain rfl := Option.some.inj hs
        refine h.goto ha (h.locks.move (fun u _ hu => (hfree hl u hu).elim) (fun _ => rfl)
          (.inl rfl) rfl nofun fun j slot' hj => ?_) rfl
        obtain ⟨rfl, rfl⟩ : i = j ∧ slot = slot' := by simpa using hj
        exact ⟨x, hx⟩
      next => cases hs
    | slotStat path =>
      simp only at hs
      split at hs
      next => exact Option.some.inj hs ▸ h
      next slot hslot =>
        obtain rfl := Option.some.inj hs
        exact h.goto ha (h.locks.plain rfl) rfl
    | slotReaddir dirp =>
      simp only at hs
      split at hs
      next => exact Option.some.inj hs ▸ h
      next slot hslot =>
        obtain rfl := Option.some.inj hs
        exact h.goto ha (h.locks.plain rfl) rfl
  next => cases hs

end

theorem readersInv_boot (cfg : FileConfig) (content : ℕ → UInt8) (swapType : SwapType) :
    ReadersInv cfg (Shared.boot cfg content swapType) := by
  have hidle {t : ℕ} {phase : Phase}
      (h : (Shared.boot cfg content swapType).threads[t]? = some phase) : phase = .idle :=
    List.eq_of_mem_replicate (List.mem_of_getElem? h)
  refine ⟨?_, guardInv_of_rest (.inl rfl), ⟨fun t phase ht hl => ?_, fun t phase i ht ho => ?_,
    fun t i slot ht => ?_, List.length_replicate, List.length_replicate⟩⟩
  · simp [Shared.boot, Shared.handles, Shared.probes, Service.boot, List.countP_replicate,
      openSecondary, Phase.registered]
  · rw [hidle ht] at hl
    cases hl
  · rw [hidle ht] at ho
    cases ho
  · cases hidle ht

/-- **The count is kept by every step.** -/
theorem readersInv_step {s' : Shared} {e : FileEvent} (h : ReadersInv cfg s)
    (hs : FileStep cfg s e s') : ReadersInv cfg s' := by
  cases hs with
  | call c env hacquire hrelease hrevert =>
    obtain ⟨hguard, hreaders, -⟩ := guardInv_exec env h.guarded hacquire hrelease
    exact ⟨hreaders.trans h.counted, hguard, h.locks⟩
  | @swapType swapType hrevert =>
    refine ⟨h.counted, ⟨h.guarded.unread, fun hst => ?_⟩, h.locks⟩
    have := h.guarded.kept hst
    simp only [Service.neededForRevert, Bool.and_eq_false_iff, decide_eq_false_iff_not] at this ⊢
    rcases this with hm | hno
    · exact .inl hm
    · exact .inr fun hr => hno (hrevert hr)
  | enter h' => exact readersInv_enter h h'
  | proceed area h' => exact readersInv_proceed h h'

theorem readersInv_run {content : ℕ → UInt8} {swapType : SwapType} {es : List FileEvent}
    (hr : Run (FileStep cfg) (Shared.boot cfg content swapType) es s) : ReadersInv cfg s :=
  hr.invariant (I := fun _ s => ReadersInv cfg s) (readersInv_boot cfg content swapType)
    fun _ _ _ _ h hs => readersInv_step h hs

/-- The next step of the thread calls `kfsw_fwu_secondary_release`. -/
def Phase.releases : Phase → Bool
  | .abandoning _ _ | .describing .secondary | .closing _ .secondary => true
  | _ => false

/-- Whoever releases is a reader. -/
theorem ReadersInv.releases_pos (h : ReadersInv cfg s) (ha : s.threads[t]? = some a)
    (hrel : a.releases = true) : 0 < s.service.readers := by
  have hcount := h.counted
  by_cases hreg : a.registered = true
  · have : 0 < s.probes := List.countP_pos_iff.2 ⟨a, List.mem_of_getElem? ha, hreg⟩
    omega
  · -- what releases and is not a probe is the closing of a handle
    obtain ⟨i, rfl⟩ : ∃ i, a = .closing i .secondary := by
      cases a with
      | closing i slot => cases slot <;> simp [Phase.releases] at hrel ⊢
      | describing slot => cases slot <;> simp [Phase.releases, Phase.registered] at hrel hreg
      | abandoning p e => simp [Phase.registered] at hreg
      | _ => simp [Phase.releases] at hrel
    obtain ⟨x, hx⟩ := h.locks.closes t i .secondary ha
    have : 0 < s.handles := List.countP_pos_iff.2 ⟨_, List.mem_of_getElem? hx, rfl⟩
    omega

/-- **Readers exclude writers.**  The count is that of the open handles and of the
operations that look into the slot, and does not underflow; it is 0 while the slot is
being written or has failed; and no call erases the slot, writes it or asks the
bootloader with a reader, or while the bootloader may go back to the image. -/
theorem readers_exclude_writers {content : ℕ → UInt8} {swapType : SwapType} {es : List FileEvent}
    (hr : Run (FileStep cfg) (Shared.boot cfg content swapType) es s) :
    s.service.readers = s.handles + s.probes ∧
    (∀ (t : ℕ) (phase : Phase), s.threads[t]? = some phase → phase.releases = true →
      0 < s.service.readers) ∧
    (s.service.status.state = .RECEIVING ∨ s.service.status.state = .FAILED →
      s.service.readers = 0) ∧
    (∀ before after c result effects fx, es = before ++ .call c result effects :: after →
      fx ∈ effects → fx.before.readers = 0 ∧
        (cfg.update.mcuboot = true → fx.before.swapType ≠ .REVERT)) := by
  have hinv := readersInv_run hr
  refine ⟨hinv.counted, fun t phase ht hrel => hinv.releases_pos ht hrel, hinv.guarded.unread, ?_⟩
  rintro before after c result effects fx rfl hmem
  obtain ⟨m, m', hm, hstep, -⟩ := run_split_iff.1 hr
  generalize he : FileEvent.call c result effects = e at hstep
  cases hstep with
  | call c' env hacquire hrelease hrevert =>
    cases he
    obtain ⟨hread, hrev⟩ :=
      (guardInv_exec env (readersInv_run hm).guarded hacquire hrelease).2.2 fx hmem
    refine ⟨hread, fun hmcuboot hswap => ?_⟩
    simp [Service.neededForRevert, hmcuboot, hswap] at hrev
  | _ => cases he

/-- One handle and one thread on a small device. -/
def smallFiles : FileConfig := ⟨smallConfig, 1, 1, by decide⟩

/-- Thread 0 has registered in `slot_open` of `firmware_2.bin`. -/
def openingSecondary : Shared :=
  ⟨{ Service.boot (fun _ => 0) .NONE with readers := 1 }, [none], some 0,
    [.locating (.slotOpen 0) .secondary]⟩

/-- The path of the secondary slot. -/
def secondaryPath : CString := CString.ofString "/kfsw/boot/firmware_2.bin"

theorem openingSecondary_run : Run (FileStep smallFiles) (Shared.boot smallFiles (fun _ => 0) .NONE)
    [.enter 0 (.slotOpen secondaryPath true), .proceed 0] openingSecondary := by
  have hpath : slotNumber secondaryPath = .ok .secondary := by decide +kernel
  refine .cons (t := ⟨Service.boot (fun _ => 0) .NONE, [none], some 0,
    [.entering (.slotOpen 0) .secondary]⟩) (.enter ?_) (.single (.proceed (.error .ENODEV) rfl))
  simp [Shared.enter, Shared.boot, smallFiles, hpath, Shared.goto]

/-- A stat or a listing that looks into the secondary slot. -/
def Phase.lists (phase : Phase) : Bool := phase.registered && !phase.locked

/-- Inside `slot_open` the reader is neither a handle yet nor a stat or a listing. -/
theorem opening_reader_counted : ¬ ∀ (cfg : FileConfig) (content : ℕ → UInt8) (swapType : SwapType)
    (es : List FileEvent) (s : Shared), Run (FileStep cfg) (Shared.boot cfg content swapType) es s →
      s.service.readers = s.handles + s.threads.countP (·.lists) := by
  intro h
  exact absurd (h _ _ _ _ _ openingSecondary_run) (by decide +kernel)

/-- A transfer that begins while a reader registers is refused. -/
theorem readers_exclude_writers_opening : ∃ es s,
    Run (FileStep smallFiles) (Shared.boot smallFiles (fun _ => 0) .NONE) es s ∧
      FileEvent.call (.begin 3 0) (some .EBUSY) [] ∈ es ∧ s.service.readers = 1 ∧
      s.service.readers = s.handles + s.probes := by
  have hrun := openingSecondary_run.snoc
    (.call (.begin 3 0) openingSecondary.service.faultless (by simp) (by simp) nofun)
  exact ⟨_, _, hrun, List.mem_append_right _ (List.mem_singleton.2 rfl), rfl,
    (readers_exclude_writers hrun).1⟩

end KfswServices.Fwu
