/-
# The claim against many threads

`dispatch` in `src/command/command.c` takes two mutexes one after the other:
`check_claim` under `claim_lock`, then the handler under `command_lock`.  This
module cuts it there.  Any number of threads take the steps in any order; a
handler may invoke commands and take or release the claim itself, and
`command_lock` nests, as a Zephyr mutex does for its owner.

A thread that is past `check_claim` and still waits for `command_lock` is
*parked*.  An exclusive claim refuses what comes to `check_claim` after it, and
says nothing to a parked thread.
-/

import KfswServices.Command.Dispatch
import KfswServices.Library.Run

namespace KfswServices.Command

open Library

variable {ω : Type*}

/-- `dispatch` up to its claim check, on the thread `self`: the definition whose
handler is to run, when nothing refuses it. -/
def gate (self : Tid) (definition : Option (Definition ω)) (args : List Arg) (source : Source)
    (n : Node ω) : Node ω × Option (Definition ω) :=
  if !n.ready then (n, none)
  else
    match definition with
    | none => (recordOutcome .UNKNOWN 0 source .UNKNOWN n, none)
    | some d =>
      if checkArguments d args ≠ .OK then
        (recordOutcome .REJECTED d.id source (checkArguments d args) n, none)
      else
        match checkClaim self d.name n.claim with
        | (claim, some refusal) =>
          (recordOutcome .REJECTED d.id source refusal.status { n with claim := claim }, none)
        | (claim, none) => ({ n with claim := claim }, some d)

/-- One `dispatch` a thread is in, past its claim check. -/
structure Frame (ω : Type*) where
  definition : Definition ω
  args : List Arg
  source : Source
  /-- The handler has been started. -/
  running : Bool

/-- The command service with its threads: the node, `command_lock` with its
owner and nesting depth, and the dispatches each thread is in, innermost first. -/
structure Threads (ω : Type*) where
  node : Node ω
  lockOwner : Option Tid
  lockDepth : ℕ
  frames : Tid → List (Frame ω)

namespace Threads

/-- The service after startup: nobody holds the claim and no thread is in a
command. -/
def boot (n : Node ω) : Threads ω :=
  ⟨{ n with claim := Claim.free }, none, 0, fun _ => []⟩

/-- The thread is past `check_claim` and has not started its handler. -/
def Parked (s : Threads ω) (t : Tid) : Prop :=
  ∃ f rest, s.frames t = f :: rest ∧ f.running = false

/-- `command_lock` is free, or already the thread's own. -/
def LockFree (s : Threads ω) (t : Tid) : Prop :=
  s.lockOwner = none ∨ s.lockOwner = some t

/-- Replace the dispatches of one thread. -/
def setFrames (s : Threads ω) (t : Tid) (fs : List (Frame ω)) : Threads ω :=
  { s with frames := Function.update s.frames t fs }

/-- Replace the claim. -/
def setClaim (s : Threads ω) (c : Claim) : Threads ω :=
  { s with node := { s.node with claim := c } }

/-- `kfsw_command_invoke` and `kfsw_command_invoke_id`, up to the claim check. -/
def enter (s : Threads ω) (t : Tid) (definition : Option (Definition ω)) (args : List Arg)
    (source : Source) : Threads ω :=
  match gate t definition args source s.node with
  | (n, none) => { s with node := n }
  | (n, some d) => { s with node := n }.setFrames t (⟨d, args, source, false⟩ :: s.frames t)

/-- `k_mutex_lock(&command_lock)`, and the call of the handler. -/
def begin (s : Threads ω) (t : Tid) (f : Frame ω) (rest : List (Frame ω)) : Threads ω :=
  { s with lockOwner := some t, lockDepth := s.lockDepth + 1 }.setFrames t
    ({ f with running := true } :: rest)

/-- The handler returns: `k_mutex_unlock(&command_lock)` and `record_outcome`. -/
def leave (s : Threads ω) (t : Tid) (f : Frame ω) (rest : List (Frame ω)) (outcome : Option Errno)
    (result : Result) (world : ω) : Threads ω :=
  { s with
    node := recordOutcome .INVOKED f.definition.id f.source (settle outcome result).status
      { s.node with world := world }
    lockOwner := if s.lockDepth = 1 then none else s.lockOwner
    lockDepth := s.lockDepth - 1 }.setFrames t rest

end Threads

/-- What a thread is seen to do. -/
inductive Act (ω : Type*)
  /-- It calls a command. -/
  | invoke (t : Tid) (definition : Option (Definition ω)) (args : List Arg) (source : Source)
  /-- It starts a handler. -/
  | start (t : Tid)
  /-- Its handler returns. -/
  | finish (t : Tid) (outcome : Option Errno) (result : Result) (world : ω)
  /-- `kfsw_command_claim_acquire` returns. -/
  | acquire (t : Tid) (mode : ClaimMode) (owner : Option CString) (outcome : Option Errno)
  /-- `kfsw_command_claim_release` returns. -/
  | release (t : Tid) (outcome : Option Errno)

/-- One step of one thread.  A parked thread waits for `command_lock` and does
nothing else. -/
inductive ThreadStep : Threads ω → Act ω → Threads ω → Prop
  | invoke {s : Threads ω} {t : Tid} (definition : Option (Definition ω)) (args : List Arg)
      (source : Source) (hp : ¬ s.Parked t) :
      ThreadStep s (.invoke t definition args source) (s.enter t definition args source)
  | start {s : Threads ω} {t : Tid} {f : Frame ω} {rest : List (Frame ω)}
      (hf : s.frames t = f :: rest) (hw : f.running = false) (hl : s.LockFree t) :
      ThreadStep s (.start t) (s.begin t f rest)
  | finish {s : Threads ω} {t : Tid} {f : Frame ω} {rest : List (Frame ω)}
      (outcome : Option Errno) (result : Result) (world : ω)
      (hf : s.frames t = f :: rest) (hr : f.running = true) :
      ThreadStep s (.finish t outcome result world) (s.leave t f rest outcome result world)
  | acquire {s : Threads ω} {t : Tid} (mode : ClaimMode) (owner : Option CString)
      (hp : ¬ s.Parked t) :
      ThreadStep s (.acquire t mode owner (claimAcquire t mode owner s.node.claim).2)
        (s.setClaim (claimAcquire t mode owner s.node.claim).1)
  | release {s : Threads ω} {t : Tid} (hp : ¬ s.Parked t) :
      ThreadStep s (.release t (claimRelease t s.node.claim).2)
        (s.setClaim (claimRelease t s.node.claim).1)

/-- `dispatch` is `gate` and then the handler. -/
theorem dispatch_eq_gate (self : Tid) (definition : Option (Definition ω)) (args : List Arg)
    (source : Source) (n : Node ω) :
    (dispatch self definition args source n).node =
      match gate self definition args source n with
      | (n, none) => n
      | (n, some d) => (runHandler d args source n).node := by
  cases hr : n.ready with
  | false => simp [dispatch, gate, hr]
  | true =>
    cases definition with
    | none => simp [dispatch, gate, hr]
    | some d =>
      by_cases hargs : checkArguments d args = .OK
      · rcases hc : checkClaim self d.name n.claim with ⟨c, _ | r⟩ <;>
          simp [dispatch, gate, hr, hargs, hc]
      · simp [dispatch, gate, hr, hargs]

namespace Threads

@[simp] theorem setFrames_same (s : Threads ω) (t : Tid) (fs : List (Frame ω)) :
    (s.setFrames t fs).frames t = fs := by simp [setFrames]

@[simp] theorem setFrames_ne (s : Threads ω) {t u : Tid} (fs : List (Frame ω)) (h : u ≠ t) :
    (s.setFrames t fs).frames u = s.frames u := by simp [setFrames, h]

@[simp] theorem setFrames_node (s : Threads ω) (t : Tid) (fs : List (Frame ω)) :
    (s.setFrames t fs).node = s.node := rfl

@[simp] theorem setFrames_lockOwner (s : Threads ω) (t : Tid) (fs : List (Frame ω)) :
    (s.setFrames t fs).lockOwner = s.lockOwner := rfl

@[simp] theorem setFrames_lockDepth (s : Threads ω) (t : Tid) (fs : List (Frame ω)) :
    (s.setFrames t fs).lockDepth = s.lockDepth := rfl

/-- How many handlers the thread has started and not finished. -/
def active (s : Threads ω) (t : Tid) : ℕ := (s.frames t).countP (·.running)

end Threads

/-- **`dispatch` is a run of the threads.**  A thread that is in no command and
finds `command_lock` free takes the node where `dispatch` takes it, and is in no
command again. -/
theorem dispatch_run (s : Threads ω) (self : Tid) (definition : Option (Definition ω))
    (args : List Arg) (source : Source) (hf : s.frames self = []) (ho : s.lockOwner = none) :
    ∃ acts u, Run ThreadStep s acts u ∧
      u.node = (dispatch self definition args source s.node).node ∧ u.frames self = [] := by
  have hp : ¬ s.Parked self := by
    rintro ⟨f, rest, h, -⟩
    rw [hf] at h
    cases h
  have henter := ThreadStep.invoke (s := s) definition args source hp
  rw [dispatch_eq_gate]
  rcases hgate : gate self definition args source s.node with ⟨n, _ | d⟩
  · refine ⟨_, _, .single henter, ?_, ?_⟩ <;> simp [Threads.enter, hgate, hf]
  · have he : s.enter self definition args source =
        { s with node := n }.setFrames self [⟨d, args, source, false⟩] := by
      simp [Threads.enter, hgate, hf]
    rw [he] at henter
    have hstart := @ThreadStep.start _ ({ s with node := n }.setFrames self
      [⟨d, args, source, false⟩]) self ⟨d, args, source, false⟩ [] (by simp) rfl (Or.inl ho)
    have hfinish := @ThreadStep.finish _ (({ s with node := n }.setFrames self
      [⟨d, args, source, false⟩]).begin self ⟨d, args, source, false⟩ []) self
      ⟨d, args, source, true⟩ [] (d.handler args source n.world).1
      (d.handler args source n.world).2.1 (d.handler args source n.world).2.2
      (by simp [Threads.begin]) rfl
    refine ⟨_, _, .cons henter (.cons hstart (.single hfinish)), ?_, ?_⟩
    · simp [Threads.leave, Threads.begin, runHandler]
    · simp [Threads.leave]

/-- What `command_lock` and the frames say of each other: only the innermost
dispatch of a thread can still wait, and the lock counts the started handlers of
its owner. -/
structure LockInv (s : Threads ω) : Prop where
  /-- What is not innermost is running. -/
  outer : ∀ t, ∀ f ∈ (s.frames t).tail, f.running = true
  /-- The owner's handlers are counted, and nobody else has any. -/
  count : ∀ t, s.active t = if s.lockOwner = some t then s.lockDepth else 0
  /-- The lock is free when it is not nested at all. -/
  free : s.lockOwner = none ↔ s.lockDepth = 0

theorem lockInv_boot (n : Node ω) : LockInv (Threads.boot n) where
  outer t f hf := by simp [Threads.boot] at hf
  count t := by simp [Threads.boot, Threads.active]
  free := by simp [Threads.boot]

variable {s : Threads ω}

/-- A thread that is not parked has all its handlers running. -/
theorem LockInv.running (h : LockInv s) {t : Tid} (hp : ¬ s.Parked t) :
    ∀ f ∈ s.frames t, f.running = true := by
  intro f hf
  cases hfs : s.frames t with
  | nil => rw [hfs] at hf; cases hf
  | cons g rest =>
    rw [hfs] at hf
    rcases List.mem_cons.1 hf with rfl | hf
    · by_contra hr
      exact hp ⟨f, rest, hfs, by simpa using hr⟩
    · exact h.outer t f (by rw [hfs]; exact hf)

/-- What `enter` leaves of the lock and the frames: at most one frame more, which
waits. -/
theorem enter_cases (s : Threads ω) (t : Tid) (definition : Option (Definition ω))
    (args : List Arg) (source : Source) : (s.enter t definition args source).frames = s.frames ∨
      ∃ d, (gate t definition args source s.node).2 = some d ∧
        (s.enter t definition args source).frames =
          Function.update s.frames t (⟨d, args, source, false⟩ :: s.frames t) := by
  rcases hgate : gate t definition args source s.node with ⟨n, _ | d⟩
  · exact .inl (by simp [Threads.enter, hgate])
  · exact .inr ⟨d, rfl, by simp [Threads.enter, hgate, Threads.setFrames]⟩

theorem enter_lock (s : Threads ω) (t : Tid) (definition : Option (Definition ω))
    (args : List Arg) (source : Source) :
    (s.enter t definition args source).lockOwner = s.lockOwner ∧
      (s.enter t definition args source).lockDepth = s.lockDepth ∧
      (s.enter t definition args source).node = (gate t definition args source s.node).1 := by
  rcases hgate : gate t definition args source s.node with ⟨n, _ | d⟩ <;>
    simp [Threads.enter, hgate]

section

variable (h : LockInv s)
include h

theorem lockInv_enter {t : Tid} (hp : ¬ s.Parked t)
    (definition : Option (Definition ω)) (args : List Arg) (source : Source) :
    LockInv (s.enter t definition args source) := by
  obtain ⟨ho, hd, -⟩ := enter_lock s t definition args source
  rcases enter_cases s t definition args source with hf | ⟨d, -, hf⟩
  · refine ⟨fun u f hmem => h.outer u f (by rwa [hf] at hmem), fun u => ?_, by rw [ho, hd]; exact h.free⟩
    rw [Threads.active, hf, ho, hd]
    exact h.count u
  · refine ⟨fun u f hmem => ?_, fun u => ?_, by rw [ho, hd]; exact h.free⟩
    · by_cases hu : u = t
      · subst hu
        rw [hf, Function.update_self] at hmem
        exact h.running hp f hmem
      · rw [hf, Function.update_of_ne hu] at hmem
        exact h.outer u f hmem
    · rw [ho, hd, ← h.count u, Threads.active, Threads.active, hf]
      by_cases hu : u = t
      · subst hu
        simp
      · rw [Function.update_of_ne hu]

/-- Who may take the lock has as many handlers running as it is nested. -/
theorem LockInv.count_of_lockFree {t : Tid} (hl : s.LockFree t) : s.active t = s.lockDepth := by
  rw [h.count t]
  rcases hl with hl | hl
  · rw [h.free.1 hl, ite_self]
  · rw [if_pos hl]

theorem lockInv_begin {t : Tid} {f : Frame ω} {rest : List (Frame ω)}
    (hf : s.frames t = f :: rest) (hw : f.running = false) (hl : s.LockFree t) :
    LockInv (s.begin t f rest) := by
  have hcount := h.count_of_lockFree hl
  rw [Threads.active, hf, List.countP_cons_of_neg (by simp [hw])] at hcount
  refine ⟨fun u g hmem => ?_, fun u => ?_, by simp [Threads.begin]⟩
  · by_cases hu : u = t
    · subst hu
      exact h.outer u g (by simpa [Threads.begin, hf] using hmem)
    · exact h.outer u g (by simpa [Threads.begin, hu] using hmem)
  · by_cases hu : u = t
    · subst hu
      simp [Threads.active, Threads.begin, hcount]
    · have hne : s.lockOwner ≠ some u := by
        rcases hl with hl | hl <;> simp [hl, Ne.symm hu]
      have hz := h.count u
      rw [if_neg hne] at hz
      simpa [Threads.active, Threads.begin, hu, Ne.symm hu] using hz

/-- Who has a handler running owns the lock. -/
theorem LockInv.owner_of_active {t : Tid} (ha : 0 < s.active t) : s.lockOwner = some t := by
  by_contra hne
  rw [h.count t, if_neg hne] at ha
  omega

theorem lockInv_leave {t : Tid} {f : Frame ω} {rest : List (Frame ω)}
    (hf : s.frames t = f :: rest) (hr : f.running = true) (outcome : Option Errno)
    (result : Result) (world : ω) : LockInv (s.leave t f rest outcome result world) := by
  have hactive : s.active t = rest.countP (·.running) + 1 := by
    rw [Threads.active, hf, List.countP_cons_of_pos (by simp [hr])]
  have hown := h.owner_of_active (t := t) (by omega)
  have hcount := h.count t
  rw [hactive, if_pos hown] at hcount
  refine ⟨fun u g hmem => ?_, fun u => ?_, ?_⟩
  · by_cases hu : u = t
    · subst hu
      refine h.outer u g ?_
      rw [hf]
      exact List.mem_of_mem_tail (by simpa [Threads.leave] using hmem)
    · exact h.outer u g (by simpa [Threads.leave, hu] using hmem)
  · by_cases hu : u = t
    · subst hu
      by_cases hd : s.lockDepth = 1
      · have : rest.countP (·.running) = 0 := by omega
        simp [Threads.active, Threads.leave, hd, this]
      · have : rest.countP (·.running) = s.lockDepth - 1 := by omega
        simp [Threads.active, Threads.leave, hd, hown, this]
    · have hz := h.count u
      rw [if_neg (by simp [hown, Ne.symm hu])] at hz
      have hne : (if s.lockDepth = 1 then none else s.lockOwner) ≠ some u := by
        split_ifs <;> simp [hown, Ne.symm hu]
      simpa [Threads.active, Threads.leave, hu, hne] using hz
  · by_cases hd : s.lockDepth = 1
    · simp [Threads.leave, hd]
    · simp only [Threads.leave, Threads.setFrames_lockOwner, Threads.setFrames_lockDepth, hd,
        if_false, hown]
      simp
      omega

theorem lockInv_setClaim (c : Claim) : LockInv (s.setClaim c) :=
  ⟨h.outer, h.count, h.free⟩

theorem lockInv_step {u : Threads ω} {a : Act ω} (hs : ThreadStep s a u) : LockInv u := by
  cases hs with
  | invoke definition args source hp => exact lockInv_enter h hp definition args source
  | start hf hw hl => exact lockInv_begin h hf hw hl
  | finish outcome result world hf hr => exact lockInv_leave h hf hr outcome result world
  | acquire mode owner hp => exact lockInv_setClaim h _
  | release hp => exact lockInv_setClaim h _

end

/-- **The lock invariant holds in every run.** -/
theorem lockInv_run {n : Node ω} {acts : List (Act ω)}
    (hr : Run ThreadStep (Threads.boot n) acts s) : LockInv s :=
  hr.invariant (I := fun _ s => LockInv s) (lockInv_boot n) fun _ _ _ _ h hs => lockInv_step h hs

/-- Handlers run one at a time: two threads inside handlers are one thread. -/
theorem handler_thread_unique {n : Node ω} {acts : List (Act ω)} {s : Threads ω} {t u : Tid}
    (hr : Run ThreadStep (Threads.boot n) acts s) (ht : 0 < s.active t) (hu : 0 < s.active u) :
    t = u := by
  have h := lockInv_run hr
  exact Option.some.inj ((h.owner_of_active ht).symm.trans (h.owner_of_active hu))

/-- The action ends the exclusive claim of the thread: it releases the claim, or
takes it shared. -/
def Act.Ends (T : Tid) : Act ω → Prop
  | .acquire t mode _ outcome => t = T ∧ mode = .SHARED ∧ outcome = none
  | .release t outcome => t = T ∧ outcome = none
  | _ => False

/-- **What an exclusive claim promises** of what follows it: until it ends, a
handler is started by the holder only. -/
def Excludes (T : Tid) (s : Threads ω) : Prop :=
  ∀ acts U u, Run ThreadStep s (acts ++ [.start U]) u → (∀ a ∈ acts, ¬ a.Ends T) → U = T

/-- The thread holds the claim exclusively and nobody else is parked. -/
structure Guarded (T : Tid) (s : Threads ω) : Prop where
  held : s.node.claim.held = true
  owner : s.node.claim.owner = some T
  mode : s.node.claim.mode = .EXCLUSIVE
  nobody : ∀ U, U ≠ T → ¬ s.Parked U

variable {T : Tid}

/-- Past the claim check of another thread's exclusive claim there is no way. -/
theorem gate_refused {t : Tid} {n : Node ω} (ht : t ≠ T) (hh : n.claim.held = true)
    (ho : n.claim.owner = some T) (hm : n.claim.mode = .EXCLUSIVE)
    (definition : Option (Definition ω)) (args : List Arg) (source : Source) :
    (gate t definition args source n).2 = none := by
  have hother : n.claim.heldByOther t = true := by
    simp [Claim.heldByOther, hh, ho, Ne.symm ht]
  cases hr : n.ready with
  | false => simp [gate, hr]
  | true =>
    cases definition with
    | none => simp [gate, hr]
    | some d =>
      by_cases hargs : checkArguments d args = .OK
      · simp [gate, hr, hargs, checkClaim, hother, hm]
      · simp [gate, hr, hargs]

/-- `gate` leaves who holds the claim, and how, alone. -/
theorem gate_claim (t : Tid) (n : Node ω) (definition : Option (Definition ω)) (args : List Arg)
    (source : Source) : (gate t definition args source n).1.claim.held = n.claim.held ∧
      (gate t definition args source n).1.claim.owner = n.claim.owner ∧
      (gate t definition args source n).1.claim.mode = n.claim.mode := by
  cases hr : n.ready with
  | false => simp [gate, hr]
  | true =>
    cases definition with
    | none => simp [gate, hr, recordOutcome]
    | some d =>
      by_cases hargs : checkArguments d args = .OK
      · by_cases ho : n.claim.heldByOther t = true
        · by_cases hm : n.claim.mode = .EXCLUSIVE <;>
            simp [gate, hr, hargs, checkClaim, ho, hm, recordOutcome]
        · simp [gate, hr, hargs, checkClaim, ho]
      · simp [gate, hr, hargs, recordOutcome]

/-- **What an acquire does**: it fails and changes nothing, or the caller holds
the claim in the mode it asked for. -/
theorem claimAcquire_cases (t : Tid) (mode : ClaimMode) (owner : Option CString) (c : Claim) :
    ((claimAcquire t mode owner c).1 = c ∧ (claimAcquire t mode owner c).2 ≠ none) ∨
      (c.heldByOther t = false ∧ (claimAcquire t mode owner c).2 = none ∧
        (claimAcquire t mode owner c).1.held = true ∧
        (claimAcquire t mode owner c).1.owner = some t ∧
        (claimAcquire t mode owner c).1.mode = mode) := by
  cases owner with
  | none => exact .inl ⟨rfl, by simp [claimAcquire]⟩
  | some owner =>
    by_cases hlen : owner.length = 0 ∨ claimNameMax ≤ owner.length
    · exact .inl (by simp only [claimAcquire, if_pos hlen]; simp)
    · by_cases hother : c.heldByOther t = true
      · exact .inl (by simp only [claimAcquire, if_neg hlen, if_pos hother]; simp)
      · exact .inr (by simp only [claimAcquire, if_neg hlen, if_neg hother]; simp [hother])

/-- A guarded claim, seen from another thread. -/
theorem Guarded.heldByOther {t : Tid} (h : Guarded T s) (ht : t ≠ T) :
    s.node.claim.heldByOther t = true := by
  simp [Claim.heldByOther, h.held, h.owner, Ne.symm ht]

/-- Frames that leave no other thread parked, under a claim that is still
exclusive, keep the guard. -/
theorem Guarded.of_frames {t : Tid} {u : Threads ω} (h : Guarded T s)
    (hh : u.node.claim.held = true) (ho : u.node.claim.owner = some T)
    (hm : u.node.claim.mode = .EXCLUSIVE) (hf : ∀ U, U ≠ t → u.frames U = s.frames U)
    (ht : t ≠ T → ¬ u.Parked t) : Guarded T u := by
  refine ⟨hh, ho, hm, fun U hU hp => ?_⟩
  by_cases hUt : U = t
  · subst hUt
    exact ht hU hp
  · obtain ⟨f, rest, hfr, hr⟩ := hp
    exact h.nobody U hU ⟨f, rest, by rw [← hf U hUt, hfr], hr⟩

theorem guarded_enter {t : Tid} (h : Guarded T s) (definition : Option (Definition ω))
    (args : List Arg) (source : Source) : Guarded T (s.enter t definition args source) := by
  obtain ⟨-, -, hn⟩ := enter_lock s t definition args source
  obtain ⟨hh, ho, hm⟩ := gate_claim t s.node definition args source
  refine h.of_frames (t := t) (by rw [hn, hh, h.held]) (by rw [hn, ho, h.owner])
    (by rw [hn, hm, h.mode]) (fun U hU => ?_) fun ht hp => ?_
  · rcases enter_cases s t definition args source with hf | ⟨d, -, hf⟩
    · rw [hf]
    · rw [hf, Function.update_of_ne hU]
  · rcases enter_cases s t definition args source with hf | ⟨d, hd, -⟩
    · obtain ⟨f, rest, hfr, hr⟩ := hp
      exact h.nobody t ht ⟨f, rest, by rw [← hf, hfr], hr⟩
    · rw [gate_refused ht h.held h.owner h.mode] at hd
      cases hd

/-- A step that does not end the claim keeps it guarded. -/
theorem guarded_step {u : Threads ω} {a : Act ω} (hl : LockInv s) (h : Guarded T s)
    (hs : ThreadStep s a u) (he : ¬ a.Ends T) : Guarded T u := by
  cases hs with
  | invoke definition args source hp => exact guarded_enter h definition args source
  | @start t f rest hf hw hfree =>
    refine h.of_frames (t := t) h.held h.owner h.mode (fun U hU => ?_) fun ht => ?_
    · simp [Threads.begin, hU]
    · exact absurd ⟨f, rest, hf, hw⟩ (h.nobody t ht)
  | @finish t f rest outcome result world hf hr =>
    refine h.of_frames (t := t) h.held h.owner h.mode (fun U hU => ?_) fun ht hp => ?_
    · simp [Threads.leave, hU]
    · obtain ⟨g, rest', hg, hgr⟩ := hp
      have hrest : rest = g :: rest' := by simpa [Threads.leave] using hg
      have := hl.outer t g (by simp [hf, hrest])
      simp [this] at hgr
  | @acquire t mode owner hp =>
    rcases claimAcquire_cases t mode owner s.node.claim with ⟨hc, -⟩ | ⟨hfree, hout, hh, ho, hm⟩
    · exact ⟨by simp [Threads.setClaim, hc, h.held], by simp [Threads.setClaim, hc, h.owner],
        by simp [Threads.setClaim, hc, h.mode], h.nobody⟩
    · have ht : t = T := by
        by_contra ht
        simp [h.heldByOther ht] at hfree
      subst ht
      refine ⟨hh, ho, ?_, h.nobody⟩
      cases mode with
      | EXCLUSIVE => exact hm
      | SHARED => exact absurd ⟨rfl, rfl, hout⟩ he
  | @release t hp =>
    by_cases ht : t = T
    · subst ht
      refine absurd ⟨rfl, ?_⟩ he
      simp [claimRelease, Claim.heldByOther, h.owner]
    · have hc : (claimRelease t s.node.claim).1 = s.node.claim := by
        simp [claimRelease, h.heldByOther ht]
      exact ⟨by simp [Threads.setClaim, hc, h.held], by simp [Threads.setClaim, hc, h.owner],
        by simp [Threads.setClaim, hc, h.mode], h.nobody⟩

/-- **A guarded claim excludes.** -/
theorem Guarded.excludes (hl : LockInv s) (h : Guarded T s) : Excludes T s := by
  intro acts U u hr hends
  obtain ⟨m, hm, hstart⟩ := run_snoc_iff.1 hr
  have hinv : LockInv m ∧ ((∀ a ∈ acts, ¬ a.Ends T) → Guarded T m) := by
    refine hm.invariant (I := fun acts m => LockInv m ∧ ((∀ a ∈ acts, ¬ a.Ends T) → Guarded T m))
      ⟨hl, fun _ => h⟩ fun es s₁ a s₂ ⟨hl₁, hg₁⟩ hs => ⟨lockInv_step hl₁ hs, fun hall => ?_⟩
    refine guarded_step hl₁ (hg₁ fun b hb => hall b ?_) hs (hall a ?_)
    · exact List.mem_append_left _ hb
    · simp
  by_contra hU
  cases hstart with
  | @start _ f rest hf hw hfree => exact (hinv.2 hends).nobody U hU ⟨f, rest, hf, hw⟩

/-- **A parked thread gets through.**  Whatever holds `command_lock` can return,
and then the parked thread starts its handler. -/
theorem not_excludes_of_parked {U : Tid} (hl : LockInv s) (hU : U ≠ T) (hp : s.Parked U)
    (hT : ¬ s.Parked T) : ¬ Excludes T s := by
  intro hex
  have key : ∀ d (s : Threads ω), s.lockDepth = d → LockInv s → s.Parked U → ¬ s.Parked T →
      ∃ acts V u, Run ThreadStep s (acts ++ [.start V]) u ∧ (∀ a ∈ acts, ¬ a.Ends T) ∧ V ≠ T := by
    intro d
    induction d with
    | zero =>
      rintro s hd hl ⟨f, rest, hf, hw⟩ -
      exact ⟨[], U, _, .single (.start hf hw (.inl (hl.free.2 hd))), by simp, hU⟩
    | succ d ih =>
      intro s hd hl hp hT
      obtain ⟨V, hV⟩ := Option.ne_none_iff_exists'.1 fun h => by
        have := hl.free.1 h
        omega
      by_cases hpV : s.Parked V
      · -- the owner waits for its own nested command
        obtain ⟨f, rest, hf, hw⟩ := hpV
        exact ⟨[], V, _, .single (.start hf hw (.inr hV)), by simp,
          fun h => hT (h ▸ ⟨f, rest, hf, hw⟩)⟩
      · have hactive : s.active V = d + 1 := by rw [hl.count V, if_pos hV, hd]
        cases hfr : s.frames V with
        | nil => simp [Threads.active, hfr] at hactive
        | cons f rest =>
          have hr : f.running = true := hl.running hpV f (by simp [hfr])
          have hs : ThreadStep s (.finish V none Result.zero s.node.world) _ :=
            .finish none Result.zero s.node.world hfr hr
          have hkeep : ∀ W, W ≠ V → ((s.leave V f rest none Result.zero s.node.world).Parked W ↔
              s.Parked W) := fun W hW => by simp [Threads.Parked, Threads.leave, hW]
          have hleft : ¬ (s.leave V f rest none Result.zero s.node.world).Parked V := by
            rintro ⟨g, rest', hg, hgr⟩
            have hrest : rest = g :: rest' := by simpa [Threads.leave] using hg
            have := hl.outer V g (by simp [hfr, hrest])
            simp [this] at hgr
          have hUV : U ≠ V := fun h => hpV (h ▸ hp)
          have hTleft : ¬ (s.leave V f rest none Result.zero s.node.world).Parked T := by
            by_cases hTV : T = V
            · rw [hTV]; exact hleft
            · rwa [hkeep T hTV]
          obtain ⟨acts, W, u, hrun, hends, hW⟩ := ih _ (by simp [Threads.leave, hd])
            (lockInv_step hl hs) ((hkeep U hUV).2 hp) hTleft
          exact ⟨_ :: acts, W, u, .cons hs hrun, by simpa [Act.Ends] using hends, hW⟩
  obtain ⟨acts, V, u, hrun, hends, hV⟩ := key _ s rfl hl hp hT
  exact hV (hex acts V u hrun hends)

/-- **Exclusive claims exclude, but for parked threads.**  In every run, from the
moment an exclusive acquire returns 0 until the claim is released or taken
shared, no handler starts on behalf of another thread, exactly when no other
thread was parked between its claim check and its handler at the acquire. -/
theorem exclusive_claim_excludes_iff {n : Node ω} {acts : List (Act ω)} {s s' : Threads ω}
    {T : Tid} {owner : Option CString} (hr : Run ThreadStep (Threads.boot n) acts s)
    (ha : ThreadStep s (.acquire T .EXCLUSIVE owner none) s') :
    Excludes T s' ↔ ∀ U, U ≠ T → ¬ s.Parked U := by
  have hl := lockInv_run hr
  have hl' := lockInv_step hl ha
  generalize hout : (none : Option Errno) = out at ha
  cases ha with
  | acquire _ _ hT =>
    obtain ⟨-, hne⟩ | ⟨-, -, hh, ho, hm⟩ := claimAcquire_cases T .EXCLUSIVE owner s.node.claim
    · exact absurd hout.symm hne
    · constructor
      · intro hex U hU hp
        exact not_excludes_of_parked hl' hU hp hT hex
      · intro hnobody
        exact Guarded.excludes hl' ⟨hh, ho, hm, hnobody⟩

/-- A node with one command, which does nothing. -/
def idleNode : Node Unit :=
  ⟨[⟨1, CString.ofString "noop", [], fun _ _ w => (none, Result.zero, w)⟩], true, Claim.free,
    ⟨0, 0, 0, 0⟩, [], ()⟩

theorem dispatch_run_noop : ∃ acts u, Run ThreadStep (Threads.boot idleNode) acts u ∧
    u.node = (dispatch 2 (findById idleNode 1) [] ⟨0, false, false⟩ idleNode).node ∧
      u.frames 2 = [] :=
  dispatch_run (Threads.boot idleNode) 2 (findById idleNode 1) [] ⟨0, false, false⟩ rfl rfl

/-- Thread 2 has passed the claim check of its command. -/
def parkedThread : Threads Unit :=
  (Threads.boot idleNode).enter 2 (findById idleNode 1) [] ⟨0, false, false⟩

theorem parkedThread_run : Run ThreadStep (Threads.boot idleNode)
    [.invoke 2 (findById idleNode 1) [] ⟨0, false, false⟩] parkedThread :=
  .single (.invoke _ _ _ (by rintro ⟨f, rest, h, -⟩; cases h))

/-- The frame `parkedThread` leaves thread 2 in. -/
def noopFrame (running : Bool) : Frame Unit :=
  ⟨⟨1, CString.ofString "noop", [], fun _ _ w => (none, Result.zero, w)⟩, [], ⟨0, false, false⟩,
    running⟩

theorem parkedThread_frames :
    parkedThread.frames = Function.update (fun _ => []) 2 [noopFrame false] := rfl

theorem handler_thread_unique_noop : ∃ s : Threads Unit, s.active 2 = 1 ∧
    ∀ t, 0 < s.active t → t = 2 :=
  have hstart : ThreadStep parkedThread (.start 2) (parkedThread.begin 2 (noopFrame false) []) :=
    @ThreadStep.start _ parkedThread 2 (noopFrame false) [] rfl rfl (.inl rfl)
  ⟨_, rfl, fun _ ht => handler_thread_unique (parkedThread_run.snoc hstart) ht Nat.one_pos⟩

theorem acquire_fbo (s : Threads Unit) (hc : s.node.claim = Claim.free) (hp : ¬ s.Parked 1) :
    ∃ s', ThreadStep s (.acquire 1 .EXCLUSIVE (some (.ofString "fbo")) none) s' ∧
      s'.frames = s.frames ∧ s'.lockOwner = s.lockOwner := by
  have h := ThreadStep.acquire (s := s) (t := 1) .EXCLUSIVE (some (.ofString "fbo")) hp
  rw [hc, show (claimAcquire 1 .EXCLUSIVE (some (.ofString "fbo")) Claim.free).2 = none
    from by decide +kernel] at h
  exact ⟨_, h, rfl, rfl⟩

/-- Thread 2 passes its claim check, thread 1 takes the claim exclusively, and
thread 2 starts its handler under it. -/
theorem exclusive_claim_intruded : ¬ ∀ (n : Node Unit) (acts : List (Act Unit))
    (s s' : Threads Unit) (T : Tid) (owner : Option CString),
    Run ThreadStep (Threads.boot n) acts s →
      ThreadStep s (.acquire T .EXCLUSIVE owner none) s' → Excludes T s' := by
  intro h
  obtain ⟨s', hs', hf, ho⟩ := acquire_fbo parkedThread rfl
    (by rintro ⟨f, rest, hf, -⟩; cases hf)
  have hstart : ThreadStep s' (.start 2) _ :=
    @ThreadStep.start _ s' 2 (noopFrame false) [] (by rw [hf]; rfl) rfl (.inl ho)
  have h21 : 2 = 1 := h idleNode _ _ s' 1 _ parkedThread_run hs' [] 2 _ (.single hstart) (by simp)
  omega

/-- With thread 2 already inside its handler, the claim taken by thread 1
excludes. -/
theorem exclusive_claim_excludes_running : ∃ (acts : List (Act Unit)) (s s' : Threads Unit),
    Run ThreadStep (Threads.boot idleNode) acts s ∧ s.active 2 = 1 ∧
      ThreadStep s (.acquire 1 .EXCLUSIVE (some (.ofString "fbo")) none) s' ∧
      Excludes 1 s' := by
  have hrun := parkedThread_run.snoc
    (@ThreadStep.start _ parkedThread 2 (noopFrame false) [] rfl rfl (.inl rfl))
  have hidle : ∀ U, U ≠ 1 → ¬ (parkedThread.begin 2 (noopFrame false) []).Parked U := by
    rintro U hU ⟨f, rest, hf, hw⟩
    by_cases h2 : U = 2
    · subst h2
      cases hf
      cases hw
    · have : (parkedThread.begin 2 (noopFrame false) []).frames U = [] := by
        simp [Threads.begin, h2, parkedThread_frames]
      rw [this] at hf
      cases hf
  obtain ⟨s', hs', -, -⟩ := acquire_fbo (parkedThread.begin 2 (noopFrame false) []) rfl
    (by rintro ⟨f, rest, hf, -⟩; cases hf)
  exact ⟨_, _, s', hrun, rfl, hs', (exclusive_claim_excludes_iff hrun hs').2 hidle⟩

end KfswServices.Command
