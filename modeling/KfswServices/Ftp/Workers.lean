/-
# The acceptor and the worker

The two threads of `src/ftp/ftp_server.c`.  `ftp_acceptor` takes the connections one after the other,
claims the server for each, and hands it to `ftp_worker` through a queue of one place; one that finds
the server claimed is told so and closed.  The worker serves its connection, closes it, and gives the
claim back.  Their steps come in any order.

The claim is a token: who has it, the acceptor, the queue or the worker, is the only one
(`Held.token`).  So no two connections are served at once, no connection is lost or answered twice,
and the queue is never full when it is put into (`one_owner`); and without new connections both
threads come to rest after a few steps, with every connection closed and the claim given back
(`settles`).
-/

import Mathlib.Data.List.Perm.Basic
import Mathlib.Data.List.Range
import KfswServices.Library.Run

namespace KfswServices.Ftp

open Library

/-- Where the acceptor is, with the number of its connection. -/
inductive Acceptor
  | polling
  | accepted (c : ℕ)
  | claimed (c : ℕ)
  | unclaiming (c : ℕ)
  | rejecting (c : ℕ)
  | closing (c : ℕ)
  deriving DecidableEq

/-- Where the worker is. -/
inductive Worker
  | polling
  | took (c : ℕ)
  | serving (c : ℕ)
  | closing (c : ℕ)
  | clearing
  deriving DecidableEq

/-- What became of a connection. -/
inductive Outcome
  | served
  | rejected
  deriving DecidableEq

/-- The server: `server_started`, `server_busy`, `kfsw_ftp_connection_queue`, the two threads, the
number of connections accepted so far, and those that were closed. -/
structure Threads where
  started : Bool
  busy : Bool
  queue : List ℕ
  acceptor : Acceptor
  worker : Worker
  next : ℕ
  closed : List (ℕ × Outcome)
  deriving DecidableEq

/-- A node before `kfsw_ftp_start`. -/
def bootThreads : Threads := ⟨false, false, [], .polling, .polling, 0, []⟩

/-- A step of `kfsw_ftp_start`, of the acceptor, or of the worker. -/
inductive ThreadStep
  | start
  | accept | claim | handOver | unclaim | reject | closeRejected
  | take | serve | serveEnd | closeServed | clear
  deriving DecidableEq

/-- The places of `kfsw_ftp_connection_queue`. -/
abbrev queueSize : ℕ := 1

/-- One step of one thread. -/
inductive Threads.Step (s : Threads) : ThreadStep → Threads → Prop
  | start : s.Step .start { s with started := true }
  | accept (h : s.acceptor = .polling) (hs : s.started = true) :
      s.Step .accept { s with acceptor := .accepted s.next, next := s.next + 1 }
  -- `atomic_cas` of `server_busy`
  | claimed (c : ℕ) (h : s.acceptor = .accepted c) (hb : s.busy = false) :
      s.Step .claim { s with acceptor := .claimed c, busy := true }
  | refused (c : ℕ) (h : s.acceptor = .accepted c) (hb : s.busy = true) :
      s.Step .claim { s with acceptor := .rejecting c }
  -- `k_msgq_put` without waiting
  | handedOver (c : ℕ) (h : s.acceptor = .claimed c) (hq : s.queue.length < queueSize) :
      s.Step .handOver { s with acceptor := .polling, queue := s.queue ++ [c] }
  | full (c : ℕ) (h : s.acceptor = .claimed c) (hq : queueSize ≤ s.queue.length) :
      s.Step .handOver { s with acceptor := .unclaiming c }
  | unclaim (c : ℕ) (h : s.acceptor = .unclaiming c) :
      s.Step .unclaim { s with acceptor := .rejecting c, busy := false }
  | reject (c : ℕ) (h : s.acceptor = .rejecting c) :
      s.Step .reject { s with acceptor := .closing c }
  | closeRejected (c : ℕ) (h : s.acceptor = .closing c) :
      s.Step .closeRejected
        { s with acceptor := .polling, closed := s.closed ++ [(c, .rejected)] }
  | take (c : ℕ) (queue : List ℕ) (h : s.worker = .polling) (hq : s.queue = c :: queue) :
      s.Step .take { s with worker := .took c, queue := queue }
  | serve (c : ℕ) (h : s.worker = .took c) : s.Step .serve { s with worker := .serving c }
  | serveEnd (c : ℕ) (h : s.worker = .serving c) : s.Step .serveEnd { s with worker := .closing c }
  | closeServed (c : ℕ) (h : s.worker = .closing c) :
      s.Step .closeServed { s with worker := .clearing, closed := s.closed ++ [(c, .served)] }
  | clear (h : s.worker = .clearing) : s.Step .clear { s with worker := .polling, busy := false }

/-! ### The claim -/

/-- The connection the acceptor has. -/
def Acceptor.held : Acceptor → List ℕ
  | .polling => []
  | .accepted c | .claimed c | .unclaiming c | .rejecting c | .closing c => [c]

/-- The connection the worker has. -/
def Worker.held : Worker → List ℕ
  | .polling | .clearing => []
  | .took c | .serving c | .closing c => [c]

/-- The claims the acceptor has. -/
def Acceptor.claims : Acceptor → ℕ
  | .claimed _ | .unclaiming _ => 1
  | _ => 0

/-- The claims the worker has. -/
def Worker.claims : Worker → ℕ
  | .polling => 0
  | _ => 1

/-- The connections that are neither closed nor waiting to be accepted. -/
def Threads.held (s : Threads) : List ℕ := s.acceptor.held ++ s.queue ++ s.worker.held

/-- **One claim**, and every connection in one place. -/
structure Threads.Inv (s : Threads) : Prop where
  token : s.busy.toNat = s.acceptor.claims + s.queue.length + s.worker.claims
  owned : (s.held ++ s.closed.map (·.1)).Perm (List.range s.next)
  never : ∀ c, s.acceptor ≠ .unclaiming c

theorem inv_boot : bootThreads.Inv := ⟨rfl, .refl _, fun _ h => by cases h⟩

/-- What is in which place, one number at a time. -/
theorem owned_iff (s : Threads) : (s.held ++ s.closed.map (·.1)).Perm (List.range s.next) ↔
      ∀ c, s.acceptor.held.count c + s.queue.count c + s.worker.held.count c +
        (s.closed.map (·.1)).count c = (List.range s.next).count c := by
  rw [List.perm_iff_count]
  simp only [Threads.held, List.count_append]

variable {s : Threads}

/-- **A step of the acceptor** or of the worker. -/
theorem Threads.Inv.step {t : Threads} {e : ThreadStep} (h : s.Inv) (hs : s.Step e t) : t.Inv := by
  obtain ⟨htoken, howned, hnever⟩ := h
  rw [owned_iff] at howned
  have hle := Bool.toNat_le s.busy
  cases hs with
  | start => exact ⟨htoken, (owned_iff _).2 howned, hnever⟩
  | accept hacc _ =>
    rw [hacc] at htoken howned
    refine ⟨htoken, (owned_iff _).2 fun c => ?_, fun _ h => by cases h⟩
    have hc := howned c
    simp only [Acceptor.held, List.count_nil, List.range_succ, List.count_append] at hc ⊢
    omega
  | claimed c hacc hbusy =>
    rw [hacc] at htoken howned
    refine ⟨?_, (owned_iff _).2 howned, fun _ h => by cases h⟩
    rw [hbusy] at htoken
    simp only [Acceptor.claims, Bool.toNat_false, Bool.toNat_true] at htoken ⊢
    omega
  | refused c hacc _ =>
    rw [hacc] at htoken howned
    exact ⟨htoken, (owned_iff _).2 howned, fun _ h => by cases h⟩
  | handedOver c hacc _ =>
    rw [hacc] at htoken howned
    refine ⟨?_, (owned_iff _).2 fun x => ?_, fun _ h => by cases h⟩
    · simp only [Acceptor.claims, List.length_append, List.length_singleton] at htoken ⊢
      omega
    · have hx := howned x
      simp only [Acceptor.held, List.count_nil, List.count_append] at hx ⊢
      omega
  | full c hacc hq =>
    -- the queue and the acceptor would both have the claim
    rw [hacc] at htoken
    simp only [Acceptor.claims] at htoken
    simp only [queueSize] at hq
    omega
  | unclaim c hacc => exact absurd hacc (hnever c)
  | reject c hacc =>
    rw [hacc] at htoken howned
    exact ⟨htoken, (owned_iff _).2 howned, fun _ h => by cases h⟩
  | closeRejected c hacc =>
    rw [hacc] at htoken howned
    refine ⟨htoken, (owned_iff _).2 fun x => ?_, fun _ h => by cases h⟩
    have hx := howned x
    simp only [Acceptor.held, List.count_nil, List.map_append, List.map_singleton,
      List.count_append] at hx ⊢
    omega
  | take c queue hw hq =>
    rw [hw, hq] at htoken howned
    refine ⟨?_, (owned_iff _).2 fun x => ?_, hnever⟩
    · simp only [Worker.claims, List.length_cons] at htoken ⊢
      omega
    · have hx := howned x
      simp only [Worker.held, List.count_nil, List.count_cons] at hx ⊢
      omega
  | serve c hw | serveEnd c hw =>
    rw [hw] at htoken howned
    exact ⟨htoken, (owned_iff _).2 howned, hnever⟩
  | closeServed c hw =>
    rw [hw] at htoken howned
    refine ⟨htoken, (owned_iff _).2 fun x => ?_, hnever⟩
    have hx := howned x
    simp only [Worker.held, List.count_nil, List.map_append, List.map_singleton,
      List.count_append] at hx ⊢
    omega
  | clear hw =>
    rw [hw] at htoken howned
    refine ⟨?_, (owned_iff _).2 howned, hnever⟩
    simp only [Worker.claims, Bool.toNat_false] at htoken ⊢
    omega

theorem inv_run {es : List ThreadStep} {t : Threads} (hr : Run Threads.Step bootThreads es t) :
    t.Inv :=
  hr.invariant (I := fun _ t => t.Inv) inv_boot fun _ _ _ _ ht hs => ht.step hs

/-- **Each connection has one owner**, in whatever order the threads take their steps: it is with the
acceptor, in the queue or with the worker, or it was closed, once, served or rejected.  The claim has
one owner as well, so that the queue has room for a claimed connection, nothing else is claimed while
one is served, and one is turned away only if the queue or the worker has the claim. -/
theorem one_owner {es : List ThreadStep} {t : Threads} (hr : Run Threads.Step bootThreads es t) :
    (t.held ++ t.closed.map (·.1)).Perm (List.range t.next) ∧ (t.closed.map (·.1)).Nodup ∧
      t.busy.toNat = t.acceptor.claims + t.queue.length + t.worker.claims ∧
      (∀ c, t.acceptor = .claimed c → t.queue = [] ∧ t.worker = .polling) ∧
      (∀ c, t.worker = .serving c → t.queue = [] ∧ t.acceptor.claims = 0) ∧
      ∀ c u, t.Step .claim u → u.acceptor = .rejecting c → t.queue ≠ [] ∨ t.worker ≠ .polling := by
  obtain ⟨htoken, howned, -⟩ := inv_run hr
  have hle := Bool.toNat_le t.busy
  refine ⟨howned, ?_, htoken, fun c hc => ?_, fun c hc => ?_, fun c u hs hu => ?_⟩
  · have hnodup := howned.nodup_iff.2 List.nodup_range
    exact hnodup.sublist (List.sublist_append_right _ _)
  · rw [hc] at htoken
    have hclaims : (Acceptor.claimed c).claims = 1 := rfl
    refine ⟨List.length_eq_zero_iff.1 (by omega), ?_⟩
    cases hw : t.worker with
    | polling => rfl
    | took | serving | closing | clearing =>
      rw [hw] at htoken
      simp only [Worker.claims, hclaims] at htoken
      omega
  · rw [hc] at htoken
    have hclaims : (Worker.serving c).claims = 1 := rfl
    exact ⟨List.length_eq_zero_iff.1 (by omega), by omega⟩
  · cases hs with
    | claimed => cases hu
    | refused c' hacc hbusy =>
      rw [hacc, hbusy] at htoken
      by_contra hno
      obtain ⟨hq, hw⟩ := not_or.1 hno
      rw [not_not.1 hq, not_not.1 hw] at htoken
      cases htoken

/-- The run of one connection that is served. -/
theorem run_served : Run Threads.Step bootThreads
    [.start, .accept, .claim, .handOver, .take, .serve, .serveEnd, .closeServed]
    ⟨true, true, [], .polling, .clearing, 1, [(0, .served)]⟩ := by
  refine .cons Threads.Step.start ?_
  refine .cons (.accept rfl rfl) ?_
  refine .cons (.claimed 0 rfl rfl) ?_
  refine .cons (.handedOver 0 rfl (by decide)) ?_
  refine .cons (.take 0 [] rfl rfl) ?_
  refine .cons (.serve 0 rfl) ?_
  refine .cons (.serveEnd 0 rfl) ?_
  exact .single (.closeServed 0 rfl)

theorem one_owner_served : ∃ t : Threads, t.busy = true ∧ t.closed = [(0, .served)] ∧
      (t.held ++ t.closed.map (·.1)).Perm (List.range t.next) :=
  ⟨_, rfl, rfl, (one_owner run_served).1⟩

/-! ### Coming to rest -/

/-- How far the acceptor is from polling. -/
def Acceptor.distance : Acceptor → ℕ
  | .polling => 0
  | .accepted _ => 7
  | .claimed _ => 6
  | .unclaiming _ => 3
  | .rejecting _ => 2
  | .closing _ => 1

/-- How far the worker is from polling. -/
def Worker.distance : Worker → ℕ
  | .polling => 0
  | .took _ => 4
  | .serving _ => 3
  | .closing _ => 2
  | .clearing => 1

/-- How far both threads are from rest. -/
def Threads.distance (s : Threads) : ℕ :=
  s.acceptor.distance + 5 * s.queue.length + s.worker.distance

/-- A step that brings no new connection. -/
def ThreadStep.inner : ThreadStep → Bool
  | .start | .accept => false
  | _ => true

/-- Every inner step is a step towards rest. -/
theorem Threads.Step.distance_lt {t : Threads} {e : ThreadStep} (h : s.Step e t)
    (he : e.inner = true) : t.distance < s.distance := by
  unfold Threads.distance
  cases h with
  | start | accept => cases he
  | claimed c h | refused c h | unclaim c h | reject c h | closeRejected c h =>
    rw [h]
    simp only [Acceptor.distance]
    omega
  | handedOver c h hq =>
    rw [h]
    simp only [Acceptor.distance, List.length_append, List.length_singleton]
    omega
  | full c h hq =>
    rw [h]
    simp only [Acceptor.distance]
    omega
  | take c queue h hq =>
    rw [h, hq]
    simp only [Worker.distance, List.length_cons]
    omega
  | serve c h | serveEnd c h | closeServed c h =>
    rw [h]
    simp only [Worker.distance]
    omega
  | clear h =>
    rw [h]
    simp only [Worker.distance]
    omega

/-- Threads that are not at rest have an inner step to take. -/
theorem exists_inner_step (h : s.distance ≠ 0) : ∃ e t, e.inner = true ∧ s.Step e t := by
  unfold Threads.distance at h
  cases hacc : s.acceptor with
  | accepted c =>
    cases hbusy : s.busy with
    | true => exact ⟨_, _, rfl, .refused c hacc hbusy⟩
    | false => exact ⟨_, _, rfl, .claimed c hacc hbusy⟩
  | claimed c =>
    rcases Nat.lt_or_ge s.queue.length queueSize with hq | hq
    · exact ⟨_, _, rfl, .handedOver c hacc hq⟩
    · exact ⟨_, _, rfl, .full c hacc hq⟩
  | unclaiming c => exact ⟨_, _, rfl, .unclaim c hacc⟩
  | rejecting c => exact ⟨_, _, rfl, .reject c hacc⟩
  | closing c => exact ⟨_, _, rfl, .closeRejected c hacc⟩
  | polling =>
    cases hw : s.worker with
    | took c => exact ⟨_, _, rfl, .serve c hw⟩
    | serving c => exact ⟨_, _, rfl, .serveEnd c hw⟩
    | closing c => exact ⟨_, _, rfl, .closeServed c hw⟩
    | clearing => exact ⟨_, _, rfl, .clear hw⟩
    | polling =>
      cases hq : s.queue with
      | nil =>
        rw [hacc, hw, hq] at h
        exact absurd rfl h
      | cons c queue => exact ⟨_, _, rfl, .take c queue hw hq⟩

/-- No claim and no connection is left where both threads are at rest. -/
theorem Threads.Inv.rest (h : s.Inv) (hd : s.distance = 0) :
    s.busy = false ∧ (s.closed.map (·.1)).Perm (List.range s.next) := by
  obtain ⟨htoken, howned, -⟩ := h
  unfold Threads.distance at hd
  have hq : s.queue = [] := List.length_eq_zero_iff.1 (by omega)
  have hacc : s.acceptor = .polling := by
    cases hacc : s.acceptor with
    | polling => rfl
    | accepted | claimed | unclaiming | rejecting | closing =>
      rw [hacc] at hd
      simp only [Acceptor.distance] at hd
      omega
  have hw : s.worker = .polling := by
    cases hw : s.worker with
    | polling => rfl
    | took | serving | closing | clearing =>
      rw [hw] at hd
      simp only [Worker.distance] at hd
      omega
  unfold Threads.held at howned
  rw [hacc, hq, hw] at htoken howned
  exact ⟨Bool.toNat_eq_zero.1 htoken, howned⟩

/-- The claim keeps the threads within twelve steps of rest. -/
theorem Threads.Inv.distance_le (h : s.Inv) : s.distance ≤ 12 := by
  have htoken := h.token
  have hle := Bool.toNat_le s.busy
  have hacc : s.acceptor.distance ≤ 7 ∧ (s.acceptor.claims = 1 → s.acceptor.distance ≤ 6) := by
    cases s.acceptor <;> simp [Acceptor.distance, Acceptor.claims]
  have hw : s.worker.distance ≤ 4 * s.worker.claims := by
    cases s.worker <;> simp [Worker.distance, Worker.claims]
  unfold Threads.distance
  omega

/-- Inner steps approach rest, and accept nothing. -/
theorem distance_run {t : Threads} {es : List ThreadStep} (hr : Run Threads.Step s es t)
    (he : ∀ e ∈ es, e.inner = true) : es.length + t.distance ≤ s.distance ∧ t.next = s.next := by
  induction hr with
  | nil => exact ⟨by simp, rfl⟩
  | @snoc _ _ es e _ hs ih =>
    obtain ⟨hlen, hnext⟩ := ih fun e h => he e (List.mem_append_left _ h)
    have hinner := he e (by simp)
    have hlt := hs.distance_lt hinner
    rw [List.length_append, List.length_singleton]
    refine ⟨by omega, hnext ▸ ?_⟩
    cases hs with
    | start | accept => cases hinner
    | _ => rfl

/-- **Both threads come to rest** when no more connections come: after at most twelve steps, in any
order, there is nothing left to do, and then the claim was given back and every connection that was
accepted is closed. -/
theorem settles {es fs : List ThreadStep} {s t : Threads} (hs : Run Threads.Step bootThreads es s)
    (hr : Run Threads.Step s fs t) (hf : ∀ e ∈ fs, e.inner = true) :
    fs.length ≤ 12 ∧ ((∃ e u, e.inner = true ∧ t.Step e u) ∨
      t.busy = false ∧ (t.closed.map (·.1)).Perm (List.range s.next)) := by
  obtain ⟨hlen, hnext⟩ := distance_run hr hf
  have hle := (inv_run hs).distance_le
  refine ⟨by omega, ?_⟩
  by_cases hd : t.distance = 0
  · obtain ⟨hbusy, hperm⟩ := (inv_run (hs.append hr)).rest hd
    exact .inr ⟨hbusy, hnext ▸ hperm⟩
  · exact .inl (exists_inner_step hd)

theorem settles_served : ∃ t : Threads, Run Threads.Step bootThreads
      ([.start, .accept, .claim, .handOver, .take, .serve, .serveEnd, .closeServed] ++ [.clear]) t ∧
      ((∃ e u, e.inner = true ∧ t.Step e u) ∨
        t.busy = false ∧ (t.closed.map (·.1)).Perm (List.range 1)) :=
  have hclear : Run Threads.Step ⟨true, true, [], .polling, .clearing, 1, [(0, .served)]⟩ [.clear]
      ⟨true, false, [], .polling, .polling, 1, [(0, .served)]⟩ :=
    .single (.clear rfl)
  ⟨_, run_served.append hclear, (settles run_served hclear (by decide)).2⟩

end KfswServices.Ftp
