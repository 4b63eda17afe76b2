/-
# Programs in step

Two programs are in step if they call the same operations, whatever comes back, and return results
that belong together (`Lockstep`).  It goes through programs one part after the other
(`Lockstep.bind`), and on every machine two such programs make the same calls and end in the same
state (`Lockstep.exec`).
-/

import KfswServices.Library.Program

namespace KfswServices.Library

variable {Op : Type} {Res : Op → Type} {α α' β β' σ : Type}

/-- The same calls, whatever comes back, and related results. -/
def Lockstep (R : α → α' → Prop) : Prog Res α → Prog Res α' → Prop
  | .ret a, q => ∃ b, q = .ret b ∧ R a b
  | .call o k, q => ∃ k', q = .call o k' ∧ ∀ r, Lockstep R (k r) (k' r)

variable {R : α → α' → Prop} {S : β → β' → Prop} {p : Prog Res α} {q : Prog Res α'}

theorem lockstep_pure {a : α} {b : α'} (h : R a b) :
    Lockstep R (pure a : Prog Res α) (pure b : Prog Res α') := ⟨b, rfl, h⟩

namespace Lockstep

/-- A program is in step with itself. -/
theorem refl (p : Prog Res α) : Lockstep Eq p p := by
  induction p with
  | ret a => exact ⟨a, rfl, rfl⟩
  | call o k ih => exact ⟨k, rfl, ih⟩

theorem mono {R' : α → α' → Prop} (h : Lockstep R p q) (hR : ∀ a b, R a b → R' a b) :
    Lockstep R' p q := by
  induction p generalizing q with
  | ret a =>
    obtain ⟨b, rfl, hab⟩ := h
    exact ⟨b, rfl, hR a b hab⟩
  | call o k ih =>
    obtain ⟨k', rfl, hk⟩ := h
    exact ⟨k', rfl, fun r => ih r (hk r)⟩

/-- **One part after the other.** -/
theorem bind {f : α → Prog Res β} {g : α' → Prog Res β'} (h : Lockstep R p q)
    (hfg : ∀ a b, R a b → Lockstep S (f a) (g b)) : Lockstep S (p >>= f) (q >>= g) := by
  induction p generalizing q with
  | ret a =>
    obtain ⟨b, rfl, hab⟩ := h
    exact hfg a b hab
  | call o k ih =>
    obtain ⟨k', rfl, hk⟩ := h
    exact ⟨fun r => k' r >>= g, rfl, fun r => ih r (hk r)⟩

/-- A call, and what follows it. -/
theorem call {o : Op} {f : Res o → Prog Res β} {g : Res o → Prog Res β'}
    (h : ∀ r, Lockstep S (f r) (g r)) : Lockstep S (Prog.perform o >>= f) (Prog.perform o >>= g) :=
  (refl (Prog.perform o)).bind fun r _ hr => hr ▸ h r

/-- **On every machine** the calls are the same, the results are related, and the states at the end
are the same. -/
theorem exec (h : Lockstep R p q) (handle : (o : Op) → σ → Res o × σ) (s : σ) :
    (p.exec handle s).1 = (q.exec handle s).1 ∧ R (p.exec handle s).2.1 (q.exec handle s).2.1 ∧
      (p.exec handle s).2.2 = (q.exec handle s).2.2 := by
  induction p generalizing q s with
  | ret a =>
    obtain ⟨b, rfl, hab⟩ := h
    exact ⟨rfl, hab, rfl⟩
  | call o k ih =>
    obtain ⟨k', rfl, hk⟩ := h
    obtain ⟨hcalls, hresult, hstate⟩ := ih (handle o s).1 (hk _) (handle o s).2
    exact ⟨congrArg (_ :: ·) hcalls, hresult, hstate⟩

/-- **What is known of one program** is known of the other, up to what relates their results. -/
theorem calls {P : Op → Prop} {Q : α → Prop} (h : Lockstep R p q) (hp : Calls P p Q) :
    Calls P q fun b => ∃ a, R a b ∧ Q a := by
  induction p generalizing q with
  | ret a =>
    obtain ⟨b, rfl, hab⟩ := h
    exact ⟨a, hab, hp⟩
  | call o k ih =>
    obtain ⟨k', rfl, hk⟩ := h
    intro u _ r u' _
    obtain ⟨ho, hrest⟩ := hp u trivial r u' trivial
    exact ⟨ho, ih r (hk r) hrest⟩

end Lockstep

end KfswServices.Library
