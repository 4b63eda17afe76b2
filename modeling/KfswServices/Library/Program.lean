/-
# Programs that call operations

`Prog Res α` is a program that returns an `α` and on its way calls operations, each of which may
come back with any of its results.  What an operation does to the state is a relation `step`; what
is written down of a program is only which operation it calls after which results.

`Ensures step rely guar p Q s` is the rule to reason with.  Whatever the results, and whatever
others do to the state between two calls as far as `rely` allows it, every call of `p` from `s` on
does to the state what `guar` says, and if `p` returns, then as `Q` says.  It goes through a
program one call after the other (`ensures_perform`) and one part after the other (`ensures_bind`).
`Ensures.run` and `Ensures.interleave` say what it means for runs: of the program alone, and of
two programs that take their calls in any order.  `Prog.Disturbed` lets others take steps between
the calls that are no programs, as a device, an operator or a timer does; `Ensures.disturbed` carries
what was shown over to these.
-/

import KfswServices.Library.Run

namespace KfswServices.Library

/-- A program: it returns, or it calls an operation and goes on with the result. -/
inductive Prog {Op : Type} (Res : Op → Type) (α : Type) : Type
  | ret (a : α)
  | call (o : Op) (k : Res o → Prog Res α)

variable {Op : Type} {Res : Op → Type} {α β σ τ : Type}

namespace Prog

/-- One program after the other. -/
def bind : Prog Res α → (α → Prog Res β) → Prog Res β
  | ret a, f => f a
  | call o k, f => call o fun r => (k r).bind f

instance : Monad (Prog Res) where
  pure := ret
  bind := bind

instance : LawfulMonad (Prog Res) :=
  LawfulMonad.mk' _
    (fun p => by
      induction p with
      | ret a => rfl
      | call o k ih => exact congrArg (call o) (funext ih))
    (fun _ _ => rfl)
    (fun p _ _ => by
      induction p with
      | ret a => rfl
      | call o k ih => exact congrArg (call o) (funext ih))

/-- The call of an operation. -/
def perform (o : Op) : Prog Res (Res o) := call o ret

end Prog

/-- A call, with what came back and the states around it. -/
structure Event (Res : Op → Type) (σ : Type) where
  op : Op
  before : σ
  result : Res op
  after : σ

/-- A program makes its next call. -/
inductive Prog.Step (step : (o : Op) → σ → Res o → σ → Prop) :
    Prog Res α × σ → Event Res σ → Prog Res α × σ → Prop
  | call {o : Op} {k : Res o → Prog Res α} {s s' : σ} {r : Res o} (h : step o s r s') :
      Prog.Step step (.call o k, s) ⟨o, s, r, s'⟩ (k r, s')

/-- Every call does what `guar` says, under interference by `rely`, and the end is as `Q` says. -/
def Ensures (step : (o : Op) → σ → Res o → σ → Prop) (rely : σ → σ → Prop)
    (guar : (o : Op) → σ → Res o → σ → Prop) : Prog Res α → (α → σ → Prop) → σ → Prop
  | .ret a, Q, s => Q a s
  | .call o k, Q, s => ∀ s₁, rely s s₁ → ∀ r s₂, step o s₁ r s₂ →
      guar o s₁ r s₂ ∧ Ensures step rely guar (k r) Q s₂

variable {step : (o : Op) → σ → Res o → σ → Prop} {rely rely' : σ → σ → Prop}
  {guar guar' : (o : Op) → σ → Res o → σ → Prop} {p q : Prog Res α} {Q Q' : α → σ → Prop} {s u : σ}

@[simp] theorem ensures_pure {a : α} :
    Ensures step rely guar (pure a : Prog Res α) Q s ↔ Q a s := Iff.rfl

variable {f : α → Prog Res β}

/-- One part after the other. -/
@[simp] theorem ensures_bind {p : Prog Res α} {Q : β → σ → Prop} :
    Ensures step rely guar (p >>= f) Q s ↔
      Ensures step rely guar p (fun a s => Ensures step rely guar (f a) Q s) s := by
  induction p generalizing s with
  | ret a => exact Iff.rfl
  | call o k ih =>
    constructor
    · intro h s₁ hrely r s₂ hstep
      exact ⟨(h s₁ hrely r s₂ hstep).1, (ih r).1 (h s₁ hrely r s₂ hstep).2⟩
    · intro h s₁ hrely r s₂ hstep
      exact ⟨(h s₁ hrely r s₂ hstep).1, (ih r).2 (h s₁ hrely r s₂ hstep).2⟩

/-- A single call. -/
@[simp] theorem ensures_perform {o : Op} {Q : Res o → σ → Prop} :
    Ensures step rely guar (Prog.perform o) Q s ↔ ∀ s₁, rely s s₁ → ∀ r s₂, step o s₁ r s₂ →
      guar o s₁ r s₂ ∧ Q r s₂ := Iff.rfl

namespace Ensures

section

variable (h : Ensures step rely guar p Q s)
include h

/-- Less interference, and less to show. -/
theorem mono (hrely : ∀ s s₁, rely' s s₁ → rely s s₁)
    (hguar : ∀ o s r s', guar o s r s' → guar' o s r s') (hQ : ∀ a s, Q a s → Q' a s) :
    Ensures step rely' guar' p Q' s := by
  induction p generalizing s with
  | ret a => exact hQ a s h
  | call o k ih =>
    intro s₁ hs r s₂ hstep
    obtain ⟨hg, hk⟩ := h s₁ (hrely _ _ hs) r s₂ hstep
    exact ⟨hguar _ _ _ _ hg, ih r hk⟩

/-- The consequence at the end. -/
theorem post (hQ : ∀ a s, Q a s → Q' a s) : Ensures step rely guar p Q' s :=
  h.mono (fun _ _ hs => hs) (fun _ _ _ _ hg => hg) hQ

/-- Two facts of one program. -/
theorem and (h' : Ensures step rely guar' p Q' s) :
    Ensures step rely (fun o s r s' => guar o s r s' ∧ guar' o s r s') p
      (fun a s => Q a s ∧ Q' a s) s := by
  induction p generalizing s with
  | ret a => exact ⟨h, h'⟩
  | call o k ih =>
    intro s₁ hs r s₂ hstep
    obtain ⟨hg, hk⟩ := h s₁ hs r s₂ hstep
    obtain ⟨hg', hk'⟩ := h' s₁ hs r s₂ hstep
    exact ⟨⟨hg, hg'⟩, ih r hk hk'⟩

/-- **What every call and all interference keeps**, the program keeps. -/
theorem keeps {K : σ → σ → Prop} (hrefl : ∀ s, K s s)
    (htrans : ∀ {s t u}, K s t → K t u → K s u) (hrely : ∀ s s₁, rely s s₁ → K s s₁)
    (hguar : ∀ o s r s', guar o s r s' → K s s') :
    Ensures step rely guar p (fun a u => Q a u ∧ K s u) s := by
  induction p generalizing s with
  | ret a => exact ⟨h, hrefl s⟩
  | call o k ih =>
    intro s₁ hs r s₂ hstep
    obtain ⟨hg, hk⟩ := h s₁ hs r s₂ hstep
    refine ⟨hg, (ih r hk).post fun a u ⟨hQ, hK⟩ => ⟨hQ, ?_⟩⟩
    exact htrans (htrans (hrely _ _ hs) (hguar _ _ _ _ hg)) hK

/-- Interference before the first call. -/
theorem interfere (hs : rely s u) (htrans : ∀ {s t u}, rely s t → rely t u → rely s u)
    (hQ : ∀ a, Q a s → Q a u) : Ensures step rely guar p Q u := by
  cases p with
  | ret a => exact hQ a h
  | call o k => exact fun s₁ hs₁ => h s₁ (htrans hs hs₁)

end

/-- One part after the other, from the two parts. -/
theorem bind {R : α → σ → Prop} {Q : β → σ → Prop} (h : Ensures step rely guar p R s)
    (hf : ∀ a u, R a u → Ensures step rely guar (f a) Q u) : Ensures step rely guar (p >>= f) Q s :=
  ensures_bind.2 (h.post hf)

/-- What a call does, it does as a step. -/
theorem own (h : Ensures step rely guar p Q s) :
    Ensures step rely (fun o s r s' => guar o s r s' ∧ step o s r s') p Q s := by
  induction p generalizing s with
  | ret a => exact h
  | call o k ih =>
    intro s₁ hs r s₂ hstep
    obtain ⟨hg, hk⟩ := h s₁ hs r s₂ hstep
    exact ⟨⟨hg, hstep⟩, ih r hk⟩

/-- **What is known of a machine** is known of every machine that it simulates. -/
theorem simulate {R : σ → τ → Prop} {stepT guarT : (o : Op) → τ → Res o → τ → Prop}
    {relyT : τ → τ → Prop} {t : τ}
    (hrely : ∀ s t t', R s t → relyT t t' → ∃ s', rely s s' ∧ R s' t')
    (hstep : ∀ o s t r t', R s t → stepT o t r t' →
      ∃ s', step o s r s' ∧ (guar o s r s' → guarT o t r t' ∧ R s' t'))
    (h : Ensures step rely guar p Q s) (hR : R s t) :
    Ensures stepT relyT guarT p (fun a t => ∃ s, R s t ∧ Q a s) t := by
  induction p generalizing s t with
  | ret a => exact ⟨s, hR, h⟩
  | call o k ih =>
    intro t₁ ht r t₂ hstep'
    obtain ⟨s₁, hs, hR₁⟩ := hrely s t t₁ hR ht
    obtain ⟨s₂, hs₂, himp⟩ := hstep o s₁ t₁ r t₂ hR₁ hstep'
    obtain ⟨hg, hk⟩ := h s₁ hs r s₂ hs₂
    obtain ⟨hgT, hR₂⟩ := himp hg
    exact ⟨hgT, ih r hk hR₂⟩

/-- **Ghost state can be forgotten**: what is known with it is known without, for a program alone. -/
theorem forget {f : σ → τ} {stepF guarF : (o : Op) → τ → Res o → τ → Prop} (hrefl : ∀ s, rely s s)
    (hstep : ∀ o s r t, stepF o (f s) r t → ∃ s', f s' = t ∧ step o s r s')
    (hguar : ∀ o s r s', guar o s r s' → guarF o (f s) r (f s'))
    (h : Ensures step rely guar p Q s) :
    Ensures stepF (fun t t' => t' = t) guarF p (fun a t => ∃ s, f s = t ∧ Q a s) (f s) := by
  refine h.simulate (R := fun s t => f s = t) ?_ ?_ rfl
  · rintro s _ _ rfl rfl
    exact ⟨s, hrefl s, rfl⟩
  · rintro o s _ r t rfl ht
    obtain ⟨s', rfl, hs'⟩ := hstep o s r t ht
    exact ⟨s', hs', fun hg => ⟨hguar o s r s' hg, rfl⟩⟩

/-- **A run of the program alone.**  The program is known about a view of the state and of what has
happened so far. -/
theorem run {own : (o : Op) → τ → Res o → τ → Prop} (view : List (Event Res τ) → τ → σ)
    {t u : τ} {es : List (Event Res τ)} (hrefl : ∀ s, rely s s)
    (hown : ∀ es o t r t', own o t r t' → step o (view es t) r (view (es ++ [⟨o, t, r, t'⟩]) t'))
    (h : Ensures step rely guar p Q (view [] t)) (hr : Run (Prog.Step own) (p, t) es (q, u)) :
    (∀ before e, before ++ [e] <+: es → own e.op e.before e.result e.after ∧
      guar e.op (view before e.before) e.result (view (before ++ [e]) e.after)) ∧
      Ensures step rely guar q Q (view es u) := by
  refine hr.invariant (I := fun es c => (∀ before e, before ++ [e] <+: es →
    own e.op e.before e.result e.after ∧
      guar e.op (view before e.before) e.result (view (before ++ [e]) e.after)) ∧
        Ensures step rely guar c.1 Q (view es c.2)) ⟨by simp, h⟩ ?_
  rintro es _ e _ ⟨hes, hens⟩ ⟨hstep⟩
  obtain ⟨hg, hk⟩ := hens _ (hrefl _) _ _ (hown es _ _ _ _ hstep)
  refine ⟨fun before e' hpre => ?_, hk⟩
  rcases List.prefix_concat_iff.1 hpre with heq | hpre
  · obtain ⟨rfl, he⟩ := List.append_inj' heq rfl
    rw [List.singleton_inj.1 he]
    exact ⟨hstep, hg⟩
  · exact hes before e' hpre

end Ensures

/-- **What every call makes true** is true after every run. -/
theorem Ensures.holds {own : (o : Op) → τ → Res o → τ → Prop} {I : σ → Prop}
    (view : List (Event Res τ) → τ → σ) {t u : τ} {es : List (Event Res τ)} (hrefl : ∀ s, rely s s)
    (hown : ∀ es o t r t', own o t r t' → step o (view es t) r (view (es ++ [⟨o, t, r, t'⟩]) t'))
    (h : Ensures step rely (fun _ _ _ s => I s) p Q (view [] t)) (h0 : I (view [] t))
    (hr : Run (Prog.Step own) (p, t) es (q, u)) : I (view es u) := by
  have hmain := hr.invariant (I := fun es c => I (view es c.2) ∧
    Ensures step rely (fun _ _ _ s => I s) c.1 Q (view es c.2)) ⟨h0, h⟩ ?_
  · exact hmain.1
  · rintro es _ e _ ⟨-, hens⟩ ⟨hstep⟩
    exact hens _ (hrefl _) _ _ (hown es _ _ _ _ hstep)

/-! ### What a program may call -/

/-- Every call of the program is one of these, whatever comes back, and so is what it returns. -/
abbrev Calls (P : Op → Prop) (p : Prog Res α) (Q : α → Prop) : Prop :=
  Ensures (fun _ (_ : Unit) _ _ => True) (fun _ _ => True) (fun o _ _ _ => P o) p
    (fun a _ => Q a) ()

section

variable {P : Op → Prop} {R S : α → Prop} {T : β → Prop}

theorem calls_perform {o : Op} (h : P o) :
    Calls P (Prog.perform o : Prog Res (Res o)) fun _ => True :=
  fun _ _ _ _ _ => ⟨h, trivial⟩

theorem Calls.bind (h : Calls P p R) (hf : ∀ a, R a → Calls P (f a) T) : Calls P (p >>= f) T :=
  Ensures.bind h fun a _ => hf a

theorem Calls.post (h : Calls P p R) (hR : ∀ a, R a → S a) : Calls P p S :=
  Ensures.post h fun a _ => hR a

theorem Calls.mono {P' : Op → Prop} (h : Calls P p R) (hP : ∀ o, P o → P' o) : Calls P' p R :=
  Ensures.mono h (fun _ _ hs => hs) (fun o _ _ _ => hP o) fun _ _ hR => hR

/-- What a program calls, it calls in any state. -/
theorem Calls.ensures {P : Op → Prop} {p : Prog Res α} {R : α → Prop} (h : Calls P p R) :
    Ensures step rely (fun o _ _ _ => P o) p (fun a _ => R a) s := by
  induction p generalizing s with
  | ret a => exact h
  | call o k ih =>
    intro s₁ _ r s₂ _
    obtain ⟨hP, hk⟩ := h () trivial r () trivial
    exact ⟨hP, ih r hk⟩

/-- **The calls of a run** are calls that the program may make. -/
theorem Calls.run {own : (o : Op) → τ → Res o → τ → Prop} {t u : τ} {es : List (Event Res τ)}
    (h : Calls P p R) (hr : Run (Prog.Step own) (p, t) es (q, u)) : ∀ e ∈ es, P e.op := by
  intro e he
  obtain ⟨before, after, rfl⟩ := List.append_of_mem he
  exact ((Ensures.run (fun _ _ => ()) (fun _ => trivial) (fun _ _ _ _ _ _ => trivial) h hr).1
    before e (by simp)).2

end

/-! ### What a program may return -/

/-- Whatever comes back, what the program returns is of this kind. -/
abbrev Gives (p : Prog Res α) (R : α → Prop) : Prop := Calls (fun _ => True) p R

theorem gives_perform {o : Op} {f : Res o → Prog Res α} {R : α → Prop}
    (h : ∀ r, Gives (f r) R) : Gives (Prog.perform o >>= f) R :=
  (calls_perform trivial).bind fun r _ => h r

theorem gives_any (p : Prog Res α) : Gives p fun _ => True := by
  induction p with
  | ret a => trivial
  | call o k ih => exact fun _ _ r _ _ => ⟨trivial, ih r⟩

/-! ### Two programs -/

/-- One of two programs makes its next call. -/
inductive Interleave (left right : (o : Op) → τ → Res o → τ → Prop) :
    (Prog Res α × Prog Res β) × τ → Event Res τ ⊕ Event Res τ →
      (Prog Res α × Prog Res β) × τ → Prop
  | left {o : Op} {k : Res o → Prog Res α} {q : Prog Res β} {t t' : τ} {r : Res o}
      (h : left o t r t') :
      Interleave left right ((.call o k, q), t) (.inl ⟨o, t, r, t'⟩) ((k r, q), t')
  | right {o : Op} {p : Prog Res α} {k : Res o → Prog Res β} {t t' : τ} {r : Res o}
      (h : right o t r t') :
      Interleave left right ((p, .call o k), t) (.inr ⟨o, t, r, t'⟩) ((p, k r), t')

/-- The turns of the two, the other way round. -/
theorem Interleave.swap {left right : (o : Op) → τ → Res o → τ → Prop} {p p' : Prog Res α}
    {q q' : Prog Res β} {t u : τ} {es : List (Event Res τ ⊕ Event Res τ)}
    (hr : Run (Interleave left right) ((p, q), t) es ((p', q'), u)) :
    Run (Interleave right left) ((q, p), t) (es.map Sum.swap) ((q', p'), u) := by
  refine hr.map (fun c : (Prog Res α × Prog Res β) × τ => (c.1.swap, c.2)) Sum.swap ?_
  rintro _ _ _ (h | h)
  · exact .right h
  · exact .left h

/-- **One of two programs, in any order.**  It has a view of the state and of what has happened so
far, in which a call of the other is interference. -/
theorem Ensures.left {left right : (o : Op) → τ → Res o → τ → Prop}
    (view : List (Event Res τ ⊕ Event Res τ) → τ → σ) {p p' : Prog Res α} {q q' : Prog Res β}
    {t u : τ} {es : List (Event Res τ ⊕ Event Res τ)}
    (hp : Ensures step rely guar p (fun _ _ => True) (view [] t))
    (htrans : ∀ {s t u}, rely s t → rely t u → rely s u) (hrefl : ∀ s, rely s s)
    (hleft : ∀ (es : List (Event Res τ ⊕ Event Res τ)) (o : Op) (t : τ) (r : Res o) (t' : τ),
      left o t r t' → step o (view es t) r (view (es ++ [Sum.inl ⟨o, t, r, t'⟩]) t'))
    (hright : ∀ (es : List (Event Res τ ⊕ Event Res τ)) (o : Op) (t : τ) (r : Res o) (t' : τ),
      right o t r t' → rely (view es t) (view (es ++ [Sum.inr ⟨o, t, r, t'⟩]) t'))
    (hr : Run (Interleave left right) ((p, q), t) es ((p', q'), u)) :
    ∀ (before : List (Event Res τ ⊕ Event Res τ)) (e : Event Res τ),
      before ++ [Sum.inl e] <+: es → left e.op e.before e.result e.after ∧
      guar e.op (view before e.before) e.result (view (before ++ [Sum.inl e]) e.after) := by
  have hmain := hr.invariant (I := fun es c =>
    (∀ (before : List (Event Res τ ⊕ Event Res τ)) (e : Event Res τ),
      before ++ [Sum.inl e] <+: es → left e.op e.before e.result e.after ∧
      guar e.op (view before e.before) e.result (view (before ++ [Sum.inl e]) e.after)) ∧
      Ensures step rely guar c.1.1 (fun _ _ => True) (view es c.2)) ⟨by simp, hp⟩ ?_
  · exact hmain.1
  · rintro es c e c' ⟨hes, hens⟩ (h | h)
    · obtain ⟨hg, hk⟩ := hens _ (hrefl _) _ _ (hleft es _ _ _ _ h)
      refine ⟨fun before e' hpre => ?_, hk⟩
      rcases List.prefix_concat_iff.1 hpre with heq | hpre
      · obtain ⟨rfl, he⟩ := List.append_inj' heq rfl
        cases List.singleton_inj.1 he
        exact ⟨h, hg⟩
      · exact hes before e' hpre
    · refine ⟨fun before e' hpre => ?_,
        hens.interfere (hright es _ _ _ _ h) htrans fun _ _ => trivial⟩
      rcases List.prefix_concat_iff.1 hpre with heq | hpre
      · cases List.singleton_inj.1 (List.append_inj' heq rfl).2
      · exact hes before e' hpre

/-- **Two programs, in any order.**  Each has its own view of the state and of what has happened
so far; a call of the one is interference for the other, and does for its own part what it
guarantees. -/
theorem Ensures.interleave {left right : (o : Op) → τ → Res o → τ → Prop}
    (viewL viewR : List (Event Res τ ⊕ Event Res τ) → τ → σ)
    {stepR : (o : Op) → σ → Res o → σ → Prop} {relyR : σ → σ → Prop}
    {guarR : (o : Op) → σ → Res o → σ → Prop} {p p' : Prog Res α} {q q' : Prog Res β}
    {t u : τ} {es : List (Event Res τ ⊕ Event Res τ)}
    (hp : Ensures step rely guar p (fun _ _ => True) (viewL [] t))
    (hq : Ensures stepR relyR guarR q (fun _ _ => True) (viewR [] t))
    (htrans : ∀ {s t u}, rely s t → rely t u → rely s u) (hrefl : ∀ s, rely s s)
    (htransR : ∀ {s t u}, relyR s t → relyR t u → relyR s u) (hreflR : ∀ s, relyR s s)
    (hleft : ∀ (es : List (Event Res τ ⊕ Event Res τ)) (o : Op) (t : τ) (r : Res o) (t' : τ),
      left o t r t' → step o (viewL es t) r (viewL (es ++ [Sum.inl ⟨o, t, r, t'⟩]) t') ∧
        relyR (viewR es t) (viewR (es ++ [Sum.inl ⟨o, t, r, t'⟩]) t'))
    (hright : ∀ (es : List (Event Res τ ⊕ Event Res τ)) (o : Op) (t : τ) (r : Res o) (t' : τ),
      right o t r t' → stepR o (viewR es t) r (viewR (es ++ [Sum.inr ⟨o, t, r, t'⟩]) t') ∧
        rely (viewL es t) (viewL (es ++ [Sum.inr ⟨o, t, r, t'⟩]) t'))
    (hr : Run (Interleave left right) ((p, q), t) es ((p', q'), u)) :
    (∀ (before : List (Event Res τ ⊕ Event Res τ)) (e : Event Res τ),
      before ++ [Sum.inl e] <+: es → left e.op e.before e.result e.after ∧
      guar e.op (viewL before e.before) e.result (viewL (before ++ [Sum.inl e]) e.after)) ∧
      ∀ (before : List (Event Res τ ⊕ Event Res τ)) (e : Event Res τ),
        before ++ [Sum.inr e] <+: es → right e.op e.before e.result e.after ∧
        guarR e.op (viewR before e.before) e.result (viewR (before ++ [Sum.inr e]) e.after) := by
  refine ⟨hp.left viewL htrans hrefl (fun es o t r t' h => (hleft es o t r t' h).1)
    (fun es o t r t' h => (hright es o t r t' h).2) hr, ?_⟩
  -- the other half, with the turns swapped
  intro before e hpre
  have hswap : ∀ es : List (Event Res τ ⊕ Event Res τ), (es.map Sum.swap).map Sum.swap = es := by
    intro es
    simp
  have hpre' : before.map Sum.swap ++ [Sum.inl e] <+: es.map Sum.swap := by
    have hmap := hpre.map Sum.swap
    rwa [List.map_append] at hmap
  have h := Ensures.left (fun es t => viewR (es.map Sum.swap) t) hq htransR hreflR
    (fun es o t r t' h => ?_) (fun es o t r t' h => ?_) (Interleave.swap hr) _ e hpre'
  · rw [List.map_append, hswap] at h
    exact h
  · rw [List.map_append]
    exact (hright _ o t r t' h).1
  · rw [List.map_append]
    exact (hleft _ o t r t' h).2

/-! ### Carrying a program out -/

/-- The run of a program on a machine that is a function. -/
def Prog.exec (handle : (o : Op) → σ → Res o × σ) : Prog Res α → σ → List (Event Res σ) × α × σ
  | .ret a, s => ([], a, s)
  | .call o k, s =>
    let (r, s') := handle o s
    let (es, a, u) := (k r).exec handle s'
    (⟨o, s, r, s'⟩ :: es, a, u)

/-- A call, as it is seen through a view of the states. -/
def Event.view (f : σ → τ) (e : Event Res σ) : Event Res τ := ⟨e.op, f e.before, e.result, f e.after⟩

variable {handle : (o : Op) → σ → Res o × σ}

/-- It is a run. -/
theorem Prog.exec_run {f : σ → τ} {step : (o : Op) → τ → Res o → τ → Prop}
    (hstep : ∀ o s, step o (f s) (handle o s).1 (f (handle o s).2)) (p : Prog Res α) (s : σ) :
    Run (Prog.Step step) (p, f s) ((p.exec handle s).1.map (Event.view f))
      (.ret (p.exec handle s).2.1, f (p.exec handle s).2.2) := by
  induction p generalizing s with
  | ret a => exact .nil _
  | call o k ih => exact .cons (.call (hstep o s)) (ih (handle o s).1 (handle o s).2)

/-- One part after the other. -/
theorem Prog.exec_bind (handle : (o : Op) → σ → Res o × σ) (p : Prog Res α)
    (f : α → Prog Res β) (s : σ) : (p >>= f).exec handle s =
      ((p.exec handle s).1 ++ ((f (p.exec handle s).2.1).exec handle (p.exec handle s).2.2).1,
        ((f (p.exec handle s).2.1).exec handle (p.exec handle s).2.2).2) := by
  induction p generalizing s with
  | ret a => rfl
  | call o k ih =>
    have h := ih (handle o s).1 (handle o s).2
    show (_ :: ((k (handle o s).1 >>= f).exec handle (handle o s).2).1,
      ((k (handle o s).1 >>= f).exec handle (handle o s).2).2) = _
    rw [h]
    rfl

/-- One part after the other, from what the first came to. -/
theorem Prog.exec_bind_of {p : Prog Res α} {s t : σ} {a : α} (h : (p.exec handle s).2 = (a, t)) :
    ((p >>= f).exec handle s).2 = ((f a).exec handle t).2 := by
  rw [Prog.exec_bind, h]

theorem Prog.exec_perform (handle : (o : Op) → σ → Res o × σ) (o : Op) (s : σ) :
    (Prog.perform o).exec handle s = ([⟨o, s, (handle o s).1, (handle o s).2⟩], handle o s) := rfl

/-! ### The runs of a program -/

section

variable {a b : α} {es : List (Event Res σ)}

theorem run_ret_iff :
    Run (Prog.Step step) (.ret b, s) es (.ret a, u) ↔ es = [] ∧ a = b ∧ u = s := by
  constructor
  · intro hr
    rcases es with _ | ⟨e, es⟩
    · cases run_nil_iff.1 hr
      exact ⟨rfl, rfl, rfl⟩
    · obtain ⟨_, hstep, -⟩ := run_cons_iff.1 hr
      cases hstep
  · rintro ⟨rfl, rfl, rfl⟩
    exact .nil _

theorem run_call_iff {o : Op} {k : Res o → Prog Res α} :
    Run (Prog.Step step) (.call o k, s) es (.ret a, u) ↔
      ∃ r t fs, es = ⟨o, s, r, t⟩ :: fs ∧ step o s r t ∧
        Run (Prog.Step step) (k r, t) fs (.ret a, u) := by
  constructor
  · intro hr
    rcases es with _ | ⟨e, es⟩
    · cases run_nil_iff.1 hr
    · obtain ⟨_, hstep, hr⟩ := run_cons_iff.1 hr
      cases hstep with
      | call h => exact ⟨_, _, es, rfl, h, hr⟩
  · rintro ⟨r, t, fs, rfl, h, hr⟩
    exact hr.cons (.call h)

/-- A run that is cut off after a call. -/
theorem run_take {c d : Prog Res α × σ} {n : ℕ} {e : Event Res σ}
    (hr : Run (Prog.Step step) c es d) (he : es[n]? = some e) :
    ∃ q, Run (Prog.Step step) c (es.take (n + 1)) (q, e.after) := by
  obtain ⟨h, rfl⟩ := List.getElem?_eq_some_iff.1 he
  have hsplit : es = es.take n ++ es[n] :: es.drop (n + 1) := by
    rw [← List.drop_eq_getElem_cons h, List.take_append_drop]
  rw [hsplit] at hr
  obtain ⟨m, m', h₁, h₂, -⟩ := run_split_iff.1 hr
  rw [List.take_succ_eq_append_getElem h]
  generalize es[n] = e at h₂
  cases h₂ with
  | call hstep => exact ⟨_, h₁.snoc (.call hstep)⟩

/-- One part after the other. -/
theorem run_bind_iff {b : β} :
    Run (Prog.Step step) (p >>= f, s) es (.ret b, u) ↔ ∃ es₁ es₂ a t, es = es₁ ++ es₂ ∧
      Run (Prog.Step step) (p, s) es₁ (.ret a, t) ∧
        Run (Prog.Step step) (f a, t) es₂ (.ret b, u) := by
  constructor
  · intro hr
    induction p generalizing s es with
    | ret a => exact ⟨[], es, a, s, rfl, .nil _, hr⟩
    | call o k ih =>
      obtain ⟨r, t, fs, rfl, h, hk⟩ := run_call_iff.1 hr
      obtain ⟨es₁, es₂, a, t', rfl, h₁, h₂⟩ := ih r hk
      exact ⟨_, es₂, a, t', rfl, h₁.cons (.call h), h₂⟩
  · rintro ⟨es₁, es₂, a, t, rfl, h₁, h₂⟩
    have hfirst : Run (Prog.Step step) (p >>= f, s) (es₁.map id) (f a, t) :=
      h₁.map (fun c : Prog Res α × σ => (c.1 >>= f, c.2)) id fun _ _ _ ⟨hs⟩ => .call hs
    rw [List.map_id] at hfirst
    exact hfirst.append h₂

end

/-! ### What may come of a program -/

/-- Some run of the program returns. -/
def Prog.Ends (step : (o : Op) → σ → Res o → σ → Prop) (p : Prog Res α) (s : σ) (a : α) (u : σ) :
    Prop := ∃ es, Run (Prog.Step step) (p, s) es (.ret a, u)

namespace Prog

variable {t : σ} {a : α} {b : β}

theorem ends_ret : Ends step (.ret a : Prog Res α) s a s := ⟨[], .nil _⟩

theorem ends_pure : Ends step (pure a : Prog Res α) s a s := ends_ret

theorem ends_ret_iff {b : α} : Ends step (.ret b : Prog Res α) s a u ↔ a = b ∧ u = s := by
  unfold Ends
  simp only [run_ret_iff, exists_eq_left]

theorem ends_call_iff {o : Op} {k : Res o → Prog Res α} :
    Ends step (.call o k) s a u ↔ ∃ r t, step o s r t ∧ Ends step (k r) t a u := by
  constructor
  · rintro ⟨es, hr⟩
    obtain ⟨r, t, fs, -, h, hk⟩ := run_call_iff.1 hr
    exact ⟨r, t, h, fs, hk⟩
  · rintro ⟨r, t, h, es, hr⟩
    exact ⟨_, run_call_iff.2 ⟨r, t, es, rfl, h, hr⟩⟩

theorem Ends.call {o : Op} {k : Res o → Prog Res α} {r : Res o} (h : step o s r t)
    (hk : Ends step (k r) t a u) : Ends step (.call o k) s a u := ends_call_iff.2 ⟨r, t, h, hk⟩

theorem ends_perform {o : Op} {r : Res o} (h : step o s r u) : Ends step (perform o) s r u :=
  ends_ret.call h

/-- One part after the other. -/
theorem Ends.bind (h : Ends step p s a t) (hf : Ends step (f a) t b u) :
    Ends step (p >>= f) s b u := by
  obtain ⟨es, hr⟩ := h
  obtain ⟨fs, hr'⟩ := hf
  exact ⟨_, run_bind_iff.2 ⟨es, fs, a, t, rfl, hr, hr'⟩⟩

/-- What is known of the end of a program. -/
theorem Ends.post {Q : α → σ → Prop} (hend : Ends step p s a u)
    (h : Ensures step rely guar p Q s) (hrefl : ∀ s, rely s s) : Q a u := by
  induction p generalizing s with
  | ret b =>
    obtain ⟨rfl, rfl⟩ := ends_ret_iff.1 hend
    exact h
  | call o k ih =>
    obtain ⟨r, t, hstep, hk⟩ := ends_call_iff.1 hend
    exact ih r hk (h s (hrefl s) r t hstep).2

/-- On a machine that is a function there is one end. -/
theorem ends_iff_exec :
    Ends (fun o s r s' => (r, s') = handle o s) p s a u ↔ (p.exec handle s).2 = (a, u) := by
  induction p generalizing s with
  | ret b =>
    rw [ends_ret_iff]
    constructor
    · rintro ⟨rfl, rfl⟩
      rfl
    · rintro ⟨⟩
      exact ⟨rfl, rfl⟩
  | call o k ih =>
    rw [ends_call_iff]
    constructor
    · rintro ⟨r, t, hstep, hk⟩
      show ((k (handle o s).1).exec handle (handle o s).2).2 = _
      rw [← hstep]
      exact (ih r).1 hk
    · intro h
      exact ⟨_, _, rfl, (ih _).2 h⟩

end Prog

/-- A program that calls what a machine answers as a function does what it does there. -/
theorem Calls.ends {P : Op → Prop} {R : α → Prop} {handle : (o : Op) → τ → Res o × τ} {f : τ → σ}
    (h : Calls P p R)
    (hstep : ∀ o, P o → ∀ t, step o (f t) (handle o t).1 (f (handle o t).2)) (t : τ) :
    Prog.Ends step p (f t) (p.exec handle t).2.1 (f (p.exec handle t).2.2) := by
  induction p generalizing t with
  | ret a => exact Prog.ends_ret
  | call o k ih =>
    obtain ⟨hP, hk⟩ := h () trivial (handle o t).1 () trivial
    exact Prog.Ends.call (hstep o hP t) (ih _ hk _)

/-- What it returns is as it may return. -/
theorem Calls.result {P : Op → Prop} {R : α → Prop} (h : Calls P p R)
    (handle : (o : Op) → τ → Res o × τ) (t : τ) : R (p.exec handle t).2.1 := by
  induction p generalizing t with
  | ret a => exact h
  | call o k ih => exact ih _ (h () trivial (handle o t).1 () trivial).2 _

section

variable {stepL stepR : (o : Op) → σ → Res o → σ → Prop} {q : Prog Res β} {a : α} {b : β}

/-- The one program goes on while the other waits. -/
theorem Prog.Ends.left (h : Prog.Ends stepL p s a u) (q : Prog Res β) :
    ∃ es, Run (Interleave stepL stepR) ((p, q), s) es ((.ret a, q), u) := by
  obtain ⟨es, hr⟩ := h
  exact ⟨_, hr.map (fun c : Prog Res α × σ => ((c.1, q), c.2)) Sum.inl fun _ _ _ ⟨hs⟩ => .left hs⟩

theorem Prog.Ends.right (h : Prog.Ends stepR q s b u) (p : Prog Res α) :
    ∃ es, Run (Interleave stepL stepR) ((p, q), s) es ((p, .ret b), u) := by
  obtain ⟨es, hr⟩ := h
  exact ⟨_, hr.map (fun c : Prog Res β × σ => ((p, c.1), c.2)) Sum.inr fun _ _ _ ⟨hs⟩ => .right hs⟩

/-- **Two programs that do not meet.**  If each machine answers in one way, and the calls of the
two can be taken in either order, then so can the steps. -/
theorem Interleave.diamond
    (hleft : ∀ o s r t r' t', stepL o s r t → stepL o s r' t' → r = r' ∧ t = t')
    (hright : ∀ o s r t r' t', stepR o s r t → stepR o s r' t' → r = r' ∧ t = t')
    (hboth : ∀ o o' s r t r' t', stepL o s r t → stepR o' s r' t' →
      ∃ u, stepR o' t r' u ∧ stepL o t' r u)
    (c : (Prog Res α × Prog Res β) × σ) (e : Event Res σ ⊕ Event Res σ)
    (d : (Prog Res α × Prog Res β) × σ) (e' : Event Res σ ⊕ Event Res σ)
    (d' : (Prog Res α × Prog Res β) × σ) (h : Interleave stepL stepR c e d)
    (h' : Interleave stepL stepR c e' d') :
    d = d' ∨ ∃ f f' u, Interleave stepL stepR d f u ∧ Interleave stepL stepR d' f' u := by
  cases h with
  | left h =>
    cases h' with
    | left h' =>
      obtain ⟨rfl, rfl⟩ := hleft _ _ _ _ _ _ h h'
      exact Or.inl rfl
    | right h' =>
      obtain ⟨u, hu, hu'⟩ := hboth _ _ _ _ _ _ _ h h'
      exact Or.inr ⟨_, _, _, .right hu, .left hu'⟩
  | right h =>
    cases h' with
    | left h' =>
      obtain ⟨u, hu, hu'⟩ := hboth _ _ _ _ _ _ _ h' h
      exact Or.inr ⟨_, _, _, .left hu', .right hu⟩
    | right h' =>
      obtain ⟨rfl, rfl⟩ := hright _ _ _ _ _ _ h h'
      exact Or.inl rfl

end

/-! ### Carrying two programs out -/

/-- The run of two programs in a given order, each on its machine; a program that has returned
lets its turns pass. -/
def Interleave.exec (left right : (o : Op) → σ → Res o × σ) : List Bool → Prog Res α →
    Prog Res β → σ → List (Event Res σ ⊕ Event Res σ) × (Prog Res α × Prog Res β) × σ
  | [], p, q, s => ([], (p, q), s)
  | true :: order, .call o k, q, s =>
    let (r, s') := left o s
    let (es, c) := Interleave.exec left right order (k r) q s'
    (.inl ⟨o, s, r, s'⟩ :: es, c)
  | false :: order, p, .call o k, s =>
    let (r, s') := right o s
    let (es, c) := Interleave.exec left right order p (k r) s'
    (.inr ⟨o, s, r, s'⟩ :: es, c)
  | true :: order, .ret a, q, s => Interleave.exec left right order (.ret a) q s
  | false :: order, p, .ret b, s => Interleave.exec left right order p (.ret b) s

/-- It is a run. -/
theorem Interleave.exec_run {left right : (o : Op) → σ → Res o × σ} {f : σ → τ}
    {stepL stepR : (o : Op) → τ → Res o → τ → Prop}
    (hleft : ∀ o s, stepL o (f s) (left o s).1 (f (left o s).2))
    (hright : ∀ o s, stepR o (f s) (right o s).1 (f (right o s).2)) (order : List Bool)
    (p : Prog Res α) (q : Prog Res β) (s : σ) : Run (Interleave stepL stepR) ((p, q), f s)
      ((Interleave.exec left right order p q s).1.map (Sum.map (Event.view f) (Event.view f)))
      ((Interleave.exec left right order p q s).2.1,
        f (Interleave.exec left right order p q s).2.2) := by
  induction order generalizing p q s with
  | nil => exact .nil _
  | cons b order ih =>
    cases b with
    | true =>
      cases p with
      | ret a => exact ih (.ret a) q s
      | call o k => exact .cons (.left (hleft o s)) (ih (k (left o s).1) q (left o s).2)
    | false =>
      cases q with
      | ret b =>
        have h := ih p (.ret b) s
        cases p <;> exact h
      | call o k =>
        have h := ih p (k (right o s).1) (right o s).2
        cases p <;> exact .cons (.right (hright o s)) h

/-! ### A program that is disturbed -/

section Disturbed

/-- A program makes its next call, or the others take a step. -/
inductive Prog.Disturbed (step : (o : Op) → σ → Res o → σ → Prop) (other : σ → ε → σ → Prop) :
    Prog Res α × σ → Event Res σ ⊕ ε → Prog Res α × σ → Prop
  | own {o : Op} {k : Res o → Prog Res α} {s t : σ} {r : Res o} (h : step o s r t) :
      Prog.Disturbed step other (.call o k, s) (.inl ⟨o, s, r, t⟩) (k r, t)
  | other {p : Prog Res α} {s t : σ} {e : ε} (h : other s e t) :
      Prog.Disturbed step other (p, s) (.inr e) (p, t)

variable {ε : Type} {step : (o : Op) → σ → Res o → σ → Prop} {other : σ → ε → σ → Prop}
  {rely : σ → σ → Prop} {guar : (o : Op) → σ → Res o → σ → Prop} {p q : Prog Res α} {Q : α → σ → Prop} {s t : σ}
  {es : List (Event Res σ ⊕ ε)}

/-- **What is left of a program**, after calls of its own and steps of others. -/
theorem Ensures.disturbed (h : Ensures step rely guar p Q s) (hrefl : ∀ s, rely s s)
    (htrans : ∀ {s t u}, rely s t → rely t u → rely s u)
    (hother : ∀ {s t e}, other s e t → rely s t) (hpost : ∀ {a s t}, Q a s → rely s t → Q a t)
    (hr : Run (Prog.Disturbed step other) (p, s) es (q, t)) : Ensures step rely guar q Q t := by
  refine hr.invariant (I := fun _ c => Ensures step rely guar c.1 Q c.2) h ?_
  rintro es c e d hc (hown | hdisturb)
  · exact (hc _ (hrefl _) _ _ hown).2
  · exact hc.interfere (hother hdisturb) htrans fun _ hQ => hpost hQ (hother hdisturb)

/-- A run of the program alone is one in which the others do nothing. -/
theorem Prog.disturbed_of_run {es : List (Event Res σ)}
    (hr : Run (Prog.Step step) (p, s) es (q, t)) :
    Run (Prog.Disturbed step other) (p, s) (es.map Sum.inl) (q, t) :=
  hr.map (fun c => c) Sum.inl fun _ _ _ ⟨hs⟩ => .own hs

end Disturbed

end KfswServices.Library
