/-
# What a deterministic machine reaches

`Reaches f P s` says that the machine `f`, started in `s`, comes to a state in `P`.
Such facts compose (`Reaches.bind`), so that a long run is put together from the runs
of its phases, and two outcomes that the machine does not leave exclude each other
when their states do (`Reaches.meet`).
-/

import Mathlib.Logic.Function.Iterate

namespace KfswServices.Library

variable {σ : Type*} {f : σ → σ} {P Q : σ → Prop} {s : σ}

/-- The machine comes to a state in `P`. -/
def Reaches (f : σ → σ) (P : σ → Prop) (s : σ) : Prop := ∃ n, P (f^[n] s)

namespace Reaches

theorem now (h : P s) : Reaches f P s := ⟨0, h⟩

/-- One step before. -/
theorem next (h : Reaches f P (f s)) : Reaches f P s := by
  obtain ⟨n, hn⟩ := h
  exact ⟨n + 1, by rwa [Function.iterate_succ_apply]⟩

/-- **Phases compose.** -/
theorem bind (h : Reaches f P s) (hPQ : ∀ t, P t → Reaches f Q t) : Reaches f Q s := by
  obtain ⟨n, hn⟩ := h
  obtain ⟨m, hm⟩ := hPQ _ hn
  exact ⟨m + n, by rwa [Function.iterate_add_apply]⟩

theorem mono (h : Reaches f P s) (hPQ : ∀ t, P t → Q t) : Reaches f Q s :=
  h.bind fun t ht => now (hPQ t ht)

/-- What the machine does not leave, it is in from then on. -/
theorem iterate_of_closed (hP : ∀ t, P t → P (f t)) (h : P s) (n : ℕ) : P (f^[n] s) := by
  induction n with
  | zero => exact h
  | succ n ih =>
    rw [Function.iterate_succ_apply']
    exact hP _ ih

/-- **Two outcomes the machine does not leave** are met in one state. -/
theorem meet (hP : ∀ t, P t → P (f t)) (hQ : ∀ t, Q t → Q (f t)) (h₁ : Reaches f P s)
    (h₂ : Reaches f Q s) : ∃ t, P t ∧ Q t := by
  obtain ⟨n, hn⟩ := h₁
  obtain ⟨m, hm⟩ := h₂
  refine ⟨f^[m + n] s, ?_, ?_⟩
  · rw [Function.iterate_add_apply]
    exact iterate_of_closed hP hn m
  · rw [Nat.add_comm, Function.iterate_add_apply]
    exact iterate_of_closed hQ hm n

end Reaches

end KfswServices.Library
