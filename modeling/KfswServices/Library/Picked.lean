/-
# Taking the first again and again

`Picked cand before n xs`: the list `xs` is what comes of taking the first of the candidates, then
the first of the others, and so on, `n` times or until there is none.  Whoever is before one that
was taken was taken earlier (`Picked.mem_of_before`), so an item is taken exactly if fewer than `n`
candidates are before it (`Picked.mem_iff`), and what holds of the items in the order they are taken
in is what holds of an item and those before it (`Picked.pairwise_iff`).
-/

import Mathlib.Data.List.Perm.Subperm

namespace KfswServices.Library

variable {α : Type*}

/-- The first of the candidates, `n` of them or all. -/
structure Picked (cand : α → Prop) (before : α → α → Prop) (n : ℕ) (xs : List α) : Prop where
  sorted : xs.Pairwise before
  mem : ∀ a ∈ xs, cand a
  length_le : xs.length ≤ n
  rest : ∀ b, cand b → b ∉ xs → xs.length = n ∧ ∀ a ∈ xs, before a b

namespace Picked

variable {cand cand' : α → Prop} {before before' : α → α → Prop} {n : ℕ} {xs : List α} {a b : α}

theorem zero : Picked cand before 0 [] :=
  ⟨.nil, by simp, Nat.le_refl 0, fun _ _ _ => ⟨rfl, by simp⟩⟩

theorem none (h : ∀ a, ¬ cand a) : Picked cand before n [] :=
  ⟨.nil, by simp, Nat.zero_le n, fun b hb => absurd hb (h b)⟩

/-- The first, and then the first of the others. -/
theorem cons (ha : cand a) (hfirst : ∀ b, cand b → b ≠ a → before a b)
    (hcand : ∀ b, cand' b ↔ cand b ∧ b ≠ a) (hbefore : ∀ b c, before' b c → before b c)
    (h : Picked cand' before' n xs) : Picked cand before (n + 1) (a :: xs) := by
  refine ⟨?_, ?_, Nat.succ_le_succ h.length_le, ?_⟩
  · rw [List.pairwise_cons]
    refine ⟨fun b hb => ?_, h.sorted.imp (hbefore _ _)⟩
    obtain ⟨hcb, hne⟩ := (hcand b).1 (h.mem b hb)
    exact hfirst b hcb hne
  · rw [List.forall_mem_cons]
    exact ⟨ha, fun b hb => ((hcand b).1 (h.mem b hb)).1⟩
  · intro b hb hnot
    rw [List.mem_cons, not_or] at hnot
    obtain ⟨hlen, hall⟩ := h.rest b ((hcand b).2 ⟨hb, hnot.1⟩) hnot.2
    rw [List.length_cons, hlen, List.forall_mem_cons]
    exact ⟨rfl, hfirst b hb hnot.1, fun c hc => hbefore _ _ (hall c hc)⟩

/-- Whoever is before one that was taken was taken as well. -/
theorem mem_of_before (h : Picked cand before n xs) (hasymm : ∀ a b, before a b → ¬ before b a)
    (ha : cand a) (hb : b ∈ xs) (hab : before a b) : a ∈ xs := by
  by_contra hno
  exact hasymm a b hab ((h.rest a ha hno).2 b hb)

/-- **Order of taking.** -/
theorem pairwise_iff (h : Picked cand before n xs) (hasymm : ∀ a b, before a b → ¬ before b a)
    (hcand : ∀ a b, before a b → cand a) {P : α → α → Prop} :
    xs.Pairwise P ↔ ∀ a b, b ∈ xs → before a b → P a b := by
  constructor
  · intro hP a b hb hab
    have ha := h.mem_of_before hasymm (hcand a b hab) hb hab
    obtain ⟨front, back, rfl⟩ := List.append_of_mem hb
    rcases List.mem_append.1 ha with ha | ha
    · exact (List.pairwise_append.1 hP).2.2 a ha b (List.mem_cons_self ..)
    · rcases List.mem_cons.1 ha with rfl | ha
      · exact absurd hab (hasymm _ _ hab)
      · have hba := (List.pairwise_cons.1 (List.pairwise_append.1 h.sorted).2.1).1 a ha
        exact absurd hba (hasymm _ _ hab)
  · intro hall
    refine h.sorted.imp_of_mem fun _ hb hab => hall _ _ hb hab

/-- **Who is taken**: a candidate with fewer than `n` before it. -/
theorem mem_iff (h : Picked cand before n xs) (hasymm : ∀ a b, before a b → ¬ before b a)
    (hcand : ∀ a b, before a b → cand a) [DecidableRel before] {all : List α}
    (hall : ∀ a, cand a → a ∈ all) (hnodup : all.Nodup) :
    b ∈ xs ↔ cand b ∧ all.countP (fun a => before a b) < n := by
  have hdistinct : xs.Nodup := by
    refine h.sorted.imp fun {a b} hab heq => ?_
    subst heq
    exact hasymm a a hab hab
  rw [List.countP_eq_length_filter]
  constructor
  · intro hb
    refine ⟨h.mem b hb, ?_⟩
    obtain ⟨front, back, hxs⟩ := List.append_of_mem hb
    have hsub : all.filter (fun a => before a b) ⊆ front := by
      intro a ha
      have hab : before a b := by simpa using (List.mem_filter.1 ha).2
      have hmem := h.mem_of_before hasymm (hcand a b hab) hb hab
      rw [hxs] at hmem
      rcases List.mem_append.1 hmem with hfront | hback
      · exact hfront
      · exfalso
        rcases List.mem_cons.1 hback with rfl | hback
        · exact hasymm _ _ hab hab
        · have hsorted := h.sorted
          rw [hxs] at hsorted
          have hba := (List.pairwise_cons.1 (List.pairwise_append.1 hsorted).2.1).1 a hback
          exact hasymm _ _ hab hba
    have hle := (List.subperm_of_subset (hnodup.filter _) hsub).length_le
    have hlen := h.length_le
    rw [hxs, List.length_append, List.length_cons] at hlen
    omega
  · rintro ⟨hb, hlt⟩
    by_contra hno
    obtain ⟨hlen, hfirst⟩ := h.rest b hb hno
    have hsub : xs ⊆ all.filter (fun a => before a b) := by
      intro a ha
      exact List.mem_filter.2 ⟨hall a (h.mem a ha), by simpa using hfirst a ha⟩
    have hle := (List.subperm_of_subset hdistinct hsub).length_le
    omega

end Picked

end KfswServices.Library
