/-
# Finite runs of a labelled transition relation

`Run step s es t` says that the labels `es`, taken in order, lead from `s` to
`t`.  Labels carry what a step is observed to do, so a property of a whole run
is a property of its list of labels.

Runs grow at their end, which is how an invariant over a history is proved:
`Run.invariant` asks for the empty history and for one more step.  `run_append_iff` cuts
a run at any point, for statements about what happens after an event.

`Concludes` says that whatever order the steps are taken in, the same end is reached; one run to
the end shows it, where two steps from one state can be taken one after the other
(`Run.concludes`).

For a machine that is a function, `foldl_prefixes_iff` says that a property holds all along
a run exactly when no step breaks it; `follow` carries out a script, whose items are taken one after
the other until one ends it or they run out.
-/

import Mathlib.Data.List.Basic
import Mathlib.Logic.Relation

namespace KfswServices.Library

variable {σ ε : Type*}

/-- The labels `es` lead from `s` to `t`. -/
inductive Run (step : σ → ε → σ → Prop) : σ → List ε → σ → Prop
  | nil (s : σ) : Run step s [] s
  | snoc {s t u : σ} {es : List ε} {e : ε} :
      Run step s es t → step t e u → Run step s (es ++ [e]) u

namespace Run

variable {step : σ → ε → σ → Prop} {s t u : σ} {es fs : List ε} {e : ε}

/-- **Invariance over histories.**  What holds of the empty history and is kept
by one more step holds of every run. -/
theorem invariant {I : List ε → σ → Prop} (hr : Run step s es t) (h0 : I [] s)
    (hstep : ∀ es t e u, I es t → step t e u → I (es ++ [e]) u) : I es t := by
  induction hr with
  | nil => exact h0
  | snoc _ hs ih => exact hstep _ _ _ _ ih hs

/-- A run under fewer steps is a run. -/
theorem mono {step' : σ → ε → σ → Prop} (hr : Run step s es t)
    (h : ∀ s e t, step s e t → step' s e t) : Run step' s es t := by
  induction hr with
  | nil => exact .nil _
  | snoc _ hs ih => exact ih.snoc (h _ _ _ hs)

/-- A run whose labels are all of a kind. -/
theorem restrict {P : ε → Prop} (hr : Run step s es t) (h : ∀ e ∈ es, P e) :
    Run (fun s e t => step s e t ∧ P e) s es t := by
  induction hr with
  | nil => exact .nil _
  | snoc _ hs ih =>
    exact (ih fun e he => h e (List.mem_append_left _ he)).snoc ⟨hs, h _ (by simp)⟩

/-- A run, seen through a view of the states and of the labels. -/
theorem map {σ' ε' : Type*} {step' : σ' → ε' → σ' → Prop} (f : σ → σ') (g : ε → ε')
    (hr : Run step s es t) (h : ∀ s e t, step s e t → step' (f s) (g e) (f t)) :
    Run step' (f s) (es.map g) (f t) := by
  induction hr with
  | nil => exact .nil _
  | snoc _ hs ih =>
    rw [List.map_append]
    exact ih.snoc (h _ _ _ hs)

/-- A run of one step. -/
theorem single (h : step s e t) : Run step s [e] t := .snoc (.nil s) h

/-- Runs compose. -/
theorem append (h₁ : Run step s es t) (h₂ : Run step t fs u) : Run step s (es ++ fs) u := by
  induction h₂ with
  | nil => simpa using h₁
  | snoc _ hs ih => rw [← List.append_assoc]; exact ih.snoc hs

/-- A step before a run. -/
theorem cons (h : step s e t) (hr : Run step t es u) : Run step s (e :: es) u :=
  (single h).append hr

end Run

/-- **A run can be cut anywhere.** -/
theorem run_append_iff {step : σ → ε → σ → Prop} {s u : σ} {es fs : List ε} :
    Run step s (es ++ fs) u ↔ ∃ t, Run step s es t ∧ Run step t fs u := by
  refine ⟨fun h => ?_, fun ⟨_, h₁, h₂⟩ => h₁.append h₂⟩
  generalize hl : es ++ fs = l at h
  induction h generalizing fs with
  | nil =>
    obtain ⟨rfl, rfl⟩ := List.append_eq_nil_iff.1 hl
    exact ⟨s, .nil s, .nil s⟩
  | @snoc t u l e hr hs ih =>
    rcases List.eq_nil_or_concat fs with rfl | ⟨fs, f, rfl⟩
    · rw [List.append_nil] at hl
      exact ⟨u, hl ▸ hr.snoc hs, .nil u⟩
    · rw [List.concat_eq_append, ← List.append_assoc] at hl
      obtain ⟨hl, he⟩ := List.append_inj' hl rfl
      obtain ⟨m, h₁, h₂⟩ := ih hl
      rw [List.concat_eq_append]
      exact ⟨m, h₁, h₂.snoc (List.singleton_inj.1 he ▸ hs)⟩

/-- The last step of a run. -/
theorem run_snoc_iff {step : σ → ε → σ → Prop} {s u : σ} {es : List ε} {e : ε} :
    Run step s (es ++ [e]) u ↔ ∃ t, Run step s es t ∧ step t e u := by
  refine ⟨fun h => ?_, fun ⟨_, h₁, h₂⟩ => h₁.snoc h₂⟩
  generalize hl : es ++ [e] = l at h
  cases h with
  | nil => simp at hl
  | snoc hr hs =>
    obtain ⟨rfl, he⟩ := List.append_inj' hl rfl
    exact ⟨_, hr, List.singleton_inj.1 he ▸ hs⟩

/-- A run without steps. -/
theorem run_nil_iff {step : σ → ε → σ → Prop} {s t : σ} : Run step s [] t ↔ t = s := by
  constructor
  · intro h
    generalize hl : ([] : List ε) = l at h
    cases h with
    | nil => rfl
    | snoc => simp at hl
  · rintro rfl
    exact .nil t

/-- The first step of a run. -/
theorem run_cons_iff {step : σ → ε → σ → Prop} {s u : σ} {e : ε} {es : List ε} :
    Run step s (e :: es) u ↔ ∃ t, step s e t ∧ Run step t es u := by
  refine ⟨fun h => ?_, fun ⟨_, h₁, h₂⟩ => h₂.cons h₁⟩
  obtain ⟨t, h₁, h₂⟩ := run_append_iff.1 (show Run step s ([e] ++ es) u from h)
  obtain ⟨m, hm, hs⟩ := run_snoc_iff.1 (show Run step s ([] ++ [e]) t from h₁)
  obtain rfl := run_nil_iff.1 hm
  exact ⟨t, hs, h₂⟩

/-- What happens at one point of a run: the states around the step. -/
theorem run_split_iff {step : σ → ε → σ → Prop} {s u : σ} {e : ε} {es fs : List ε} :
    Run step s (es ++ e :: fs) u ↔ ∃ m m', Run step s es m ∧ step m e m' ∧ Run step m' fs u := by
  rw [run_append_iff]
  simp only [run_cons_iff]
  constructor
  · rintro ⟨m, h₁, m', h₂, h₃⟩
    exact ⟨m, m', h₁, h₂, h₃⟩
  · rintro ⟨m, m', h₁, h₂, h₃⟩
    exact ⟨m, h₁, m', h₂, h₃⟩

/-- **One end**, whatever steps are taken: nothing goes on from it, and from wherever a run has
come to it is still reached. -/
def Concludes (step : σ → ε → σ → Prop) (s u : σ) : Prop :=
  (∀ e u', ¬ step u e u') ∧ ∀ es t, Run step s es t → ∃ fs, Run step t fs u

section

variable {step : σ → ε → σ → Prop} {s t u : σ} {es : List ε}

theorem run_iff_reflTransGen :
    (∃ es, Run step s es t) ↔ Relation.ReflTransGen (fun s t => ∃ e, step s e t) s t := by
  constructor
  · rintro ⟨es, hr⟩
    induction hr with
    | nil => exact .refl
    | snoc _ hs ih => exact ih.tail ⟨_, hs⟩
  · intro h
    induction h with
    | refl => exact ⟨[], .nil s⟩
    | tail _ hs ih =>
      obtain ⟨es, hr⟩ := ih
      obtain ⟨e, he⟩ := hs
      exact ⟨es ++ [e], hr.snoc he⟩

/-- A run to the end is every run, if two steps from one state lead to one state, or can be
followed by a step each to one state. -/
theorem Run.concludes (hr : Run step s es u) (hend : ∀ e u', ¬ step u e u')
    (hdiamond : ∀ s e t e' t', step s e t → step s e' t' →
      t = t' ∨ ∃ f f' u, step t f u ∧ step t' f' u) : Concludes step s u := by
  refine ⟨hend, fun es t ht => ?_⟩
  have hstep : ∀ a b c, (∃ e, step a e b) → (∃ e, step a e c) →
      ∃ d, Relation.ReflGen (fun s t => ∃ e, step s e t) b d ∧
        Relation.ReflTransGen (fun s t => ∃ e, step s e t) c d := by
    rintro a b c ⟨e, he⟩ ⟨e', he'⟩
    rcases hdiamond a e b e' c he he' with rfl | ⟨f, f', d, hb, hc⟩
    · exact ⟨b, .refl, .refl⟩
    · exact ⟨d, .single ⟨f, hb⟩, .single ⟨f', hc⟩⟩
  obtain ⟨v, hu, hv⟩ := Relation.church_rosser hstep (run_iff_reflTransGen.1 ⟨_, hr⟩)
    (run_iff_reflTransGen.1 ⟨_, ht⟩)
  rcases hu.cases_head with rfl | ⟨w, ⟨e, he⟩, -⟩
  · exact run_iff_reflTransGen.2 hv
  · exact absurd he (hend e w)

/-- There is no other end. -/
theorem Concludes.unique {v : σ} (h : Concludes step s u) (h' : Concludes step s v) : u = v := by
  obtain ⟨fs, hr⟩ := h.2 [] s (.nil s)
  obtain ⟨gs, hr'⟩ := h'.2 fs u hr
  rcases gs with _ | ⟨g, gs⟩
  · exact (run_nil_iff.1 hr').symm
  · obtain ⟨_, hstep, -⟩ := run_cons_iff.1 hr'
    exact absurd hstep (h.1 _ _)

end

/-- The last label of a kind cuts a history in one way. -/
theorem last_split_unique {p : ε → Prop} {as bs as' bs' : List ε} {x x' : ε}
    (h : as ++ x :: bs = as' ++ x' :: bs') (hx : p x) (hx' : p x') (hbs : ∀ y ∈ bs, ¬ p y)
    (hbs' : ∀ y ∈ bs', ¬ p y) : as = as' ∧ x = x' ∧ bs = bs' := by
  rcases List.append_eq_append_iff.1 h with ⟨c, hc, hsplit⟩ | ⟨c, hc, hsplit⟩
  · rcases c with _ | ⟨y, c⟩
    · obtain ⟨rfl, rfl⟩ := List.cons.inj hsplit
      exact ⟨by simpa using hc.symm, rfl, rfl⟩
    · have hmem : x' ∈ bs := by
        rw [(List.cons.inj hsplit).2]
        simp
      exact absurd hx' (hbs x' hmem)
  · rcases c with _ | ⟨y, c⟩
    · obtain ⟨rfl, rfl⟩ := List.cons.inj hsplit
      exact ⟨by simpa using hc, rfl, rfl⟩
    · have hmem : x ∈ bs' := by
        rw [(List.cons.inj hsplit).2]
        simp
      exact absurd hx (hbs' x hmem)

/-- **Where a property holds all along.**  If `P` follows from an invariant that the steps in `K`
keep, and every other step ends outside `P`, then a run is in `P` throughout exactly when all
its steps are in `K`. -/
theorem foldl_prefixes_iff {step : σ → ε → σ} {I P : σ → Prop} {K : σ → ε → Prop}
    (hP : ∀ s, I s → P s) (hkeep : ∀ s e, I s → K s e → I (step s e))
    (hbreak : ∀ s e, I s → ¬ K s e → ¬ P (step s e)) (es : List ε) : ∀ s, I s →
      ((∀ before, before <+: es → P (before.foldl step s)) ↔
        ∀ before e, before ++ [e] <+: es → K (before.foldl step s) e) := by
  induction es with
  | nil =>
    intro s hs
    refine iff_of_true (fun before hb => ?_) fun before e hb => ?_
    · rw [List.prefix_nil.1 hb]
      exact hP s hs
    · simp at hb
  | cons e es ih =>
    intro s hs
    constructor
    · intro h before e' hb
      have he : K s e := by
        by_contra hk
        exact hbreak s e hs hk (h [e] (by simp))
      rcases before with _ | ⟨b, before⟩
      · obtain ⟨rfl, -⟩ := List.cons_prefix_cons.1 hb
        exact he
      · obtain ⟨rfl, htail⟩ := List.cons_prefix_cons.1 hb
        refine (ih _ (hkeep s _ hs he)).1 (fun pre hpre => ?_) before e' htail
        exact h (b :: pre) (List.cons_prefix_cons.2 ⟨rfl, hpre⟩)
    · intro h before hb
      rcases before with _ | ⟨b, before⟩
      · exact hP s hs
      · obtain ⟨rfl, htail⟩ := List.cons_prefix_cons.1 hb
        refine (ih _ (hkeep s _ hs (h [] b (by simp)))).2 (fun pre e' hpre => ?_) before htail
        exact h (b :: pre) e' (List.cons_prefix_cons.2 ⟨rfl, hpre⟩)

/-! ### Carrying out a script -/

section Script

variable {ι σ α : Type*} {step : ι → σ → α × σ × Bool} {close : σ → List α × σ}

/-- The run of a script. -/
def follow (step : ι → σ → α × σ × Bool) (close : σ → List α × σ) : List ι → σ → List α × σ
  | [], s => close s
  | i :: rest, s =>
    match step i s with
    | (act, s, true) => (act :: (follow step close rest s).1, (follow step close rest s).2)
    | (act, s, false) => ([act], s)

@[simp] theorem follow_nil (s : σ) : follow step close [] s = close s := rfl

/-- An item that does not end the script. -/
theorem follow_go {i : ι} {s s' : σ} {act : α} (h : step i s = (act, s', true)) (rest : List ι) :
    follow step close (i :: rest) s =
      (act :: (follow step close rest s').1, (follow step close rest s').2) := by
  rw [follow, h]

/-- An item that ends the script. -/
theorem follow_stop {i : ι} {s s' : σ} {act : α} (h : step i s = (act, s', false))
    (rest : List ι) : follow step close (i :: rest) s = ([act], s') := by
  rw [follow, h]

/-- The first act is the first step's. -/
theorem follow_head (i : ι) (rest : List ι) (s : σ) :
    (follow step close (i :: rest) s).1.head? = some (step i s).1 := by
  rw [follow]
  rcases step i s with ⟨act, s', _ | _⟩ <;> rfl

end Script

end KfswServices.Library
