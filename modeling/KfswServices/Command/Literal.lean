/-
# Integer literals

What `strtol` takes whole, as a language: white space, an optional sign, and an integer constant of
C without a suffix, in decimal, octal or hexadecimal (`strtol_iff`).  A comma ends what it takes,
wherever the comma stands (`strtol_comma`).
-/

import KfswServices.Command.Parse

namespace KfswServices.Command

/-! ### The language -/

/-- An integer constant without a suffix, and its value. -/
inductive Constant : List UInt8 → ℕ → Prop
  | decimal {d : UInt8} {ds : List UInt8} : d ≠ 48 → (∀ c ∈ d :: ds, isDigit 10 c = true) →
      Constant (d :: ds) (digitsValue 10 (d :: ds))
  | octal {ds : List UInt8} : (∀ c ∈ ds, isDigit 8 c = true) →
      Constant (48 :: ds) (digitsValue 8 ds)
  | hexadecimal {x : UInt8} {ds : List UInt8} : (x = 120 ∨ x = 88) → ds ≠ [] →
      (∀ c ∈ ds, isDigit 16 c = true) → Constant (48 :: x :: ds) (digitsValue 16 ds)

/-- An integer literal with white space before it and an optional sign, and its value. -/
inductive Literal : List UInt8 → ℤ → Prop
  | unsigned {gap constant : List UInt8} {n : ℕ} : (∀ c ∈ gap, isSpace c = true) →
      Constant constant n → Literal (gap ++ constant) n
  | plus {gap constant : List UInt8} {n : ℕ} : (∀ c ∈ gap, isSpace c = true) →
      Constant constant n → Literal (gap ++ 43 :: constant) n
  | minus {gap constant : List UInt8} {n : ℕ} : (∀ c ∈ gap, isSpace c = true) →
      Constant constant n → Literal (gap ++ 45 :: constant) (-n)

/-! ### Digits -/

theorem isDigit_mono {a b : ℕ} (h : a ≤ b) {c : UInt8} (hc : isDigit a c = true) :
    isDigit b c = true := by
  unfold isDigit at hc ⊢
  cases hd : digitValue c with
  | none =>
    rw [hd] at hc
    exact hc
  | some d =>
    rw [hd] at hc
    have hlt : d < a := of_decide_eq_true hc
    exact decide_eq_true (by omega)

theorem le_of_isDigit {c : UInt8} (h : isDigit 16 c = true) : 48 ≤ c := by
  unfold isDigit digitValue at h
  split_ifs at h with hdecimal hlower hupper
  · exact hdecimal.1
  · exact UInt8.le_trans (by decide : (48 : UInt8) ≤ 97) hlower.1
  · exact UInt8.le_trans (by decide : (48 : UInt8) ≤ 65) hupper.1

/-- A digit is neither white space nor a sign. -/
theorem digit_start {c : UInt8} (h : isDigit 16 c = true) :
    isSpace c = false ∧ c ≠ 45 ∧ c ≠ 43 := by
  have hle := le_of_isDigit h
  have hspace : isSpace c = false := by
    have hblank : c ≠ 32 := by
      rintro rfl
      exact absurd hle (by decide)
    have habove : ¬ c ≤ 13 := fun hc => absurd (UInt8.le_trans hle hc) (by decide)
    simp [isSpace, hblank, habove]
  refine ⟨hspace, ?_, ?_⟩
  · rintro rfl
    exact absurd hle (by decide)
  · rintro rfl
    exact absurd hle (by decide)

variable {text : List UInt8}

/-- A constant begins with a digit. -/
theorem Constant.head {n : ℕ} (h : Constant text n) :
    ∃ c rest, text = c :: rest ∧ isDigit 16 c = true := by
  cases h with
  | decimal _ hds => exact ⟨_, _, rfl, isDigit_mono (by omega) (hds _ (List.mem_cons_self ..))⟩
  | octal _ => exact ⟨_, _, rfl, by decide⟩
  | hexadecimal _ _ _ => exact ⟨_, _, rfl, by decide⟩

/-! ### What `strtol` takes -/

/-- The conversion behind the sign. -/
def number (text : List UInt8) : Option (ℕ × List UInt8) :=
  let (base, body) := splitBase text
  if body.takeWhile (isDigit base) = [] then none
  else some (digitsValue base (body.takeWhile (isDigit base)), body.dropWhile (isDigit base))

theorem strtol_eq (text : List UInt8) :
    strtol text = (number (splitSign (text.dropWhile isSpace)).2).map fun (n, rest) =>
      (if (splitSign (text.dropWhile isSpace)).1 then -(n : ℤ) else n, rest) := by
  unfold strtol number
  dsimp only
  split_ifs <;> rfl

/-- The digits of a base, when nothing is behind them. -/
theorem digits_whole {base : ℕ} {body : List UInt8} (h : body.dropWhile (isDigit base) = []) :
    (∀ c ∈ body, isDigit base c = true) ∧ body.takeWhile (isDigit base) = body := by
  have hall : ∀ c ∈ body, isDigit base c = true := List.dropWhile_eq_nil_iff.1 h
  exact ⟨hall, List.takeWhile_eq_self_iff.2 hall⟩

/-- A base and its digits, the digits whole. -/
theorem number_of_split {body : List UInt8} {base : ℕ} (h : splitBase text = (base, body))
    (hne : body ≠ []) (hall : ∀ c ∈ body, isDigit base c = true) :
    number text = some (digitsValue base body, []) := by
  have htake : body.takeWhile (isDigit base) = body := List.takeWhile_eq_self_iff.2 hall
  have hdrop : body.dropWhile (isDigit base) = [] := List.dropWhile_eq_nil_iff.2 hall
  unfold number
  rw [h]
  dsimp only
  rw [htake, hdrop, if_neg hne]

/-- **Where the base comes from**: the prefix `0x` with a digit, a zero, or neither. -/
theorem splitBase_cases (text : List UInt8) :
    (∃ x d rest, text = 48 :: x :: d :: rest ∧ (x = 120 ∨ x = 88) ∧ isDigit 16 d = true ∧
        splitBase text = (16, d :: rest)) ∨
      (∃ rest, text = 48 :: rest ∧ splitBase text = (8, 48 :: rest) ∧
        ∀ x d tail, rest = x :: d :: tail → ¬ ((x = 120 ∨ x = 88) ∧ isDigit 16 d = true)) ∨
      (text.head? ≠ some 48 ∧ splitBase text = (10, text)) := by
  unfold splitBase
  split
  · rename_i x d rest
    by_cases h : (x = 120 ∨ x = 88) ∧ isDigit 16 d = true
    · exact Or.inl ⟨x, d, rest, rfl, h.1, h.2, if_pos h⟩
    · refine Or.inr (Or.inl ⟨x :: d :: rest, rfl, if_neg h, ?_⟩)
      rintro _ _ _ ⟨⟩
      exact h
  · rename_i rest hlong
    refine Or.inr (Or.inl ⟨rest, rfl, rfl, ?_⟩)
    rintro x d tail rfl
    exact absurd rfl (hlong x d tail)
  · rename_i text _ hzero
    refine Or.inr (Or.inr ⟨?_, rfl⟩)
    intro hhead
    obtain ⟨rest, hrest⟩ := List.head?_eq_some_iff.1 hhead
    exact hzero rest hrest

/-- **The constants are what the conversion takes whole.** -/
theorem number_iff {n : ℕ} : number text = some (n, []) ↔ Constant text n := by
  constructor
  · intro h
    have hbody : ∀ base body, splitBase text = (base, body) →
        body ≠ [] ∧ (∀ c ∈ body, isDigit base c = true) ∧ n = digitsValue base body := by
      intro base body hsplit
      unfold number at h
      rw [hsplit] at h
      dsimp only at h
      by_cases hnil : body.takeWhile (isDigit base) = []
      · rw [if_pos hnil] at h
        cases h
      · rw [if_neg hnil] at h
        obtain ⟨hn, hrest⟩ := Prod.mk.inj (Option.some.inj h)
        obtain ⟨hall, htake⟩ := digits_whole hrest
        rw [htake] at hnil hn
        exact ⟨hnil, hall, hn.symm⟩
    rcases splitBase_cases text with ⟨x, d, rest, rfl, hx, -, hsplit⟩ | ⟨rest, rfl, hsplit, -⟩ |
      ⟨hhead, hsplit⟩
    · obtain ⟨hne, hall, rfl⟩ := hbody _ _ hsplit
      exact .hexadecimal hx hne hall
    · obtain ⟨-, hall, rfl⟩ := hbody _ _ hsplit
      exact .octal fun c hc => hall c (List.mem_cons_of_mem _ hc)
    · obtain ⟨hne, hall, rfl⟩ := hbody _ _ hsplit
      obtain ⟨d, ds, rfl⟩ := List.exists_cons_of_ne_nil hne
      exact .decimal (fun hd => hhead (congrArg some hd)) hall
  · intro h
    cases h with
    | @decimal d ds hd hds =>
      rcases splitBase_cases (d :: ds) with ⟨x, e, rest, htext, -⟩ | ⟨rest, htext, -⟩ |
        ⟨-, hsplit⟩
      · exact absurd (List.cons.inj htext).1 hd
      · exact absurd (List.cons.inj htext).1 hd
      · exact number_of_split hsplit (List.cons_ne_nil _ _) hds
    | @octal ds hds =>
      have hall : ∀ c ∈ 48 :: ds, isDigit 8 c = true := by
        intro c hc
        rcases List.mem_cons.1 hc with rfl | hc
        · decide
        · exact hds c hc
      rcases splitBase_cases (48 :: ds) with ⟨x, e, rest, htext, hx, -⟩ | ⟨rest, htext, hsplit, -⟩ |
        ⟨hhead, -⟩
      · -- a prefix is not octal digits
        obtain rfl := (List.cons.inj htext).2
        have hoctal := hds x (List.mem_cons_self ..)
        rcases hx with rfl | rfl <;> exact absurd hoctal (by decide)
      · obtain rfl := (List.cons.inj htext).2
        show number (48 :: ds) = some (digitsValue 8 (48 :: ds), [])
        exact number_of_split hsplit (List.cons_ne_nil _ _) hall
      · exact absurd rfl hhead
    | @hexadecimal x ds hx hne hds =>
      obtain ⟨d, ds, rfl⟩ := List.exists_cons_of_ne_nil hne
      rcases splitBase_cases (48 :: x :: d :: ds) with ⟨y, e, rest, htext, -, -, hsplit⟩ |
        ⟨rest, htext, -, hnot⟩ | ⟨hhead, -⟩
      · obtain ⟨rfl, rfl, rfl⟩ : x = y ∧ d = e ∧ ds = rest := by
          simpa using htext
        exact number_of_split hsplit hne hds
      · obtain rfl := (List.cons.inj htext).2
        exact absurd ⟨hx, hds d (List.mem_cons_self ..)⟩ (hnot x d ds rfl)
      · exact absurd rfl hhead

/-- The three forms of a sign. -/
theorem splitSign_cases (text : List UInt8) :
    (∃ rest, text = 45 :: rest ∧ splitSign text = (true, rest)) ∨
      (∃ rest, text = 43 :: rest ∧ splitSign text = (false, rest)) ∨
      splitSign text = (false, text) := by
  unfold splitSign
  split
  · exact Or.inl ⟨_, rfl, rfl⟩
  · exact Or.inr (Or.inl ⟨_, rfl, rfl⟩)
  · exact Or.inr (Or.inr rfl)

/-- What is before something that is not white space. -/
theorem dropWhile_gap {gap : List UInt8} {c : UInt8} {rest : List UInt8}
    (hgap : ∀ b ∈ gap, isSpace b = true) (hc : isSpace c = false) :
    (gap ++ c :: rest).dropWhile isSpace = c :: rest := by
  rw [List.dropWhile_append_of_pos hgap, List.dropWhile_cons_of_neg (by simp [hc])]

/-- **The literals are what `strtol` takes whole.** -/
theorem strtol_iff {z : ℤ} : strtol text = some (z, []) ↔ Literal text z := by
  rw [strtol_eq]
  constructor
  · intro h
    obtain ⟨⟨n, rest⟩, hnumber, heq⟩ := Option.map_eq_some_iff.1 h
    obtain ⟨hz, rfl⟩ := Prod.mk.inj heq
    have hgap : ∀ c ∈ text.takeWhile isSpace, isSpace c = true := fun c hc =>
      List.mem_takeWhile_imp hc
    rw [← List.takeWhile_append_dropWhile (p := isSpace) (l := text)]
    rcases splitSign_cases (text.dropWhile isSpace) with ⟨body, hbody, hsplit⟩ |
      ⟨body, hbody, hsplit⟩ | hsplit
    · rw [hsplit] at hnumber hz
      rw [if_pos rfl] at hz
      rw [hbody, ← hz]
      exact .minus hgap (number_iff.1 hnumber)
    · rw [hsplit] at hnumber hz
      rw [if_neg Bool.false_ne_true] at hz
      rw [hbody, ← hz]
      exact .plus hgap (number_iff.1 hnumber)
    · rw [hsplit] at hnumber hz
      rw [if_neg Bool.false_ne_true] at hz
      rw [← hz]
      exact .unsigned hgap (number_iff.1 hnumber)
  · intro h
    cases h with
    | @unsigned gap constant n hgap hconstant =>
      obtain ⟨c, rest, rfl, hc⟩ := hconstant.head
      obtain ⟨hspace, hminus, hplus⟩ := digit_start hc
      have hsign : splitSign (c :: rest) = (false, c :: rest) := by
        rcases splitSign_cases (c :: rest) with ⟨_, h, -⟩ | ⟨_, h, -⟩ | h
        · exact absurd (List.cons.inj h).1 hminus
        · exact absurd (List.cons.inj h).1 hplus
        · exact h
      rw [dropWhile_gap hgap hspace, hsign, number_iff.2 hconstant]
      rfl
    | @plus gap constant n hgap hconstant =>
      rw [dropWhile_gap hgap (by decide)]
      show (number constant).map _ = _
      rw [number_iff.2 hconstant]
      rfl
    | @minus gap constant n hgap hconstant =>
      rw [dropWhile_gap hgap (by decide)]
      show (number constant).map _ = _
      rw [number_iff.2 hconstant]
      rfl

/-- A text is a literal of one value. -/
theorem Literal.unique {y z : ℤ} (hy : Literal text y) (hz : Literal text z) : y = z := by
  have h := (strtol_iff.2 hy).symm.trans (strtol_iff.2 hz)
  exact (Prod.mk.inj (Option.some.inj h)).1

theorem Literal.ne_nil {z : ℤ} (h : Literal text z) : text ≠ [] := by
  rintro rfl
  have hnone : strtol [] = none := by decide
  rw [← strtol_iff, hnone] at h
  cases h

/-! ### Where a comma ends it -/

theorem takeWhile_append_cons {α : Type*} {p : α → Bool} {a : α} (h : p a = false)
    (xs ys : List α) : (xs ++ a :: ys).takeWhile p = xs.takeWhile p := by
  induction xs with
  | nil => exact List.takeWhile_cons_of_neg (by simp [h])
  | cons x xs ih =>
    rw [List.cons_append, List.takeWhile_cons, List.takeWhile_cons, ih]

theorem dropWhile_append_cons {α : Type*} {p : α → Bool} {a : α} (h : p a = false)
    (xs ys : List α) : (xs ++ a :: ys).dropWhile p = xs.dropWhile p ++ a :: ys := by
  induction xs with
  | nil => exact List.dropWhile_cons_of_neg (by simp [h])
  | cons x xs ih =>
    rw [List.cons_append, List.dropWhile_cons, List.dropWhile_cons, ih]
    split_ifs
    · rfl
    · rfl

/-- A comma is a digit of no base. -/
theorem isDigit_comma (base : ℕ) : isDigit base 44 = false := rfl

/-- The sign does not see a comma behind it. -/
theorem splitSign_comma (text rest : List UInt8) :
    splitSign (text ++ 44 :: rest) = ((splitSign text).1, (splitSign text).2 ++ 44 :: rest) := by
  match text with
  | [] => rfl
  | c :: text =>
    rw [List.cons_append]
    rcases splitSign_cases (c :: text) with ⟨_, h, hsplit⟩ | ⟨_, h, hsplit⟩ | hsplit
    · obtain ⟨rfl, rfl⟩ := List.cons.inj h
      rw [hsplit]
      rfl
    · obtain ⟨rfl, rfl⟩ := List.cons.inj h
      rw [hsplit]
      rfl
    · rw [hsplit]
      unfold splitSign at hsplit ⊢
      split
      · simp_all
      · simp_all
      · rfl

/-- Nor does the base. -/
theorem splitBase_comma (text rest : List UInt8) :
    splitBase (text ++ 44 :: rest) = ((splitBase text).1, (splitBase text).2 ++ 44 :: rest) := by
  rcases splitBase_cases text with ⟨x, d, tail, rfl, hx, hd, hsplit⟩ | ⟨tail, rfl, hsplit, hnot⟩ |
    ⟨hhead, hsplit⟩
  · rw [hsplit]
    exact if_pos ⟨hx, hd⟩
  · rw [hsplit]
    rcases splitBase_cases (48 :: tail ++ 44 :: rest) with ⟨x, d, _, htext, hx, hd, -⟩ |
      ⟨_, htext, hwhole, -⟩ | ⟨h, -⟩
    · -- the prefix would stand before the comma
      exfalso
      match tail, hnot, htext with
      | [], _, htext =>
        obtain rfl : 44 = x := (List.cons.inj (List.cons.inj htext).2).1
        exact absurd hx (by decide)
      | [y], _, htext =>
        obtain rfl : 44 = d :=
          (List.cons.inj (List.cons.inj (List.cons.inj htext).2).2).1
        exact absurd hd (by decide)
      | y :: e :: tail, hnot, htext =>
        obtain ⟨rfl, hrest⟩ := List.cons.inj (List.cons.inj htext).2
        obtain rfl : e = d := (List.cons.inj hrest).1
        exact hnot y e tail rfl ⟨hx, hd⟩
    · rw [hwhole, ← htext]
    · exact absurd rfl h
  · rw [hsplit]
    rcases splitBase_cases (text ++ 44 :: rest) with ⟨x, d, _, htext, -⟩ | ⟨_, htext, -⟩ |
      ⟨-, hwhole⟩
    · match text, hhead, htext with
      | [], _, htext => exact absurd (List.cons.inj htext).1 (by decide)
      | c :: text, hhead, htext => exact absurd (congrArg some (List.cons.inj htext).1) hhead
    · match text, hhead, htext with
      | [], _, htext => exact absurd (List.cons.inj htext).1 (by decide)
      | c :: text, hhead, htext => exact absurd (congrArg some (List.cons.inj htext).1) hhead
    · exact hwhole

/-- **A comma ends the number.** -/
theorem strtol_comma (text rest : List UInt8) :
    strtol (text ++ 44 :: rest) = (strtol text).map fun (z, tail) => (z, tail ++ 44 :: rest) := by
  have hnumber : ∀ text, number (text ++ 44 :: rest) =
      (number text).map fun (n, tail) => (n, tail ++ 44 :: rest) := by
    intro text
    unfold number
    rw [splitBase_comma]
    dsimp only
    rw [takeWhile_append_cons (isDigit_comma _), dropWhile_append_cons (isDigit_comma _)]
    split_ifs
    · rfl
    · rfl
  rw [strtol_eq, strtol_eq, dropWhile_append_cons (by decide), splitSign_comma]
  dsimp only
  rw [hnumber, Option.map_map, Option.map_map]
  rfl

/-- `0x` without a digit is a zero and a letter. -/
example : strtol [48, 120, 44] = some (0, [120, 44]) := by decide

end KfswServices.Command
