/-
# A value from text

`kfsw_param_parse_text` of `src/parameter/parameter.c`; what it does for a number is `parseNumber`.

A text denotes an integer if it is a literal, and a list if its fields between commas are.  A signed
type takes exactly the literals of its range.  For an unsigned type the test for a minus looks at
the first character of the text, before `strtoull` has left out the white space; and the loop over
a list ends with the room or with the text, whatever the last character it took was
(`parse_text_iff`).
-/

import KfswServices.Command.Literal
import KfswServices.Param.Number
import Mathlib.Tactic.Positivity

namespace KfswServices.Param

open Command (Literal strtol strtol_iff)

/-- What is taken from the C library: the width of `unsigned long`, and `strtof` and `strtod`, which
give the bits of a text that they convert whole and without an error. -/
structure Libc where
  longBits : ℕ
  longBits_ge : 32 ≤ longBits
  strtof : CString → Option UInt32
  strtod : CString → Option UInt64

/-- The loop over the elements, with room for so many more. -/
def elements (longBits : ℕ) : ℕ → List UInt8 → Except Errno (List UInt8)
  | 0, _ => .ok []
  | room + 1, cursor =>
    if cursor = [] then .ok []
    else
      match strtoul longBits cursor with
      | none => .error .EINVAL
      | some (element, tail) =>
        if element > 255 then .error .EINVAL
        else
          match tail with
          | [] => .ok [UInt8.ofNat element]
          | c :: rest =>
            if c = 44 then (elements longBits room rest).map (UInt8.ofNat element :: ·)
            else .error .EINVAL

/-- `kfsw_param_parse_text`: what `value` becomes.  One that is refused is not looked at. -/
def parseText (cfg : Config) (libc : Libc) (value : Value) (text : CString) : Except Errno Value :=
  match value.type with
  | .STRING =>
    if text.length < cfg.stringMax then .ok { value with text := text, size := text.length + 1 }
    else .error .EMSGSIZE
  | .DATA =>
    match elements libc.longBits cfg.stringMax text.bytes with
    | .error e => .error e
    | .ok bytes =>
      if bytes = [] then .error .EINVAL
      else .ok { value with bytes := bytes ++ value.bytes.drop bytes.length, size := bytes.length }
  | type =>
    (parseNumber cfg.float libc.strtof libc.strtod type text).map fun scalar =>
      { value with scalar := scalar }

/-! ### What a text says -/

/-- The bits of an integer type, and whether it has a sign. -/
def integerType : ParamType → Option (ℕ × Bool)
  | .U8 | .X8 => some (8, false)
  | .U16 | .X16 => some (16, false)
  | .U32 | .X32 => some (32, false)
  | .U64 | .X64 => some (64, false)
  | .I8 => some (8, true)
  | .I16 => some (16, true)
  | .I32 => some (32, true)
  | .I64 => some (64, true)
  | .FLOAT | .DOUBLE | .STRING | .DATA | .INVALID => none

/-- The range of an integer type. -/
def InRange (bits : ℕ) (signed : Bool) (z : ℤ) : Prop :=
  if signed then -2 ^ (bits - 1) ≤ z ∧ z < 2 ^ (bits - 1) else 0 ≤ z ∧ z < 2 ^ bits

/-- A list of bytes, its elements between commas. -/
structure Listed (cfg : Config) (text : List UInt8) (zs : List ℤ) : Prop where
  fields : List.Forall₂ Literal (text.splitOn 44) zs
  fits : zs.length ≤ cfg.stringMax
  range : ∀ z ∈ zs, 0 ≤ z ∧ z ≤ 255

/-- What comes of a text for an integer type is the integer that it denotes. -/
structure ReadsInteger (parsed : Except Errno Value) (type : ParamType) (bits : ℕ) (signed : Bool)
    (text : CString) : Prop where
  accepts : (∃ next, parsed = .ok next) ↔ ∃ z, Literal text.bytes z ∧ InRange bits signed z
  stores : ∀ next z, parsed = .ok next → Literal text.bytes z → intValue type next.scalar = z

/-- What comes of a text for raw data is the list that it denotes. -/
structure ReadsData (cfg : Config) (parsed : Except Errno Value) (text : CString) : Prop where
  accepts : (∃ next, parsed = .ok next) ↔ ∃ zs, Listed cfg text.bytes zs
  stores : ∀ next zs, parsed = .ok next → Listed cfg text.bytes zs → next.size = zs.length ∧
    (next.bytes.take next.size).map (fun b => (b.toNat : ℤ)) = zs

/-- **A text is read as what it denotes.** -/
def Reads (cfg : Config) (libc : Libc) (value : Value) (text : CString) : Prop :=
  match integerType value.type with
  | some (bits, signed) => ReadsInteger (parseText cfg libc value text) value.type bits signed text
  | none => value.type = .DATA → ReadsData cfg (parseText cfg libc value text) text

/-- The fields of a list, without an empty one behind its last comma. -/
def pieces (text : List UInt8) : List (List UInt8) :=
  if (text.splitOn 44).getLast? = some [] then (text.splitOn 44).dropLast else text.splitOn 44

/-- The field is a literal, and `strtoul` makes this byte of it. -/
def Element (longBits : ℕ) (field : List UInt8) (b : UInt8) : Prop :=
  ∃ z, Literal field z ∧ z.natAbs < 2 ^ longBits ∧ z % 2 ^ longBits = b.toNat

/-- The test for a minus sees the sign: with a minus in front the text does not denote zero, and
behind white space it does not denote a negative number that wraps round into the type. -/
def SignSeen (bits : ℕ) (text : CString) : Prop :=
  ∀ z, Literal text.bytes z →
    if text.bytes.head? = some 45 then z ≠ 0
    else ¬ (z < 0 ∧ -2 ^ 64 < z ∧ z < 2 ^ bits - 2 ^ 64)

/-- The list is seen whole: where its first fields, as many as there is room for, are elements, an
empty one behind the last comma apart, none of them is empty or negative and there are no more. -/
def ListSeen (cfg : Config) (libc : Libc) (text : CString) : Prop :=
  ∀ bs ≠ [], List.Forall₂ (Element libc.longBits) ((pieces text.bytes).take cfg.stringMax) bs →
    (text.bytes.splitOn 44).getLast? ≠ some [] ∧
      (text.bytes.splitOn 44).length ≤ cfg.stringMax ∧
      ∀ field ∈ text.bytes.splitOn 44, ∀ z, Literal field z → 0 ≤ z

/-- The text is none of those that are misread. -/
def Plain (cfg : Config) (libc : Libc) (type : ParamType) (text : CString) : Prop :=
  match integerType type with
  | some (bits, signed) => signed = false → SignSeen bits text
  | none => type = .DATA → ListSeen cfg libc text

/-! ### Integers -/

variable {longBits : ℕ} {text : List UInt8}

/-- `strtoul`, of a text that it takes whole. -/
theorem strtoul_iff {v : ℕ} : strtoul longBits text = some (v, []) ↔
      ∃ z, Literal text z ∧ z.natAbs < 2 ^ longBits ∧ (z % 2 ^ longBits).toNat = v := by
  unfold strtoul
  constructor
  · intro h
    split at h
    · cases h
    · rename_i z rest hz
      by_cases hfits : z.natAbs < 2 ^ longBits
      · rw [if_pos hfits] at h
        obtain ⟨rfl, rfl⟩ := Prod.mk.inj (Option.some.inj h)
        exact ⟨z, strtol_iff.1 hz, hfits, rfl⟩
      · rw [if_neg hfits] at h
        cases h
  · rintro ⟨z, hz, hfits, rfl⟩
    rw [strtol_iff.2 hz]
    exact if_pos hfits

/-- A text with a minus in front denotes no positive number. -/
theorem nonpos_of_minus {z : ℤ} (h : Literal text z) (hminus : text.head? = some 45) : z ≤ 0 := by
  have hgap : ∀ gap rest : List UInt8, (∀ c ∈ gap, Command.isSpace c = true) →
      (gap ++ rest).head? = some 45 → rest.head? = some 45 := by
    intro gap rest hspace hhead
    match gap with
    | [] => exact hhead
    | c :: gap =>
      obtain rfl : c = 45 := Option.some.inj hhead
      exact absurd (hspace 45 (List.mem_cons_self ..)) (by decide)
  cases h with
  | unsigned hspace hconstant =>
    obtain ⟨c, rest, rfl, hc⟩ := hconstant.head
    obtain rfl : c = 45 := Option.some.inj (hgap _ _ hspace hminus)
    exact absurd hc (by decide)
  | plus hspace _ => exact absurd (Option.some.inj (hgap _ _ hspace hminus)) (by decide)
  | minus _ _ => omega

/-- What is taken for an unsigned type. -/
theorem parseUnsignedText_iff {bits : ℕ} {text : CString} {scalar : Scalar} :
    parseUnsignedText bits text = .ok scalar ↔ text.bytes.head? ≠ some 45 ∧
      ∃ z, Literal text.bytes z ∧ z.natAbs < 2 ^ 64 ∧ (z % 2 ^ 64).toNat < 2 ^ bits ∧
        scalar = UInt64.ofNat (z % 2 ^ 64).toNat := by
  unfold parseUnsignedText strtoull
  rw [ite_error_eq_ok]
  refine and_congr_right fun _ => ?_
  constructor
  · intro h
    split at h
    · rename_i v hv
      obtain ⟨z, hz, hfits, rfl⟩ := strtoul_iff.1 hv
      by_cases hlt : (z % 2 ^ 64).toNat < 2 ^ bits
      · rw [if_pos hlt] at h
        exact ⟨z, hz, hfits, hlt, (Except.ok.inj h).symm⟩
      · rw [if_neg hlt] at h
        cases h
    · cases h
  · rintro ⟨z, hz, hfits, hlt, rfl⟩
    rw [strtoul_iff.2 ⟨z, hz, hfits, rfl⟩]
    exact if_pos hlt

/-- What is taken for a signed type. -/
theorem parseSignedText_iff {bits : ℕ} {text : CString} {scalar : Scalar} :
    parseSignedText bits text = .ok scalar ↔ ∃ z, Literal text.bytes z ∧
      (-2 ^ 63 ≤ z ∧ z < 2 ^ 63) ∧ (-2 ^ (bits - 1) ≤ z ∧ z < 2 ^ (bits - 1)) ∧
        scalar = UInt64.ofNat (z % 2 ^ bits).toNat := by
  have hlong : ∀ z, strtoll text.bytes = some (z, []) ↔
      Literal text.bytes z ∧ -2 ^ 63 ≤ z ∧ z < 2 ^ 63 := by
    intro z
    rw [← strtol_iff]
    unfold strtoll
    constructor
    · intro h
      split at h
      · cases h
      · rename_i y rest hy
        split_ifs at h with hrange
        obtain ⟨rfl, rfl⟩ := Prod.mk.inj (Option.some.inj h)
        exact ⟨hy, hrange⟩
    · rintro ⟨hz, hrange⟩
      rw [hz]
      exact if_pos hrange
  unfold parseSignedText
  constructor
  · intro h
    split at h
    · rename_i z hz
      split_ifs at h with hrange
      obtain ⟨hliteral, hwide⟩ := (hlong z).1 hz
      exact ⟨z, hliteral, hwide, hrange, (Except.ok.inj h).symm⟩
    · cases h
  · rintro ⟨z, hliteral, hwide, hrange, rfl⟩
    rw [(hlong z).2 ⟨hliteral, hwide⟩]
    exact if_pos hrange

/-- A number below the bound of `strtoull`, taken around. -/
theorem wrap_cases {z : ℤ} (h : z.natAbs < 2 ^ 64) :
    (0 ≤ z ∧ z % 2 ^ 64 = z) ∨ (-2 ^ 64 < z ∧ z < 0 ∧ z % 2 ^ 64 = z + 2 ^ 64) := by
  omega

/-- **An unsigned type**: the text is read as what it denotes, exactly if the test for a minus sees
the sign. -/
theorem reads_unsigned {bits : ℕ} (hbits : bits ≤ 64) {type : ParamType}
    (hvalue : ∀ scalar, intValue type scalar = scalar.toNat % 2 ^ bits) (value : Value)
    (text : CString) :
    ReadsInteger ((parseUnsignedText bits text).map fun scalar => { value with scalar := scalar })
      type bits false text ↔ SignSeen bits text := by
  have hpow : (2 : ℤ) ^ bits ≤ 2 ^ 64 := by exact_mod_cast Nat.pow_le_pow_right (by omega) hbits
  have hcast : ((2 ^ bits : ℕ) : ℤ) = 2 ^ bits := by push_cast; rfl
  have hmap : ∀ next, (parseUnsignedText bits text).map
      (fun scalar => { value with scalar := scalar }) = .ok next ↔
        ∃ scalar, parseUnsignedText bits text = .ok scalar ∧
          { value with scalar := scalar } = next := by
    intro next
    cases parseUnsignedText bits text with
    | error e => exact iff_of_false (fun h => by cases h) (by rintro ⟨_, h, -⟩; cases h)
    | ok scalar =>
      exact ⟨fun h => ⟨scalar, rfl, Except.ok.inj h⟩, by rintro ⟨_, ⟨⟩, rfl⟩; rfl⟩
  constructor
  · rintro ⟨haccepts, -⟩ z hz
    split_ifs with hminus
    · rintro rfl
      -- a zero is in the range, and it is refused
      obtain ⟨next, hnext⟩ := haccepts.2 ⟨0, hz, le_refl _, by positivity⟩
      obtain ⟨_, hparse, -⟩ := (hmap next).1 hnext
      exact (parseUnsignedText_iff.1 hparse).1 hminus
    · rintro ⟨hneg, hlow, hhigh⟩
      have hfits : z.natAbs < 2 ^ 64 := by omega
      have hlt : (z % 2 ^ 64).toNat < 2 ^ bits := by
        rcases wrap_cases hfits with ⟨h, -⟩ | ⟨-, -, h⟩ <;> omega
      have hparse := parseUnsignedText_iff.2 ⟨hminus, z, hz, hfits, hlt, rfl⟩
      obtain ⟨y, hy, hpos, -⟩ := haccepts.1 ⟨_, (hmap _).2 ⟨_, hparse, rfl⟩⟩
      have := hy.unique hz
      omega
  · intro hsign
    have hread : ∀ next, (parseUnsignedText bits text).map
        (fun scalar => { value with scalar := scalar }) = .ok next →
          ∃ z, Literal text.bytes z ∧ 0 ≤ z ∧ z < 2 ^ bits ∧ intValue type next.scalar = z := by
      intro next hnext
      obtain ⟨scalar, hparse, rfl⟩ := (hmap next).1 hnext
      obtain ⟨hminus, z, hz, hfits, hlt, rfl⟩ := parseUnsignedText_iff.1 hparse
      have hseen := hsign z hz
      rw [if_neg hminus] at hseen
      rcases wrap_cases hfits with ⟨hpos, hwrap⟩ | ⟨hlow, hneg, hwrap⟩
      · rw [hwrap] at hlt ⊢
        refine ⟨z, hz, hpos, by omega, ?_⟩
        rw [hvalue]
        dsimp only
        rw [UInt64.toNat_ofNat', Nat.mod_eq_of_lt (by omega), Int.toNat_of_nonneg hpos]
        exact Int.emod_eq_of_lt hpos (by omega)
      · exact absurd ⟨hneg, hlow, by omega⟩ hseen
    refine ⟨⟨?_, ?_⟩, fun next z hnext hz => ?_⟩
    · rintro ⟨next, hnext⟩
      obtain ⟨z, hz, hpos, hlt, -⟩ := hread next hnext
      exact ⟨z, hz, hpos, hlt⟩
    · rintro ⟨z, hz, hpos, hlt⟩
      have hminus : text.bytes.head? ≠ some 45 := by
        intro hminus
        have hseen := hsign z hz
        rw [if_pos hminus] at hseen
        have := nonpos_of_minus hz hminus
        omega
      have hwrap : z % 2 ^ 64 = z := Int.emod_eq_of_lt hpos (by omega)
      exact ⟨_, (hmap _).2 ⟨_, parseUnsignedText_iff.2
        ⟨hminus, z, hz, by omega, by rw [hwrap]; omega, rfl⟩, rfl⟩⟩
    · obtain ⟨y, hy, -, -, hstored⟩ := hread next hnext
      rw [hstored, hy.unique hz]

/-- **A signed type**: the text is read as what it denotes. -/
theorem reads_signed {bits : ℕ} (hpos : 0 < bits) (hbits : bits ≤ 64) {type : ParamType}
    (hvalue : ∀ scalar, intValue type scalar = Int.bmod scalar.toNat (2 ^ bits)) (value : Value)
    (text : CString) :
    ReadsInteger ((parseSignedText bits text).map fun scalar => { value with scalar := scalar })
      type bits true text := by
  have hhalf : (2 : ℤ) ^ (bits - 1) ≤ 2 ^ 63 := by
    exact_mod_cast Nat.pow_le_pow_right (by omega) (by omega : bits - 1 ≤ 63)
  have hdouble : (2 : ℤ) ^ bits = 2 * 2 ^ (bits - 1) := by
    rw [← pow_succ', Nat.sub_add_cancel hpos]
  have hcast : ((2 ^ bits : ℕ) : ℤ) = 2 ^ bits := by push_cast; rfl
  refine ⟨⟨?_, ?_⟩, ?_⟩
  · rintro ⟨next, hnext⟩
    cases hparse : parseSignedText bits text with
    | error e =>
      rw [hparse] at hnext
      cases hnext
    | ok scalar =>
      obtain ⟨z, hz, -, hrange, -⟩ := parseSignedText_iff.1 hparse
      exact ⟨z, hz, hrange⟩
  · rintro ⟨z, hz, hlow, hhigh⟩
    have hparse := parseSignedText_iff.2 ⟨z, hz, ⟨by omega, by omega⟩, ⟨hlow, hhigh⟩, rfl⟩
    rw [hparse]
    exact ⟨_, rfl⟩
  · intro next z hnext hz
    cases hparse : parseSignedText bits text with
    | error e =>
      rw [hparse] at hnext
      cases hnext
    | ok scalar =>
      obtain ⟨y, hy, -, ⟨hlow, hhigh⟩, hscalar⟩ := parseSignedText_iff.1 hparse
      rw [hparse] at hnext
      obtain rfl := Except.ok.inj hnext
      obtain rfl := hy.unique hz
      have hmod := Int.emod_nonneg y (by positivity : (2 : ℤ) ^ bits ≠ 0)
      have hlt := Int.emod_lt_of_pos y (by positivity : (0 : ℤ) < 2 ^ bits)
      rw [hvalue, hscalar]
      dsimp only
      rw [UInt64.toNat_ofNat', Nat.mod_eq_of_lt (by omega), Int.toNat_of_nonneg hmod, ← hcast,
        Int.emod_bmod]
      exact Int.bmod_eq_of_le (by omega) (by omega)

/-! ### Lists -/

/-- A member on the left has its partner. -/
theorem exists_of_forall₂ {α β : Type*} {R : α → β → Prop} {xs : List α} {ys : List β}
    (h : List.Forall₂ R xs ys) : ∀ x ∈ xs, ∃ y ∈ ys, R x y := by
  induction h with
  | nil =>
    intro x hx
    cases hx
  | cons hxy _ ih =>
    intro x hx
    rcases List.mem_cons.1 hx with rfl | hx
    · exact ⟨_, List.mem_cons_self .., hxy⟩
    · obtain ⟨y, hy, hR⟩ := ih x hx
      exact ⟨y, List.mem_cons_of_mem _ hy, hR⟩

/-- `strtoul` leaves an end of the text. -/
theorem strtoul_suffix {tail : List UInt8} {v : ℕ} (h : strtoul longBits text = some (v, tail)) :
    tail <:+ text := by
  have hsplit : ∀ body, (Command.splitBase body).2 <:+ body := by
    intro body
    rcases Command.splitBase_cases body with ⟨x, d, rest, rfl, -, -, h⟩ | ⟨rest, rfl, h, -⟩ |
      ⟨-, h⟩
    · rw [h]
      exact (List.suffix_cons ..).trans (List.suffix_cons ..)
    · rw [h]
    · rw [h]
  have hsign : ∀ body, (Command.splitSign body).2 <:+ body := by
    intro body
    rcases Command.splitSign_cases body with ⟨rest, rfl, h⟩ | ⟨rest, rfl, h⟩ | h
    · rw [h]
      exact List.suffix_cons ..
    · rw [h]
      exact List.suffix_cons ..
    · rw [h]
  unfold strtoul at h
  split at h
  · cases h
  · rename_i z rest hz
    split_ifs at h
    obtain rfl := (Prod.mk.inj (Option.some.inj h)).2
    rw [Command.strtol_eq] at hz
    obtain ⟨⟨n, end'⟩, hnumber, heq⟩ := Option.map_eq_some_iff.1 hz
    obtain rfl := (Prod.mk.inj heq).2
    unfold Command.number at hnumber
    dsimp only at hnumber
    split_ifs at hnumber
    obtain rfl := (Prod.mk.inj (Option.some.inj hnumber)).2
    exact (List.dropWhile_suffix _).trans
      ((hsplit _).trans ((hsign _).trans (List.dropWhile_suffix _)))

/-- A comma ends it. -/
theorem strtoul_comma (longBits : ℕ) (field rest : List UInt8) :
    strtoul longBits (field ++ 44 :: rest) =
      (strtoul longBits field).map fun (v, tail) => (v, tail ++ 44 :: rest) := by
  unfold strtoul
  rw [Command.strtol_comma]
  cases strtol field with
  | none => rfl
  | some parsed =>
    dsimp only [Option.map_some]
    split_ifs
    · rfl
    · rfl

variable {field : List UInt8}

/-- What `strtoul` must give for an element. -/
theorem element_iff {b : UInt8} :
    Element longBits field b ↔ ∃ v, strtoul longBits field = some (v, []) ∧ v ≤ 255 ∧
      UInt8.ofNat v = b := by
  constructor
  · rintro ⟨z, hz, hfits, hb⟩
    have hlt := b.toNat_lt
    refine ⟨b.toNat, strtoul_iff.2 ⟨z, hz, hfits, by omega⟩, by omega, UInt8.ofNat_toNat⟩
  · rintro ⟨v, hv, hle, rfl⟩
    obtain ⟨z, hz, hfits, hmod⟩ := strtoul_iff.1 hv
    have hnonneg := Int.emod_nonneg z (by positivity : (2 : ℤ) ^ longBits ≠ 0)
    refine ⟨z, hz, hfits, ?_⟩
    rw [UInt8.toNat_ofNat', Nat.mod_eq_of_lt (by omega)]
    omega

/-- Behind a number there is no comma, where there is none in the text. -/
theorem strtoul_tail_ne {tail : List UInt8} {v : ℕ} {c : UInt8} (hfield : 44 ∉ field)
    (hv : strtoul longBits field = some (v, c :: tail)) : c ≠ 44 := by
  rintro rfl
  exact hfield ((strtoul_suffix hv).subset (List.mem_cons_self ..))

variable {bs : List UInt8}

section

variable (hfield : 44 ∉ field)
include hfield

/-- **A field, and a comma behind it.** -/
theorem elements_comma {room : ℕ} {rest : List UInt8} :
    elements longBits (room + 1) (field ++ 44 :: rest) = .ok bs ↔
      ∃ b bs', Element longBits field b ∧ elements longBits room rest = .ok bs' ∧
        bs = b :: bs' := by
  rw [elements, if_neg (by simp), strtoul_comma]
  constructor
  · intro h
    cases hv : strtoul longBits field with
    | none =>
      rw [hv] at h
      cases h
    | some parsed =>
      obtain ⟨v, tail⟩ := parsed
      rw [hv] at h
      dsimp only [Option.map_some] at h
      obtain ⟨hle, h⟩ := ite_error_eq_ok.1 h
      cases tail with
      | nil =>
        rw [List.nil_append] at h
        dsimp only at h
        rw [if_pos rfl] at h
        cases hrest : elements longBits room rest with
        | error e =>
          rw [hrest] at h
          cases h
        | ok bs' =>
          rw [hrest] at h
          exact ⟨_, bs', element_iff.2 ⟨v, hv, by omega, rfl⟩, rfl, (Except.ok.inj h).symm⟩
      | cons c tail =>
        have hc := strtoul_tail_ne hfield hv
        rw [List.cons_append] at h
        dsimp only at h
        rw [if_neg hc] at h
        cases h
  · rintro ⟨b, bs', helement, hrest, rfl⟩
    obtain ⟨v, hv, hle, rfl⟩ := element_iff.1 helement
    rw [hv]
    dsimp only [Option.map_some, List.nil_append]
    rw [if_neg (by omega), if_pos rfl, hrest]
    rfl

/-- **The last field.** -/
theorem elements_last {room : ℕ} (hne : field ≠ []) : elements longBits (room + 1) field = .ok bs ↔
      ∃ b, Element longBits field b ∧ bs = [b] := by
  rw [elements, if_neg hne]
  constructor
  · intro h
    cases hv : strtoul longBits field with
    | none =>
      rw [hv] at h
      cases h
    | some parsed =>
      obtain ⟨v, tail⟩ := parsed
      rw [hv] at h
      dsimp only at h
      obtain ⟨hle, h⟩ := ite_error_eq_ok.1 h
      cases tail with
      | nil => exact ⟨_, element_iff.2 ⟨v, hv, by omega, rfl⟩, (Except.ok.inj h).symm⟩
      | cons c tail =>
        have hc := strtoul_tail_ne hfield hv
        dsimp only at h
        rw [if_neg hc] at h
        cases h
  · rintro ⟨b, helement, rfl⟩
    obtain ⟨v, hv, hle, rfl⟩ := element_iff.1 helement
    rw [hv]
    dsimp only
    rw [if_neg (by omega)]

/-- The pieces of a text with a comma. -/
theorem pieces_comma (rest : List UInt8) : pieces (field ++ 44 :: rest) = field :: pieces rest := by
  have hne := List.splitOn_ne_nil 44 rest
  have hlast : (field :: rest.splitOn 44).getLast? = (rest.splitOn 44).getLast? := by
    rw [List.getLast?_cons, List.getLast?_eq_some_getLast hne]
    rfl
  unfold pieces
  rw [List.splitOn_append_cons_self_of_not_mem hfield, hlast]
  by_cases h : (rest.splitOn 44).getLast? = some []
  · rw [if_pos h, if_pos h, List.dropLast_cons_of_ne_nil hne]
  · rw [if_neg h, if_neg h]

/-- The pieces of a text without one. -/
theorem pieces_last : pieces field = if field = [] then [] else [field] := by
  unfold pieces
  rw [List.splitOn_eq_singleton hfield, List.getLast?_singleton]
  by_cases h : field = []
  · rw [if_pos (congrArg some h), if_pos h]
    rfl
  · rw [if_neg (fun hlast => h (Option.some.inj hlast)), if_neg h]

end

/-- **What the loop takes**: the first fields, as many as there is room for, if they are elements;
an empty one behind the last comma does not count. -/
theorem elements_iff {room : ℕ} : elements longBits room text = .ok bs ↔
      List.Forall₂ (Element longBits) ((pieces text).take room) bs := by
  induction room generalizing text bs with
  | zero =>
    rw [elements, List.take_zero, List.forall₂_nil_left_iff]
    exact ⟨fun h => (Except.ok.inj h).symm, fun h => h ▸ rfl⟩
  | succ room ih =>
    by_cases hcomma : 44 ∈ text
    · obtain ⟨field, rest, rfl, hfield⟩ := List.eq_append_cons_of_mem hcomma
      rw [elements_comma hfield, pieces_comma hfield, List.take_succ_cons,
        List.forall₂_cons_left_iff]
      simp only [ih]
    · rw [pieces_last hcomma]
      by_cases hne : text = []
      · rw [if_pos hne, elements, if_pos hne, List.take_nil, List.forall₂_nil_left_iff]
        exact ⟨fun h => (Except.ok.inj h).symm, fun h => h ▸ rfl⟩
      · rw [if_neg hne, elements_last hcomma hne, List.take_of_length_le (by simp),
          List.forall₂_cons_left_iff]
        constructor
        · rintro ⟨b, hb, rfl⟩
          exact ⟨b, [], hb, .nil, rfl⟩
        · rintro ⟨b, _, hb, hnil, rfl⟩
          exact ⟨b, hb, by rw [List.forall₂_nil_left_iff.1 hnil]⟩

/-- The bytes of a list that is denoted. -/
theorem Listed.elements {cfg : Config} (hbits : 32 ≤ longBits) {zs : List ℤ}
    (h : Listed cfg text zs) :
    Param.elements longBits cfg.stringMax text = .ok (zs.map fun z => UInt8.ofNat z.toNat) ∧
      (text.splitOn 44).getLast? ≠ some [] := by
  have hlast : (text.splitOn 44).getLast? ≠ some [] := by
    intro hlast
    obtain ⟨z, -, hz⟩ := exists_of_forall₂ h.fields [] (List.mem_of_getLast? hlast)
    exact hz.ne_nil rfl
  refine ⟨?_, hlast⟩
  have hpieces : (pieces text).take cfg.stringMax = text.splitOn 44 := by
    rw [pieces, if_neg hlast]
    exact List.take_of_length_le (h.fields.length_eq ▸ h.fits)
  have hwide : (2 : ℕ) ^ 32 ≤ 2 ^ longBits := Nat.pow_le_pow_right (by omega) hbits
  have hcast : ((2 ^ longBits : ℕ) : ℤ) = 2 ^ longBits := by push_cast; rfl
  rw [elements_iff, hpieces, List.forall₂_map_right_iff]
  have hboth : List.Forall₂ (fun field z => Literal field z ∧ 0 ≤ z ∧ z ≤ 255)
      (text.splitOn 44) zs := by
    rw [List.forall₂_iff_get]
    have hfields := List.forall₂_iff_get.1 h.fields
    exact ⟨hfields.1, fun i hi hi' => ⟨hfields.2 i hi hi', h.range _ (List.get_mem ..)⟩⟩
  refine hboth.imp fun field z hz => ⟨z, hz.1, by omega, ?_⟩
  rw [UInt8.toNat_ofNat', Nat.mod_eq_of_lt (by omega), Int.toNat_of_nonneg hz.2.1]
  exact Int.emod_eq_of_lt hz.2.1 (by omega)

/-- The list that was taken is the one that is denoted, if it was seen whole. -/
theorem Listed.of_elements {cfg : Config} {libc : Libc} {text : CString}
    (h : Param.elements libc.longBits cfg.stringMax text.bytes = .ok bs) (hne : bs ≠ [])
    (hseen : ListSeen cfg libc text) : Listed cfg text.bytes (bs.map fun b => (b.toNat : ℤ)) := by
  have hbs := elements_iff.1 h
  obtain ⟨hlast, hfits, hpos⟩ := hseen bs hne hbs
  have hpieces : (pieces text.bytes).take cfg.stringMax = text.bytes.splitOn 44 := by
    rw [pieces, if_neg hlast]
    exact List.take_of_length_le hfits
  rw [hpieces] at hbs
  have hcast : ((2 ^ libc.longBits : ℕ) : ℤ) = 2 ^ libc.longBits := by push_cast; rfl
  refine ⟨?_, ?_, ?_⟩
  · rw [List.forall₂_map_right_iff, List.forall₂_iff_get]
    refine ⟨hbs.length_eq, fun i hi hi' => ?_⟩
    obtain ⟨z, hz, hbound, hmod⟩ := (List.forall₂_iff_get.1 hbs).2 i hi hi'
    have hnonneg := hpos _ (List.get_mem ..) z hz
    rw [Int.emod_eq_of_lt hnonneg (by omega)] at hmod
    rw [← hmod]
    exact hz
  · rw [List.length_map, ← hbs.length_eq]
    exact hfits
  · intro z hz
    obtain ⟨b, -, rfl⟩ := List.mem_map.1 hz
    have := b.toNat_lt
    constructor <;> omega

/-- **Raw data**: the text is read as what it denotes, exactly if the list is seen whole. -/
theorem reads_data {cfg : Config} {libc : Libc} {value : Value} (htype : value.type = .DATA)
    (text : CString) :
    ReadsData cfg (parseText cfg libc value text) text ↔ ListSeen cfg libc text := by
  have hok : ∀ next, parseText cfg libc value text = .ok next ↔
      ∃ bs, elements libc.longBits cfg.stringMax text.bytes = .ok bs ∧ bs ≠ [] ∧
        { value with bytes := bs ++ value.bytes.drop bs.length, size := bs.length } = next := by
    intro next
    unfold parseText
    rw [htype]
    dsimp only
    cases elements libc.longBits cfg.stringMax text.bytes with
    | error e => exact iff_of_false (fun h => by cases h) (by rintro ⟨_, h, -⟩; cases h)
    | ok bs =>
      rw [ite_error_eq_ok]
      constructor
      · rintro ⟨hne, h⟩
        exact ⟨bs, rfl, hne, Except.ok.inj h⟩
      · rintro ⟨_, ⟨⟩, hne, rfl⟩
        exact ⟨hne, rfl⟩
  constructor
  · rintro ⟨haccepts, -⟩ bs hne hbs
    obtain ⟨zs, hzs⟩ := haccepts.1 ⟨_, (hok _).2 ⟨bs, elements_iff.2 hbs, hne, rfl⟩⟩
    refine ⟨(hzs.elements libc.longBits_ge).2, hzs.fields.length_eq ▸ hzs.fits, ?_⟩
    intro field hfield z hz
    obtain ⟨y, hy, hliteral⟩ := exists_of_forall₂ hzs.fields field hfield
    rw [hz.unique hliteral]
    exact (hzs.range y hy).1
  · intro hseen
    refine ⟨⟨?_, ?_⟩, ?_⟩
    · rintro ⟨next, hnext⟩
      obtain ⟨bs, hbs, hne, -⟩ := (hok next).1 hnext
      exact ⟨_, Listed.of_elements hbs hne hseen⟩
    · rintro ⟨zs, hzs⟩
      have hne : zs.map (fun z => UInt8.ofNat z.toNat) ≠ [] := by
        intro hnil
        have hlength := hzs.fields.length_eq
        rw [List.map_eq_nil_iff.1 hnil] at hlength
        exact List.splitOn_ne_nil 44 _ (List.length_eq_zero_iff.1 hlength)
      exact ⟨_, (hok _).2 ⟨_, (hzs.elements libc.longBits_ge).1, hne, rfl⟩⟩
    · intro next zs hnext hzs
      obtain ⟨bs, hbs, hne, rfl⟩ := (hok next).1 hnext
      have hread := Listed.of_elements hbs hne hseen
      have hunique : Relator.RightUnique Literal := fun _ _ _ hy hz => hy.unique hz
      have heq : bs.map (fun b => (b.toNat : ℤ)) = zs :=
        List.right_unique_forall₂' hunique hread.fields hzs.fields
      rw [← heq, List.length_map]
      exact ⟨rfl, by rw [List.take_left]⟩

/-! ### The result -/

/-- The 64 bits of a scalar. -/
theorem unsigned64 (scalar : Scalar) : (scalar.toNat : ℤ) = scalar.toNat % 2 ^ 64 := by
  have := scalar.toNat_lt
  omega

/-- **Text to value.**  An integer or raw data is read as what the text denotes, and refused where it
denotes none, exactly if the text is none of those that are misread: for an unsigned type a zero
with a minus, and a minus behind white space with a number that wraps round into the type; for raw
data a list that goes on behind the last byte there is room for, that ends with a comma, or that has
a negative number that wraps round to a byte. -/
theorem parse_text_iff (cfg : Config) (libc : Libc) (value : Value) (text : CString) :
    Reads cfg libc value text ↔ Plain cfg libc value.type text := by
  obtain ⟨type, size, scalar, chars, bytes⟩ := value
  have hunsigned : ∀ {bits : ℕ} {parsed : Except Errno Value}, bits ≤ 64 →
      (∀ scalar, intValue type scalar = scalar.toNat % 2 ^ bits) →
      parsed = (parseUnsignedText bits text).map
        (fun scalar => (⟨type, size, scalar, chars, bytes⟩ : Value)) →
      (ReadsInteger parsed type bits false text ↔ (false = false → SignSeen bits text)) := by
    rintro bits parsed hbits hvalue rfl
    rw [reads_unsigned hbits hvalue ⟨type, size, scalar, chars, bytes⟩ text]
    exact ⟨fun h _ => h, fun h => h rfl⟩
  have hsigned : ∀ {bits : ℕ} {parsed : Except Errno Value}, 0 < bits → bits ≤ 64 →
      (∀ scalar, intValue type scalar = Int.bmod scalar.toNat (2 ^ bits)) →
      parsed = (parseSignedText bits text).map
        (fun scalar => (⟨type, size, scalar, chars, bytes⟩ : Value)) →
      (ReadsInteger parsed type bits true text ↔ (true = false → SignSeen bits text)) := by
    rintro bits parsed hpos hbits hvalue rfl
    exact ⟨fun _ h => absurd h (by decide), fun _ =>
      reads_signed hpos hbits hvalue ⟨type, size, scalar, chars, bytes⟩ text⟩
  cases type
  case U64 => exact hunsigned le_rfl (fun scalar => unsigned64 scalar) rfl
  case X64 => exact hunsigned le_rfl (fun scalar => unsigned64 scalar) rfl
  case I8 => exact hsigned (by omega) (by omega) (fun _ => rfl) rfl
  case I16 => exact hsigned (by omega) (by omega) (fun _ => rfl) rfl
  case I32 => exact hsigned (by omega) (by omega) (fun _ => rfl) rfl
  case I64 => exact hsigned (by omega) le_rfl (fun _ => rfl) rfl
  case FLOAT => exact iff_of_true (fun h => by cases h) fun h => by cases h
  case DOUBLE => exact iff_of_true (fun h => by cases h) fun h => by cases h
  case STRING => exact iff_of_true (fun h => by cases h) fun h => by cases h
  case INVALID => exact iff_of_true (fun h => by cases h) fun h => by cases h
  case DATA =>
    have hdata := @reads_data cfg libc ⟨.DATA, size, scalar, chars, bytes⟩ rfl text
    exact ⟨fun h _ => hdata.1 (h rfl), fun h _ => hdata.2 (h rfl)⟩
  all_goals exact hunsigned (by omega) (fun _ => rfl) rfl

/-- A library with longs of 64 bits. -/
def longLibc : Libc := ⟨64, by omega, fun _ => none, fun _ => none⟩

/-- A value of 64 bits without a sign. -/
def wideValue : Value := ⟨.U64, 8, 0, .empty, []⟩

/-- **A negative number for an unsigned type.**  A blank and `-1` denotes -1; it is taken, and the
value becomes 2^64 - 1. -/
theorem reads_negative : Literal (CString.ofString " -1").bytes (-1) ∧
      (parseText ⟨256, 24, 104, false⟩ longLibc wideValue (.ofString " -1")).toOption.map
        (·.scalar) = some 18446744073709551615 ∧
      ¬ Reads ⟨256, 24, 104, false⟩ longLibc wideValue (.ofString " -1") := by
  have hliteral : Literal (CString.ofString " -1").bytes (-1) := strtol_iff.1 (by decide +kernel)
  refine ⟨hliteral, by decide +kernel, fun hreads => ?_⟩
  have hsign := @reads_unsigned 64 le_rfl .U64 unsigned64 wideValue (.ofString " -1")
  have hseen := hsign.1 hreads _ hliteral
  exact absurd hseen (by decide +kernel)

/-- A comma behind the last element, and one element more than there is room for. -/
example : elements 64 4 [49, 44, 50, 44] = .ok [1, 2] ∧
    elements 64 2 [49, 44, 50, 44, 120] = .ok [1, 2] := by
  decide

end KfswServices.Param
