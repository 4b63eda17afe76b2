/-
# A number from text

What `kfsw_param_parse_text` of `src/parameter/parameter.c` makes of the text of a number, for the
operator and for the bounds of a rule file, and what integer a scalar stands for.
-/

import Mathlib.Algebra.Ring.Int.Defs
import KfswServices.Command.Parse
import KfswServices.Param.Registry

namespace KfswServices.Param

open Command (strtol)

/-- `strtoul` in base 0, none where it converts nothing or sets `ERANGE`. -/
def strtoul (longBits : ℕ) (text : List UInt8) : Option (ℕ × List UInt8) :=
  match strtol text with
  | none => none
  | some (z, rest) =>
    if z.natAbs < 2 ^ longBits then some ((z % 2 ^ longBits).toNat, rest) else none

/-- `strtoull`. -/
abbrev strtoull : List UInt8 → Option (ℕ × List UInt8) := strtoul 64

/-- `strtoll` in base 0, none where it converts nothing or sets `ERANGE`. -/
def strtoll (text : List UInt8) : Option (ℤ × List UInt8) :=
  match strtol text with
  | none => none
  | some (value, rest) => if -2 ^ 63 ≤ value ∧ value < 2 ^ 63 then some (value, rest) else none

/-- `kfsw_param_parse_text` for an unsigned type of so many bits. -/
def parseUnsignedText (bits : ℕ) (text : CString) : Except Errno Scalar :=
  if text.bytes.head? = some 45 then .error .ERANGE
  else
    match strtoull text.bytes with
    | some (value, []) =>
      if value < 2 ^ bits then .ok (UInt64.ofNat value) else .error .ERANGE
    | _ => .error .EINVAL

/-- `kfsw_param_parse_text` for a signed type of so many bits. -/
def parseSignedText (bits : ℕ) (text : CString) : Except Errno Scalar :=
  match strtoll text.bytes with
  | some (value, []) =>
    if -2 ^ (bits - 1) ≤ value ∧ value < 2 ^ (bits - 1) then
      .ok (UInt64.ofNat (value % 2 ^ bits).toNat)
    else .error .ERANGE
  | _ => .error .EINVAL

/-- `kfsw_param_parse_text`, for a value of a type of numbers; `strtof` and `strtod` give the bits
of a text that they convert whole and without an error. -/
def parseNumber (float : Bool) (strtof : CString → Option UInt32) (strtod : CString → Option UInt64)
    (type : ParamType) (text : CString) : Except Errno Scalar :=
  match type with
  | .U8 | .X8 => parseUnsignedText 8 text
  | .U16 | .X16 => parseUnsignedText 16 text
  | .U32 | .X32 => parseUnsignedText 32 text
  | .U64 | .X64 => parseUnsignedText 64 text
  | .I8 => parseSignedText 8 text
  | .I16 => parseSignedText 16 text
  | .I32 => parseSignedText 32 text
  | .I64 => parseSignedText 64 text
  | .FLOAT =>
    if !float then .error .ENOTSUP
    else
      match strtof text with
      | some bits => .ok bits.toUInt64
      | none => .error .EINVAL
  | .DOUBLE =>
    if !float then .error .ENOTSUP
    else
      match strtod text with
      | some bits => .ok bits
      | none => .error .EINVAL
  | .STRING | .DATA | .INVALID => .error .ENOTSUP

/-- The integer that a scalar of an integer type stands for. -/
def intValue (type : ParamType) (scalar : Scalar) : ℤ :=
  match type with
  | .U8 | .X8 => scalar.toNat % 2 ^ 8
  | .U16 | .X16 => scalar.toNat % 2 ^ 16
  | .U32 | .X32 => scalar.toNat % 2 ^ 32
  | .U64 | .X64 => scalar.toNat
  | .I8 => Int.bmod scalar.toNat (2 ^ 8)
  | .I16 => Int.bmod scalar.toNat (2 ^ 16)
  | .I32 => Int.bmod scalar.toNat (2 ^ 32)
  | .I64 => Int.bmod scalar.toNat (2 ^ 64)
  | .FLOAT | .DOUBLE | .STRING | .DATA | .INVALID => 0

end KfswServices.Param
