/-
# Command arguments as text

`kfsw_command_find` and `kfsw_command_parse_arg` of `src/command/command.c`, with
the conversion of `strtol` and `strtoul` in base 0 they rest on.  A value that
does not fit `long` fails with `ERANGE`, one that fits `long` and not 32 bits
fails the range check behind it, and both give `-EINVAL`; so the width of `long`
does not show, and the conversion is of integers here.
-/

import KfswServices.Command.Dispatch

namespace KfswServices.Command

/-- `isspace` in the C locale. -/
def isSpace (c : UInt8) : Bool := c = 32 || (9 ≤ c && c ≤ 13)

/-- The value of a digit character, of any base up to 16. -/
def digitValue (c : UInt8) : Option ℕ :=
  if 48 ≤ c ∧ c ≤ 57 then some (c.toNat - 48)
  else if 97 ≤ c ∧ c ≤ 102 then some (c.toNat - 87)
  else if 65 ≤ c ∧ c ≤ 70 then some (c.toNat - 55)
  else none

/-- The character is a digit of the base. -/
def isDigit (base : ℕ) (c : UInt8) : Bool :=
  match digitValue c with
  | none => false
  | some d => d < base

/-- The value of a string of digits. -/
def digitsValue (base : ℕ) (digits : List UInt8) : ℕ :=
  digits.foldl (fun v c => v * base + (digitValue c).getD 0) 0

/-- An optional sign, and what follows it. -/
def splitSign : List UInt8 → Bool × List UInt8
  | 45 :: rest => (true, rest)
  | 43 :: rest => (false, rest)
  | text => (false, text)

/-- The base a number is written in when it is left open, and its digits: `0x`
and a digit for 16, else `0` for 8, else 10. -/
def splitBase : List UInt8 → ℕ × List UInt8
  | 48 :: x :: d :: rest =>
    if (x = 120 ∨ x = 88) ∧ isDigit 16 d then (16, d :: rest) else (8, 48 :: x :: d :: rest)
  | 48 :: rest => (8, 48 :: rest)
  | text => (10, text)

/-- `strtol` and `strtoul` in base 0: the value, and the text from `*end` on; none
when there is nothing to convert. -/
def strtol (text : List UInt8) : Option (ℤ × List UInt8) :=
  let (negative, unsigned) := splitSign (text.dropWhile isSpace)
  let (base, body) := splitBase unsigned
  let digits := body.takeWhile (isDigit base)
  if digits = [] then none
  else
    let value : ℤ := digitsValue base digits
    some (if negative then -value else value, body.dropWhile (isDigit base))

/-- `kfsw_command_parse_arg`. -/
def parseArg (text : CString) (type : ArgType) : Except Errno Arg :=
  match type with
  | .u32 =>
    let number := text.bytes.dropWhile isSpace
    if number.head? = some 45 then .error .EINVAL
    else
      match strtol number with
      | some (value, []) =>
        if value > 4294967295 then .error .EINVAL else .ok (.u32 (UInt32.ofNat value.toNat))
      | _ => .error .EINVAL
  | .i32 =>
    match strtol text.bytes with
    | some (value, []) =>
      if value > 2147483647 ∨ value < -2147483648 then .error .EINVAL
      else .ok (.i32 (Int32.ofInt value))
    | _ => .error .EINVAL
  | .text => if text.length > maxTextSize then .error .ENAMETOOLONG else .ok (.text (some text))

variable {ω : Type*}

/-- `kfsw_command_find`; the info is the definition's own fields. -/
def find (n : Node ω) (name : CString) : Except Errno (Definition ω) :=
  if !n.ready then .error .EACCES
  else
    match findByName n name with
    | none => .error .ENOENT
    | some d => .ok d

/-- A hexadecimal, an octal and a signed decimal literal. -/
example : parseArg (.ofString "0x1F") .u32 = .ok (.u32 31) ∧
    parseArg (.ofString "017") .u32 = .ok (.u32 15) ∧
    parseArg (.ofString " -12") .i32 = .ok (.i32 (-12)) := by
  decide +kernel

end KfswServices.Command
