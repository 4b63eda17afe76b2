/-
# Commands: arguments, results, messages

The data of `include/kfsw/services/command.h` and
`src/command/command_internal.h`: argument values, invocation results, and the
message that both directions of the remote protocol carry.

A result's detail is the text of `char detail[KFSW_COMMAND_MAX_DETAIL_SIZE]`:
terminated inside the array, so at most 95 bytes (`Detail`).
-/

import KfswServices.Basic

namespace KfswServices.Command

/-- `KFSW_COMMAND_MAX_ARGS`. -/
abbrev maxArgs : ℕ := 4

/-- `KFSW_COMMAND_MAX_TEXT_SIZE`. -/
abbrev maxTextSize : ℕ := 64

/-- `KFSW_COMMAND_MAX_DETAIL_SIZE`, the terminator included. -/
abbrev maxDetailSize : ℕ := 96

/-- `KFSW_COMMAND_MAX_PAYLOAD_SIZE`. -/
abbrev maxPayloadSize : ℕ := 192

/-- `enum kfsw_command_type`. -/
inductive ArgType
  | u32
  | i32
  | text
  deriving DecidableEq, Repr

/-- The wire value of a type. -/
def ArgType.toByte : ArgType → UInt8
  | u32 => 1
  | i32 => 2
  | text => 3

/-- `struct kfsw_command_arg`; a text is a pointer, so it may be NULL. -/
inductive Arg
  | u32 (value : UInt32)
  | i32 (value : Int32)
  | text (value : Option CString)
  deriving DecidableEq

/-- The `type` tag of an argument. -/
def Arg.type : Arg → ArgType
  | u32 _ => .u32
  | i32 _ => .i32
  | text _ => .text

/-- `enum kfsw_command_status`. -/
inductive Status
  | OK
  | UNKNOWN
  | INVALID_ARGUMENT
  | DENIED
  | BUSY
  | FAILED
  | UNAVAILABLE
  deriving DecidableEq, Repr

/-- The wire value of a status. -/
def Status.toByte : Status → UInt8
  | OK => 0
  | UNKNOWN => 1
  | INVALID_ARGUMENT => 2
  | DENIED => 3
  | BUSY => 4
  | FAILED => 5
  | UNAVAILABLE => 6

/-- The status of a wire value, none past `KFSW_COMMAND_UNAVAILABLE`. -/
def Status.ofByte (b : UInt8) : Option Status :=
  if b = 0 then some OK else if b = 1 then some UNKNOWN else if b = 2 then some INVALID_ARGUMENT
  else if b = 3 then some DENIED else if b = 4 then some BUSY else if b = 5 then some FAILED
  else if b = 6 then some UNAVAILABLE else none

@[simp] theorem Status.ofByte_toByte (s : Status) : Status.ofByte s.toByte = some s := by
  cases s <;> rfl

/-- The text of `result->detail`, terminated inside its array. -/
structure Detail where
  text : CString
  fits : text.length < maxDetailSize
  deriving DecidableEq

/-- The detail `memset` leaves. -/
def Detail.empty : Detail := ⟨CString.empty, by decide⟩

/-- A text written by `snprintf(result->detail, sizeof(result->detail), …)`. -/
def Detail.print (s : CString) : Detail :=
  ⟨s.take (maxDetailSize - 1), Nat.lt_of_le_of_lt (s.length_take_le _) (by decide)⟩

/-- `struct kfsw_command_result`. -/
structure Result where
  status : Status
  detail : Detail
  deriving DecidableEq

/-- The result `memset(result, 0, sizeof(*result))` leaves. -/
def Result.zero : Result := ⟨.OK, Detail.empty⟩

/-- `struct kfsw_command_source`. -/
structure Source where
  node : UInt16
  authenticated : Bool
  viaCsp : Bool
  deriving DecidableEq

/-- `enum kfsw_command_opcode`. -/
inductive Opcode
  | REQUEST
  | RESULT
  | PREPARE
  | TICKET
  | EXECUTE
  deriving DecidableEq, Repr

/-- The wire value of an opcode. -/
def Opcode.toByte : Opcode → UInt8
  | REQUEST => 1
  | RESULT => 2
  | PREPARE => 3
  | TICKET => 4
  | EXECUTE => 5

/-- `struct kfsw_command_message`; `payload` holds `payload_size` bytes. -/
structure Message where
  version : UInt8
  token : UInt64
  opcode : UInt8
  status : UInt8
  argCount : UInt8
  commandId : UInt16
  requestId : UInt16
  payload : List UInt8
  deriving DecidableEq

/-- The message `memset(&request, 0, sizeof(request))` leaves. -/
def Message.zero : Message := ⟨0, 0, 0, 0, 0, 0, 0, []⟩

end KfswServices.Command
