/-
# Recorded events

`include/kfsw/services/event.h` and the ring of `src/event/event.c`.  The payload of a
record is the list of its `payload_size` bytes.

The ring is the list of the records held, oldest first; `oldest_index` and `held_count`
only say where in the array that list stands.
-/

import KfswServices.Basic

namespace KfswServices.Event

/-- `KFSW_EVENT_MAX_PAYLOAD_SIZE`. -/
abbrev maxPayloadSize : ℕ := 16

/-- `enum kfsw_event_source`; the sources an event may be recorded of are the first
seven. -/
inductive Source
  | BOOT
  | COMMAND
  | FTP
  | APP
  | FBO
  | GNDWDT
  | RESMON
  | TABLE
  | SCRUB
  | LIMITS
  deriving DecidableEq, Repr

/-- The value of a source. -/
def Source.toUInt16 : Source → UInt16
  | BOOT => 1
  | COMMAND => 2
  | FTP => 3
  | APP => 4
  | FBO => 5
  | GNDWDT => 6
  | RESMON => 7
  | TABLE => 8
  | SCRUB => 9
  | LIMITS => 10

/-- `enum kfsw_event_severity`. -/
inductive Severity
  | INFO
  | WARNING
  | ERROR
  | CRITICAL
  deriving DecidableEq, Repr

/-- The value of a severity. -/
def Severity.toByte : Severity → UInt8
  | INFO => 0
  | WARNING => 1
  | ERROR => 2
  | CRITICAL => 3

/-- `struct kfsw_event_record`. -/
structure Record where
  monotonicUs : UInt64
  sequence : UInt32
  source : UInt16
  id : UInt16
  severity : UInt8
  payload : List UInt8
  deriving DecidableEq, Repr

/-- The checks an event passes before it is queued for the journal: a known source, a
severity and a payload that fits. -/
def Record.Valid (e : Record) : Prop :=
  Source.BOOT.toUInt16 ≤ e.source ∧ e.source ≤ Source.RESMON.toUInt16 ∧
    e.severity ≤ Severity.CRITICAL.toByte ∧ e.payload.length ≤ maxPayloadSize

instance (e : Record) : Decidable e.Valid := inferInstanceAs (Decidable (_ ∧ _ ∧ _ ∧ _))

end KfswServices.Event
