/-
# The remote log server

`serve_log` and `serve_journal` of `src/log_remote.c`.  Between two accesses to the log history,
or to the journal, other threads append to them; `LogEnv` and `JournalEnv` say what lands before
each access, and which replies get a buffer.

The log is read by sequence, from the window taken at the start; the journal by age, from the
oldest record asked for to the newest.

`cbpprintf` is outside the repository: a `Printer` is what it puts out for a package.
-/

import KfswServices.Journal.Service
import KfswServices.Log.Wire

namespace KfswServices.Log

open Library

/-- The characters `cbpprintf` puts out for a package. -/
abbrev Printer := List UInt8 → List UInt8

/-- `KFSW_LOG_TEXT_SIZE`. -/
abbrev textSize : ℕ := 192

/-- `put_char` on a character that fits. -/
def putChar (c : UInt8) : UInt8 := if c = 0x0A ∨ c = 0x0D then 0x20 else c

/-- `kfsw_log_history_format`: the text in front of its NUL, and whether it is truncated. -/
def formatRecord (print : Printer) (e : Encoded) : List UInt8 × Bool :=
  if e.package then
    (((print e.data).take (textSize - 1)).map putChar,
      e.truncated || decide ((print e.data).length > textSize - 1))
  else (e.data.take (min e.size.toNat (textSize - 1)), e.truncated)

/-- The string at the start of a text, as `strlen` measures it. -/
def cString (text : List UInt8) : List UInt8 := text.takeWhile (· ≠ 0)

/-- The message `send_message` makes of a record. -/
def toMessage (print : Printer) (format : UInt8) (e : Encoded) : Message :=
  let text := cString (formatRecord print e).1
  let truncated := (formatRecord print e).2
  if format = formatDictionary ∧ e.package then
    ⟨e.sequence, e.uptimeMs, e.module, e.severity, truncated, true, some (crc32 text),
      e.data.take e.size.toNat⟩
  else
    ⟨e.sequence, e.uptimeMs, e.module, e.severity,
      truncated || decide (text.length > wireDataMax), false, none, text.take wireDataMax⟩

/-- What the server sends in one read: a start, records, and an end if it gets a buffer. -/
structure Served where
  start : Start
  sent : List Reply
  status : Status
  endBuffer : Bool

/-- The replies in the order they are sent. -/
def Served.replies (v : Served) : List Reply :=
  .start v.start :: (v.sent ++
    if v.endBuffer then [.ended v.status (UInt16.ofNat v.sent.length)] else [])

/-! ### The log -/

/-- The format in force, the appends that land before the `n`-th access to the history, and the
buffers: for the start, for the record read by the `n`-th access, for the end. -/
structure LogEnv where
  format : UInt8
  appends : ℕ → List Call
  startBuffer : Bool
  buffer : ℕ → Bool
  endBuffer : Bool

/-- The loop of `serve_log` over `n` sequences from `sequence` on. -/
def serveLogLoop (cfg : Config) (print : Printer) (env : LogEnv) (minimum : UInt8) :
    ℕ → ℕ → UInt64 → Ring → Status × List Message
  | 0, _, _, _ => (.COMPLETE, [])
  | n + 1, i, sequence, s =>
    let s := s.appends cfg (env.appends i)
    match s.getEncoded cfg sequence with
    | .error _ => (.CHANGED, [])
    | .ok e =>
      if e.severity < minimum then serveLogLoop cfg print env minimum n (i + 1) (sequence + 1) s
      else if !env.buffer i then (.NO_BUFFER, [])
      else
        let (status, ms) := serveLogLoop cfg print env minimum n (i + 1) (sequence + 1) s
        (status, toMessage print env.format e :: ms)

/-- `serve_log`; none when it sends nothing. -/
def serveLog (cfg : Config) (print : Printer) (env : LogEnv) (s : Ring) (minimum : UInt8)
    (count : UInt16) : Option Served :=
  let s := s.appends cfg (env.appends 0)
  match s.window cfg count with
  | .error _ => none
  | .ok w =>
    if !env.startBuffer then none
    else
      let (status, ms) := serveLogLoop cfg print env minimum (w.end.toNat - w.first.toNat) 1
        w.first (s.restoreOnce cfg)
      some ⟨⟨env.format, w.first, w.end, w.overwritten⟩, ms.map .message, status, env.endBuffer⟩

/-! ### The journal -/

/-- The calls of the journal that land before the `n`-th access to it, what the storage answers to
that access, and the buffers. -/
structure JournalEnv (cfg : Journal.Config) where
  ops : ℕ → List (Journal.Op cfg)
  fs : ℕ → Journal.FsEnv cfg
  startBuffer : Bool
  buffer : ℕ → Bool
  endBuffer : Bool

/-- The loop of `serve_journal`, from `age` on down. -/
def serveJournalLoop {cfg : Journal.Config} (env : JournalEnv cfg) :
    ℕ → ℕ → Journal.Service → Status × List Journal.Record
  | 0, _, _ => (.COMPLETE, [])
  | age + 1, i, s =>
    let s := (s.execAll (env.ops i)).1
    match s.get cfg (env.fs i) age with
    | .error _ => (.CHANGED, [])
    | .ok r =>
      if !env.buffer i then (.NO_BUFFER, [])
      else
        let (status, rs) := serveJournalLoop env age (i + 1) s
        (status, r :: rs)

/-- `serve_journal`; access 0 is `kfsw_journal_get_stats`. -/
def serveJournal {cfg : Journal.Config} (env : JournalEnv cfg) (s : Journal.Service)
    (count : UInt16) : Option Served :=
  if !env.startBuffer then none
  else
    let s := (s.execAll (env.ops 0)).1
    let (status, rs) := serveJournalLoop env (min count.toNat s.store.held) 1 s
    some ⟨⟨formatText, 0, 0, 0⟩, rs.map .event, status, env.endBuffer⟩

/-- `serve_journal` without `CONFIG_KFSW_JOURNAL`. -/
def serveNoJournal (startBuffer endBuffer : Bool) : Option Served :=
  if !startBuffer then none else some ⟨⟨formatText, 0, 0, 0⟩, [], .NOT_SERVED, endBuffer⟩

/-! ### What is sent fits -/

theorem toMessage_fits (print : Printer) (format : UInt8) {e : Encoded}
    (he : e.package = true → e.size.toNat ≤ encodedSize) : (toMessage print format e).Fits := by
  unfold toMessage
  by_cases hd : format = formatDictionary ∧ e.package
  · rw [if_pos hd]
    refine ⟨?_, fun _ => rfl⟩
    have hlen := List.length_take_le e.size.toNat e.data
    have hsize := he hd.2
    show (e.data.take e.size.toNat).length + 4 ≤ 190
    simp only [encodedSize] at hsize
    omega
  · rw [if_neg hd]
    exact ⟨List.length_take_le _ _, nofun⟩

theorem serveLogLoop_fits {cfg : Config} {print : Printer} {env : LogEnv} {minimum : UInt8}
    (n i : ℕ) (sequence : UInt64) (s : Ring) :
    ∀ m ∈ (serveLogLoop cfg print env minimum n i sequence s).2, m.Fits := by
  induction n generalizing i sequence s with
  | zero => exact nofun
  | succ n ih =>
    rw [serveLogLoop]
    cases hget : (s.appends cfg (env.appends i)).getEncoded cfg sequence with
    | error e => exact nofun
    | ok e =>
      simp only
      split_ifs
      · exact ih _ _ _
      · exact nofun
      · intro m hm
        rcases List.mem_cons.1 hm with rfl | hm
        · exact toMessage_fits print env.format fun _ => (getEncoded_eq_ok.1 hget).2.2.2
        · exact ih _ _ _ m hm

end KfswServices.Log
