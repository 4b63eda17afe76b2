/-
# What the reply says a command printed

The output of a command on its way into a reply: `capture_write` and `append` of
`src/remexec/remexec.c`, and the wire format behind them.

The capture counts bytes, and `append` takes what is captured as a C string.  What was printed
reaches the requester as it was printed, up to `KFSW_REMEXEC_OUTPUT_MAX` bytes, exactly if there is
no NUL among these (`run_faithful_iff`); what it is told of the numbers is right in any case
(`execute_reply`).
-/

import KfswServices.Remexec.Offered

namespace KfswServices.Remexec

open Library

variable {b : Build}

/-- **What is captured**: all of it is counted, and the beginning kept, however it is split into
writes. -/
theorem captureWrites (writes : List (List UInt8)) (before : List UInt8) :
    writes.foldl (captureWrite b) ⟨before.length, before.take b.outputMax⟩ =
      ⟨(before ++ writes.flatten).length, (before ++ writes.flatten).take b.outputMax⟩ := by
  induction writes generalizing before with
  | nil => rw [List.foldl_nil, List.flatten_nil, List.append_nil]
  | cons data writes ih =>
    have hroom : b.outputMax - (before.take b.outputMax).length = b.outputMax - before.length := by
      rw [List.length_take]
      omega
    have hstep : captureWrite b ⟨before.length, before.take b.outputMax⟩ data =
        ⟨(before ++ data).length, (before ++ data).take b.outputMax⟩ := by
      unfold captureWrite
      rw [hroom, List.length_append, List.take_append]
    rw [List.foldl_cons, hstep, ih, List.flatten_cons, List.append_assoc]

/-- What is to hold of the reply to a command that printed something. -/
structure Faithful (b : Build) (printed : List UInt8) (reply : Reply b) : Prop where
  /-- It has the beginning of what was printed. -/
  text : reply.text = printed.take b.outputMax
  /-- It says how much was printed, -/
  produced : reply.produced.toNat = printed.length
  /-- how much it does not carry, -/
  dropped : reply.dropped.toNat = reply.produced.toNat - reply.text.length
  /-- and whether it carries all. -/
  truncated : reply.truncated = true ↔ reply.dropped ≠ 0

/-- What a reply does not carry, when it carries no more than there was. -/
theorem finish_dropped_toNat (stats : Stats) {reply : Reply b}
    (h : reply.text.length ≤ reply.produced.toNat) :
    (finish stats reply).2.dropped.toNat = reply.produced.toNat - reply.text.length := by
  have hsize : (UInt32.ofNat reply.text.length).toNat = reply.text.length := by
    rw [UInt32.toNat_ofNat']
    exact Nat.mod_eq_of_lt (lt_of_le_of_lt h reply.produced.toNat_lt)
  show (reply.produced - UInt32.ofNat reply.text.length).toNat = _
  rw [UInt32.toNat_sub_of_le, hsize]
  rw [UInt32.le_iff_toNat_le, hsize]
  exact h

/-- **The reply to a command that ran**: its text is what was captured, up to a NUL, and its numbers
are right. -/
theorem execute_reply (s : Service) (env : Env) (line : CString)
    (htotal : (env.shellExecuteCmd line).writes.flatten.length < 2 ^ 32) :
    ∃ reply, (execute b s env line).reply = some reply ∧
      reply.text = ((env.shellExecuteCmd line).writes.flatten.take b.outputMax).takeWhile (· ≠ 0) ∧
      reply.produced.toNat = (env.shellExecuteCmd line).writes.flatten.length ∧
      reply.dropped.toNat = reply.produced.toNat - reply.text.length ∧
      (reply.truncated = true ↔ reply.dropped ≠ 0) := by
  obtain ⟨printed, hprinted⟩ : ∃ printed, (env.shellExecuteCmd line).writes.flatten = printed :=
    ⟨_, rfl⟩
  have hcapture : (env.shellExecuteCmd line).writes.foldl (captureWrite b) ⟨0, []⟩ =
      ⟨printed.length, printed.take b.outputMax⟩ := by
    have h := @captureWrites b (env.shellExecuteCmd line).writes []
    rw [List.take_nil, List.nil_append, hprinted] at h
    exact h
  obtain ⟨stats, r, hreply, htext, hproduced⟩ : ∃ stats r,
      (execute b s env line).reply = some (finish stats r).2 ∧
        r.text = (printed.take b.outputMax).takeWhile (· ≠ 0) ∧
        r.produced = UInt32.ofNat printed.length := by
    refine ⟨_, _, rfl, ?_, ?_⟩
    · show [] ++ (CString.scan ((env.shellExecuteCmd line).writes.foldl (captureWrite b)
        ⟨0, []⟩).buf).bytes.take (b.outputMax - 0) = _
      rw [hcapture]
      -- what is captured is not cut again
      exact List.take_of_length_le
        ((List.takeWhile_prefix _).length_le.trans (List.length_take_le _ _))
    · show UInt32.ofNat
        ((env.shellExecuteCmd line).writes.foldl (captureWrite b) ⟨0, []⟩).written = _
      rw [hcapture]
  have hcount : r.produced.toNat = printed.length := by
    rw [hproduced, UInt32.toNat_ofNat']
    exact Nat.mod_eq_of_lt (hprinted ▸ htotal)
  have hle : r.text.length ≤ r.produced.toNat := by
    rw [htext, hcount]
    exact ((List.takeWhile_prefix _).trans (List.take_prefix _ _)).length_le
  rw [hprinted]
  exact ⟨_, hreply, htext, hcount, finish_dropped_toNat stats hle, decide_eq_true_iff⟩

/-- What is executed is a line that was carried. -/
theorem runLocal_of_executed {s : Service} {env : Env} {line : Option CString} {l : CString}
    (h : (runLocal b s env line).executed = some l) :
    line = some l ∧ runLocal b s env line = execute b s env l := by
  unfold runLocal at h ⊢
  by_cases hinit : (!s.initialized) = true
  · rw [if_pos hinit] at h
    cases h
  · rw [if_neg hinit] at h ⊢
    cases line with
    | none => cases h
    | some line =>
      dsimp only at h ⊢
      split_ifs at h ⊢
      · cases h
      · cases h
      · cases h
      · cases h
      · cases h
      · obtain rfl := Option.some.inj h
        exact ⟨rfl, rfl⟩

/-- A request that is encoded comes out as it was. -/
theorem request_roundtrip {capacity textCapacity : ℕ} (opcode : Opcode) {text : CString}
    (hlength : text.length ≤ commandMax) (hcapacity : requestHeaderSize + text.length ≤ capacity)
    (htext : text.length < textCapacity) : ∃ bytes, encodeRequest capacity opcode text = .ok bytes ∧
      decodeRequest bytes textCapacity = .ok (opcode, text.bytes) := by
  unfold encodeRequest
  rw [if_neg (not_lt.2 hlength), if_neg (not_lt.2 hcapacity)]
  refine ⟨_, rfl, decodeRequest_eq_ok.2 ⟨htext, ?_, rfl⟩⟩
  exact lt_of_le_of_lt hlength (by decide)

/-- **The output of a command.**  Whatever a command prints, in whatever writes, below `2 ^ 32`
bytes: the reply has the beginning of it and says how much there was, the requester decodes the
reply that was built, and a node the request that was made, exactly if there is no NUL among the
bytes that are kept. -/
theorem run_faithful_iff {s : Service} {env : Env} {line : Option CString} {l : CString}
    (hexecuted : (runLocal b s env line).executed = some l)
    (htotal : (env.shellExecuteCmd l).writes.flatten.length < 2 ^ 32) :
    ((∃ reply, (runLocal b s env line).reply = some reply ∧
        Faithful b (env.shellExecuteCmd l).writes.flatten reply) ∧
      (∀ opcode (reply : Reply b) capacity, replyHeaderSize + reply.text.length ≤ capacity →
        ∃ bytes, encodeReply capacity opcode reply = .ok bytes ∧
          decodeReply b bytes opcode = .ok reply) ∧
      ∀ opcode (text : CString) capacity textCapacity, text.length ≤ commandMax →
        requestHeaderSize + text.length ≤ capacity → text.length < textCapacity →
        ∃ bytes, encodeRequest capacity opcode text = .ok bytes ∧
          decodeRequest bytes textCapacity = .ok (opcode, text.bytes)) ↔
      0 ∉ (env.shellExecuteCmd l).writes.flatten.take b.outputMax := by
  obtain ⟨-, hrun⟩ := runLocal_of_executed hexecuted
  obtain ⟨reply, hreply, htext, hproduced, hdropped, htruncated⟩ :=
    @execute_reply b s env l htotal
  rw [hrun, hreply, ← textOf_bytes_eq_iff, textOf_bytes, ← htext]
  constructor
  · rintro ⟨⟨_, h, hfaithful⟩, -⟩
    obtain rfl := Option.some.inj h
    exact hfaithful.text
  · intro h
    exact ⟨⟨reply, rfl, h, hproduced, hdropped, htruncated⟩, fun opcode reply _ hcapacity =>
        ⟨_, if_neg (not_lt.2 hcapacity), decodeReply_replyBytes opcode reply⟩,
      fun opcode _ _ _ => request_roundtrip opcode⟩

/-- A shell on which a command prints these writes. -/
def printing (writes : List (List UInt8)) : Env := ⟨false, fun _ => ⟨writes, 0, 3⟩, true⟩

/-- A command that prints two lines. -/
theorem run_faithful_storage :
    ∃ reply, (runLocal smallBuild offering (printing [[0x6c, 0x66, 0x73, 0x0a], [0x6f, 0x6b, 0x0a]])
        (some (.ofString "storage info"))).reply = some reply ∧
      Faithful smallBuild [0x6c, 0x66, 0x73, 0x0a, 0x6f, 0x6b, 0x0a] reply :=
  ((@run_faithful_iff smallBuild offering (printing [[0x6c, 0x66, 0x73, 0x0a], [0x6f, 0x6b, 0x0a]])
    (some (.ofString "storage info")) (.ofString "storage info") (by decide +kernel)
    (by decide +kernel)).2 (by decide +kernel)).1

/-- **A NUL in the output.**  A command prints `a`, a NUL and `b`: the reply has `a` only, although
there is room. -/
theorem nul_output_cut : (runLocal smallBuild offering (printing [[0x61, 0, 0x62]])
        (some (.ofString "storage info"))).executed = some (.ofString "storage info") ∧
      ¬ ∃ reply, (runLocal smallBuild offering (printing [[0x61, 0, 0x62]])
          (some (.ofString "storage info"))).reply = some reply ∧
        Faithful smallBuild [0x61, 0, 0x62] reply := by
  refine ⟨by decide +kernel, ?_⟩
  rintro ⟨reply, hreply, hfaithful⟩
  have htext := hfaithful.text
  have hcut : (runLocal smallBuild offering (printing [[0x61, 0, 0x62]])
      (some (.ofString "storage info"))).reply.map (·.text) = some [0x61] := by decide +kernel
  rw [hreply, Option.map_some, htext] at hcut
  exact absurd hcut (by decide)

end KfswServices.Remexec
