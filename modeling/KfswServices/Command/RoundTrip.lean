/-
# The command codec is canonical

A message is encoded to one byte string, and a byte string that decodes is the one its
message is encoded to; the same holds of an argument list and its payload.  So the ticket
cache may compare requests byte by byte.

`Command.Protocol` has the direction from the message to the wire and back.  The other
direction is here: `protocolEncode_decode` names the octets of an accepted buffer, and
`encodeArgsFrom_decodeArgsFrom` follows the loop of `kfsw_command_decode_args` entry by
entry.
-/

import KfswServices.Command.Protocol

namespace KfswServices.Command

open Library

variable {m : Message}

/-- What `kfsw_command_protocol_decode` checks, and what it then reads. -/
theorem of_protocolDecode {buffer : List UInt8} (h : protocolDecode buffer = .ok m) :
    (buffer.getD 0 0 = 1 ∨ buffer.getD 0 0 = 2) ∧
      (buffer.getD 10 0 = 0 ∧ buffer.getD 11 0 = 0) ∧
      (buffer.getD 3 0).toNat ≤ maxArgs ∧
      (getBe16 (buffer.drop 8)).toNat ≤ maxPayloadSize ∧
      headerOf (buffer.getD 0 0) + (getBe16 (buffer.drop 8)).toNat = buffer.length ∧
      m = { readHeader buffer with payload := buffer.drop (headerOf (buffer.getD 0 0)) } := by
  simp only [protocolDecode, ite_error_eq_ok] at h
  obtain ⟨-, h₂, -, h₄, -, h₆, h₇, h₈, h⟩ := h
  rw [not_or, not_not, not_not] at h₄
  refine ⟨?_, h₄, not_lt.1 h₆, not_lt.1 h₇, not_not.1 h₈, (Except.ok.inj h).symm⟩
  by_contra hv
  exact h₂ (not_or.1 hv)

/-- A buffer with a header is its twelve octets and the rest. -/
theorem exists_header (buffer : List UInt8) (h : headerSize ≤ buffer.length) :
    ∃ b₀ b₁ b₂ b₃ b₄ b₅ b₆ b₇ b₈ b₉ b₁₀ b₁₁ rest, buffer =
      b₀ :: b₁ :: b₂ :: b₃ :: b₄ :: b₅ :: b₆ :: b₇ :: b₈ :: b₉ :: b₁₀ :: b₁₁ :: rest := by
  rcases buffer with _ | ⟨b₀, _ | ⟨b₁, _ | ⟨b₂, _ | ⟨b₃, _ | ⟨b₄, _ | ⟨b₅, _ | ⟨b₆, _ | ⟨b₇, _ |
    ⟨b₈, _ | ⟨b₉, _ | ⟨b₁₀, _ | ⟨b₁₁, rest⟩⟩⟩⟩⟩⟩⟩⟩⟩⟩⟩⟩
  all_goals first
    | exact ⟨_, _, _, _, _, _, _, _, _, _, _, _, _, rfl⟩
    | simp [headerSize] at h

/-- A message with a version is encoded with it. -/
theorem wireVersion_eq (hv : m.version = 1 ∨ m.version = 2) : m.wireVersion = m.version := by
  unfold Message.wireVersion
  rcases hv with hv | hv
  · rw [hv]
    rfl
  · rw [hv]
    rfl

/-- **What is encoded**: a message with a version, few enough arguments and a payload that
fits, into a buffer that holds it. -/
theorem protocolEncode_of_fits {capacity : ℕ} (hv : m.version = 1 ∨ m.version = 2)
    (ha : m.argCount.toNat ≤ maxArgs) (hp : m.payload.length ≤ maxPayloadSize)
    (hc : headerOf m.version + m.payload.length ≤ capacity) : protocolEncode capacity m =
      .ok ([m.version, m.opcode, m.status, m.argCount] ++ (putBe16 m.commandId ++
        (putBe16 m.requestId ++ (putBe16 (UInt16.ofNat m.payload.length) ++ ([0, 0] ++
          ((if m.version = 2 then putBe64 m.token else []) ++ m.payload)))))) := by
  have hwire := wireVersion_eq hv
  have hversion : ¬ (m.version ≠ 1 ∧ m.version ≠ 2) := by
    rw [not_and_or, not_not, not_not]
    exact hv
  unfold protocolEncode Message.tokenBytes
  rw [if_neg (not_or.2 ⟨not_lt.2 hp, not_lt.2 ha⟩), hwire, if_neg hversion, if_neg (not_lt.2 hc)]

/-- **A buffer that decodes is what its message is encoded to.** -/
theorem protocolEncode_decode {buffer : List UInt8} (h : protocolDecode buffer = .ok m)
    {capacity : ℕ} (hc : buffer.length ≤ capacity) : protocolEncode capacity m = .ok buffer := by
  obtain ⟨hv, hr, ha, hp, hl, rfl⟩ := of_protocolDecode h
  have hh : headerSize ≤ headerOf (buffer.getD 0 0) := by
    unfold headerOf
    split_ifs
    · decide
    · rfl
  have hsize : (buffer.drop (headerOf (buffer.getD 0 0))).length =
      (getBe16 (buffer.drop 8)).toNat := by
    rw [List.length_drop]
    omega
  rw [protocolEncode_of_fits hv ha (by rw [hsize]; exact hp) (by rw [hsize]; exact hl.trans_le hc)]
  simp only
  rw [hsize, UInt16.ofNat_toNat]
  obtain ⟨b₀, b₁, b₂, b₃, b₄, b₅, b₆, b₇, b₈, b₉, b₁₀, b₁₁, rest, rfl⟩ :=
    exists_header buffer (by omega)
  obtain rfl : b₁₀ = 0 := hr.1
  obtain rfl : b₁₁ = 0 := hr.2
  rcases hv with hv | hv
  · obtain rfl : b₀ = 1 := hv
    simp [readHeader, headerOf, putBe16_getBe16]
  · obtain rfl : b₀ = 2 := hv
    -- version 2 carries eight octets of token in front of the payload
    have hrest : 8 ≤ rest.length := by
      have hlen : retryHeaderSize + (getBe16 (b₈ :: b₉ :: 0 :: 0 :: rest)).toNat =
        rest.length + 12 := hl
      unfold retryHeaderSize at hlen
      omega
    rcases rest with _ | ⟨t₀, _ | ⟨t₁, _ | ⟨t₂, _ | ⟨t₃, _ | ⟨t₄, _ | ⟨t₅, _ | ⟨t₆, _ |
      ⟨t₇, rest⟩⟩⟩⟩⟩⟩⟩⟩
    all_goals first
      | simp [readHeader, headerOf, putBe16_getBe16, putBe64_getBe64]; done
      | simp at hrest

/-! ### Arguments -/

/-- A value that decodes is what its argument is encoded to. -/
theorem valueBytes_decodeValue {type : UInt8} {value : List UInt8} {a : Arg}
    (h : decodeValue type value = .ok a) : a.type.toByte = type ∧ a.valueBytes = .ok value := by
  unfold decodeValue at h
  split_ifs at h with h₁ h₂ h₃ h₄ h₅ h₆ h₇
  · obtain rfl := Except.ok.inj h
    obtain ⟨a, b, c, d, rfl⟩ : ∃ a b c d, value = [a, b, c, d] :=
      List.length_eq_four.1 (not_not.1 h₂)
    exact ⟨h₁.symm, congrArg Except.ok (putBe32_getBe32 a b c d [])⟩
  · obtain rfl := Except.ok.inj h
    obtain ⟨a, b, c, d, rfl⟩ : ∃ a b c d, value = [a, b, c, d] :=
      List.length_eq_four.1 (not_not.1 h₄)
    exact ⟨h₃.symm, congrArg Except.ok (putBe32_getBe32 a b c d [])⟩
  · obtain rfl := Except.ok.inj h
    exact ⟨h₅.symm, if_neg h₆⟩

/-- **The payload of a decoded list is what the list is encoded to**, behind what was
written before. -/
theorem encodeArgsFrom_decodeArgsFrom {count : ℕ} {rest : List UInt8} {args : List Arg}
    (h : decodeArgsFrom count rest = .ok args) : args.length = count ∧
      ∀ (out : List UInt8) (capacity : ℕ), out.length + rest.length ≤ capacity →
        encodeArgsFrom capacity args out = .ok (out ++ rest) := by
  induction count generalizing rest args with
  | zero =>
    unfold decodeArgsFrom at h
    split_ifs at h with hrest
    obtain rfl := Except.ok.inj h
    obtain rfl : rest = [] := not_not.1 hrest
    exact ⟨rfl, fun out capacity _ => by simp [encodeArgsFrom]⟩
  | succ count ih =>
    rw [decodeArgsFrom] at h
    simp only [ite_error_eq_ok] at h
    obtain ⟨hshort, hsize, h⟩ := h
    -- the entry: its type, its size and its value
    rcases rest with _ | ⟨t, _ | ⟨s₀, _ | ⟨s₁, body⟩⟩⟩
    any_goals (simp at hshort; done)
    simp only [List.drop_succ_cons, List.drop_zero, List.getD_cons_zero] at hsize h
    set size := (getBe16 (s₀ :: s₁ :: body)).toNat with hsz
    cases hd : decodeValue t (body.take size) with
    | error e => simp [hd] at h
    | ok a =>
      simp only [hd] at h
      cases hrec : decodeArgsFrom count (body.drop size) with
      | error e => simp [hrec, Except.map] at h
      | ok tail =>
        simp only [hrec, Except.map] at h
        obtain rfl := Except.ok.inj h
        obtain ⟨htype, hvalue⟩ := valueBytes_decodeValue hd
        obtain ⟨hlen, htail⟩ := ih hrec
        have htake : (body.take size).length = size := by
          rw [List.length_take]
          omega
        have hentry : entryBytes a (body.take size) = t :: s₀ :: s₁ :: body.take size := by
          unfold entryBytes
          rw [htype, htake, hsz, UInt16.ofNat_toNat, putBe16_getBe16]
          rfl
        refine ⟨by rw [List.length_cons, hlen], fun out capacity hcap => ?_⟩
        simp only [List.length_cons] at hcap
        rw [encodeArgsFrom, hvalue]
        simp only
        rw [if_neg (by omega), hentry, htail]
        · simp
        · simp only [List.length_append, List.length_cons, htake, List.length_drop]
          omega

/-- **The payload that decodes is canonical.** -/
theorem encodeArgs_decodeArgs {args : List Arg} (h : decodeArgs m = .ok args) {capacity : ℕ}
    (hc : m.payload.length ≤ capacity) :
    m.argCount = UInt8.ofNat args.length ∧ encodeArgs capacity args = .ok m.payload := by
  unfold decodeArgs at h
  rw [ite_error_eq_ok] at h
  obtain ⟨hmax, h⟩ := h
  obtain ⟨hlen, henc⟩ := encodeArgsFrom_decodeArgsFrom h
  refine ⟨by rw [hlen, UInt8.ofNat_toNat], ?_⟩
  unfold encodeArgs
  rw [hlen, if_neg hmax]
  simpa using henc [] capacity (by simpa using hc)

/-- **The wire format round trips, both ways.**  A message with a version, a legal opcode,
few enough arguments and a payload that fits is decoded as it was encoded, and a buffer that
decodes is encoded as it was; an argument list that encodes is decoded as it was, and a payload
that decodes is encoded as it was. -/
theorem wire_format_round_trip : (∀ (m : Message) (capacity : ℕ), m.version = 1 ∨ m.version = 2 →
      legalOpcode m.version m.opcode → m.argCount.toNat ≤ maxArgs →
      m.payload.length ≤ maxPayloadSize → (m.version = 1 → m.token = 0) →
      headerOf m.version + m.payload.length ≤ capacity →
      ∃ bytes, protocolEncode capacity m = .ok bytes ∧ protocolDecode bytes = .ok m) ∧
    (∀ (buffer : List UInt8) (m : Message) (capacity : ℕ), protocolDecode buffer = .ok m →
      buffer.length ≤ capacity → protocolEncode capacity m = .ok buffer) ∧
    (∀ (args : List Arg) (payload : List UInt8) (capacity : ℕ) (m : Message),
      encodeArgs capacity args = .ok payload → m.payload = payload →
      m.argCount = UInt8.ofNat args.length → decodeArgs m = .ok args) ∧
    (∀ (m : Message) (args : List Arg) (capacity : ℕ), decodeArgs m = .ok args →
      m.payload.length ≤ capacity →
      m.argCount = UInt8.ofNat args.length ∧ encodeArgs capacity args = .ok m.payload) := by
  refine ⟨?_, fun _ _ _ h hc => protocolEncode_decode h hc,
    fun _ _ _ m h hp hc => (decodeArgs_encodeArgs h m hp hc).2.2,
    fun _ _ _ h hc => encodeArgs_decodeArgs h hc⟩
  intro m capacity hv hop ha hp htoken hc
  have hwire := wireVersion_eq hv
  have henc := protocolEncode_of_fits hv ha hp hc
  refine ⟨_, henc, ?_⟩
  have hdec := protocolDecode_encode henc (by rwa [hwire]) fun hne =>
    htoken (hv.resolve_right fun h2 => hne (hwire.trans h2))
  rw [hdec, hwire]

/-- An EXECUTE with a token and two arguments. -/
def twoArguments : Message where
  version := 2
  token := 5
  opcode := Opcode.EXECUTE.toByte
  status := 0
  argCount := 2
  commandId := 20
  requestId := 7
  payload := [1, 0, 4, 0, 0, 1, 2, 3, 0, 2, 104, 105]

/-- Such a message, and its arguments, both ways. -/
theorem wire_format_round_trip_two : (∃ bytes, protocolEncode 32 twoArguments = .ok bytes ∧
      protocolDecode bytes = .ok twoArguments ∧ protocolEncode 32 twoArguments = .ok bytes) ∧
    decodeArgs twoArguments = .ok [.u32 258, .text (some ⟨[104, 105], by decide⟩)] ∧
    encodeArgs 12 [.u32 258, .text (some ⟨[104, 105], by decide⟩)] = .ok twoArguments.payload := by
  obtain ⟨hmessage, hbuffer, hargs, hpayload⟩ := wire_format_round_trip
  have henc : encodeArgs 12 [.u32 258, .text (some ⟨[104, 105], by decide⟩)] =
    .ok twoArguments.payload := by decide +kernel
  obtain ⟨bytes, hb, hd⟩ := hmessage twoArguments 32 (by decide) (by decide) (by decide) (by decide)
    (by decide) (by decide)
  have hdec := hargs _ _ 12 twoArguments henc rfl rfl
  refine ⟨⟨bytes, hb, hd, ?_⟩, hdec, (hpayload twoArguments _ 12 hdec (by decide)).2⟩
  refine hbuffer bytes twoArguments 32 hd ?_
  obtain ⟨-, -, -, rfl⟩ := protocolEncode_eq_ok hb
  decide +kernel

end KfswServices.Command
