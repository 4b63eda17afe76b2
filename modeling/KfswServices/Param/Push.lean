/-
# Values from other nodes

A packet that a node pushes, or answers a pull with, carries values that libparam's
`param_queue_apply` stores one after the other, with no way back.  `push_allowed` of
`src/parameter/parameter_csp.c` therefore goes through the whole packet first, and `serve_values`
hands it on only if every item is in order (`pushAllowed_preflight`).

What the packet says is what the readers read, item after item (`Adapter.Reads`); the loop of
`push_allowed` reads it so, and has its checks in between.
-/

import KfswServices.Param.Queue
import KfswServices.Param.Restore

namespace KfswServices.Param

open Library

/-- `KFSW_PARAM_FLAG_LOCAL_ONLY`. -/
abbrev flagLocalOnly : UInt32 := 0x00040000

/-- `KFSW_PARAM_HWID_ANY`. -/
abbrev hwidAny : UInt32 := 1234

/-- The first byte of a packet, as far as the adapter tells the kinds apart. -/
inductive PacketKind
  | pullRequest | pullResponse | pushRequest | pushResponse | pullAllRequest | pullRequestV2
  | pullResponseV2 | pushRequestV2 | pullAllRequestV2 | pushRequestV2Hwid | other
  deriving DecidableEq

/-- A packet: who has sent it, and `length` bytes of data. -/
structure Packet where
  src : UInt16
  data : List UInt8

/-- What the adapter has of libparam: its readers, its numbers and its parameter list.  The weak
`serial_get` may be missing. -/
structure Adapter (ρ κ : Type) where
  mpack : Mpack ρ κ
  kind : UInt8 → PacketKind
  serialGet : Option UInt32
  nodeSelf : UInt16
  /-- `PM_READONLY`. -/
  readOnly : UInt32
  /-- `param_list_find_id`. -/
  findParam : ℤ → ℤ → Option Descriptor

/-- An item of a packet. -/
structure Item where
  param : Descriptor
  offset : ℤ
  value : Value

/-- What a packet with values has in it. -/
structure Payload where
  version : ℕ
  response : Bool
  bytes : List UInt8

/-- A call of an `apply`, and what it has returned. -/
structure ApplyCall where
  entry : Entry
  value : Scalar
  result : Option Errno

/-- The switch of `push_allowed`; `none` is a packet without values. -/
def Packet.payload (packet : Packet) : PacketKind → Option Payload
  | .pullResponse => some ⟨1, true, packet.data.drop 2⟩
  | .pushRequest => some ⟨1, false, packet.data.drop 2⟩
  | .pullResponseV2 => some ⟨2, true, packet.data.drop 2⟩
  | .pushRequestV2 => some ⟨2, false, packet.data.drop 2⟩
  | .pushRequestV2Hwid =>
    some ⟨2, false, (packet.data.drop 2).take (packet.data.length - 2 - 4)⟩
  | _ => none

namespace Adapter

variable {ρ κ ω : Type} (a : Adapter ρ κ) (cfg : Config) (s : Service)

/-- The kind of a packet. -/
def kindOf (packet : Packet) : PacketKind := a.kind (packet.data.getD 0 0)

/-- The hardware that a packet of that kind is for. -/
def hwidAccepted (packet : Packet) : Bool :=
  if packet.data.length < 2 + 4 then false
  else
    let hwid := getLe32 (packet.data.drop (packet.data.length - 4))
    match a.serialGet with
    | none => true
    | some serial => hwid = serial || hwid = hwidAny

/-- The look at the header of an item of version 2. -/
def headerAccepted (first : Bool) (r : ρ) : Bool :=
  let (word, peek) := a.mpack.expectU16 r
  let header := be16toh word
  !(a.mpack.failed peek || (first && !bit header 14) || bit header 10 ||
    (bit header 11 && !bit header 13))

/-- The value of an item, alone or as an array of one. -/
def readValue (param : Descriptor) (r : ρ) : Option (Value × ρ) :=
  let (tag, r) := a.mpack.peekTag r
  let array : Bool := tag = .array
  let (count, r) := if array then a.mpack.expectArray r else (1, r)
  if count ≠ 1 then none
  else
    match a.mpack.decodeValue cfg param r with
    | (.error _, _) => none
    | (.ok value, r) =>
      let r := if array then a.mpack.doneArray r else r
      if a.mpack.failed r then none else some (value, r)

/-- The next item, as the readers read it. -/
def readItem (src : UInt16) (q : κ) (r : ρ) : Option (Item × κ × ρ) :=
  let (item, q, r) := a.mpack.deserializeId q r
  if a.mpack.failed r then none
  else
    match a.findParam (if item.node = 0 then (src.toNat : ℤ) else item.node) item.id with
    | none => none
    | some param =>
      match a.readValue cfg param r with
      | none => none
      | some (value, r) => some (⟨param, item.offset, value⟩, q, r)

/-- The items that the readers read of a packet, to its end. -/
inductive ReadsFrom (src : UInt16) : κ → ρ → List Item → Prop
  | nil {q : κ} {r : ρ} (h : ¬ 0 < a.mpack.remaining r) : ReadsFrom src q r []
  | cons {q q' : κ} {r r' : ρ} {item : Item} {items : List Item} (h : 0 < a.mpack.remaining r)
      (hread : a.readItem cfg src q r = some (item, q', r')) (hrest : ReadsFrom src q' r' items) :
      ReadsFrom src q r (item :: items)

/-- The items of a packet with values. -/
def Reads (packet : Packet) (items : List Item) : Prop :=
  ∃ payload, packet.payload (a.kindOf packet) = some payload ∧
    a.ReadsFrom cfg packet.src (a.mpack.queue payload.version payload.bytes)
      (a.mpack.reader payload.bytes) items

/-- One turn of the loop of `push_allowed`: the item, and its entry if it belongs to this node. -/
def pushItem (payload : Payload) (src : UInt16) (first : Bool) (q : κ) (r : ρ) :
    Option (Item × Option Entry × κ × ρ) :=
  if payload.version = 2 ∧ !a.headerAccepted first r then none
  else
    let (item, q, r) := a.mpack.deserializeId q r
    if a.mpack.failed r then none
    else
      match a.findParam (if item.node = 0 then (src.toNat : ℤ) else item.node) item.id with
      | none => none
      | some param =>
        if param.mask &&& (a.readOnly ||| flagLocalOnly) ≠ 0 ∨ item.offset < -1 ∨
            item.offset > 0 then none
        else
          match a.readValue cfg param r with
          | none => none
          | some (value, r) =>
            if param.node = a.nodeSelf then
              if payload.response then none
              else
                match findId s param.id with
                | none => none
                | some entry =>
                  if validateEntry entry value = none then
                    some (⟨param, item.offset, value⟩, some entry, q, r)
                  else none
            else some (⟨param, item.offset, value⟩, none, q, r)

variable {a cfg s} {src : UInt16} {payload : Payload} {first : Bool} {q q' : κ} {r r' : ρ}
  {param : Descriptor} {value : Value} {item : Item} {found : Option Entry}

/-- **The value of an item** has the type and the size of its parameter, and takes no bytes back. -/
theorem readValue_ok (h : a.readValue cfg param r = some (value, r')) :
    param.Holds value ∧ a.mpack.remaining r' ≤ a.mpack.remaining r := by
  have hrest : ∀ (r₀ : ρ) (done : ρ → ρ), a.mpack.remaining r₀ ≤ a.mpack.remaining r →
      (∀ r, a.mpack.remaining (done r) ≤ a.mpack.remaining r) →
      (match a.mpack.decodeValue cfg param r₀ with
        | (.error _, _) => none
        | (.ok value, r) =>
          if a.mpack.failed (done r) then none else some (value, done r)) = some (value, r') →
        param.Holds value ∧ a.mpack.remaining r' ≤ a.mpack.remaining r := by
    intro r₀ done hr₀ hdone h
    have hle : a.mpack.remaining (a.mpack.decodeValue cfg param r₀).2 ≤ a.mpack.remaining r₀ :=
      Mpack.decodeValue_le
    rcases hvalue : a.mpack.decodeValue cfg param r₀ with ⟨_ | v, r₁⟩
    · rw [hvalue] at h
      cases h
    · rw [hvalue] at h hle
      dsimp only at h hle
      split_ifs at h
      cases h
      exact ⟨(Mpack.decodeValue_ok hvalue).1, (hdone r₁).trans (hle.trans hr₀)⟩
  have hpeek := a.mpack.peekTag_le r
  unfold readValue at h
  dsimp only at h
  by_cases harray : (a.mpack.peekTag r).1 = .array
  · simp only [harray, decide_true, if_true] at h
    split_ifs at h
    exact hrest _ a.mpack.doneArray ((a.mpack.expectArray_le _).trans hpeek) a.mpack.doneArray_le h
  · simp only [harray, decide_false, if_false, Bool.false_eq_true, ne_eq, not_true_eq_false] at h
    exact hrest _ id hpeek (fun _ => le_rfl) h

/-- What has been checked of an item. -/
structure Checked (a : Adapter ρ κ) (s : Service) (response : Bool) (item : Item) : Prop where
  known : ∃ node id, a.findParam node id = some item.param
  writable : item.param.mask &&& (a.readOnly ||| flagLocalOnly) = 0
  whole : item.offset = -1 ∨ item.offset = 0
  holds : item.param.Holds item.value
  accepted : item.param.node = a.nodeSelf → response = false ∧
    ∃ entry, findId s item.param.id = some entry ∧ validateEntry entry item.value = none

/-- **One turn of the loop** reads the next item and has checked it. -/
theorem pushItem_ok (h : a.pushItem cfg s payload src first q r = some (item, found, q', r')) :
    a.readItem cfg src q r = some (item, q', r') ∧ a.Checked s payload.response item ∧
      ∀ entry, found = some entry → item.param.node = a.nodeSelf ∧
        findId s item.param.id = some entry := by
  unfold pushItem at h
  unfold readItem
  by_cases hheader : payload.version = 2 ∧ (!a.headerAccepted first r) = true
  · rw [if_pos hheader] at h
    cases h
  rw [if_neg hheader] at h
  rcases hid : a.mpack.deserializeId q r with ⟨id, q₁, r₁⟩
  rw [hid] at h
  dsimp only at h ⊢
  by_cases hfailed : a.mpack.failed r₁ = true
  · rw [if_pos hfailed] at h
    cases h
  rw [if_neg hfailed] at h ⊢
  cases hparam : a.findParam (if id.node = 0 then (src.toNat : ℤ) else id.node) id.id with
  | none => rw [hparam] at h; cases h
  | some param =>
    rw [hparam] at h
    dsimp only at h ⊢
    by_cases hrefused : param.mask &&& (a.readOnly ||| flagLocalOnly) ≠ 0 ∨ id.offset < -1 ∨
        id.offset > 0
    · rw [if_pos hrefused] at h
      cases h
    rw [if_neg hrefused] at h
    obtain ⟨hmask, hoffset⟩ := not_or.1 hrefused
    cases hread : a.readValue cfg param r₁ with
    | none => rw [hread] at h; cases h
    | some read =>
      obtain ⟨value, r₂⟩ := read
      rw [hread] at h
      dsimp only at h ⊢
      have hwhole : id.offset = -1 ∨ id.offset = 0 := by omega
      have hholds := (readValue_ok hread).1
      by_cases hself : param.node = a.nodeSelf
      · rw [if_pos hself] at h
        by_cases hresponse : payload.response = true
        · rw [if_pos hresponse] at h
          cases h
        rw [if_neg hresponse] at h
        cases hfind : findId s param.id with
        | none => rw [hfind] at h; cases h
        | some entry =>
          rw [hfind] at h
          dsimp only at h
          split_ifs at h with hvalid
          cases h
          refine ⟨rfl, ⟨⟨_, _, hparam⟩, not_not.1 hmask, hwhole, hholds, fun _ => ?_⟩, ?_⟩
          · exact ⟨Bool.eq_false_iff.2 hresponse, entry, hfind, hvalid⟩
          · rintro _ ⟨⟩
            exact ⟨hself, hfind⟩
      · rw [if_neg hself] at h
        cases h
        refine ⟨rfl, ⟨⟨_, _, hparam⟩, not_not.1 hmask, hwhole, hholds, fun heq => ?_⟩, ?_⟩
        · exact absurd heq hself
        · exact fun _ h => nomatch h

theorem readItem_lt (hr : 0 < a.mpack.remaining r)
    (h : a.readItem cfg src q r = some (item, q', r')) :
    a.mpack.remaining r' < a.mpack.remaining r := by
  have hlt := a.mpack.deserializeId_lt q r hr
  unfold readItem at h
  rcases hid : a.mpack.deserializeId q r with ⟨id, q₁, r₁⟩
  rw [hid] at h hlt
  dsimp only at h hlt
  by_cases hfailed : a.mpack.failed r₁ = true
  · rw [if_pos hfailed] at h
    cases h
  rw [if_neg hfailed] at h
  cases hparam : a.findParam (if id.node = 0 then (src.toNat : ℤ) else id.node) id.id with
  | none => rw [hparam] at h; cases h
  | some param =>
    rw [hparam] at h
    dsimp only at h
    cases hread : a.readValue cfg param r₁ with
    | none => rw [hread] at h; cases h
    | some read =>
      rw [hread] at h
      cases h
      exact lt_of_le_of_lt (readValue_ok hread).2 hlt

variable (a cfg s) in
/-- The loop of `push_allowed`: how many items there are, and the last one with an `apply`. -/
def pushItems (payload : Payload) (src : UInt16) (first : Bool) (count : ℕ)
    (fallible : Option (Entry × Scalar)) (q : κ) (r : ρ) :
    Option (ℕ × Option (Entry × Scalar)) :=
  if _hr : 0 < a.mpack.remaining r then
    match hitem : a.pushItem cfg s payload src first q r with
    | none => none
    | some (item, found, q', r') =>
      let fallible :=
        match found with
        | some entry =>
          if entry.definition.apply.isSome then some (entry, item.value.scalar) else fallible
        | none => fallible
      pushItems payload src false (count + 1) fallible q' r'
  else some (count, fallible)
termination_by a.mpack.remaining r
decreasing_by exact readItem_lt ‹_› (pushItem_ok hitem).1

variable (a cfg) in
/-- The rest of `push_allowed`, for a packet with values. -/
def checkItems (owner : Owner ω) (src : UInt16) (payload : Payload) (n : Node ω) :
    Bool × Node ω × List ApplyCall :=
  match a.pushItems cfg n.service payload src true 0 none
    (a.mpack.queue payload.version payload.bytes) (a.mpack.reader payload.bytes) with
  | none => (false, n, [])
  | some (_, none) => (true, n, [])
  | some (count, some (entry, proposed)) =>
    if count ≠ 1 then (false, n, [])
    else
      let (result, w) := owner.apply entry proposed n.owner
      (result = none, { n with owner := w }, [⟨entry, proposed, result⟩])

variable (a cfg) in
/-- `push_allowed`, with the calls of `apply` that it makes. -/
def pushAllowed (owner : Owner ω) (packet : Packet) (n : Node ω) :
    Bool × Node ω × List ApplyCall :=
  if packet.data.length < 2 then (false, n, [])
  else if a.kindOf packet = .pushRequestV2Hwid ∧ !a.hwidAccepted packet then (false, n, [])
  else
    match packet.payload (a.kindOf packet) with
    | none => (true, n, [])
    | some payload => a.checkItems cfg owner packet.src payload n

/-- `kfsw_param_sample_all`. -/
def sampleAll (owner : Owner ω) (n : Node ω) : Node ω :=
  n.service.entries.foldl (fun n entry => n.sample owner entry) n

variable (a cfg) in
/-- `serve_values`, with libparam's `param_serve` as `serve`. -/
def serveValues (owner : Owner ω) (serve : Packet → Node ω → Node ω) (packet : Packet)
    (n : Node ω) : Node ω :=
  if !n.service.initialized then n
  else
    let (allowed, n, _) := a.pushAllowed cfg owner packet n
    if allowed then
      let pull := a.kindOf packet = .pullRequest ∨ a.kindOf packet = .pullRequestV2 ∨
        a.kindOf packet = .pullAllRequest ∨ a.kindOf packet = .pullAllRequestV2
      serve packet (if pull then sampleAll owner n else n)
    else n

/-- **The loop**: it reads the items to the end of the packet and has checked each; what it keeps
for the `apply` is one of them. -/
theorem pushItems_ok {count count' : ℕ} {fallible fallible' : Option (Entry × Scalar)}
    (h : a.pushItems cfg s payload src first count fallible q r = some (count', fallible')) :
    ∃ items, a.ReadsFrom cfg src q r items ∧ (∀ item ∈ items, a.Checked s payload.response item) ∧
      count' = count + items.length ∧
      (fallible' = fallible ∨ ∃ item ∈ items, ∃ entry, item.param.node = a.nodeSelf ∧
        findId s item.param.id = some entry ∧ entry.definition.apply.isSome = true ∧
          fallible' = some (entry, item.value.scalar)) := by
  induction hn : a.mpack.remaining r using Nat.strong_induction_on
    generalizing first count fallible q r with
  | _ n ih =>
    unfold pushItems at h
    by_cases hr : 0 < a.mpack.remaining r
    · rw [dif_pos hr] at h
      split at h
      · cases h
      · next item found q' r' hitem =>
        obtain ⟨hread, hchecked, hfound⟩ := pushItem_ok hitem
        obtain ⟨items, hreads, hall, hcount, hlast⟩ :=
          ih _ (hn ▸ readItem_lt hr hread) h rfl
        refine ⟨item :: items, .cons hr hread hreads, ?_, ?_, ?_⟩
        · exact List.forall_mem_cons.2 ⟨hchecked, hall⟩
        · rw [hcount, List.length_cons]
          omega
        · rcases hlast with hlast | ⟨item', hitem', hrest⟩
          · cases found with
            | none => exact Or.inl hlast
            | some entry =>
              dsimp only at hlast
              split_ifs at hlast with happly
              · obtain ⟨hself, hfind⟩ := hfound entry rfl
                exact Or.inr ⟨item, List.mem_cons_self, entry, hself, hfind, happly, hlast⟩
              · exact Or.inl hlast
          · exact Or.inr ⟨item', List.mem_cons_of_mem _ hitem', hrest⟩
    · rw [dif_neg hr] at h
      cases h
      exact ⟨[], .nil hr, by simp, rfl, Or.inl rfl⟩

/-- A call of an `apply` after all the items of the packet have been checked: the packet is one
item, of the parameter of the `apply`. -/
structure CalledFor (a : Adapter ρ κ) (s : Service) (response : Bool) (item : Item)
    (call : ApplyCall) : Prop where
  checked : a.Checked s response item
  self : item.param.node = a.nodeSelf
  find : findId s item.param.id = some call.entry
  fallible : call.entry.definition.apply.isSome = true
  value : call.value = item.value.scalar

variable (a cfg) in
/-- The ways through the rest of `push_allowed`. -/
theorem checkItems_cases (owner : Owner ω) (src : UInt16) (payload : Payload) (n : Node ω) :
    a.checkItems cfg owner src payload n = (false, n, []) ∨
      ∃ items, a.ReadsFrom cfg src (a.mpack.queue payload.version payload.bytes)
          (a.mpack.reader payload.bytes) items ∧
        (∀ item ∈ items, a.Checked n.service payload.response item) ∧
          (a.checkItems cfg owner src payload n = (true, n, []) ∨
            ∃ item call w, items = [item] ∧ a.CalledFor n.service payload.response item call ∧
              a.checkItems cfg owner src payload n =
                (decide (call.result = none), { n with owner := w }, [call])) := by
  unfold checkItems
  rcases hloop : a.pushItems cfg n.service payload src true 0 none
    (a.mpack.queue payload.version payload.bytes) (a.mpack.reader payload.bytes) with
    _ | ⟨count, _ | ⟨entry, proposed⟩⟩
  · exact Or.inl rfl
  · obtain ⟨items, hreads, hall, -⟩ := pushItems_ok hloop
    exact Or.inr ⟨items, hreads, hall, Or.inl rfl⟩
  · obtain ⟨items, hreads, hall, hcount, hlast⟩ := pushItems_ok hloop
    dsimp only
    by_cases hone : count ≠ 1
    · rw [if_pos hone]
      exact Or.inl rfl
    rw [if_neg hone]
    refine Or.inr ⟨items, hreads, hall, Or.inr ?_⟩
    obtain ⟨item, rfl⟩ := List.length_eq_one_iff.1 (show items.length = 1 by omega)
    rcases hlast with hlast | ⟨item', hitem', entry', hself, hfind, happly, hlast⟩
    · cases hlast
    · obtain rfl := List.mem_singleton.1 hitem'
      cases hlast
      exact ⟨_, ⟨entry, item'.value.scalar, _⟩, _, rfl,
        ⟨hall _ hitem', hself, hfind, happly, rfl⟩, rfl⟩

variable (a cfg) in
/-- The ways through `push_allowed`. -/
theorem pushAllowed_cases (owner : Owner ω) (packet : Packet) (n : Node ω) :
    a.pushAllowed cfg owner packet n = (false, n, []) ∨
      packet.payload (a.kindOf packet) = none ∧ a.pushAllowed cfg owner packet n = (true, n, []) ∨
      ∃ payload, packet.payload (a.kindOf packet) = some payload ∧
        a.pushAllowed cfg owner packet n = a.checkItems cfg owner packet.src payload n := by
  unfold pushAllowed
  by_cases hshort : packet.data.length < 2
  · rw [if_pos hshort]
    exact Or.inl rfl
  rw [if_neg hshort]
  by_cases hhwid : a.kindOf packet = .pushRequestV2Hwid ∧ (!a.hwidAccepted packet) = true
  · rw [if_pos hhwid]
    exact Or.inl rfl
  rw [if_neg hhwid]
  cases packet.payload (a.kindOf packet) with
  | none => exact Or.inr (Or.inl ⟨rfl, rfl⟩)
  | some payload => exact Or.inr (Or.inr ⟨payload, rfl, rfl⟩)

/-- **The preflight.**  `applied` is what `param_queue_apply` is going to take from the packet.
If the packet is let through, every item of it has been checked; an `apply` has been called at most
once, for a packet of one checked item; and a packet that is not let through has changed no storage
and has been applied by no one. -/
theorem pushAllowed_preflight {packet : Packet} {applied : List Item}
    (happly : ∀ items, a.Reads cfg packet items → applied = items) (owner : Owner ω)
    (serve : Packet → Node ω → Node ω) (n : Node ω) : ((a.pushAllowed cfg owner packet n).1 = true →
      ∀ payload, packet.payload (a.kindOf packet) = some payload →
        ∀ item ∈ applied, a.Checked n.service payload.response item) ∧
      (a.pushAllowed cfg owner packet n).2.2.length ≤ 1 ∧
      (∀ call ∈ (a.pushAllowed cfg owner packet n).2.2,
        ∃ payload item, packet.payload (a.kindOf packet) = some payload ∧ applied = [item] ∧
          a.CalledFor n.service payload.response item call) ∧
      ((a.pushAllowed cfg owner packet n).1 = false →
        (a.pushAllowed cfg owner packet n).2.1.storage = n.storage ∧
          (a.serveValues cfg owner serve packet n).storage = n.storage ∧
            ∀ call ∈ (a.pushAllowed cfg owner packet n).2.2, call.result ≠ none) := by
  have hserve : ∀ m calls, a.pushAllowed cfg owner packet n = (false, m, calls) →
      m.storage = n.storage → (a.serveValues cfg owner serve packet n).storage = n.storage := by
    intro m calls heq hsame
    unfold serveValues
    rw [heq]
    split_ifs with hinit
    · rfl
    · exact hsame
  rcases pushAllowed_cases a cfg owner packet n with
    hrefused | ⟨hnone, hallowed⟩ | ⟨payload, hpayload, hcheck⟩
  · rw [hrefused]
    exact ⟨fun h => (by cases h), Nat.zero_le _, by simp,
      fun _ => ⟨rfl, hserve n [] hrefused rfl, by simp⟩⟩
  · rw [hallowed]
    refine ⟨fun _ payload hpayload => ?_, Nat.zero_le _, by simp, fun h => (by cases h)⟩
    rw [hnone] at hpayload
    cases hpayload
  · rcases checkItems_cases a cfg owner packet.src payload n with
      hrefused | ⟨items, hreads, hall, hrest⟩
    · rw [hcheck, hrefused]
      exact ⟨fun h => (by cases h), Nat.zero_le _, by simp,
        fun _ => ⟨rfl, hserve n [] (hcheck.trans hrefused) rfl, by simp⟩⟩
    · obtain rfl := happly items ⟨payload, hpayload, hreads⟩
      have hchecked : ∀ payload', packet.payload (a.kindOf packet) = some payload' →
          ∀ item ∈ applied, a.Checked n.service payload'.response item := by
        intro payload' hpayload'
        obtain rfl := Option.some.inj (hpayload.symm.trans hpayload')
        exact hall
      rcases hrest with hallowed | ⟨item, call, w, hone, hcalled, happlied⟩
      · rw [hcheck, hallowed]
        exact ⟨fun _ => hchecked, Nat.zero_le _, by simp, fun h => (by cases h)⟩
      · have hresult := hcheck.trans happlied
        rw [hresult]
        refine ⟨fun _ => hchecked, le_rfl, fun call' hcall' => ?_, fun hfalse => ?_⟩
        · obtain rfl := List.mem_singleton.1 hcall'
          exact ⟨payload, item, hpayload, hone, hcalled⟩
        · refine ⟨rfl, hserve { n with owner := w } [call] (hresult.trans ?_) rfl,
            fun call' hcall' => ?_⟩
          · exact congrArg (·, { n with owner := w }, [call]) hfalse
          · obtain rfl := List.mem_singleton.1 hcall'
            exact of_decide_eq_false hfalse

end Adapter

/-! ### A packet with one byte in it -/

/-- A reader of small integers: what is left, and whether it has failed. -/
def smallNumber : List UInt8 × Bool → ℕ × (List UInt8 × Bool)
  | ([], _) => (0, [], true)
  | (b :: rest, _) => if b < 0x80 then (b.toNat, rest, false) else (0, [], true)

theorem smallNumber_lt (r : List UInt8 × Bool) : (smallNumber r).1 < 256 := by
  obtain ⟨_ | ⟨b, rest⟩, failed⟩ := r
  · exact Nat.zero_lt_succ _
  · have hb := b.toNat_lt
    unfold smallNumber
    dsimp only
    split_ifs
    · exact hb
    · exact Nat.zero_lt_succ _

/-- An identifier of ten bits whose node is given. -/
def smallId (r : List UInt8 × Bool) : ItemId × List UInt8 × Bool :=
  let (word, r) := smallNumber r
  let header := be16toh (UInt16.ofNat word)
  match r.1 with
  | high :: low :: rest =>
    if header &&& 0xFC00 = 0x4000 then
      (⟨(header &&& 0x03FF).toNat, 256 * high.toNat + low.toNat, -1⟩, rest, false)
    else (⟨0, 0, -1⟩, [], true)
  | _ => (⟨0, 0, -1⟩, [], true)

theorem smallNumber_le (r : List UInt8 × Bool) : (smallNumber r).2.1.length ≤ r.1.length := by
  obtain ⟨_ | ⟨b, rest⟩, failed⟩ := r
  · exact le_rfl
  · unfold smallNumber
    dsimp only
    split_ifs
    · exact Nat.le_succ _
    · exact Nat.zero_le _

theorem smallId_lt (r : List UInt8 × Bool) (h : 0 < r.1.length) :
    (smallId r).2.1.length < r.1.length := by
  have hle := smallNumber_le r
  unfold smallId
  dsimp only
  split
  · next high low rest heq =>
    rw [heq, List.length_cons, List.length_cons] at hle
    split_ifs
    · show rest.length < _
      omega
    · exact h
  · exact h

/-- The readers for packets of small integers. -/
def smallMpack : Mpack (List UInt8 × Bool) Unit where
  reader bytes := (bytes, false)
  queue _ _ := ()
  remaining r := r.1.length
  failed r := r.2
  peekTag r := (.other, r)
  expectU16 r := (UInt16.ofNat (smallNumber r).1, (smallNumber r).2)
  expect _ r := (UInt64.ofNat (smallNumber r).1, (smallNumber r).2)
  expectArray _ := (0, [], true)
  doneArray r := r
  expectStr _ := (0, [], true)
  doneStr r := r
  expectBin _ := (0, [], true)
  doneBin r := r
  readBytes n _ := (List.replicate n 0, [], true)
  deserializeId _ r := ((smallId r).1, (), (smallId r).2)
  length_readBytes _ _ := List.length_replicate
  expect_lt t r h := by
    have hnumber := smallNumber_lt r
    have hwidth := Nat.pow_le_pow_right (n := 256) (by decide) h
    rw [UInt64.toNat_ofNat', Nat.mod_eq_of_lt (by omega)]
    omega
  deserializeId_lt _ := smallId_lt
  peekTag_le _ := le_rfl
  expect_le _ := smallNumber_le
  expectArray_le _ := Nat.zero_le _
  doneArray_le _ := le_rfl
  expectStr_le _ := Nat.zero_le _
  doneStr_le _ := le_rfl
  expectBin_le _ := Nat.zero_le _
  doneBin_le _ := le_rfl
  readBytes_le _ _ := Nat.zero_le _

/-- The parameter of the packet. -/
def byteDescriptor : Descriptor :=
  ⟨0, 0x100, .U8, 1, flagPersistent, CString.ofString "byte", none⟩

/-- A node with the address 5 and that parameter. -/
def byteAdapter : Adapter (List UInt8 × Bool) Unit where
  mpack := smallMpack
  kind b := if b = 7 then .pushRequestV2 else .other
  serialGet := none
  nodeSelf := 0
  readOnly := 1
  findParam node id := if node = 5 ∧ id = 0x100 then some byteDescriptor else none

/-- A push of 4. -/
def bytePacket : Packet := ⟨3, [7, 0, 0x41, 0, 5, 4]⟩

/-- Its item. -/
def byteItem : Item := ⟨byteDescriptor, -1, { Value.blank smallBuild .U8 1 with scalar := 4 }⟩

theorem reads_bytePacket (items : List Item)
    (h : byteAdapter.Reads smallBuild bytePacket items) : [byteItem] = items := by
  obtain ⟨payload, hpayload, hreads⟩ := h
  have hread : byteAdapter.readItem smallBuild 3 () ([0x41, 0, 5, 4], false) =
      some (byteItem, (), [], false) := rfl
  cases hpayload
  cases hreads with
  | nil hempty => exact absurd (by decide) hempty
  | cons hmore hfirst hrest =>
    cases hread.symm.trans hfirst
    cases hrest with
    | nil => rfl
    | cons hmore => exact absurd hmore (by decide)

/-- The byte has been checked. -/
theorem byte_checked : byteAdapter.Checked (keptNode 9).service false byteItem :=
  (Adapter.pushAllowed_preflight reads_bytePacket .idle (fun _ n => n) (keptNode 9)).1
    (by decide +kernel) _ rfl _ List.mem_cons_self

end KfswServices.Param
