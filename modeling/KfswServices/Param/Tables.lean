/-
# The tables of another node

`serve_tables` and `kfsw_param_remote_tables` of `src/parameter/parameter_csp.c`.  A reply holds as
many tables as fit a packet, from the one on that was asked for, and says whether there are more;
the client asks again from where the reply stopped.  However the tables are split over replies, it
visits what `kfsw_param_visit_tables` visits on the node itself.  Whatever comes in, it reads the
packet and nothing behind it, and goes on only for a reply that has tables in it and says that there
are more (`remote_tables_complete`).
-/

import KfswServices.Param.Remote
import KfswServices.Param.Snapshot

namespace KfswServices.Param

open Library

/-- `KFSW_PARAM_DESCRIPTION_MAX`. -/
abbrev descriptionMax : ℕ := 64

/-- `KFSW_PARAM_TABLES_VERSION`. -/
abbrev tablesVersion : UInt8 := 6

/-- `KFSW_PARAM_TABLES_HEADER`. -/
abbrev tablesHeader : ℕ := 3

/-- `KFSW_PARAM_TABLES_ENTRY_HEADER`. -/
abbrev tablesEntryHeader : ℕ := 5

/-- `kfsw_param_table_visitor_t`, with what its context becomes. -/
abbrev TableVisitor (ω : Type) := TableInfo → ω → Bool × ω

variable {ω : Type}

/-- The loop of `kfsw_param_visit_tables`: whether it came to the end, and the context. -/
def visitLoop (visitor : TableVisitor ω) : List TableInfo → ω → Bool × ω
  | [], w => (true, w)
  | table :: tables, w =>
    match visitor table w with
    | (true, w) => visitLoop visitor tables w
    | (false, w) => (false, w)

/-- `kfsw_param_visit_tables`. -/
def visitTables (visitor : Option (TableVisitor ω)) (s : Service) (w : ω) : Option Errno × ω :=
  match visitor with
  | none => (some .EINVAL, w)
  | some visitor =>
    if !s.initialized then (some .EACCES, w) else (none, (visitLoop visitor s.tables w).2)

/-! ### The server -/

/-- `struct table_reply`; `data` is the packet behind the header. -/
structure TableReply where
  data : List UInt8
  skip : UInt8
  seen : UInt8
  written : UInt8
  full : Bool

/-- What a table takes in a reply. -/
def tableItem (info : TableInfo) : List UInt8 :=
  let name := info.name.take 255
  let description := (info.description.getD CString.empty).take 255
  info.id :: (putBe16 info.count ++ (UInt8.ofNat name.length :: UInt8.ofNat description.length ::
    (name.bytes ++ description.bytes)))

/-- `append_table`, with packets of `CSP_BUFFER_SIZE` bytes. -/
def appendTable (bufferSize : ℕ) : TableVisitor TableReply := fun info reply =>
  let next := { reply with seen := reply.seen + 1 }
  if reply.seen < reply.skip then (true, next)
  else if tablesHeader + reply.data.length + (tableItem info).length > bufferSize then
    (false, { next with full := true })
  else
    (true, { next with data := reply.data ++ tableItem info, written := reply.written + 1 })

/-- `serve_tables`, with a buffer for the reply. -/
def serveTables (bufferSize : ℕ) (s : Service) (start : UInt8) : List UInt8 :=
  let reply := (visitTables (some (appendTable bufferSize)) s ⟨[], start, 0, 0, false⟩).2
  tablesVersion :: reply.written :: (if reply.full then 1 else 0) :: reply.data

/-- What `list_server` makes of a request for tables. -/
def serveTablesRequest (bufferSize : ℕ) (s : Service) (request : List UInt8) :
    Option (List UInt8) :=
  if request.length = 2 ∧ request.getD 0 0 = tablesVersion then
    some (serveTables bufferSize s (request.getD 1 0))
  else none

/-! ### The client -/

/-- What comes of the entries of a reply. -/
inductive Entries (ω : Type)
  | refused (e : Stop) (w : ω)
  | stopped (w : ω)
  | taken (w : ω)

/-- The loop over the entries of a reply. -/
def takeEntries (visitor : TableVisitor ω) (packet : List UInt8) : ℕ → ℕ → ω → Entries ω
  | 0, _, w => .taken w
  | count + 1, offset, w =>
    if offset + tablesEntryHeader > packet.length then .refused (.errno .EBADMSG) w
    else
      match readAt packet offset tablesEntryHeader with
      | .error e => .refused e w
      | .ok header =>
        let nameLength := (header.getD 3 0).toNat
        let descriptionLength := (header.getD 4 0).toNat
        let body := offset + tablesEntryHeader
        if nameLength > nameMax ∨ descriptionLength > descriptionMax ∨
            body + nameLength + descriptionLength > packet.length then
          .refused (.errno .EBADMSG) w
        else
          match readAt packet body nameLength, readAt packet (body + nameLength)
            descriptionLength with
          | .ok name, .ok description =>
            match visitor ⟨header.getD 0 0, CString.scan name, some (CString.scan description),
              getBe16 (header.drop 1)⟩ w with
            | (true, w) =>
              takeEntries visitor packet count (body + nameLength + descriptionLength) w
            | (false, w) => .stopped w
          | .error e, _ => .refused e w
          | _, .error e => .refused e w

/-- What comes of a reply: the call ends, or it asks again from `count` tables on. -/
inductive Page (ω : Type)
  | done (result : Option Stop) (w : ω)
  | next (count : UInt8) (w : ω)

/-- A reply, in the loop of `kfsw_param_remote_tables`. -/
def takePage (visitor : TableVisitor ω) (packet : List UInt8) (w : ω) : Page ω :=
  if packet.length < tablesHeader then .done (some (.errno .EBADMSG)) w
  else
    match readAt packet 0 tablesHeader with
    | .error e => .done (some e) w
    | .ok header =>
      if header.getD 0 0 ≠ tablesVersion then .done (some (.errno .EBADMSG)) w
      else
        let count := header.getD 1 0
        match takeEntries visitor packet count.toNat tablesHeader w with
        | .refused e w => .done (some e) w
        | .stopped w => .done none w
        | .taken w =>
          if header.getD 2 0 = 0 then .done none w
          else if count = 0 then .done (some (.errno .EBADMSG)) w
          else .next count w

namespace Client

/-- The loop of `kfsw_param_remote_tables`; `none` if it goes on after as many turns. -/
def remoteTablesLoop (visitor : TableVisitor ω) (node : UInt16) :
    ℕ → UInt8 → ω → Program (Option (Option Stop × ω))
  | 0, _, _ => pure none
  | turns + 1, start, w => do
    match ← exchange node [tablesVersion, start] with
    | .error e => pure (some (some (.errno e), w))
    | .ok none => pure (some (some (.errno (if start = 0 then .ENOTSUP else .ETIMEDOUT)), w))
    | .ok (some packet) =>
      match takePage visitor packet w with
      | .done result w => pure (some (result, w))
      | .next count w => remoteTablesLoop visitor node turns (start + count) w

/-- `kfsw_param_remote_tables`. -/
def remoteTables (visitor : Option (TableVisitor ω)) (node : UInt16) (turns : ℕ) (w : ω) :
    Program (Option (Option Stop × ω)) := do
  match ← validateRemoteNode node, visitor with
  | some e, _ => pure (some (some (.errno e), w))
  | none, none => pure (some (some (.errno .EINVAL), w))
  | none, some visitor => remoteTablesLoop visitor node turns 0 w

end Client

/-! ### What a reply holds -/

theorem visitLoop_append (visitor : TableVisitor ω) (before after : List TableInfo) (w : ω) :
    visitLoop visitor (before ++ after) w =
      if (visitLoop visitor before w).1 then visitLoop visitor after (visitLoop visitor before w).2
      else visitLoop visitor before w := by
  induction before generalizing w with
  | nil => rfl
  | cons table before ih =>
    rw [List.cons_append, visitLoop, visitLoop]
    rcases visitor table w with ⟨_ | _, w'⟩
    · rfl
    · exact ih w'

/-- What an octet counts. -/
theorem toNat_ofNat_of_lt {k : ℕ} (h : k < 256) : (UInt8.ofNat k).toNat = k := by
  rw [UInt8.toNat_ofNat']
  exact Nat.mod_eq_of_lt h

variable {bufferSize : ℕ} {tables : List TableInfo}

/-- The tables that an earlier reply held are passed over. -/
theorem visitLoop_skip {k i : ℕ} {data : List UInt8} {written : UInt8} {full : Bool}
    (hk : k < 256) (hi : i ≤ k) (hall : k ≤ i + tables.length) :
    visitLoop (appendTable bufferSize) tables ⟨data, UInt8.ofNat k, UInt8.ofNat i, written, full⟩ =
      visitLoop (appendTable bufferSize) (tables.drop (k - i))
        ⟨data, UInt8.ofNat k, UInt8.ofNat k, written, full⟩ := by
  induction tables generalizing i with
  | nil =>
    obtain rfl : i = k := Nat.le_antisymm hi hall
    rw [Nat.sub_self, List.drop_zero]
  | cons table tables ih =>
    rcases Nat.eq_or_lt_of_le hi with rfl | hlt
    · rw [Nat.sub_self, List.drop_zero]
    · have hskip : UInt8.ofNat i < UInt8.ofNat k := by
        rw [UInt8.lt_iff_toNat_lt, toNat_ofNat_of_lt hk, toNat_ofNat_of_lt (hlt.trans hk)]
        exact hlt
      have hnext : UInt8.ofNat i + 1 = UInt8.ofNat (i + 1) := (UInt8.ofNat_add i 1).symm
      obtain ⟨d, hd⟩ : ∃ d, k - i = d + 1 := ⟨k - (i + 1), by omega⟩
      have hd' : k - (i + 1) = d := by omega
      rw [visitLoop, appendTable, if_pos hskip, hnext, hd, List.drop_succ_cons, ← hd']
      exact ih hlt (by rw [List.length_cons] at hall; omega)

/-- **The rest are packed** while they fit. -/
theorem visitLoop_pack {skip : UInt8} {i : ℕ} {data : List UInt8} {written : UInt8}
    (hi : skip.toNat ≤ i) (hlt : i + tables.length < 256) : ∃ m seen, m ≤ tables.length ∧
      (visitLoop (appendTable bufferSize) tables ⟨data, skip, UInt8.ofNat i, written, false⟩).2 =
        ⟨data ++ (tables.take m).flatMap tableItem, skip, seen, written + UInt8.ofNat m,
          decide (m < tables.length)⟩ ∧
      ∀ table ∈ tables.head?, tablesHeader + data.length + (tableItem table).length ≤ bufferSize →
        0 < m := by
  induction tables generalizing i data written with
  | nil =>
    exact ⟨0, UInt8.ofNat i, le_rfl, by simp [visitLoop], by simp⟩
  | cons table tables ih =>
    rw [List.length_cons] at hlt
    have hseen : ¬ UInt8.ofNat i < skip := by
      rw [UInt8.lt_iff_toNat_lt, toNat_ofNat_of_lt (by omega)]
      omega
    by_cases hfull : tablesHeader + data.length + (tableItem table).length > bufferSize
    · refine ⟨0, UInt8.ofNat i + 1, Nat.zero_le _, ?_, ?_⟩
      · rw [visitLoop, appendTable, if_neg hseen, if_pos hfull]
        simp
      · rintro _ ⟨⟩ hfits
        exact absurd hfits (not_le.2 hfull)
    · have hnext : UInt8.ofNat i + 1 = UInt8.ofNat (i + 1) := (UInt8.ofNat_add i 1).symm
      obtain ⟨m, seen, hm, hpack, -⟩ := @ih (i + 1) (data ++ tableItem table) (written + 1)
        (by omega) (by omega)
      refine ⟨m + 1, seen, Nat.succ_le_succ hm, ?_, fun _ _ _ => Nat.succ_pos m⟩
      have hcount : written + UInt8.ofNat (m + 1) = written + 1 + UInt8.ofNat m := by
        rw [UInt8.ofNat_add, UInt8.add_assoc, UInt8.add_comm (UInt8.ofNat m)]
        rfl
      rw [visitLoop, appendTable, if_neg hseen, if_neg hfull, hnext]
      dsimp only
      rw [hpack, hcount, List.take_succ_cons, List.flatMap_cons, List.append_assoc,
        List.length_cons, decide_eq_decide.2 (Nat.succ_lt_succ_iff)]

/-- **A reply** holds the next tables, and says whether there are more. -/
theorem serveTables_eq {k : ℕ} {s : Service} (hinit : s.initialized = true)
    (hcount : s.tables.length < 256) (hk : k ≤ s.tables.length) :
    ∃ m, m ≤ (s.tables.drop k).length ∧ serveTables bufferSize s (UInt8.ofNat k) =
        tablesVersion :: UInt8.ofNat m :: (if m < (s.tables.drop k).length then 1 else 0) ::
          ((s.tables.drop k).take m).flatMap tableItem ∧
      ∀ table ∈ (s.tables.drop k).head?, tablesHeader + (tableItem table).length ≤ bufferSize →
        0 < m := by
  have hlen : k + (s.tables.drop k).length < 256 := by
    rw [List.length_drop]
    omega
  obtain ⟨m, seen, hm, hpack, hpos⟩ := @visitLoop_pack bufferSize (s.tables.drop k)
    (UInt8.ofNat k) k [] 0 (by rw [toNat_ofNat_of_lt (by omega)]) hlen
  refine ⟨m, hm, ?_, fun table htable hfits => hpos table htable (by simpa using hfits)⟩
  have hskip := @visitLoop_skip bufferSize s.tables k 0 [] 0 false (by omega) (Nat.zero_le k)
    (by omega)
  rw [Nat.sub_zero] at hskip
  have hreply : (visitTables (some (appendTable bufferSize)) s
      ⟨[], UInt8.ofNat k, 0, 0, false⟩).2 =
        ⟨[] ++ ((s.tables.drop k).take m).flatMap tableItem, UInt8.ofNat k, seen, 0 + UInt8.ofNat m,
          decide (m < (s.tables.drop k).length)⟩ := by
    unfold visitTables
    rw [hinit]
    exact (congrArg Prod.snd hskip).trans hpack
  unfold serveTables
  rw [hreply]
  simp only [List.nil_append, UInt8.zero_add, decide_eq_true_eq]

/-! ### What the client makes of it -/

/-- What is sent of a table: a description that is not there is an empty one. -/
def TableInfo.shown (info : TableInfo) : TableInfo :=
  { info with description := some (info.description.getD CString.empty) }

/-- A table that an entry can hold. -/
structure TableInfo.Carried (info : TableInfo) : Prop where
  name : info.name.length ≤ nameMax
  description : (info.description.getD CString.empty).length ≤ descriptionMax

theorem tableItem_carried {info : TableInfo} (h : info.Carried) : tableItem info =
    info.id :: (putBe16 info.count ++ (UInt8.ofNat info.name.length ::
      UInt8.ofNat (info.description.getD CString.empty).length ::
        (info.name.bytes ++ (info.description.getD CString.empty).bytes))) := by
  have hname := h.name
  have hdescription := h.description
  unfold tableItem
  rw [CString.take_of_length_le (by simp only [nameMax] at hname; omega),
    CString.take_of_length_le (by simp only [descriptionMax] at hdescription; omega)]

/-- A read of what stands there. -/
theorem readAt_append (before bytes after : List UInt8) :
    readAt (before ++ (bytes ++ after)) before.length bytes.length = .ok bytes := by
  unfold readAt region
  rw [if_pos (by simp only [List.length_append]; omega), List.drop_left, List.take_left]

/-- An entry that stands whole in a reply. -/
theorem takeEntries_succ (visitor : TableVisitor ω) (header rest : List UInt8)
    {name description : CString} (hheader : header.length = tablesEntryHeader)
    (hnameLength : (header.getD 3 0).toNat = name.length)
    (hdescriptionLength : (header.getD 4 0).toNat = description.length)
    (hname : name.length ≤ nameMax) (hdescription : description.length ≤ descriptionMax)
    (before : List UInt8) (count : ℕ) (w : ω) :
    takeEntries visitor (before ++ (header ++ (name.bytes ++ (description.bytes ++ rest))))
        (count + 1) before.length w =
      match visitor ⟨header.getD 0 0, name, some description, getBe16 (header.drop 1)⟩ w with
      | (true, w) =>
        takeEntries visitor (before ++ (header ++ (name.bytes ++ (description.bytes ++ rest)))) count
          (before ++ (header ++ (name.bytes ++ description.bytes))).length w
      | (false, w) => .stopped w := by
  have hlen : (before ++ (header ++ (name.bytes ++ (description.bytes ++ rest)))).length =
      before.length + tablesEntryHeader + name.length + description.length + rest.length := by
    simp only [List.length_append, hheader, CString.length]
    omega
  have hend : (before ++ (header ++ (name.bytes ++ description.bytes))).length =
      before.length + tablesEntryHeader + name.length + description.length := by
    simp only [List.length_append, hheader, CString.length]
    omega
  have hread₁ := readAt_append before header (name.bytes ++ (description.bytes ++ rest))
  have hread₂ := readAt_append (before ++ header) name.bytes (description.bytes ++ rest)
  have hread₃ := readAt_append (before ++ header ++ name.bytes) description.bytes rest
  simp only [List.append_assoc, List.length_append, hheader] at hread₁ hread₂ hread₃
  rw [takeEntries, if_neg (by rw [hlen]; omega), hread₁]
  dsimp only
  rw [hnameLength, hdescriptionLength, if_neg (by rw [hlen]; omega), hend]
  rw [← Nat.add_assoc] at hread₃
  rw [show name.length = name.bytes.length from rfl,
    show description.length = description.bytes.length from rfl, hread₂, hread₃]
  simp only [CString.scan_bytes]

/-- **Entries are visited** as they were sent. -/
theorem takeEntries_items (visitor : TableVisitor ω) (h : ∀ table ∈ tables, table.Carried)
    (before : List UInt8) (w : ω) :
    takeEntries visitor (before ++ tables.flatMap tableItem) tables.length before.length w =
      if (visitLoop visitor (tables.map TableInfo.shown) w).1 then
        .taken (visitLoop visitor (tables.map TableInfo.shown) w).2
      else .stopped (visitLoop visitor (tables.map TableInfo.shown) w).2 := by
  induction tables generalizing before w with
  | nil => rfl
  | cons table tables ih =>
    obtain ⟨hcarried, htables⟩ := List.forall_mem_cons.1 h
    obtain ⟨a, b, hput, hget⟩ := exists_putBe16 table.count
    have hname := hcarried.name
    have hdescription := hcarried.description
    have hitem : tableItem table = [table.id, a, b, UInt8.ofNat table.name.length,
        UInt8.ofNat (table.description.getD CString.empty).length] ++
          (table.name.bytes ++ (table.description.getD CString.empty).bytes) := by
      rw [tableItem_carried hcarried, hput]
      rfl
    have hpacket : before ++ (table :: tables).flatMap tableItem =
        before ++ ([table.id, a, b, UInt8.ofNat table.name.length,
          UInt8.ofNat (table.description.getD CString.empty).length] ++ (table.name.bytes ++
            ((table.description.getD CString.empty).bytes ++ tables.flatMap tableItem))) := by
      rw [List.flatMap_cons, hitem]
      simp only [List.append_assoc]
    have hsucc := takeEntries_succ visitor [table.id, a, b, UInt8.ofNat table.name.length,
      UInt8.ofNat (table.description.getD CString.empty).length] (tables.flatMap tableItem) rfl
      (toNat_ofNat_of_lt (by simp only [nameMax] at hname; omega))
      (toNat_ofNat_of_lt (by simp only [descriptionMax] at hdescription; omega)) hname hdescription
      before tables.length w
    have hshown : (⟨table.id, table.name, some (table.description.getD CString.empty),
        getBe16 ([table.id, a, b, UInt8.ofNat table.name.length,
          UInt8.ofNat (table.description.getD CString.empty).length].drop 1)⟩ : TableInfo) =
        table.shown :=
      congrArg (TableInfo.mk table.id table.name (some (table.description.getD CString.empty)))
        (hget _)
    rw [List.getD_cons_zero, hshown] at hsucc
    rw [List.length_cons, hpacket, hsucc, List.map_cons, visitLoop]
    rcases visitor table.shown w with ⟨_ | _, w'⟩
    · rfl
    · have hnext := ih htables (before ++ tableItem table) w'
      rw [hitem, List.append_assoc, List.append_assoc, List.append_assoc] at hnext
      exact hnext

/-- **The entries are read** inside the packet. -/
theorem takeEntries_inside (visitor : TableVisitor ω) (packet : List UInt8) (count offset : ℕ)
    (w w' : ω) : takeEntries visitor packet count offset w ≠ .refused .outside w' := by
  induction count generalizing offset w with
  | zero => simp [takeEntries]
  | succ count ih =>
    unfold takeEntries
    by_cases hroom : offset + tablesEntryHeader > packet.length
    · simp [if_pos hroom]
    rw [if_neg hroom, readAt_of_le (not_lt.1 hroom)]
    generalize region packet offset tablesEntryHeader = header
    dsimp only
    by_cases hbad : (header.getD 3 0).toNat > nameMax ∨ (header.getD 4 0).toNat > descriptionMax ∨
        offset + tablesEntryHeader + (header.getD 3 0).toNat + (header.getD 4 0).toNat >
          packet.length
    · rw [if_pos hbad]
      simp
    rw [if_neg hbad]
    obtain ⟨-, -, hend⟩ := not_or.1 hbad |>.imp_right not_or.1
    rw [readAt_of_le (by omega), readAt_of_le (by omega)]
    dsimp only
    rcases visitor _ w with ⟨_ | _, w₁⟩
    · simp
    · exact ih _ _

/-- A reply with a header. -/
theorem takePage_cons (visitor : TableVisitor ω) (version count more : UInt8) (rest : List UInt8)
    (w : ω) : takePage visitor (version :: count :: more :: rest) w =
      if version ≠ tablesVersion then .done (some (.errno .EBADMSG)) w
      else
        match takeEntries visitor ([version, count, more] ++ rest) count.toNat
          [version, count, more].length w with
        | .refused e w => .done (some e) w
        | .stopped w => .done none w
        | .taken w =>
          if more = 0 then .done none w
          else if count = 0 then .done (some (.errno .EBADMSG)) w
          else .next count w := by
  have hlen : tablesHeader ≤ (version :: count :: more :: rest).length := Nat.le_add_left _ _
  unfold takePage
  rw [if_neg (not_lt.2 hlen), readAt_of_le (by rwa [Nat.zero_add])]
  rfl

/-- A reply that brings the listing on: there are tables in it, and it says there are more. -/
def progress (packet : List UInt8) : Bool :=
  tablesHeader ≤ packet.length && packet.getD 0 0 == tablesVersion && packet.getD 1 0 != 0 &&
    packet.getD 2 0 != 0

/-- **A reply is read** inside the packet, and asks for another only if it brings the listing on. -/
theorem takePage_cases (visitor : TableVisitor ω) (packet : List UInt8) (w : ω) :
    (∃ result w', takePage visitor packet w = .done result w' ∧ result ≠ some .outside) ∨
      ∃ w', takePage visitor packet w = .next (packet.getD 1 0) w' ∧ progress packet = true := by
  by_cases hshort : packet.length < tablesHeader
  · exact Or.inl ⟨_, _, if_pos hshort, by simp⟩
  obtain ⟨a, b, c, rest, rfl⟩ : ∃ a b c rest, packet = a :: b :: c :: rest := by
    match packet, hshort with
    | a :: b :: c :: rest, _ => exact ⟨a, b, c, rest, rfl⟩
    | [], h => exact absurd h (by decide)
    | [_], h => exact absurd h (by simp)
    | [_, _], h => exact absurd h (by simp)
  rw [takePage_cons]
  by_cases hversion : a = tablesVersion
  swap
  · exact Or.inl ⟨_, _, if_pos hversion, by simp⟩
  rw [if_neg (not_not.2 hversion)]
  cases hentries : takeEntries visitor ([a, b, c] ++ rest) b.toNat [a, b, c].length w with
  | refused e w' =>
    refine Or.inl ⟨_, _, rfl, fun he => ?_⟩
    rw [Option.some.inj he] at hentries
    exact takeEntries_inside _ _ _ _ _ _ hentries
  | stopped w' => exact Or.inl ⟨_, _, rfl, by simp⟩
  | taken w' =>
    by_cases hmore : c = 0
    · exact Or.inl ⟨_, _, if_pos hmore, by simp⟩
    by_cases hcount : b = 0
    · exact Or.inl ⟨_, _, (if_neg hmore).trans (if_pos hcount), by simp⟩
    · refine Or.inr ⟨w', (if_neg hmore).trans (if_neg hcount), ?_⟩
      unfold progress
      rw [decide_eq_true (not_lt.1 hshort)]
      simp [hversion, hmore, hcount]

/-- **A reply of the server** from a table on: the tables in it are visited, and either they are the
last or the client asks from behind them. -/
theorem takePage_serveTables (visitor : TableVisitor ω) {k : ℕ} {s : Service}
    (hinit : s.initialized = true) (hcount : s.tables.length < 256) (hk : k ≤ s.tables.length)
    (hcarried : ∀ table ∈ s.tables, table.Carried)
    (hfits : ∀ table ∈ s.tables, tablesHeader + (tableItem table).length ≤ bufferSize) (w : ω) :
    ∃ m ≤ (s.tables.drop k).length, (s.tables.drop k ≠ [] → 0 < m) ∧
      takePage visitor (serveTables bufferSize s (UInt8.ofNat k)) w =
        let seen := visitLoop visitor (((s.tables.drop k).take m).map TableInfo.shown) w
        if seen.1 = true ∧ m < (s.tables.drop k).length then .next (UInt8.ofNat m) seen.2
        else .done none seen.2 := by
  obtain ⟨m, hm, hreply, hpos⟩ := @serveTables_eq bufferSize k s hinit hcount hk
  have hlast : (s.tables.drop k).length ≤ s.tables.length := by
    rw [List.length_drop]
    omega
  have hfirst : s.tables.drop k ≠ [] → 0 < m := by
    intro hne
    obtain ⟨table, tables, hdrop⟩ := List.exists_cons_of_ne_nil hne
    refine hpos table (by rw [hdrop]; rfl) (hfits table ?_)
    exact List.mem_of_mem_drop (hdrop ▸ List.mem_cons_self)
  refine ⟨m, hm, hfirst, ?_⟩
  have hlen : ((s.tables.drop k).take m).length = m := by
    rw [List.length_take]
    omega
  have hentries := @takeEntries_items _ ((s.tables.drop k).take m) visitor
    (fun table htable => hcarried table (List.mem_of_mem_drop (List.mem_of_mem_take htable)))
    [tablesVersion, UInt8.ofNat m, if m < (s.tables.drop k).length then 1 else 0] w
  rw [hlen] at hentries
  rw [hreply, takePage_cons, if_neg (not_not.2 rfl), toNat_ofNat_of_lt (by omega), hentries]
  rcases visitLoop visitor (((s.tables.drop k).take m).map TableInfo.shown) w with ⟨_ | _, w'⟩
  · rfl
  · by_cases hmore : m < (s.tables.drop k).length
    · have hne : UInt8.ofNat m ≠ 0 := by
        intro h0
        have h0' := congrArg UInt8.toNat h0
        rw [toNat_ofNat_of_lt (by omega)] at h0'
        have hnil : s.tables.drop k ≠ [] := List.ne_nil_of_length_pos (by omega)
        exact Nat.ne_of_gt (hfirst hnil) h0'
      simp only [if_true, true_and, if_pos hmore, if_neg hne,
        if_neg (show ¬ (1 : UInt8) = 0 by decide)]
    · simp only [if_true, true_and, if_neg hmore]

namespace Client

variable {visitor : TableVisitor ω} {node : UInt16}

/-- **From a table on**, every one of the rest is visited, as long as the visitor goes on. -/
theorem remoteTablesLoop_serve (info : LinkInfo) {turns k : ℕ} {s : Service}
    (hinit : s.initialized = true) (hcount : s.tables.length < 256) (hk : k ≤ s.tables.length)
    (hcarried : ∀ table ∈ s.tables, table.Carried)
    (hfits : ∀ table ∈ s.tables, tablesHeader + (tableItem table).length ≤ bufferSize)
    (hturns : (s.tables.drop k).length < turns) (last : List UInt8) (w : ω) :
    ((remoteTablesLoop visitor node turns (UInt8.ofNat k) w).exec
        (answering info (serveTablesRequest bufferSize s)) last).2.1 =
      some (none, (visitLoop visitor ((s.tables.drop k).map TableInfo.shown) w).2) := by
  induction turns generalizing k last w with
  | zero => exact absurd hturns (Nat.not_lt_zero _)
  | succ turns ih =>
    have hserve : serveTablesRequest bufferSize s [tablesVersion, UInt8.ofNat k] =
        some (serveTables bufferSize s (UInt8.ofNat k)) := if_pos ⟨rfl, rfl⟩
    have hexchange := exchange_answering info (serveTablesRequest bufferSize s) node
      [tablesVersion, UInt8.ofNat k] last
    rw [hserve] at hexchange
    obtain ⟨m, hm, hfirst, hpage⟩ := takePage_serveTables visitor hinit hcount hk hcarried hfits w
    rw [remoteTablesLoop, Prog.exec_bind_of hexchange]
    dsimp only
    rw [hpage]
    have hsplit := visitLoop_append visitor (((s.tables.drop k).take m).map TableInfo.shown)
      (((s.tables.drop k).drop m).map TableInfo.shown) w
    rw [← List.map_append, List.take_append_drop] at hsplit
    rw [hsplit]
    by_cases hseen : (visitLoop visitor (((s.tables.drop k).take m).map TableInfo.shown) w).1 = true
    swap
    · dsimp only
      rw [if_neg hseen, if_neg fun h => hseen h.1]
      rfl
    dsimp only
    rw [if_pos hseen]
    by_cases hmore : m < (s.tables.drop k).length
    · rw [if_pos ⟨hseen, hmore⟩]
      have hpos := hfirst (List.ne_nil_of_length_pos (by omega))
      rw [List.length_drop] at hm hmore hturns
      have hnext := @ih (k + m) (by omega) (by rw [List.length_drop]; omega)
        [tablesVersion, UInt8.ofNat k]
        (visitLoop visitor (((s.tables.drop k).take m).map TableInfo.shown) w).2
      rw [List.drop_drop, ← hnext, UInt8.ofNat_add]
    · have hall : (s.tables.drop k).drop m = [] :=
        List.drop_eq_nil_of_le (not_lt.1 hmore)
      rw [if_neg fun h => hmore h.2, hall]
      rfl

/-! ### What the link sees -/

/-- The exchanges that were begun, and the packets that came back. -/
structure Traffic where
  exchanges : ℕ
  replies : List (List UInt8)

/-- Whatever comes back, it is written down. -/
def Traffic.step : (o : Call) → Traffic → Answer o → Traffic → Prop
  | .send _, t, _, t' => t' = { t with exchanges := t.exchanges + 1 }
  | .read, t, reply, t' => t' = { t with replies := t.replies ++ reply.toList }
  | .info, t, _, t' | .remoteLock, t, _, t' | .tableLock, t, _, t' | .time, t, _, t'
  | .connect _ _, t, _, t' | .buffer, t, _, t' => t' = t

/-- What holds of a listing when it comes to an end: it has read inside the packets, and there was
one exchange for every reply that brought it on, and at most one more. -/
def Paced (turns : ℕ) (result : Option (Option Stop × ω)) (t : Traffic) : Prop :=
  (∀ w, result ≠ some (some .outside, w)) ∧ t.exchanges ≤ t.replies.countP progress + 1 ∧
    (result = none → turns ≤ t.replies.countP progress)

/-- An exchange: there is one more, with at most one packet. -/
theorem ensures_exchange {request : List UInt8} {t : Traffic}
    {Q : Except Errno (Option (List UInt8)) → Traffic → Prop}
    (herror : ∀ e, Q (.error e) t) (hnone : Q (.ok none) ⟨t.exchanges + 1, t.replies⟩)
    (hsome : ∀ packet, Q (.ok (some packet)) ⟨t.exchanges + 1, t.replies ++ [packet]⟩) :
    Ensures Traffic.step Eq (fun _ _ _ _ => True) (exchange node request) Q t := by
  unfold exchange
  rw [ensures_bind, ensures_perform]
  rintro _ rfl (_ | _) _ rfl
  · exact ⟨trivial, herror _⟩
  refine ⟨trivial, ?_⟩
  rw [if_neg (by simp), ensures_bind, ensures_perform]
  rintro _ rfl (_ | _) _ rfl
  · exact ⟨trivial, herror _⟩
  refine ⟨trivial, ?_⟩
  rw [if_neg (by simp), ensures_bind, ensures_perform]
  rintro _ rfl (_ | _) _ rfl
  · exact ⟨trivial, herror _⟩
  refine ⟨trivial, ?_⟩
  rw [if_neg (by simp), ensures_bind, ensures_perform]
  rintro _ rfl _ _ rfl
  refine ⟨trivial, ?_⟩
  rw [ensures_bind, ensures_perform]
  rintro _ rfl (_ | _) _ rfl
  · exact ⟨trivial, hnone⟩
  refine ⟨trivial, ?_⟩
  rw [if_pos rfl, ensures_bind, ensures_perform]
  rintro _ rfl (_ | packet) _ rfl
  · exact ⟨trivial, by simpa using hnone⟩
  · exact ⟨trivial, hsome packet⟩

/-- **The loop is paced** by the replies. -/
theorem remoteTablesLoop_paced (turns done : ℕ) (start : UInt8) (w : ω) {t : Traffic}
    (hexchanges : t.exchanges ≤ t.replies.countP progress)
    (hdone : done ≤ t.replies.countP progress) :
    Ensures Traffic.step Eq (fun _ _ _ _ => True) (remoteTablesLoop visitor node turns start w)
      (Paced (done + turns)) t := by
  induction turns generalizing done start w t with
  | zero => exact ⟨by simp, by omega, fun _ => hdone⟩
  | succ turns ih =>
    unfold remoteTablesLoop
    rw [ensures_bind]
    refine ensures_exchange (fun e => ?_) ?_ fun packet => ?_
    · exact ⟨by simp, by omega, by simp⟩
    · exact ⟨by simp, Nat.succ_le_succ hexchanges, by simp⟩
    have hmono : t.replies.countP progress ≤ (t.replies ++ [packet]).countP progress := by
      rw [List.countP_append]
      exact Nat.le_add_right _ _
    rcases takePage_cases visitor packet w with ⟨result, w', hpage, hinside⟩ | ⟨w', hpage, hprogress⟩
    · dsimp only
      rw [hpage]
      refine ⟨fun w'' h => hinside ?_, ?_, by simp⟩
      · exact congrArg Prod.fst (Option.some.inj h)
      · exact Nat.succ_le_succ (hexchanges.trans hmono)
    · dsimp only
      rw [hpage]
      have hcount : (t.replies ++ [packet]).countP progress = t.replies.countP progress + 1 := by
        rw [List.countP_append, List.countP_singleton, if_pos hprogress]
      rw [Nat.add_comm turns, ← Nat.add_assoc]
      exact ih (done + 1) _ w' (by simp only [hcount]; omega) (by simp only [hcount]; omega)

/-- **The call is paced** by the replies. -/
theorem remoteTables_paced (visitor : Option (TableVisitor ω)) (turns : ℕ) (w : ω) :
    Ensures Traffic.step Eq (fun _ _ _ _ => True) (remoteTables visitor node turns w)
      (Paced turns) ⟨0, []⟩ := by
  unfold remoteTables validateRemoteNode
  rw [ensures_bind, ensures_bind, ensures_perform]
  rintro _ rfl link _ rfl
  refine ⟨trivial, ?_⟩
  have hrefused : ∀ e : Errno, Paced turns (some (some (.errno e), w)) ⟨0, []⟩ :=
    fun e => ⟨by simp, Nat.zero_le _, by simp⟩
  split_ifs
  · exact hrefused _
  · exact hrefused _
  · cases visitor with
    | none => exact hrefused _
    | some visitor =>
      have h := @remoteTablesLoop_paced _ visitor node turns 0 0 w ⟨0, []⟩ le_rfl le_rfl
      rwa [Nat.zero_add] at h

/-! ### The listing is complete -/

/-- A node that `validate_remote_node` lets pass. -/
structure Reaches (info : LinkInfo) (node : UInt16) : Prop where
  paramInitialized : info.paramInitialized = true
  cspInitialized : info.cspInitialized = true
  routerRunning : info.routerRunning = true
  other : node ≠ info.address
  within : node.toNat < 2 ^ info.hostBits

theorem validateRemoteNode_answering {info : LinkInfo} (h : Reaches info node)
    (serve : List UInt8 → Option (List UInt8)) (last : List UInt8) :
    ((validateRemoteNode node).exec (answering info serve) last).2 = (none, last) := by
  show ((if !info.paramInitialized || !info.cspInitialized || !info.routerRunning then _
    else if node = info.address ∨ node.toNat ≥ 2 ^ info.hostBits then _
    else pure none : Program (Option Errno)).exec (answering info serve) last).2 = _
  rw [h.paramInitialized, h.cspInitialized, h.routerRunning,
    if_neg (by simp), if_neg (not_or.2 ⟨h.other, not_le.2 h.within⟩)]
  rfl

/-- A call of `kfsw_param_init` leaves tables that are in an allocated band. -/
theorem init_allocated {cfg : Config} {sets : List (Option DefinitionSet)} {s : Service}
    (hs : ∀ table ∈ s.tables, tableIsAllocated table.id = true) :
    ∀ table ∈ (init cfg sets s).2.tables, tableIsAllocated table.id = true := by
  unfold init
  by_cases hsets : sets.isEmpty
  · rwa [if_pos hsets]
  rw [if_neg hsets]
  by_cases hinit : s.initialized = true
  · rwa [if_pos hinit]
  rw [if_neg hinit]
  have hboot : { s with entries := [], tables := [] } = Service.boot := by
    rw [Bool.not_eq_true] at hinit
    rw [hinit]
    rfl
  rw [hboot]
  cases hadd : addSets cfg sets Service.boot with
  | error e => exact fun table htable => absurd htable (List.not_mem_nil)
  | ok u =>
    have hregistered := (addSets_registered registered_boot hadd).allocated
    dsimp only
    split_ifs
    · exact fun table htable => absurd htable (List.not_mem_nil)
    · split <;> exact hregistered

theorem afterCalls_allocated (cfg : Config) (calls : List (List (Option DefinitionSet))) :
    ∀ table ∈ (afterCalls cfg calls).tables, tableIsAllocated table.id = true := by
  induction calls using List.reverseRecOn with
  | nil => exact fun table htable => absurd htable (List.not_mem_nil)
  | append_singleton calls sets ih =>
    have hlast : afterCalls cfg (calls ++ [sets]) = (init cfg sets (afterCalls cfg calls)).2 := by
      simp [afterCalls]
    rw [hlast]
    exact init_allocated ih

/-- The tables after the calls of `kfsw_param_init`: in the order of their identifiers, fewer than
a count holds, and none on a service that is not initialized. -/
theorem afterCalls_tables (cfg : Config) (calls : List (List (Option DefinitionSet))) :
    (afterCalls cfg calls).tables.Pairwise (fun t u => t.id < u.id) ∧
      (afterCalls cfg calls).tables.length < 256 ∧
        ((afterCalls cfg calls).initialized = true ∨ (afterCalls cfg calls).tables = []) := by
  rcases afterCalls_cases cfg calls with hboot | ⟨sets, -, hregistry⟩
  · rw [hboot]
    exact ⟨List.Pairwise.nil, by decide, Or.inr rfl⟩
  · refine ⟨hregistry.tables, ?_, Or.inl hregistry.initialized⟩
    have hnodup : ((afterCalls cfg calls).tables.map fun table => table.id.toNat).Nodup :=
      List.pairwise_map.2 (hregistry.tables.imp fun hlt =>
        Nat.ne_of_lt (UInt8.lt_iff_toNat_lt.1 hlt))
    have hsub : ((afterCalls cfg calls).tables.map fun table => table.id.toNat) ⊆
        List.range 100 := by
      intro n hn
      obtain ⟨table, htable, rfl⟩ := List.mem_map.1 hn
      have hallocated := afterCalls_allocated cfg calls table htable
      rw [tableIsAllocated, Bool.and_eq_true, decide_eq_true_eq, decide_eq_true_eq] at hallocated
      exact List.mem_range.2 (Nat.lt_succ_of_le (UInt8.le_iff_toNat_le.1 hallocated.2))
    have hlen := (List.subperm_of_subset hnodup hsub).length_le
    rw [List.length_map, List.length_range] at hlen
    omega

/-- **The listing is complete.**  If an entry of every table fits a packet and the node answers in
time, the visitor is called as `kfsw_param_visit_tables` calls it on the node, in the order of the
identifiers; only that a description that is not there is an empty one.  Whatever a node answers,
the call reads inside the packets, and begins at most one exchange more than there are replies that
bring it on. -/
theorem remote_tables_complete (cfg : Config) (calls : List (List (Option DefinitionSet)))
    (bufferSize : ℕ) (info : LinkInfo) (node : UInt16) (hnode : Reaches info node)
    (hcarried : ∀ table ∈ (afterCalls cfg calls).tables, table.Carried)
    (hfits : ∀ table ∈ (afterCalls cfg calls).tables,
      tablesHeader + (tableItem table).length ≤ bufferSize) :
    ((afterCalls cfg calls).tables.Pairwise (fun t u => t.id < u.id) ∧
      ∀ (visitor : TableVisitor ω) (turns : ℕ), (afterCalls cfg calls).tables.length < turns →
        ∀ (last : List UInt8) (w : ω), ((remoteTables (some visitor) node turns w).exec
            (answering info (serveTablesRequest bufferSize (afterCalls cfg calls))) last).2.1 =
          some (none, (visitLoop visitor
            ((afterCalls cfg calls).tables.map TableInfo.shown) w).2)) ∧
      ∀ (visitor : Option (TableVisitor ω)) (node : UInt16) (turns : ℕ) (w : ω)
        (result : Option (Option Stop × ω)) (t : Traffic),
        Prog.Ends Traffic.step (remoteTables visitor node turns w) ⟨0, []⟩ result t →
          Paced turns result t := by
  obtain ⟨hsorted, hcount, hservice⟩ := afterCalls_tables cfg calls
  refine ⟨⟨hsorted, fun visitor turns hturns last w => ?_⟩,
    fun visitor node turns w result t hend =>
      hend.post (remoteTables_paced visitor turns w) fun _ => rfl⟩
  rw [remoteTables, Prog.exec_bind_of (validateRemoteNode_answering hnode _ last)]
  rcases hservice with hinit | hnil
  · exact remoteTablesLoop_serve info hinit hcount (Nat.zero_le _) hcarried hfits
      (by rwa [List.drop_zero]) last w
  · obtain ⟨turns, rfl⟩ : ∃ n, turns = n + 1 := ⟨turns - 1, by omega⟩
    have hboot : serveTables bufferSize (afterCalls cfg calls) 0 = [tablesVersion, 0, 0] := by
      unfold serveTables visitTables
      rw [hnil]
      cases (afterCalls cfg calls).initialized <;> rfl
    have hserve : serveTablesRequest bufferSize (afterCalls cfg calls) [tablesVersion, 0] =
        some [tablesVersion, 0, 0] := (if_pos ⟨rfl, rfl⟩).trans (congrArg some hboot)
    have hexchange := exchange_answering info (serveTablesRequest bufferSize (afterCalls cfg calls))
      node [tablesVersion, 0] last
    rw [hserve] at hexchange
    rw [hnil]
    show ((remoteTablesLoop visitor node (turns + 1) 0 w).exec _ last).2.1 = _
    rw [remoteTablesLoop, Prog.exec_bind_of hexchange]
    rfl

/-- A link to another node. -/
def link : LinkInfo := ⟨true, true, true, 1, 5⟩

theorem reaches_link : Reaches link 2 := ⟨rfl, rfl, rfl, by decide, by decide⟩

/-- A node with two tables, which have no description. -/
def twoTables : Service := afterCalls smallBuild [[some (byteTable 2 "b"), some (byteTable 1 "a")]]

theorem twoTables_carried : ∀ table ∈ twoTables.tables, table.Carried := by
  have hall : twoTables.tables.all (fun table => table.name.length ≤ nameMax &&
      (table.description.getD CString.empty).length ≤ descriptionMax) = true := by decide +kernel
  intro table htable
  have h := List.all_eq_true.1 hall table htable
  rw [Bool.and_eq_true, decide_eq_true_eq, decide_eq_true_eq] at h
  exact ⟨h.1, h.2⟩

theorem twoTables_fits :
    ∀ table ∈ twoTables.tables, tablesHeader + (tableItem table).length ≤ 9 := by
  decide +kernel

/-- Packets that take one table each bring both of them. -/
theorem remote_tables_complete_two : (serveTables 9 twoTables 0).length = 9 ∧
    ((remoteTables (some fun table ids => (true, ids ++ [table.id])) 2 3 []).exec
      (answering link (serveTablesRequest 9 twoTables)) []).2.1 = some (none, [1, 2]) := by
  have hlisted := (remote_tables_complete smallBuild [[some (byteTable 2 "b"),
    some (byteTable 1 "a")]] 9 link 2 reaches_link twoTables_carried twoTables_fits).1.2
      (fun table ids => (true, ids ++ [table.id])) 3 (by decide +kernel) [] []
  exact ⟨by decide +kernel, hlisted.trans (by decide +kernel)⟩

/-- A table without a description comes with an empty one, and an exchange whose reply does not
bring the listing on is one all the same. -/
theorem remote_tables_description :
    (¬ ∀ (calls : List (List (Option DefinitionSet))) (bufferSize : ℕ) (info : LinkInfo)
        (node : UInt16), Reaches info node →
        (∀ table ∈ (afterCalls smallBuild calls).tables, table.Carried) →
        (∀ table ∈ (afterCalls smallBuild calls).tables,
          tablesHeader + (tableItem table).length ≤ bufferSize) →
        ∀ turns, (afterCalls smallBuild calls).tables.length < turns →
          ((remoteTables (some fun table seen => (true, seen ++ [table.description])) node turns
            []).exec (answering info (serveTablesRequest bufferSize (afterCalls smallBuild calls)))
              []).2.1 = some (none, (afterCalls smallBuild calls).tables.map (·.description))) ∧
      ¬ ∀ (result : Option (Option Stop × Unit)) (t : Traffic),
        Prog.Ends Traffic.step (remoteTables (some fun _ w => (true, w)) 2 2 ()) ⟨0, []⟩ result t →
          t.exchanges ≤ t.replies.countP progress := by
  constructor
  · intro h
    have htwo := h [[some (byteTable 2 "b"), some (byteTable 1 "a")]] 9 link 2 reaches_link
      twoTables_carried twoTables_fits 3 (by decide +kernel)
    exact absurd htwo (by decide +kernel)
  · intro h
    -- the reply is an empty packet
    have hend : Prog.Ends Traffic.step (remoteTables (some fun _ w => (true, w)) 2 2 ()) ⟨0, []⟩
        (some (some (.errno .EBADMSG), ())) ⟨1, [[]]⟩ :=
      Prog.Ends.call (show Traffic.step .info ⟨0, []⟩ link ⟨0, []⟩ from rfl) <|
        Prog.Ends.call (show Traffic.step .time ⟨0, []⟩ true ⟨0, []⟩ from rfl) <|
        Prog.Ends.call (show Traffic.step (.connect 2 .list) ⟨0, []⟩ true ⟨0, []⟩ from rfl) <|
        Prog.Ends.call (show Traffic.step .buffer ⟨0, []⟩ true ⟨0, []⟩ from rfl) <|
        Prog.Ends.call (show Traffic.step (.send [tablesVersion, 0]) ⟨0, []⟩ () ⟨1, []⟩ from rfl) <|
        Prog.Ends.call (show Traffic.step .time ⟨1, []⟩ true ⟨1, []⟩ from rfl) <|
        Prog.Ends.call (show Traffic.step .read ⟨1, []⟩ (some []) ⟨1, [[]]⟩ from rfl) Prog.ends_ret
    exact absurd (h _ _ hend) (by decide)

end Client

end KfswServices.Param
