/-
# The parameter list on the link

A node lists its parameters one descriptor at a time: `serve_indexed_list` of
`src/parameter/parameter_csp.c` answers a request for an index with how many there are, with the
checksum of all of them, and with the one that was asked for.

A descriptor is sent as a `param_transfer3_t` without its help text.  The structure is libparam's,
and so are the numbers in it: `Transfer` is what the adapter relies on, that the fields are read as
they were written and that the help text comes last.
-/

import KfswServices.Library.BigEndian
import KfswServices.Param.Queue

namespace KfswServices.Param

open Library

/-- A `param_transfer3_t` without its help text.  The integers are as `sys_get_be16` and
`sys_get_be32` read them. -/
structure Fields where
  id : UInt16
  node : UInt16
  type : UInt8
  size : UInt8
  mask : UInt32
  name : List UInt8
  unit : List UInt8
  storageType : UInt8

/-- `param_transfer3_t`, `param_type_e` and the `PM_` flags. -/
structure Transfer where
  /-- `offsetof(param_transfer3_t, help)`. -/
  helpAt : ℕ
  /-- `sizeof(param_transfer3_t)`. -/
  size : ℕ
  nameSize : ℕ
  unitSize : ℕ
  pack : Fields → List UInt8
  fields : List UInt8 → Fields
  /-- `to_libparam_type`. -/
  typeCode : ParamType → UInt8
  /-- `from_libparam_type`. -/
  typeOf : UInt8 → ParamType
  hidden : UInt32
  remote : UInt32
  readOnly : UInt32
  helpAt_lt : helpAt < size
  nameMax_lt : nameMax < nameSize
  unitSize_pos : 0 < unitSize
  typeOf_typeCode : ∀ type, typeOf (typeCode type) = type
  length_pack : ∀ f : Fields, f.name.length = nameSize → f.unit.length = unitSize →
    (pack f).length = helpAt
  fields_pack : ∀ f : Fields, f.name.length = nameSize → f.unit.length = unitSize →
    ∀ rest, fields (pack f ++ rest) = f

/-- `strncpy` of a string to a cleared field, with room for a terminator. -/
def field (size : ℕ) (s : CString) : List UInt8 :=
  (s.take (size - 1)).bytes ++ List.replicate (size - (s.take (size - 1)).length) 0

section

variable {size : ℕ} (h : 0 < size)
include h

theorem length_field (s : CString) : (field size s).length = size := by
  have hlen := CString.length_take_le (size - 1) s
  unfold field
  rw [List.length_append, List.length_replicate]
  show (s.take (size - 1)).length + _ = size
  omega

theorem exists_field (s : CString) :
    ∃ zeros, field size s = (s.take (size - 1)).bytes ++ 0 :: zeros := by
  have hlen := CString.length_take_le (size - 1) s
  obtain ⟨k, hk⟩ : ∃ k, size - (s.take (size - 1)).length = k + 1 :=
    Nat.exists_eq_add_one.2 (by omega)
  exact ⟨List.replicate k 0, by rw [field, hk, List.replicate_succ]⟩

/-- What is read of a field. -/
theorem scan_field (s : CString) : CString.scan (field size s) = s.take (size - 1) := by
  obtain ⟨zeros, heq⟩ := exists_field h s
  rw [heq, CString.scan_append]

theorem zero_mem_field (s : CString) : 0 ∈ field size s := by
  obtain ⟨zeros, heq⟩ := exists_field h s
  simp [heq]

end

namespace Transfer

variable (t : Transfer)

/-- What `encode_descriptor` writes. -/
def wire (param : Descriptor) : Fields :=
  { id := param.id
    node := 0
    type := t.typeCode param.type
    size := UInt8.ofNat param.arraySize
    mask := param.mask
    name := field t.nameSize param.name
    unit := field t.unitSize (param.unit.getD CString.empty)
    storageType := 0 }

/-- `encode_descriptor`.  The parameters of a node have no `vmem`. -/
def encodeDescriptor (param : Descriptor) : List UInt8 := t.pack (t.wire param) ++ [0]

/-- `validate_descriptor`. -/
def validateDescriptor (data : List UInt8) : Option Errno :=
  let wire := t.fields data
  if data.length < t.helpAt + 1 ∨ data.length > t.size ∨ wire.node ≠ 0 ∨ wire.size = 0 ∨
      wire.size = 255 ∨ t.typeOf wire.type = .INVALID ∨ wire.name.head? = some 0 ∨
      0 ∉ wire.name ∨ (CString.scan wire.name).length > nameMax ∨ 0 ∉ wire.unit ∨
      data.getLast? ≠ some 0 then
    some .EBADMSG
  else none

/-- The descriptor that `param_list_create_remote` is asked for. -/
def descriptor (node : UInt16) (data : List UInt8) : Descriptor :=
  let wire := t.fields data
  { node := node
    id := wire.id
    type := t.typeOf wire.type
    arraySize := wire.size.toNat
    mask := wire.mask ||| t.remote
    name := CString.scan wire.name
    unit := some (CString.scan wire.unit) }

variable {t} {param : Descriptor}

theorem fields_encodeDescriptor : t.fields (t.encodeDescriptor param) = t.wire param :=
  t.fields_pack _ (length_field (Nat.zero_lt_of_lt t.nameMax_lt) _)
    (length_field t.unitSize_pos _) _

theorem length_encodeDescriptor : (t.encodeDescriptor param).length = t.helpAt + 1 := by
  have hpack := t.length_pack (t.wire param) (length_field (Nat.zero_lt_of_lt t.nameMax_lt) _)
    (length_field t.unitSize_pos _)
  rw [encodeDescriptor, List.length_append, hpack]
  rfl

end Transfer

/-- A parameter that the link can carry. -/
structure Descriptor.Carried (param : Descriptor) : Prop where
  type : param.type ≠ .INVALID
  size_pos : 0 < param.arraySize
  size_lt : param.arraySize < 255
  name_ne : param.name ≠ CString.empty
  name_le : param.name.length ≤ nameMax

/-- A parameter as another node has it: with `PM_REMOTE`, and with its unit as far as there is room
for it. -/
def Transfer.asRemote (t : Transfer) (node : UInt16) (param : Descriptor) : Descriptor :=
  { param with
    node := node
    mask := param.mask ||| t.remote
    unit := some ((param.unit.getD CString.empty).take (t.unitSize - 1)) }

namespace Descriptor.Carried

variable {t : Transfer} {param : Descriptor}

theorem take_name (h : param.Carried) : param.name.take (t.nameSize - 1) = param.name := by
  have hle := h.name_le
  have hlt := t.nameMax_lt
  exact CString.take_of_length_le (by omega)

/-- **A descriptor is read** as it was sent. -/
theorem descriptor_encode (h : param.Carried) (node : UInt16) :
    t.descriptor node (t.encodeDescriptor param) = t.asRemote node param := by
  have hsize := h.size_lt
  have hcast : (UInt8.ofNat param.arraySize).toNat = param.arraySize := by
    rw [UInt8.toNat_ofNat']
    exact Nat.mod_eq_of_lt (by omega)
  unfold Transfer.descriptor
  rw [Transfer.fields_encodeDescriptor]
  unfold Transfer.wire Transfer.asRemote
  dsimp only
  rw [t.typeOf_typeCode, hcast, scan_field (Nat.zero_lt_of_lt t.nameMax_lt), h.take_name,
    scan_field t.unitSize_pos]

/-- **A descriptor is valid** as it was sent. -/
theorem validate_encode (h : param.Carried) :
    t.validateDescriptor (t.encodeDescriptor param) = none := by
  have hsize := h.size_lt
  have hpos := h.size_pos
  have hhelp := t.helpAt_lt
  have hname := Nat.zero_lt_of_lt t.nameMax_lt
  have hcast : (UInt8.ofNat param.arraySize).toNat = param.arraySize := by
    rw [UInt8.toNat_ofNat']
    exact Nat.mod_eq_of_lt (by omega)
  unfold Transfer.validateDescriptor
  rw [Transfer.fields_encodeDescriptor, Transfer.length_encodeDescriptor]
  refine if_neg ?_
  rintro (h1 | h1 | h1 | h1 | h1 | h1 | h1 | h1 | h1 | h1 | h1)
  · omega
  · omega
  · exact h1 rfl
  · have hzero : param.arraySize = 0 := hcast.symm.trans (congrArg UInt8.toNat h1)
    omega
  · have hlast : param.arraySize = 255 := hcast.symm.trans (congrArg UInt8.toNat h1)
    omega
  · exact h.type ((t.typeOf_typeCode _).symm.trans h1)
  · have hbytes : param.name.bytes ≠ [] := fun heq => h.name_ne (by
      cases hn : param.name
      rw [hn] at heq
      cases heq
      rfl)
    obtain ⟨zeros, heq⟩ := exists_field hname param.name
    rw [Transfer.wire, heq, h.take_name, List.head?_append_of_ne_nil _ hbytes] at h1
    exact param.name.noNul (List.mem_of_mem_head? h1)
  · exact h1 (zero_mem_field hname _)
  · rw [Transfer.wire, scan_field hname, h.take_name] at h1
    exact absurd h.name_le (not_le.2 h1)
  · exact h1 (zero_mem_field t.unitSize_pos _)
  · exact h1 List.getLast?_concat

end Descriptor.Carried

/-! ### The server -/

/-- `local_parameters`. -/
def localParameters (nodeSelf : UInt16) (s : Service) : List Descriptor :=
  s.entries.map fun entry =>
    { node := nodeSelf
      id := entry.info.id
      type := entry.info.type
      arraySize := entry.info.arraySize.toNat
      mask := entry.info.flags
      name := entry.info.name
      unit := entry.info.unit }

namespace Transfer

variable (t : Transfer)

/-- What the loops of the list leave out: hidden parameters, and other tables if one is wanted. -/
def listed (table : UInt8) (param : Descriptor) : Bool :=
  param.mask &&& t.hidden = 0 && (table = 0 || (param.id >>> 8).toUInt8 = table)

/-- `list_entry_in`, from some total on. -/
def listEntryIn (table : UInt8) (wanted : UInt16) :
    List Descriptor → Option Descriptor → UInt16 → Option Descriptor × UInt16
  | [], found, total => (found, total)
  | param :: params, found, total =>
    if t.listed table param then
      listEntryIn table wanted params (if total = wanted then some param else found) (total + 1)
    else listEntryIn table wanted params found total

/-- `list_fingerprint`, from some checksum on. -/
def listFingerprint (table : UInt8) : List Descriptor → UInt32 → UInt32
  | [], crc => crc
  | param :: params, crc =>
    if t.listed table param then
      listFingerprint table params (crc32Update crc (t.encodeDescriptor param))
    else listFingerprint table params crc

/-- `local_entry_by_name`. -/
def localEntryByName (params : List Descriptor) (name : CString) : Option Descriptor :=
  params.find? fun param => param.mask &&& t.hidden = 0 && param.name = name

end Transfer

/-- `KFSW_PARAM_LIST_INDEXED_VERSION`. -/
abbrev listIndexedVersion : UInt8 := 4

/-- `KFSW_PARAM_LIST_LOOKUP_VERSION`. -/
abbrev listLookupVersion : UInt8 := 5

/-- `KFSW_PARAM_LIST_TABLE_VERSION`. -/
abbrev listTableVersion : UInt8 := 7

/-- `KFSW_PARAM_LIST_ITEM`. -/
abbrev listItem : UInt8 := 0

/-- `KFSW_PARAM_LIST_END`. -/
abbrev listEnd : UInt8 := 1

/-- `KFSW_PARAM_LIST_CHANGED`. -/
abbrev listChanged : UInt8 := 2

/-- `KFSW_PARAM_LIST_REPLY_HEADER`. -/
abbrev listReplyHeader : ℕ := 10

/-- The first bytes of an indexed reply. -/
def replyHeader (version status : UInt8) (index total : UInt16) (crc : UInt32) : List UInt8 :=
  version :: status :: (putBe16 index ++ (putBe16 total ++ putBe32 crc))

@[simp] theorem length_replyHeader (version status : UInt8) (index total : UInt16) (crc : UInt32) :
    (replyHeader version status index total crc).length = listReplyHeader := by
  simp [replyHeader]

/-- A node that serves its list: `local_parameters` and `local_list_crc`. -/
structure ListServer where
  params : List Descriptor
  listCrc : UInt32

/-- The reply of `serve_indexed_list`. -/
def Transfer.reply (t : Transfer) (version : UInt8) (index : UInt16) (expected : UInt32)
    (param : Option Descriptor) (total : UInt16) (crc : UInt32) : List UInt8 :=
  if (index ≠ 0 ∧ expected ≠ crc) ∨ index > total then
    replyHeader version listChanged index total crc
  else
    match param with
    | none => replyHeader version listEnd index total crc
    | some param => replyHeader version listItem index total crc ++ t.encodeDescriptor param

/-- `serve_indexed_list`, with a buffer for the reply. -/
def ListServer.serveIndexedList (t : Transfer) (server : ListServer) (request : List UInt8) :
    List UInt8 :=
  let version := request.getD 0 0
  let byTable := version = listTableVersion
  let table := if byTable then request.getD 1 0 else 0
  let fields := if byTable then request.drop 2 else request.drop 1
  let index := getBe16 fields
  let expected := getBe32 (fields.drop 2)
  let (param, total) := t.listEntryIn table index server.params none 0
  let crc := if byTable then t.listFingerprint table server.params 0 else server.listCrc
  t.reply version index expected param total crc

/-- The answer of `serve_lookup`, with a buffer for it. -/
def ListServer.serveLookup (t : Transfer) (server : ListServer) (request : List UInt8) :
    Option (List UInt8) :=
  let name := request.drop 1
  if name.length = 0 ∨ name.length > nameMax then none
  else
    match Transfer.localEntryByName t server.params (CString.scan name) with
    | none => some [listLookupVersion, listEnd]
    | some param => some (listLookupVersion :: listItem :: t.encodeDescriptor param)

/-- The server of a registry, as `server_start` leaves it. -/
def Transfer.server (t : Transfer) (nodeSelf : UInt16) (s : Service) : ListServer :=
  let params := localParameters nodeSelf s
  ⟨params, t.listFingerprint 0 params 0⟩

/-! ### What the server answers -/

namespace Transfer

variable {t : Transfer} {table : UInt8} {params : List Descriptor}

/-- The checksum of the list is of its descriptors, one after the other. -/
theorem listFingerprint_eq (crc : UInt32) : t.listFingerprint table params crc =
    crc32Update crc ((params.filter (t.listed table)).flatMap t.encodeDescriptor) := by
  induction params generalizing crc with
  | nil => simp [listFingerprint]
  | cons param params ih =>
    unfold listFingerprint
    by_cases hlisted : t.listed table param = true
    · rw [if_pos hlisted, ih, List.filter_cons_of_pos hlisted, List.flatMap_cons,
        crc32Update_append]
    · rw [if_neg hlisted, ih, List.filter_cons_of_neg hlisted]

/-- The descriptor of an index, and how many there are, after the first `k` of them. -/
theorem listEntryIn_from {wanted : UInt16} {found : Option Descriptor} {k : ℕ}
    (h : k + (params.filter (t.listed table)).length < 2 ^ 16) :
    t.listEntryIn table wanted params found (UInt16.ofNat k) = (if wanted.toNat < k then found
        else ((params.filter (t.listed table))[wanted.toNat - k]?).or found,
        UInt16.ofNat (k + (params.filter (t.listed table)).length)) := by
  induction params generalizing found k with
  | nil => simp [listEntryIn]
  | cons param params ih =>
    unfold listEntryIn
    by_cases hlisted : t.listed table param = true
    · rw [List.filter_cons_of_pos hlisted, List.length_cons] at h ⊢
      have hnext : UInt16.ofNat k + 1 = UInt16.ofNat (k + 1) := (UInt16.ofNat_add k 1).symm
      have hk : (UInt16.ofNat k).toNat = k := by
        rw [UInt16.toNat_ofNat']
        exact Nat.mod_eq_of_lt (by omega)
      rw [if_pos hlisted, hnext, ih (by omega), Nat.add_right_comm k 1, Nat.add_assoc]
      congr 1
      rcases Nat.lt_trichotomy wanted.toNat k with hlt | heq | hgt
      · have hne : UInt16.ofNat k ≠ wanted := fun hw => by
          rw [← hw, hk] at hlt
          omega
        rw [if_pos (by omega), if_neg hne, if_pos hlt]
      · have hw : UInt16.ofNat k = wanted := UInt16.toNat_inj.1 (hk.trans heq.symm)
        rw [if_pos (by omega), if_pos hw, if_neg (by omega), heq, Nat.sub_self]
        rfl
      · have hne : UInt16.ofNat k ≠ wanted := fun hw => by
          rw [← hw, hk] at hgt
          omega
        have hsub : wanted.toNat - k = wanted.toNat - (k + 1) + 1 := by omega
        rw [if_neg (by omega), if_neg hne, if_neg (by omega), hsub, List.getElem?_cons_succ]
    · rw [if_neg hlisted, List.filter_cons_of_neg hlisted] at *
      exact ih h

/-- **The descriptor of an index**, and how many there are. -/
theorem listEntryIn_eq (wanted : UInt16) (h : (params.filter (t.listed table)).length < 2 ^ 16) :
    t.listEntryIn table wanted params none 0 = ((params.filter (t.listed table))[wanted.toNat]?,
        UInt16.ofNat (params.filter (t.listed table)).length) := by
  have hfrom := @listEntryIn_from t table params wanted none 0 (by rwa [Nat.zero_add])
  rwa [if_neg (Nat.not_lt_zero _), Option.or_none, Nat.zero_add, Nat.sub_zero] at hfrom

end Transfer

/-- The version of the requests for a table, and of the replies. -/
def listVersion (table : UInt8) : UInt8 := if table = 0 then listIndexedVersion else listTableVersion

/-- The request of `refresh_table` for an index. -/
def listRequest (table : UInt8) (index : UInt16) (crc : UInt32) : List UInt8 :=
  if table = 0 then listIndexedVersion :: (putBe16 index ++ putBe32 crc)
  else listTableVersion :: table :: (putBe16 index ++ putBe32 crc)

/-- The reply of a consistent list to the request for an index: the descriptor, or the end. -/
def listReply (table : UInt8) (ds : List (List UInt8)) (index : ℕ) : List UInt8 :=
  let header := fun status => replyHeader (listVersion table) status (UInt16.ofNat index)
    (UInt16.ofNat ds.length) (crc32 ds.flatten)
  match ds[index]? with
  | some d => header listItem ++ d
  | none => header listEnd

/-- A request for the whole node. -/
theorem serve_indexed (t : Transfer) (server : ListServer) (index : UInt16) (expected : UInt32) :
    server.serveIndexedList t (listIndexedVersion :: (putBe16 index ++ putBe32 expected)) =
      t.reply listIndexedVersion index expected (t.listEntryIn 0 index server.params none 0).1
        (t.listEntryIn 0 index server.params none 0).2 server.listCrc := by
  have hindex : getBe16 (putBe16 index ++ putBe32 expected) = index := getBe16_putBe16 _ _
  have hexpected : getBe32 ((putBe16 index ++ putBe32 expected).drop 2) = expected :=
    getBe32_putBe32 expected []
  have hserve : ∀ fields, server.serveIndexedList t (listIndexedVersion :: fields) =
      t.reply listIndexedVersion (getBe16 fields) (getBe32 (fields.drop 2))
        (t.listEntryIn 0 (getBe16 fields) server.params none 0).1
        (t.listEntryIn 0 (getBe16 fields) server.params none 0).2 server.listCrc := fun _ => rfl
  rw [hserve, hindex, hexpected]

/-- A request for a table. -/
theorem serve_table (t : Transfer) (server : ListServer) (table : UInt8) (index : UInt16)
    (expected : UInt32) :
    server.serveIndexedList t (listTableVersion :: table :: (putBe16 index ++ putBe32 expected)) =
      t.reply listTableVersion index expected (t.listEntryIn table index server.params none 0).1
        (t.listEntryIn table index server.params none 0).2
        (t.listFingerprint table server.params 0) := by
  have hindex : getBe16 (putBe16 index ++ putBe32 expected) = index := getBe16_putBe16 _ _
  have hexpected : getBe32 ((putBe16 index ++ putBe32 expected).drop 2) = expected :=
    getBe32_putBe32 expected []
  have hserve : ∀ fields, server.serveIndexedList t (listTableVersion :: table :: fields) =
      t.reply listTableVersion (getBe16 fields) (getBe32 (fields.drop 2))
        (t.listEntryIn table (getBe16 fields) server.params none 0).1
        (t.listEntryIn table (getBe16 fields) server.params none 0).2
        (t.listFingerprint table server.params 0) := fun _ => rfl
  rw [hserve, hindex, hexpected]

/-- The descriptors that a server sends, in the order of the list. -/
def ListServer.list (t : Transfer) (server : ListServer) (table : UInt8) : List (List UInt8) :=
  (server.params.filter (t.listed table)).map t.encodeDescriptor

/-- **A node answers like its list**, once the request has the checksum of the list or is the
first one. -/
theorem serve_listRequest {t : Transfer} {server : ListServer} {table : UInt8} {index : ℕ}
    {expected : UInt32} (hserver : server.listCrc = t.listFingerprint 0 server.params 0)
    (hcount : (server.list t table).length < 2 ^ 16) (hindex : index ≤ (server.list t table).length)
    (hexpected : index ≠ 0 → expected = crc32 (server.list t table).flatten) :
    server.serveIndexedList t (listRequest table (UInt16.ofNat index) expected) =
      listReply table (server.list t table) index := by
  have hcast : (UInt16.ofNat index).toNat = index := by
    rw [UInt16.toNat_ofNat']
    exact Nat.mod_eq_of_lt (by omega)
  have hlen : (server.list t table).length = (server.params.filter (t.listed table)).length :=
    List.length_map _
  have hfingerprint : t.listFingerprint table server.params 0 =
      crc32 (server.list t table).flatten := by
    rw [Transfer.listFingerprint_eq, List.flatMap_def]
    rfl
  have hentry := Transfer.listEntryIn_eq (t := t) (UInt16.ofNat index) (hlen ▸ hcount)
  rw [hcast, ← hlen] at hentry
  have hreply : t.reply (listVersion table) (UInt16.ofNat index) expected
      (server.params.filter (t.listed table))[index]? (UInt16.ofNat (server.list t table).length)
        (crc32 (server.list t table).flatten) = listReply table (server.list t table) index := by
    have hordered : ¬ ((UInt16.ofNat index ≠ 0 ∧ expected ≠
        crc32 (server.list t table).flatten) ∨
          UInt16.ofNat index > UInt16.ofNat (server.list t table).length) := by
      rintro (⟨hne, hdiffers⟩ | hgt)
      · exact hdiffers (hexpected fun h0 => hne (by rw [h0]; rfl))
      · rw [gt_iff_lt, UInt16.lt_iff_toNat_lt, hcast, UInt16.toNat_ofNat',
          Nat.mod_eq_of_lt hcount] at hgt
        omega
    unfold Transfer.reply listReply
    rw [if_neg hordered]
    unfold ListServer.list
    rw [List.getElem?_map]
    cases (server.params.filter (t.listed table))[index]? <;> rfl
  unfold listRequest
  by_cases htable : table = 0
  · subst htable
    rw [if_pos rfl, serve_indexed, hserver, hentry, hfingerprint]
    exact hreply
  · rw [if_neg htable, serve_table, hentry, hfingerprint]
    rwa [listVersion, if_neg htable] at hreply

/-! ### A build of libparam -/

/-- The types, in the order of `param_type_e`. -/
def typeCodes : List ParamType :=
  [.U8, .U16, .U32, .U64, .I8, .I16, .I32, .I64, .X8, .X16, .X32, .X64, .FLOAT, .DOUBLE, .STRING,
    .DATA, .INVALID]

/-- A packed `param_transfer3_t`. -/
def packedFields (f : Fields) : List UInt8 :=
  putBe16 f.id ++ (putBe16 f.node ++ (f.type :: f.size :: (putBe32 f.mask ++
    (f.name ++ (f.unit ++ [f.storageType])))))

/-- What is read of it. -/
def unpackedFields (data : List UInt8) : Fields where
  id := getBe16 data
  node := getBe16 (data.drop 2)
  type := data.getD 4 0
  size := data.getD 5 0
  mask := getBe32 (data.drop 6)
  name := (data.drop 10).take 36
  unit := (data.drop 46).take 10
  storageType := data.getD 56 0

theorem unpackedFields_packedFields (f : Fields) (hname : f.name.length = 36)
    (hunit : f.unit.length = 10) (rest : List UInt8) :
    unpackedFields (packedFields f ++ rest) = f := by
  obtain ⟨a, b, hid, hgetId⟩ := exists_putBe16 f.id
  obtain ⟨c, d, hnode, hgetNode⟩ := exists_putBe16 f.node
  obtain ⟨e, g, h, i, hmask, hgetMask⟩ := exists_putBe32 f.mask
  have hpacked : packedFields f ++ rest = a :: b :: c :: d :: f.type :: f.size :: e :: g :: h ::
      i :: (f.name ++ (f.unit ++ (f.storageType :: rest))) := by
    simp [packedFields, hid, hnode, hmask]
  have htake : (f.name ++ (f.unit ++ (f.storageType :: rest))).take 36 = f.name :=
    List.take_left' hname
  have htakeUnit : ((f.name ++ (f.unit ++ (f.storageType :: rest))).drop 36).take 10 = f.unit := by
    rw [List.drop_left' hname, List.take_left' hunit]
  have hlast : (f.name ++ (f.unit ++ (f.storageType :: rest))).getD 46 0 = f.storageType := by
    rw [List.getD_append_right _ _ _ _ (by omega), hname,
      List.getD_append_right _ _ _ _ (by omega), hunit]
    rfl
  rw [List.getD_eq_getElem?_getD] at hlast
  rw [hpacked]
  unfold unpackedFields
  simp [hgetId, hgetNode, hgetMask, htake, htakeUnit, hlast]

/-- A build of libparam. -/
def packedTransfer : Transfer where
  helpAt := 57
  size := 207
  nameSize := 36
  unitSize := 10
  pack := packedFields
  fields := unpackedFields
  typeCode type := UInt8.ofNat (typeCodes.idxOf type)
  typeOf code := typeCodes.getD code.toNat .INVALID
  hidden := 0x800
  remote := 0x2
  readOnly := 0x1
  helpAt_lt := by decide
  nameMax_lt := by decide
  unitSize_pos := by decide
  typeOf_typeCode type := by cases type <;> rfl
  length_pack f hname hunit := by
    unfold packedFields
    simp [hname, hunit]
  fields_pack := unpackedFields_packedFields

end KfswServices.Param
