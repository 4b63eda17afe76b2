/-
# The list of another node

`refresh_table` takes a list one descriptor at a time, and counts on the checksum that comes with
every reply.  It ends well only if the replies are those of one list, from the first to the last,
and else leaves an empty cache (`refreshTable_consistent`); and against a node that serves its
registry, it gets the list of the registry (`refreshTable_delivers`).

The list is not quite the registry: a parameter comes with `PM_REMOTE` set, and with its unit as far
as the unit field goes.  The size of a parameter is sent in one byte, of which 255 is refused.
-/

import KfswServices.Param.Tables

namespace KfswServices.Param

open Library

/-! ### A reply in parts -/

section

variable {version status : UInt8} {index total : UInt16} {crc : UInt32} {data : List UInt8}

theorem replyHeader_append (version status : UInt8) (index total : UInt16) (crc : UInt32)
    (data : List UInt8) : replyHeader version status index total crc ++ data =
      version :: status :: (putBe16 index ++ (putBe16 total ++ (putBe32 crc ++ data))) := by
  simp [replyHeader]

/-- A packet that is long enough has a header. -/
theorem exists_replyHeader {packet : List UInt8} (h : listReplyHeader ≤ packet.length) :
    ∃ version status index total crc data,
      packet = replyHeader version status index total crc ++ data := by
  match packet, h with
  | v :: s :: a :: b :: c :: d :: e :: f :: g :: i :: data, _ =>
    refine ⟨v, s, getBe16 [a, b], getBe16 [c, d], getBe32 [e, f, g, i], data, ?_⟩
    rw [replyHeader_append, putBe16_getBe16, putBe16_getBe16, putBe32_getBe32]
    rfl

theorem index_replyHeader :
    getBe16 ((replyHeader version status index total crc ++ data).drop 2) = index := by
  rw [replyHeader_append]
  exact getBe16_putBe16 _ _

theorem total_replyHeader :
    getBe16 ((replyHeader version status index total crc ++ data).drop 4) = total := by
  rw [replyHeader_append]
  show getBe16 ((putBe16 index ++ _).drop 2) = total
  rw [List.drop_left' (length_putBe16 _)]
  exact getBe16_putBe16 _ _

theorem crc_replyHeader :
    getBe32 ((replyHeader version status index total crc ++ data).drop 6) = crc := by
  rw [replyHeader_append]
  show getBe32 ((putBe16 index ++ _).drop (2 + 2)) = crc
  rw [← List.drop_drop, List.drop_left' (length_putBe16 _), List.drop_left' (length_putBe16 _)]
  exact getBe32_putBe32 _ _

theorem data_replyHeader :
    (replyHeader version status index total crc ++ data).drop listReplyHeader = data :=
  List.drop_left' (length_replyHeader _ _ _ _ _)

end

namespace Client

variable {ρ κ σ : Type} {cl : Client ρ κ} {node : UInt16} {table : UInt8} {index : ℕ}
  {total : UInt16} {crc receivedCrc : UInt32} {c : Cache}

/-- **A reply in its parts.** -/
theorem takeReply_header (version status : UInt8) (place offered : UInt16) (fingerprint : UInt32)
    (data : List UInt8) :
    cl.takeReply node table index total crc receivedCrc c
        (replyHeader version status place offered fingerprint ++ data) =
      if version ≠ listVersion table ∨ place ≠ UInt16.ofNat index ∨
          (index ≠ 0 ∧ (offered ≠ total ∨ fingerprint ≠ crc)) ∨ offered.toNat > cl.poolSize then
        .stop .EBADMSG
      else if status = listEnd ∧ index = offered.toNat ∧ data = [] ∧ receivedCrc = fingerprint then
        .done
      else if status ≠ listItem ∨ index ≥ offered.toNat ∨
          cl.transfer.validateDescriptor data ≠ none then .stop .EBADMSG
      else if c.duplicate (cl.transfer.descriptor node data) then .stop .EBADMSG
      else
        match cl.create (cl.transfer.descriptor node data) c with
        | none => .stop .ENOSPC
        | some c => .next offered fingerprint (crc32Update receivedCrc data) c := by
  have hlen : ¬ (replyHeader version status place offered fingerprint ++ data).length <
      listReplyHeader := by
    rw [List.length_append, length_replyHeader]
    omega
  have hsize : (replyHeader version status place offered fingerprint ++ data).length =
      listReplyHeader ↔ data = [] := by
    rw [List.length_append, length_replyHeader]
    constructor
    · exact fun h => List.length_eq_zero_iff.1 (by omega)
    · rintro rfl
      rfl
  have hversion : (replyHeader version status place offered fingerprint ++ data).getD 0 0 =
      version := rfl
  have hstatus : (replyHeader version status place offered fingerprint ++ data).getD 1 0 =
      status := rfl
  unfold takeReply
  rw [hversion, hstatus, index_replyHeader, total_replyHeader, crc_replyHeader, data_replyHeader]
  simp only [hlen, hsize, false_or]
  by_cases hv : version = listVersion table
  swap
  · rw [if_pos hv, if_pos (Or.inl hv)]
  rw [if_neg (not_not.2 hv)]
  by_cases hindex : index = 0
  · cases cl.create (cl.transfer.descriptor node data) c <;> simp [hv, hindex]
  · by_cases hsame : offered = total ∧ fingerprint = crc
    · obtain ⟨rfl, rfl⟩ := hsame
      cases cl.create (cl.transfer.descriptor node data) c <;> simp [hv, hindex]
    · rw [not_and_or] at hsame
      have hleft : place ≠ UInt16.ofNat index ∨ offered ≠ total ∨ fingerprint ≠ crc ∨
          total.toNat > cl.poolSize := Or.inr (hsame.elim Or.inl fun h => Or.inr (Or.inl h))
      simp only [if_neg hindex]
      rw [if_pos hleft, if_pos (Or.inr (Or.inr (Or.inl ⟨hindex, hsame⟩)))]

/-- A descriptor that was made is the last one cached. -/
theorem create_eq_some {param : Descriptor} {c' : Cache} (h : cl.create param c = some c') :
    c.count < cl.poolSize ∧ c'.params = c.params ++ [param] ∧ c'.count = c.count + 1 ∧
      c'.node = c.node := by
  unfold create at h
  by_cases hlt : c.count < cl.poolSize
  · rw [if_pos hlt] at h
    obtain rfl := Option.some.inj h
    refine ⟨hlt, ?_, rfl, rfl⟩
    unfold Cache.params
    rw [List.range_succ, List.map_append]
    congr 1
    · refine List.map_congr_left fun i hi => ?_
      have hne : i ≠ c.count := Nat.ne_of_lt (List.mem_range.1 hi)
      simp [Function.update_of_ne hne]
    · simp
  · rw [if_neg hlt] at h
    cases h

variable (cl node table index total crc receivedCrc c) in
/-- **What a reply comes to**: a stop, the end of the list, or one more descriptor. -/
theorem takeReply_cases (packet : List UInt8) :
    (∃ e, cl.takeReply node table index total crc receivedCrc c packet = .stop e) ∨
      ∃ offered fingerprint, (index ≠ 0 → offered = total ∧ fingerprint = crc) ∧
        ((cl.takeReply node table index total crc receivedCrc c packet = .done ∧
            packet = replyHeader (listVersion table) listEnd (UInt16.ofNat index) offered
              fingerprint ∧ index = offered.toNat ∧ receivedCrc = fingerprint) ∨
          ∃ data c', cl.takeReply node table index total crc receivedCrc c packet =
              .next offered fingerprint (crc32Update receivedCrc data) c' ∧
            packet = replyHeader (listVersion table) listItem (UInt16.ofNat index) offered
              fingerprint ++ data ∧ cl.transfer.validateDescriptor data = none ∧
            c.duplicate (cl.transfer.descriptor node data) = false ∧
            cl.create (cl.transfer.descriptor node data) c = some c') := by
  by_cases hlen : listReplyHeader ≤ packet.length
  swap
  · exact Or.inl ⟨.EBADMSG, if_pos (Or.inl (not_le.1 hlen))⟩
  obtain ⟨version, status, place, offered, fingerprint, data, rfl⟩ := exists_replyHeader hlen
  rw [takeReply_header]
  by_cases hrefused : version ≠ listVersion table ∨ place ≠ UInt16.ofNat index ∨
      (index ≠ 0 ∧ (offered ≠ total ∨ fingerprint ≠ crc)) ∨ offered.toNat > cl.poolSize
  · exact Or.inl ⟨.EBADMSG, if_pos hrefused⟩
  rw [if_neg hrefused]
  simp only [not_or, not_not, not_and] at hrefused
  obtain ⟨rfl, rfl, hsame, -⟩ := hrefused
  by_cases hend : status = listEnd ∧ index = offered.toNat ∧ data = [] ∧ receivedCrc = fingerprint
  · rw [if_pos hend]
    obtain ⟨rfl, hindex, rfl, hcrc⟩ := hend
    exact Or.inr ⟨offered, fingerprint, hsame, Or.inl ⟨rfl, List.append_nil _, hindex, hcrc⟩⟩
  rw [if_neg hend]
  by_cases hitem : status ≠ listItem ∨ index ≥ offered.toNat ∨
      cl.transfer.validateDescriptor data ≠ none
  · exact Or.inl ⟨.EBADMSG, if_pos hitem⟩
  rw [if_neg hitem]
  simp only [not_or, not_not] at hitem
  obtain ⟨rfl, -, hvalid⟩ := hitem
  cases hduplicate : c.duplicate (cl.transfer.descriptor node data) with
  | true => exact Or.inl ⟨.EBADMSG, rfl⟩
  | false =>
    cases hcreate : cl.create (cl.transfer.descriptor node data) c with
    | none => exact Or.inl ⟨.ENOSPC, rfl⟩
    | some c' =>
      exact Or.inr ⟨offered, fingerprint, hsame,
        Or.inr ⟨data, c', rfl, rfl, hvalid, hduplicate, hcreate⟩⟩

end Client

/-! ### The replies of one list -/

/-- The replies of a consistent list, from the first descriptor to the end. -/
def listReplies (table : UInt8) (ds : List (List UInt8)) : List (List UInt8) :=
  (List.range (ds.length + 1)).map (listReply table ds)

/-- The replies with the descriptors, whatever the total and the checksum. -/
def itemReplies (table : UInt8) (total : UInt16) (crc : UInt32) (ds : List (List UInt8)) :
    List (List UInt8) :=
  ds.mapIdx fun i d => replyHeader (listVersion table) listItem (UInt16.ofNat i) total crc ++ d

theorem itemReplies_snoc (table : UInt8) (total : UInt16) (crc : UInt32) (ds : List (List UInt8))
    (d : List UInt8) : itemReplies table total crc (ds ++ [d]) = itemReplies table total crc ds ++
      [replyHeader (listVersion table) listItem (UInt16.ofNat ds.length) total crc ++ d] := by
  simp [itemReplies, List.mapIdx_append]

variable {ds : List (List UInt8)}

/-- Before the first descriptor nothing is known of the list. -/
theorem itemReplies_congr {table : UInt8} {total total' : UInt16} {crc crc' : UInt32}
    (h : ds.length ≠ 0 → total' = total ∧ crc' = crc) :
    itemReplies table total crc ds = itemReplies table total' crc' ds := by
  cases ds with
  | nil => rfl
  | cons d ds =>
    obtain ⟨rfl, rfl⟩ := h (Nat.succ_ne_zero _)
    rfl

/-- The descriptors, and then the end. -/
theorem listReplies_eq (table : UInt8) (ds : List (List UInt8)) : listReplies table ds =
    itemReplies table (UInt16.ofNat ds.length) (crc32 ds.flatten) ds ++
      [replyHeader (listVersion table) listEnd (UInt16.ofNat ds.length) (UInt16.ofNat ds.length)
        (crc32 ds.flatten)] := by
  unfold listReplies
  rw [List.range_succ, List.map_append]
  congr 1
  · refine List.ext_getElem (by simp [itemReplies]) fun i hi hi' => ?_
    have hlt : i < ds.length := by simpa using hi
    simp [listReply, itemReplies, hlt]
  · simp [listReply]

/-- Nothing is cached. -/
structure Cache.Empty (c : Cache) : Prop where
  node : c.node = 0
  complete : c.complete = false
  count : c.count = 0
  linked : c.linked = 0

theorem Cache.empty_clear (c : Cache) : c.clear.Empty := ⟨rfl, rfl, rfl, rfl⟩

/-- A refresh asks the node: it is forced, or for one table, or the list is not cached. -/
def Cache.Asks (c : Cache) (node : UInt16) (table : UInt8) (force : Bool) : Prop :=
  ¬ (force = false ∧ table = 0 ∧ c.complete = true ∧ c.node = node)

/-- What is cached of a node: these descriptors, each once. -/
structure Cache.Lists (c : Cache) (node : UInt16) (ps : List Descriptor) : Prop where
  node : c.node = node
  params : c.params = ps
  count : c.count = ps.length
  ids : (ps.map (·.id)).Nodup
  names : (ps.map (·.name)).Nodup

/-- One more descriptor that is not a duplicate. -/
theorem Cache.Lists.create {ρ κ : Type} {cl : Client ρ κ} {c c' : Cache} {node : UInt16}
    {ps : List Descriptor} {param : Descriptor} (h : c.Lists node ps)
    (hduplicate : c.duplicate param = false) (hcreate : cl.create param c = some c') :
    c'.Lists node (ps ++ [param]) := by
  obtain ⟨-, hparams, hcount, hnode⟩ := Client.create_eq_some hcreate
  rw [Cache.duplicate, List.any_eq_false, h.params] at hduplicate
  refine ⟨hnode.trans h.node, by rw [hparams, h.params], ?_, ?_, ?_⟩
  · rw [hcount, h.count, List.length_append]
    rfl
  · rw [List.map_append, List.nodup_append]
    refine ⟨h.ids, List.nodup_singleton _, fun id hid id' hmem heq => ?_⟩
    obtain ⟨p, hp, rfl⟩ := List.mem_map.1 hid
    obtain rfl : id' = param.id := List.mem_singleton.1 hmem
    exact hduplicate p hp (by simp [heq])
  · rw [List.map_append, List.nodup_append]
    refine ⟨h.names, List.nodup_singleton _, fun name hname name' hmem heq => ?_⟩
    obtain ⟨p, hp, rfl⟩ := List.mem_map.1 hname
    obtain rfl : name' = param.name := List.mem_singleton.1 hmem
    exact hduplicate p hp (by simp [heq])

/-! ### What the client makes of replies -/

namespace Client

variable {ρ κ : Type} (cl : Client ρ κ) {node : UInt16} {table : UInt8}

/-- What is to hold at the end of a refresh, after these replies. -/
structure Consistent (node : UInt16) (table : UInt8) (r : Option Errno × Cache)
    (replies : List (List UInt8)) : Prop where
  refused : r.1 ≠ none → replies ≠ [] → r.2.Empty
  accepted : r.1 = none → ∃ ds, replies = listReplies table ds ∧
    r.2.Lists node (ds.map (cl.transfer.descriptor node)) ∧ r.2.complete = decide (table = 0)

variable {cl}

theorem Consistent.clear (e : Errno) (c : Cache) (replies : List (List UInt8)) :
    cl.Consistent node table (some e, c.clear) replies :=
  ⟨fun _ _ => c.empty_clear, fun h => by cases h⟩

/-- **The loop accepts one list**, the descriptors of which it has taken so far. -/
theorem refreshLoop_consistent (turns : ℕ) {total : UInt16} {crc : UInt32} {c : Cache}
    {t : Traffic} (hlists : c.Lists node (ds.map (cl.transfer.descriptor node)))
    (hreplies : t.replies = itemReplies table total crc ds) :
    Ensures Traffic.step Eq (fun _ _ _ _ => True)
      (cl.refreshLoop node table turns ds.length total crc (crc32 ds.flatten) c)
      (fun r t => cl.Consistent node table r t.replies) t := by
  induction turns generalizing ds total crc c t with
  | zero => exact Consistent.clear _ _ _
  | succ turns ih =>
    unfold refreshLoop
    rw [ensures_bind]
    refine ensures_exchange (fun e => ?_) ?_ fun packet => ?_
    · exact Consistent.clear _ _ _
    · exact Consistent.clear _ _ _
    dsimp only
    rcases takeReply_cases cl node table ds.length total crc (crc32 ds.flatten) c packet with
      ⟨e, he⟩ | ⟨offered, fingerprint, hsame, ⟨hdone, hpacket, hindex, hcrc⟩ |
        ⟨data, c', hnext, hpacket, hvalid, hduplicate, hcreate⟩⟩
    · rw [he]
      exact Consistent.clear _ _ _
    · rw [hdone]
      dsimp only
      rw [ensures_bind, ensures_perform]
      rintro _ rfl (_ | _) _ rfl
      · exact ⟨trivial, Consistent.clear _ _ _⟩
      refine ⟨trivial, fun h => absurd rfl h, fun _ => ⟨ds, ?_, ?_, rfl⟩⟩
      · have htotal : offered = UInt16.ofNat ds.length := by rw [hindex, UInt16.ofNat_toNat]
        show t.replies ++ [packet] = _
        rw [hreplies, itemReplies_congr hsame, hpacket, listReplies_eq, hcrc, htotal]
      · exact ⟨hlists.node, hlists.params, hlists.count, hlists.ids, hlists.names⟩
    · rw [hnext]
      dsimp only
      have hflatten : crc32Update (crc32 ds.flatten) data = crc32 (ds ++ [data]).flatten := by
        rw [List.flatten_append, List.flatten_singleton, crc32, ← crc32Update_append]
        rfl
      have hlength : ds.length + 1 = (ds ++ [data]).length := by simp
      rw [hflatten, hlength]
      refine ih ?_ ?_
      · rw [List.map_append]
        exact hlists.create hduplicate hcreate
      · show t.replies ++ [packet] = _
        rw [hreplies, itemReplies_congr hsame, itemReplies_snoc, hpacket]

/-- A refresh that gives up before it asks. -/
theorem Consistent.unasked (e : Errno) (c : Cache) : cl.Consistent node table (some e, c) [] :=
  ⟨fun _ h => absurd rfl h, fun h => by cases h⟩

variable (cl node table) in
/-- **A refresh accepts one list**, or leaves an empty cache. -/
theorem refreshTable_consistent {force : Bool} {c : Cache} (hasks : c.Asks node table force) :
    Ensures Traffic.step Eq (fun _ _ _ _ => True) (cl.refreshTable node table force c)
      (fun r t => cl.Consistent node table r t.replies) ⟨0, []⟩ := by
  unfold refreshTable validateRemoteNode
  rw [ensures_bind, ensures_bind, ensures_perform]
  rintro _ rfl info _ rfl
  refine ⟨trivial, ?_⟩
  by_cases hready : (!info.paramInitialized || !info.cspInitialized || !info.routerRunning) = true
  · rw [if_pos hready]
    exact Consistent.unasked _ c
  rw [if_neg hready]
  by_cases hother : node = info.address ∨ node.toNat ≥ 2 ^ info.hostBits
  · rw [if_pos hother]
    exact Consistent.unasked _ c
  rw [if_neg hother, ensures_pure]
  dsimp only
  by_cases hzero : node = 0
  · rw [if_pos hzero]
    exact Consistent.unasked _ c
  rw [if_neg hzero, if_neg hasks, ensures_bind, ensures_perform]
  rintro _ rfl (_ | _) _ rfl
  · exact ⟨trivial, Consistent.unasked _ c⟩
  refine ⟨trivial, ?_⟩
  have hlists : Cache.Lists { c.clear with node := node } node
      (List.map (cl.transfer.descriptor node) []) :=
    ⟨rfl, rfl, rfl, List.nodup_nil, List.nodup_nil⟩
  have hloop := @refreshLoop_consistent [] _ _ cl node table (cl.poolSize + 1) 0 0 _ ⟨0, []⟩
    hlists rfl
  rw [List.flatten_nil, crc32, crc32Update_nil] at hloop
  exact hloop

end Client

/-! ### A node that serves its registry -/

/-- `list_server`, with what it answers to requests of other kinds. -/
def ListServer.serveRequest (t : Transfer) (server : ListServer)
    (others : List UInt8 → Option (List UInt8)) (request : List UInt8) : Option (List UInt8) :=
  if request.length > 1 ∧ request.getD 0 0 = listLookupVersion then server.serveLookup t request
  else if (request.length = 7 ∧ request.getD 0 0 = listIndexedVersion) ∨
      (request.length = 8 ∧ request.getD 0 0 = listTableVersion) then
    some (server.serveIndexedList t request)
  else others request

/-- A request of `refresh_table` is one for a list. -/
theorem ListServer.serveRequest_listRequest (t : Transfer) (server : ListServer)
    (others : List UInt8 → Option (List UInt8)) (table : UInt8) (index : UInt16) (crc : UInt32) :
    server.serveRequest t others (listRequest table index crc) =
      some (server.serveIndexedList t (listRequest table index crc)) := by
  unfold serveRequest listRequest
  by_cases htable : table = 0
  · have hversion : listIndexedVersion ≠ listLookupVersion := by decide
    rw [if_pos htable, if_neg fun h => absurd h.2 hversion, if_pos (by simp)]
  · have hversion : listTableVersion ≠ listLookupVersion := by decide
    rw [if_neg htable, if_neg fun h => absurd h.2 hversion, if_pos (by simp)]

namespace Client

variable {ρ κ : Type} {cl : Client ρ κ} {node : UInt16} {table : UInt8}

/-- The end of a list. -/
theorem takeReply_end {total : UInt16} {crc : UInt32} (c : Cache) (hpool : ds.length ≤ cl.poolSize)
    (hsame : ds.length ≠ 0 → UInt16.ofNat ds.length = total ∧ crc32 ds.flatten = crc) :
    cl.takeReply node table ds.length total crc (crc32 ds.flatten) c
      (listReply table ds ds.length) = .done := by
  have hrange := cl.poolSize_range
  have hcast : (UInt16.ofNat ds.length).toNat = ds.length := by
    rw [UInt16.toNat_ofNat']
    exact Nat.mod_eq_of_lt (by omega)
  have hreply : listReply table ds ds.length = replyHeader (listVersion table) listEnd
      (UInt16.ofNat ds.length) (UInt16.ofNat ds.length) (crc32 ds.flatten) ++ [] := by
    simp [listReply]
  rw [hreply, takeReply_header, if_neg ?_, if_pos ⟨rfl, hcast.symm, rfl, rfl⟩]
  rintro (h | h | ⟨hne, h⟩ | h)
  · exact h rfl
  · exact h rfl
  · obtain ⟨htotal, hcrc⟩ := hsame hne
    rcases h with h | h
    · exact h htotal
    · exact h hcrc
  · omega

/-- A descriptor that is to be cached. -/
theorem takeReply_item (table : UInt8) (received : UInt32) {ps : List Descriptor}
    {param : Descriptor} {k : ℕ} {total : UInt16} {crc : UInt32} {c : Cache}
    (hpool : ds.length ≤ cl.poolSize)
    (hparam : ds[k]? = some (cl.transfer.encodeDescriptor param)) (hcarried : param.Carried)
    (hsame : k ≠ 0 → UInt16.ofNat ds.length = total ∧ crc32 ds.flatten = crc)
    (hlists : c.Lists node ps) (hcount : ps.length < cl.poolSize)
    (hids : (cl.transfer.asRemote node param).id ∉ ps.map (·.id))
    (hnames : (cl.transfer.asRemote node param).name ∉ ps.map (·.name)) :
    ∃ c', cl.takeReply node table k total crc received c (listReply table ds k) =
        .next (UInt16.ofNat ds.length) (crc32 ds.flatten)
          (crc32Update received (cl.transfer.encodeDescriptor param)) c' ∧
      c'.Lists node (ps ++ [cl.transfer.asRemote node param]) := by
  have hrange := cl.poolSize_range
  have hcast : (UInt16.ofNat ds.length).toNat = ds.length := by
    rw [UInt16.toNat_ofNat']
    exact Nat.mod_eq_of_lt (by omega)
  have hlt : k < ds.length := (List.getElem?_eq_some_iff.1 hparam).1
  have hreply : listReply table ds k = replyHeader (listVersion table) listItem
      (UInt16.ofNat k) (UInt16.ofNat ds.length) (crc32 ds.flatten) ++
        cl.transfer.encodeDescriptor param := by
    rw [listReply, hparam]
  have hduplicate : c.duplicate (cl.transfer.asRemote node param) = false := by
    rw [Cache.duplicate, List.any_eq_false, hlists.params]
    intro p hp h
    rw [Bool.or_eq_true, decide_eq_true_iff, decide_eq_true_iff] at h
    rcases h with h | h
    · exact hids (h ▸ List.mem_map_of_mem hp)
    · exact hnames (h ▸ List.mem_map_of_mem hp)
  obtain ⟨c', hcreate⟩ : ∃ c', cl.create (cl.transfer.asRemote node param) c = some c' :=
    ⟨_, if_pos (by rw [hlists.count]; exact hcount)⟩
  refine ⟨c', ?_, hlists.create hduplicate hcreate⟩
  rw [hreply, takeReply_header, if_neg ?_, if_neg ?_, if_neg ?_, hcarried.descriptor_encode,
    if_neg (by rw [hduplicate]; exact Bool.false_ne_true), hcreate]
  · rintro (h | h | h)
    · exact h rfl
    · omega
    · exact h hcarried.validate_encode
  · exact fun h => absurd h.1 (by decide : listItem ≠ listEnd)
  · rintro (h | h | ⟨hne, h⟩ | h)
    · exact h rfl
    · exact h rfl
    · obtain ⟨htotal, hcrc⟩ := hsame hne
      rcases h with h | h
      · exact h htotal
      · exact h hcrc
    · omega

/-- **The loop takes the rest of a list**, once it has the first `k` descriptors. -/
theorem refreshLoop_delivers (info : LinkInfo) {serve : List UInt8 → Option (List UInt8)}
    {qs : List Descriptor} (hpool : qs.length ≤ cl.poolSize) (hcarried : ∀ q ∈ qs, q.Carried)
    (hids : (qs.map (·.id)).Nodup) (hnames : (qs.map (·.name)).Nodup)
    (hserve : ∀ k expected, k ≤ qs.length →
      (k ≠ 0 → expected = crc32 (qs.map cl.transfer.encodeDescriptor).flatten) →
        serve (listRequest table (UInt16.ofNat k) expected) =
          some (listReply table (qs.map cl.transfer.encodeDescriptor) k))
    (turns k : ℕ) (hk : k ≤ qs.length) (hturns : qs.length < turns + k) (total : UInt16)
    (crc : UInt32) (hsame : k ≠ 0 → UInt16.ofNat qs.length = total ∧
      crc32 (qs.map cl.transfer.encodeDescriptor).flatten = crc) (c : Cache)
    (hlists : c.Lists node ((qs.take k).map (cl.transfer.asRemote node))) (last : List UInt8) :
    ∃ c' last', ((cl.refreshLoop node table turns k total crc
        (crc32 ((qs.take k).map cl.transfer.encodeDescriptor).flatten) c).exec
          (answering info serve) last).2 = ((none, c'), last') ∧
      c'.Lists node (qs.map (cl.transfer.asRemote node)) ∧ c'.complete = decide (table = 0) := by
  induction turns generalizing k total crc c last with
  | zero => omega
  | succ turns ih =>
    set ds := qs.map cl.transfer.encodeDescriptor with hds
    have hlen : ds.length = qs.length := List.length_map _
    have hexchange := exchange_answering info serve node
      (listRequest table (UInt16.ofNat k) crc) last
    rw [hserve k crc hk fun hne => (hsame hne).2.symm] at hexchange
    rw [refreshLoop, Prog.exec_bind_of hexchange]
    dsimp only
    by_cases hend : k = ds.length
    · have hall : qs.take k = qs := List.take_of_length_le (by omega)
      rw [hall] at hlists ⊢
      have hsame' : ds.length ≠ 0 → UInt16.ofNat ds.length = total ∧ crc32 ds.flatten = crc := by
        intro hne
        rw [hlen]
        exact hsame (by omega)
      rw [← hds, hend, takeReply_end c (by omega) hsame']
      refine ⟨_, _, rfl, ?_, rfl⟩
      exact ⟨hlists.node, hlists.params, hlists.count, hlists.ids, hlists.names⟩
    · have hlt : k < qs.length := by omega
      have htake : qs.take (k + 1) = qs.take k ++ [qs[k]] := List.take_succ_eq_append_getElem hlt
      have hparam : ds[k]? = some (cl.transfer.encodeDescriptor qs[k]) := by
        rw [hds, List.getElem?_map, List.getElem?_eq_getElem hlt]
        rfl
      have hnew : ∀ {β : Type} (f : Descriptor → β), (qs.map f).Nodup →
          f qs[k] ∉ (qs.take k).map f := by
        intro β f hf hmem
        have hsub := hf.sublist ((List.take_sublist (k + 1) qs).map f)
        rw [htake, List.map_append, List.nodup_append] at hsub
        exact hsub.2.2 _ hmem _ (List.mem_singleton_self _) rfl
      obtain ⟨c', hnext, hlists'⟩ := takeReply_item table
        (crc32 ((qs.take k).map cl.transfer.encodeDescriptor).flatten) (by omega) hparam
        (hcarried _ (List.getElem_mem hlt)) (by rwa [hlen]) hlists
        (by rw [List.length_map, List.length_take]; omega)
        (by rw [List.map_map]; exact hnew _ hids) (by rw [List.map_map]; exact hnew _ hnames)
      have hreceived : crc32Update (crc32 ((qs.take k).map cl.transfer.encodeDescriptor).flatten)
          (cl.transfer.encodeDescriptor qs[k]) =
            crc32 ((qs.take (k + 1)).map cl.transfer.encodeDescriptor).flatten := by
        rw [htake, List.map_append, List.flatten_append, crc32, ← crc32Update_append,
          List.map_singleton, List.flatten_singleton]
        rfl
      rw [hnext, hreceived]
      refine ih (k + 1) hlt (by omega) _ _ (fun _ => ⟨by rw [hlen], rfl⟩) c' ?_ _
      rw [htake, List.map_append]
      exact hlists'

end Client

/-! ### The list of a registry -/

section

variable {cfg : Config} {sets : List (Option DefinitionSet)} {s : Service} {nodeSelf : UInt16}

section

variable (h : init cfg sets Service.boot = (none, s))
include h

variable (nodeSelf) in
/-- The identifiers of a registry grow. -/
theorem ids_localParameters : (localParameters nodeSelf s).Pairwise fun p q => p.id < q.id :=
  List.pairwise_map.2 (init_ok h).increasing

/-- Its names are distinct. -/
theorem names_localParameters : ((localParameters nodeSelf s).map (·.name)).Nodup := by
  rw [localParameters, List.map_map]
  exact (init_ok h).names

/-- Its parameters can be carried, if they are not too large. -/
theorem carried_localParameters {param : Descriptor}
    (hmem : param ∈ localParameters nodeSelf s) (hsize : param.arraySize < 255) :
    param.Carried := by
  obtain ⟨entry, hentry, rfl⟩ := List.mem_map.1 hmem
  have hadm := (init_accepted h).admitted entry hentry
  have harray := hadm.arraySize
  rcases hadm.capacity_cases with ⟨htype, -, hpos, -⟩ | ⟨⟨htext, hdata⟩, -, hscalar⟩
  · refine ⟨fun h => ?_, hpos, hsize, hadm.named, hadm.within⟩
    rcases htype with htype | htype <;> cases htype.symm.trans h
  · rw [if_neg (not_or.2 ⟨htext, hdata⟩)] at harray
    refine ⟨fun h => ?_, ?_, hsize, hadm.named, hadm.within⟩
    · rw [show entry.info.type = .INVALID from h] at hscalar
      exact absurd hscalar (Nat.lt_irrefl 0)
    · show 0 < entry.info.arraySize.toNat
      rw [harray]
      decide

end

end

/-- The parameters of a node that are in its list, or in the list of one of its tables. -/
def Transfer.listedParams (t : Transfer) (table : UInt8) (nodeSelf : UInt16) (s : Service) :
    List Descriptor :=
  (localParameters nodeSelf s).filter (t.listed table)

namespace Client

variable {ρ κ : Type} (cl : Client ρ κ) {node : UInt16} {table : UInt8} {force : Bool} {c : Cache}
  {cfg : Config} {sets : List (Option DefinitionSet)} {s : Service} {info : LinkInfo}

/-- **The list of a registry is delivered.** -/
theorem refreshTable_delivers (hasks : c.Asks node table force)
    (hinit : init cfg sets Service.boot = (none, s)) (nodeSelf : UInt16)
    (hinfo : Reaches info node) (hzero : node ≠ 0)
    (hcount : (cl.transfer.listedParams table nodeSelf s).length ≤ cl.poolSize)
    (hsize : ∀ param ∈ cl.transfer.listedParams table nodeSelf s, param.arraySize < 255)
    (others : List UInt8 → Option (List UInt8)) (last : List UInt8) :
    ∃ c' last', ((cl.refreshTable node table force c).exec (answering info
        ((cl.transfer.server nodeSelf s).serveRequest cl.transfer others)) last).2 =
          ((none, c'), last') ∧ c'.Lists node
        ((cl.transfer.listedParams table nodeSelf s).map (cl.transfer.asRemote node)) ∧
      c'.complete = decide (table = 0) := by
  set server := cl.transfer.server nodeSelf s with hserver
  set qs := cl.transfer.listedParams table nodeSelf s with hqs
  have hrange := cl.poolSize_range
  have hlist : server.list cl.transfer table = qs.map cl.transfer.encodeDescriptor := rfl
  have hlen : (server.list cl.transfer table).length = qs.length := by
    rw [hlist, List.length_map]
  have hcarried : ∀ q ∈ qs, q.Carried := fun q hq =>
    carried_localParameters hinit (List.mem_of_mem_filter hq) (hsize q hq)
  have hids : (qs.map (·.id)).Nodup := by
    have hsorted := ids_localParameters nodeSelf hinit
    exact List.pairwise_map.2 ((hsorted.filter _).imp fun hlt => UInt16.ne_of_lt hlt)
  have hnames : (qs.map (·.name)).Nodup :=
    (names_localParameters hinit).sublist (List.filter_sublist.map _)
  have hserve : ∀ k expected, k ≤ qs.length →
      (k ≠ 0 → expected = crc32 (qs.map cl.transfer.encodeDescriptor).flatten) →
        server.serveRequest cl.transfer others (listRequest table (UInt16.ofNat k) expected) =
          some (listReply table (qs.map cl.transfer.encodeDescriptor) k) := by
    intro k expected hk hexpected
    rw [ListServer.serveRequest_listRequest, ← hlist,
      serve_listRequest rfl (by omega) (by omega) (by rwa [hlist])]
  have hnode := validateRemoteNode_answering hinfo
    (server.serveRequest cl.transfer others) last
  rw [refreshTable, Prog.exec_bind_of hnode]
  dsimp only
  rw [if_neg hzero, if_neg hasks]
  have hlists : Cache.Lists { c.clear with node := node } node
      ((qs.take 0).map (cl.transfer.asRemote node)) :=
    ⟨rfl, rfl, rfl, List.nodup_nil, List.nodup_nil⟩
  have hloop := refreshLoop_delivers info hcount hcarried hids hnames hserve
    (cl.poolSize + 1) 0 (Nat.zero_le _) (by omega) 0 0 (fun h => absurd rfl h) _ hlists last
  rw [List.take_zero, List.map_nil, List.flatten_nil, crc32, crc32Update_nil] at hloop
  exact hloop

/-- What is to hold of a refresh that asks the node. -/
structure Refreshes (node : UInt16) (table : UInt8) (force : Bool) (c : Cache) : Prop where
  delivers : ∀ (cfg : Config) (sets : List (Option DefinitionSet)) (s : Service),
    init cfg sets Service.boot = (none, s) → ∀ (nodeSelf : UInt16) (info : LinkInfo),
      Reaches info node → node ≠ 0 →
      (cl.transfer.listedParams table nodeSelf s).length ≤ cl.poolSize →
      (∀ param ∈ cl.transfer.listedParams table nodeSelf s, param.arraySize < 255) →
      ∀ (others : List UInt8 → Option (List UInt8)) (last : List UInt8),
        ∃ c', ((cl.refreshTable node table force c).exec (answering info
            ((cl.transfer.server nodeSelf s).serveRequest cl.transfer others)) last).2.1 =
              (none, c') ∧
          c'.params =
            (cl.transfer.listedParams table nodeSelf s).map (cl.transfer.asRemote node) ∧
          c'.params.Pairwise fun p q => p.id < q.id
  refuses : ∀ (r : Option Errno) (c' : Cache) (t : Traffic),
    Prog.Ends Traffic.step (cl.refreshTable node table force c) ⟨0, []⟩ (r, c') t →
      (∀ ds, t.replies ≠ listReplies table ds) → r ≠ none ∧ (t.replies ≠ [] → c'.Empty)

/-- **A refresh delivers the list of the node**, as descriptors are carried, and refuses replies
that are not those of one list. -/
theorem list_refreshes (hasks : c.Asks node table force) : cl.Refreshes node table force c where
  delivers cfg sets s hinit nodeSelf info hinfo hzero hcount hsize others last := by
    obtain ⟨c', last', hexec, hlists, -⟩ :=
      cl.refreshTable_delivers hasks hinit nodeSelf hinfo hzero hcount hsize others last
    refine ⟨c', by rw [hexec], hlists.params, ?_⟩
    have hsorted := (ids_localParameters nodeSelf hinit).filter (cl.transfer.listed table)
    rw [hlists.params]
    exact List.pairwise_map.2 (hsorted.imp fun hlt => hlt)
  refuses r c' t hend hdiffers := by
    have h := hend.post (cl.refreshTable_consistent node table hasks) fun _ => rfl
    have hrefused : r ≠ none := fun hr => by
      obtain ⟨ds, hds, -⟩ := h.accepted hr
      exact hdiffers ds hds
    exact ⟨hrefused, h.refused hrefused⟩

/-! ### A node with one parameter -/

/-- The registry of a node with one byte, of the identifier `0x100`. -/
def oneByte : Service := (init smallBuild [some (byteTable 1 "a")] Service.boot).2

theorem init_oneByte : init smallBuild [some (byteTable 1 "a")] Service.boot = (none, oneByte) :=
  init_byteTable 1 "a" (by decide +kernel)

/-- A client of such a node is told of its byte. -/
theorem list_refreshes_byte :
    ∃ c', ((smallClient.refreshTable 2 0 true Cache.start).exec (answering link
      ((smallClient.transfer.server 3 oneByte).serveRequest smallClient.transfer fun _ => none))
        []).2.1 = (none, c') ∧ c'.params.map (·.id) = [0x100] := by
  have hasks : Cache.start.Asks 2 0 true := fun h => absurd h.1 (by decide)
  obtain ⟨c', hexec, hparams, -⟩ := (smallClient.list_refreshes hasks).delivers _ _ _ init_oneByte 3
    link reaches_link (by decide) (by decide +kernel) (by decide +kernel) (fun _ => none) []
  refine ⟨c', hexec, ?_⟩
  rw [hparams]
  decide +kernel

/-- What a list tells of a parameter. -/
def told (param : Descriptor) : UInt16 × ParamType × ℕ × UInt32 × CString × CString :=
  (param.id, param.type, param.arraySize, param.mask, param.name, param.unit.getD CString.empty)

/-- **A descriptor is not cached as the node has it**: the client adds `PM_REMOTE` to its mask. -/
theorem remote_mask_added : ¬ ∀ (cfg : Config) (sets : List (Option DefinitionSet)) (s : Service),
    init cfg sets Service.boot = (none, s) → ∀ nodeSelf,
      (smallClient.transfer.listedParams 0 nodeSelf s).length ≤ smallClient.poolSize → ∃ c',
        ((smallClient.refreshTable 2 0 true Cache.start).exec (answering link
          ((smallClient.transfer.server nodeSelf s).serveRequest smallClient.transfer
            fun _ => none)) []).2.1 = (none, c') ∧
          c'.params.map told = (smallClient.transfer.listedParams 0 nodeSelf s).map told := by
  intro h
  have hasks : Cache.start.Asks 2 0 true := fun h => absurd h.1 (by decide)
  obtain ⟨c', last', hexec, hlists, -⟩ := smallClient.refreshTable_delivers hasks init_oneByte 3
    reaches_link (by decide) (by decide +kernel) (by decide +kernel) (fun _ => none) []
  obtain ⟨c'', hexec', htold⟩ := h _ _ _ init_oneByte 3 (by decide +kernel)
  have hsame : c'' = c' := by
    have hpair := hexec'.symm.trans (congrArg Prod.fst hexec)
    exact (Prod.mk.inj hpair).2
  rw [hsame, hlists.params] at htold
  exact absurd htold (by decide +kernel)

end Client

end KfswServices.Param
