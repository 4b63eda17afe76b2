/-
# Local and remote operations

`kfsw_ftp_stat`, `kfsw_ftp_list` and `kfsw_ftp_mkdir` to another node ask its server, which does
what the node does itself for `kfsw_ftp_local_stat`, `kfsw_ftp_local_list` and
`kfsw_ftp_local_mkdir`.  The two agree (`remote_agrees_iff`), but for the path that is empty: the
client takes it for the root, as the node itself does, and the server refuses a request without a
path.
-/

import KfswServices.Ftp.Conversation
import KfswServices.Ftp.Disk

namespace KfswServices.Ftp

open Library

/-- A call of a node to its own store. -/
abbrev LocalStep {σ : Type} (fs : Machine σ) (o : Op) (s : σ) (r : OpResult o) (s' : σ) : Prop :=
  (r, s') = fs.call o s

/-- A visitor that never stops, and keeps what it makes of an entry. -/
def keeping {γ : Type} (f : γ → ListEntry → γ) : Visitor γ := fun entry context =>
  pure (true, f context entry)

/-- The message of `send_list_entry`. -/
def entryMessage (requestId : UInt32) (entry : ListEntry) : Message where
  opcode := opListEntry
  flags := entry.type.toByte
  status := 0
  requestId := requestId
  offset := 0
  totalSize := UInt32.ofNat entry.size
  crc32 := 0
  path := entry.name.bytes.take maxPathSize
  data := []

/-- An entry that a listing may show. -/
structure ListEntry.Shown (entry : ListEntry) : Prop where
  named : entry.name.bytes ≠ []
  short : entry.name.length ≤ maxPathSize
  small : entry.size ≤ uint32Max

section

variable {σ γ : Type} {capacity : ℕ} {fs : Machine σ} {s s' : σ} {requestId : UInt32}
  {toServer toClient : List (List UInt8)}

/-! ### The server's calls -/

/-- What the node does to its store, its server does too. -/
theorem serverStep_store {o : Op} {r : OpResult o} (hsend : ∀ m, o ≠ .linkSend m)
    (hreceive : o ≠ .linkReceive) (h : LocalStep fs o s r s') :
    ServerStep capacity fs o ⟨s, toServer, toClient⟩ r ⟨s', toServer, toClient⟩ := by
  have hcall : serverCall capacity fs o ⟨s, toServer, toClient⟩ =
      some ((fs.call o s).1, ⟨(fs.call o s).2, toServer, toClient⟩) := by
    cases o with
    | linkSend m => exact absurd rfl (hsend m)
    | linkReceive => exact absurd rfl hreceive
    | _ => rfl
  rw [ServerStep, hcall, ← h]

/-- A message of the server. -/
theorem serverStep_send {m : Message} (hm : m.Fits)
    (hsize : m.path.length + m.data.length ≤ chunkSize)
    (hcapacity : protocolHeaderSize + chunkSize ≤ capacity) :
    ServerStep capacity fs (.linkSend m) ⟨s, toServer, toClient⟩ none
      ⟨s, toServer, toClient ++ [m.packet capacity]⟩ := by
  show some _ = _
  rw [(transmit_eq hm hsize hcapacity toClient).1]

/-- What only looks at the store, the server does as the node does. -/
theorem LooksOnly.ends {α : Type} {p : Program α} {Q : α → Prop} (h : LooksOnly p Q) (s : σ) :
    Prog.Ends (ServerStep capacity fs) p ⟨s, toServer, toClient⟩ (p.exec fs.call s).2.1
      ⟨(p.exec fs.call s).2.2, toServer, toClient⟩ := by
  have hstep : ∀ o : Op, o.looks = true → ∀ t, ServerStep capacity fs o ⟨t, toServer, toClient⟩
      (fs.call o t).1 ⟨(fs.call o t).2, toServer, toClient⟩ := by
    intro o ho t
    refine serverStep_store ?_ ?_ rfl
    · rintro m rfl
      cases ho
    · rintro rfl
      cases ho
  exact Calls.ends (f := fun t => (⟨t, toServer, toClient⟩ : Conversation σ)) h hstep s

variable {entry : ListEntry}

theorem fits_entryMessage : (entryMessage requestId entry).Fits where
  opcode := (by decide : opMkdirRequest ≤ opListEntry ∧ opListEntry ≤ opGetResult)
  path := List.length_take_le _ _
  data := Nat.zero_le _
  noNul h := entry.name.noNul (List.mem_of_mem_take h)

theorem sendListEntry_ends (hcapacity : protocolHeaderSize + chunkSize ≤ capacity) :
    Prog.Ends (ServerStep capacity fs) (sendListEntry requestId entry none)
      ⟨s, toServer, toClient⟩ (true, none)
      ⟨s, toServer, toClient ++ [(entryMessage requestId entry).packet capacity]⟩ := by
  have hsize : (entryMessage requestId entry).path.length +
      (entryMessage requestId entry).data.length ≤ chunkSize :=
    (List.length_take_le _ _).trans (by decide)
  exact Prog.Ends.call (serverStep_send fits_entryMessage hsize hcapacity) Prog.ends_pure

/-! ### A listing -/

/-- The packets of the entries that a listing shows. -/
def entryPackets (capacity : ℕ) (requestId : UInt32) (entries : List ListEntry) :
    List (List UInt8) := entries.map fun entry => (entryMessage requestId entry).packet capacity

/-- **A part of a listing**, on the node and on its server, which shows these entries: the node's
visitor keeps them, and the server sends them.  The part is written for any visitor. -/
structure Lists (capacity : ℕ) (fs : Machine σ) (requestId : UInt32) {ρ : Type → Type}
    (part : ∀ δ, Visitor δ → δ → Program (ρ δ)) (s : σ) (result : ∀ δ, δ → ρ δ)
    (entries : List ListEntry) (s' : σ) : Prop where
  shown : ∀ entry ∈ entries, entry.Shown
  node : ∀ (γ : Type) (f : γ → ListEntry → γ) context,
    Prog.Ends (LocalStep fs) (part γ (keeping f) context) s (result γ (entries.foldl f context)) s'
  server : ∀ toServer toClient,
    Prog.Ends (ServerStep capacity fs) (part _ (sendListEntry requestId) none)
      ⟨s, toServer, toClient⟩ (result _ none)
      ⟨s', toServer, toClient ++ entryPackets capacity requestId entries⟩

section

variable {ρ ρ' : Type → Type} {part : ∀ δ, Visitor δ → δ → Program (ρ δ)}
  {result : ∀ δ, δ → ρ δ} {entries entries' : List ListEntry} {s₁ : σ}

/-- The end of a listing. -/
theorem lists_pure (result : ∀ δ, δ → ρ δ) :
    Lists capacity fs requestId (fun δ _ context => pure (result δ context)) s result [] s where
  shown := by simp
  node _ _ _ := Prog.ends_pure
  server toServer toClient := by
    rw [entryPackets, List.map_nil, List.append_nil]
    exact Prog.ends_pure

/-- A call to the store, and the rest of the listing. -/
theorem Lists.call {o : Op} {r : OpResult o}
    (rest : OpResult o → ∀ δ, Visitor δ → δ → Program (ρ δ)) (hsend : ∀ m, o ≠ .linkSend m)
    (hreceive : o ≠ .linkReceive) (hcall : LocalStep fs o s r s₁)
    (h : Lists capacity fs requestId (rest r) s₁ result entries s') :
    Lists capacity fs requestId (fun δ visitor context => .call o fun r => rest r δ visitor context)
      s result entries s' where
  shown := h.shown
  node γ f context := Prog.Ends.call hcall (h.node γ f context)
  server toServer toClient :=
    Prog.Ends.call (serverStep_store hsend hreceive hcall) (h.server toServer toClient)

/-- One part after the other. -/
theorem Lists.bind {rest : ∀ δ, Visitor δ → ρ δ → Program (ρ' δ)} {result' : ∀ δ, δ → ρ' δ}
    (h : Lists capacity fs requestId part s result entries s₁)
    (h' : Lists capacity fs requestId (fun δ visitor context => rest δ visitor (result δ context))
      s₁ result' entries' s') : Lists capacity fs requestId
      (fun δ visitor context => part δ visitor context >>= rest δ visitor) s result'
      (entries ++ entries') s' where
  shown entry hentry := (List.mem_append.1 hentry).elim (h.shown entry) (h'.shown entry)
  node γ f context := by
    rw [List.foldl_append]
    exact (h.node γ f context).bind (h'.node γ f _)
  server toServer toClient := by
    rw [entryPackets, List.map_append, ← List.append_assoc]
    exact (h.server toServer toClient).bind (h'.server toServer _)

/-- A branch that does not depend on the visitor. -/
theorem Lists.ifPos {c : Prop} [Decidable c] {other : ∀ δ, Visitor δ → δ → Program (ρ δ)} (hc : c)
    (h : Lists capacity fs requestId part s result entries s') :
    Lists capacity fs requestId
      (fun δ visitor context => if c then part δ visitor context else other δ visitor context) s
      result entries s' := by
  simpa only [if_pos hc] using h

theorem Lists.ifNeg {c : Prop} [Decidable c] {other : ∀ δ, Visitor δ → δ → Program (ρ δ)}
    (hc : ¬ c) (h : Lists capacity fs requestId part s result entries s') :
    Lists capacity fs requestId
      (fun δ visitor context => if c then other δ visitor context else part δ visitor context) s
      result entries s' := by
  simpa only [if_neg hc] using h

/-- A visit. -/
theorem lists_visit (hcapacity : protocolHeaderSize + chunkSize ≤ capacity) (hentry : entry.Shown) :
    Lists capacity fs requestId (fun _ visitor context => visitor entry context) s
      (fun _ context => (true, context)) [entry] s where
  shown _ he := List.mem_singleton.1 he ▸ hentry
  node _ _ _ := Prog.ends_pure
  server _ _ := sendListEntry_ends hcapacity

/-- The selectors of the extra roots can be shown. -/
theorem shown_extraRoot {cfg : Config} {root : Root} (h : root ∈ extraRoots cfg) :
    ListEntry.Shown ⟨root.selector, .DIR, 0⟩ := by
  rcases selector_extraRoot h with h | h | h <;> rw [h] <;> exact ⟨by decide, by decide, by decide⟩

section

variable (hcapacity : protocolHeaderSize + chunkSize ≤ capacity)
include hcapacity

theorem lists_roots {rs : List Root}
    (hrs : ∀ root ∈ rs, ListEntry.Shown ⟨root.selector, .DIR, 0⟩) (s : σ) :
    ∃ entries s', entries.length ≤ rs.length ∧
      Lists capacity fs requestId (fun _ visitor context => listRoots visitor rs context) s
        (fun _ context => (true, context)) entries s' := by
  induction rs generalizing s with
  | nil => exact ⟨[], s, le_rfl, lists_pure _⟩
  | cons root rest ih =>
    rcases hcall : fs.call (.fsStat root.path) s with ⟨r, s₁⟩
    obtain ⟨entries, s', hlength, hlists⟩ := ih (fun r hr => hrs r (List.mem_cons_of_mem _ hr)) s₁
    rcases r with e | type
    · refine ⟨entries, s', hlength.trans (Nat.le_succ _), ?_⟩
      exact Lists.call _ (by simp) (by simp) hcall.symm hlists
    · refine ⟨⟨root.selector, .DIR, 0⟩ :: entries, s', Nat.succ_le_succ hlength, ?_⟩
      refine Lists.call _ (by simp) (by simp) hcall.symm ?_
      exact Lists.bind (lists_visit hcapacity (hrs root (by simp))) hlists

theorem lists_loop (turns : ℕ) (dir : Dir) (s : σ) : ∃ result entries s', entries.length ≤ turns ∧
      Lists capacity fs requestId (fun _ visitor context => localListLoop visitor turns dir context)
        s (fun _ context => (result, true, context)) entries s' := by
  induction turns generalizing dir s with
  | zero => exact ⟨none, [], s, le_rfl, lists_pure _⟩
  | succ turns ih =>
    rcases hcall : fs.call (.fsReaddir dir) s with ⟨r, s₁⟩
    rcases r with e | ⟨_ | entry, dir'⟩
    · refine ⟨some e, [], s₁, Nat.zero_le _, Lists.call _ (by simp) (by simp) hcall.symm ?_⟩
      exact lists_pure _
    · refine ⟨none, [], s₁, Nat.zero_le _, Lists.call _ (by simp) (by simp) hcall.symm ?_⟩
      exact lists_pure _
    by_cases hlong : maxPathSize < entry.name.length
    · refine ⟨some .ENAMETOOLONG, [], s₁, Nat.zero_le _,
        Lists.call _ (by simp) (by simp) hcall.symm ?_⟩
      exact (lists_pure _).ifPos hlong
    by_cases hbig : entry.type = .FILE ∧ uint32Max < entry.size
    · refine ⟨some .EFBIG, [], s₁, Nat.zero_le _, Lists.call _ (by simp) (by simp) hcall.symm ?_⟩
      exact ((lists_pure _).ifPos hbig).ifNeg hlong
    · obtain ⟨result, entries, s', hlength, hlists⟩ := ih dir' s₁
      have hshown : ListEntry.Shown
          ⟨entry.name, entry.type, if entry.type = .FILE then entry.size else 0⟩ := by
        refine ⟨fs.named dir s entry dir' (by rw [hcall]), not_lt.1 hlong, ?_⟩
        show (if _ then _ else _) ≤ _
        split_ifs with hfile
        · exact not_lt.1 fun h => hbig ⟨hfile, h⟩
        · exact Nat.zero_le _
      refine ⟨result, ⟨entry.name, entry.type, if entry.type = .FILE then entry.size else 0⟩ ::
        entries, s', Nat.succ_le_succ hlength, Lists.call _ (by simp) (by simp) hcall.symm ?_⟩
      exact ((Lists.bind (lists_visit hcapacity hshown) hlists).ifNeg hbig).ifNeg hlong

/-- **What `kfsw_ftp_local_list` shows**, the node's visitor keeps and the server sends. -/
theorem lists_localList (cfg : Config) (turns : ℕ) (path : CString) (s : σ) :
    ∃ result entries s', entries.length ≤ turns + (extraRoots cfg).length ∧
      Lists capacity fs requestId (fun _ visitor context => localList cfg turns path visitor context)
        s (fun _ context => (result, context)) entries s' := by
  unfold localList
  rcases resolvePath cfg path true fullPathSize with e | resolved
  · exact ⟨some e, [], s, Nat.zero_le _, lists_pure _⟩
  rcases hopen : fs.call (.fsOpendir resolved) s with ⟨r, s₁⟩
  rcases r with e | dir
  · refine ⟨some e, [], s₁, Nat.zero_le _, Lists.call _ (by simp) (by simp) hopen.symm ?_⟩
    exact lists_pure _
  obtain ⟨result, entries, s₂, hlength, hloop⟩ : ∃ result entries s₂, entries.length ≤ turns ∧
      Lists capacity fs requestId (fun _ visitor context => localListLoop visitor turns dir context)
        s₁ (fun _ context => (result, true, context)) entries s₂ := lists_loop hcapacity turns dir s₁
  rcases hclose : fs.call (.fsClosedir dir) s₂ with ⟨closed, s₃⟩
  -- what comes after the loop shows the extra roots or nothing
  have hrest : ∃ last roots s', roots.length ≤ (extraRoots cfg).length ∧
      Lists capacity fs requestId (fun _ visitor context =>
        if result ≠ none then pure (result, context)
        else if closed = none ∧ true = true ∧ resolved = rootPath then do
          let shown ← listRoots visitor (extraRoots cfg) context
          pure (closed, shown.2)
        else pure (closed, context)) s₃ (fun _ context => (last, context)) roots s' := by
    by_cases hresult : result ≠ none
    · exact ⟨result, [], s₃, Nat.zero_le _, (lists_pure _).ifPos hresult⟩
    by_cases hroot : closed = none ∧ true = true ∧ resolved = rootPath
    · obtain ⟨roots, s', hlength', hroots⟩ : ∃ roots s', _ ∧ Lists capacity fs requestId _ s₃ _ _ s' :=
        lists_roots hcapacity (fun root hroot => shown_extraRoot hroot) s₃
      refine ⟨closed, roots ++ [], s', by simpa using hlength', ?_⟩
      have hshow : Lists capacity fs requestId (fun _ visitor context => do
          let shown ← listRoots visitor (extraRoots cfg) context
          pure (closed, shown.2)) s₃ (fun _ context => (closed, context)) (roots ++ []) s' :=
        hroots.bind (lists_pure _)
      exact (hshow.ifPos hroot).ifNeg hresult
    · exact ⟨closed, [], s₃, Nat.zero_le _, ((lists_pure _).ifNeg hroot).ifNeg hresult⟩
  obtain ⟨last, roots, s', hlength', hrest⟩ := hrest
  refine ⟨last, entries ++ roots, s', ?_, Lists.call _ (by simp) (by simp) hopen.symm ?_⟩
  · rw [List.length_append]
    exact Nat.add_le_add hlength hlength'
  · refine Lists.bind hloop ?_
    exact Lists.call _ (by simp) (by simp) hclose.symm hrest

end

end

/-! ### The client's calls -/

/-- A message comes to the client as it was sent. -/
theorem clientStep_receive {m : Message} (hm : m.Fits)
    (hsize : m.path.length + m.data.length ≤ chunkSize)
    (hcapacity : protocolHeaderSize + chunkSize ≤ capacity) :
    ClientStep capacity .linkReceive ⟨s, toServer, m.packet capacity :: toClient⟩ (.ok m)
      ⟨s, toServer, toClient⟩ := by
  show some _ = _
  rw [(transmit_eq hm hsize hcapacity toClient).2]

theorem fits_plain {opcode status : UInt8} (h : opMkdirRequest ≤ opcode ∧ opcode ≤ opGetResult) :
    (Message.plain opcode status requestId).Fits :=
  ⟨h, Nat.zero_le _, Nat.zero_le _, List.not_mem_nil⟩

@[simp] theorem EntryType.ofByte_toByte (type : EntryType) :
    EntryType.ofByte type.toByte = some type := by
  cases type <;> rfl

/-- What the client makes of an entry is the entry. -/
theorem visitListEntry_eq {f : γ → ListEntry → γ} (h : entry.Shown) (context : γ) :
    visitListEntry (keeping f) (entryMessage requestId entry) context =
      pure (.ok (true, f context entry)) := by
  have hname : entry.name.bytes.take maxPathSize = entry.name.bytes :=
    List.take_of_length_le h.short
  have hsize : (UInt32.ofNat entry.size).toNat = entry.size := by
    have hsmall : entry.size ≤ 4294967295 := h.small
    rw [UInt32.toNat_ofNat']
    exact Nat.mod_eq_of_lt (by omega)
  unfold visitListEntry entryMessage
  simp only [hname, hsize, h.named, EntryType.ofByte_toByte, ne_eq, not_true_eq_false, or_self,
    if_false, cstring_bytes]
  rfl

/-- The client's loop takes the entries, up to the end of the listing. -/
theorem remoteListLoop_ends {f : γ → ListEntry → γ} {status : UInt8}
    (hcapacity : protocolHeaderSize + chunkSize ≤ capacity) {entries : List ListEntry}
    (hshown : ∀ entry ∈ entries, entry.Shown) {turns : ℕ} (hturns : entries.length < turns)
    (context : γ) :
    Prog.Ends (ClientStep capacity) (remoteListLoop (keeping f) requestId turns true context)
      ⟨s, toServer, entryPackets capacity requestId entries ++
        [(Message.plain opListEnd status requestId).packet capacity]⟩
      (wireStatusToErrno status, entries.foldl f context) ⟨s, toServer, []⟩ := by
  induction entries generalizing turns context with
  | nil =>
    obtain ⟨turns, rfl⟩ := Nat.exists_eq_add_of_lt hturns
    have hend : opMkdirRequest ≤ opListEnd ∧ opListEnd ≤ opGetResult := by decide
    refine Prog.Ends.call (clientStep_receive (fits_plain hend) (Nat.zero_le _) hcapacity) ?_
    show Prog.Ends _ (if requestId ≠ requestId then _ else if opListEnd = opListEnd then _ else _)
      _ _ _
    rw [if_neg (not_not.2 rfl), if_pos rfl]
    exact Prog.ends_pure
  | cons entry entries ih =>
    obtain ⟨turns, rfl⟩ := Nat.exists_eq_add_of_lt hturns
    have hsize : (entryMessage requestId entry).path.length +
        (entryMessage requestId entry).data.length ≤ chunkSize :=
      (List.length_take_le _ _).trans (by decide)
    refine Prog.Ends.call (clientStep_receive fits_entryMessage hsize hcapacity) ?_
    show Prog.Ends _ (if requestId ≠ requestId then _ else if opListEntry = opListEnd then _ else
      if true = true then visitListEntry _ _ _ >>= _ else _) _ _ _
    rw [if_neg (not_not.2 rfl), if_neg (by decide), if_pos rfl,
      visitListEntry_eq (hshown entry (by simp))]
    have hrest : entries.length < entries.length + 1 + turns := by omega
    exact ih (fun e he => hshown e (List.mem_cons_of_mem _ he)) hrest _

/-! ### The requests -/

theorem fits_pathRequest {opcode : UInt8} (h : opMkdirRequest ≤ opcode ∧ opcode ≤ opGetResult)
    {path : CString} (hpath : path.length ≤ maxPathSize) :
    (pathRequest opcode requestId path).Fits :=
  ⟨h, hpath, Nat.zero_le _, path.noNul⟩

theorem length_pathRequest (opcode : UInt8) {path : CString} (hpath : path.length ≤ maxPathSize) :
    (pathRequest opcode requestId path).path.length +
      (pathRequest opcode requestId path).data.length ≤ chunkSize :=
  hpath.trans (by decide)

/-- What the server takes for the path of a request. -/
theorem copyRequestPath_pathRequest (opcode : UInt8) {path : CString}
    (hpath : path.length ≤ maxPathSize) :
    copyRequestPath (pathRequest opcode requestId path) =
      if path.bytes = [] then .error .EINVAL else .ok path := by
  have hshort : ¬ maxPathSize + 1 ≤ path.bytes.length := Nat.not_le.2 (Nat.lt_succ_of_le hpath)
  have hvalid : pathRequestIsValid (pathRequest opcode requestId path) = true := by
    simp [pathRequestIsValid, pathRequest]
  unfold copyRequestPath copyMessagePath
  rw [hvalid]
  simp only [pathRequest, hshort, or_false, cstring_bytes, Bool.not_true, Bool.false_eq_true,
    if_false]

/-- What the server does for a path of a request: a request without a path is refused. -/
def served {α : Type} (refusal : Errno → α) (path : CString) (node : Program α) : Program α :=
  if path.bytes = [] then pure (refusal .EINVAL) else node

/-- The message of `serve_stat`. -/
def statMessage (requestId : UInt32) (result : Except Errno Stat) : Message where
  opcode := opStatResponse
  flags := match result with
    | .ok info => info.type.toByte
    | .error _ => 0
  status := wireStatus (errorOf result)
  requestId := requestId
  offset := 0
  totalSize := match result with
    | .ok info => UInt32.ofNat info.size
    | .error _ => 0
  crc32 := match result with
    | .ok info => info.crc32
    | .error _ => 0
  path := []
  data := []

theorem fits_statMessage {result : Except Errno Stat} : (statMessage requestId result).Fits :=
  ⟨(by decide : opMkdirRequest ≤ opStatResponse ∧ opStatResponse ≤ opGetResult), Nat.zero_le _,
    Nat.zero_le _, List.not_mem_nil⟩

theorem looksOnly_served {cfg : Config} {path : CString} :
    LooksOnly (served .error path (localStat cfg path)) fun r =>
      ∀ info, r = .ok info → info.size ≤ uint32Max := by
  unfold served
  split_ifs
  · rintro info ⟨⟩
  · exact looksOnly_localStat

/-- The server answers a stat with what its node finds. -/
theorem serveStat_ends (hcapacity : protocolHeaderSize + chunkSize ≤ capacity) {cfg : Config}
    {chunk turns : ℕ} {path : CString} (hpath : path.length ≤ maxPathSize) :
    let x := ((served .error path (localStat cfg path)).exec fs.call s).2
    Prog.Ends (ServerStep capacity fs)
      (serveMessage cfg chunk turns (pathRequest opStatRequest requestId path)) ⟨s, [], []⟩ none
      ⟨x.2, [], [(statMessage requestId x.1).packet capacity]⟩ := by
  intro x
  have hserve : serveMessage cfg chunk turns (pathRequest opStatRequest requestId path) =
      served .error path (localStat cfg path) >>= fun result =>
        linkSend (statMessage requestId result) := by
    show serveStat cfg (pathRequest opStatRequest requestId path) = _
    unfold serveStat served
    rw [copyRequestPath_pathRequest _ hpath]
    split_ifs <;> rfl
  rw [hserve]
  exact (looksOnly_served.ends s).bind
    (Prog.ends_perform (serverStep_send fits_statMessage (Nat.zero_le _) hcapacity))

/-- The client takes a response of its request that reports a success. -/
theorem receiveResponse_ends (hcapacity : protocolHeaderSize + chunkSize ≤ capacity) {m : Message}
    (hm : m.Fits) (hsize : m.path.length + m.data.length ≤ chunkSize) :
    Prog.Ends (ClientStep capacity) (receiveResponse m.opcode m.requestId)
      ⟨s, toServer, m.packet capacity :: toClient⟩
      (match wireStatusToErrno m.status with
        | some e => .error e
        | none => .ok m) ⟨s, toServer, toClient⟩ := by
  refine Prog.Ends.call (clientStep_receive hm hsize hcapacity) ?_
  show Prog.Ends _ (if m.opcode ≠ m.opcode ∨ m.requestId ≠ m.requestId then _ else _) _ _ _
  rw [if_neg (by simp)]
  rcases wireStatusToErrno m.status with _ | e <;> exact Prog.ends_pure

end

/-- The builds of a client and a server, the client's node, and what bounds the loops of the two:
the client takes all the messages of a listing. -/
structure Pair where
  client : Config
  server : Config
  st : Station
  node : UInt16
  capacity : ℕ
  chunk : ℕ
  turns : ℕ
  clientTurns : ℕ
  remote : node ≠ st.localNode
  ready : validateClient st node = none
  fits : protocolHeaderSize + chunkSize ≤ capacity
  patient : turns + (extraRoots server).length < clientTurns

/-- The client's build accepts a path that the server's accepts. -/
def Pair.Knows (pair : Pair) (path : CString) (allowRoot : Bool) : Prop :=
  validatePath pair.server path allowRoot = none → validatePath pair.client path allowRoot = none

/-- **A remote operation agrees with that of the node**: whatever the store and the order of the
calls, the one succeeds if the other does, and then returns the same and leaves the same store. -/
def Agrees {α : Type} (pair : Pair) (remote node : Program α) (succeeds : α → Prop) : Prop :=
  ∀ (σ : Type) (fs : Machine σ) (s : σ), ∃ r u,
    Answers pair.capacity fs remote (serveConnection pair.server pair.chunk pair.turns) s r u ∧
      (succeeds r ↔ succeeds (node.exec fs.call s).2.1) ∧
      (succeeds r → (r, u) = (node.exec fs.call s).2)

section

variable {σ γ : Type} {pair : Pair} {fs : Machine σ} {s : σ} {path resolved : CString}
  {requestId : UInt32}

/-- What comes of a stat for a path that the client accepts. -/
theorem answers_stat (hclient : resolvePath pair.client path true fullPathSize = .ok resolved) :
    let x := ((served .error path (localStat pair.server path)).exec fs.call s).2
    ∃ r, Answers pair.capacity fs (stat pair.client pair.st pair.node path requestId)
      (serveConnection pair.server pair.chunk pair.turns) s r x.2 ∧
        (errorOf r = none ↔ errorOf x.1 = none) ∧ (errorOf r = none → r = x.1) := by
  intro x
  have hpath : path.length ≤ maxPathSize := (resolvePath_eq_ok_iff.1 hclient).1
  have hserver : Prog.Ends (ServerStep pair.capacity fs)
      (serveMessage pair.server pair.chunk pair.turns (pathRequest opStatRequest requestId path))
      ⟨s, [], []⟩ none ⟨x.2, [], [(statMessage requestId x.1).packet pair.capacity]⟩ :=
    serveStat_ends pair.fits hpath
  have hsmall : ∀ info, x.1 = .ok info → info.size ≤ uint32Max :=
    looksOnly_served.result fs.call s
  clear_value x
  obtain ⟨result, u⟩ := x
  have hreceive : Prog.Ends (ClientStep pair.capacity) (receiveResponse opStatResponse requestId)
      ⟨u, [], [(statMessage requestId result).packet pair.capacity]⟩ _ ⟨u, [], []⟩ :=
    receiveResponse_ends pair.fits fits_statMessage (Nat.zero_le _)
  have hrequest : opMkdirRequest ≤ opStatRequest ∧ opStatRequest ≤ opGetResult := by decide
  unfold stat remoteStat simplePathRequest validateVirtualPath
  rw [if_neg pair.remote, pair.ready, hclient]
  rcases hstatus : wireStatusToErrno (wireStatus (errorOf result)) with _ | e
  · obtain ⟨info, rfl⟩ : ∃ info, result = .ok info := by
      rcases result with e | info
      · exact absurd ((wireStatus_errno_eq_none_iff _).1 hstatus) (by simp [errorOf])
      · exact ⟨info, rfl⟩
    rw [show (statMessage requestId (.ok info)).status = wireStatus (errorOf (.ok info)) from rfl,
      hstatus] at hreceive
    refine ⟨.ok info, answers_request (fits_pathRequest hrequest hpath)
      (length_pathRequest _ hpath) pair.fits rfl hserver (hreceive.bind ?_), Iff.rfl, fun _ => rfl⟩
    have hsize : (UInt32.ofNat info.size).toNat = info.size := by
      have hle : info.size ≤ 4294967295 := hsmall info rfl
      rw [UInt32.toNat_ofNat']
      exact Nat.mod_eq_of_lt (by omega)
    simp only [statMessage, EntryType.ofByte_toByte, hsize, ne_eq, not_true_eq_false, or_self,
      if_false]
    exact Prog.ends_pure
  · rw [show (statMessage requestId result).status = wireStatus (errorOf result) from rfl,
      hstatus] at hreceive
    refine ⟨.error e, answers_request (fits_pathRequest hrequest hpath)
      (length_pathRequest _ hpath) pair.fits rfl hserver (hreceive.bind Prog.ends_pure), ?_, ?_⟩
    · refine iff_of_false (by simp [errorOf]) fun h => ?_
      rw [(wireStatus_errno_eq_none_iff _).2 h] at hstatus
      cases hstatus
    · rintro ⟨⟩

/-- What comes of a listing for a path that the client accepts. -/
theorem answers_list (f : γ → ListEntry → γ) (context : γ)
    (hclient : resolvePath pair.client path true fullPathSize = .ok resolved) :
    let x := ((served (fun e => (some e, context)) path
      (localList pair.server pair.turns path (keeping f) context)).exec fs.call s).2
    ∃ r, Answers pair.capacity fs (list pair.client pair.clientTurns pair.st pair.node path requestId
        (keeping f) context) (serveConnection pair.server pair.chunk pair.turns) s r x.2 ∧
      (r.1 = none ↔ x.1.1 = none) ∧ (r.1 = none → r = x.1) := by
  intro x
  have hpath : path.length ≤ maxPathSize := (resolvePath_eq_ok_iff.1 hclient).1
  have hrequest : opMkdirRequest ≤ opListRequest ∧ opListRequest ≤ opGetResult := by decide
  have hlast : opMkdirRequest ≤ opListEnd ∧ opListEnd ≤ opGetResult := by decide
  -- the entries that the server sends are those that the node keeps
  obtain ⟨result, entries, u, hlength, hlists⟩ : ∃ result entries u,
      entries.length ≤ pair.turns + (extraRoots pair.server).length ∧
        Lists pair.capacity fs requestId (fun _ visitor context =>
          served (fun e => (some e, context)) path
            (localList pair.server pair.turns path visitor context)) s
          (fun _ context => (result, context)) entries u := by
    unfold served
    by_cases hempty : path.bytes = []
    · exact ⟨some .EINVAL, [], s, Nat.zero_le _, (lists_pure _).ifPos hempty⟩
    · obtain ⟨result, entries, u, hlength, hlists⟩ : ∃ result entries u, _ ∧
          Lists pair.capacity fs requestId _ s _ entries u :=
        lists_localList pair.fits pair.server pair.turns path s
      exact ⟨result, entries, u, hlength, hlists.ifNeg hempty⟩
  have hx : x = ((result, entries.foldl f context), u) :=
    Prog.ends_iff_exec.1 (hlists.node γ f context)
  have hserver : Prog.Ends (ServerStep pair.capacity fs)
      (serveMessage pair.server pair.chunk pair.turns (pathRequest opListRequest requestId path))
      ⟨s, [], []⟩ none ⟨u, [], entryPackets pair.capacity requestId entries ++
        [(Message.plain opListEnd (wireStatus result) requestId).packet pair.capacity]⟩ := by
    have hserve : serveMessage pair.server pair.chunk pair.turns
        (pathRequest opListRequest requestId path) =
          served (fun e => (some e, none)) path
            (localList pair.server pair.turns path (sendListEntry requestId) none) >>= fun x =>
              linkSend (Message.plain opListEnd (wireStatus (if x.2 ≠ none then x.2 else x.1))
                requestId) := by
      show serveList pair.server pair.turns (pathRequest opListRequest requestId path) = _
      unfold serveList served
      rw [copyRequestPath_pathRequest _ hpath]
      split_ifs <;> rfl
    rw [hserve]
    exact (hlists.server [] []).bind
      (Prog.ends_perform (serverStep_send (fits_plain hlast) (Nat.zero_le _) pair.fits))
  rw [hx]
  unfold list remoteList validateVirtualPath
  rw [if_neg pair.remote, pair.ready, hclient]
  refine ⟨(wireStatusToErrno (wireStatus result), entries.foldl f context),
    answers_request (fits_pathRequest hrequest hpath) (length_pathRequest _ hpath) pair.fits rfl
      hserver ?_, wireStatus_errno_eq_none_iff result, fun h => ?_⟩
  · exact remoteListLoop_ends pair.fits hlists.shown (hlength.trans_lt pair.patient) context
  · have hresult := (wireStatus_errno_eq_none_iff result).1 h
    rw [hresult]
    rfl

/-- The server refuses a read-only path before it does what its node does, which refuses it too. -/
theorem serveMessage_mkdir {cfg : Config} {chunk turns : ℕ} (hpath : path.length ≤ maxPathSize) :
    serveMessage cfg chunk turns (pathRequest opMkdirRequest requestId path) =
      served some path (localMkdir cfg path) >>= fun result =>
        linkSend (Message.plain opMkdirResponse (wireStatus result) requestId) := by
  have hcopy : copyRequestPath (pathRequest opMkdirRequest requestId path) = _ :=
    copyRequestPath_pathRequest _ hpath
  have hmessage : copyMessagePath (pathRequest opMkdirRequest requestId path) (maxPathSize + 1) =
      if path.bytes = [] then .error .EINVAL else .ok path := by
    rw [← hcopy]
    simp [copyRequestPath, pathRequestIsValid, pathRequest]
  have hserve : serveMkdir cfg (pathRequest opMkdirRequest requestId path) =
      served some path (localMkdir cfg path) >>= fun result =>
        linkSend (Message.plain opMkdirResponse (wireStatus result) requestId) := by
    unfold serveMkdir served
    rw [hcopy]
    split_ifs <;> rfl
  unfold serveMessage
  by_cases hreadOnly : requestIsReadOnly cfg (pathRequest opMkdirRequest requestId path) = true
  · rw [if_pos hreadOnly]
    rw [requestIsReadOnly, hmessage] at hreadOnly
    unfold served
    split_ifs at hreadOnly ⊢ with hempty
    · simp at hreadOnly
    · have hrefused : localMkdir cfg path = pure (some .EROFS) := by
        simp only [Bool.and_eq_true] at hreadOnly
        rw [localMkdir, resolveWritePath, if_pos hreadOnly.2]
      rw [hrefused]
      rfl
  · rw [if_neg hreadOnly]
    exact hserve

theorem served_mkdir_ends {toServer toClient : List (List UInt8)} :
    let x := ((served some path (localMkdir pair.server path)).exec fs.call s).2
    Prog.Ends (ServerStep pair.capacity fs) (served some path (localMkdir pair.server path))
      ⟨s, toServer, toClient⟩ x.1 ⟨x.2, toServer, toClient⟩ := by
  unfold served localMkdir
  split_ifs
  · exact Prog.ends_pure
  · rcases resolveWritePath pair.server path fullPathSize with e | resolved
    · exact Prog.ends_pure
    · exact Prog.ends_perform (serverStep_store (by simp) (by simp) rfl)

/-- What comes of a new directory for a path that the client accepts. -/
theorem answers_mkdir (hclient : resolvePath pair.client path false fullPathSize = .ok resolved) :
    let x := ((served some path (localMkdir pair.server path)).exec fs.call s).2
    ∃ r, Answers pair.capacity fs (mkdir pair.client pair.st pair.node path requestId)
        (serveConnection pair.server pair.chunk pair.turns) s r x.2 ∧
      (r = none ↔ x.1 = none) := by
  intro x
  have hpath : path.length ≤ maxPathSize := (resolvePath_eq_ok_iff.1 hclient).1
  have hrequest : opMkdirRequest ≤ opMkdirRequest ∧ opMkdirRequest ≤ opGetResult := by decide
  have hresponse : opMkdirRequest ≤ opMkdirResponse ∧ opMkdirResponse ≤ opGetResult := by decide
  have hserver : Prog.Ends (ServerStep pair.capacity fs)
      (serveMessage pair.server pair.chunk pair.turns (pathRequest opMkdirRequest requestId path))
      ⟨s, [], []⟩ none
      ⟨x.2, [], [(Message.plain opMkdirResponse (wireStatus x.1) requestId).packet
        pair.capacity]⟩ := by
    rw [serveMessage_mkdir hpath]
    exact (served_mkdir_ends).bind
      (Prog.ends_perform (serverStep_send (fits_plain hresponse) (Nat.zero_le _) pair.fits))
  clear_value x
  obtain ⟨result, u⟩ := x
  have hreceive : Prog.Ends (ClientStep pair.capacity) (receiveResponse opMkdirResponse requestId)
      ⟨u, [], [(Message.plain opMkdirResponse (wireStatus result) requestId).packet
        pair.capacity]⟩ _ ⟨u, [], []⟩ :=
    receiveResponse_ends pair.fits (fits_plain hresponse) (Nat.zero_le _)
  unfold mkdir simplePathRequest validateVirtualPath
  rw [if_neg pair.remote, pair.ready, hclient]
  refine ⟨_, answers_request (fits_pathRequest hrequest hpath) (length_pathRequest _ hpath)
    pair.fits rfl hserver (hreceive.bind Prog.ends_pure), ?_⟩
  refine Iff.trans ?_ (wireStatus_errno_eq_none_iff result)
  show errorOf (match wireStatusToErrno (wireStatus result) with
    | some e => .error e
    | none => .ok _) = none ↔ _
  rcases wireStatusToErrno (wireStatus result) with _ | e <;> simp [errorOf]

/-! ### When they agree -/

/-- The store that does what it is asked, as a machine. -/
def diskMachine : Machine (Fs × List Message) where
  call := disk
  named _ _ _ _ h := by cases h

/-- **When a remote operation agrees.**  One that the server refuses without a path, and the client
without asking, agrees with that of the node unless there is a path that the node accepts and one
of the two does not. -/
theorem agrees_iff {α : Type} {remote node : Program α} {succeeds : α → Prop}
    {nodeAccepts clientAccepts : Prop} (refusal : Errno → α) (hrefusal : ¬ succeeds (refusal .EINVAL))
    (hnode : ¬ nodeAccepts → ∃ r, ¬ succeeds r ∧ node = pure r)
    (hclient : ¬ clientAccepts → ∃ r, ¬ succeeds r ∧ remote = pure r)
    (hask : clientAccepts → ∀ (σ : Type) (fs : Machine σ) (s : σ),
      let x := ((served refusal path node).exec fs.call s).2
      ∃ r, Answers pair.capacity fs remote (serveConnection pair.server pair.chunk pair.turns) s r
        x.2 ∧ (succeeds r ↔ succeeds x.1) ∧ (succeeds r → r = x.1))
    (hfound : nodeAccepts → ∃ s, succeeds (node.exec disk s).2.1) :
    Agrees pair remote node succeeds ↔ (nodeAccepts → path.bytes ≠ [] ∧ clientAccepts) := by
  constructor
  · intro hagrees haccepts
    obtain ⟨s, hs⟩ := hfound haccepts
    obtain ⟨r, u, hr, hsame, -⟩ := hagrees _ diskMachine s
    have hr' : succeeds r := hsame.2 hs
    have hclientAccepts : clientAccepts := by
      by_contra hnot
      obtain ⟨r', hr'', rfl⟩ := hclient hnot
      obtain ⟨rfl, -⟩ := hr.unique (answers_ret _ _ _ r' s)
      exact hr'' hr'
    refine ⟨fun hempty => ?_, hclientAccepts⟩
    obtain ⟨r', hanswers, hsucceeds, -⟩ := hask hclientAccepts _ diskMachine s
    obtain ⟨rfl, -⟩ := hr.unique hanswers
    rw [served, if_pos hempty] at hsucceeds
    exact hrefusal (hsucceeds.1 hr')
  · intro h σ fs s
    by_cases hclientAccepts : clientAccepts
    · obtain ⟨r, hanswers, hsucceeds, heq⟩ := hask hclientAccepts σ fs s
      by_cases hempty : path.bytes = []
      · obtain ⟨y, hy, rfl⟩ := hnode fun haccepts => (h haccepts).1 hempty
        rw [served, if_pos hempty] at hsucceeds
        have hr : ¬ succeeds r := fun hr => hrefusal (hsucceeds.1 hr)
        exact ⟨r, _, hanswers, iff_of_false hr hy, fun hr' => absurd hr' hr⟩
      · rw [served, if_neg hempty] at hanswers hsucceeds heq
        exact ⟨r, _, hanswers, hsucceeds, fun hr => Prod.ext (heq hr) rfl⟩
    · obtain ⟨r, hr, rfl⟩ := hclient hclientAccepts
      obtain ⟨y, hy, rfl⟩ := hnode fun haccepts => hclientAccepts (h haccepts).2
      exact ⟨r, s, answers_ret _ _ _ r s, iff_of_false hr hy, fun hr' => absurd hr' hr⟩

theorem validatePath_eq_none_iff {cfg : Config} {path : CString} {allowRoot : Bool} :
    validatePath cfg path allowRoot = none ↔
      ∃ resolved, resolvePath cfg path allowRoot fullPathSize = .ok resolved := by
  unfold validatePath
  rcases resolvePath cfg path allowRoot fullPathSize with e | resolved <;> simp

/-- What a client refuses that does not accept a path. -/
theorem exists_refusal {cfg : Config} {path : CString} {allowRoot : Bool}
    (h : validatePath cfg path allowRoot ≠ none) :
    ∃ e, resolvePath cfg path allowRoot fullPathSize = .error e := by
  unfold validatePath at h
  rcases hresolved : resolvePath cfg path allowRoot fullPathSize with e | resolved
  · exact ⟨e, rfl⟩
  · rw [hresolved] at h
    exact absurd rfl h

theorem agrees_stat_iff (pair : Pair) (path : CString) (requestId : UInt32) :
    Agrees pair (stat pair.client pair.st pair.node path requestId) (localStat pair.server path)
      (errorOf · = none) ↔ (validatePath pair.server path true = none →
        path.bytes ≠ [] ∧ validatePath pair.client path true = none) := by
  refine agrees_iff .error (by simp [errorOf]) ?_ ?_ ?_ ?_
  · intro h
    obtain ⟨e, he⟩ := exists_refusal h
    refine ⟨.error e, by simp [errorOf], ?_⟩
    rw [localStat, he]
  · intro h
    obtain ⟨e, he⟩ := exists_refusal h
    refine ⟨.error e, by simp [errorOf], ?_⟩
    rw [stat, if_neg pair.remote, remoteStat, simplePathRequest, pair.ready, validateVirtualPath, he]
    rfl
  · intro h σ fs s
    obtain ⟨resolved, hresolved⟩ := validatePath_eq_none_iff.1 h
    exact answers_stat hresolved
  · intro h
    obtain ⟨resolved, hresolved⟩ := validatePath_eq_none_iff.1 h
    refine ⟨(Fs.empty.mkdir resolved, []), ?_⟩
    have hnames : (Fs.empty.mkdir resolved).names resolved = some .directory :=
      Function.update_self ..
    have hstat : disk (.fsStat resolved) (Fs.empty.mkdir resolved, []) =
        (.ok .DIR, (Fs.empty.mkdir resolved, [])) := by
      simp only [disk, hnames, Node.type]
    have hfound : ((localStat pair.server path).exec disk (Fs.empty.mkdir resolved, [])).2 =
        (.ok ⟨.DIR, 0, 0⟩, (Fs.empty.mkdir resolved, [])) := by
      rw [localStat, hresolved, ← Prog.ends_iff_exec]
      exact Prog.Ends.call hstat.symm Prog.ends_pure
    rw [hfound]
    rfl

theorem agrees_list_iff (f : γ → ListEntry → γ) (context : γ) (pair : Pair) (path : CString)
    (requestId : UInt32) :
    Agrees pair (list pair.client pair.clientTurns pair.st pair.node path requestId (keeping f)
        context) (localList pair.server pair.turns path (keeping f) context) (·.1 = none) ↔
      (validatePath pair.server path true = none →
        path.bytes ≠ [] ∧ validatePath pair.client path true = none) := by
  refine agrees_iff (fun e => (some e, context)) (by simp) ?_ ?_ ?_ ?_
  · intro h
    obtain ⟨e, he⟩ := exists_refusal h
    refine ⟨(some e, context), by simp, ?_⟩
    rw [localList, he]
  · intro h
    obtain ⟨e, he⟩ := exists_refusal h
    refine ⟨(some e, context), by simp, ?_⟩
    rw [list, if_neg pair.remote, remoteList, pair.ready, validateVirtualPath, he]
  · intro h σ fs s
    obtain ⟨resolved, hresolved⟩ := validatePath_eq_none_iff.1 h
    exact answers_list f context hresolved
  · intro h
    obtain ⟨resolved, hresolved⟩ := validatePath_eq_none_iff.1 h
    refine ⟨(Fs.empty, []), ?_⟩
    have hloop : ((localListLoop (keeping f) pair.turns ⟨resolved, 0⟩ context).exec disk
        (Fs.empty, [])).2 = ((none, true, context), (Fs.empty, [])) := by
      cases pair.turns <;> rfl
    obtain ⟨kept, u, hends⟩ : ∃ kept u, Prog.Ends (LocalStep diskMachine)
        (localList pair.server pair.turns path (keeping f) context) (Fs.empty, []) (none, kept)
          u := by
      rw [localList, hresolved]
      by_cases hroot : resolved = rootPath
      · let x := ((listRoots (keeping f) (extraRoots pair.server) context).exec disk
          (Fs.empty, [])).2
        refine ⟨x.1.2, x.2,
          Prog.Ends.call rfl ((Prog.ends_iff_exec.2 hloop).bind (Prog.Ends.call rfl ?_))⟩
        rw [Prog.bind, if_neg (not_not.2 rfl), if_pos ⟨rfl, rfl, hroot⟩]
        exact Prog.Ends.bind (Prog.ends_iff_exec.2 (rfl : _ = x)) Prog.ends_pure
      · refine ⟨context, (Fs.empty, []),
          Prog.Ends.call rfl ((Prog.ends_iff_exec.2 hloop).bind (Prog.Ends.call rfl ?_))⟩
        rw [Prog.bind, if_neg (not_not.2 rfl), if_neg fun h => hroot h.2.2]
        exact Prog.ends_pure
    have hexec : ((localList pair.server pair.turns path (keeping f) context).exec disk
        (Fs.empty, [])).2 = ((none, kept), u) := Prog.ends_iff_exec.1 hends
    rw [hexec]

theorem agrees_mkdir_iff (pair : Pair) (path : CString) (requestId : UInt32) :
    Agrees pair (mkdir pair.client pair.st pair.node path requestId) (localMkdir pair.server path)
      (· = none) ↔ ((∃ resolved, resolveWritePath pair.server path fullPathSize = .ok resolved) →
        path.bytes ≠ [] ∧ validatePath pair.client path false = none) := by
  refine agrees_iff some (by simp) ?_ ?_ ?_ ?_
  · intro h
    rcases hresolved : resolveWritePath pair.server path fullPathSize with e | resolved
    · refine ⟨some e, by simp, ?_⟩
      rw [localMkdir, hresolved]
    · exact absurd ⟨resolved, hresolved⟩ h
  · intro h
    obtain ⟨e, he⟩ := exists_refusal h
    refine ⟨some e, by simp, ?_⟩
    rw [mkdir, if_neg pair.remote, simplePathRequest, pair.ready, validateVirtualPath, he]
    rfl
  · intro h σ fs s
    obtain ⟨resolved, hresolved⟩ := validatePath_eq_none_iff.1 h
    obtain ⟨r, hanswers, hsame⟩ : ∃ r, Answers pair.capacity fs
        (mkdir pair.client pair.st pair.node path requestId) _ s r _ ∧ _ := answers_mkdir hresolved
    exact ⟨r, hanswers, hsame, fun hr => hr.trans (hsame.1 hr).symm⟩
  · rintro ⟨resolved, hresolved⟩
    refine ⟨(Fs.empty, []), ?_⟩
    rw [localMkdir, hresolved]
    rfl

end

/-- **Local and remote operations agree** exactly where the path is not empty and the client's
build accepts it if the server's does; for a new directory the empty path makes no difference. -/
theorem remote_agrees_iff (pair : Pair) (path : CString) (requestId : UInt32) :
    (Agrees pair (stat pair.client pair.st pair.node path requestId) (localStat pair.server path)
      (errorOf · = none) ↔ path.bytes ≠ [] ∧ pair.Knows path true) ∧
    ((∀ (γ : Type) (f : γ → ListEntry → γ) (context : γ),
      Agrees pair (list pair.client pair.clientTurns pair.st pair.node path requestId (keeping f)
        context) (localList pair.server pair.turns path (keeping f) context) (·.1 = none)) ↔
          path.bytes ≠ [] ∧ pair.Knows path true) ∧
    (Agrees pair (mkdir pair.client pair.st pair.node path requestId) (localMkdir pair.server path)
      (· = none) ↔ (pathIsReadOnly pair.server path = false → pair.Knows path false)) := by
  have hroot : (validatePath pair.server path true = none →
      path.bytes ≠ [] ∧ validatePath pair.client path true = none) ↔
        path.bytes ≠ [] ∧ pair.Knows path true := by
    constructor
    · intro h
      refine ⟨fun hempty => ?_, fun haccepts => (h haccepts).2⟩
      exact (h (validatePath_eq_none_iff.2 ⟨_, resolvePath_empty _ hempty⟩)).1 hempty
    · exact fun h haccepts => ⟨h.1, h.2 haccepts⟩
  refine ⟨(agrees_stat_iff pair path requestId).trans hroot, ?_,
    (agrees_mkdir_iff pair path requestId).trans ?_⟩
  · constructor
    · exact fun h => hroot.1 ((agrees_list_iff (fun u _ => u) () pair path requestId).1 (h _ _ _))
    · exact fun h γ f context => (agrees_list_iff f context pair path requestId).2 (hroot.2 h)
  · constructor
    · intro h hwritable haccepts
      obtain ⟨resolved, hresolved⟩ := validatePath_eq_none_iff.1 haccepts
      exact (h ⟨resolved, by rw [resolveWritePath, hwritable]; exact hresolved⟩).2
    · rintro h ⟨resolved, hresolved⟩
      unfold resolveWritePath at hresolved
      split_ifs at hresolved with hreadOnly
      refine ⟨fun hempty => ?_, h (Bool.not_eq_true _ ▸ hreadOnly)
        (validatePath_eq_none_iff.2 ⟨resolved, hresolved⟩)⟩
      obtain ⟨-, ⟨-, habs, -⟩ | ⟨hne, -⟩⟩ := resolvePath_eq_ok_iff.1 hresolved
      · cases habs
      · exact hne (by rw [select_empty _ hempty])

/-- Two nodes of one build, with a packet of 256 bytes. -/
def plainPair : Pair where
  client := plainBuild
  server := plainBuild
  st := station
  node := 2
  capacity := 256
  chunk := 192
  turns := 8
  clientTurns := 16
  remote := by decide
  ready := by decide
  fits := by decide
  patient := by decide

/-- The node finds its root behind the path that is empty, and its server refuses to look. -/
theorem empty_path_refused : ¬ ∀ (pair : Pair) (path : CString) (requestId : UInt32),
    Agrees pair (stat pair.client pair.st pair.node path requestId) (localStat pair.server path)
      (errorOf · = none) := by
  intro h
  have hempty := (agrees_stat_iff plainPair CString.empty 1).1 (h _ _ _)
    (validatePath_eq_none_iff.2 ⟨_, resolvePath_empty _ rfl⟩)
  exact hempty.1 rfl

end KfswServices.Ftp
