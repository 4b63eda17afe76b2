/-
# A client and a server

A request over a link that loses nothing: what one end sends comes to the other, encoded and
decoded on the way, and in order.  Client and server take their calls in any order, and a receive
waits until something has come.  The client of a request has no part in the server's store, so
that every order leads to the same end (`Answers.of_ends`).
-/

import KfswServices.Ftp.Client

namespace KfswServices.Ftp

open Library

/-- A store whose calls do not fail spuriously: what a call comes back with is a matter of the
store, and so is the store after it.  An entry of a directory has a name. -/
structure Machine (σ : Type) where
  call : (o : Op) → σ → OpResult o × σ
  named : ∀ dir s entry dir', (call (.fsReaddir dir) s).1 = .ok (some entry, dir') →
    entry.name.bytes ≠ []

/-- The store of the server, and the packets on the way to either end. -/
structure Conversation (σ : Type) where
  store : σ
  toServer : List (List UInt8)
  toClient : List (List UInt8)

/-- `kfsw_ftp_link_send`, into the packets on the way; the `capacity` is `CSP_BUFFER_SIZE`. -/
def transmit (capacity : ℕ) (m : Message) (packets : List (List UInt8)) :
    Option Errno × List (List UInt8) :=
  match protocolEncode capacity m with
  | .error e => (some e, packets)
  | .ok packet => (none, packets ++ [packet])

/-- A call of the client.  A receive waits for a packet. -/
def clientCall {σ : Type} (capacity : ℕ) :
    (o : Op) → Conversation σ → Option (OpResult o × Conversation σ)
  | .linkConnect _, c => some (none, c)
  | .linkSend m, c =>
    some ((transmit capacity m c.toServer).1,
      { c with toServer := (transmit capacity m c.toServer).2 })
  | .linkReceive, ⟨store, toServer, packet :: toClient⟩ =>
    some (protocolDecode packet, ⟨store, toServer, toClient⟩)
  | _, _ => none

/-- A call of the server, to its end of the link or to its store. -/
def serverCall {σ : Type} (capacity : ℕ) (fs : Machine σ) :
    (o : Op) → Conversation σ → Option (OpResult o × Conversation σ)
  | .linkSend m, c =>
    some ((transmit capacity m c.toClient).1,
      { c with toClient := (transmit capacity m c.toClient).2 })
  | .linkReceive, ⟨_, [], _⟩ => none
  | .linkReceive, ⟨store, packet :: toServer, toClient⟩ =>
    some (protocolDecode packet, ⟨store, toServer, toClient⟩)
  | o, c => some ((fs.call o c.store).1, { c with store := (fs.call o c.store).2 })

abbrev ClientStep {σ : Type} (capacity : ℕ) (o : Op) (c : Conversation σ) (r : OpResult o)
    (d : Conversation σ) : Prop := clientCall capacity o c = some (r, d)

abbrev ServerStep {σ : Type} (capacity : ℕ) (fs : Machine σ) (o : Op) (c : Conversation σ)
    (r : OpResult o) (d : Conversation σ) : Prop := serverCall capacity fs o c = some (r, d)

/-- **What a request comes to**, in any order of the calls: the client returns `r`, and the store
of the server is `u`. -/
def Answers {α σ : Type} (capacity : ℕ) (fs : Machine σ) (client : Program α)
    (server : Program (Option Errno)) (s : σ) (r : α) (u : σ) : Prop :=
  ∃ q c, Concludes (Interleave (ClientStep capacity) (ServerStep capacity fs))
    ((client, server), ⟨s, [], []⟩) ((.ret r, q), c) ∧ c.store = u

section

variable {α σ : Type} {capacity : ℕ} {fs : Machine σ} {client : Program α}
  {server : Program (Option Errno)} {s u : σ} {r : α}

/-- A request comes to one end. -/
theorem Answers.unique {r' : α} {u' : σ} (h : Answers capacity fs client server s r u)
    (h' : Answers capacity fs client server s r' u') : r = r' ∧ u = u' := by
  obtain ⟨q, c, hc, rfl⟩ := h
  obtain ⟨q', c', hc', rfl⟩ := h'
  cases hc.unique hc'
  exact ⟨rfl, rfl⟩

/-! ### One order is as good as another -/

/-- A message that is sent goes behind what is on the way. -/
theorem transmit_cons (m : Message) (packet : List UInt8) (packets : List (List UInt8)) :
    transmit capacity m (packet :: packets) =
      ((transmit capacity m packets).1, packet :: (transmit capacity m packets).2) := by
  unfold transmit
  rcases protocolEncode capacity m with e | sent <;> rfl

/-- What the one takes off or puts on the link, it may take or put after the other as well. -/
theorem calls_commute {o o' : Op} {c d d' : Conversation σ} {r : OpResult o} {r' : OpResult o'}
    (h : ClientStep capacity o c r d) (h' : ServerStep capacity fs o' c r' d') :
    ∃ e, ServerStep capacity fs o' d r' e ∧ ClientStep capacity o d' r e := by
  obtain ⟨store, toServer, toClient⟩ := c
  cases o with
  | linkConnect node =>
    cases h
    exact ⟨d', h', rfl⟩
  | linkSend m =>
    cases h
    cases o' with
    | linkSend m' =>
      cases h'
      exact ⟨_, rfl, rfl⟩
    | linkReceive =>
      rcases toServer with _ | ⟨packet, toServer⟩
      · cases h'
      cases h'
      refine ⟨⟨store, (transmit capacity m toServer).2, toClient⟩, ?_, ?_⟩
      · simp only [transmit_cons]
        rfl
      · simp only [transmit_cons]
        rfl
    | _ =>
      cases h'
      exact ⟨_, rfl, rfl⟩
  | linkReceive =>
    rcases toClient with _ | ⟨packet, toClient⟩
    · cases h
    cases h
    cases o' with
    | linkSend m' =>
      cases h'
      refine ⟨⟨store, toServer, (transmit capacity m' toClient).2⟩, ?_, ?_⟩
      · simp only [transmit_cons]
        rfl
      · simp only [transmit_cons]
        rfl
    | linkReceive =>
      rcases toServer with _ | ⟨packet, toServer⟩
      · cases h'
      cases h'
      exact ⟨_, rfl, rfl⟩
    | _ =>
      cases h'
      exact ⟨_, rfl, rfl⟩
  | _ => cases h

/-- The end of one run is the end of every one. -/
theorem concludes_of_run {client' : Program α} {server' : Program (Option Errno)}
    {c d : Conversation σ} {es : List (Event OpResult (Conversation σ) ⊕
      Event OpResult (Conversation σ))}
    (hr : Run (Interleave (ClientStep capacity) (ServerStep capacity fs)) ((client, server), c) es
      ((client', server'), d))
    (hend : ∀ e d', ¬ Interleave (ClientStep capacity) (ServerStep capacity fs)
      ((client', server'), d) e d') :
    Concludes (Interleave (ClientStep capacity) (ServerStep capacity fs)) ((client, server), c)
      ((client', server'), d) := by
  refine hr.concludes hend (Interleave.diamond ?_ ?_ ?_)
  · intro o s r t r' t' h h'
    exact Prod.ext_iff.1 (Option.some.inj (h.symm.trans h'))
  · intro o s r t r' t' h h'
    exact Prod.ext_iff.1 (Option.some.inj (h.symm.trans h'))
  · intro o o' s r t r' t' h h'
    exact calls_commute h h'

/-! ### The order of a request -/

/-- A client that asks nothing leaves the server waiting. -/
theorem answers_ret (cfg : Config) (chunk turns : ℕ) (r : α) (s : σ) :
    Answers capacity fs (.ret r) (serveConnection cfg chunk turns) s r s := by
  refine ⟨_, _, concludes_of_run (.nil _) ?_, rfl⟩
  rintro e d' (h | h)
  cases h

/-- What a message becomes on the link. -/
def Message.packet (capacity : ℕ) (m : Message) : List UInt8 :=
  match protocolEncode capacity m with
  | .error _ => []
  | .ok packet => packet

theorem transmit_eq {m : Message} (h : m.Fits) (hsize : m.path.length + m.data.length ≤ chunkSize)
    (hcapacity : protocolHeaderSize + chunkSize ≤ capacity) (packets : List (List UInt8)) :
    transmit capacity m packets = (none, packets ++ [m.packet capacity]) ∧
      protocolDecode (m.packet capacity) = .ok m := by
  obtain ⟨packet, hencode, hdecode⟩ := protocolDecode_protocolEncode h
    (show protocolHeaderSize + m.path.length + m.data.length ≤ capacity by omega)
  rw [transmit, Message.packet, hencode]
  exact ⟨rfl, hdecode⟩

/-- **A request**: the client asks, the server answers to the end, and the client takes the
answer. -/
theorem answers_request {cfg : Config} {chunk turns : ℕ} {node : UInt16} {m : Message}
    {k k' : Option Errno → Program α} {x : Option Errno} {out : List (List UInt8)}
    (hm : m.Fits) (hsize : m.path.length + m.data.length ≤ chunkSize)
    (hcapacity : protocolHeaderSize + chunkSize ≤ capacity) (hk : k none = .call (.linkSend m) k')
    (hserver : Prog.Ends (ServerStep capacity fs) (serveMessage cfg chunk turns m) ⟨s, [], []⟩ x
      ⟨u, [], out⟩)
    (hclient : Prog.Ends (ClientStep capacity) (k' none) ⟨u, [], out⟩ r ⟨u, [], []⟩) :
    Answers capacity fs (.call (.linkConnect node) k) (serveConnection cfg chunk turns) s r u := by
  obtain ⟨hsend, hdecode⟩ := transmit_eq hm hsize hcapacity ([] : List (List UInt8))
  have hconnect : ClientStep capacity (.linkConnect node) ⟨s, [], []⟩ none ⟨s, [], []⟩ := rfl
  have hput : ClientStep capacity (.linkSend m) ⟨s, [], []⟩ none
      ⟨s, [m.packet capacity], []⟩ := by
    show some _ = _
    rw [hsend]
    rfl
  obtain ⟨es, hes⟩ : ∃ es, Run (Interleave (ClientStep capacity) (ServerStep capacity fs))
      ((.call (.linkConnect node) k, serveConnection cfg chunk turns), ⟨s, [], []⟩) es
      ((k' none, serveConnection cfg chunk turns), ⟨s, [m.packet capacity], []⟩) := by
    have hnext : ∃ e, Interleave (ClientStep capacity) (ServerStep capacity fs)
        ((k none, serveConnection cfg chunk turns), ⟨s, [], []⟩) e
        ((k' none, serveConnection cfg chunk turns), ⟨s, [m.packet capacity], []⟩) := by
      rw [hk]
      exact ⟨_, .left hput⟩
    obtain ⟨e, he⟩ := hnext
    exact ⟨_, (Run.single he).cons (.left hconnect)⟩
  have hanswer : Prog.Ends (ServerStep capacity fs) (serveConnection cfg chunk turns)
      ⟨s, [m.packet capacity], []⟩ x ⟨u, [], out⟩ := by
    refine Prog.Ends.call (r := .ok m) ?_ hserver
    show some _ = _
    rw [hdecode]
  obtain ⟨es', hes'⟩ := hanswer.right (k' none)
  obtain ⟨es'', hes''⟩ := hclient.left (.ret x)
  refine ⟨_, _, concludes_of_run ((hes.append hes').append hes'') ?_, rfl⟩
  rintro e d' (h | h)

end

end KfswServices.Ftp
