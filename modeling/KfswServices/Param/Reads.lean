/-
# Values that were asked for

What `get_many` of `src/parameter/parameter_csp.c` gives for a list of names.  `decode_reply`
stages a value for every parameter of the batch that has its identifier, `store_remote_value` puts
it behind the descriptor, and `read_scalar` reads it back from there
(`readScalar_storeRemoteValue`), all of them through the pointers of the window.

So the values are what the node has reported for the names exactly if the pointers were still to
these names when the values were asked for (`reads_right_iff`), in every cache that earlier calls
can have left (`Left`).  They may not be (`stale_pointer_read`).
-/

import KfswServices.Param.Pointers

namespace KfswServices.Param

open Library

namespace Client

variable {ρ κ : Type} {cl : Client ρ κ} {node : UInt16} {c d : Cache} {kept : Bool}

/-! ### What is staged and stored -/

/-- A value that `decode_value` has made for a parameter. -/
def Decoded (cl : Client ρ κ) (param : Descriptor) (value : Value) : Prop :=
  ∃ r r', cl.mpack.decodeValue cl.cfg param r = (.ok value, r')

/-- What is staged is what has been reported, read for its parameter. -/
def Staged (cl : Client ρ κ) (reports : Reports) (params : List Descriptor)
    (staged : List (Option Value)) : Prop :=
  List.Forall₂ (fun param slot => ∀ value, slot = some value →
    ((param.id.toNat : ℤ), value) ∈ reports ∧ cl.Decoded param value) params staged

/-- Parameters with one identifier are one parameter. -/
def Agree (params : List Descriptor) : Prop :=
  ∀ p ∈ params, ∀ q ∈ params, p.id = q.id → p = q

variable {params : List Descriptor} {staged : List (Option Value)}

theorem Staged.mono {reports reports' : Reports} (h : cl.Staged reports params staged)
    (hsub : reports ⊆ reports') : cl.Staged reports' params staged :=
  List.Forall₂.imp (fun _ _ hslot value hvalue =>
    ⟨hsub (hslot value hvalue).1, (hslot value hvalue).2⟩) h

/-- A value is staged for its parameters, and nothing else changes. -/
theorem stageValue_forall₂ {R : Descriptor → Option Value → Prop} {id : ℤ} {value : Value}
    {staged' : List (Option Value)} (hstaged : List.Forall₂ R params staged)
    (hnew : ∀ param ∈ params, (param.id.toNat : ℤ) = id → R param (some value))
    (h : stageValue id value params staged = some staged') : List.Forall₂ R params staged' := by
  induction hstaged generalizing staged' with
  | nil =>
    obtain rfl := Option.some.inj h
    exact .nil
  | @cons param slot params staged hslot hrest ih =>
    obtain ⟨hparam, hparams⟩ := List.forall_mem_cons.1 hnew
    unfold stageValue at h
    split_ifs at h with hid hother
    · obtain ⟨rest, hrest', rfl⟩ := Option.map_eq_some_iff.1 h
      exact .cons (hparam hid) (ih hparams hrest')
    · obtain ⟨rest, hrest', rfl⟩ := Option.map_eq_some_iff.1 h
      exact .cons hslot (ih hparams hrest')

/-- An item of a reply is for one of the parameters, and is read as its value. -/
theorem replyItem_decoded {q q' : κ} {r r' : ρ} {id : ℤ} {value : Value}
    (h : cl.replyItem node params q r = some (id, value, q', r')) :
    ∃ param ∈ params, (param.id.toNat : ℤ) = id ∧ cl.Decoded param value := by
  unfold replyItem at h
  by_cases hheader : (!cl.replyHeaderAccepted r) = true
  · rw [if_pos hheader] at h
    cases h
  rw [if_neg hheader] at h
  rcases hid : cl.mpack.deserializeId q r with ⟨item, q₁, r₁⟩
  rw [hid] at h
  dsimp only at h
  split_ifs at h
  cases hfind : params.find? fun param => (param.id.toNat : ℤ) = item.id with
  | none =>
    rw [hfind] at h
    cases h
  | some param =>
    rw [hfind] at h
    dsimp only at h
    rcases hvalue : cl.mpack.decodeValue cl.cfg param r₁ with ⟨_ | v, r₂⟩
    · rw [hvalue] at h
      cases h
    · rw [hvalue] at h
      cases h
      have hparam := List.find?_some hfind
      exact ⟨param, List.mem_of_find?_eq_some hfind, of_decide_eq_true hparam, r₁, _, hvalue⟩

/-- **A packet is staged** as it is reported. -/
theorem replyItems_staged {staged' : List (Option Value)} {reports reports' : Reports} {q : κ}
    {r : ρ} (hagree : Agree params) (hstaged : cl.Staged reports params staged)
    (h : cl.replyItems node params staged reports q r = some (staged', reports')) :
    reports ⊆ reports' ∧ cl.Staged reports' params staged' := by
  induction hn : cl.mpack.remaining r using Nat.strong_induction_on
    generalizing staged reports q r with
  | _ n ih =>
    rw [replyItems] at h
    by_cases hr : 0 < cl.mpack.remaining r
    swap
    · rw [dif_neg hr] at h
      split_ifs at h
      cases h
      exact ⟨List.Subset.refl _, hstaged⟩
    rw [dif_pos hr] at h
    split at h
    · cases h
    · rename_i id value q' r' hitem
      cases hstage : stageValue id value params staged with
      | none =>
        rw [hstage] at h
        cases h
      | some staged₁ =>
        rw [hstage] at h
        dsimp only at h
        obtain ⟨param, hmem, hid, hdecoded⟩ := replyItem_decoded hitem
        have hsub : reports ⊆ (id, value) :: reports := List.subset_cons_self _ _
        have hnew : ∀ p ∈ params, (p.id.toNat : ℤ) = id → ∀ v, some value = some v →
            ((p.id.toNat : ℤ), v) ∈ (id, value) :: reports ∧ cl.Decoded p v := by
          rintro p hp hpid _ ⟨⟩
          have hsame : p.id = param.id := UInt16.toNat_inj.1 (by omega)
          rw [hagree p hp param hmem hsame, hid]
          exact ⟨List.mem_cons_self, hdecoded⟩
        obtain ⟨hrest, hfinal⟩ := ih _ (hn ▸ replyItem_lt hr hitem)
          (stageValue_forall₂ (hstaged.mono hsub) hnew hstage) h rfl
        exact ⟨List.Subset.trans hsub hrest, hfinal⟩

theorem gives_pullReplies {reports : Reports} (hagree : Agree params) (packets : ℕ)
    (hstaged : cl.Staged reports params staged) :
    Gives (cl.pullReplies node params packets staged reports) fun r =>
      ∀ final, r.1 = .ok final → reports ⊆ r.2 ∧ cl.Staged r.2 params final := by
  induction packets generalizing staged reports with
  | zero => exact (fun _ h => by cases h)
  | succ packets ih =>
    unfold pullReplies
    refine gives_perform fun time => ?_
    cases time with
    | false => exact (fun _ h => by cases h)
    | true =>
      refine gives_perform fun packet => ?_
      cases packet with
      | none => exact (fun _ h => by cases h)
      | some packet =>
        dsimp only
        by_cases hheader : packet.length < 2 ∨ cl.kind (packet.getD 0 0) ≠ .pullResponseV2 ∨
            packet.getD 1 0 &&& ~~~cl.flagEnd ≠ 0
        · rw [if_pos hheader]
          exact (fun _ h => by cases h)
        rw [if_neg hheader]
        cases hreply : cl.decodeReply node params packet staged reports with
        | none => exact (fun _ h => by cases h)
        | some next =>
          obtain ⟨hsub, hnext⟩ := replyItems_staged hagree hstaged hreply
          dsimp only
          split_ifs with hend
          · rintro _ ⟨⟩
            exact ⟨hsub, hnext⟩
          · refine (ih hnext).post fun r hr final hfinal => ?_
            obtain ⟨hrest, hdone⟩ := hr final hfinal
            exact ⟨List.Subset.trans hsub hrest, hdone⟩

end Client

/-- A cache with the same descriptors in the same slots. -/
structure Cache.Same (c d : Cache) : Prop where
  node : d.node = c.node
  count : d.count = c.count
  param : ∀ slot, (d.pool slot).param = (c.pool slot).param

namespace Cache.Same

variable {c d e : Cache}

theorem refl (c : Cache) : c.Same c := ⟨rfl, rfl, fun _ => rfl⟩

theorem trans (h : c.Same d) (h' : d.Same e) : c.Same e :=
  ⟨h'.node.trans h.node, h'.count.trans h.count, fun slot => (h'.param slot).trans (h.param slot)⟩

theorem params (h : c.Same d) : d.params = c.params := by
  unfold Cache.params
  rw [h.count]
  exact List.map_congr_left fun slot _ => h.param slot

theorem unique (h : c.Same d) (hc : c.Unique) : d.Unique := by
  unfold Cache.Unique
  rw [h.params]
  exact hc

theorem slotParams (h : c.Same d) (slots : List ℕ) :
    Client.slotParams d slots = Client.slotParams c slots :=
  List.map_congr_left fun slot _ => h.param slot

theorem store (c : Cache) (slot : ℕ) (cells : Cells) : c.Same (c.store slot cells) := by
  refine ⟨rfl, rfl, fun i => ?_⟩
  unfold Cache.store
  dsimp only
  by_cases hne : i = slot
  · rw [hne, Function.update_self]
  · rw [Function.update_of_ne hne]

theorem storeBatch (slots : List ℕ) (staged : List (Option Value)) (c : Cache) :
    c.Same (Client.storeBatch slots staged c) := by
  induction slots generalizing staged c with
  | nil => exact refl c
  | cons slot slots ih =>
    match staged with
    | [] => exact refl c
    | none :: _ => exact refl c
    | some value :: staged => exact (store c slot _).trans (ih staged _)

end Cache.Same

namespace Client

variable {ρ κ : Type} {cl : Client ρ κ} {node : UInt16} {c d : Cache} {kept : Bool}
  {reports reports' : Reports} {slots : List ℕ}

/-- A slot has the bytes of a value that has been reported for its parameter. -/
def Fresh (cl : Client ρ κ) (reports : Reports) (c : Cache) (slot : ℕ) : Prop :=
  ∃ value cells, (((c.pool slot).param.id.toNat : ℤ), value) ∈ reports ∧
    cl.Decoded (c.pool slot).param value ∧
      (c.pool slot).cells = storeRemoteValue (c.pool slot).param value cells

theorem Fresh.mono {slot : ℕ} (h : cl.Fresh reports c slot) (hsub : reports ⊆ reports') :
    cl.Fresh reports' c slot := by
  obtain ⟨value, cells, hmem, hrest⟩ := h
  exact ⟨value, cells, hsub hmem, hrest⟩

/-- **A batch is stored** in its slots, and leaves the others as they are. -/
theorem storeBatch_fresh {staged : List (Option Value)}
    (hstaged : cl.Staged reports (slotParams c slots) staged)
    (hall : ∀ value ∈ staged, value.isSome = true) {slot : ℕ}
    (hslot : slot ∈ slots ∨ cl.Fresh reports c slot) :
    cl.Fresh reports (storeBatch slots staged c) slot := by
  induction slots generalizing staged c with
  | nil => exact hslot.resolve_left List.not_mem_nil
  | cons first slots ih =>
    obtain ⟨value, staged, hvalue, hrest, rfl⟩ := List.forall₂_cons_left_iff.1 hstaged
    obtain ⟨hsome, hothers⟩ := List.forall_mem_cons.1 hall
    obtain ⟨value, rfl⟩ := Option.isSome_iff_exists.1 hsome
    obtain ⟨hmem, hdecoded⟩ := hvalue value rfl
    unfold storeBatch
    have hsame := Cache.Same.store c first
      (storeRemoteValue (c.pool first).param value (c.pool first).cells)
    refine ih (by rw [hsame.slotParams]; exact hrest) hothers ?_
    by_cases heq : slot = first
    · subst heq
      refine Or.inr ⟨value, (c.pool slot).cells, ?_, ?_, ?_⟩
      · rwa [hsame.param]
      · rwa [hsame.param]
      · rw [hsame.param]
        unfold Cache.store
        dsimp only
        rw [Function.update_self]
    · rcases hslot with hslot | hfresh
      · exact Or.inl ((List.mem_cons.1 hslot).resolve_left heq)
      · refine Or.inr ?_
        unfold Fresh Cache.store
        dsimp only
        rw [Function.update_of_ne heq]
        exact hfresh

/-- **A batch** puts what has been reported into its slots. -/
theorem gives_pullRemoteBatch : Gives (cl.pullRemoteBatch node slots c reports) fun r =>
      c.Same r.2.1 ∧ (Agree (slotParams c slots) → ∀ consumed, r.1 = .ok consumed →
        reports ⊆ r.2.2 ∧ ∀ slot, slot ∈ slots.take consumed.1 ∨ cl.Fresh reports c slot →
          cl.Fresh r.2.2 r.2.1 slot) := by
  have hstop : ∀ (e : Errno) (reports' : Reports), Gives (pure (.error e, c, reports') :
      Program (Except Errno { consumed : ℕ // 0 < consumed } × Cache × Reports)) fun r =>
        c.Same r.2.1 ∧ (Agree (slotParams c slots) → ∀ consumed, r.1 = .ok consumed →
          reports ⊆ r.2.2 ∧ ∀ slot, slot ∈ slots.take consumed.1 ∨ cl.Fresh reports c slot →
            cl.Fresh r.2.2 r.2.1 slot) :=
    fun e reports' => ⟨Cache.Same.refl c, fun _ _ h => by cases h⟩
  unfold pullRemoteBatch
  refine gives_perform fun buffer => ?_
  cases buffer with
  | false => exact hstop _ _
  | true =>
    simp only [Bool.not_true, Bool.false_eq_true, if_false]
    by_cases hcount : 0 < cl.added (slotParams c slots)
    swap
    · rw [dif_neg hcount]
      exact hstop _ _
    rw [dif_pos hcount]
    refine gives_perform fun time => ?_
    cases time with
    | false => exact hstop _ _
    | true =>
      refine gives_perform fun connected => ?_
      cases connected with
      | false => exact hstop _ _
      | true =>
        refine gives_perform fun _ => ?_
        set batch := slots.take (cl.added (slotParams c slots)) with hbatch
        have hstart : cl.Staged reports (slotParams c batch) (batch.map fun _ => none) := by
          unfold Staged slotParams
          rw [List.forall₂_map_left_iff, List.forall₂_map_right_iff, List.forall₂_same]
          exact fun _ _ _ h => by cases h
        have hreplies : Gives (cl.pullReplies node (slotParams c batch) replyMaxPackets
            (batch.map fun _ => none) reports) fun r => Agree (slotParams c slots) →
              ∀ final, r.1 = .ok final →
                reports ⊆ r.2 ∧ cl.Staged r.2 (slotParams c batch) final := by
          by_cases hagree : Agree (slotParams c slots)
          · have hpart : Agree (slotParams c batch) := by
              have hsub : slotParams c batch ⊆ slotParams c slots :=
                List.map_subset _ (List.take_subset _ _)
              exact fun p hp q hq => hagree p (hsub hp) q (hsub hq)
            exact (gives_pullReplies hpart _ hstart).post fun r hr _ => hr
          · exact (gives_any _).post fun r _ h => absurd h hagree
        refine hreplies.bind ?_
        rintro ⟨e | final, reports'⟩ hfinal
        · exact hstop _ _
        dsimp only
        by_cases hmissing : final.any Option.isNone = true
        · rw [if_pos hmissing]
          exact hstop _ _
        rw [if_neg hmissing]
        refine gives_perform fun locked => ?_
        cases locked with
        | false => exact hstop _ _
        | true =>
          refine ⟨Cache.Same.storeBatch batch final c, ?_⟩
          rintro hagree _ ⟨⟩
          obtain ⟨hsub, hstaged⟩ := hfinal hagree final rfl
          have hall : ∀ value ∈ final, value.isSome = true := by
            rw [List.any_eq_true] at hmissing
            intro value hvalue
            cases value with
            | none => exact absurd ⟨none, hvalue, rfl⟩ hmissing
            | some value => rfl
          refine ⟨hsub, fun slot hslot => storeBatch_fresh hstaged hall ?_⟩
          exact hslot.imp_right fun hfresh => hfresh.mono hsub

/-- **The batches of a window** put what has been reported into all of its slots. -/
theorem gives_pullWindow : Gives (cl.pullWindow node slots c reports) fun r =>
      c.Same r.2.1 ∧ (Agree (slotParams c slots) → r.1 = none →
        reports ⊆ r.2.2 ∧ ∀ slot, slot ∈ slots ∨ cl.Fresh reports c slot →
          cl.Fresh r.2.2 r.2.1 slot) := by
  induction hn : slots.length using Nat.strong_induction_on
    generalizing slots c reports with
  | _ n ih =>
    rw [pullWindow]
    by_cases hempty : slots = []
    · rw [dif_pos hempty]
      refine ⟨Cache.Same.refl c, fun _ _ => ⟨List.Subset.refl _, fun slot hslot => ?_⟩⟩
      exact hslot.resolve_left (hempty ▸ List.not_mem_nil)
    rw [dif_neg hempty]
    refine gives_pullRemoteBatch.bind ?_
    rintro ⟨e | consumed, d, reports'⟩ ⟨hsame, hbatch⟩
    · exact ⟨hsame, (fun _ h => by cases h)⟩
    have hlt : (slots.drop consumed.1).length < n := by
      have hpos := List.length_pos_of_ne_nil hempty
      have hconsumed := consumed.2
      rw [List.length_drop]
      omega
    refine (@ih _ hlt d reports' (slots.drop consumed.1) rfl).post ?_
    rintro ⟨result, e, reports''⟩ ⟨hsame', hrest⟩
    refine ⟨hsame.trans hsame', fun hagree hresult => ?_⟩
    obtain ⟨hsub, hfirst⟩ := hbatch hagree consumed rfl
    have hagree' : Agree (slotParams d (slots.drop consumed.1)) := by
      rw [hsame.slotParams]
      have hmem : slotParams c (slots.drop consumed.1) ⊆ slotParams c slots :=
        List.map_subset _ (List.drop_subset _ _)
      exact fun p hp q hq => hagree p (hmem hp) q (hmem hq)
    obtain ⟨hsub', hfinal⟩ := hrest hagree' hresult
    refine ⟨List.Subset.trans hsub hsub', fun slot hslot => hfinal slot ?_⟩
    rcases hslot with hslot | hfresh
    · rw [← List.take_append_drop consumed.1 slots, List.mem_append] at hslot
      rcases hslot with htake | hdrop
      · exact Or.inr (hfirst slot (Or.inl htake))
      · exact Or.inl hdrop
    · exact Or.inr (hfirst slot (Or.inr hfresh))

end Client

/-! ### What has been stored is read -/

/-- A string in a storage that has room for it, with its terminator or just without it. -/
theorem load_text_of_le {text : CString} {n : ℕ} (h : text.length ≤ n) (cells : Cells) :
    CString.scan (load n (poke (text.bytes ++ [0]) cells)) = text := by
  rcases Nat.eq_or_lt_of_le h with rfl | hlt
  · have hlen : (text.bytes ++ [0]).length = text.length + 1 := List.length_append
    have hload : load text.length (poke (text.bytes ++ [0]) cells) = text.bytes := by
      have hall := load_poke hlen cells
      unfold load at hall ⊢
      rw [List.range_succ, List.map_append] at hall
      exact (List.append_inj' hall rfl).1
    rw [hload, CString.scan_bytes]
  · exact load_text hlt cells

namespace Client

variable {ρ κ : Type} {cl : Client ρ κ} {node : UInt16} {c d : Cache} {param : Descriptor}
  {value read : Value} {cells : Cells}

/-- **A value that was stored is read back.** -/
theorem readScalar_storeRemoteValue (h : cl.Decoded param value)
    (hread : readScalar cl.cfg ⟨param, storeRemoteValue param value cells⟩ = .ok read) :
    read = value := by
  obtain ⟨r, r', h⟩ := h
  obtain ⟨-, -, hswitch⟩ := Mpack.decodeValue_switch h
  unfold readScalar at hread
  dsimp only at hread
  by_cases hdata : param.type = .DATA
  · rw [hdata] at hswitch
    obtain ⟨bytes, hlen, rfl⟩ := Mpack.decodeData_ok hswitch
    rw [if_pos hdata] at hread
    split_ifs at hread
    obtain rfl := Except.ok.inj hread
    have hstored : storeRemoteValue param { Value.blank cl.cfg .DATA param.arraySize with
        bytes := bytes ++ List.replicate (cl.cfg.stringMax - param.arraySize) 0 } cells =
          poke bytes cells := by
      show poke ((bytes ++ _).take param.arraySize) cells = _
      rw [List.take_left' hlen]
    rw [hstored, load_poke hlen]
  rw [if_neg hdata] at hread
  by_cases htext : param.type = .STRING
  · rw [htext] at hswitch
    obtain ⟨text, hlen, rfl⟩ := Mpack.decodeText_ok hswitch
    rw [if_pos htext] at hread
    split_ifs at hread
    obtain rfl := Except.ok.inj hread
    have hstored : storeRemoteValue param { Value.blank cl.cfg .STRING (text.length + 1) with
        text := text } cells = poke (text.bytes ++ [0]) cells := by
      show poke ((text.bytes ++ [0]).take (text.length + 1)) cells = _
      rw [List.take_of_length_le (by rw [List.length_append]; exact le_rfl)]
    rw [hstored, load_text_of_le (by omega)]
  rw [if_neg htext] at hread
  split_ifs at hread with hnumber
  obtain ⟨hsize, -⟩ := not_or.1 hnumber
  obtain rfl := Except.ok.inj hread
  obtain ⟨scalar, hlt, rfl⟩ := Mpack.decodeValue_number hsize h
  have hstored : storeRemoteValue param { Value.blank cl.cfg param.type (scalarSize param.type) with
      scalar := scalar } cells = poke (putLe (scalarSize param.type) scalar.toNat) cells := by
    show (if param.type = ParamType.STRING then _ else if param.type = ParamType.DATA then _
      else poke (putLe (scalarSize param.type) scalar.toNat) : Cells → Cells) cells = _
    rw [if_neg htext, if_neg hdata]
  rw [hstored, load_poke (length_putLe _ _), getLe_putLe, Nat.mod_eq_of_lt hlt, UInt64.ofNat_toNat]

end Client

/-! ### What a read is to give -/

/-- A value that was asked for with the cached descriptor of its name, and is what the node has
reported for it. -/
structure Read.Right (node : UInt16) (reports : Reports) (name : Option CString) (read : Read) :
    Prop where
  node : read.cache.node = node
  cached : read.param ∈ read.cache.params
  named : name = some read.param.name
  reported : ((read.param.id.toNat : ℤ), read.value) ∈ reports
  holds : read.param.Holds read.value

theorem Read.Right.mono {node : UInt16} {reports reports' : Reports} {name : Option CString}
    {read : Read} (h : read.Right node reports name) (hsub : reports ⊆ reports') :
    read.Right node reports' name :=
  ⟨h.node, h.cached, h.named, hsub h.reported, h.holds⟩

/-- Cached descriptors with one identifier are one descriptor. -/
theorem Cache.Unique.agree {c : Cache} (h : c.Unique) {params : List Descriptor}
    (hsub : ∀ param ∈ params, param ∈ c.params) : Client.Agree params :=
  fun p hp q hq heq => List.inj_on_of_nodup_map h (hsub p hp) (hsub q hq) heq

namespace Client

variable {ρ κ : Type} {cl : Client ρ κ} {node : UInt16} {c d asked : Cache} {kept : Bool}
  {reports reports' : Reports}

theorem readSlots_forall₂ {slots : List ℕ} {values : List Value}
    (h : cl.readSlots c slots = (values, none)) :
    List.Forall₂ (fun slot value => readScalar cl.cfg (c.pool slot) = .ok value) slots values := by
  induction slots generalizing values with
  | nil =>
    cases h
    exact .nil
  | cons slot slots ih =>
    unfold readSlots at h
    cases hread : readScalar cl.cfg (c.pool slot) with
    | error e =>
      rw [hread] at h
      cases h
    | ok value =>
      rw [hread] at h
      dsimp only at h
      obtain ⟨rfl, hnone⟩ := Prod.mk.inj h
      exact .cons hread (ih (Prod.ext rfl hnone))

/-- A slot with what has been reported is read so. -/
theorem right_of_fresh {name : CString} {slot : ℕ} {value : Value} (hnode : asked.node = node)
    (hcarries : asked.Carries name slot) (hsame : asked.Same c) (hfresh : cl.Fresh reports c slot)
    (hread : readScalar cl.cfg (c.pool slot) = .ok value) :
    Read.Right node reports (some name) ⟨asked, (asked.pool slot).param, value⟩ := by
  obtain ⟨stored, cells, hmem, hdecoded, hcells⟩ := hfresh
  rw [hsame.param] at hmem hdecoded hcells
  have hpool : c.pool slot =
      ⟨(asked.pool slot).param, storeRemoteValue (asked.pool slot).param stored cells⟩ := by
    rw [← hcells, ← hsame.param]
  rw [hpool] at hread
  obtain rfl := readScalar_storeRemoteValue hdecoded hread
  obtain ⟨r, r', hvalue⟩ := hdecoded
  exact ⟨hnode, hcarries.1, by rw [hcarries.2], hmem, (Mpack.decodeValue_ok hvalue).1⟩

/-- The reads of a window: right where the pointers carry the names, and only there. -/
theorem reads_of_found {found : List (CString × ℕ)} {values : List Value} (hsame : asked.Same c)
    (hvalues : List.Forall₂ (fun p value => readScalar cl.cfg (c.pool p.2) = .ok value) found
      values) : ((∀ p ∈ found, asked.node = node ∧ asked.Carries p.1 p.2 ∧ cl.Fresh reports c p.2) →
      List.Forall₂ (Read.Right node reports) (found.map (some ·.1))
        ((slotParams asked (found.map (·.2))).zipWith (Read.mk asked) values)) ∧
    (List.Forall₂ (Read.Right node reports) (found.map (some ·.1))
        ((slotParams asked (found.map (·.2))).zipWith (Read.mk asked) values) →
      ∀ p ∈ found, asked.Carries p.1 p.2) := by
  induction hvalues with
  | nil => exact ⟨fun _ => .nil, fun _ p hp => absurd hp List.not_mem_nil⟩
  | @cons p value found values hread hrest ih =>
    constructor
    · intro hall
      obtain ⟨⟨hnode, hcarries, hfresh⟩, hothers⟩ := List.forall_mem_cons.1 hall
      exact .cons (right_of_fresh hnode hcarries hsame hfresh hread) (ih.1 hothers)
    · intro hright
      obtain ⟨hfirst, hothers⟩ := List.forall₂_cons.1 hright
      refine List.forall_mem_cons.2 ⟨⟨hfirst.cached, ?_⟩, ih.2 hothers⟩
      exact (Option.some.inj hfirst.named).symm

/-- What is to hold of a window, or of several. -/
structure Told (node : UInt16) (names : List (Option CString)) (reports : Reports)
    (reads : List Read) (kept : Bool) (after : Reports) : Prop where
  right : kept = true →
    reports ⊆ after ∧ List.Forall₂ (Read.Right node after) names reads
  only : ∀ later : Reports, List.Forall₂ (Read.Right node later) names reads → kept = true
  length : reads.length = names.length

/-- **One turn of the loop of `get_many`.** -/
theorem gives_watchWindow (h : c.Unique) (names : List (Option CString)) :
    Gives (cl.watchWindow node names c reports) fun w =>
      w.cache.Unique ∧ (w.result = none → Told node names reports w.reads w.kept w.reports) := by
  unfold watchWindow
  refine (gives_watchNames (Pointers.nil h node) names).bind ?_
  rintro ⟨kept, result, asked⟩ ⟨hunique, hslots⟩
  cases result with
  | error e => exact ⟨hunique, (fun h => by cases h)⟩
  | ok slots =>
    obtain ⟨found, rfl, rfl, hpointers⟩ := hslots slots rfl
    rw [Bool.true_and, List.nil_append] at hpointers
    refine gives_pullWindow.bind ?_
    rintro ⟨_ | e, d, reports'⟩ ⟨hsame, hpulled⟩
    swap
    · exact ⟨hsame.unique hunique, (fun h => by cases h)⟩
    refine gives_perform fun locked => ?_
    cases locked with
    | false => exact ⟨hsame.unique hunique, (fun h => by cases h)⟩
    | true =>
      refine ⟨hsame.unique hunique, fun hresult => ?_⟩
      have hread : cl.readSlots d (found.map (·.2)) =
          ((cl.readSlots d (found.map (·.2))).1, none) := Prod.ext rfl hresult
      have hvalues := List.forall₂_map_left_iff.1 (readSlots_forall₂ hread)
      have hlength : found.length = (cl.readSlots d (found.map (·.2))).1.length :=
        hvalues.length_eq
      refine ⟨fun hkept => ?_, fun later hright => ?_, ?_⟩
      · have hcarries := hpointers.kept.1 hkept
        have hagree : Agree (slotParams asked (found.map (·.2))) := by
          refine hunique.agree fun param hparam => ?_
          obtain ⟨slot, hslot, rfl⟩ := List.mem_map.1 hparam
          obtain ⟨p, hp, rfl⟩ := List.mem_map.1 hslot
          exact (hcarries p hp).1
        obtain ⟨hsub, hfresh⟩ := hpulled hagree rfl
        refine ⟨hsub, (reads_of_found hsame hvalues).1 fun p hp => ?_⟩
        exact ⟨hpointers.node (List.ne_nil_of_mem hp), hcarries p hp,
          hfresh p.2 (Or.inl (List.mem_map_of_mem hp))⟩
      · exact hpointers.kept.2 ((reads_of_found hsame hvalues).2 hright)
      · show (List.zipWith _ _ _).length = _
        rw [List.length_zipWith, slotParams, List.length_map, List.length_map, List.length_map,
          ← hlength, Nat.min_self]

/-- One window after the other. -/
theorem Told.append {names names' : List (Option CString)} {reads reads' : List Read}
    {kept kept' : Bool} {reports'' : Reports} (h : Told node names reports reads kept reports')
    (h' : Told node names' reports' reads' kept' reports'') :
    Told node (names ++ names') reports (reads ++ reads') (kept && kept') reports'' := by
  refine ⟨fun hkept => ?_, fun later hright => ?_, ?_⟩
  · obtain ⟨hfirst, hsecond⟩ := Bool.and_eq_true_iff.1 hkept
    obtain ⟨hsub, hright⟩ := h.right hfirst
    obtain ⟨hsub', hright'⟩ := h'.right hsecond
    refine ⟨List.Subset.trans hsub hsub', List.rel_append ?_ hright'⟩
    exact hright.imp fun _ _ hread => hread.mono hsub'
  · have htake := List.forall₂_take names.length hright
    have hdrop := List.forall₂_drop names.length hright
    rw [List.take_left, ← h.length, List.take_left] at htake
    rw [List.drop_left, ← h.length, List.drop_left] at hdrop
    rw [h.only later htake, h'.only later hdrop]
    rfl
  · rw [List.length_append, List.length_append, h.length, h'.length]

theorem gives_watchWindows (h : c.Unique) (names before : List (Option CString))
    {reads : List Read} {start : Reports} (htold : Told node before start reads kept reports) :
    Gives (cl.watchWindows node names reads kept c reports) fun w => w.cache.Unique ∧
        (w.result = none → Told node (before ++ names) start w.reads w.kept w.reports) := by
  induction hn : names.length using Nat.strong_induction_on
    generalizing names before reads kept c reports with
  | _ n ih =>
    rw [watchWindows]
    by_cases hempty : names = []
    · rw [dif_pos hempty, hempty, List.append_nil]
      exact ⟨h, fun _ => htold⟩
    rw [dif_neg hempty]
    refine (gives_watchWindow h (names.take remoteBatchMax)).bind ?_
    rintro ⟨result, read, d, reports', keptHere⟩ ⟨hunique, hwindow⟩
    cases result with
    | some e => exact ⟨hunique, (fun h => by cases h)⟩
    | none =>
      have hpos := List.length_pos_of_ne_nil hempty
      have hlt : (names.drop remoteBatchMax).length < n := by
        rw [List.length_drop]
        exact hn ▸ Nat.sub_lt hpos (by decide)
      have hrest := ih _ hlt hunique (names.drop remoteBatchMax)
        (before ++ names.take remoteBatchMax) (htold.append (hwindow rfl)) rfl
      rw [List.append_assoc, List.take_append_drop] at hrest
      exact hrest

/-- **A read of several names.** -/
theorem gives_watchMany (h : c.Unique) (names : Option (List (Option CString))) (values : Bool) :
    Gives (cl.watchMany node names values c) fun w => w.cache.Unique ∧
        (w.result = none → Told node (names.getD []) [] w.reads w.kept w.reports) := by
  have hstop : ∀ e : Errno, Gives (pure ⟨some e, [], c, [], true⟩ : Program Watched) fun w =>
      w.cache.Unique ∧
        (w.result = none → Told node (names.getD []) [] w.reads w.kept w.reports) :=
    fun e => ⟨h, fun h => by cases h⟩
  unfold watchMany
  refine gives_perform fun time => ?_
  cases time with
  | false => exact hstop _
  | true =>
    refine gives_perform fun locked => ?_
    cases locked with
    | false => exact hstop _
    | true =>
      match names, values with
      | some names, true =>
        refine gives_watchWindows h names [] ⟨fun _ => ⟨List.Subset.refl _, .nil⟩, ?_, rfl⟩
        exact fun _ _ => rfl
      | some names, false => exact hstop _
      | none, _ => exact hstop _

/-! ### The caches that calls leave -/

/-- What earlier calls have left, whatever came back to them. -/
inductive Left (cl : Client ρ κ) : Cache → Prop
  | boot (pool : ℕ → Slot) : Left cl ⟨0, false, pool, 0, 0⟩
  | getMany {c : Cache} (h : Left cl c) (node : UInt16) (names : Option (List (Option CString)))
      (values : Bool) {σ : Type} (handle : (o : Call) → σ → Answer o × σ) (s : σ) :
      Left cl ((cl.remoteGetMany node names values c).exec handle s).2.1.2.2.1
  | set {c : Cache} (h : Left cl c) (node : UInt16) (name : Option CString) (value : Option Value)
      {σ : Type} (handle : (o : Call) → σ → Answer o × σ) (s : σ) :
      Left cl ((cl.remoteSet node name value c).exec handle s).2.1.2
  | refresh {c : Cache} (h : Left cl c) (node : UInt16) (table : UInt8) (force : Bool) {σ : Type}
      (handle : (o : Call) → σ → Answer o × σ) (s : σ) :
      Left cl ((cl.refreshTable node table force c).exec handle s).2.1.2

theorem gives_findRemote (h : c.Unique) (name : CString) :
    Gives (cl.findRemote node name c) fun r => r.2.Unique := by
  have hseen := @watchRemote_seen _ _ cl node c [] name
  refine (hseen.calls (gives_watchRemote (Pointers.nil h node) name)).post ?_
  rintro r ⟨x, rfl, hunique, -⟩
  exact hunique

theorem gives_remoteSet (h : c.Unique) (name : Option CString) (value : Option Value) :
    Gives (cl.remoteSet node name value c) fun r => r.2.Unique := by
  unfold remoteSet
  refine gives_perform fun locked => ?_
  cases locked with
  | false => exact h
  | true =>
    match name, value with
    | none, _ => exact h
    | some name, none => exact h
    | some name, some value =>
      refine (gives_findRemote h name).bind ?_
      rintro ⟨e | slot, d⟩ hunique
      · exact hunique
      refine gives_perform fun locked => ?_
      cases locked with
      | false => exact hunique
      | true =>
        simp only [Bool.not_true, Bool.false_eq_true, if_false]
        by_cases hreadOnly : (d.pool slot).param.mask &&& cl.transfer.readOnly ≠ 0
        · rw [if_pos hreadOnly]
          exact hunique
        rw [if_neg hreadOnly]
        cases validateScalar (d.pool slot).param value with
        | some e => exact hunique
        | none =>
          refine (gives_any _).bind ?_
          rintro (_ | e) _
          swap
          · exact hunique
          refine gives_perform fun locked => ?_
          cases locked with
          | true => exact (Cache.Same.store d slot _).unique hunique
          | false => exact hunique

/-- Nothing is cached twice. -/
theorem Left.unique (h : cl.Left c) : c.Unique := by
  induction h with
  | boot pool => exact List.nodup_nil
  | @getMany d _ node names values _ handle s ih =>
    have hseen := ((@watchMany_seen _ _ cl node d names values).exec handle s).2.1
    rw [hseen]
    exact ((gives_watchMany ih names values).result handle s).1
  | set _ node name value handle s ih => exact (gives_remoteSet ih name value).result handle s
  | refresh _ node table force handle s ih =>
    exact ((gives_refreshTable table force ih).result handle s).1

/-! ### What a read gives -/

/-- A watched read on a machine. -/
def watchedRun (cl : Client ρ κ) (node : UInt16) (names : Option (List (Option CString)))
    (values : Bool) (c : Cache) {σ : Type} (handle : (o : Call) → σ → Answer o × σ) (s : σ) :
    Watched := ((cl.watchMany node names values c).exec handle s).2.1

/-- **The values are those of the names** exactly if every list that is fetched on the way has put
descriptors of the names found before, in its window, where these were. -/
theorem reads_right_iff (h : cl.Left c) (node : UInt16) (names : Option (List (Option CString)))
    (values : Bool) {σ : Type} (handle : (o : Call) → σ → Answer o × σ) (s : σ) :
    (cl.watchedRun node names values c handle s).seen =
        ((cl.remoteGetMany node names values c).exec handle s).2.1 ∧
      ((cl.watchedRun node names values c handle s).result = none →
        ((cl.watchedRun node names values c handle s).kept = true ↔
          List.Forall₂ (Read.Right node (cl.watchedRun node names values c handle s).reports)
            (names.getD []) (cl.watchedRun node names values c handle s).reads)) := by
  have hseen := ((@watchMany_seen _ _ cl node c names values).exec handle s).2.1
  obtain ⟨-, htold⟩ := (@gives_watchMany _ _ cl node c h.unique names values).result handle s
  exact ⟨hseen.symm, fun hnone =>
    ⟨fun hkept => ((htold hnone).right hkept).2, (htold hnone).only _⟩⟩

/-! ### A name that is not found a second time -/

/-- A node whose answers to lookups are lost: it sends its list, and reports. -/
def serveList (params : List Descriptor) (report : List UInt8 → List UInt8)
    (request : List UInt8) : Option (List UInt8) :=
  if request.getD 0 0 = listLookupVersion then none
  else (ListServer.mk params (packedTransfer.listFingerprint 0 params 0)).serveRequest packedTransfer
    (fun request => some (report request)) request

/-- A node that answers the lookup of `a` and then comes back with a list of `b`; it reports 42 for
`a` and 43 for `b`. -/
def serveAB (request : List UInt8) : Option (List UInt8) :=
  if request = [listLookupVersion, 97] then
    (ListServer.mk [byteParam 0x100 "a"] 0).serveLookup packedTransfer request
  else serveList [byteParam 0x200 "b"]
    (fun request => [7, 0x80, 0x40 + request.getD 2 0, 0, 3, 41 + request.getD 2 0]) request

/-- A window of the one name, and the other name behind it. -/
def namesAB : List (Option CString) :=
  List.replicate 16 (some (.ofString "a")) ++ [some (.ofString "b")]

/-- A read of them. -/
def readAB : Watched :=
  smallClient.watchedRun 3 (some namesAB) true Cache.start (answering farLink serveAB) []

/-- The list that is fetched for `b` takes the slot of `a`, whose values have been read: each value
is that of its name. -/
theorem reads_right_iff_two :
    readAB.reads.map (·.value.scalar) = List.replicate 16 42 ++ [43] ∧ readAB.kept = true ∧
      List.Forall₂ (Read.Right 3 readAB.reports) namesAB readAB.reads := by
  have hkept : readAB.kept = true := by decide +kernel
  have hleft : smallClient.Left Cache.start := .boot _
  obtain ⟨-, hiff⟩ := reads_right_iff hleft 3 (some namesAB) true (answering farLink serveAB) []
  exact ⟨by decide +kernel, hkept, (hiff (by decide +kernel)).1 hkept⟩

/-- A node whose only parameter is `b`. -/
def nodeB : ListServer := ⟨[byteParam 0x200 "b"], 0⟩

/-- It answers lookups, and reports 7. -/
def serveB (request : List UInt8) : Option (List UInt8) :=
  nodeB.serveRequest packedTransfer (fun _ => some [7, 0x80, 0x42, 0, 3, 7]) request

/-- A node whose only parameter is `a` reports 42. -/
def serveA : List UInt8 → Option (List UInt8) :=
  serveList [byteParam 0x100 "a"] fun _ => [7, 0x80, 0x41, 0, 3, 42]

/-- The cache after `b` has been read. -/
def cachedB : Cache :=
  ((smallClient.remoteGetMany 3 (some [some (.ofString "b")]) true Cache.start).exec
    (answering farLink serveB) []).2.1.2.2.1

/-- The read of `b` and `a`, after node 3 has come back with other parameters. -/
def readBA : Watched :=
  smallClient.watchedRun 3 (some [some (.ofString "b"), some (.ofString "a")]) true
    cachedB (answering farLink serveA) []

/-- **A pointer into a pool that has been handed out again.**  The list that is fetched for `a` has
`a` where `b` was cached: the read succeeds, and what it gives for `b` is the value of `a`. -/
theorem stale_pointer_read :
    ¬ ∀ (c : Cache), smallClient.Left c → ∀ (node : UInt16) (names : List (Option CString))
      (σ : Type) (handle : (o : Call) → σ → Answer o × σ) (s : σ),
      (smallClient.watchedRun node (some names) true c handle s).result = none →
        List.Forall₂ (fun name read => ∃ param ∈ read.cache.params, name = some param.name ∧
            ((param.id.toNat : ℤ), read.value) ∈
              (smallClient.watchedRun node (some names) true c handle s).reports ∧
            param.Holds read.value)
          names (smallClient.watchedRun node (some names) true c handle s).reads := by
  intro h
  have hleft : smallClient.Left cachedB := (Left.boot _).getMany _ _ _ _ _
  have hresult : readBA.result = none := by decide +kernel
  have hall := h cachedB hleft 3 [some (.ofString "b"), some (.ofString "a")] _
    (answering farLink serveA) [] hresult
  have hnames : ∀ read ∈ readBA.reads, ∀ param ∈ read.cache.params,
      param.name = CString.ofString "a" := by
    decide +kernel
  obtain ⟨first, rest, hfirst, -, hreads⟩ := List.forall₂_cons_left_iff.1 hall
  obtain ⟨param, hparam, hname, -⟩ := hfirst
  have ha := hnames first (by rw [show readBA.reads = first :: rest from hreads]; simp) param hparam
  rw [ha] at hname
  exact absurd hname (by decide)

end Client

end KfswServices.Param
