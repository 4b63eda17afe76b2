/-
# A housekeeping request

`kfsw_hk_serve_request` of `src/hk/hk_csp.c`: one frame for each sample, from an age on, of one
report or of those a class mask selects.  Every iteration of its loop takes the lock anew and asks
for the next age, so collections land between any two of them.

An age counts from the newest sample.  A collection of the report makes every sample one older, and
the next age names the sample that was just sent: `serve_in_order_iff`.  The log server takes its
window once and reads by sequence.
-/

import KfswServices.Hk.Selection

namespace KfswServices.Hk

open Library Relation

variable {b : Build}

/-! ### The request -/

/-- `KFSW_HK_REPORT_ALL`. -/
abbrev reportAll : UInt8 := 0xff

/-- `KFSW_HK_CLASS_MASK_ALL`. -/
abbrev classMaskAll : UInt8 := 0xff

/-- `KFSW_HK_REQUEST_SIZE`. -/
abbrev requestSize : ℕ := 5

/-- What a request asks for. -/
structure Request where
  report : UInt8
  wanted : UInt8
  firstAge : UInt16
  classMask : UInt8
  deriving DecidableEq

/-- The fields of a request, if its length and its version are right. -/
def readRequest (data : List UInt8) : Option Request :=
  if data.length < requestSize then none
  else if data.getD 0 0 ≠ protocolVersion then none
  else if data.getD 1 0 = reportAll then
    if data.length ≠ requestSize + 1 then none
    else some ⟨data.getD 1 0, data.getD 2 0, getBe16 (data.drop 3), data.getD 5 0⟩
  else some ⟨data.getD 1 0, data.getD 2 0, getBe16 (data.drop 3), classMaskAll⟩

/-- How deep a request may reach: the samples held, as `kfsw_hk_depth` says, or as many as the build
holds. -/
def Request.depth (q : Request) (s : State b) : Option ℕ :=
  if q.report = reportAll then some (b.reports * b.history)
  else if q.report.toNat ≥ b.reports then none
  else some (s.reports q.report).held

/-- The sample of an iteration. -/
def Request.fetch (q : Request) (age : ℕ) (s : State b) : Except Errno Sample :=
  if q.report = reportAll then getSelected q.classMask age s else get q.report age s

/-- The loop: iteration `k` finds the state `look k`, and a buffer if `buffer k`. -/
def serveFrom (q : Request) (depth : ℕ) (look : ℕ → State b) (buffer : ℕ → Bool) :
    ℕ → ℕ → List Sample
  | 0, _ => []
  | turns + 1, offset =>
    if q.firstAge.toNat + offset < depth then
      match q.fetch (q.firstAge.toNat + offset) (look offset) with
      | .error _ => []
      | .ok sample =>
        if buffer offset then sample :: serveFrom q depth look buffer turns (offset + 1) else []
    else []

/-- `kfsw_hk_serve_request`, of a request that comes in the state `s`: the samples it sends. -/
def serveRequest (data : List UInt8) (s : State b) (look : ℕ → State b) (buffer : ℕ → Bool) :
    List Sample :=
  if !s.isReady then []
  else
    match readRequest data with
    | none => []
    | some q =>
      match q.depth s with
      | none => []
      | some depth => serveFrom q depth look buffer q.wanted.toNat 0

/-- The packet of a sample. -/
def Sample.frame (sample : Sample) : List UInt8 := sample.data.take sample.length

variable {q : Request} {depth : ℕ}

theorem serveFrom_get {look : ℕ → State b} {buffer : ℕ → Bool} {turns offset k : ℕ} {x : Sample}
    (h : (serveFrom q depth look buffer turns offset)[k]? = some x) :
    k < turns ∧ q.firstAge.toNat + (offset + k) < depth ∧
      q.fetch (q.firstAge.toNat + (offset + k)) (look (offset + k)) = .ok x := by
  induction turns generalizing offset k with
  | zero => simp [serveFrom] at h
  | succ turns ih =>
    unfold serveFrom at h
    by_cases hdepth : q.firstAge.toNat + offset < depth
    swap
    · rw [if_neg hdepth] at h
      simp at h
    rw [if_pos hdepth] at h
    cases hfetch : q.fetch (q.firstAge.toNat + offset) (look offset) with
    | error e => simp [hfetch] at h
    | ok sample =>
      simp only [hfetch] at h
      by_cases hbuffer : buffer offset = true
      swap
      · rw [if_neg hbuffer] at h
        simp at h
      rw [if_pos hbuffer] at h
      cases k with
      | zero =>
        obtain rfl := Option.some.inj h
        exact ⟨Nat.succ_pos _, hdepth, hfetch⟩
      | succ k =>
        obtain ⟨hk, hage, hx⟩ := ih h
        rw [Nat.add_assoc, Nat.add_comm 1 k] at hage hx
        exact ⟨by omega, hage, hx⟩

/-- Where every age below the depth is answered, every one that is wanted is sent. -/
theorem serveFrom_some {look : ℕ → State b} {turns offset k : ℕ}
    (hall : ∀ i, q.firstAge.toNat + i < depth →
      ∃ x, q.fetch (q.firstAge.toNat + i) (look i) = .ok x) (hk : k < turns)
    (hage : q.firstAge.toNat + (offset + k) < depth) :
    ∃ x, (serveFrom q depth look (fun _ => true) turns offset)[k]? = some x := by
  induction turns generalizing offset k with
  | zero => omega
  | succ turns ih =>
    obtain ⟨sample, hfetch⟩ := hall offset (by omega)
    unfold serveFrom
    rw [if_pos (by omega), hfetch]
    cases k with
    | zero => exact ⟨sample, rfl⟩
    | succ k => exact ih (by omega) (by rwa [Nat.add_assoc, Nat.add_comm 1 k])

/-! ### Collections in between -/

/-- A step of a collection: it begins, or it is committed. -/
inductive CollectStep : System b → System b → Prop
  | begin {u : System b} {report : UInt8} {c : Collecting b} (hpatient : u.changed < 2 ^ 64)
      (hfree : u.collecting = none) (h : collectBegin report u.state = .ok c) :
      CollectStep u ⟨u.state, some c, 0⟩
  | commit {u : System b} {c : Collecting b} (hpatient : u.changed < 2 ^ 64)
      (clock : Option UInt32) (reads : Reads) (h : u.collecting = some c) :
      CollectStep u ⟨(collectCommit c (collectReport c.definition c.sequence clock reads).1
        (collectReport c.definition c.sequence clock reads).2.failures u.state).2, none, 0⟩

variable {u u' : System b}

theorem CollectStep.patient (h : CollectStep u u') : PatientStep u u' := by
  cases h with
  | begin hpatient hfree h => exact ⟨hpatient, .begin hfree h⟩
  | commit hpatient clock reads h => exact ⟨hpatient, .commit clock reads h⟩

/-- **What a collection changes**: nothing, or one report gets a sample. -/
theorem CollectStep.effect (h : CollectStep u u') : u'.state.reports = u.state.reports ∨
      ∃ c x order, u.collecting = some c ∧ u'.state.reports =
        Function.update u.state.reports c.report ((u.state.reports c.report).push x order) := by
  cases h with
  | begin hpatient hfree h => exact .inl rfl
  | @commit c hpatient clock reads h =>
    unfold collectCommit
    dsimp only
    by_cases hstale : (u.state.reports c.report).definition.isNone = true ∨
        c.generation ≠ u.state.generations c.report
    · rw [if_pos hstale]
      exact .inl rfl
    · rw [if_neg hstale]
      exact .inr ⟨c, _, _, h, rfl⟩

/-- Every report keeps its definition and holds no less. -/
theorem CollectStep.keeps (h : CollectStep u u') (report : UInt8) :
    (u'.state.reports report).definition = (u.state.reports report).definition ∧
      (u.state.reports report).held ≤ (u'.state.reports report).held := by
  rcases h.effect with heq | ⟨c, x, order, -, heq⟩
  · rw [heq]
    exact ⟨rfl, le_rfl⟩
  · rw [heq]
    by_cases hr : report = c.report
    · subst hr
      rw [Function.update_self]
      refine ⟨rfl, ?_⟩
      show (u.state.reports c.report).held ≤ if _ then _ else _
      split_ifs
      · exact le_rfl
      · exact Nat.le_succ _
    · rw [Function.update_of_ne hr]
      exact ⟨rfl, le_rfl⟩

theorem held_le_of_collects (h : ReflTransGen CollectStep u u') (report : UInt8) :
    (u.state.reports report).held ≤ (u'.state.reports report).held := by
  induction h with
  | refl => exact le_rfl
  | tail _ hstep ih => exact ih.trans (hstep.keeps report).2

/-! ### Frames -/

/-- A frame says of which report and which number it is. -/
theorem CollectedOf.of_frame {r r' : UInt8} {d d' : Definition b} {n n' : UInt16} {x y : Sample}
    (hx : CollectedOf r d n x) (hy : CollectedOf r' d' n' y) (h : x.frame = y.frame) :
    r = r' ∧ n = n' := by
  obtain ⟨hxlen, -, -, hxframe⟩ := hx.frame
  obtain ⟨hylen, -, -, hyframe⟩ := hy.frame
  have hhead : ∀ z : Sample, headerSize ≤ z.length → z.frame.take headerSize =
      z.data.take headerSize := fun z hz => by
    rw [Sample.frame, List.take_take, Nat.min_eq_left hz]
  have heq := congrArg (·.take headerSize) h
  rw [hhead x (by rw [hxlen]; exact Nat.le_add_right _ _),
    hhead y (by rw [hylen]; exact Nat.le_add_right _ _), hxframe, hyframe] at heq
  obtain ⟨-, htail⟩ := List.cons.inj heq
  obtain ⟨hr, hrest⟩ := List.cons.inj htail
  refine ⟨hr, ?_⟩
  rw [← getBe16_putBe16 n, hrest, getBe16_putBe16]

/-- A sample that is read back has the number its age says. -/
theorem get_collected (hreach : ReflTransGen PatientStep (System.reset b) u) {report : UInt8}
    {age : ℕ} {x : Sample} (h : get report age u.state = .ok x) :
    age < b.history ∧ ∃ d : Definition b,
      CollectedOf report d ((u.state.reports report).sequence - 1 - UInt16.ofNat age) x := by
  have hreport : report.toNat < b.reports := by
    by_contra hout
    unfold get at h
    rw [if_pos (not_lt.1 hout)] at h
    cases h
  obtain ⟨hheld, hages⟩ := held_current hreach hreport
  have hage := (hages age).1.2 ⟨x, h⟩
  obtain ⟨d, -, hcollected, -⟩ := (hages age).2 x h
  exact ⟨by omega, d, hcollected⟩

theorem ofNat_ne_ofNat {i j : ℕ} (hij : i ≠ j) (hi : i < 2 ^ 16) (hj : j < 2 ^ 16) :
    UInt16.ofNat i ≠ UInt16.ofNat j := by
  intro h
  have hnat := congrArg UInt16.toNat h
  rw [UInt16.toNat_ofNat', UInt16.toNat_ofNat', Nat.mod_eq_of_lt hi, Nat.mod_eq_of_lt hj] at hnat
  exact hij hnat

/-- Two samples of one state have two frames. -/
theorem frame_ne (hreach : ReflTransGen PatientStep (System.reset b) u) {r r' : UInt8}
    {age age' : ℕ} {x y : Sample} (hx : get r age u.state = .ok x)
    (hy : get r' age' u.state = .ok y) (hne : (r, age) ≠ (r', age')) : x.frame ≠ y.frame := by
  obtain ⟨hage, d, hcx⟩ := get_collected hreach hx
  obtain ⟨hage', d', hcy⟩ := get_collected hreach hy
  intro hframe
  obtain ⟨rfl, hnumber⟩ := hcx.of_frame hcy hframe
  have hrange := b.history_range
  have hages : age ≠ age' := fun h => hne (by rw [h])
  refine ofNat_ne_ofNat hages (by omega) (by omega) ?_
  grind

theorem nodup_frames {sent : List Sample} (h : ∀ (i j : ℕ) (x y : Sample), i < j → sent[i]? = some x →
    sent[j]? = some y → x.frame ≠ y.frame) : (sent.map Sample.frame).Nodup := by
  refine List.Pairwise.map _ (fun _ _ h => h) (List.pairwise_iff_getElem.2 fun i j hi hj hij => ?_)
  exact h i j _ _ hij (List.getElem?_eq_getElem hi) (List.getElem?_eq_getElem hj)

/-! ### One report -/

/-- What is sent of one report: no frame twice, and each is the one before the one sent last. -/
structure InOrder (sent : List Sample) : Prop where
  distinct : (sent.map Sample.frame).Nodup
  descending : ∀ k x y, sent[k]? = some x → sent[k + 1]? = some y → y.sequence = x.sequence - 1

/-- Between the iterations that are answered the sequence of the report stays what it is: it is
collected no time, or a multiple of `2 ^ 16` times. -/
def Still (q : Request) (depth : ℕ) (look : ℕ → State b) : Prop :=
  ∀ k, k + 1 < q.wanted.toNat → q.firstAge.toNat + (k + 1) < depth →
    ((look (k + 1)).reports q.report).sequence = ((look k).reports q.report).sequence

theorem Still.eq_first {look : ℕ → State b} (h : Still q depth look) {k : ℕ}
    (hk : k < q.wanted.toNat) (hage : q.firstAge.toNat + k < depth) :
    ((look k).reports q.report).sequence = ((look 0).reports q.report).sequence := by
  induction k with
  | zero => rfl
  | succ k ih => rw [h k hk hage, ih (by omega) (by omega)]

variable {look : ℕ → System b}

/-- The states of the iterations are reached, and hold no less than the request found. -/
theorem look_reached {u₀ : System b} (hreach : ReflTransGen PatientStep (System.reset b) u₀)
    (hfirst : ReflTransGen CollectStep u₀ (look 0))
    (hlook : ∀ k, ReflTransGen CollectStep (look k) (look (k + 1))) (k : ℕ) :
    ReflTransGen CollectStep u₀ (look k) ∧ ReflTransGen PatientStep (System.reset b) (look k) := by
  have hcollects : ReflTransGen CollectStep u₀ (look k) := by
    induction k with
    | zero => exact hfirst
    | succ k ih => exact ih.trans (hlook k)
  exact ⟨hcollects, hreach.trans (ReflTransGen.mono (fun _ _ h => h.patient) _ _ hcollects)⟩

/-- **One report is served in order** exactly if it is not collected while it is served. -/
theorem serveFrom_inOrder_iff {u₀ : System b}
    (hreach : ReflTransGen PatientStep (System.reset b) u₀) (hone : q.report ≠ reportAll)
    (hdepth : q.depth u₀.state = some depth) (hfirst : ReflTransGen CollectStep u₀ (look 0))
    (hlook : ∀ k, ReflTransGen CollectStep (look k) (look (k + 1))) :
    InOrder (serveFrom q depth (fun k => (look k).state) (fun _ => true) q.wanted.toNat 0) ↔
      Still q depth fun k => (look k).state := by
  unfold Request.depth at hdepth
  rw [if_neg hone] at hdepth
  split_ifs at hdepth with hout
  obtain rfl := Option.some.inj hdepth
  have hfetch : ∀ age (s : State b), q.fetch age s = get q.report age s := fun age s => if_neg hone
  have hheld := (held_current hreach (not_le.1 hout)).1
  have hrange := b.history_range
  -- every age below the depth is answered, with the sample of that age
  have hall : ∀ i, q.firstAge.toNat + i < (u₀.state.reports q.report).held →
      ∃ x, q.fetch (q.firstAge.toNat + i) (look i).state = .ok x := by
    intro i hi
    obtain ⟨hcollects, hlooked⟩ := look_reached hreach hfirst hlook i
    rw [hfetch]
    exact ((held_current hlooked (not_le.1 hout)).2 _).1.1
      (hi.trans_le (held_le_of_collects hcollects q.report))
  have hsent : ∀ k x, (serveFrom q (u₀.state.reports q.report).held (fun k => (look k).state)
      (fun _ => true) q.wanted.toNat 0)[k]? = some x →
        k < q.wanted.toNat ∧ q.firstAge.toNat + k < (u₀.state.reports q.report).held ∧
          ∃ d : Definition b, CollectedOf q.report d (((look k).state.reports q.report).sequence - 1 -
            UInt16.ofNat (q.firstAge.toNat + k)) x := by
    intro k x hx
    obtain ⟨hk, hage, hget⟩ := serveFrom_get hx
    rw [Nat.zero_add, hfetch] at hget
    rw [Nat.zero_add] at hage
    exact ⟨hk, hage, (get_collected (look_reached hreach hfirst hlook k).2 hget).2⟩
  constructor
  · rintro ⟨-, hdescending⟩ k hk hage
    obtain ⟨x, hx⟩ := serveFrom_some hall (show k < q.wanted.toNat by omega)
      (show q.firstAge.toNat + (0 + k) < _ by omega)
    obtain ⟨y, hy⟩ := serveFrom_some hall hk (show q.firstAge.toNat + (0 + (k + 1)) < _ by omega)
    have hstep := hdescending k x y hx hy
    obtain ⟨-, -, d, hcx⟩ := hsent k x hx
    obtain ⟨-, -, d', hcy⟩ := hsent (k + 1) y hy
    rw [hcx.frame.2.2.1, hcy.frame.2.2.1, ← Nat.add_assoc, UInt16.ofNat_add] at hstep
    have hone' : UInt16.ofNat 1 = 1 := rfl
    rw [hone'] at hstep
    dsimp only
    grind
  · intro hstill
    refine ⟨nodup_frames fun i j x y hij hx hy hframe => ?_, fun k x y hx hy => ?_⟩
    · obtain ⟨hi, hagei, d, hcx⟩ := hsent i x hx
      obtain ⟨hj, hagej, d', hcy⟩ := hsent j y hy
      have hnumber := (hcx.of_frame hcy hframe).2
      rw [hstill.eq_first hi hagei, hstill.eq_first hj hagej] at hnumber
      refine ofNat_ne_ofNat (show q.firstAge.toNat + i ≠ q.firstAge.toNat + j by omega)
        (by omega) (by omega) ?_
      grind
    · obtain ⟨-, -, d, hcx⟩ := hsent k x hx
      obtain ⟨hk, hage, d', hcy⟩ := hsent (k + 1) y hy
      rw [hcx.frame.2.2.1, hcy.frame.2.2.1, hstill k hk hage, ← Nat.add_assoc, UInt16.ofNat_add]
      have hone' : UInt16.ofNat 1 = 1 := rfl
      rw [hone']
      grind

/-! ### All reports -/

/-- A collection that is committed moves no sample up to an index: its report is not selected, or
all the samples up to the index are of lower classes. -/
def SafeStep (mask : UInt8) (index : ℕ) (u u' : System b) : Prop :=
  CollectStep u u' ∧ ∀ c d, u.collecting = some c →
    (u.state.reports c.report).definition = some d →
      selects mask d.retrievalClass = false ∨
        index < heldBelow u.state mask d.retrievalClass classes

/-- **Such a collection leaves every sample up to the index in its place.** -/
theorem SafeStep.getSelected {mask : UInt8} {index : ℕ} (h : SafeStep mask index u u') {j : ℕ}
    (hj : j ≤ index) : getSelected mask j u'.state = getSelected mask j u.state := by
  obtain ⟨hstep, hsafe⟩ := h
  rcases hstep.effect with heq | ⟨c, x, order, hc, heq⟩
  · refine selectFrom_congr (fun cls r => ?_) classes j
    rw [heq]
    exact ⟨rfl, fun _ => rfl⟩
  · cases hd : (u.state.reports c.report).definition with
    | none =>
      refine selectFrom_congr (fun cls => sameIn_push heq ?_) classes j
      rw [Report.ofClass, hd]
      rfl
    | some d =>
      refine @getSelected_below _ d.retrievalClass _ _ _ (fun cls hcls => sameIn_push heq ?_) _
        ((hsafe c d hc hd).imp_right fun hlt => hj.trans_lt hlt)
      rw [Report.ofClass, hd]
      exact decide_eq_false (Ne.symm hcls)

/-- There are samples for iteration `k` and for those before it. -/
def FoundUpTo (q : Request) (look : ℕ → System b) (k : ℕ) : Prop :=
  ∀ j ≤ k, q.firstAge.toNat + j < selectable (look j).state q.classMask classes

/-- Between two iterations that are answered no collection moves a sample that was sent. -/
def Untouched (q : Request) (depth : ℕ) (look : ℕ → System b) : Prop :=
  ∀ k, k + 1 < q.wanted.toNat → q.firstAge.toNat + (k + 1) < depth → FoundUpTo q look (k + 1) →
    ReflTransGen (SafeStep q.classMask (q.firstAge.toNat + k)) (look k) (look (k + 1))

theorem getSelected_safe {mask : UInt8} {index : ℕ} (h : ReflTransGen (SafeStep mask index) u u')
    {j : ℕ} (hj : j ≤ index) : Hk.getSelected mask j u'.state = Hk.getSelected mask j u.state := by
  induction h with
  | refl => rfl
  | tail _ hstep ih => rw [hstep.getSelected hj, ih]

/-- What was found at an index is found there later on. -/
theorem Untouched.getSelected (h : Untouched q depth look) {j k : ℕ} (hjk : j ≤ k)
    (hk : k < q.wanted.toNat) (hage : q.firstAge.toNat + k < depth) (hfound : FoundUpTo q look k) :
    Hk.getSelected q.classMask (q.firstAge.toNat + j) (look k).state =
      Hk.getSelected q.classMask (q.firstAge.toNat + j) (look j).state := by
  induction k, hjk using Nat.le_induction with
  | base => rfl
  | succ k hjk ih =>
    rw [getSelected_safe (h k hk hage hfound) (by omega),
      ih (by omega) (by omega) fun i hi => hfound i (by omega)]

/-- **No sample is sent twice** if no collection moves one that was sent. -/
theorem serveFrom_distinct {u₀ : System b} (hreach : ReflTransGen PatientStep (System.reset b) u₀)
    (hall : q.report = reportAll) (hfirst : ReflTransGen CollectStep u₀ (look 0))
    (hlook : ∀ k, ReflTransGen CollectStep (look k) (look (k + 1)))
    (huntouched : Untouched q depth look) :
    ((serveFrom q depth (fun k => (look k).state) (fun _ => true) q.wanted.toNat 0).map
      Sample.frame).Nodup := by
  set sent := serveFrom q depth (fun k => (look k).state) (fun _ => true) q.wanted.toNat 0
  have hfetch : ∀ k x, sent[k]? = some x → k < q.wanted.toNat ∧ q.firstAge.toNat + k < depth ∧
      Hk.getSelected q.classMask (q.firstAge.toNat + k) (look k).state = .ok x := by
    intro k x hx
    obtain ⟨hk, hage, hget⟩ := serveFrom_get hx
    rw [Nat.zero_add] at hage hget
    exact ⟨hk, hage, (if_pos hall).symm.trans hget⟩
  refine nodup_frames fun i j x y hij hx hy => ?_
  obtain ⟨-, -, hgetx⟩ := hfetch i x hx
  obtain ⟨hj, hage, hgety⟩ := hfetch j y hy
  -- what is sent in an iteration was selected there
  have hfound : FoundUpTo q look j := fun k hk => by
    obtain ⟨hlt, -⟩ := List.getElem?_eq_some_iff.1 hy
    obtain ⟨-, -, hget⟩ := hfetch k _ (List.getElem?_eq_getElem (by omega))
    exact selectFrom_lt hget
  -- both samples are found in the state of the later iteration
  have hgetx' := (huntouched.getSelected hij.le hj hage hfound).trans hgetx
  obtain ⟨_, r, age, _, r', age', hplaced, hplaced', hne⟩ :=
    getSelected_apart (show q.firstAge.toNat + i < q.firstAge.toNat + j by omega) hgetx' hgety
  exact frame_ne (look_reached hreach hfirst hlook j).2 hplaced.get_eq hplaced'.get_eq hne

/-- **A request is served without repeats or holes** as long as no collection moves what it has sent.
For one report that is so exactly if the report is not collected between two iterations that are
answered; for all reports it is enough that every collection between two that are answered is of a
report that is not selected, or of a class behind what was sent. -/
theorem serve_in_order_iff {u₀ : System b}
    (hreach : ReflTransGen PatientStep (System.reset b) u₀) {data : List UInt8} {q : Request}
    {depth : ℕ} (hready : u₀.state.isReady = true) (hq : readRequest data = some q)
    (hdepth : q.depth u₀.state = some depth) {look : ℕ → System b}
    (hfirst : ReflTransGen CollectStep u₀ (look 0))
    (hlook : ∀ k, ReflTransGen CollectStep (look k) (look (k + 1))) : (q.report ≠ reportAll →
        (InOrder (serveRequest data u₀.state (fun k => (look k).state) fun _ => true) ↔
          Still q depth fun k => (look k).state)) ∧ (q.report = reportAll → Untouched q depth look →
        ((serveRequest data u₀.state (fun k => (look k).state) fun _ => true).map
          Sample.frame).Nodup) := by
  have hserve : serveRequest data u₀.state (fun k => (look k).state) (fun _ => true) =
      serveFrom q depth (fun k => (look k).state) (fun _ => true) q.wanted.toNat 0 := by
    unfold serveRequest
    simp only [hready, hq, hdepth]
    rfl
  rw [hserve]
  exact ⟨fun hone => serveFrom_inOrder_iff hreach hone hdepth hfirst hlook,
    fun hall huntouched => serveFrom_distinct hreach hall hfirst hlook huntouched⟩

/-! ### Two reports -/

/-- A collection, step by step. -/
theorem collectOnce_safe (report mask : UInt8) {index : ℕ} {u : System smallBuild}
    (hfree : u.collecting = none) (hpatient : u.changed < 2 ^ 64)
    (hsafe : ∀ d, (u.state.reports report).definition = some d →
      selects mask d.retrievalClass = false ∨
        index < heldBelow u.state mask d.retrievalClass classes) :
    ReflTransGen (SafeStep mask index) u (collectOnce report u) := by
  have hzero : (0 : ℕ) < 2 ^ 64 := by decide
  obtain hsame | ⟨c, hbegin, heq⟩ := collectOnce_cases report u
  · rw [hsame]
  · have hreport : c.report = report := by
      unfold collectBegin at hbegin
      split_ifs at hbegin
      cases hd : (u.state.reports report).definition with
      | none => simp [hd] at hbegin
      | some d =>
        simp only [hd, Except.ok.injEq] at hbegin
        rw [← hbegin]
    rw [heq]
    refine .tail (.single ⟨.begin hpatient hfree hbegin, fun c' d hc => ?_⟩)
      ⟨.commit hzero none byteReads rfl, fun c' d hc hd => ?_⟩
    · rw [hfree] at hc
      cases hc
    · obtain rfl := Option.some.inj hc
      rw [hreport] at hd
      exact hsafe d hd

/-- With the empty mask every collection is safe. -/
theorem collectOnce_collects (report : UInt8) {u : System smallBuild} (hfree : u.collecting = none)
    (hpatient : u.changed < 2 ^ 64) : ReflTransGen CollectStep u (collectOnce report u) :=
  ReflTransGen.mono (fun _ _ h => h.1) _ _
    (@collectOnce_safe report 0 0 u hfree hpatient fun d _ => .inl (by simp [selects]))

/-- Report 0 has been collected twice, and then a third time. -/
def twiceCollected : System smallBuild := (collectOnce 0)^[2] bothDefined

def thriceCollected : System smallBuild := collectOnce 0 twiceCollected

theorem twiceCollected_reach : ReflTransGen PatientStep (System.reset smallBuild) twiceCollected :=
  (byte_start.tail ⟨by decide, .define 1 lastDefinition 0⟩).trans
    (collectOnce_run 0 rfl (by decide) 2).1

/-- Report 1 is collected between the first two iterations. -/
def lastBetween (k : ℕ) : System smallBuild :=
  if k = 0 then twiceCollected else collectOnce 1 twiceCollected

theorem lastBetween_run (k : ℕ) : ReflTransGen CollectStep (lastBetween k) (lastBetween (k + 1)) := by
  cases k with
  | zero => exact collectOnce_collects 1 rfl (by decide)
  | succ k => exact .refl

/-- A request for two samples of report 0, and one for two of all reports, get both of report 0,
though report 1 is collected in between. -/
theorem serve_in_order_two :
    InOrder (serveRequest [1, 0, 2, 0, 0] twiceCollected.state (fun k => (lastBetween k).state)
      fun _ => true) ∧
    ((serveRequest [1, 255, 2, 0, 0, 255] twiceCollected.state (fun k => (lastBetween k).state)
      fun _ => true).map Sample.frame).Nodup := by
  constructor
  · refine ((@serve_in_order_iff smallBuild twiceCollected twiceCollected_reach [1, 0, 2, 0, 0]
      ⟨0, 2, 0, classMaskAll⟩ 2 rfl rfl rfl lastBetween .refl lastBetween_run).1
        (by decide)).2 fun k hk _ => ?_
    obtain rfl : k = 0 := by
      have : k + 1 < 2 := hk
      omega
    decide
  · refine (@serve_in_order_iff smallBuild twiceCollected twiceCollected_reach
      [1, 255, 2, 0, 0, 255] ⟨255, 2, 0, 255⟩ 4 rfl rfl rfl lastBetween .refl lastBetween_run).2
        rfl fun k hk _ _ => ?_
    obtain rfl : k = 0 := by
      have : k + 1 < 2 := hk
      omega
    refine collectOnce_safe 1 255 rfl (by decide) fun d hd => .inr ?_
    obtain rfl : lastDefinition = d := Option.some.inj hd
    decide

/-- What the request is answered with if report 0 is collected between the two iterations. -/
def sentAcross : List Sample :=
  serveRequest [1, 0, 2, 0, 0] twiceCollected.state
    (fun k => if k = 0 then twiceCollected.state else thriceCollected.state) fun _ => true

/-- The same frame is sent twice. -/
theorem collected_between_repeats :
    ReflTransGen PatientStep (System.reset smallBuild) twiceCollected ∧
      ReflTransGen CollectStep twiceCollected thriceCollected ∧ sentAcross.map Sample.frame =
        [[1, 0, 0, 1, 0, 0, 0, 0, 1, 2, 9], [1, 0, 0, 1, 0, 0, 0, 0, 1, 2, 9]] ∧
      ¬ InOrder sentAcross := by
  have hsent : sentAcross.map Sample.frame =
      [[1, 0, 0, 1, 0, 0, 0, 0, 1, 2, 9], [1, 0, 0, 1, 0, 0, 0, 0, 1, 2, 9]] := by
    decide +kernel
  refine ⟨twiceCollected_reach, collectOnce_collects 0 rfl (by decide), hsent, fun h => ?_⟩
  have hdistinct := h.distinct
  rw [hsent] at hdistinct
  exact absurd hdistinct (by decide)

end KfswServices.Hk
