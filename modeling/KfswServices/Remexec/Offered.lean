/-
# What a request runs

Only offered, printable commands run remotely: the line that reaches the shell should be the whole
text of the request, printable, and an allowlist entry with or without arguments (`Admitted`).
`serve_sound_iff` says for which requests that is so in every state a run reaches.

The checks read a NUL-terminated copy of a counted text.  A NUL in the text ends the copy, so the
bytes behind it are neither checked nor run; the request is served as the shorter command in front
of it, although `KFSW_REMEXEC_INVALID` is what a byte that is not printable should be answered with.
-/

import KfswServices.Remexec.Serve

namespace KfswServices.Remexec

open Library

variable {b : Build}

/-- The copy of a text ends at its first NUL. -/
theorem textOf_bytes (text : List UInt8) : (textOf text).bytes = text.takeWhile (· ≠ 0) := by
  show (text ++ [0]).takeWhile (· ≠ 0) = text.takeWhile (· ≠ 0)
  induction text with
  | nil => rfl
  | cons c rest ih =>
    by_cases hc : c = 0
    · subst hc
      rfl
    · rw [List.cons_append, List.takeWhile_cons_of_pos (by simpa using hc),
        List.takeWhile_cons_of_pos (by simpa using hc), ih]

/-- The copy is the text exactly if there is no NUL in it. -/
theorem textOf_bytes_eq_iff {text : List UInt8} : (textOf text).bytes = text ↔ 0 ∉ text := by
  constructor
  · intro h
    rw [← h]
    exact (textOf text).noNul
  · intro h
    rw [textOf_bytes]
    exact List.takeWhile_eq_self_iff.2 fun c hc => by
      simpa using fun heq : c = 0 => h (heq ▸ hc)

/-- An entry of the service offers the line. -/
theorem offered_ne_none_iff {entries : List Marked} {line : CString} :
    offered entries line ≠ none ↔
      ∃ command ∈ entries.map (·.command), matchesOrExtends line command := by
  unfold offered
  rw [Option.ne_none_iff_isSome, List.find?_isSome]
  constructor
  · rintro ⟨entry, hentry, hmatch⟩
    exact ⟨_, List.mem_map_of_mem hentry, hmatch⟩
  · rintro ⟨command, hcommand, hmatch⟩
    obtain ⟨entry, hentry, rfl⟩ := List.mem_map.1 hcommand
    exact ⟨entry, hentry, hmatch⟩

/-- The checks of `kfsw_remexec_run_local` on a line, when the service offers these commands. -/
structure Runs (offers : List CString) (env : Env) (line : CString) : Prop where
  carried : line ≠ .empty
  short : line.length ≤ commandMax
  isPrintable : printable line
  isOffered : ∃ command ∈ offers, matchesOrExtends line command
  idle : env.busy = false

/-- What reaches the shell is the line, if it passes every check. -/
theorem runLocal_executed_iff {s : Service} {env : Env} {line l : CString}
    (hinit : s.initialized = true) : (runLocal b s env (some line)).executed = some l ↔
      l = line ∧ Runs (s.entries.map (·.command)) env line := by
  dsimp only [runLocal]
  rw [if_neg (by simp [hinit])]
  split_ifs with hempty hlong hprint hoffer hbusy
  · exact iff_of_false (fun h => by cases h) fun h => h.2.carried hempty
  · exact iff_of_false (fun h => by cases h) fun h => absurd h.2.short (not_le.2 hlong)
  · exact iff_of_false (fun h => by cases h) fun h => by simp [h.2.isPrintable] at hprint
  · exact iff_of_false (fun h => by cases h) fun h =>
      offered_ne_none_iff.2 h.2.isOffered hoffer
  · exact iff_of_false (fun h => by cases h) fun h => by simp [h.2.idle] at hbusy
  · constructor
    · intro h
      exact ⟨(Option.some.inj h).symm, hempty, not_lt.1 hlong, by simpa using hprint,
        offered_ne_none_iff.1 hoffer, by simpa using hbusy⟩
    · rintro ⟨rfl, -⟩
      rfl

/-- A line that is not run is refused. -/
theorem runLocal_answered (s : Service) (env : Env) (line : CString) :
    (runLocal b s env (some line)).executed.isSome ∨
      (runLocal b s env (some line)).isRefusal = true := by
  dsimp only [runLocal]
  split_ifs
  · exact .inr rfl
  · exact .inr rfl
  · exact .inr rfl
  · exact .inr rfl
  · exact .inr rfl
  · exact .inr rfl
  · exact .inl rfl

/-- A listing runs nothing. -/
theorem listLocal_executed (s : Service) (stem : Option CString) :
    (listLocal b s stem).executed = none := by
  dsimp only [listLocal]
  split_ifs
  · rfl
  · rfl
  · rfl
  · rfl

/-- A line that may run for a packet: the packet is a RUN request, its text is printable and is the
line, and the text is a command of the allowlist, or one with a space and whatever follows it. -/
def Admitted (allowlist : Option Allowlist) (packet : List UInt8) (line : CString) : Prop :=
  ∃ text, decodeRequest packet (commandMax + 1) = .ok (.RUN, text) ∧
    (∀ c ∈ text, 0x20 ≤ c ∧ c ≤ 0x7e) ∧ line.bytes = text ∧
    ∃ command ∈ commands allowlist,
      text = command.bytes ∨ ∃ more, text = command.bytes ++ 0x20 :: more

/-- A request is served as it should be: only an admitted line runs, what runs is counted in
`accepted` and what is refused in `refused`, and a RUN request is one or the other. -/
structure Sound (allowlist : Option Allowlist) (s : Service) (packet : List UInt8)
    (outcome : Outcome b) : Prop where
  admitted : ∀ line, outcome.executed = some line → Admitted allowlist packet line
  accepted : outcome.executed.isSome →
    outcome.service.stats.accepted = saturatingInc s.stats.accepted ∧
      outcome.service.stats.refused = s.stats.refused
  refused : outcome.isRefusal = true →
    outcome.service.stats.refused = saturatingInc s.stats.refused ∧
      outcome.service.stats.accepted = s.stats.accepted
  answered : (∃ text, decodeRequest packet (commandMax + 1) = .ok (.RUN, text)) →
    outcome.executed.isSome ∨ outcome.isRefusal = true

/-- The text of a RUN request holds a NUL, and what stands in front of it would run. -/
def Stray (allowlist : Option Allowlist) (env : Env) (packet : List UInt8) : Prop :=
  ∃ text, decodeRequest packet (commandMax + 1) = .ok (.RUN, text) ∧ 0 ∈ text ∧
    Runs (commands allowlist) env (textOf text)

/-- Every call leaves the counters a sound request leaves. -/
theorem Counted.sound {allowlist : Option Allowlist} {s : Service} {packet : List UInt8}
    {outcome : Outcome b} (h : Counted s outcome)
    (hadmitted : ∀ line, outcome.executed = some line → Admitted allowlist packet line)
    (hanswered : (∃ text, decodeRequest packet (commandMax + 1) = .ok (.RUN, text)) →
      outcome.executed.isSome ∨ outcome.isRefusal = true) : Sound allowlist s packet outcome := by
  refine ⟨hadmitted, fun hran => ⟨?_, ?_⟩, fun hrefused => ⟨?_, ?_⟩, hanswered⟩
  · rw [h.accepted, if_pos hran]
  · rw [h.refused, h.exclusive hran, if_neg Bool.false_ne_true]
  · rw [h.refused, if_pos hrefused]
  · rw [h.accepted, if_neg]
    intro hran
    rw [h.exclusive hran] at hrefused
    cases hrefused

/-- A line that runs and is the text of its request is admitted. -/
theorem Runs.admitted {allowlist : Option Allowlist} {env : Env} {packet text : List UInt8}
    (h : Runs (commands allowlist) env (textOf text))
    (hdec : decodeRequest packet (commandMax + 1) = .ok (.RUN, text)) (hnul : 0 ∉ text) :
    Admitted allowlist packet (textOf text) := by
  have hbytes := textOf_bytes_eq_iff.2 hnul
  refine ⟨text, hdec, fun c hc => ?_, hbytes, ?_⟩
  · have hall := List.all_eq_true.1 h.isPrintable c (by rwa [hbytes])
    simpa using hall
  · obtain ⟨command, hcommand, hmatch⟩ := h.isOffered
    have hext := matchesOrExtends_iff.1 hmatch
    rw [hbytes] at hext
    exact ⟨command, hcommand, hext⟩

/-- **When only offered, printable commands run.**  In every state a node reaches, a request is
served as it should be exactly if its text has no NUL behind a command that would run by itself. -/
theorem serve_sound_iff {fresh s₁ s : Service} {allowlist : Option Allowlist} {shell : ShellStart}
    {calls : List Call} (hinit : init b fresh allowlist shell = (none, s₁))
    (hrun : Run (Step b) s₁ calls s) (env : Env) (packet : List UInt8) :
    Sound allowlist s packet (serveRequest b s env packet) ↔ ¬ Stray allowlist env packet := by
  obtain ⟨hinit₁, hcommands⟩ := init_spec hinit
  obtain ⟨hinits, hentries⟩ := run_offers hrun hinit₁
  have hoffers : s.entries.map (·.command) = commands allowlist := by rw [hentries, hcommands]
  have hcounted := serveRequest_counted (b := b) s env packet
  unfold serveRequest at hcounted ⊢
  rcases hdec : decodeRequest packet (commandMax + 1) with e | ⟨_ | _, text⟩
  · -- What is not understood is dropped.
    simp only [hdec] at hcounted ⊢
    refine iff_of_true (hcounted.sound (fun line h => by cases h) ?_) ?_
    · rintro ⟨text, h⟩
      rw [hdec] at h
      cases h
    · rintro ⟨text, h, -⟩
      rw [hdec] at h
      cases h
  · simp only [hdec] at hcounted ⊢
    refine iff_of_true (hcounted.sound (fun line h => ?_) ?_) ?_
    · rw [listLocal_executed] at h
      cases h
    · rintro ⟨text', h⟩
      rw [hdec] at h
      cases h
    · rintro ⟨text', h, -⟩
      rw [hdec] at h
      cases h
  · simp only [hdec] at hcounted ⊢
    have hexec : ∀ l, (runLocal b s env (some (textOf text))).executed = some l ↔
        l = textOf text ∧ Runs (commands allowlist) env (textOf text) := fun l => by
      rw [runLocal_executed_iff hinits, hoffers]
    constructor
    · -- A text with a NUL in it is not the line that runs.
      rintro hsound ⟨text', h, hnul, hruns⟩
      obtain rfl : text = text' := by
        rw [hdec] at h
        exact (Prod.mk.inj (Except.ok.inj h)).2
      obtain ⟨text', h', -, hbytes, -⟩ := hsound.admitted _ ((hexec _).2 ⟨rfl, hruns⟩)
      obtain rfl : text = text' := by
        rw [hdec] at h'
        exact (Prod.mk.inj (Except.ok.inj h')).2
      exact textOf_bytes_eq_iff.1 hbytes hnul
    · intro hclean
      refine hcounted.sound (fun line h => ?_) fun _ => runLocal_answered s env _
      obtain ⟨rfl, hruns⟩ := (hexec line).1 h
      exact hruns.admitted hdec fun hnul => hclean ⟨text, hdec, hnul, hruns⟩

theorem entries_fit : 16 ≤ 64 := by decide

/-- A node that offers `storage info`, on a shell that prints nothing. -/
def smallBuild : Build := ⟨200, 16, 5000, by decide, by decide, entries_fit⟩

def storageOnly : Allowlist :=
  ⟨some [⟨some (.ofString "storage info"), some (.ofString "Mounts")⟩], 1,
    fun es h => by obtain rfl := Option.some.inj h; rfl⟩

def quiet : Env := ⟨false, fun _ => ⟨[], 0, 0⟩, true⟩

def offering : Service := (init smallBuild bootService (some storageOnly) ⟨none, none, true⟩).2

/-- A RUN request with that text. -/
def runPacket (text : List UInt8) : List UInt8 :=
  [protocolVersion, Opcode.RUN.toByte] ++ putBe16 (UInt16.ofNat text.length) ++ text

/-- A request that is run, one that is not offered, and another initialisation. -/
def threeCalls : List Call :=
  [.request quiet (runPacket (CString.ofString "storage info").bytes),
    .run quiet (some (.ofString "reboot")), .init (some storageOnly) ⟨none, none, true⟩]

/-- The service after them. -/
def offeringAfter : Service :=
  threeCalls.foldl (fun s call => (call.outcome smallBuild s).service) offering

/-- One execution is counted, and one refusal. -/
theorem run_counters_storage :
    offeringAfter.stats.accepted.toNat = 1 ∧ offeringAfter.stats.refused.toNat = 1 := by
  have hrun : Run (Step smallBuild) offering threeCalls offeringAfter :=
    (((Run.nil offering).snoc rfl).snoc rfl).snoc rfl
  obtain ⟨haccepted, hrefused⟩ := run_counters hrun (by decide +kernel)
  exact ⟨haccepted.trans (by decide +kernel), hrefused.trans (by decide +kernel)⟩

/-- A command with an argument is served as it was sent. -/
theorem serve_sound_storage :
    Sound (some storageOnly) offering (runPacket (CString.ofString "storage info lfs").bytes)
      (serveRequest smallBuild offering quiet
        (runPacket (CString.ofString "storage info lfs").bytes)) := by
  have hdec : decodeRequest (runPacket (CString.ofString "storage info lfs").bytes)
      (commandMax + 1) = .ok (.RUN, (CString.ofString "storage info lfs").bytes) := by
    decide +kernel
  refine (@serve_sound_iff smallBuild bootService offering offering (some storageOnly)
    ⟨none, none, true⟩ [] (Prod.ext (by decide +kernel) rfl) (.nil offering) quiet _).2 ?_
  rintro ⟨text, h, hnul, -⟩
  obtain rfl : (CString.ofString "storage info lfs").bytes = text := by
    rw [hdec] at h
    exact (Prod.mk.inj (Except.ok.inj h)).2
  exact (CString.ofString "storage info lfs").noNul hnul

/-- A text with a NUL and a bell behind `storage info` runs `storage info`. -/
theorem nul_text_runs :
    init smallBuild bootService (some storageOnly) ⟨none, none, true⟩ = (none, offering) ∧
      decodeRequest (runPacket ((CString.ofString "storage info").bytes ++ [0, 7]))
          (commandMax + 1) = .ok (.RUN, (CString.ofString "storage info").bytes ++ [0, 7]) ∧
      (serveRequest smallBuild offering quiet
          (runPacket ((CString.ofString "storage info").bytes ++ [0, 7]))).executed =
        some (.ofString "storage info") ∧ ¬ Admitted (some storageOnly)
        (runPacket ((CString.ofString "storage info").bytes ++ [0, 7]))
        (.ofString "storage info") := by
  have hdec : decodeRequest (runPacket ((CString.ofString "storage info").bytes ++ [0, 7]))
      (commandMax + 1) = .ok (.RUN, (CString.ofString "storage info").bytes ++ [0, 7]) := by
    decide +kernel
  refine ⟨Prod.ext (by decide +kernel) rfl, hdec, by decide +kernel, ?_⟩
  rintro ⟨text, h, -, hbytes, -⟩
  obtain rfl : (CString.ofString "storage info").bytes ++ [0, 7] = text := by
    rw [hdec] at h
    exact (Prod.mk.inj (Except.ok.inj h)).2
  exact absurd hbytes (by decide +kernel)

end KfswServices.Remexec
