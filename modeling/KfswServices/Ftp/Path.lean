/-
# Virtual paths

`kfsw_ftp_resolve_path` of `src/ftp/ftp_protocol.c` turns the path of a request into a name of the
filesystem.  The first component may select an extra root; the rest becomes a relative path below
the root, and has to be one that stays there.

`resolvePath_contained` says what a resolved name looks like, and when a leading separator means
nothing.
-/

import KfswServices.Library.Split
import KfswServices.Basic

namespace KfswServices.Ftp

/-- The build: the mount point of `CONFIG_KFSW_STORAGE_TMP`, the path of `CONFIG_KFSW_FWU`, and
`CONFIG_KFSW_FTP_SPACE_MARGIN_BYTES`. -/
structure Config where
  tmp : Option CString
  firmwarePath : Option CString
  spaceMargin : ℕ

/-- `KFSW_FTP_MAX_PATH_SIZE`. -/
abbrev maxPathSize : ℕ := 96

/-- `KFSW_FTP_FULL_PATH_SIZE`, the terminator included. -/
abbrev fullPathSize : ℕ := 128

/-- `'/'`. -/
abbrev slash : UInt8 := 47

/-- `KFSW_FTP_ROOT_PATH`. -/
def rootPath : CString := CString.ofString "/kfsw/ftp"

/-- A root, and the first component that selects it. -/
structure Root where
  selector : CString
  path : CString
  writable : Bool
  deriving DecidableEq

/-- `extra_roots`. -/
def extraRoots (cfg : Config) : List Root :=
  [⟨CString.ofString "hk", CString.ofString "/kfsw/hk", false⟩,
    ⟨CString.ofString "boot", CString.ofString "/kfsw/boot", false⟩] ++
    (cfg.tmp.map fun mount => ⟨CString.ofString "tmp", mount, true⟩).toList

/-- The root that no component selects. -/
def ftpRoot : Root := ⟨CString.empty, rootPath, true⟩

/-- Every root of the build. -/
def roots (cfg : Config) : List Root := ftpRoot :: extraRoots cfg

/-- A string without the one separator it may start with. -/
def dropSlash (bytes : List UInt8) : List UInt8 :=
  if bytes.head? = some slash then bytes.tail else bytes

/-- The component is the first one of the path. -/
def Root.selects (root : Root) (relative : List UInt8) : Bool :=
  root.selector.bytes.isPrefixOf relative &&
    (relative.drop root.selector.length).head? ∈ [none, some slash]

/-- `extra_root`. -/
def extraRoot (cfg : Config) (virtualPath : CString) : Option Root :=
  (extraRoots cfg).find? (·.selects (dropSlash virtualPath.bytes))

/-- `kfsw_ftp_path_is_read_only`. -/
def pathIsReadOnly (cfg : Config) (virtualPath : CString) : Bool :=
  match extraRoot cfg virtualPath with
  | none => false
  | some root => !root.writable

/-- A component that names an entry of its directory. -/
def componentOk (component : List UInt8) : Bool :=
  component ≠ [] && component ≠ [46] && component ≠ [46, 46]

/-- A character a path may hold, besides the separator. -/
def characterOk (c : UInt8) : Bool := c ≠ 92 && 0x20 ≤ c && c ≠ 0x7f

/-- The loop of `kfsw_ftp_resolve_path`, with the component read so far. -/
def checkRelative (component : List UInt8) : List UInt8 → Bool
  | [] => componentOk component
  | c :: rest =>
    if c = slash then componentOk component && checkRelative [] rest
    else characterOk c && checkRelative (component ++ [c]) rest

/-- What `kfsw_ftp_resolve_path` selects: the root, and the path below it. -/
def select (cfg : Config) (virtualPath : CString) : Root × List UInt8 :=
  match extraRoot cfg virtualPath with
  | none => (ftpRoot, dropSlash virtualPath.bytes)
  | some root =>
    (root, dropSlash ((dropSlash virtualPath.bytes).drop root.selector.length))

/-- `root`, a separator, and a path below it. -/
def join (root : CString) (relative : List UInt8) (h : 0 ∉ relative) : CString :=
  root ++ CString.ofString "/" ++ ⟨relative, h⟩

/-- What is left of a string has no terminator inside. -/
theorem zero_notMem_dropSlash {bytes : List UInt8} (h : 0 ∉ bytes) : 0 ∉ dropSlash bytes := by
  unfold dropSlash
  split_ifs
  · exact fun hmem => h (List.mem_of_mem_tail hmem)
  · exact h

theorem zero_notMem_select (cfg : Config) (virtualPath : CString) :
    0 ∉ (select cfg virtualPath).2 := by
  unfold select
  cases extraRoot cfg virtualPath with
  | none => exact zero_notMem_dropSlash virtualPath.noNul
  | some root =>
    exact zero_notMem_dropSlash fun hmem =>
      zero_notMem_dropSlash virtualPath.noNul (List.mem_of_mem_drop hmem)

/-- `kfsw_ftp_resolve_path`, into a buffer of `resolvedSize` bytes. -/
def resolvePath (cfg : Config) (virtualPath : CString) (allowRoot : Bool) (resolvedSize : ℕ) :
    Except Errno CString :=
  if maxPathSize < virtualPath.length then .error .ENAMETOOLONG
  else
    let root := (select cfg virtualPath).1.path
    let relative := (select cfg virtualPath).2
    if relative = [] then
      if !allowRoot || resolvedSize ≤ root.length then .error .EINVAL else .ok root
    else if resolvedSize ≤ root.length + 1 + relative.length then .error .ENAMETOOLONG
    else if checkRelative [] relative then
      .ok (join root relative (zero_notMem_select cfg virtualPath))
    else .error .EINVAL

/-- `kfsw_ftp_resolve_write_path`. -/
def resolveWritePath (cfg : Config) (virtualPath : CString) (resolvedSize : ℕ) :
    Except Errno CString :=
  if pathIsReadOnly cfg virtualPath then .error .EROFS
  else resolvePath cfg virtualPath false resolvedSize

/-- `kfsw_ftp_validate_path`. -/
def validatePath (cfg : Config) (path : CString) (allowRoot : Bool) : Option Errno :=
  match resolvePath cfg path allowRoot fullPathSize with
  | .error e => some e
  | .ok _ => none

/-! ### What resolves -/

/-- A path below a root: every component names an entry of its directory, and no character is a
backslash or a control character. -/
def Relative (relative : List UInt8) : Prop :=
  (∀ component ∈ relative.splitOn slash, component ≠ [] ∧ component ≠ [46] ∧ component ≠ [46, 46]) ∧
    ∀ c ∈ relative, c ≠ 92 ∧ ¬ c < 0x20 ∧ c ≠ 0x7f

theorem componentOk_iff {component : List UInt8} :
    componentOk component = true ↔ component ≠ [] ∧ component ≠ [46] ∧ component ≠ [46, 46] := by
  simp [componentOk, and_assoc]

theorem characterOk_iff {c : UInt8} : characterOk c = true ↔ c ≠ 92 ∧ ¬ c < 0x20 ∧ c ≠ 0x7f := by
  simp [characterOk, and_assoc]

/-- **The loop accepts the relative paths.**  Between two separators it holds the component read
so far. -/
theorem checkRelative_iff {component : List UInt8} (hcomponent : slash ∉ component)
    (rest : List UInt8) : checkRelative component rest = true ↔
      (∀ part ∈ (component ++ rest).splitOn slash, part ≠ [] ∧ part ≠ [46] ∧ part ≠ [46, 46]) ∧
        ∀ c ∈ rest, c ≠ 92 ∧ ¬ c < 0x20 ∧ c ≠ 0x7f := by
  induction rest generalizing component with
  | nil => simp [checkRelative, componentOk_iff, List.splitOn_eq_singleton hcomponent]
  | cons c rest ih =>
    unfold checkRelative
    by_cases hc : c = slash
    · subst hc
      have hslash : slash ≠ 92 ∧ ¬ slash < 0x20 ∧ slash ≠ 0x7f := by decide
      rw [if_pos rfl, Bool.and_eq_true, ih (by simp), componentOk_iff,
        List.splitOn_append_cons_self_of_not_mem hcomponent]
      simp only [List.nil_append, List.forall_mem_cons, and_assoc]
      constructor
      · rintro ⟨h₁, h₂, h₃, hparts, hrest⟩
        exact ⟨h₁, h₂, h₃, hparts, hslash.1, hslash.2.1, hslash.2.2, hrest⟩
      · rintro ⟨h₁, h₂, h₃, hparts, -, -, -, hrest⟩
        exact ⟨h₁, h₂, h₃, hparts, hrest⟩
    · rw [if_neg hc, Bool.and_eq_true, ih (by simp [hcomponent, Ne.symm hc]), characterOk_iff,
        List.append_assoc, List.singleton_append, List.forall_mem_cons]
      constructor
      · rintro ⟨hok, hparts, hrest⟩
        exact ⟨hparts, hok, hrest⟩
      · rintro ⟨hparts, hok, hrest⟩
        exact ⟨hok, hparts, hrest⟩

/-- The root that is selected is one of the build, and it is the read-only one of a read-only
path. -/
theorem select_root (cfg : Config) (virtualPath : CString) :
    (select cfg virtualPath).1 ∈ roots cfg ∧
      ((select cfg virtualPath).1.writable = false ↔ pathIsReadOnly cfg virtualPath = true) := by
  unfold select pathIsReadOnly
  cases hroot : extraRoot cfg virtualPath with
  | none => simp [roots, ftpRoot]
  | some root => exact ⟨List.mem_cons_of_mem _ (List.mem_of_find?_eq_some hroot), by simp⟩

/-- What `kfsw_ftp_resolve_path` accepts. -/
theorem resolvePath_eq_ok_iff {cfg : Config} {virtualPath : CString} {allowRoot : Bool}
    {resolvedSize : ℕ} {resolved : CString} :
    resolvePath cfg virtualPath allowRoot resolvedSize = .ok resolved ↔
      virtualPath.length ≤ maxPathSize ∧ (((select cfg virtualPath).2 = [] ∧ allowRoot = true ∧
            resolved = (select cfg virtualPath).1.path ∧ resolved.length < resolvedSize) ∨
          ((select cfg virtualPath).2 ≠ [] ∧ Relative (select cfg virtualPath).2 ∧
            resolved = join (select cfg virtualPath).1.path (select cfg virtualPath).2
              (zero_notMem_select cfg virtualPath) ∧ resolved.length < resolvedSize)) := by
  have hjoin : (join (select cfg virtualPath).1.path (select cfg virtualPath).2
      (zero_notMem_select cfg virtualPath)).length =
        (select cfg virtualPath).1.path.length + 1 + (select cfg virtualPath).2.length := by
    have hsep : (CString.ofString "/").bytes.length = 1 := by decide
    unfold join CString.length
    show ((_ ++ _) ++ _ : List UInt8).length = _
    rw [List.length_append, List.length_append, hsep]
  have hcheck : checkRelative [] (select cfg virtualPath).2 = true ↔
      Relative (select cfg virtualPath).2 := checkRelative_iff (by simp) _
  unfold resolvePath
  rw [ite_error_eq_ok, Nat.not_lt]
  refine and_congr_right fun _ => ?_
  by_cases hrelative : (select cfg virtualPath).2 = []
  · simp only [if_pos hrelative, ite_error_eq_ok]
    simp only [hrelative, Bool.or_eq_true, Bool.not_eq_true', decide_eq_true_eq, not_or,
      Bool.not_eq_false, not_le, Except.ok.injEq, true_and, ne_eq, not_true_eq_false, false_and,
      or_false]
    constructor
    · rintro ⟨⟨hroot, hfits⟩, rfl⟩
      exact ⟨hroot, rfl, hfits⟩
    · rintro ⟨hroot, rfl, hfits⟩
      exact ⟨⟨hroot, hfits⟩, rfl⟩
  · simp only [if_neg hrelative, ite_error_eq_ok]
    rw [← hcheck]
    by_cases hok : checkRelative [] (select cfg virtualPath).2 = true
    · simp only [hok, hrelative, if_true, Except.ok.injEq, not_le, false_and, ne_eq,
        not_false_eq_true, true_and, false_or]
      constructor
      · rintro ⟨hfits, rfl⟩
        exact ⟨rfl, by rw [hjoin]; exact hfits⟩
      · rintro ⟨rfl, hfits⟩
        rw [hjoin] at hfits
        exact ⟨hfits, rfl⟩
    · simp [hok, hrelative]

/-- The components that select an extra root. -/
theorem selector_extraRoot {cfg : Config} {root : Root} (h : root ∈ extraRoots cfg) :
    root.selector = CString.ofString "hk" ∨ root.selector = CString.ofString "boot" ∨
      root.selector = CString.ofString "tmp" := by
  simp only [extraRoots, List.mem_append, List.mem_cons, List.not_mem_nil, or_false,
    Option.mem_toList, Option.map_eq_some_iff] at h
  rcases h with (rfl | rfl) | ⟨mount, -, rfl⟩
  · exact Or.inl rfl
  · exact Or.inr (Or.inl rfl)
  · exact Or.inr (Or.inr rfl)

/-- The path that is empty selects the root of the transfers. -/
theorem select_empty (cfg : Config) {path : CString} (h : path.bytes = []) :
    select cfg path = (ftpRoot, []) := by
  have hnone : extraRoot cfg path = none := by
    unfold extraRoot
    rw [h, List.find?_eq_none]
    intro root hroot
    unfold Root.selects
    rcases selector_extraRoot hroot with hselector | hselector | hselector <;> rw [hselector] <;>
      decide
  unfold select
  rw [hnone, h]
  rfl

theorem resolvePath_empty (cfg : Config) {path : CString} (h : path.bytes = []) :
    resolvePath cfg path true fullPathSize = .ok rootPath := by
  have hlength : path.length ≤ maxPathSize := by
    rw [CString.length, h]
    exact Nat.zero_le _
  refine resolvePath_eq_ok_iff.2 ⟨hlength, Or.inl ⟨?_, rfl, ?_, by decide⟩⟩
  · rw [select_empty cfg h]
  · rw [select_empty cfg h]
    rfl

/-- A leading separator selects what the path without it selects. -/
theorem dropSlash_slash {bytes : List UInt8} (h : bytes.head? ≠ some slash) :
    dropSlash (slash :: bytes) = dropSlash bytes := by
  simp [dropSlash, h]

theorem select_slash (cfg : Config) {path : CString} (h : path.bytes.head? ≠ some slash) :
    select cfg (CString.ofString "/" ++ path) = select cfg path := by
  have hdrop : dropSlash (CString.ofString "/" ++ path).bytes = dropSlash path.bytes :=
    dropSlash_slash h
  unfold select extraRoot
  rw [hdrop]

/-- **Paths stay below their root.**  A resolved name fits its buffer and is one root of the build,
or a relative path below it; the root is a read-only one exactly for a read-only path.  A leading
separator changes nothing, for a path that has none and has not the largest size. -/
theorem resolvePath_contained (cfg : Config) (virtualPath : CString) (allowRoot : Bool)
    (resolvedSize : ℕ) :
    (∀ resolved, resolvePath cfg virtualPath allowRoot resolvedSize = .ok resolved →
      resolved.length < resolvedSize ∧
        ∃ root ∈ roots cfg, (root.writable = false ↔ pathIsReadOnly cfg virtualPath = true) ∧
          ((allowRoot = true ∧ resolved = root.path) ∨
            ∃ relative h, resolved = join root.path relative h ∧ Relative relative)) ∧
      (virtualPath.bytes.head? ≠ some slash → virtualPath.length ≠ maxPathSize →
        resolvePath cfg (CString.ofString "/" ++ virtualPath) allowRoot resolvedSize =
            resolvePath cfg virtualPath allowRoot resolvedSize ∧
          pathIsReadOnly cfg (CString.ofString "/" ++ virtualPath) =
            pathIsReadOnly cfg virtualPath) := by
  constructor
  · intro resolved hresolved
    obtain ⟨hroot, hwritable⟩ := select_root cfg virtualPath
    obtain ⟨-, ⟨-, hallow, hname, hfits⟩ | ⟨-, hrelative, hname, hfits⟩⟩ :=
      resolvePath_eq_ok_iff.1 hresolved
    · exact ⟨hfits, _, hroot, hwritable, Or.inl ⟨hallow, hname⟩⟩
    · exact ⟨hfits, _, hroot, hwritable, Or.inr ⟨_, _, hname, hrelative⟩⟩
  · intro hhead hlength
    have hlen : (CString.ofString "/" ++ virtualPath).length = virtualPath.length + 1 :=
      List.length_cons
    have htoo : maxPathSize < (CString.ofString "/" ++ virtualPath).length ↔
        maxPathSize < virtualPath.length := by
      rw [hlen]
      omega
    have hdrop : dropSlash (CString.ofString "/" ++ virtualPath).bytes =
        dropSlash virtualPath.bytes := dropSlash_slash hhead
    constructor
    · simp only [resolvePath, htoo, select_slash cfg hhead]
    · unfold pathIsReadOnly extraRoot
      rw [hdrop]

/-- A file below a read-only root, with and without the separator. -/
theorem resolvePath_contained_hk : (∃ root ∈ roots ⟨none, none, 0⟩, (root.writable = false ↔
        pathIsReadOnly ⟨none, none, 0⟩ (.ofString "hk/a") = true) ∧
        ((false = true ∧ CString.ofString "/kfsw/hk/a" = root.path) ∨
          ∃ relative h, CString.ofString "/kfsw/hk/a" = join root.path relative h ∧
            Relative relative)) ∧
      resolvePath ⟨none, none, 0⟩ (CString.ofString "/" ++ CString.ofString "hk/a") false 128 =
        resolvePath ⟨none, none, 0⟩ (.ofString "hk/a") false 128 :=
  ⟨((resolvePath_contained ⟨none, none, 0⟩ (.ofString "hk/a") false 128).1 _
      (by decide +kernel)).2,
    ((resolvePath_contained ⟨none, none, 0⟩ (.ofString "hk/a") false 128).2
      (by decide) (by decide)).1⟩

/-- The separator counts: behind it a path of the largest size is too long. -/
theorem resolvePath_slash_too_long : ¬ ∀ (cfg : Config) (virtualPath : CString) (allowRoot : Bool)
    (resolvedSize : ℕ),
    resolvePath cfg (CString.ofString "/" ++ virtualPath) allowRoot resolvedSize =
      resolvePath cfg virtualPath allowRoot resolvedSize := by
  intro h
  have hlong := h ⟨none, none, 0⟩ ⟨List.replicate 96 97, by decide⟩ false 128
  exact absurd hlong (by decide +kernel)

end KfswServices.Ftp
