/-
# The registry of commands

`validate_definition` and `kfsw_command_init` of `src/command/command.c`.  A definition is looked
over when it is added, so that what is in the registry has passed the check with those in front of it
(`registered_commandInit`).
-/

import KfswServices.Command.Dispatch

namespace KfswServices.Command

variable {ω : Type*}

/-- `validate_definition`; the name, the handler and the types are not NULL. -/
def validateDefinition (registry : List (Definition ω)) (d : Definition ω) : Option Errno :=
  if d.name.length = 0 then some .EINVAL
  else if d.argTypes.length > maxArgs then some .E2BIG
  else if maxTextSize ≤ d.name.length then some .ENAMETOOLONG
  else if registry.any (·.id = d.id) || registry.any (·.name = d.name) then some .EEXIST
  else none

/-- The inner loop of `kfsw_command_init`: the registry, and the error that stopped it. -/
def addDefinitions (max : ℕ) :
    List (Definition ω) → List (Definition ω) → List (Definition ω) × Option Errno
  | [], registry => (registry, none)
  | d :: ds, registry =>
    match validateDefinition registry d with
    | some e => ([], some e)
    | none =>
      if registry.length = max then ([], some .ENOSPC) else addDefinitions max ds (registry ++ [d])

/-- The outer loop; a set may be NULL. -/
def addSets (max : ℕ) :
    List (Option (List (Definition ω))) → List (Definition ω) →
      List (Definition ω) × Option Errno
  | [], registry => (registry, none)
  | none :: _, registry => (registry, some .EINVAL)
  | some ds :: sets, registry =>
    match addDefinitions max ds registry with
    | (registry, none) => addSets max sets registry
    | (registry, some e) => (registry, some e)

/-- `kfsw_command_init`, with `CONFIG_KFSW_COMMAND_MAX_COMMANDS`. -/
def commandInit (max : ℕ) (sets : List (Option (List (Definition ω)))) (n : Node ω) :
    Option Errno × Node ω :=
  let (registry, result) := addSets max sets []
  (result, { n with registry, ready := result = none })

/-- Every definition has passed the check with those in front of it. -/
def Registered (registry : List (Definition ω)) : Prop :=
  ∀ pre d post, registry = pre ++ d :: post → validateDefinition pre d = none

theorem registered_nil : Registered ([] : List (Definition ω)) :=
  fun pre d post h => absurd h (by simp)

theorem Registered.concat {registry : List (Definition ω)} {d : Definition ω}
    (h : Registered registry) (hd : validateDefinition registry d = none) :
    Registered (registry ++ [d]) := by
  intro pre x post hx
  rcases List.eq_nil_or_concat post with rfl | ⟨post, y, rfl⟩
  · obtain ⟨rfl, hxd⟩ := List.append_inj' hx rfl
    exact List.singleton_inj.1 hxd ▸ hd
  · rw [List.concat_eq_append, ← List.cons_append, ← List.append_assoc] at hx
    exact h pre x post (List.append_inj' hx rfl).1

theorem registered_addDefinitions (max : ℕ) (ds registry : List (Definition ω))
    (h : Registered registry) : Registered (addDefinitions max ds registry).1 := by
  induction ds generalizing registry with
  | nil => exact h
  | cons d ds ih =>
    unfold addDefinitions
    rcases hd : validateDefinition registry d with _ | e
    · dsimp only
      split_ifs
      · exact registered_nil
      · exact ih _ (h.concat hd)
    · exact registered_nil

theorem registered_addSets (max : ℕ) (sets : List (Option (List (Definition ω))))
    (registry : List (Definition ω)) (h : Registered registry) :
    Registered (addSets max sets registry).1 := by
  induction sets generalizing registry with
  | nil => exact h
  | cons set sets ih =>
    cases set with
    | none => exact h
    | some ds =>
      have hds := registered_addDefinitions max ds registry h
      unfold addSets
      rcases hadd : addDefinitions max ds registry with ⟨registry', _ | e⟩
      · rw [hadd] at hds
        exact ih _ hds
      · rw [hadd] at hds
        exact hds

/-- **What is in the registry** has passed the check. -/
theorem registered_commandInit (max : ℕ) (sets : List (Option (List (Definition ω))))
    (n : Node ω) : Registered (commandInit max sets n).2.registry :=
  registered_addSets max sets [] registered_nil

/-- A definition of the registry takes no more arguments than there can be. -/
theorem Registered.argTypes_le {registry : List (Definition ω)} (h : Registered registry)
    {d : Definition ω} (hd : d ∈ registry) : d.argTypes.length ≤ maxArgs := by
  obtain ⟨pre, post, hsplit⟩ := List.append_of_mem hd
  have hvalid := h pre d post hsplit
  unfold validateDefinition at hvalid
  by_contra hlong
  split_ifs at hvalid with hname hargs
  exact hargs (not_le.1 hlong)

end KfswServices.Command
