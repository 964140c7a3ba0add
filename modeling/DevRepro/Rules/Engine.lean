import DevRepro.Rules.Packs

/-!
# Where a finding comes from

The findings of the engine are those of the version checks of the packs, and a few
that a pack makes on its own.  `mem_evaluate` takes them apart.
-/

namespace DevRepro.Rules

open DevRepro.Python DevRepro.Lib DevRepro.Core DevRepro.Project DevRepro.Snapshots
open DevRepro.Mcp (Finding FindingState Evidence)

variable (rt : RuleRuntime) (ctx : RuleContext)

/-! ## The parts -/

/-- The version checks of all packs. -/
def checks : List VersionRequirement :=
  containerChecks ctx ++ cppChecks ctx ++ dotnetChecks ctx ++ goChecks ctx ++ javaChecks ctx ++
    nodeChecks ctx ++ pythonChecks ctx ++ rustChecks ctx

/-- What the pack `containers` says without a check. -/
def containerFindings : List Finding :=
  if needsDocker ctx then
    match ctx.containers with
    | none => [stateUnknown]
    | some state =>
      engineFindings state ++ if lacksDevcontainer ctx then [devcontainerRequired] else []
  else []

/-- What the pack `cpp` says without a check. -/
def compilerFindings : List Finding :=
  if (ctx.requirements.any fun r => r.ecosystem = lit "cpp") = true ∧
      (ctx.tools.any fun t => decide (t.name ∈ [lit "gcc", lit "clang", lit "cl"])) = false then
    [noCompiler]
  else []

/-- What the pack `python` says without a check. -/
def interpreterFindings : List Finding :=
  if 1 < (pythonVersions ctx).length then [multipleVersions ctx (pythonVersions ctx)] else []

variable {rt ctx}

theorem mem_checkFindings {f : Finding} {list : List VersionRequirement} :
    f ∈ list.flatMap (checkFindings rt ctx) ↔ ∃ check ∈ list, f ∈ checkFindings rt ctx check :=
  List.mem_flatMap

theorem mem_evaluateContainers {f : Finding} :
    f ∈ evaluateContainers rt ctx ↔
      (∃ check ∈ containerChecks ctx, f ∈ checkFindings rt ctx check) ∨ f ∈ containerFindings ctx := by
  rw [evaluateContainers, containerChecks, containerFindings]
  by_cases hneeds : needsDocker ctx = true
  · rw [if_pos hneeds, if_pos hneeds, hneeds]
    cases ctx.containers with
    | none => simp
    | some state =>
      dsimp only
      rw [List.mem_append, mem_checkFindings, or_comm]
  · rw [if_neg hneeds, if_neg hneeds, eq_false_of_ne_true hneeds]
    simp

theorem mem_evaluateCpp {f : Finding} :
    f ∈ evaluateCpp rt ctx ↔
      (∃ check ∈ cppChecks ctx, f ∈ checkFindings rt ctx check) ∨ f ∈ compilerFindings ctx := by
  rw [evaluateCpp, compilerFindings]
  by_cases hcpp : (ctx.requirements.any fun r => r.ecosystem = lit "cpp") = true
  · rw [if_pos hcpp, List.mem_append, mem_checkFindings]
    refine or_congr_right ?_
    by_cases htool : (ctx.tools.any fun t => decide (t.name ∈ [lit "gcc", lit "clang", lit "cl"])) = true
    · rw [if_pos htool, if_neg]
      exact fun h => absurd (htool.symm.trans h.2) (by decide)
    · rw [if_neg htool, if_pos ⟨hcpp, eq_false_of_ne_true htool⟩]
  · -- Without a requirement of the ecosystem there is none for cmake.
    have hcmake : (requirementFor ctx "cpp" "cmake").isSome = false := by
      rw [requirementFor, Option.isSome_eq_false_iff, Option.isNone_iff_eq_none, List.find?_eq_none]
      intro r hr
      rw [decide_eq_true_iff]
      intro h
      exact hcpp (List.any_eq_true.mpr ⟨r, hr, decide_eq_true h.1⟩)
    rw [if_neg hcpp, if_neg fun h => hcpp h.1, cppChecks, hcmake]
    simp

theorem mem_evaluatePython {f : Finding} :
    f ∈ evaluatePython rt ctx ↔
      (∃ check ∈ pythonChecks ctx, f ∈ checkFindings rt ctx check) ∨ f ∈ interpreterFindings ctx := by
  rw [evaluatePython, List.mem_append, mem_checkFindings, interpreterFindings]

/-- A finding is one of a check, or one that a pack makes on its own. -/
theorem mem_evaluate {f : Finding} :
    f ∈ evaluate rt ctx ↔
      (∃ check ∈ checks ctx, f ∈ checkFindings rt ctx check) ∨ f ∈ evaluateAdvisories rt ctx ∨
        f ∈ evaluateAiGpu rt ctx ∨ f ∈ containerFindings ctx ∨ f ∈ compilerFindings ctx ∨
          f ∈ evaluateFrameworks rt ctx ∨ f ∈ evaluateLockfiles rt ctx ∨ f ∈ interpreterFindings ctx ∨
            f ∈ evaluateWsl ctx := by
  simp only [evaluate, checks, List.mem_append, mem_evaluateContainers, mem_evaluateCpp,
    mem_evaluatePython, evaluateDotnet, evaluateGo, evaluateJava, evaluateNode, evaluateRust,
    mem_checkFindings, or_and_right, exists_or]
  refine iff_of_eq ?_
  ac_rfl

/-! ## The findings about the machine -/

/-- The rules about the machine. -/
def machineRules : List Str :=
  ["gpu/state-unknown", "gpu/no-accelerator", "gpu/cuda-toolkit-missing", "containers/state-unknown",
    "containers/docker-missing", "containers/docker-daemon-unreachable",
    "containers/devcontainer-required", "cpp/no-compiler", "python/multiple-versions",
    "wsl/no-default-distro", "wsl/interop-disabled"]

variable (rt) in
theorem mem_machineRules {f : Finding}
    (h : f ∈ evaluateAiGpu rt ctx ∨ f ∈ containerFindings ctx ∨ f ∈ compilerFindings ctx ∨
      f ∈ interpreterFindings ctx ∨ f ∈ evaluateWsl ctx) : f.ruleId ∈ machineRules := by
  have hfixed : ∀ (p : Prop) [Decidable p] (g : Finding), g.ruleId ∈ machineRules →
      f ∈ (if p then [g] else []) → f.ruleId ∈ machineRules := by
    intro p _ g hrule hf
    split_ifs at hf
    · rw [List.mem_singleton.mp hf]
      exact hrule
    · cases hf
  rcases h with h | h | h | h | h
  · rw [evaluateAiGpu] at h
    split at h
    · exact hfixed _ _ (by decide +kernel) h
    · rcases List.mem_append.mp h with h | h
      · exact hfixed _ _ (by decide +kernel) h
      · exact hfixed _ _ (show lit "gpu/cuda-toolkit-missing" ∈ machineRules by decide +kernel) h
  · rw [containerFindings] at h
    by_cases hneeds : needsDocker ctx = true
    · rw [if_pos hneeds] at h
      cases hstate : ctx.containers with
      | none =>
        rw [hstate, List.mem_singleton] at h
        rw [h]
        exact (show lit "containers/state-unknown" ∈ machineRules by decide +kernel)
      | some state =>
        rw [hstate] at h
        rcases List.mem_append.mp h with h | h
        · rw [engineFindings] at h
          split_ifs at h
          · rw [List.mem_singleton.mp h]
            exact (show lit "containers/docker-missing" ∈ machineRules by decide +kernel)
          · rw [List.mem_singleton.mp h]
            exact (show lit "containers/docker-daemon-unreachable" ∈ machineRules by decide +kernel)
          · cases h
        · exact hfixed _ _ (by decide +kernel) h
    · rw [if_neg hneeds] at h
      cases h
  · exact hfixed _ _ (by decide +kernel) h
  · exact hfixed _ _ (show lit "python/multiple-versions" ∈ machineRules by decide +kernel) h
  · rw [evaluateWsl] at h
    cases hwsl : ctx.wsl with
    | none =>
      rw [hwsl] at h
      cases h
    | some wsl =>
      rw [hwsl] at h
      dsimp only at h
      by_cases havailable : wsl.available = true
      · rw [if_pos havailable] at h
        rcases List.mem_append.mp h with h | h
        · exact hfixed _ _ (by decide +kernel) h
        · exact hfixed _ _ (by decide +kernel) h
      · rw [if_neg havailable] at h
        cases h

/-! ## The findings of a check -/

/-- What a check says: which finding, and when. -/
theorem mem_checkFindings_cases {check : VersionRequirement} {f : Finding}
    (h : f ∈ checkFindings rt ctx check) :
    (f = check.missing ∧ ((activeTool ctx.tools check.toolName).bind ToolInstallation.version).getD [] = []) ∨
      ∃ version, (activeTool ctx.tools check.toolName).bind ToolInstallation.version = some version ∧
        version ≠ [] ∧
        (f = check.unparseable rt.toRuntime version ∨
          ∃ v inRange, parseVersion rt.limits version = some v ∧
            inSpec rt.limits check.requiredSpec v = some inRange ∧
              (f = check.verdict version inRange ∨
                ∃ bad ∈ check.knownBad, inSpec rt.limits bad v = some true ∧ f = check.bad version bad)) := by
  rw [checkFindings, checkVersionRequirement] at h
  generalize hbind : (activeTool ctx.tools check.toolName).bind ToolInstallation.version = found at h
  dsimp only at h
  by_cases hempty : found.getD [] = []
  · rw [if_pos hempty, List.mem_singleton] at h
    exact Or.inl ⟨h, hempty⟩
  · rw [if_neg hempty] at h
    cases found with
    | none => exact absurd rfl hempty
    | some version =>
      refine Or.inr ⟨version, rfl, hempty, ?_⟩
      rw [Option.getD_some] at h
      cases hparse : parseVersion rt.limits version with
      | none =>
        rw [hparse, List.mem_singleton] at h
        exact Or.inl h
      | some v =>
        rw [hparse] at h
        dsimp only at h
        cases hspec : inSpec rt.limits check.requiredSpec v with
        | none =>
          rw [hspec, List.mem_singleton] at h
          exact Or.inl h
        | some inRange =>
          rw [hspec, List.mem_append, List.mem_singleton, Option.mem_toList,
            Option.map_eq_some_iff] at h
          refine Or.inr ⟨v, inRange, rfl, hspec, ?_⟩
          rcases h with ⟨bad, hbad, rfl⟩ | rfl
          · have hmatches := List.find?_some hbad
            rw [decide_eq_true_iff] at hmatches
            exact Or.inr ⟨bad, List.mem_of_find?_eq_some hbad, hmatches, rfl⟩
          · exact Or.inl rfl

/-! ## The findings of a lockfile -/

variable (rt ctx) in
/-- The package manager of a lockfile is there and older than its format. -/
def TooOld (fact : LockfileFacts) : Prop :=
  isBlank fact.minimumTool = false ∧ ∃ installed, activeTool ctx.tools fact.tool = some installed ∧
    isBlank installed.version = false ∧
      versionInSpec rt (fact.minimumTool.getD []) (installed.version.getD []) = some false

variable (rt ctx) in
/-- A runtime is active outside the range that a lockfile was made for. -/
def LockedOut (fact : LockfileFacts) (runtime : Str) : Prop :=
  ∃ spec version, fact.requiresRuntime = some (runtime, spec) ∧ version ≠ [] ∧
    (activeTool ctx.tools runtime).bind ToolInstallation.version = some version ∧
      versionInSpec rt spec version = some false

/-- What a lockfile says about its package manager. -/
theorem mem_formatFindings {fact : LockfileFacts} {f : Finding} (h : f ∈ formatFindings rt ctx fact) :
    f.component = some fact.tool ∧
      ((f.ruleId = lit "lockfiles/manager-missing" ∧ f.state = .warn ∧
          isBlank fact.minimumTool = false ∧ activeTool ctx.tools fact.tool = none) ∨
        (f.ruleId = lit "lockfiles/format-unknown" ∧ f.state = .unknown) ∨
          (f.ruleId = lit "lockfiles/format-supported" ∧ f.state = .pass) ∨
            f.ruleId = lit "lockfiles/tool-too-old" ∧ f.state = .error ∧ TooOld rt ctx fact) := by
  rw [formatFindings] at h
  by_cases hminimum : isBlank fact.minimumTool = true
  · rw [if_pos hminimum] at h
    cases h
  rw [if_neg hminimum] at h
  dsimp only at h
  cases htool : activeTool ctx.tools fact.tool with
  | none =>
    rw [htool, List.mem_singleton] at h
    rw [h]
    exact ⟨rfl, Or.inl ⟨rfl, rfl, eq_false_of_ne_true hminimum, rfl⟩⟩
  | some installed =>
    rw [htool] at h
    dsimp only at h
    by_cases hversion : isBlank installed.version = true
    · rw [if_pos hversion, List.mem_singleton] at h
      rw [h]
      exact ⟨rfl, Or.inr (Or.inl ⟨rfl, rfl⟩)⟩
    rw [if_neg hversion] at h
    cases hspec : versionInSpec rt (fact.minimumTool.getD []) (installed.version.getD []) with
    | none =>
      rw [hspec, List.mem_singleton] at h
      rw [h]
      exact ⟨rfl, Or.inr (Or.inl ⟨rfl, rfl⟩)⟩
    | some ok =>
      cases ok with
      | true =>
        rw [hspec, List.mem_singleton] at h
        rw [h]
        exact ⟨rfl, Or.inr (Or.inr (Or.inl ⟨rfl, rfl⟩))⟩
      | false =>
        rw [hspec, List.mem_singleton] at h
        rw [h]
        exact ⟨rfl, Or.inr (Or.inr (Or.inr ⟨rfl, rfl, eq_false_of_ne_true hminimum, installed, htool,
          eq_false_of_ne_true hversion, hspec⟩))⟩

/-- What a lockfile says about a runtime. -/
theorem mem_lockedRuntimeFindings {fact : LockfileFacts} {f : Finding}
    (h : f ∈ lockedRuntimeFindings rt ctx fact) :
    ∃ runtime, f.component = some runtime ∧
      ((f.ruleId = lit "lockfiles/runtime-spec-unparseable" ∧ f.state = .unknown) ∨
        f.ruleId = lit "lockfiles/runtime-mismatch" ∧ f.state = .error ∧ LockedOut rt ctx fact runtime) := by
  rw [lockedRuntimeFindings] at h
  cases hruntime : fact.requiresRuntime with
  | none =>
    rw [hruntime] at h
    cases h
  | some pin =>
    obtain ⟨runtime, spec⟩ := pin
    rw [hruntime] at h
    dsimp only at h
    cases hversion : (activeTool ctx.tools runtime).bind ToolInstallation.version with
    | none =>
      rw [hversion] at h
      cases h
    | some version =>
      cases version with
      | nil =>
        rw [hversion] at h
        cases h
      | cons c rest =>
        rw [hversion] at h
        dsimp only at h
        cases hspec : versionInSpec rt spec (c :: rest) with
        | none =>
          rw [hspec, List.mem_singleton] at h
          rw [h]
          exact ⟨runtime, rfl, Or.inl ⟨rfl, rfl⟩⟩
        | some ok =>
          cases ok with
          | true =>
            rw [hspec] at h
            cases h
          | false =>
            rw [hspec, List.mem_singleton] at h
            rw [h]
            exact ⟨runtime, rfl, Or.inr ⟨rfl, rfl, spec, c :: rest, hruntime, List.cons_ne_nil _ _,
              hversion, hspec⟩⟩

theorem exists_formatFinding {fact : LockfileFacts} (h : TooOld rt ctx fact) :
    ∃ f ∈ formatFindings rt ctx fact, f.state = .error ∧ f.component = some fact.tool := by
  obtain ⟨hminimum, installed, htool, hversion, hspec⟩ := h
  rw [formatFindings, hminimum, if_neg Bool.false_ne_true]
  dsimp only
  rw [htool]
  dsimp only
  rw [hversion, if_neg Bool.false_ne_true, hspec]
  exact ⟨_, List.mem_singleton_self _, rfl, rfl⟩

theorem exists_lockedRuntimeFinding {fact : LockfileFacts} {runtime : Str} (h : LockedOut rt ctx fact runtime) :
    ∃ f ∈ lockedRuntimeFindings rt ctx fact, f.state = .error ∧ f.component = some runtime := by
  obtain ⟨spec, version, hpin, hne, hversion, hspec⟩ := h
  rw [lockedRuntimeFindings, hpin]
  dsimp only
  cases version with
  | nil => exact absurd rfl hne
  | cons c rest =>
    rw [hversion]
    dsimp only
    rw [hspec]
    exact ⟨_, List.mem_singleton_self _, rfl, rfl⟩

/-- An installation that is too old for a lockfile is an error. -/
theorem exists_tooOld {fact : LockfileFacts} (hreadable : fact.unreadable = false)
    (hmem : fact ∈ ctx.lockfiles) (h : TooOld rt ctx fact) :
    ∃ f ∈ evaluateLockfiles rt ctx, f.state = .error ∧ f.component = some fact.tool := by
  obtain ⟨f, hf, hstate⟩ := exists_formatFinding h
  refine ⟨f, List.mem_flatMap.mpr ⟨fact, hmem, ?_⟩, hstate⟩
  rw [hreadable, if_neg Bool.false_ne_true]
  exact List.mem_append_left _ hf

/-- A runtime outside the range of a lockfile is an error. -/
theorem exists_lockedOut {fact : LockfileFacts} {runtime : Str} (hreadable : fact.unreadable = false)
    (hmem : fact ∈ ctx.lockfiles) (h : LockedOut rt ctx fact runtime) :
    ∃ f ∈ evaluateLockfiles rt ctx, f.state = .error ∧ f.component = some runtime := by
  obtain ⟨f, hf, hstate⟩ := exists_lockedRuntimeFinding h
  refine ⟨f, List.mem_flatMap.mpr ⟨fact, hmem, ?_⟩, hstate⟩
  rw [hreadable, if_neg Bool.false_ne_true]
  exact List.mem_append_right _ hf

end DevRepro.Rules
