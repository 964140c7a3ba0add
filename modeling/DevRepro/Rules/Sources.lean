import DevRepro.Rules.Engine

/-!
# When the engine reports a tool

`hasError_iff` and `hasProblem_iff` say for which contexts the findings of the engine
have an error, or any problem, on a tool: in terms of the checks that the packs make
and of the machine, not of the findings.
-/

namespace DevRepro.Rules

open DevRepro.Python DevRepro.Lib DevRepro.Core DevRepro.Project DevRepro.Snapshots
open DevRepro.Mcp (Finding FindingState Evidence)

variable (rt : RuleRuntime) (ctx : RuleContext)

/-! ## Findings on a tool -/

/-- An error on a tool. -/
def HasError (name : Str) : Prop :=
  ∃ f ∈ evaluate rt ctx, f.component = some name ∧ f.state = .error

/-- A warning, an error or a blocker on a tool. -/
def HasProblem (name : Str) : Prop :=
  ∃ f ∈ evaluate rt ctx, f.component = some name ∧
    (f.state = .warn ∨ f.state = .error ∨ f.state = .blocked)

/-! ## Sources -/

/-- The packs hold a tool to a range. -/
inductive HeldTo : Str → Str → Prop where
  | always {pack tool spec source : Str}
      (hpack : (pack, tool) ∈ [(lit "node", lit "node"), (lit "python", lit "python")])
      (hspec : runtimeSpec ctx pack tool none = some (spec, source)) : HeldTo tool spec
  | wanted {pack tool spec source : Str}
      (hpack : (pack, tool) ∈ [(lit "dotnet", lit "dotnet"), (lit "go", lit "go"),
        (lit "java", lit "java"), (lit "rust", lit "rustc")])
      (hwanted : wanted ctx pack pack = true)
      (hspec : runtimeSpec ctx pack tool none = some (spec, source)) : HeldTo tool spec
  | declared {pack tool spec source : Str}
      (hpack : (pack, tool) ∈ [(lit "cpp", lit "cmake"), (lit "node", lit "npm")])
      (hdeclared : (requirementFor ctx pack tool).isSome = true)
      (hspec : runtimeSpec ctx pack tool none = some (spec, source)) : HeldTo tool spec
  | git {policy : Policy} {spec : Str} (hpolicy : ctx.policy = some policy)
      (hspec : policy.requiredTools.get? "git" = some spec) : HeldTo "git" spec
  | docker {policy : Policy} {spec : Str} (hpolicy : ctx.policy = some policy)
      (hstate : ctx.containers.isSome = true)
      (hspec : policy.requiredTools.get? "docker" = some spec) : HeldTo "docker" spec

/-- The version that a check looks at. -/
def checkedVersion (name : Str) : Option Str :=
  ((activeTool ctx.tools name).bind ToolInstallation.version).filter fun version => version ≠ []

/-- The packs find the version of a tool outside a range that they hold it to, or within
one that the policy knows to be bad. -/
def CheckFails (name : Str) : Prop :=
  ∃ spec, HeldTo ctx name spec ∧ ∃ version ∈ checkedVersion ctx name,
    ∃ v inRange, parseVersion rt.limits version = some v ∧ inSpec rt.limits spec v = some inRange ∧
      (inRange = false ∨ ∃ bad ∈ knownBadOf ctx name, inSpec rt.limits bad v = some true)

/-- A lockfile finds its package manager or its runtime at fault. -/
def LockfileFails (name : Str) : Prop :=
  ∃ fact ∈ ctx.lockfiles, fact.unreadable = false ∧
    (fact.tool = name ∧ TooOld rt ctx fact ∨ LockedOut rt ctx fact name)

/-- What makes the engine report an error on a tool. -/
def ErrorSource (name : Str) : Prop := CheckFails rt ctx name ∨ LockfileFails rt ctx name

/-- The packs find no version of a tool that they hold to a range. -/
def CheckMisses (name : Str) : Prop :=
  (∃ spec, HeldTo ctx name spec) ∧ checkedVersion ctx name = none

/-- A lockfile misses its package manager. -/
def LockfileMisses (name : Str) : Prop :=
  ∃ fact ∈ ctx.lockfiles, fact.unreadable = false ∧ isBlank fact.minimumTool = false ∧
    fact.tool = name ∧ activeTool ctx.tools name = none

/-- The container engine is missing or down where it is needed. -/
def EngineDown : Prop :=
  needsDocker ctx = true ∧ ∃ state, ctx.containers = some state ∧ engineFindings state ≠ []

/-- A framework that the context tells of is not met. -/
def FrameworkFails (name : Str) : Prop :=
  ∃ requirements, ctx.extra.get? "framework_requirements" = some (.frameworks requirements) ∧
    ∃ requirement ∈ requirements, requirement.tool = name ∧
      ∀ version ∈ checkedVersion ctx name,
        satisfies rt.limits version requirement.required = some false

/-- The sources that go with the name of one tool, and not with a check. -/
def NamedSource (name : Str) : Prop :=
  name = lit "docker" ∧ EngineDown ctx ∨
  name = lit "devcontainer" ∧ needsDocker ctx = true ∧ ctx.containers.isSome = true ∧
    lacksDevcontainer ctx = true ∨
  name = lit "cpp" ∧ compilerFindings ctx ≠ [] ∨
  name = lit "python" ∧ 1 < (pythonVersions ctx).length ∨
  name = lit "gpu" ∧ needsAi rt ctx = true ∧ (∃ gpu, ctx.gpu = some gpu ∧
    (isBlank gpu.nvidiaDriver && isBlank gpu.rocm && isBlank gpu.oneapi && isBlank gpu.metal) = true) ∨
  name = lit "wsl" ∧ evaluateWsl ctx ≠ []

/-- What makes the engine report a problem on a tool. -/
def ProblemSource (name : Str) : Prop :=
  ErrorSource rt ctx name ∨ CheckMisses ctx name ∨ LockfileMisses ctx name ∨
    FrameworkFails rt ctx name ∨ (∃ hit ∈ affectedTools rt ctx, hit.1 = name) ∨ NamedSource rt ctx name

variable {rt ctx}

/-! ## States -/

/-- What is to be shown of a finding that is no problem. -/
theorem quiet_cases {state : FindingState} {p q : Prop}
    (h : state = .pass ∨ state = .info ∨ state = .unknown) :
    (state = .error → p) ∧ (state = .warn ∨ state = .blocked → q) := by
  rcases h with rfl | rfl | rfl
  · simp
  · simp
  · simp

/-- What is to be shown of an error. -/
theorem error_cases {state : FindingState} {p q : Prop} (h : state = .error) (hp : p) :
    (state = .error → p) ∧ (state = .warn ∨ state = .blocked → q) := by
  subst h
  simp [hp]

/-- What is to be shown of a warning or a blocker. -/
theorem warn_cases {state : FindingState} {p q : Prop} (h : state = .warn ∨ state = .blocked) (hq : q) :
    (state = .error → p) ∧ (state = .warn ∨ state = .blocked → q) := by
  rcases h with rfl | rfl
  · simp [hq]
  · simp [hq]

/-! ## Checks -/

/-- A check holds a tool to a range, with the policy's bad versions of the tool. -/
structure Holds (ctx : RuleContext) (check : VersionRequirement) : Prop where
  held : HeldTo ctx check.toolName check.requiredSpec
  knownBad : check.knownBad = knownBadOf ctx check.toolName
  missing : check.missingState = .warn ∨ check.missingState = .blocked

theorem mem_runtimeCheck {pack tool : Str} {check : VersionRequirement} :
    check ∈ (runtimeCheck ctx pack tool none .blocked).toList ↔
      ∃ spec source, runtimeSpec ctx pack tool none = some (spec, source) ∧
        check = ⟨pack, tool, spec, knownBadOf ctx tool, source, .blocked,
          tool ++ lit " --version resolved via PATH"⟩ := by
  rw [Option.mem_toList, runtimeCheck, Option.map_eq_some_iff, Prod.exists]
  refine exists_congr fun spec => exists_congr fun source => and_congr_right fun _ => ?_
  exact eq_comm

theorem mem_toolCheck {pack tool : Str} {check : VersionRequirement} :
    check ∈ (toolCheck ctx pack tool .warn).toList ↔
      ∃ policy spec, ctx.policy = some policy ∧ policy.requiredTools.get? tool = some spec ∧
        check = ⟨pack, tool, spec, knownBadOf ctx tool, ".devrepro.toml [required_tools]", .warn,
          tool ++ lit " --version resolved via PATH"⟩ := by
  rw [Option.mem_toList, toolCheck, Option.map_eq_some_iff]
  constructor
  · rintro ⟨spec, hspec, rfl⟩
    obtain ⟨policy, hpolicy, hspec⟩ := Option.bind_eq_some_iff.mp hspec
    exact ⟨policy, spec, hpolicy, hspec, rfl⟩
  · rintro ⟨policy, spec, hpolicy, hspec, rfl⟩
    exact ⟨spec, Option.bind_eq_some_iff.mpr ⟨policy, hpolicy, hspec⟩, rfl⟩

theorem mem_ecosystemChecks {pack tool : Str} {check : VersionRequirement} :
    check ∈ ecosystemChecks ctx pack tool ↔
      wanted ctx pack pack = true ∧ check ∈ (runtimeCheck ctx pack tool none .blocked).toList := by
  rw [ecosystemChecks]
  split_ifs with h
  · simp [h]
  · simp [h]

/-- The guard of the check for npm asks for a requirement of npm. -/
theorem requirementFor_isSome {ecosystem name : Str} :
    (requirementFor ctx ecosystem name).isSome =
      ctx.requirements.any fun r => r.ecosystem = ecosystem ∧ r.name = name := by
  rw [requirementFor, List.isSome_find?]

theorem holds_of_mem_checks {check : VersionRequirement} (h : check ∈ checks ctx) : Holds ctx check := by
  have hecosystem : ∀ pack tool : Str,
      (pack, tool) ∈ [(lit "dotnet", lit "dotnet"), (lit "go", lit "go"), (lit "java", lit "java"),
        (lit "rust", lit "rustc")] → check ∈ ecosystemChecks ctx pack tool → Holds ctx check := by
    intro pack tool hpack hmem
    obtain ⟨hwanted, hmem⟩ := mem_ecosystemChecks.mp hmem
    obtain ⟨spec, source, hspec, rfl⟩ := mem_runtimeCheck.mp hmem
    exact ⟨.wanted hpack hwanted hspec, rfl, Or.inr rfl⟩
  simp only [checks, List.mem_append] at h
  rcases h with ((((((h | h) | h) | h) | h) | h) | h) | h
  · rw [containerChecks] at h
    split_ifs at h with hneeds
    · obtain ⟨policy, spec, hpolicy, hspec, rfl⟩ := mem_toolCheck.mp h
      exact ⟨.docker hpolicy (Bool.and_eq_true_iff.mp hneeds).2 hspec, rfl, Or.inl rfl⟩
    · cases h
  · rw [cppChecks] at h
    split_ifs at h with hcmake
    · obtain ⟨spec, source, hspec, rfl⟩ := mem_runtimeCheck.mp h
      exact ⟨.declared (by simp) hcmake hspec, rfl, Or.inr rfl⟩
    · cases h
  · exact hecosystem _ _ (by simp) h
  · exact hecosystem _ _ (by simp) h
  · exact hecosystem _ _ (by simp) h
  · rw [nodeChecks, List.mem_append, List.mem_append] at h
    rcases h with (h | h) | h
    · obtain ⟨spec, source, hspec, rfl⟩ := mem_runtimeCheck.mp h
      exact ⟨.always (by simp) hspec, rfl, Or.inr rfl⟩
    · split_ifs at h with hnpm
      · obtain ⟨spec, source, hspec, rfl⟩ := mem_runtimeCheck.mp h
        exact ⟨.declared (show (lit "node", lit "npm") ∈ _ by simp) (requirementFor_isSome.trans hnpm) hspec, rfl,
          Or.inr rfl⟩
      · cases h
    · obtain ⟨policy, spec, hpolicy, hspec, rfl⟩ := mem_toolCheck.mp h
      exact ⟨.git hpolicy hspec, rfl, Or.inl rfl⟩
  · obtain ⟨spec, source, hspec, rfl⟩ := mem_runtimeCheck.mp h
    exact ⟨.always (by simp) hspec, rfl, Or.inr rfl⟩
  · exact hecosystem _ _ (by simp) h

/-- A tool that is held to a range has a check for it. -/
theorem HeldTo.exists_check {name spec : Str} (h : HeldTo ctx name spec) :
    ∃ check ∈ checks ctx, check.toolName = name ∧ check.requiredSpec = spec := by
  simp only [checks, List.mem_append]
  cases h with
  | @always pack _ _ source hpack hspec =>
    refine ⟨⟨pack, name, spec, knownBadOf ctx name, source, .blocked,
      name ++ lit " --version resolved via PATH"⟩, ?_, rfl, rfl⟩
    have hmem := mem_runtimeCheck.mpr ⟨spec, source, hspec, rfl⟩
    simp only [List.mem_cons, Prod.mk.injEq, List.not_mem_nil, or_false] at hpack
    rcases hpack with ⟨rfl, rfl⟩ | ⟨rfl, rfl⟩
    · refine Or.inl (Or.inl (Or.inr ?_))
      rw [nodeChecks, List.mem_append, List.mem_append]
      exact Or.inl (Or.inl hmem)
    · exact Or.inl (Or.inr hmem)
  | @wanted pack _ _ source hpack hwanted hspec =>
    refine ⟨⟨pack, name, spec, knownBadOf ctx name, source, .blocked,
      name ++ lit " --version resolved via PATH"⟩, ?_, rfl, rfl⟩
    have hmem := mem_ecosystemChecks.mpr ⟨hwanted, mem_runtimeCheck.mpr ⟨spec, source, hspec, rfl⟩⟩
    simp only [List.mem_cons, Prod.mk.injEq, List.not_mem_nil, or_false] at hpack
    rcases hpack with ⟨rfl, rfl⟩ | ⟨rfl, rfl⟩ | ⟨rfl, rfl⟩ | ⟨rfl, rfl⟩
    · exact Or.inl (Or.inl (Or.inl (Or.inl (Or.inl (Or.inr hmem)))))
    · exact Or.inl (Or.inl (Or.inl (Or.inl (Or.inr hmem))))
    · exact Or.inl (Or.inl (Or.inl (Or.inr hmem)))
    · exact Or.inr hmem
  | @declared pack _ _ source hpack hdeclared hspec =>
    refine ⟨⟨pack, name, spec, knownBadOf ctx name, source, .blocked,
      name ++ lit " --version resolved via PATH"⟩, ?_, rfl, rfl⟩
    have hmem := mem_runtimeCheck.mpr ⟨spec, source, hspec, rfl⟩
    simp only [List.mem_cons, Prod.mk.injEq, List.not_mem_nil, or_false] at hpack
    rcases hpack with ⟨rfl, rfl⟩ | ⟨rfl, rfl⟩
    · refine Or.inl (Or.inl (Or.inl (Or.inl (Or.inl (Or.inl (Or.inr ?_))))))
      rw [cppChecks, if_pos hdeclared]
      exact hmem
    · refine Or.inl (Or.inl (Or.inr ?_))
      rw [nodeChecks, List.mem_append, List.mem_append,
        if_pos (requirementFor_isSome.symm.trans hdeclared)]
      exact Or.inl (Or.inr hmem)
  | @git policy _ hpolicy hspec =>
    refine ⟨⟨"node", "git", spec, knownBadOf ctx "git", ".devrepro.toml [required_tools]", .warn,
      lit "git" ++ lit " --version resolved via PATH"⟩, ?_, rfl, rfl⟩
    refine Or.inl (Or.inl (Or.inr ?_))
    rw [nodeChecks, List.mem_append]
    exact Or.inr (mem_toolCheck.mpr ⟨policy, spec, hpolicy, hspec, rfl⟩)
  | @docker policy _ hpolicy hstate hspec =>
    refine ⟨⟨"containers", "docker", spec, knownBadOf ctx "docker", ".devrepro.toml [required_tools]",
      .warn, lit "docker" ++ lit " --version resolved via PATH"⟩, ?_, rfl, rfl⟩
    -- A range for docker is a reason to look at the containers.
    have hneeds : needsDocker ctx = true := by
      rw [needsDocker, hpolicy, Option.any_some, Dict.contains, hspec]
      simp
    refine Or.inl (Or.inl (Or.inl (Or.inl (Or.inl (Or.inl (Or.inl ?_))))))
    rw [containerChecks, hneeds, hstate]
    exact mem_toolCheck.mpr ⟨policy, spec, hpolicy, hspec, rfl⟩

theorem mem_checkedVersion {name version : Str} :
    version ∈ checkedVersion ctx name ↔
      (activeTool ctx.tools name).bind ToolInstallation.version = some version ∧ version ≠ [] := by
  rw [checkedVersion, Option.mem_def, Option.filter_eq_some_iff, decide_eq_true_iff]

theorem checkedVersion_eq_none {name : Str} :
    checkedVersion ctx name = none ↔
      ((activeTool ctx.tools name).bind ToolInstallation.version).getD [] = [] := by
  rw [checkedVersion]
  cases (activeTool ctx.tools name).bind ToolInstallation.version with
  | none => simp
  | some version => simp

/-- An error of a check, or a miss, is the check's. -/
theorem check_cases {check : VersionRequirement} {f : Finding} {name : Str} (hmem : check ∈ checks ctx)
    (h : f ∈ checkFindings rt ctx check) (hname : f.component = some name) :
    (f.state = .error → CheckFails rt ctx name) ∧
      (f.state = .warn ∨ f.state = .blocked → CheckMisses ctx name) := by
  rcases mem_checkFindings_cases h with ⟨rfl, hversion⟩ | ⟨version, hversion, hne, hcase⟩
  · obtain rfl : check.toolName = name := Option.some.inj hname
    exact warn_cases (holds_of_mem_checks hmem).missing
      ⟨⟨_, (holds_of_mem_checks hmem).held⟩, checkedVersion_eq_none.mpr hversion⟩
  · rcases hcase with rfl | ⟨v, inRange, hparse, hspec, rfl | ⟨bad, hbad, hin, rfl⟩⟩
    · exact quiet_cases (Or.inr (Or.inr rfl))
    · cases inRange with
      | true => exact quiet_cases (Or.inl rfl)
      | false =>
        obtain rfl : check.toolName = name := Option.some.inj hname
        exact error_cases rfl ⟨_, (holds_of_mem_checks hmem).held, version,
          mem_checkedVersion.mpr ⟨hversion, hne⟩, v, false, hparse, hspec, Or.inl rfl⟩
    · obtain rfl : check.toolName = name := Option.some.inj hname
      rw [(holds_of_mem_checks hmem).knownBad] at hbad
      exact error_cases rfl ⟨_, (holds_of_mem_checks hmem).held, version,
        mem_checkedVersion.mpr ⟨hversion, hne⟩, v, inRange, hparse, hspec, Or.inr ⟨bad, hbad, hin⟩⟩

theorem hasError_of_checkFails {name : Str} (h : CheckFails rt ctx name) : HasError rt ctx name := by
  obtain ⟨spec, hheld, version, hversion, v, inRange, hparse, hspec, hfail⟩ := h
  obtain ⟨check, hmem, rfl, rfl⟩ := hheld.exists_check
  rw [← (holds_of_mem_checks hmem).knownBad] at hfail
  obtain ⟨hbind, hne⟩ := mem_checkedVersion.mp hversion
  have hfinding : ∃ f ∈ checkFindings rt ctx check, f.component = some check.toolName ∧
      f.state = .error := by
    rw [checkFindings, checkVersionRequirement, hbind]
    dsimp only
    rw [Option.getD_some, if_neg hne, hparse]
    dsimp only
    rw [hspec]
    dsimp only
    rcases hfail with rfl | ⟨bad, hbad, hin⟩
    · exact ⟨_, List.mem_append_right _ (List.mem_singleton_self _), rfl, rfl⟩
    · have hfind : (check.knownBad.find? fun spec => inSpec rt.limits spec v = some true).isSome = true :=
        List.find?_isSome.mpr ⟨bad, hbad, decide_eq_true hin⟩
      obtain ⟨found, hfound⟩ := Option.isSome_iff_exists.mp hfind
      refine ⟨check.bad version found, List.mem_append_left _ ?_, rfl, rfl⟩
      rw [hfound]
      exact List.mem_singleton_self _
  obtain ⟨f, hf, hcomponent, hstate⟩ := hfinding
  exact ⟨f, mem_evaluate.mpr (Or.inl ⟨check, hmem, hf⟩), hcomponent, hstate⟩

theorem hasProblem_of_checkMisses {name : Str} (h : CheckMisses ctx name) : HasProblem rt ctx name := by
  obtain ⟨⟨spec, hheld⟩, hversion⟩ := h
  obtain ⟨check, hmem, rfl, rfl⟩ := hheld.exists_check
  refine ⟨check.missing, mem_evaluate.mpr (Or.inl ⟨check, hmem, ?_⟩), rfl, ?_⟩
  · rw [checkFindings, checkVersionRequirement]
    dsimp only
    rw [if_pos (checkedVersion_eq_none.mp hversion)]
    exact List.mem_singleton_self _
  · rcases (holds_of_mem_checks hmem).missing with h | h
    · exact Or.inl h
    · exact Or.inr (Or.inr h)

/-! ## Lockfiles -/

theorem lockfile_cases {f : Finding} {name : Str} (h : f ∈ evaluateLockfiles rt ctx)
    (hname : f.component = some name) :
    (f.state = .error → LockfileFails rt ctx name) ∧
      (f.state = .warn ∨ f.state = .blocked → LockfileMisses ctx name) := by
  obtain ⟨fact, hmem, h⟩ := List.mem_flatMap.mp h
  by_cases hunreadable : fact.unreadable = true
  · rw [if_pos hunreadable, List.mem_singleton] at h
    rw [h]
    exact quiet_cases (Or.inr (Or.inr rfl))
  · rw [if_neg hunreadable] at h
    have hreadable := eq_false_of_ne_true hunreadable
    rcases List.mem_append.mp h with h | h
    · obtain ⟨hcomponent, hcase⟩ := mem_formatFindings h
      rw [hcomponent] at hname
      obtain rfl : fact.tool = name := Option.some.inj hname
      rcases hcase with ⟨-, hstate, hminimum, htool⟩ | ⟨-, hstate⟩ | ⟨-, hstate⟩ | ⟨-, hstate, hold⟩
      · exact warn_cases (Or.inl hstate) ⟨fact, hmem, hreadable, hminimum, rfl, htool⟩
      · exact quiet_cases (Or.inr (Or.inr hstate))
      · exact quiet_cases (Or.inl hstate)
      · exact error_cases hstate ⟨fact, hmem, hreadable, Or.inl ⟨rfl, hold⟩⟩
    · obtain ⟨runtime, hcomponent, hcase⟩ := mem_lockedRuntimeFindings h
      rw [hcomponent] at hname
      obtain rfl : runtime = name := Option.some.inj hname
      rcases hcase with ⟨-, hstate⟩ | ⟨-, hstate, hout⟩
      · exact quiet_cases (Or.inr (Or.inr hstate))
      · exact error_cases hstate ⟨fact, hmem, hreadable, Or.inr hout⟩

theorem hasError_of_lockfileFails {name : Str} (h : LockfileFails rt ctx name) :
    HasError rt ctx name := by
  obtain ⟨fact, hmem, hreadable, ⟨rfl, hold⟩ | hout⟩ := h
  · obtain ⟨f, hf, hstate, hcomponent⟩ := exists_tooOld hreadable hmem hold
    exact ⟨f, mem_evaluate.mpr (by tauto), hcomponent, hstate⟩
  · obtain ⟨f, hf, hstate, hcomponent⟩ := exists_lockedOut hreadable hmem hout
    exact ⟨f, mem_evaluate.mpr (by tauto), hcomponent, hstate⟩

theorem hasProblem_of_lockfileMisses {name : Str} (h : LockfileMisses ctx name) :
    HasProblem rt ctx name := by
  obtain ⟨fact, hmem, hreadable, hminimum, rfl, htool⟩ := h
  have hfinding : ∃ f ∈ formatFindings rt ctx fact, f.component = some fact.tool ∧ f.state = .warn := by
    rw [formatFindings, hminimum, if_neg Bool.false_ne_true]
    dsimp only
    rw [htool]
    exact ⟨_, List.mem_singleton_self _, rfl, rfl⟩
  obtain ⟨f, hf, hcomponent, hstate⟩ := hfinding
  have hlockfile : f ∈ evaluateLockfiles rt ctx := by
    refine List.mem_flatMap.mpr ⟨fact, hmem, ?_⟩
    rw [hreadable, if_neg Bool.false_ne_true]
    exact List.mem_append_left _ hf
  exact ⟨f, mem_evaluate.mpr (by tauto), hcomponent, Or.inl hstate⟩

/-! ## The other packs -/

theorem advisory_cases {f : Finding} {name : Str} (h : f ∈ evaluateAdvisories rt ctx)
    (hname : f.component = some name) :
    (f.state = .error → False) ∧
      (f.state = .warn ∨ f.state = .blocked → ∃ hit ∈ affectedTools rt ctx, hit.1 = name) := by
  rw [evaluateAdvisories] at h
  rcases List.mem_cons.mp h with rfl | h
  · exact quiet_cases (Or.inr (Or.inl rfl))
  · obtain ⟨hit, hhit, rfl⟩ := List.mem_map.mp h
    obtain rfl : hit.1 = name := Option.some.inj hname
    exact warn_cases (Or.inl rfl) ⟨hit, hhit, rfl⟩

/-- A framework is met, or it is not by whatever version is looked at. -/
theorem frameworkFinding_cases {requirement : FrameworkRequirement} {f : Finding}
    (h : frameworkFinding rt ctx.tools requirement = some f) :
    f.component = some requirement.tool ∧
      (f.state = .pass ∨ f.state = .blocked ∧ ∀ version ∈ checkedVersion ctx requirement.tool,
        satisfies rt.limits version requirement.required = some false) := by
  rw [frameworkFinding] at h
  simp only [mem_checkedVersion]
  cases hversion : (activeTool ctx.tools requirement.tool).bind ToolInstallation.version with
  | none =>
    rw [hversion] at h
    cases h
    exact ⟨rfl, Or.inr ⟨rfl, fun version hv => nomatch hv.1⟩⟩
  | some version =>
    rw [hversion] at h
    cases version with
    | nil =>
      cases h
      exact ⟨rfl, Or.inr ⟨rfl, fun version hv => absurd (Option.some.inj hv.1).symm hv.2⟩⟩
    | cons c rest =>
      dsimp only at h
      cases hsat : satisfies rt.limits (c :: rest) requirement.required with
      | none =>
        rw [hsat] at h
        cases h
      | some ok =>
        rw [hsat] at h
        cases ok with
        | true =>
          cases h
          exact ⟨rfl, Or.inl rfl⟩
        | false =>
          cases h
          refine ⟨rfl, Or.inr ⟨rfl, fun version hv => ?_⟩⟩
          rw [← Option.some.inj hv.1]
          exact hsat

theorem framework_cases {f : Finding} {name : Str} (h : f ∈ evaluateFrameworks rt ctx)
    (hname : f.component = some name) :
    (f.state = .error → False) ∧
      (f.state = .warn ∨ f.state = .blocked → FrameworkFails rt ctx name) := by
  rw [evaluateFrameworks] at h
  rcases List.mem_append.mp h with h | h
  · cases hextra : ctx.extra.get? "framework_requirements" with
    | none =>
      rw [hextra] at h
      cases h
    | some value =>
      rw [hextra] at h
      cases value with
      | flag b => cases h
      | names list => cases h
      | native list => cases h
      | frameworks requirements =>
        obtain ⟨requirement, hmem, hfinding⟩ := List.mem_filterMap.mp h
        obtain ⟨hcomponent, hstate | ⟨hstate, hfails⟩⟩ := frameworkFinding_cases hfinding
        · exact quiet_cases (Or.inl hstate)
        · rw [hcomponent] at hname
          exact warn_cases (Or.inr hstate)
            ⟨requirements, hextra, requirement, hmem, Option.some.inj hname, Option.some.inj hname ▸ hfails⟩
  · split at h
    · obtain ⟨dependency, -, rfl⟩ := List.mem_map.mp h
      exact quiet_cases (Or.inr (Or.inl rfl))
    · cases h

/-- A framework that no version meets blocks. -/
theorem exists_frameworkFinding {requirement : FrameworkRequirement}
    (h : ∀ version ∈ checkedVersion ctx requirement.tool,
      satisfies rt.limits version requirement.required = some false) :
    ∃ f, frameworkFinding rt ctx.tools requirement = some f ∧
      f.component = some requirement.tool ∧ f.state = .blocked := by
  rw [frameworkFinding]
  cases hversion : (activeTool ctx.tools requirement.tool).bind ToolInstallation.version with
  | none => exact ⟨_, rfl, rfl, rfl⟩
  | some version =>
    cases version with
    | nil => exact ⟨_, rfl, rfl, rfl⟩
    | cons c rest =>
      dsimp only
      rw [h _ (mem_checkedVersion.mpr ⟨hversion, List.cons_ne_nil _ _⟩)]
      exact ⟨_, rfl, rfl, rfl⟩

theorem hasProblem_of_frameworkFails {name : Str} (h : FrameworkFails rt ctx name) :
    HasProblem rt ctx name := by
  obtain ⟨requirements, hextra, requirement, hmem, rfl, hfails⟩ := h
  obtain ⟨f, hf, hcomponent, hstate⟩ := exists_frameworkFinding hfails
  have hframework : f ∈ evaluateFrameworks rt ctx := by
    rw [evaluateFrameworks, hextra]
    exact List.mem_append_left _ (List.mem_filterMap.mpr ⟨requirement, hmem, hf⟩)
  exact ⟨f, mem_evaluate.mpr (by tauto), hcomponent, Or.inr (Or.inr hstate)⟩

theorem mem_engineFindings {state : ContainerState} {f : Finding} (h : f ∈ engineFindings state) :
    f.component = some (lit "docker") ∧ f.state = .blocked := by
  rw [engineFindings] at h
  split_ifs at h
  · rw [List.mem_singleton.mp h]
    exact ⟨rfl, rfl⟩
  · rw [List.mem_singleton.mp h]
    exact ⟨rfl, rfl⟩
  · cases h

theorem mem_evaluateWsl {f : Finding} (h : f ∈ evaluateWsl ctx) :
    f.component = some (lit "wsl") ∧ f.state = .warn := by
  rw [evaluateWsl] at h
  cases hstate : ctx.wsl with
  | none =>
    rw [hstate] at h
    cases h
  | some wsl =>
    rw [hstate] at h
    dsimp only at h
    split_ifs at h
    · simp only [List.mem_append, List.mem_singleton] at h
      rcases h with rfl | rfl
      · exact ⟨rfl, rfl⟩
      · exact ⟨rfl, rfl⟩
    · rw [List.append_nil, List.mem_singleton] at h
      rw [h]
      exact ⟨rfl, rfl⟩
    · rw [List.nil_append, List.mem_singleton] at h
      rw [h]
      exact ⟨rfl, rfl⟩
    · cases h
    · cases h

theorem gpu_cases {f : Finding} {name : Str} (h : f ∈ evaluateAiGpu rt ctx)
    (hname : f.component = some name) :
    (f.state = .error → False) ∧
      (f.state = .warn ∨ f.state = .blocked → NamedSource rt ctx name) := by
  rw [evaluateAiGpu] at h
  cases hgpu : ctx.gpu with
  | none =>
    rw [hgpu] at h
    dsimp only at h
    split_ifs at h
    · rw [List.mem_singleton.mp h]
      exact quiet_cases (Or.inr (Or.inr rfl))
    · cases h
  | some gpu =>
    rw [hgpu] at h
    rcases List.mem_append.mp h with h | h
    · split_ifs at h with hai
      · rw [List.mem_singleton.mp h] at hname ⊢
        obtain rfl : lit "gpu" = name := Option.some.inj hname
        simp only [Bool.and_assoc] at hai
        rw [Bool.and_eq_true] at hai
        refine warn_cases (Or.inl rfl) ?_
        have hneeds : NamedSource rt ctx (lit "gpu") := by
          refine Or.inr (Or.inr (Or.inr (Or.inr (Or.inl ⟨rfl, hai.1, gpu, hgpu, ?_⟩))))
          simp only [Bool.and_assoc]
          exact hai.2
        exact hneeds
      · cases h
    · split_ifs at h
      · rw [List.mem_singleton.mp h]
        exact quiet_cases (Or.inr (Or.inl rfl))
      · cases h

theorem container_cases {f : Finding} {name : Str} (h : f ∈ containerFindings ctx)
    (hname : f.component = some name) :
    (f.state = .error → False) ∧
      (f.state = .warn ∨ f.state = .blocked → NamedSource rt ctx name) := by
  rw [containerFindings] at h
  by_cases hneeds : needsDocker ctx = true
  · rw [if_pos hneeds] at h
    cases hstate : ctx.containers with
    | none =>
      rw [hstate, List.mem_singleton] at h
      rw [h]
      exact quiet_cases (Or.inr (Or.inr rfl))
    | some state =>
      rw [hstate] at h
      rcases List.mem_append.mp h with h | h
      · have hdown : EngineDown ctx := ⟨hneeds, state, hstate, List.ne_nil_of_mem h⟩
        have hblocked := mem_engineFindings h
        rw [hblocked.1] at hname
        exact warn_cases (Or.inr hblocked.2) (Or.inl ⟨(Option.some.inj hname).symm, hdown⟩)
      · split_ifs at h with hlacks
        · rw [List.mem_singleton.mp h] at hname ⊢
          refine warn_cases (Or.inl rfl)
            (Or.inr (Or.inl ⟨(Option.some.inj hname).symm, hneeds, ?_, hlacks⟩))
          rw [hstate]
          rfl
        · cases h
  · rw [if_neg hneeds] at h
    cases h

/-- The findings about the machine go with a name each. -/
theorem machine_cases {f : Finding} {name : Str}
    (h : f ∈ evaluateAiGpu rt ctx ∨ f ∈ containerFindings ctx ∨ f ∈ compilerFindings ctx ∨
      f ∈ interpreterFindings ctx ∨ f ∈ evaluateWsl ctx) (hname : f.component = some name) :
    (f.state = .error → False) ∧
      (f.state = .warn ∨ f.state = .blocked → NamedSource rt ctx name) := by
  rcases h with h | h | h | h | h
  · exact gpu_cases h hname
  · exact container_cases h hname
  · have hne : compilerFindings ctx ≠ [] := List.ne_nil_of_mem h
    rw [compilerFindings] at h
    split_ifs at h
    · rw [List.mem_singleton.mp h] at hname ⊢
      exact warn_cases (Or.inr rfl) (Or.inr (Or.inr (Or.inl ⟨(Option.some.inj hname).symm, hne⟩)))
    · cases h
  · rw [interpreterFindings] at h
    split_ifs at h with hmany
    · rw [List.mem_singleton.mp h] at hname ⊢
      exact warn_cases (Or.inl rfl)
        (Or.inr (Or.inr (Or.inr (Or.inl ⟨(Option.some.inj hname).symm, hmany⟩))))
    · cases h
  · have hne : evaluateWsl ctx ≠ [] := List.ne_nil_of_mem h
    have hwsl := mem_evaluateWsl h
    rw [hwsl.1] at hname
    exact warn_cases (Or.inl hwsl.2)
      (Or.inr (Or.inr (Or.inr (Or.inr (Or.inr ⟨(Option.some.inj hname).symm, hne⟩)))))

theorem hasProblem_of_namedSource {name : Str} (h : NamedSource rt ctx name) :
    HasProblem rt ctx name := by
  rcases h with ⟨rfl, hneeds, state, hstate, hne⟩ | ⟨rfl, hneeds, hsome, hlacks⟩ | ⟨rfl, hne⟩ |
    ⟨rfl, hmany⟩ | ⟨rfl, hai, gpu, hgpu, hblank⟩ | ⟨rfl, hne⟩
  · obtain ⟨f, hf⟩ := List.exists_mem_of_ne_nil _ hne
    have hcontainer : f ∈ containerFindings ctx := by
      rw [containerFindings, if_pos hneeds, hstate]
      exact List.mem_append_left _ hf
    exact ⟨f, mem_evaluate.mpr (by tauto), (mem_engineFindings hf).1,
      Or.inr (Or.inr (mem_engineFindings hf).2)⟩
  · obtain ⟨state, hstate⟩ := Option.isSome_iff_exists.mp hsome
    have hcontainer : devcontainerRequired ∈ containerFindings ctx := by
      rw [containerFindings, if_pos hneeds, hstate]
      dsimp only
      rw [if_pos hlacks]
      exact List.mem_append_right _ (List.mem_singleton_self _)
    exact ⟨_, mem_evaluate.mpr (by tauto), rfl, Or.inl rfl⟩
  · have hcompiler : noCompiler ∈ compilerFindings ctx := by
      rw [compilerFindings] at hne ⊢
      split_ifs at hne ⊢
      · exact List.mem_singleton_self _
      · exact absurd rfl hne
    exact ⟨_, mem_evaluate.mpr (by tauto), rfl, Or.inr (Or.inr rfl)⟩
  · have hinterpreter : multipleVersions ctx (pythonVersions ctx) ∈ interpreterFindings ctx := by
      rw [interpreterFindings, if_pos hmany]
      exact List.mem_singleton_self _
    exact ⟨_, mem_evaluate.mpr (by tauto), rfl, Or.inl rfl⟩
  · have hgpuFinding : noAccelerator ∈ evaluateAiGpu rt ctx := by
      rw [evaluateAiGpu, hgpu]
      refine List.mem_append_left _ ?_
      rw [if_pos]
      · exact List.mem_singleton_self _
      · simp only [Bool.and_assoc, hai, Bool.true_and] at hblank ⊢
        exact hblank
    exact ⟨_, mem_evaluate.mpr (by tauto), rfl, Or.inl rfl⟩
  · obtain ⟨f, hf⟩ := List.exists_mem_of_ne_nil _ hne
    exact ⟨f, mem_evaluate.mpr (by tauto), (mem_evaluateWsl hf).1, Or.inl (mem_evaluateWsl hf).2⟩

/-! ## Errors and problems -/

/-- What an error or another problem on a tool comes from. -/
theorem source_of_mem {f : Finding} {name : Str} (h : f ∈ evaluate rt ctx)
    (hname : f.component = some name) :
    (f.state = .error → ErrorSource rt ctx name) ∧
      (f.state = .warn ∨ f.state = .blocked → CheckMisses ctx name ∨ LockfileMisses ctx name ∨
        FrameworkFails rt ctx name ∨ (∃ hit ∈ affectedTools rt ctx, hit.1 = name) ∨
          NamedSource rt ctx name) := by
  have hmachine : (f.state = .error → False) ∧
      (f.state = .warn ∨ f.state = .blocked → NamedSource rt ctx name) →
        (f.state = .error → ErrorSource rt ctx name) ∧
          (f.state = .warn ∨ f.state = .blocked → CheckMisses ctx name ∨ LockfileMisses ctx name ∨
            FrameworkFails rt ctx name ∨ (∃ hit ∈ affectedTools rt ctx, hit.1 = name) ∨
              NamedSource rt ctx name) :=
    fun hcases => ⟨fun herror => (hcases.1 herror).elim,
      fun hwarn => Or.inr (Or.inr (Or.inr (Or.inr (hcases.2 hwarn))))⟩
  rcases mem_evaluate.mp h with ⟨check, hmem, h⟩ | h | h | h | h | h | h | h | h
  · have hcases := check_cases hmem h hname
    exact ⟨fun herror => Or.inl (hcases.1 herror), fun hwarn => Or.inl (hcases.2 hwarn)⟩
  · have hcases := advisory_cases h hname
    exact ⟨fun herror => (hcases.1 herror).elim,
      fun hwarn => Or.inr (Or.inr (Or.inr (Or.inl (hcases.2 hwarn))))⟩
  · exact hmachine (machine_cases (Or.inl h) hname)
  · exact hmachine (machine_cases (Or.inr (Or.inl h)) hname)
  · exact hmachine (machine_cases (Or.inr (Or.inr (Or.inl h))) hname)
  · have hcases := framework_cases h hname
    exact ⟨fun herror => (hcases.1 herror).elim,
      fun hwarn => Or.inr (Or.inr (Or.inl (hcases.2 hwarn)))⟩
  · have hcases := lockfile_cases h hname
    exact ⟨fun herror => Or.inr (hcases.1 herror), fun hwarn => Or.inr (Or.inl (hcases.2 hwarn))⟩
  · exact hmachine (machine_cases (Or.inr (Or.inr (Or.inr (Or.inl h)))) hname)
  · exact hmachine (machine_cases (Or.inr (Or.inr (Or.inr (Or.inr h)))) hname)

/-- The engine reports an error on a tool exactly when there is a source of one. -/
theorem hasError_iff {name : Str} : HasError rt ctx name ↔ ErrorSource rt ctx name := by
  constructor
  · rintro ⟨f, hf, hname, hstate⟩
    exact (source_of_mem hf hname).1 hstate
  · rintro (h | h)
    · exact hasError_of_checkFails h
    · exact hasError_of_lockfileFails h

/-- The engine reports a problem on a tool exactly when there is a source of one. -/
theorem hasProblem_iff {name : Str} : HasProblem rt ctx name ↔ ProblemSource rt ctx name := by
  constructor
  · rintro ⟨f, hf, hname, hstate | hstate | hstate⟩
    · exact Or.inr ((source_of_mem hf hname).2 (Or.inl hstate))
    · exact Or.inl ((source_of_mem hf hname).1 hstate)
    · exact Or.inr ((source_of_mem hf hname).2 (Or.inr hstate))
  · rintro (h | h | h | h | ⟨hit, hhit, rfl⟩ | h)
    · obtain ⟨f, hf, hname, hstate⟩ := hasError_iff.mpr h
      exact ⟨f, hf, hname, Or.inr (Or.inl hstate)⟩
    · exact hasProblem_of_checkMisses h
    · exact hasProblem_of_lockfileMisses h
    · exact hasProblem_of_frameworkFails h
    · obtain ⟨f, hf, hname, hstate⟩ : ∃ f ∈ evaluateAdvisories rt ctx,
          f.component = some hit.1 ∧ f.state = .warn := by
        rw [evaluateAdvisories]
        exact ⟨_, List.mem_cons_of_mem _ (List.mem_map_of_mem hhit), rfl, rfl⟩
      exact ⟨f, mem_evaluate.mpr (Or.inr (Or.inl hf)), hname, Or.inl hstate⟩
    · exact hasProblem_of_namedSource h

end DevRepro.Rules
