import DevRepro.Project.Compose
import DevRepro.Rules.Engine

/-!
# The scan

`run_scan` of `cli/pipeline.py`, up to the privacy pass: what it gathers, the two
contexts that it builds, and the findings of its report.

The facts about frameworks go into the `extra` map of the context for the probes.  The
rule pack reads them from the `extra` map of the context for the rules, which stays
empty: `reported_iff` says that nothing of them reaches the report.
-/

namespace DevRepro.Cli

open DevRepro.Python DevRepro.Lib DevRepro.Core DevRepro.Project DevRepro.Snapshots DevRepro.Rules
open DevRepro.Mcp (Finding FindingState PlatformInfo)

/-! ## The run -/

/-- What `run_scan` gathers of the machine and the project. -/
structure ScanFacts where
  platformInfo : PlatformInfo
  allowNetwork : Bool
  /-- `detect_frameworks(root)` -/
  frameworks : List FrameworkRequirement
  /-- `native_dependencies(root)` -/
  native : List NativeDependency
  tools : List ToolInstallation
  pathAnalysis : Option PathAnalysis
  containers : Option ContainerState
  wsl : Option WslState
  gpu : Option GpuStack
  activeManager : Option Str
  requirements : List ProjectRequirement
  lockfiles : List LockfileFacts
  policy : Option Policy

/-- `ctx.extra`: the map that the probes see. -/
def probeExtra (facts : ScanFacts) : Dict Str ExtraValue :=
  (((Dict.empty : Dict Str ExtraValue).set "allow_network" (.flag facts.allowNetwork)).set
    "framework_requirements" (.frameworks facts.frameworks)).set
    "native_dependencies" (.native facts.native)

/-- `rule_ctx`. -/
def ruleContext (facts : ScanFacts) : RuleContext where
  platformInfo := facts.platformInfo
  tools := facts.tools
  requirements := facts.requirements
  policy := facts.policy
  pathAnalysis := facts.pathAnalysis
  containers := facts.containers
  wsl := facts.wsl
  gpu := facts.gpu
  activeManager := facts.activeManager
  lockfiles := facts.lockfiles
  extra := .empty

variable (rt : RuleRuntime)

/-- The findings of the report.  `probes` is what the probes and plugins find on their
own, with the map that they see. -/
def scanFindings (probes : Dict Str ExtraValue → List Finding) (facts : ScanFacts) : List Finding :=
  evaluate rt (ruleContext facts) ++ probes (probeExtra facts)

/-! ## What is promised -/

/-- The findings about one framework requirement. -/
def AboutFramework (requirement : FrameworkRequirement) (f : Finding) : Prop :=
  f.ruleId ∈ [requirement.framework ++ lit "/runtime-missing",
    requirement.framework ++ lit "/runtime-too-old", requirement.framework ++ lit "/runtime-ok"] ∧
  f.component = some requirement.tool ∧ f.required = some requirement.required

/-- The findings about one native dependency. -/
def AboutNative (dependency : NativeDependency) (f : Finding) : Prop :=
  f.ruleId = dependency.name ++ lit "/needs-toolchain"

/-- The active version of a tool, if it has a readable one. -/
def activeVersion (facts : ScanFacts) (tool : Str) : Option Str :=
  ((activeTool facts.tools tool).bind ToolInstallation.version).filter fun version => version ≠ []

/-- The findings tell every framework requirement that is not met or is met, and every
native dependency. -/
structure Reported (facts : ScanFacts) (findings : List Finding) : Prop where
  absent : ∀ requirement ∈ facts.frameworks, activeTool facts.tools requirement.tool = none →
    ∃ f ∈ findings, AboutFramework requirement f ∧ f.state = .blocked
  below : ∀ requirement ∈ facts.frameworks, ∀ version ∈ activeVersion facts requirement.tool,
    satisfies rt.limits version requirement.required = some false →
      ∃ f ∈ findings, AboutFramework requirement f ∧ f.state = .blocked
  satisfied : ∀ requirement ∈ facts.frameworks, ∀ version ∈ activeVersion facts requirement.tool,
    satisfies rt.limits version requirement.required = some true →
      ∃ f ∈ findings, AboutFramework requirement f ∧ f.state = .pass
  native : ∀ dependency ∈ facts.native, ∃ f ∈ findings, AboutNative dependency f ∧ f.state = .info

/-! ## The pack, with the facts -/

variable {rt}

/-! ## The other packs -/

/-- The endings of the rules about frameworks and native dependencies. -/
def frameworkEndings : List Str :=
  ["/runtime-missing", "/runtime-too-old", "/runtime-ok", "/needs-toolchain"]

/-- The endings of all other rules. -/
def otherEndings : List Str :=
  ["/missing", "/version-unparseable", "/known-bad-version", "/version-ok", "/version-mismatch",
    "/multiple-versions", "/no-compiler", "/state-unknown", "/docker-missing",
    "/docker-daemon-unreachable", "/devcontainer-required", "/no-default-distro", "/interop-disabled",
    "/no-accelerator", "/cuda-toolkit-missing", "/manager-missing", "/format-unknown",
    "/format-supported", "/tool-too-old", "/runtime-spec-unparseable", "/runtime-mismatch",
    "/unreadable", "/coverage", "/known-advisory"]

/-- A finding of another rule. -/
def OtherRule (f : Finding) : Prop := ∃ ending ∈ otherEndings, ending <:+ f.ruleId

theorem OtherRule.ruleId_ne {f : Finding} (h : OtherRule f) {ending start : Str}
    (hending : ending ∈ frameworkEndings) : f.ruleId ≠ start ++ ending := by
  obtain ⟨other, hother, hsuffix⟩ := h
  have htable : otherEndings.all (fun other => frameworkEndings.all fun ending =>
      !other.isSuffixOf ending && !ending.isSuffixOf other) = true := by decide +kernel
  have hpair := List.all_eq_true.mp (List.all_eq_true.mp htable other hother) ending hending
  rw [Bool.and_eq_true, Bool.not_eq_true', Bool.not_eq_true'] at hpair
  intro heq
  have hstart : ending <:+ f.ruleId := by
    rw [heq]
    exact List.suffix_append _ _
  rcases List.suffix_or_suffix_of_suffix hsuffix hstart with h | h
  · rw [List.isSuffixOf_iff_suffix.mpr h] at hpair
    cases hpair.1
  · rw [List.isSuffixOf_iff_suffix.mpr h] at hpair
    cases hpair.2

/-- A rule of a fixed name. -/
theorem otherRule_of_ruleId {f : Finding} (id : Str) (hid : f.ruleId = id)
    (h : (otherEndings.any fun ending => ending.isSuffixOf id) = true) : OtherRule f := by
  obtain ⟨ending, hending, hsuffix⟩ := List.any_eq_true.mp h
  refine ⟨ending, hending, ?_⟩
  rw [hid]
  exact List.isSuffixOf_iff_suffix.mp hsuffix

theorem otherRule_check {ctx : RuleContext} {check : VersionRequirement} {f : Finding}
    (h : f ∈ checkFindings rt ctx check) : OtherRule f := by
  have hin : ∀ n, ∀ hn : n < otherEndings.length, otherEndings.get ⟨n, hn⟩ ∈ otherEndings :=
    fun n hn => List.get_mem _ _
  rcases mem_checkFindings_cases h with ⟨rfl, -⟩ | ⟨version, -, -, rfl | ⟨v, inRange, -, -, rfl | ⟨bad, -, -, rfl⟩⟩⟩
  · exact ⟨_, hin 0 (by decide), List.suffix_append _ _⟩
  · exact ⟨_, hin 1 (by decide), List.suffix_append _ _⟩
  · cases inRange with
    | true => exact ⟨_, hin 3 (by decide), List.suffix_append _ _⟩
    | false => exact ⟨_, hin 4 (by decide), List.suffix_append _ _⟩
  · exact ⟨_, hin 2 (by decide), List.suffix_append _ _⟩

/-- The rules of a fixed name. -/
def fixedRules : List Str :=
  ["lockfiles/unreadable", "lockfiles/manager-missing", "lockfiles/format-unknown",
    "lockfiles/format-supported", "lockfiles/tool-too-old", "lockfiles/runtime-spec-unparseable",
    "lockfiles/runtime-mismatch", "advisories/coverage"]

theorem otherRule_fixed {f : Finding} (h : f.ruleId ∈ fixedRules) : OtherRule f := by
  have htable : fixedRules.all (fun id => otherEndings.any fun ending => ending.isSuffixOf id) =
      true := by decide +kernel
  exact otherRule_of_ruleId _ rfl (List.all_eq_true.mp htable _ h)

theorem otherRule_lockfile {ctx : RuleContext} {f : Finding} (h : f ∈ evaluateLockfiles rt ctx) :
    OtherRule f := by
  refine otherRule_fixed ?_
  obtain ⟨fact, -, h⟩ := List.mem_flatMap.mp h
  split_ifs at h
  · rw [List.mem_singleton.mp h]
    exact List.mem_cons_self
  rcases List.mem_append.mp h with h | h
  · rcases (mem_formatFindings h).2 with ⟨hid, -⟩ | ⟨hid, -⟩ | ⟨hid, -⟩ | ⟨hid, -⟩
    all_goals simp [fixedRules, hid]
  · obtain ⟨runtime, -, ⟨hid, -⟩ | ⟨hid, -⟩⟩ := mem_lockedRuntimeFindings h
    all_goals simp [fixedRules, hid]

theorem otherRule_machine {f : Finding} (h : f.ruleId ∈ machineRules) : OtherRule f := by
  have htable : machineRules.all (fun id => otherEndings.any fun ending => ending.isSuffixOf id) =
      true := by decide +kernel
  exact otherRule_of_ruleId _ rfl (List.all_eq_true.mp htable _ h)

/-- Without an `extra` map, no finding is about a framework. -/
theorem otherRule_of_mem {facts : ScanFacts} {f : Finding} (h : f ∈ evaluate rt (ruleContext facts)) :
    OtherRule f := by
  rcases mem_evaluate.mp h with ⟨check, -, h⟩ | h | h | h | h | h | h | h | h
  · exact otherRule_check h
  · rw [evaluateAdvisories] at h
    rcases List.mem_cons.mp h with rfl | h
    · exact otherRule_fixed (by simp [fixedRules, coverageFinding])
    · obtain ⟨hit, -, rfl⟩ := List.mem_map.mp h
      exact ⟨lit "/known-advisory", by decide +kernel, List.suffix_append _ _⟩
  · exact otherRule_machine (mem_machineRules rt (Or.inl h))
  · exact otherRule_machine (mem_machineRules rt (Or.inr (Or.inl h)))
  · exact otherRule_machine (mem_machineRules rt (Or.inr (Or.inr (Or.inl h))))
  · cases h
  · exact otherRule_lockfile h
  · exact otherRule_machine (mem_machineRules rt (Or.inr (Or.inr (Or.inr (Or.inl h)))))
  · exact otherRule_machine (mem_machineRules rt (Or.inr (Or.inr (Or.inr (Or.inr h)))))

/-! ## The report -/

theorem not_aboutFramework {facts : ScanFacts} {requirement : FrameworkRequirement} {f : Finding}
    (h : f ∈ evaluate rt (ruleContext facts)) : ¬AboutFramework requirement f := by
  intro habout
  have hother := otherRule_of_mem h
  have hid := habout.1
  simp only [List.mem_cons, List.not_mem_nil, or_false] at hid
  rcases hid with hid | hid | hid
  · exact hother.ruleId_ne (by decide) hid
  · exact hother.ruleId_ne (by decide) hid
  · exact hother.ruleId_ne (by decide) hid

theorem not_aboutNative {facts : ScanFacts} {dependency : NativeDependency} {f : Finding}
    (h : f ∈ evaluate rt (ruleContext facts)) : ¬AboutNative dependency f :=
  (otherRule_of_mem h).ruleId_ne (by decide)

/-- A finding of the report that no rule pack makes is one of the probes. -/
theorem exists_scan_iff {probes : Dict Str ExtraValue → List Finding} {facts : ScanFacts}
    {p : Finding → Prop} (h : ∀ f ∈ evaluate rt (ruleContext facts), ¬p f) :
    (∃ f ∈ scanFindings rt probes facts, p f) ↔ ∃ f ∈ probes (probeExtra facts), p f := by
  constructor
  · rintro ⟨f, hf, hp⟩
    rcases List.mem_append.mp hf with hf | hf
    · exact absurd hp (h f hf)
    · exact ⟨f, hf, hp⟩
  · rintro ⟨f, hf, hp⟩
    exact ⟨f, List.mem_append_right _ hf, hp⟩

variable (rt) in
/-- The report of a scan tells the framework requirements and native dependencies
exactly when the probes tell them: the rule packs never do. -/
theorem reported_iff (probes : Dict Str ExtraValue → List Finding) (facts : ScanFacts) :
    Reported rt facts (scanFindings rt probes facts) ↔ Reported rt facts (probes (probeExtra facts)) := by
  have hframework : ∀ (requirement : FrameworkRequirement) (state : FindingState),
      (∃ f ∈ scanFindings rt probes facts, AboutFramework requirement f ∧ f.state = state) ↔
        ∃ f ∈ probes (probeExtra facts), AboutFramework requirement f ∧ f.state = state :=
    fun requirement state => exists_scan_iff fun f hf habout => not_aboutFramework hf habout.1
  have hnative : ∀ dependency : NativeDependency,
      (∃ f ∈ scanFindings rt probes facts, AboutNative dependency f ∧ f.state = .info) ↔
        ∃ f ∈ probes (probeExtra facts), AboutNative dependency f ∧ f.state = .info :=
    fun dependency => exists_scan_iff fun f hf habout => not_aboutNative hf habout.1
  constructor
  · intro h
    constructor
    · intro requirement hmem habsent
      exact (hframework _ _).mp (h.absent requirement hmem habsent)
    · intro requirement hmem version hversion hbelow
      exact (hframework _ _).mp (h.below requirement hmem version hversion hbelow)
    · intro requirement hmem version hversion hok
      exact (hframework _ _).mp (h.satisfied requirement hmem version hversion hok)
    · intro dependency hmem
      exact (hnative _).mp (h.native dependency hmem)
  · intro h
    constructor
    · intro requirement hmem habsent
      exact (hframework _ _).mpr (h.absent requirement hmem habsent)
    · intro requirement hmem version hversion hbelow
      exact (hframework _ _).mpr (h.below requirement hmem version hversion hbelow)
    · intro requirement hmem version hversion hok
      exact (hframework _ _).mpr (h.satisfied requirement hmem version hversion hok)
    · intro dependency hmem
      exact (hnative _).mpr (h.native dependency hmem)

/-- A project on Next.js 15, on a machine without tools. -/
def nextProject : ScanFacts where
  platformInfo := ⟨"Linux", "6.5", "x86_64", none, none, false⟩
  allowNetwork := false
  frameworks := [⟨"next", "15.0.0", "node", ">=18.18.0", "package.json",
    lit ("Next.js 15 requires Node 18.18.0 or newer. The `engines` field " ++
      "in a generated Next project usually does not say so, so a project " ++
      "declaring `>=18` and installing Next 15 is internally consistent and " ++
      "fails on Node 18.0 with a syntax error.")⟩]
  native := []
  tools := []
  pathAnalysis := none
  containers := none
  wsl := none
  gpu := none
  activeManager := none
  requirements := []
  lockfiles := []
  policy := none

/-- The missing runtime is not reported. -/
theorem next_unreported : ¬Reported .standard nextProject
    (scanFindings .standard (fun _ => []) nextProject) := by
  intro h
  obtain ⟨f, hf, habout, -⟩ := h.absent _ List.mem_cons_self rfl
  rw [scanFindings, List.append_nil] at hf
  exact not_aboutFramework hf habout

end DevRepro.Cli
