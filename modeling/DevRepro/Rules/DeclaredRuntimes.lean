import DevRepro.Rules.PolicyCoverage

/-!
# The runtimes that a project declares

The detectors of `project/detectors.py` give each declaration of a runtime as a
requirement, and the packs look the requirement up by its ecosystem and name.
`declaredEnforced_iff` says when, without a policy, every declared range is enforced: the
lookup stops at the first requirement of the pair, and some pairs nobody looks up.
-/

namespace DevRepro.Rules

open DevRepro.Python DevRepro.Lib DevRepro.Core DevRepro.Project DevRepro.Snapshots
open DevRepro.Mcp (Finding FindingState)

/-! ## The declarations of Node -/

/-- `_req`, for a runtime. -/
def runtimeReq (ecosystem name spec source : Str) (optional : Bool) : ProjectRequirement :=
  ⟨ecosystem, name, if spec = [] then lit "*" else spec, .runtime, source, optional, none⟩

/-- The requirement for one of the `engines`. -/
def engineReq (source name : Str) : Option Json → List ProjectRequirement
  | some (.str spec) => [runtimeReq "node" name spec source false]
  | _ => []

/-- The requirements of a section of `package.json`. -/
def sectionReqs (rt : Runtime) (source : Str) (data : Json) (name : Str) :
    Except Exc (List ProjectRequirement) := do
  match (← data.getD name .null).orElse (.obj []) with
  | .obj items =>
    items.mapM fun item => do
      return runtimeReq "node" item.1 (← item.2.toStr rt) source (name = lit "devDependencies")
  | other =>
    .error ⟨.attributeError, lit "'" ++ other.typeName ++ lit "' object has no attribute 'items'"⟩

/-- The requirements of `package.json`. -/
def packageReqs (rt : Runtime) (source text : Str) : Except Exc (List ProjectRequirement) := do
  let data ← loads rt.limits text
  let engines := (← data.getD "engines" .null).orElse (.obj [])
  let node := engineReq source "node" (← engines.get? "node")
  let npm := engineReq source "npm" (← engines.get? "npm")
  let dependencies ← sectionReqs rt source data "dependencies"
  let devDependencies ← sectionReqs rt source data "devDependencies"
  return node ++ npm ++ dependencies ++ devDependencies

/-- The requirement of `.nvmrc` or `.node-version`. -/
def pinReqs (source : Str) : Option Str → List ProjectRequirement
  | none => []
  | some text =>
    if strip text = [] then []
    else [runtimeReq "node" "node" ((strip text).dropWhile fun c => c = codePoint 'v') source false]

/-- `_node_deps`, for the files that `_read` finds in the project. -/
def nodeDeps (rt : Runtime) (root : Str) (read : Str → Option Str) :
    Except Exc (List ProjectRequirement) := do
  let package := root ++ lit "/package.json"
  let declared ← match read "package.json" with
    | none => pure []
    | some text => packageReqs rt package text
  return declared ++ pinReqs (root ++ lit "/.nvmrc") (read ".nvmrc") ++
    pinReqs (root ++ lit "/.node-version") (read ".node-version")

/-! ## What a project declares -/

/-- Each runtime with the ecosystem and the name of its declarations. -/
def declarations : List (Str × Str × Str) :=
  [("python", "python", "python"), ("node", "node", "node"), ("npm", "node", "npm"),
    ("go", "go", "go"), ("rustc", "rust", "rustc"), ("java", "java", "java"),
    ("dotnet", "dotnet", "dotnet"), ("dotnet", "dotnet", "dotnet-sdk"), ("php", "php", "php"),
    ("ruby", "ruby", "ruby")]

/-- A requirement declares a runtime. -/
def Declares (runtime : Str) (r : ProjectRequirement) : Prop :=
  (runtime, r.ecosystem, r.name) ∈ declarations

variable (rt : RuleRuntime) (ctx : RuleContext)

/-- The active version of a tool is within a range. -/
def Inside (tools : List ToolInstallation) (entry : Str × Str) : Prop :=
  ∃ v ∈ activeVersion rt tools entry.1, inSpec rt.limits entry.2 v = some true

/-- The context of a scan without a policy. -/
def unpoliced : RuleContext := { ctx with policy := none }

/-- The engine finds the version of a tool in order. -/
def HasVersionOk (name : Str) : Prop :=
  ∃ f ∈ evaluate rt ctx, f.component = some name ∧ ∃ pack : Str, f.ruleId = pack ++ lit "/version-ok"

/-- Every declared range is enforced. -/
structure DeclaredEnforced : Prop where
  outside : ∀ runtime, ∀ r ∈ ctx.requirements, Declares runtime r →
    Outside rt ctx.tools (runtime, r.spec) → HasError rt (unpoliced ctx) runtime
  versionOk : ∀ runtime, HasVersionOk rt (unpoliced ctx) runtime →
    ∀ r ∈ ctx.requirements, Declares runtime r → (parseSpec rt.limits r.spec).isSome = true →
      Inside rt ctx.tools (runtime, r.spec)

/-! ## What the packs look up -/

/-- The pairs that the packs look up: the ecosystem, and the tool of the same name. -/
def lookedUp : List (Str × Str) :=
  [("node", "node"), ("python", "python"), ("dotnet", "dotnet"), ("go", "go"), ("java", "java"),
    ("rust", "rustc"), ("cpp", "cmake"), ("node", "npm")]

/-- The requirement that decides on a tool: the first of the pair that a pack looks up. -/
def Decides (name : Str) (first : ProjectRequirement) : Prop :=
  ∃ pack, (pack, name) ∈ lookedUp ∧ requirementFor ctx pack name = some first

/-- The first declaration stands for all of them. -/
structure FirstDecides : Prop where
  outside : ∀ runtime, ∀ r ∈ ctx.requirements, Declares runtime r →
    Outside rt ctx.tools (runtime, r.spec) →
      (∃ first, Decides ctx runtime first ∧ Outside rt ctx.tools (runtime, first.spec)) ∨
        LockfileFails rt ctx runtime
  inside : ∀ runtime first, Decides ctx runtime first → Inside rt ctx.tools (runtime, first.spec) →
    ∀ r ∈ ctx.requirements, Declares runtime r → (parseSpec rt.limits r.spec).isSome = true →
      Inside rt ctx.tools (runtime, r.spec)

variable {rt ctx}

theorem runtimeSpec_unpoliced {pack tool spec source : Str} :
    runtimeSpec (unpoliced ctx) pack tool none = some (spec, source) ↔
      ∃ r, requirementFor ctx pack tool = some r ∧ r.spec = spec ∧ r.sourceFile = source := by
  have hspec : runtimeSpec (unpoliced ctx) pack tool none =
      (requirementFor ctx pack tool).map fun r => (r.spec, r.sourceFile) := rfl
  rw [hspec, Option.map_eq_some_iff]
  simp only [Prod.mk.injEq]

/-- The pairs that a pack looks up always, under its guard, and when they are declared. -/
theorem mem_lookedUp {pair : Str × Str} : pair ∈ lookedUp ↔
    pair ∈ [(lit "node", lit "node"), (lit "python", lit "python")] ∨
      pair ∈ [(lit "dotnet", lit "dotnet"), (lit "go", lit "go"), (lit "java", lit "java"),
        (lit "rust", lit "rustc")] ∨
      pair ∈ [(lit "cpp", lit "cmake"), (lit "node", lit "npm")] := by
  have hsplit : lookedUp = [(lit "node", lit "node"), (lit "python", lit "python")] ++
      ([(lit "dotnet", lit "dotnet"), (lit "go", lit "go"), (lit "java", lit "java"),
        (lit "rust", lit "rustc")] ++ [(lit "cpp", lit "cmake"), (lit "node", lit "npm")]) := rfl
  rw [hsplit, List.mem_append, List.mem_append]

/-- Without a policy, the packs hold a tool to what the first requirement says. -/
theorem heldTo_unpoliced_iff {name spec : Str} :
    HeldTo (unpoliced ctx) name spec ↔ ∃ first, Decides ctx name first ∧ first.spec = spec := by
  constructor
  · intro h
    have hdecides : ∀ {pack source : Str}, (pack, name) ∈ lookedUp →
        runtimeSpec (unpoliced ctx) pack name none = some (spec, source) →
          ∃ first, Decides ctx name first ∧ first.spec = spec := by
      intro pack source hpack hspec
      obtain ⟨r, hfirst, hr, -⟩ := runtimeSpec_unpoliced.mp hspec
      exact ⟨r, ⟨pack, hpack, hfirst⟩, hr⟩
    cases h with
    | always hpack hspec => exact hdecides (mem_lookedUp.mpr (Or.inl hpack)) hspec
    | wanted hpack hwanted hspec => exact hdecides (mem_lookedUp.mpr (Or.inr (Or.inl hpack))) hspec
    | declared hpack hdeclared hspec => exact hdecides (mem_lookedUp.mpr (Or.inr (Or.inr hpack))) hspec
    | git hpolicy hspec => cases hpolicy
    | docker hpolicy hstate hspec => cases hpolicy
  · rintro ⟨first, ⟨pack, hpack, hfirst⟩, rfl⟩
    have hspec := runtimeSpec_unpoliced.mpr ⟨first, hfirst, rfl, rfl⟩
    -- The guards of the packs ask for a requirement, and there is one.
    have hwanted : wanted (unpoliced ctx) pack pack = true := by
      rw [wanted, Bool.or_eq_true, List.any_eq_true]
      have hfound := List.find?_some hfirst
      rw [decide_eq_true_iff] at hfound
      exact Or.inl ⟨first, List.mem_of_find?_eq_some hfirst, decide_eq_true hfound.1⟩
    have hdeclared : (requirementFor (unpoliced ctx) pack name).isSome = true :=
      Option.isSome_iff_exists.mpr ⟨first, hfirst⟩
    rcases mem_lookedUp.mp hpack with halways | hguarded | hrest
    · exact .always halways hspec
    · exact .wanted hguarded hwanted hspec
    · exact .declared hrest hdeclared hspec

/-! ## The versions in order -/

/-- A rule whose name has another ending. -/
theorem other_ending {start ending pack : Str} (h : (lit "/version-ok").isSuffixOf ending = false)
    (h' : ending.isSuffixOf (lit "/version-ok") = false) : start ++ ending ≠ pack ++ lit "/version-ok" := by
  intro heq
  have hending : ending <:+ pack ++ lit "/version-ok" := by
    rw [← heq]
    exact List.suffix_append _ _
  rcases List.suffix_or_suffix_of_suffix hending (List.suffix_append pack _) with hsuffix | hsuffix
  · rw [List.isSuffixOf_iff_suffix.mpr hsuffix] at h'
    cases h'
  · rw [List.isSuffixOf_iff_suffix.mpr hsuffix] at h
    cases h

/-- A rule of a fixed name. -/
theorem other_rule {f : Finding} {id pack : Str} (hid : f.ruleId = id)
    (h : (lit "/version-ok").isSuffixOf id = false) : f.ruleId ≠ pack ++ lit "/version-ok" := by
  intro heq
  rw [List.isSuffixOf_iff_suffix.mpr ⟨pack, (hid.symm.trans heq).symm⟩] at h
  cases h

theorem frameworkFinding_ruleId {tools : List ToolInstallation} {requirement : FrameworkRequirement}
    {f : Finding} (h : frameworkFinding rt tools requirement = some f) (pack : Str) :
    f.ruleId ≠ pack ++ lit "/version-ok" := by
  rw [frameworkFinding] at h
  split at h
  · cases h
    exact other_ending (by decide +kernel) (by decide +kernel)
  · cases h
    exact other_ending (by decide +kernel) (by decide +kernel)
  · split at h
    · cases h
    · cases h
      exact other_ending (by decide +kernel) (by decide +kernel)
    · cases h
      exact other_ending (by decide +kernel) (by decide +kernel)

/-- Only a check finds a version in order. -/
theorem check_of_versionOk {f : Finding} {pack : Str} (h : f ∈ evaluate rt ctx)
    (hid : f.ruleId = pack ++ lit "/version-ok") :
    ∃ check ∈ checks ctx, f ∈ checkFindings rt ctx check := by
  have hmachine : f.ruleId ∉ machineRules := by
    intro hmem
    have htable : machineRules.all (fun id => !(lit "/version-ok").isSuffixOf id) = true := by
      decide +kernel
    have hrule := List.all_eq_true.mp htable _ hmem
    rw [Bool.not_eq_true'] at hrule
    exact other_rule rfl hrule hid
  rcases mem_evaluate.mp h with hcheck | h | h | h | h | h | h | h | h
  · exact hcheck
  · rw [evaluateAdvisories] at h
    rcases List.mem_cons.mp h with rfl | h
    · exact absurd hid (other_rule (show _ = lit "advisories/coverage" from rfl) (by decide +kernel))
    · obtain ⟨hit, -, rfl⟩ := List.mem_map.mp h
      exact absurd hid (other_ending (by decide +kernel) (by decide +kernel))
  · exact absurd (mem_machineRules rt (Or.inl h)) hmachine
  · exact absurd (mem_machineRules rt (Or.inr (Or.inl h))) hmachine
  · exact absurd (mem_machineRules rt (Or.inr (Or.inr (Or.inl h)))) hmachine
  · rw [evaluateFrameworks] at h
    rcases List.mem_append.mp h with h | h
    · split at h
      · obtain ⟨requirement, -, hfinding⟩ := List.mem_filterMap.mp h
        exact absurd hid (frameworkFinding_ruleId hfinding pack)
      · cases h
    · split at h
      · obtain ⟨dependency, -, rfl⟩ := List.mem_map.mp h
        exact absurd hid (other_ending (by decide +kernel) (by decide +kernel))
      · cases h
  · obtain ⟨fact, -, h⟩ := List.mem_flatMap.mp h
    split_ifs at h
    · rw [List.mem_singleton.mp h] at hid
      exact absurd hid (other_rule (show _ = lit "lockfiles/unreadable" from rfl) (by decide +kernel))
    rcases List.mem_append.mp h with h | h
    · rcases (mem_formatFindings h).2 with ⟨hrule, -⟩ | ⟨hrule, -⟩ | ⟨hrule, -⟩ | ⟨hrule, -⟩
      · exact absurd hid (other_rule hrule (by decide +kernel))
      · exact absurd hid (other_rule hrule (by decide +kernel))
      · exact absurd hid (other_rule hrule (by decide +kernel))
      · exact absurd hid (other_rule hrule (by decide +kernel))
    · obtain ⟨runtime, -, ⟨hrule, -⟩ | ⟨hrule, -⟩⟩ := mem_lockedRuntimeFindings h
      · exact absurd hid (other_rule hrule (by decide +kernel))
      · exact absurd hid (other_rule hrule (by decide +kernel))
  · exact absurd (mem_machineRules rt (Or.inr (Or.inr (Or.inr (Or.inl h))))) hmachine
  · exact absurd (mem_machineRules rt (Or.inr (Or.inr (Or.inr (Or.inr h))))) hmachine

theorem parseVersion_nil (limits : Limits) : parseVersion limits [] = none := rfl

/-- The active version is the one that a check looks at, parsed. -/
theorem mem_activeVersion {name : Str} {v : Version} :
    v ∈ activeVersion rt ctx.tools name ↔
      ∃ version ∈ checkedVersion ctx name, parseVersion rt.limits version = some v := by
  rw [activeVersion, Option.mem_def, Option.bind_eq_some_iff]
  constructor
  · rintro ⟨version, hversion, hparse⟩
    refine ⟨version, mem_checkedVersion.mpr ⟨hversion, ?_⟩, hparse⟩
    rintro rfl
    rw [parseVersion_nil] at hparse
    cases hparse
  · rintro ⟨version, hversion, hparse⟩
    exact ⟨version, (mem_checkedVersion.mp hversion).1, hparse⟩

/-- The engine finds a version in order exactly when the packs hold the tool to a range
that the version is within. -/
theorem hasVersionOk_iff {name : Str} :
    HasVersionOk rt ctx name ↔ ∃ spec, HeldTo ctx name spec ∧ Inside rt ctx.tools (name, spec) := by
  constructor
  · rintro ⟨f, hf, hname, pack, hid⟩
    obtain ⟨check, hmem, hfinding⟩ := check_of_versionOk hf hid
    have hholds := holds_of_mem_checks hmem
    rcases mem_checkFindings_cases hfinding with ⟨rfl, -⟩ | ⟨version, hversion, hne, rfl |
      ⟨v, inRange, hparse, hspec, rfl | ⟨bad, -, -, rfl⟩⟩⟩
    · exact absurd hid (other_ending (by decide +kernel) (by decide +kernel))
    · exact absurd hid (other_ending (by decide +kernel) (by decide +kernel))
    · cases inRange with
      | true =>
        obtain rfl : check.toolName = name := Option.some.inj hname
        exact ⟨check.requiredSpec, hholds.held, v,
          mem_activeVersion.mpr ⟨version, mem_checkedVersion.mpr ⟨hversion, hne⟩, hparse⟩, hspec⟩
      | false => exact absurd hid (other_ending (by decide +kernel) (by decide +kernel))
    · exact absurd hid (other_ending (by decide +kernel) (by decide +kernel))
  · rintro ⟨spec, hheld, v, hactive, hspec⟩
    obtain ⟨check, hmem, rfl, rfl⟩ := hheld.exists_check
    obtain ⟨version, hversion, hparse⟩ := mem_activeVersion.mp hactive
    obtain ⟨hbind, hne⟩ := mem_checkedVersion.mp hversion
    refine ⟨check.verdict version true, mem_evaluate.mpr (Or.inl ⟨check, hmem, ?_⟩), rfl,
      check.rulePrefix, rfl⟩
    rw [checkFindings, checkVersionRequirement, hbind]
    dsimp only
    rw [Option.getD_some, if_neg hne, hparse]
    dsimp only
    rw [hspec]
    exact List.mem_append_right _ (List.mem_singleton_self _)

/-! ## Every declaration -/

/-- Without a policy, a check fails where the deciding requirement is not met. -/
theorem checkFails_unpoliced_iff {name : Str} :
    CheckFails rt (unpoliced ctx) name ↔
      ∃ first, Decides ctx name first ∧ Outside rt ctx.tools (name, first.spec) := by
  constructor
  · rintro ⟨spec, hheld, version, hversion, v, inRange, hparse, hspec, rfl | ⟨bad, hbad, -⟩⟩
    · obtain ⟨first, hfirst, rfl⟩ := heldTo_unpoliced_iff.mp hheld
      exact ⟨first, hfirst, v, mem_activeVersion.mpr ⟨version, hversion, hparse⟩, hspec⟩
    · cases hbad
  · rintro ⟨first, hfirst, v, hactive, hspec⟩
    obtain ⟨version, hversion, hparse⟩ := mem_activeVersion.mp hactive
    exact ⟨first.spec, heldTo_unpoliced_iff.mpr ⟨first, hfirst, rfl⟩, version, hversion, v, false, hparse,
      hspec, Or.inl rfl⟩

variable (rt ctx) in
/-- Every declared range is enforced exactly when the first declaration that a pack looks
up stands for all of them. -/
theorem declaredEnforced_iff : DeclaredEnforced rt ctx ↔ FirstDecides rt ctx := by
  constructor
  · intro h
    constructor
    · intro runtime r hr hdeclares hout
      rcases hasError_iff.mp (h.outside runtime r hr hdeclares hout) with hcheck | hlockfile
      · exact Or.inl (checkFails_unpoliced_iff.mp hcheck)
      · exact Or.inr hlockfile
    · intro runtime first hfirst hinside
      exact h.versionOk runtime
        (hasVersionOk_iff.mpr ⟨first.spec, heldTo_unpoliced_iff.mpr ⟨first, hfirst, rfl⟩, hinside⟩)
  · intro h
    constructor
    · intro runtime r hr hdeclares hout
      rcases h.outside runtime r hr hdeclares hout with hfirst | hlockfile
      · exact hasError_iff.mpr (Or.inl (checkFails_unpoliced_iff.mpr hfirst))
      · exact hasError_iff.mpr (Or.inr hlockfile)
    · intro runtime hok
      obtain ⟨spec, hheld, hinside⟩ := hasVersionOk_iff.mp hok
      obtain ⟨first, hfirst, rfl⟩ := heldTo_unpoliced_iff.mp hheld
      exact h.inside runtime first hfirst hinside

/-- A project whose `engines` and `.nvmrc` disagree. -/
def twoPins (name : Str) : Option Str :=
  if name = lit "package.json" then some (lit "\x7b\"engines\": \x7b\"node\": \">=18\"\x7d\x7d")
  else if name = lit ".nvmrc" then some "22"
  else none

/-- The requirements of that project. -/
def twoPinsReqs : List ProjectRequirement :=
  [runtimeReq "node" "node" ">=18" "app/package.json" false,
    runtimeReq "node" "node" "22" "app/.nvmrc" false]

/-- A machine with Node 20 in the project. -/
def twoPinsContext : RuleContext :=
  { bareContext with
    requirements := twoPinsReqs
    tools := [⟨"node", some "20.11.0", some "/usr/bin/node", none, true, some 0⟩] }

/-- The second pin is not looked at. -/
theorem second_pin_unenforced :
    nodeDeps .standard "app" twoPins = .ok twoPinsReqs ∧
      ¬DeclaredEnforced .standard twoPinsContext := by
  refine ⟨rfl, fun h => ?_⟩
  have hout : Outside .standard twoPinsContext.tools (lit "node", lit "22") :=
    ⟨⟨[20, 11, 0], none⟩, by decide +kernel, by decide +kernel⟩
  obtain ⟨f, hf, hname, hstate⟩ := h.outside (lit "node")
    (runtimeReq "node" "node" "22" "app/.nvmrc" false) (List.mem_cons_of_mem _ List.mem_cons_self)
    (by rw [Declares]; decide +kernel) hout
  have hnone : ((evaluate .standard (unpoliced twoPinsContext)).all fun f =>
      decide (f.state ≠ .error)) = true := by decide +kernel
  exact of_decide_eq_true (List.all_eq_true.mp hnone f hf) hstate

end DevRepro.Rules
