import DevRepro.Project.Policy
import DevRepro.Python.Words
import DevRepro.Rules.Base

/-!
# The rule packs

`rules/packs/` and the engine of `rules/base.py`: the findings of the thirteen built-in
packs for a context.

The packs that look at versions do so through `check_version_requirement`; their checks
are the `VersionRequirement`s that `runtimeCheck` and `toolCheck` give.
-/

namespace DevRepro.Rules

open DevRepro.Python DevRepro.Lib DevRepro.Core DevRepro.Project DevRepro.Snapshots
open DevRepro.Mcp (Finding FindingState Evidence PlatformInfo)

/-! ## Contexts -/

/-- What a framework requires of the machine. -/
structure FrameworkRequirement where
  framework : Str
  version : Str
  tool : Str
  required : Str
  source : Str
  detail : Str

/-- A dependency whose installation needs a toolchain. -/
structure NativeDependency where
  name : Str
  source : Str
  needs : Str
  why : Str

/-- A value of an `extra` map. -/
inductive ExtraValue where
  | flag (b : Bool)
  | names (names : List Str)
  | frameworks (requirements : List FrameworkRequirement)
  | native (dependencies : List NativeDependency)

/-- The facts of a lockfile, as far as the packs read them. -/
structure LockfileFacts where
  path : Str
  tool : Str
  formatVersion : Option Str
  minimumTool : Option Str
  requiresRuntime : Option (Str × Str)
  note : Str
  unreadable : Bool

/-- `RuleContext`. -/
structure RuleContext where
  platformInfo : PlatformInfo
  tools : List ToolInstallation
  requirements : List ProjectRequirement
  policy : Option Policy
  pathAnalysis : Option PathAnalysis
  containers : Option ContainerState
  wsl : Option WslState
  gpu : Option GpuStack
  activeManager : Option Str
  lockfiles : List LockfileFacts
  extra : Dict Str ExtraValue

/-- What the packs take from the interpreter, next to the rest. -/
structure RuleRuntime extends Runtime where
  /-- `str.lower`. -/
  lower : Str → Str

/-- ASCII letters alone, for evaluation. -/
def RuleRuntime.standard : RuleRuntime where
  toRuntime := .standard
  lower := fun s => s.map fun c => if 0x41 ≤ c.val ∧ c.val ≤ 0x5A then c + 0x20 else c

/-- A `str | None` in an f-string. -/
def noneText (s : Option Str) : Str := s.getD "None"

/-- `not s`, for a `str | None`. -/
def isBlank (s : Option Str) : Bool := decide (s.getD [] = [])

/-- The evidence from a file. -/
def fileEvidence (path excerpt : Str) : List Evidence := [⟨"file", none, some path, some excerpt, true⟩]

variable (rt : RuleRuntime) (ctx : RuleContext)

/-! ## Checks of a version -/

/-- `requirement_for`. -/
def requirementFor (ecosystem name : Str) : Option ProjectRequirement :=
  ctx.requirements.find? fun r => r.ecosystem = ecosystem ∧ r.name = name

/-- The range of `runtime_findings` and where it comes from. -/
def runtimeSpec (pack tool : Str) (policyKey : Option Str) : Option (Str × Str) :=
  let declared := (requirementFor ctx pack tool).map fun r => (r.spec, r.sourceFile)
  match ctx.policy.bind fun p => p.requiredRuntimes.get? (policyKey.getD tool) with
  | none | some [] => declared
  | some policySpec =>
    match declared with
    | none => some (policySpec, ".devrepro.toml")
    | some (spec, source) =>
      some (if spec = lit "*" then policySpec else spec, if source = [] then ".devrepro.toml" else source)

/-- The known bad versions that a policy lists for a name. -/
def knownBadOf (name : Str) : List Str :=
  (ctx.policy.bind fun p => p.knownBadVersions.get? name).getD []

/-- The check that `runtime_findings` makes. -/
def runtimeCheck (pack tool : Str) (policyKey : Option Str) (missingState : FindingState) :
    Option VersionRequirement :=
  (runtimeSpec ctx pack tool policyKey).map fun (spec, source) =>
    ⟨pack, tool, spec, knownBadOf ctx (policyKey.getD tool), source, missingState,
      tool ++ lit " --version resolved via PATH"⟩

/-- The check that `tool_findings` makes. -/
def toolCheck (pack tool : Str) (missingState : FindingState) : Option VersionRequirement :=
  (ctx.policy.bind fun p => p.requiredTools.get? tool).map fun spec =>
    ⟨pack, tool, spec, knownBadOf ctx tool, ".devrepro.toml [required_tools]", missingState,
      tool ++ lit " --version resolved via PATH"⟩

/-- The findings of a check. -/
def checkFindings (check : VersionRequirement) : List Finding :=
  checkVersionRequirement rt.toRuntime check (activeTool ctx.tools check.toolName)

/-- A requirement of the ecosystem, or a range of the policy for the runtime. -/
def wanted (ecosystem policyName : Str) : Bool :=
  (ctx.requirements.any fun r => r.ecosystem = ecosystem) ||
    !isBlank (ctx.policy.bind fun p => p.requiredRuntimes.get? policyName)

/-! ## The packs of the ecosystems -/

/-- `sorted({t.version for t in installs if t.version})` -/
def pythonVersions : List Str :=
  ((ctx.tools.filter fun t => t.name = lit "python").filterMap fun t =>
    t.version.filter fun version => version ≠ []).dedup.mergeSort strLe

def multipleVersions (versions : List Str) : Finding :=
  let active := activeTool ctx.tools "python"
  ⟨"python/multiple-versions", .warn,
    lit "Multiple Python versions installed: " ++ join ", " versions ++ lit ". Active: " ++
      ((active.map fun t => noneText t.version).getD "?") ++ lit " (" ++
      ((active.map fun t => noneText t.installSource).getD "?") ++ lit ").",
    [⟨"command", none, none, some "which -a python / where python", true⟩],
    some (join ", " versions), none, some "python",
    some (lit ("Use pyenv/uv to pin per-project versions; keep one " ++
      "system-wide install. See `devrepro which --all python`.")), [], none⟩

def pythonChecks : List VersionRequirement := (runtimeCheck ctx "python" "python" none .blocked).toList

/-- `evaluate` of the pack `python`. -/
def evaluatePython : List Finding :=
  (pythonChecks ctx).flatMap (checkFindings rt ctx) ++
    if 1 < (pythonVersions ctx).length then [multipleVersions ctx (pythonVersions ctx)] else []

def nodeChecks : List VersionRequirement :=
  (runtimeCheck ctx "node" "node" none .blocked).toList ++
    (if ctx.requirements.any fun r => r.ecosystem = lit "node" ∧ r.name = lit "npm" then
        (runtimeCheck ctx "node" "npm" none .blocked).toList
      else []) ++
    (toolCheck ctx "node" "git" .warn).toList

/-- `evaluate` of the pack `node`. -/
def evaluateNode : List Finding := (nodeChecks ctx).flatMap (checkFindings rt ctx)

/-- The checks of a pack that looks at one runtime of its ecosystem. -/
def ecosystemChecks (pack tool : Str) : List VersionRequirement :=
  if wanted ctx pack pack then (runtimeCheck ctx pack tool none .blocked).toList else []

def dotnetChecks : List VersionRequirement := ecosystemChecks ctx "dotnet" "dotnet"

/-- `evaluate` of the pack `dotnet`. -/
def evaluateDotnet : List Finding := (dotnetChecks ctx).flatMap (checkFindings rt ctx)

def javaChecks : List VersionRequirement := ecosystemChecks ctx "java" "java"

/-- `evaluate` of the pack `java`. -/
def evaluateJava : List Finding := (javaChecks ctx).flatMap (checkFindings rt ctx)

def goChecks : List VersionRequirement := ecosystemChecks ctx "go" "go"

/-- `evaluate` of the pack `go`. -/
def evaluateGo : List Finding := (goChecks ctx).flatMap (checkFindings rt ctx)

def rustChecks : List VersionRequirement := ecosystemChecks ctx "rust" "rustc"

/-- `evaluate` of the pack `rust`: the guard asks the policy for `rust`, the check for `rustc`. -/
def evaluateRust : List Finding := (rustChecks ctx).flatMap (checkFindings rt ctx)

def cppChecks : List VersionRequirement :=
  if (requirementFor ctx "cpp" "cmake").isSome then
    (runtimeCheck ctx "cpp" "cmake" none .blocked).toList
  else []

def noCompiler : Finding :=
  ⟨"cpp/no-compiler", .blocked,
    "C/C++ project present but no compiler (gcc/clang/MSVC cl) found on PATH.",
    [⟨"command", none, none, some "checked gcc, clang, cl on PATH", true⟩], none, none, some "cpp",
    some (lit ("Install a toolchain: MSVC Build Tools (Windows), " ++
      "build-essential (Debian/Ubuntu), Xcode CLT (macOS).")), [], none⟩

/-- `evaluate` of the pack `cpp`. -/
def evaluateCpp : List Finding :=
  if ctx.requirements.any fun r => r.ecosystem = lit "cpp" then
    (cppChecks ctx).flatMap (checkFindings rt ctx) ++
      if ctx.tools.any fun t => decide (t.name ∈ [lit "gcc", lit "clang", lit "cl"]) then []
      else [noCompiler]
  else []

/-! ## Containers -/

/-- `needs_docker` -/
def needsDocker : Bool :=
  (ctx.requirements.any fun r => r.ecosystem = lit "container") ||
    ctx.policy.any fun p => p.containers.requireDevcontainer || p.containers.requireCompose ||
      p.requiredTools.contains "docker"

def stateUnknown : Finding :=
  ⟨"containers/state-unknown", .unknown,
    "Container requirements exist but container probe data is unavailable.",
    [⟨"system", none, none, some "no container probe result", true⟩], none, none, some "docker", none,
    [], none⟩

def dockerMissing : Finding :=
  ⟨"containers/docker-missing", .blocked,
    "Project requires containers but neither Docker nor Podman CLI found.",
    [⟨"command", none, none, some "docker --version / podman --version", true⟩], none, none,
    some "docker",
    some (lit ("Install Docker Desktop (or Podman) — MEDIUM risk; " ++
      "DevRepro will not install it automatically.")), [], none⟩

def daemonUnreachable (state : ContainerState) : Finding :=
  ⟨"containers/docker-daemon-unreachable", .blocked,
    lit "Docker CLI " ++ noneText state.dockerCliVersion ++ lit " present but daemon unreachable. " ++
      join "; " state.errors,
    [⟨"command", some ["docker", "info"], none, some "daemon did not respond", true⟩], none, none,
    some "docker", some "Start Docker Desktop / systemctl start docker, then re-scan.", [], none⟩

def devcontainerRequired : Finding :=
  ⟨"containers/devcontainer-required", .warn,
    "Policy requires a devcontainer definition but none was found.",
    fileEvidence ".devcontainer/devcontainer.json" "not found", none, none, some "devcontainer",
    some "Add .devcontainer/devcontainer.json to the repository.", [], none⟩

/-- What the pack says about the engine. -/
def engineFindings (state : ContainerState) : List Finding :=
  if isBlank state.dockerCliVersion && isBlank state.podmanVersion then [dockerMissing]
  else if !state.dockerDaemonOk && !isBlank state.dockerCliVersion then [daemonUnreachable state]
  else []

/-- The policy wants a devcontainer that the project lacks. -/
def lacksDevcontainer : Bool :=
  ctx.policy.any (fun p => p.containers.requireDevcontainer) &&
    !ctx.requirements.any fun r => r.ecosystem = lit "container" ∧ r.name = lit "devcontainer"

def containerChecks : List VersionRequirement :=
  if needsDocker ctx && ctx.containers.isSome then (toolCheck ctx "containers" "docker" .warn).toList
  else []

/-- `evaluate` of the pack `containers`. -/
def evaluateContainers : List Finding :=
  if needsDocker ctx then
    match ctx.containers with
    | none => [stateUnknown]
    | some state =>
      engineFindings state ++ (if lacksDevcontainer ctx then [devcontainerRequired] else []) ++
        (containerChecks ctx).flatMap (checkFindings rt ctx)
  else []

/-! ## WSL and accelerators -/

def noDefaultDistro : Finding :=
  ⟨"wsl/no-default-distro", .warn, "WSL distros exist but no default is set.",
    [⟨"command", some ["wsl", "--status"], none, some "default distro unset", true⟩], none, none,
    some "wsl", some "`wsl --set-default <distro>` (SAFE).", [], none⟩

def interopDisabled : Finding :=
  ⟨"wsl/interop-disabled", .warn,
    "WSL interop appears disabled; Windows/Linux tool mixing will fail.",
    [⟨"command", some ["wsl", "-e", "test", "-e", "/init"], none, some "interop check failed", true⟩],
    none, none, some "wsl",
    some (lit ("Enable interop in /etc/wsl.conf ([interop] enabled=true), " ++
      "then `wsl --shutdown`. LOW risk.")), [], none⟩

/-- `evaluate` of the pack `wsl`. -/
def evaluateWsl : List Finding :=
  match ctx.wsl with
  | none => []
  | some wsl =>
    if wsl.available then
      (if wsl.defaultDistro.isNone && !wsl.distros.isEmpty then [noDefaultDistro] else []) ++
        if wsl.interopEnabled = some false then [interopDisabled] else []
    else []

/-- `ai_reqs` is not empty. -/
def needsAi : Bool :=
  ctx.requirements.any fun r =>
    (decide (r.ecosystem = lit "python") || decide (r.ecosystem = lit "generic")) &&
      [lit "torch", lit "tensorflow", lit "cuda", lit "onnxruntime", lit "jax"].any
        (containsText (rt.lower r.name))

def gpuUnknown : Finding :=
  ⟨"gpu/state-unknown", .unknown, "AI dependencies declared but GPU stack could not be probed.",
    [⟨"system", none, none, some "no gpu probe result", true⟩], none, none, some "gpu", none, [], none⟩

def noAccelerator : Finding :=
  ⟨"gpu/no-accelerator", .warn,
    lit ("AI frameworks are project dependencies but no GPU/AI accelerator " ++
      "stack was detected; training/inference will fall back to CPU."),
    [⟨"command", none, none, some "nvidia-smi/rocminfo/sycl-ls all absent", true⟩], none, none,
    some "gpu", none, [], none⟩

def cudaMissing (driver : Str) : Finding :=
  ⟨"gpu/cuda-toolkit-missing", .info,
    lit "NVIDIA driver " ++ driver ++ lit (" present but CUDA toolkit (nvcc) " ++
      "not found — building CUDA extensions from source will fail."),
    [⟨"command", some ["nvcc", "--version"], none, some "nvcc not found", true⟩], none, none,
    some "cuda",
    some (lit "Install the CUDA toolkit matching your framework's supported versions (MEDIUM risk)."),
    [], none⟩

/-- `evaluate` of the pack `ai-gpu`. -/
def evaluateAiGpu : List Finding :=
  match ctx.gpu with
  | none => if needsAi rt ctx then [gpuUnknown] else []
  | some gpu =>
    (if needsAi rt ctx && isBlank gpu.nvidiaDriver && isBlank gpu.rocm && isBlank gpu.oneapi &&
        isBlank gpu.metal then [noAccelerator] else []) ++
      if !isBlank gpu.nvidiaDriver && gpu.cudaToolkit.isNone && needsAi rt ctx then
        [cudaMissing (gpu.nvidiaDriver.getD [])]
      else []

/-! ## Lockfiles -/

/-- `parse_spec(spec).satisfied_by(parse_version(version))`, or nothing for a `ValueError`. -/
def versionInSpec (spec version : Str) : Option Bool :=
  (parseSpec rt.limits spec).bind fun groups =>
    (parseVersion rt.limits version).map fun v => groups.any fun group => group.all (satisfiedBy v)

/-- `_format_findings`. -/
def formatFindings (fact : LockfileFacts) : List Finding :=
  if isBlank fact.minimumTool then []
  else
    let minimum := fact.minimumTool.getD []
    let described := fact.path ++ lit " is format " ++ noneText fact.formatVersion
    let evidence := fileEvidence fact.path (if fact.note = [] then described else fact.note)
    match activeTool ctx.tools fact.tool with
    | none =>
      [⟨"lockfiles/manager-missing", .warn,
        fact.path ++ lit " is a " ++ fact.tool ++ lit " lockfile, but " ++ fact.tool ++
          lit " is not on PATH.",
        evidence, none, some (fact.tool ++ lit " " ++ minimum), some fact.tool,
        some (lit "Install " ++ fact.tool ++ lit (", or remove the lockfile if the project has moved " ++
          "to a different package manager.")), [lit "lockfile " ++ fact.path], none⟩]
    | some installed =>
      if isBlank installed.version then
        [⟨"lockfiles/format-unknown", .unknown,
          fact.tool ++ lit " is installed at " ++ noneText installed.exePath ++
            lit ", but did not report a version, so support for " ++ fact.path ++
            lit " could not be confirmed.",
          evidence, none, some minimum, some fact.tool, none, [], none⟩]
      else
        let version := installed.version.getD []
        match versionInSpec rt minimum version with
        | none =>
          [⟨"lockfiles/format-unknown", .unknown,
            lit "Could not compare " ++ fact.tool ++ lit " " ++ rt.strRepr version ++ lit " against " ++
              rt.strRepr minimum ++ lit " for " ++ fact.path ++ lit ".",
            evidence, some version, some minimum, some fact.tool, none, [], none⟩]
        | some true =>
          [⟨"lockfiles/format-supported", .pass,
            fact.tool ++ lit " " ++ version ++ lit " can use " ++ fact.path ++ lit " (format " ++
              noneText fact.formatVersion ++ lit ").",
            evidence, some version, some minimum, some fact.tool, none, [], none⟩]
        | some false =>
          [⟨"lockfiles/tool-too-old", .error,
            fact.tool ++ lit " " ++ version ++ lit " is below " ++ minimum ++ lit ", which " ++ fact.path ++
              lit " (format " ++ noneText fact.formatVersion ++ lit ") requires.",
            evidence, some version, some minimum, some fact.tool,
            some (lit "Upgrade " ++ fact.tool ++ lit " to " ++ minimum ++
              lit (". Installing with the older " ++
                "version can rewrite the lockfile instead of failing, which lands the " ++
                "damage in a pull request rather than in this terminal.")),
            [lit "lockfile " ++ fact.path, fact.note], none⟩]

/-- `_runtime_findings`. -/
def lockedRuntimeFindings (fact : LockfileFacts) : List Finding :=
  match fact.requiresRuntime with
  | none => []
  | some (runtime, spec) =>
    match (activeTool ctx.tools runtime).bind ToolInstallation.version with
    | none | some [] => []
    | some version =>
      match versionInSpec rt spec version with
      | none =>
        [⟨"lockfiles/runtime-spec-unparseable", .unknown,
          fact.path ++ lit " pins " ++ runtime ++ lit " " ++ rt.strRepr spec ++
            lit ", which could not be parsed.",
          fileEvidence fact.path (runtime ++ lit " " ++ spec), some version, some spec, some runtime,
          none, [], none⟩]
      | some true => []
      | some false =>
        [⟨"lockfiles/runtime-mismatch", .error,
          fact.path ++ lit " was locked for " ++ runtime ++ lit " " ++ spec ++ lit ", but " ++ runtime ++
            lit " " ++ version ++ lit " is active.",
          fileEvidence fact.path (runtime ++ lit " " ++ spec), some version, some spec, some runtime,
          some (lit "Switch to " ++ runtime ++ lit " " ++ spec ++
            lit " for this project, or re-resolve the lockfile on " ++ runtime ++ lit " " ++ version ++
            lit " and commit the result."), [lit "lockfile " ++ fact.path], none⟩]

def unreadableLockfile (fact : LockfileFacts) : Finding :=
  ⟨"lockfiles/unreadable", .unknown, fact.path ++ lit " " ++ fact.note ++ lit ".",
    fileEvidence fact.path fact.note, none, none, some fact.tool,
    some (lit ("A lockfile that cannot be parsed cannot be trusted to reproduce " ++
      "anything; regenerate it with its package manager.")), [], none⟩

/-- `evaluate` of the pack `lockfiles`. -/
def evaluateLockfiles : List Finding :=
  ctx.lockfiles.flatMap fun fact =>
    if fact.unreadable then [unreadableLockfile fact]
    else formatFindings rt ctx fact ++ lockedRuntimeFindings rt ctx fact

/-! ## Advisories -/

/-- An entry of the bundle, as far as the pack reads it. -/
structure Advisory where
  id : Str
  tool : Str
  summary : Str
  fixed : List Str
  introduced : Option Str
  reference : Str

/-- `BUNDLED_ADVISORIES` -/
def bundledAdvisories : List Advisory :=
  [⟨"CVE-2022-24765", "git",
      lit ("A repository owned by another user could supply configuration " ++
        "from a parent directory, running its commands as you. The fix " ++ "introduced safe.directory."),
      ["2.35.2"], none, "https://github.com/git/git/security/advisories/GHSA-jrp8-9fh7-2xff"⟩,
    ⟨"CVE-2024-32002", "git",
      lit ("Recursive clone of a repository with a specially named submodule " ++
        "could write into .git/ and execute a hook during the clone."),
      ["2.45.1", "2.44.1", "2.43.4", "2.42.2", "2.41.1", "2.40.2", "2.39.4"], none,
      "https://github.com/git/git/security/advisories/GHSA-8h77-4q3w-gfgv"⟩,
    ⟨"CVE-2022-3602", "openssl",
      lit ("Buffer overrun in punycode decoding during X.509 name " ++
        "constraint checking, reachable after certificate verification."),
      ["3.0.7"], some "3.0.0", "https://www.openssl.org/news/secadv/20221101.txt"⟩,
    ⟨"CVE-2023-24329", "python",
      lit ("urllib.parse could be made to ignore a blocklist by prefixing a " ++
        "URL with whitespace, defeating scheme filtering built on it."),
      ["3.11.4", "3.10.12", "3.9.17", "3.8.17"], none, "https://nvd.nist.gov/vuln/detail/CVE-2023-24329"⟩]

/-- `Version.__lt__`: by the numbers, a release before a tag, and by the tag. -/
def versionLt (a b : Version) : Bool :=
  if a.nums = b.nums then
    match a.tag, b.tag with
    | _, none => false
    | none, some _ => true
    | some s, some t => decide (s ≠ t) && strLe s t
  else decide (a.nums < b.nums)

/-- `max(versions)` -/
def maxVersion : List Version → Option Version
  | [] => none
  | v :: rest => some (rest.foldl (fun top w => if versionLt top w then w else top) v)

/-- `is_affected`. -/
def isAffected (version : Str) (advisory : Advisory) : Bool :=
  match parseVersion rt.limits version, advisory.fixed.mapM (parseVersion rt.limits) with
  | some parsed, some (first :: rest) =>
    let fixes := first :: rest
    let early := (advisory.introduced.bind (parseVersion rt.limits)).any fun introduced =>
      versionLt parsed introduced
    let sameBranch := fixes.filter fun f => f.nums.take 2 = parsed.nums.take 2
    !early && (maxVersion (if sameBranch = [] then fixes else sameBranch)).any (versionLt parsed)
  | _, _ => false

/-- The names of the active tools, sorted. -/
def activeNames : List Str :=
  ((ctx.tools.filter ToolInstallation.isActive).map ToolInstallation.name).dedup.mergeSort strLe

/-- `affected_tools`, on the active versions of the context. -/
def affectedTools : List (Str × Str × Advisory) :=
  (activeNames ctx).flatMap fun name =>
    match ((ctx.tools.foldl recordVersion fun _ => none) name).join with
    | none | some [] => []
    | some version =>
      (bundledAdvisories.filter fun a => decide (a.tool = name) && isAffected rt version a).map
        fun a => (name, version, a)

def coverageFinding : Finding :=
  ⟨"advisories/coverage", .info,
    "Toolchain advisory data: bundled, reviewed 2026-09-10, covering git, openssl, python.",
    [⟨"system", none, none, some (natStr bundledAdvisories.length ++ lit " advisories loaded; " ++
      natStr (activeNames ctx).length ++ lit " active tools checked"), true⟩],
    none, none, none,
    some (lit ("Tools outside that list got no answer rather than a clean one. " ++
      "Replace the set with `devrepro advisories --db <bundle.json>`.")),
    ["https://webdevsamran.github.io/devrepro-doctor/COMPLIANCE/"], none⟩

def advisoryFinding (name version : Str) (advisory : Advisory) : Finding :=
  ⟨name ++ lit "/known-advisory", .warn,
    name ++ lit " " ++ version ++ lit " is covered by " ++ advisory.id ++ lit ": " ++ advisory.summary,
    [⟨"system", none, none, some (name ++ lit " " ++ version ++ lit "; fixed in " ++
      join ", " advisory.fixed), true⟩],
    some version, some (join " or " advisory.fixed), some name,
    some (lit "Upgrade " ++ name ++ lit " to " ++ advisory.fixed.headD [] ++
      lit (" or later on its branch. " ++
        "This compares versions offline and does not check whether your " ++
        "distribution backported the fix, which many do.")), [advisory.reference], none⟩

/-- `evaluate` of the pack `advisories`. -/
def evaluateAdvisories : List Finding :=
  coverageFinding ctx :: (affectedTools rt ctx).map fun hit => advisoryFinding hit.1 hit.2.1 hit.2.2

/-! ## Frameworks -/

/-- The finding for one framework requirement; an unreadable version gets none. -/
def frameworkFinding (tools : List ToolInstallation) (requirement : FrameworkRequirement) :
    Option Finding :=
  let evidence := fileEvidence requirement.source
    (requirement.framework ++ lit " " ++ requirement.version)
  match (activeTool tools requirement.tool).bind ToolInstallation.version with
  | none | some [] =>
    some ⟨requirement.framework ++ lit "/runtime-missing", .blocked,
      requirement.framework ++ lit " " ++ requirement.version ++ lit " needs " ++ requirement.tool ++
        lit " " ++ requirement.required ++ lit ", and " ++ requirement.tool ++
        lit " does not resolve on PATH.",
      evidence, none, some requirement.required, some requirement.tool, some requirement.detail, [],
      none⟩
  | some version =>
    match satisfies rt.limits version requirement.required with
    | none => none
    | some true =>
      some ⟨requirement.framework ++ lit "/runtime-ok", .pass,
        requirement.tool ++ lit " " ++ version ++ lit " satisfies what " ++ requirement.framework ++
          lit " " ++ requirement.version ++ lit " requires (" ++ requirement.required ++ lit ").",
        evidence, some version, some requirement.required, some requirement.tool, none, [], none⟩
    | some false =>
      some ⟨requirement.framework ++ lit "/runtime-too-old", .blocked,
        requirement.framework ++ lit " " ++ requirement.version ++ lit " requires " ++
          requirement.tool ++ lit " " ++ requirement.required ++ lit "; this machine has " ++ version ++
          lit ".",
        evidence, some version, some requirement.required, some requirement.tool,
        some requirement.detail, [], none⟩

/-- The finding for one native dependency. -/
def nativeFinding (dependency : NativeDependency) : Finding :=
  ⟨dependency.name ++ lit "/needs-toolchain", .info,
    dependency.name ++ lit " needs " ++ dependency.needs ++ lit " to install from source on this machine.",
    fileEvidence dependency.source dependency.name, none, none, some "native",
    some (dependency.why ++ lit (" Reported as information rather than a problem: a machine with " ++
      "a working toolchain, or one where a prebuilt binary matches, " ++
      "installs it without noticing.")), [], none⟩

/-- `evaluate` of the pack `frameworks`, as the engine calls it: with the context alone. -/
def evaluateFrameworks : List Finding :=
  (match ctx.extra.get? "framework_requirements" with
    | some (.frameworks requirements) => requirements.filterMap (frameworkFinding rt ctx.tools)
    | _ => []) ++
    match ctx.extra.get? "native_dependencies" with
    | some (.native dependencies) => dependencies.map nativeFinding
    | _ => []

/-! ## The engine -/

/-- `RuleEngine.evaluate` with the built-in packs, in the order of their names. -/
def evaluate : List Finding :=
  evaluateAdvisories rt ctx ++ evaluateAiGpu rt ctx ++ evaluateContainers rt ctx ++
    evaluateCpp rt ctx ++ evaluateDotnet rt ctx ++ evaluateFrameworks rt ctx ++ evaluateGo rt ctx ++
    evaluateJava rt ctx ++ evaluateLockfiles rt ctx ++ evaluateNode rt ctx ++ evaluatePython rt ctx ++
    evaluateRust rt ctx ++ evaluateWsl ctx

end DevRepro.Rules
