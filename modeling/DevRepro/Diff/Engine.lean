import DevRepro.Snapshots.Models

/-!
# The environment diff

`diff/engine.py`: the comparison of two snapshots, section by section.  Each
section is a function of the two sides, and `diffEntries` is their
concatenation in the order of the source.

A section that looks a name up in a dictionary takes the last item listed
under it (`lastNamed`, `lastSpec`), because that is what a dictionary
comprehension keeps.
-/

namespace DevRepro.Diff

open DevRepro.Python DevRepro.Snapshots

inductive DiffClassification where
  | same
  | versionDrift
  | missing
  | extra
  | pathPrecedence
  | platformExpected
  | projectCritical
  deriving DecidableEq

structure DiffEntry where
  component : Str
  name : Str
  classification : DiffClassification
  aValue : Option Str
  bValue : Option Str
  detail : Option Str
  projectCritical : Bool

/-- The outcome of a diff, without its time stamp. -/
structure EnvironmentDiff where
  aSnapshotId : Str
  bSnapshotId : Str
  entries : List DiffEntry

/-- `str(value)` for a value that may be `None`. -/
def strOf (value : Option Str) : Str := value.getD "None"

/-- `str(flag)`. -/
def boolStr (flag : Bool) : Str := if flag then "True" else "False"

/-- `_compare_optional`, for a value that is a string or `None`. -/
def compareOptional (component name : Str) (aValue bValue : Option Str)
    (classification : DiffClassification) (detail : Str) (projectCritical : Bool) :
    List DiffEntry :=
  if aValue = bValue then []
  else
    [⟨component, name, classification, some (strOf aValue), some (strOf bValue), some detail,
      projectCritical⟩]

/-! ## Platform -/

/-- The compared fields of the platform. -/
def platformKeys (p : Mcp.PlatformInfo) : List (Str × Option Str) :=
  [("os_name", some p.osName), ("os_version", some p.osVersion), ("arch", some p.arch),
    ("kernel", p.kernel)]

def platformEntries (a b : Mcp.PlatformInfo) : List DiffEntry :=
  ((platformKeys a).zip (platformKeys b)).flatMap fun pair =>
    compareOptional "platform" pair.1.1 pair.1.2 pair.2.2 .platformExpected
      (lit "Platform differences are expected across machines; " ++
        lit "only flag if the project targets one OS.") false

/-! ## Tools -/

/-- `{t.name: t for t in tools}.get(name)`. -/
def lastNamed (tools : List ToolInstallation) (name : Str) : Option ToolInstallation :=
  tools.reverse.find? fun t => t.name = name

/-- The entry of one tool name. -/
def toolEntry (critical : Bool) (name : Str) : Option ToolInstallation → Option ToolInstallation →
    Option DiffEntry
  | none, none => none
  | none, some tb =>
    some ⟨"tool", name, .missing, none, tb.version,
      some (lit "'" ++ name ++ lit "' exists on B but not on A."), critical⟩
  | some ta, none =>
    some ⟨"tool", name, .missing, ta.version, none,
      some (lit "'" ++ name ++ lit "' exists on A but not on B."), critical⟩
  | some ta, some tb =>
    if ta.version.getD [] ≠ tb.version.getD [] then
      some ⟨"tool", name, .versionDrift, ta.version, tb.version,
        some (lit "Version drift on '" ++ name ++ lit "'."), critical⟩
    else if ta.exePath.getD [] ≠ tb.exePath.getD [] then
      some ⟨"tool", name, .pathPrecedence, ta.exePath, tb.exePath,
        some (lit "'" ++ name ++ lit "' resolves to different executables (same version)."), critical⟩
    else some ⟨"tool", name, .same, ta.version, tb.version, none, false⟩

/-- `sorted(set(a_tools) | set(b_tools))`. -/
def toolNames (a b : List ToolInstallation) : List Str :=
  ((a.map ToolInstallation.name ++ b.map ToolInstallation.name).dedup).mergeSort strLe

def toolEntries (a b : Snapshot) : List DiffEntry :=
  let critical (name : Str) : Bool :=
    name ∈ a.requirementsFingerprint.map ProjectRequirement.name ∨
      name ∈ b.requirementsFingerprint.map ProjectRequirement.name
  (toolNames a.tools b.tools).filterMap fun name =>
    toolEntry (critical name) name (lastNamed a.tools name) (lastNamed b.tools name)

/-! ## PATH -/

/-- The normalized entries of a snapshot's PATH. -/
def normalizedPath (s : Snapshot) : List Str :=
  match s.pathAnalysis with
  | some analysis => analysis.entries.map PathEntry.normalized
  | none => []

/-- The summary of one side: how many entries it has, and how many that the
other side has not. -/
def pathSummary (side : Str) (own other : List Str) : Str :=
  let only := own.filter (· ∉ other)
  natStr own.length ++ lit " entries" ++
    if only = [] then [] else lit "; " ++ side ++ lit "-only: " ++ natStr only.length

def pathEntries (a b : Snapshot) : List DiffEntry :=
  if normalizedPath a ≠ normalizedPath b then
    [⟨"path", "PATH", .pathPrecedence,
      some (pathSummary "A" (normalizedPath a) (normalizedPath b)),
      some (pathSummary "B" (normalizedPath b) (normalizedPath a)),
      some (lit "PATH composition differs; resolution order may differ even for " ++
        lit "identical tool versions."), false⟩]
  else []

/-! ## Requirements -/

/-- The dictionary key of a requirement. -/
def requirementKey (r : ProjectRequirement) : Str × Str := (r.ecosystem, r.name)

/-- `{(r.ecosystem, r.name): r.spec for r in requirements}.get(key)`. -/
def lastSpec (requirements : List ProjectRequirement) (key : Str × Str) : Option Str :=
  (requirements.reverse.find? fun r => requirementKey r = key).map ProjectRequirement.spec

/-- The order of tuples. -/
def pairLe (p q : Str × Str) : Bool := if p.1 = q.1 then strLe p.2 q.2 else strLe p.1 q.1

/-- `sorted(set(a_reqs) | set(b_reqs))`. -/
def requirementKeys (a b : List ProjectRequirement) : List (Str × Str) :=
  ((a.map requirementKey ++ b.map requirementKey).dedup).mergeSort pairLe

def requirementEntries (a b : List ProjectRequirement) : List DiffEntry :=
  (requirementKeys a b).filterMap fun key =>
    if lastSpec a key ≠ lastSpec b key then
      some ⟨"requirement", join ":" [key.1, key.2], .projectCritical, lastSpec a key, lastSpec b key,
        some "Declared project requirements differ between the two snapshots.", true⟩
    else none

/-! ## Containers -/

/-- `str(c.docker_daemon_ok if c else None)`. -/
def daemonStr (c : Option ContainerState) : Str :=
  match c with
  | some state => boolStr state.dockerDaemonOk
  | none => "None"

def daemonEntries (a b : Option ContainerState) : List DiffEntry :=
  if a.map ContainerState.dockerDaemonOk ≠ b.map ContainerState.dockerDaemonOk then
    [⟨"container", "docker-daemon", .projectCritical, some (daemonStr a), some (daemonStr b),
      some "Docker daemon health differs; container builds will behave differently.", true⟩]
  else []

/-- One row of `_CONTAINER_AXES`. -/
structure ContainerAxis where
  name : Str
  value : ContainerState → Option Str
  detail : Str
  critical : Bool

def containerAxes : List ContainerAxis :=
  [⟨"engine-backend", ContainerState.backend,
      lit "A different container engine is behind `docker`. Bind-mount behaviour, " ++
        lit "file-sharing performance and available host paths all differ between them.", true⟩,
    ⟨"engine-arch", ContainerState.serverArch,
      lit "The engines run different architectures; one of these is emulating, which " ++
        lit "is correct and roughly ten times slower.", true⟩,
    ⟨"cgroup-version", ContainerState.cgroupVersion,
      lit "cgroup versions differ. Memory and CPU limits behave differently, so a " ++
        lit "container that is OOM-killed on one machine can pass on the other.", true⟩,
    ⟨"storage-driver", ContainerState.storageDriver,
      lit "Storage drivers differ. Layer caching and build times differ with them, and " ++
        lit "some drivers are removed in current engines.", false⟩,
    ⟨"engine-version", ContainerState.serverVersion, "Container engine versions differ.", false⟩,
    ⟨"buildx-version", ContainerState.buildxVersion,
      lit "buildx versions differ. Multi-platform builds, build secrets and cache " ++
        lit "mounts depend on it.", false⟩,
    ⟨"rootless", fun c => c.rootless.map boolStr,
      lit "One engine runs rootless and the other does not. Port binding below 1024, " ++
        lit "file ownership in bind mounts and some network modes differ.", true⟩]

def axisEntries (a b : Option ContainerState) : List DiffEntry :=
  match a, b with
  | some ca, some cb =>
    containerAxes.filterMap fun axis =>
      if axis.value ca = axis.value cb then none
      else
        some ⟨"container", axis.name, if axis.critical then .projectCritical else .versionDrift,
          axis.value ca, axis.value cb, some axis.detail, axis.critical⟩
  | _, _ => []

def dockerCliEntries (a b : Option ContainerState) : List DiffEntry :=
  compareOptional "container" "docker-cli" (a.bind ContainerState.dockerCliVersion)
    (b.bind ContainerState.dockerCliVersion) .versionDrift
    "Docker CLI version differs between the two machines." false

/-! ## WSL and GPU -/

def wslEntries (a b : Option WslState) : List DiffEntry :=
  compareOptional "wsl" "wsl-available" (a.map fun w => boolStr w.available)
      (b.map fun w => boolStr w.available) .platformExpected
      "WSL availability differs; Linux-path builds behave differently." false ++
    compareOptional "wsl" "wsl-default-distro" (a.bind WslState.defaultDistro)
      (b.bind WslState.defaultDistro) .platformExpected
      "The default WSL distro differs; commands run against another filesystem." false

/-- The compared fields of the GPU stack. -/
def gpuAxes : List (Str × (GpuStack → Option Str)) :=
  [("nvidia-driver", GpuStack.nvidiaDriver), ("cuda-toolkit", GpuStack.cudaToolkit),
    ("rocm", GpuStack.rocm)]

def gpuEntries (a b : Option GpuStack) : List DiffEntry :=
  gpuAxes.flatMap fun axis =>
    compareOptional "gpu" axis.1 (a.bind axis.2) (b.bind axis.2) .projectCritical
      (axis.1 ++ lit " differs; GPU workloads may not reproduce.") true

/-! ## The diff -/

/-- The entries of `diff_snapshots`. -/
def diffEntries (a b : Snapshot) : List DiffEntry :=
  platformEntries a.platform b.platform ++ toolEntries a b ++ pathEntries a b ++
    requirementEntries a.requirementsFingerprint b.requirementsFingerprint ++
    daemonEntries a.containers b.containers ++ axisEntries a.containers b.containers ++
    dockerCliEntries a.containers b.containers ++ wslEntries a.wsl b.wsl ++ gpuEntries a.gpu b.gpu

/-- `diff_snapshots`, with `snapshot.snapshot_id` as a parameter. -/
def diffSnapshots (snapshotId : Snapshot → Str) (a b : Snapshot) : Except Exc EnvironmentDiff :=
  if a.schemaVersion ≠ b.schemaVersion then
    .error ⟨.other "DiffError",
      lit "incompatible snapshot schema versions: " ++ a.schemaVersion ++ lit " vs " ++
        b.schemaVersion⟩
  else .ok ⟨snapshotId a, snapshotId b, diffEntries a b⟩

end DevRepro.Diff
