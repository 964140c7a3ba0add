import DevRepro.Mcp.Report

/-!
# Snapshots and full scan reports

The data types of `core/models.py` behind a snapshot, with what
`model_dump(mode="json")` makes of each.  The parts that a tool result already
shows (platform, findings, score) are those of `DevRepro.Mcp.Report`.

A `datetime` is kept as the text that its dump has.
-/

namespace DevRepro.Snapshots

open DevRepro.Python
open DevRepro.Mcp (optStr strs Finding PlatformInfo ReproducibilityScore)

/-- An `int | None` field. -/
def optInt : Option Int → Json
  | none => .null
  | some n => .int n

/-- A `bool | None` field. -/
def optBool : Option Bool → Json
  | none => .null
  | some b => .bool b

/-- One installation of a developer tool found on the machine. -/
structure ToolInstallation where
  name : Str
  version : Option Str
  exePath : Option Str
  installSource : Option Str
  isActive : Bool
  precedence : Option Int
  deriving DecidableEq

def ToolInstallation.modelDump (t : ToolInstallation) : Json :=
  .obj [("name", .str t.name), ("version", optStr t.version), ("exe_path", optStr t.exePath),
    ("install_source", optStr t.installSource), ("is_active", .bool t.isActive),
    ("precedence", optInt t.precedence)]

structure PathEntry where
  raw : Str
  normalized : Str
  exists_ : Bool
  origin : Str
  index : Int

def PathEntry.modelDump (e : PathEntry) : Json :=
  .obj [("raw", .str e.raw), ("normalized", .str e.normalized), ("exists", .bool e.exists_),
    ("origin", .str e.origin), ("index", .int e.index)]

structure PathAnalysis where
  entries : List PathEntry
  duplicates : List Str
  deadEntries : List Str
  shadowedExecutables : List (Str × Str × Str)
  storeAliases : List Str
  toolManagerInterference : List Str
  profileInconsistencies : List Str

def PathAnalysis.modelDump (p : PathAnalysis) : Json :=
  .obj [("entries", .arr (p.entries.map PathEntry.modelDump)), ("duplicates", strs p.duplicates),
    ("dead_entries", strs p.deadEntries),
    ("shadowed_executables", .arr (p.shadowedExecutables.map fun s => strs [s.1, s.2.1, s.2.2])),
    ("store_aliases", strs p.storeAliases),
    ("tool_manager_interference", strs p.toolManagerInterference),
    ("profile_inconsistencies", strs p.profileInconsistencies)]

inductive RequirementKind where
  | runtime
  | tool
  | envName
  | container
  | compiler

def RequirementKind.value : RequirementKind → Str
  | runtime => "runtime"
  | tool => "tool"
  | envName => "env-name"
  | container => "container"
  | compiler => "compiler"

/-- A requirement declared by a project manifest, a lockfile or a policy. -/
structure ProjectRequirement where
  ecosystem : Str
  name : Str
  spec : Str
  kind : RequirementKind
  sourceFile : Str
  optional : Bool
  note : Option Str

def ProjectRequirement.modelDump (r : ProjectRequirement) : Json :=
  .obj [("ecosystem", .str r.ecosystem), ("name", .str r.name), ("spec", .str r.spec),
    ("kind", .str r.kind.value), ("source_file", .str r.sourceFile),
    ("optional", .bool r.optional), ("note", optStr r.note)]

structure ContainerState where
  dockerCliVersion : Option Str
  dockerDaemonOk : Bool
  podmanVersion : Option Str
  composeVersion : Option Str
  kubectlVersion : Option Str
  errors : List Str
  backend : Option Str
  endpointKind : Option Str
  contextName : Option Str
  serverVersion : Option Str
  serverOs : Option Str
  serverArch : Option Str
  storageDriver : Option Str
  cgroupVersion : Option Str
  cgroupDriver : Option Str
  rootless : Option Bool
  engineCpus : Option Int
  engineMemoryBytes : Option Int
  buildxVersion : Option Str
  reclaimableBytes : Option Int
  danglingImages : Option Int
  unusedVolumes : Option Int
  otherRuntimes : List Str

def ContainerState.modelDump (c : ContainerState) : Json :=
  .obj [("docker_cli_version", optStr c.dockerCliVersion),
    ("docker_daemon_ok", .bool c.dockerDaemonOk), ("podman_version", optStr c.podmanVersion),
    ("compose_version", optStr c.composeVersion), ("kubectl_version", optStr c.kubectlVersion),
    ("errors", strs c.errors), ("backend", optStr c.backend),
    ("endpoint_kind", optStr c.endpointKind), ("context_name", optStr c.contextName),
    ("server_version", optStr c.serverVersion), ("server_os", optStr c.serverOs),
    ("server_arch", optStr c.serverArch), ("storage_driver", optStr c.storageDriver),
    ("cgroup_version", optStr c.cgroupVersion), ("cgroup_driver", optStr c.cgroupDriver),
    ("rootless", optBool c.rootless), ("engine_cpus", optInt c.engineCpus),
    ("engine_memory_bytes", optInt c.engineMemoryBytes), ("buildx_version", optStr c.buildxVersion),
    ("reclaimable_bytes", optInt c.reclaimableBytes),
    ("dangling_images", optInt c.danglingImages), ("unused_volumes", optInt c.unusedVolumes),
    ("other_runtimes", strs c.otherRuntimes)]

structure WslState where
  available : Bool
  version : Option Str
  distros : List Str
  defaultDistro : Option Str
  interopEnabled : Option Bool
  errors : List Str

def WslState.modelDump (w : WslState) : Json :=
  .obj [("available", .bool w.available), ("version", optStr w.version), ("distros", strs w.distros),
    ("default_distro", optStr w.defaultDistro), ("interop_enabled", optBool w.interopEnabled),
    ("errors", strs w.errors)]

structure GpuDeviceInfo where
  index : Int
  name : Str
  memoryMib : Option Int
  computeCapability : Option Str

def GpuDeviceInfo.modelDump (d : GpuDeviceInfo) : Json :=
  .obj [("index", .int d.index), ("name", .str d.name), ("memory_mib", optInt d.memoryMib),
    ("compute_capability", optStr d.computeCapability)]

structure GpuStack where
  nvidiaDriver : Option Str
  maxCudaRuntime : Option Str
  devices : List GpuDeviceInfo
  cudaToolkit : Option Str
  rocm : Option Str
  oneapi : Option Str
  directml : Bool
  vulkan : Option Str
  metal : Option Str
  wslGpuPassthrough : Option Bool
  notes : List Str

def GpuStack.modelDump (g : GpuStack) : Json :=
  .obj [("nvidia_driver", optStr g.nvidiaDriver), ("max_cuda_runtime", optStr g.maxCudaRuntime),
    ("devices", .arr (g.devices.map GpuDeviceInfo.modelDump)),
    ("cuda_toolkit", optStr g.cudaToolkit), ("rocm", optStr g.rocm), ("oneapi", optStr g.oneapi),
    ("directml", .bool g.directml), ("vulkan", optStr g.vulkan), ("metal", optStr g.metal),
    ("wsl_gpu_passthrough", optBool g.wslGpuPassthrough), ("notes", strs g.notes)]

structure VirtualenvInfo where
  kind : Str
  active : Bool
  rootHint : Option Str

def VirtualenvInfo.modelDump (v : VirtualenvInfo) : Json :=
  .obj [("kind", .str v.kind), ("active", .bool v.active), ("root_hint", optStr v.rootHint)]

/-- The privacy-sanitized environment manifest. -/
structure Snapshot where
  schemaVersion : Str
  createdAt : Str
  devreproVersion : Str
  platform : PlatformInfo
  tools : List ToolInstallation
  pathAnalysis : Option PathAnalysis
  compilers : List ToolInstallation
  requirementsFingerprint : List ProjectRequirement
  containers : Option ContainerState
  wsl : Option WslState
  gpu : Option GpuStack
  virtualenvs : List VirtualenvInfo
  score : Option ReproducibilityScore
  privacy : List (Str × Json)

/-- The complete output of one scan. -/
structure ScanReport where
  schemaVersion : Str
  createdAt : Str
  devreproVersion : Str
  platform : PlatformInfo
  findings : List Finding
  tools : List ToolInstallation
  pathAnalysis : Option PathAnalysis
  requirements : List ProjectRequirement
  policyApplied : Bool
  score : Option ReproducibilityScore
  probeErrors : List Str
  containers : Option ContainerState
  wsl : Option WslState
  gpu : Option GpuStack
  privacy : List (Str × Json)

/-- An optional model as a field. -/
def optDump {α : Type} (dump : α → Json) : Option α → Json
  | none => .null
  | some a => dump a

/-- The fields of `snapshot.model_dump(mode="json")`. -/
def Snapshot.items (s : Snapshot) : List (Str × Json) :=
  [("schema_version", .str s.schemaVersion), ("created_at", .str s.createdAt),
    ("devrepro_version", .str s.devreproVersion), ("platform", s.platform.modelDump),
    ("tools", .arr (s.tools.map ToolInstallation.modelDump)),
    ("path_analysis", optDump PathAnalysis.modelDump s.pathAnalysis),
    ("compilers", .arr (s.compilers.map ToolInstallation.modelDump)),
    ("requirements_fingerprint",
      .arr (s.requirementsFingerprint.map ProjectRequirement.modelDump)),
    ("containers", optDump ContainerState.modelDump s.containers),
    ("wsl", optDump WslState.modelDump s.wsl), ("gpu", optDump GpuStack.modelDump s.gpu),
    ("virtualenvs", .arr (s.virtualenvs.map VirtualenvInfo.modelDump)),
    ("score", optDump ReproducibilityScore.modelDump s.score), ("privacy", .obj s.privacy)]

/-- The fields of `report.model_dump(mode="json")`. -/
def ScanReport.items (r : ScanReport) : List (Str × Json) :=
  [("schema_version", .str r.schemaVersion), ("created_at", .str r.createdAt),
    ("devrepro_version", .str r.devreproVersion), ("platform", r.platform.modelDump),
    ("findings", .arr (r.findings.map Finding.modelDump)),
    ("tools", .arr (r.tools.map ToolInstallation.modelDump)),
    ("path_analysis", optDump PathAnalysis.modelDump r.pathAnalysis),
    ("requirements", .arr (r.requirements.map ProjectRequirement.modelDump)),
    ("policy_applied", .bool r.policyApplied),
    ("score", optDump ReproducibilityScore.modelDump r.score),
    ("probe_errors", strs r.probeErrors),
    ("containers", optDump ContainerState.modelDump r.containers),
    ("wsl", optDump WslState.modelDump r.wsl), ("gpu", optDump GpuStack.modelDump r.gpu),
    ("privacy", .obj r.privacy)]

/-- `report.model_dump(mode="json")`. -/
def ScanReport.modelDump (r : ScanReport) : Json := .obj r.items

/-- The names that `snapshot_from_report` takes for compilers. -/
def compilerNames : List Str := ["gcc", "clang", "cl", "rustc", "javac"]

/-- `snapshot_from_report`, at the time `now`. -/
def snapshotFromReport (now : Str) (report : ScanReport) : Snapshot where
  schemaVersion := "1.0"
  createdAt := now
  devreproVersion := report.devreproVersion
  platform := report.platform
  tools := report.tools
  pathAnalysis := report.pathAnalysis
  compilers := report.tools.filter fun t => t.name ∈ compilerNames
  requirementsFingerprint := report.requirements
  containers := report.containers
  wsl := report.wsl
  gpu := report.gpu
  virtualenvs := []
  score := report.score
  privacy := report.privacy

/-- One step of `active_versions`: an installation is recorded unless the name
has a readable version already. -/
def recordVersion (versions : Str → Option (Option Str)) (tool : ToolInstallation) :
    Str → Option (Option Str) :=
  if tool.isActive ∧ (versions tool.name).join = none then
    Function.update versions tool.name (some tool.version)
  else versions

/-- `report.active_versions()`, as the entry of each name. -/
def activeVersions (report : ScanReport) : Str → Option (Option Str) :=
  report.tools.foldl recordVersion fun _ => none

end DevRepro.Snapshots
