import DevRepro.Core.Ranges
import DevRepro.Project.Detectors
import DevRepro.Reproduce.Emit

/-!
# How a recipe is made

`reproduce/recipe.py`: the base image and the installs of `build_reproduction`, from the
requirements that `detect_requirements` finds.

The detectors name the language of a lockfile and the table of installs names the manager;
`lockedInstalls_iff` says what that leaves.
-/

namespace DevRepro.Reproduce

open DevRepro.Python DevRepro.Lib DevRepro.Agents DevRepro.Core DevRepro.Project DevRepro.Snapshots

/-! ## Tables -/

/-- `BASE_IMAGES`: what an image has before and behind its version. -/
def baseImages : List (Str × Str × Str) :=
  [("python", "python:", "-bookworm"), ("node", "node:", "-bookworm"),
    ("go", "golang:", "-bookworm"), ("rust", "rust:", "-bookworm"),
    ("java", "eclipse-temurin:", "-jdk"), ("dotnet", "mcr.microsoft.com/dotnet/sdk:", ""),
    ("ruby", "ruby:", "-bookworm"), ("php", "php:", "-cli-bookworm")]

/-- `FALLBACK_IMAGE`. -/
def fallbackImage : Str := "debian:bookworm-slim"

/-- `INSTALL_COMMANDS`: a manager, its lockfile and its command. -/
def installCommands : List (Str × Str × Str) :=
  [("npm", "package-lock.json", "npm ci"),
    ("pnpm", "pnpm-lock.yaml", "pnpm install --frozen-lockfile"),
    ("yarn", "yarn.lock", "yarn install --immutable"),
    ("poetry", "poetry.lock", "poetry install --no-interaction"),
    ("uv", "uv.lock", "uv sync --frozen"),
    ("pip", "requirements.txt", "pip install --no-deps -r requirements.txt"),
    ("cargo", "Cargo.lock", "cargo fetch --locked"), ("go", "go.sum", "go mod download"),
    ("bundler", "Gemfile.lock", "bundle install --deployment"),
    ("composer", "composer.lock", "composer install --no-interaction")]

/-! ## The base image -/

def isDigit (c : CodePoint) : Bool := (digitValue? c).isSome

/-- `\d+(?:\.\d+)*`, at the start of a text. -/
def dottedRun : Str → Str
  | [] => []
  | c :: rest =>
    if isDigit c then c :: dottedRun rest
    else if c = codePoint '.' ∧ rest.head?.any isDigit then c :: dottedRun rest
    else []

/-- `_concrete_version`. -/
def concreteVersion (spec : Str) : Option Str :=
  if spec = [] ∨ strip spec ∈ [lit "*", lit "latest"] then none
  else if containsText spec "||" then none
  else
    match spec.dropWhile fun c => !isDigit c with
    | [] => none
    | c :: rest => some (dottedRun (c :: rest))

/-- The image of a requirement, if it has one. -/
def imageOf (r : ProjectRequirement) : Option Str :=
  (Dict.find? r.ecosystem baseImages).bind fun image =>
    (concreteVersion r.spec).map fun version => image.1 ++ version ++ image.2

/-- `_base_for`. -/
def baseFor (requirements : List ProjectRequirement) : Str :=
  (requirements.findSome? imageOf).getD fallbackImage

/-! ## The steps -/

def installStep (lockfile command : Str) : SetupStep :=
  ⟨command, lit "Install from " ++ lockfile ++
    lit ". The locked form, not the resolving one: a fresh resolve reproduces a " ++
      lit "different dependency tree from the one that failed.",
    some lockfile⟩

/-- `_install_steps`.  No manager is in the table twice, so none has been `seen`. -/
def installSteps (requirements : List ProjectRequirement) (present : List Str) : List SetupStep :=
  let ecosystems := requirements.map ProjectRequirement.ecosystem
  (installCommands.filter fun (ecosystem, lockfile, _) => lockfile ∈ present ∧
      (ecosystem ∈ ecosystems ∨ ecosystem = lit "pip" ∧ lit "python" ∈ ecosystems)).map
    fun (_, lockfile, command) => installStep lockfile command

/-- `_preconditions`. -/
def preconditions (rt : AgentRuntime) (report : ScanReport) : List Precondition :=
  let container : Precondition := ⟨"container-in-container",
    lit "The original environment had a working container engine. If the failure " ++
      lit "involves starting containers, this recipe cannot reproduce it without a mounted " ++
      lit "socket -- which is a privilege escalation, not a build step."⟩
  let gpu : Precondition := ⟨"gpu",
    lit "The original environment had a GPU stack. A container reproduces it only with " ++
      lit "the host's driver passed through, and the driver version has to match."⟩
  let platform : Precondition := ⟨"platform",
    lit "The failure was observed on " ++ report.platform.osName ++
      lit ". This recipe runs Linux, so anything platform-specific -- path separators, " ++
        lit "case sensitivity, line endings, the Windows path limit -- will not reproduce " ++
        lit "here."⟩
  (if report.containers.any fun c => c.dockerDaemonOk then [container] else []) ++
    (if report.gpu.any fun g =>
        (Reproduction.filled g.nvidiaDriver).isSome || (Reproduction.filled g.rocm).isSome then [gpu]
      else []) ++
    if rt.lower report.platform.osName = lit "linux" then [] else [platform]

def noInstallStep : Precondition := ⟨"no-install-step",
  lit "No lockfile this recipe understands was found, so nothing installs the project's " ++
    lit "dependencies. The failing command will most likely die with 'not found' rather " ++
    lit "than reproducing the reported failure. Add the install step by hand before " ++
    lit "relying on this."⟩

def copyStep : SetupStep :=
  ⟨"COPY . /work", "The repository as it stands. Nothing outside it travels.", none⟩

/-- `build_reproduction`.  `isoformat` is what `isoformat()` gives for a time, which the
report has as a text. -/
def buildReproduction (rt : AgentRuntime) (isoformat : Str → Str) (report : ScanReport)
    (failingCommand expectedSymptom : Option Str) (present : List Str) (baseDigest : Option Str) :
    Reproduction :=
  let installs := installSteps report.requirements present
  { baseImage := baseFor report.requirements
    baseDigest := baseDigest
    steps := copyStep :: installs
    failingCommand := failingCommand
    expectedSymptom := expectedSymptom
    preconditions :=
      (if installs.isEmpty && (Reproduction.filled failingCommand).isSome then [noInstallStep]
        else []) ++ preconditions rt report
    metadata := ((Dict.empty.set (lit "devrepro_version") report.devreproVersion).set (lit "observed_on")
      (report.platform.osName ++ lit " " ++ report.platform.arch)).set (lit "scanned_at")
        (isoformat report.createdAt) }

/-! ## Locked installs -/

/-- The language of each manager. -/
def managerLanguages : List (Str × Str) :=
  [("npm", "node"), ("pnpm", "node"), ("yarn", "node"), ("poetry", "python"), ("uv", "python"),
    ("pip", "python"), ("cargo", "rust"), ("go", "go"), ("bundler", "ruby"), ("composer", "php")]

/-- A lockfile of the table that is there, of a language that the requirements declare. -/
structure Locks (requirements : List ProjectRequirement) (present : List Str)
    (manager lockfile command : Str) : Prop where
  known : (manager, lockfile, command) ∈ installCommands
  present : lockfile ∈ present
  declared : ∃ language, (manager, language) ∈ managerLanguages ∧
    ∃ r ∈ requirements, r.ecosystem = language

/-- The steps have an install for every such lockfile. -/
def LockedInstalls (requirements : List ProjectRequirement) (present : List Str)
    (steps : List SetupStep) : Prop :=
  ∀ manager lockfile command, Locks requirements present manager lockfile command →
    installStep lockfile command ∈ steps

/-- What the names of the managers have to do with those of the ecosystems. -/
theorem manager_names :
    (∀ a ∈ installCommands, ∀ b ∈ installCommands, a.2.1 = b.2.1 → a.1 = b.1) ∧
    (∀ a ∈ installCommands, a.1 ∈ detectedEcosystems → a.1 = lit "go") ∧
    (∀ a ∈ managerLanguages, a.1 = lit "go" → a.2 = lit "go") ∧
    (∀ a ∈ managerLanguages, a.1 = lit "pip" → a.2 = lit "python") ∧
    ∀ a ∈ managerLanguages, a.1 = lit "go" ∨ a.1 = lit "pip" ∨ a.1 ∉ detectedEcosystems := by
  decide +kernel

theorem mem_installSteps {requirements : List ProjectRequirement} {present : List Str}
    {step : SetupStep} :
    step ∈ installSteps requirements present ↔ ∃ manager lockfile command,
      (manager, lockfile, command) ∈ installCommands ∧ lockfile ∈ present ∧
        ((∃ r ∈ requirements, r.ecosystem = manager) ∨
          manager = lit "pip" ∧ ∃ r ∈ requirements, r.ecosystem = lit "python") ∧
        installStep lockfile command = step := by
  simp only [installSteps, List.mem_map, List.mem_filter, decide_eq_true_eq, Prod.exists, and_assoc]

section Locked

variable {rt : DetectRuntime} {files : ProjectFiles} {requirements : List ProjectRequirement}
variable {present : List Str}

/-- What is installed from a lockfile is installed by its manager. -/
theorem installStep_mem_iff {manager lockfile command : Str}
    (hknown : (manager, lockfile, command) ∈ installCommands) (hpresent : lockfile ∈ present) :
    installStep lockfile command ∈ installSteps requirements present ↔
      (∃ r ∈ requirements, r.ecosystem = manager) ∨
        manager = lit "pip" ∧ ∃ r ∈ requirements, r.ecosystem = lit "python" := by
  rw [mem_installSteps]
  constructor
  · rintro ⟨manager', lockfile', command', hknown', -, hdeclared, heq⟩
    have hsource := congrArg SetupStep.source heq
    have hmanager := manager_names.1 _ hknown' _ hknown (Option.some_inj.mp hsource)
    have hsame : manager' = manager := hmanager
    rwa [hsame] at hdeclared
  · intro hdeclared
    exact ⟨manager, lockfile, command, hknown, hpresent, hdeclared, rfl⟩

theorem installStep_ne_copyStep (lockfile command : Str) : installStep lockfile command ≠ copyStep := by
  intro heq
  cases congrArg SetupStep.source heq

/-- The requirements of a project declare no manager but `go`. -/
theorem manager_declared_iff (h : detectRequirements rt files = .ok requirements)
    {manager lockfile command : Str} (hknown : (manager, lockfile, command) ∈ installCommands) :
    (∃ r ∈ requirements, r.ecosystem = manager) ↔
      manager = lit "go" ∧ ∃ r ∈ requirements, r.ecosystem = lit "go" := by
  constructor
  · rintro ⟨r, hr, hmanager⟩
    have hdetected := detected_ecosystem h r hr
    rw [hmanager] at hdetected
    have hgo : manager = lit "go" := manager_names.2.1 _ hknown hdetected
    exact ⟨hgo, r, hr, hmanager.trans hgo⟩
  · rintro ⟨rfl, hdeclared⟩
    exact hdeclared

/-- Of the lockfiles of a project, the sums of Go and the requirements of pip are installed
from, and no other. -/
theorem lockedInstalls_iff (agent : AgentRuntime) (isoformat : Str → Str) (report : ScanReport)
    (failingCommand expectedSymptom : Option Str) (present : List Str) (baseDigest : Option Str)
    (h : detectRequirements rt files = .ok report.requirements) :
    LockedInstalls report.requirements present
        (buildReproduction agent isoformat report failingCommand expectedSymptom present
          baseDigest).steps ↔
      ∀ manager lockfile command, Locks report.requirements present manager lockfile command →
        manager = lit "go" ∨ manager = lit "pip" := by
  refine forall_congr' fun manager => forall_congr' fun lockfile => forall_congr' fun command =>
    forall_congr' fun hlocks => ?_
  have hmem : installStep lockfile command ∈ (buildReproduction agent isoformat report
      failingCommand expectedSymptom present baseDigest).steps ↔
        installStep lockfile command ∈ installSteps report.requirements present := by
    rw [buildReproduction, List.mem_cons, or_iff_right (installStep_ne_copyStep _ _)]
  rw [hmem, installStep_mem_iff hlocks.known hlocks.present, manager_declared_iff h hlocks.known]
  obtain ⟨language, hlanguage, hdeclared⟩ := hlocks.declared
  constructor
  · rintro (⟨hgo, -⟩ | ⟨hpip, -⟩)
    · exact Or.inl hgo
    · exact Or.inr hpip
  · rintro (hgo | hpip)
    · have hname : language = lit "go" := manager_names.2.2.1 _ hlanguage hgo
      exact Or.inl ⟨hgo, hname ▸ hdeclared⟩
    · have hname : language = lit "python" := manager_names.2.2.2.1 _ hlanguage hpip
      exact Or.inr ⟨hpip, hname ▸ hdeclared⟩

end Locked

namespace Sample

/-- A project with some files at its root. -/
def projectOf (texts : List (Str × Str)) : ProjectFiles where
  root := "/work"
  read := fun name => Dict.find? name texts
  requirementFiles := []
  csprojFiles := []
  workflows := []
  tree := ⟨fun _ => some [], fun path => (Dict.find? (posix path) texts).isSome⟩

/-- The requirements of a project, if they are found. -/
def foundIn (files : ProjectFiles) : List ProjectRequirement :=
  (detectRequirements .standard files).toOption.getD []

theorem foundIn_eq {files : ProjectFiles}
    (h : (detectRequirements .standard files).toOption.isSome = true) :
    detectRequirements .standard files = .ok (foundIn files) := by
  rw [foundIn]
  cases hfound : detectRequirements .standard files with
  | ok found => rfl
  | error e =>
    rw [hfound] at h
    cases h

/-- A machine that was scanned for a project. -/
def reportOf (requirements : List ProjectRequirement) : ScanReport :=
  ⟨"1.0", "2026-01-01T00:00:00Z", "0.2.0", ⟨"Linux", "6.5", "x86_64", none, none, false⟩, [], [],
    none, requirements, false, none, [], none, none, none, []⟩

def goProject : ProjectFiles := projectOf [("go.mod", "module work\n\ngo 1.22\n"), ("go.sum", "")]

/-- A project of Node that depends on a package, and names no version of Node. -/
def nodeProject : ProjectFiles :=
  projectOf [("package.json", "\x7b\"dependencies\": \x7b\"left-pad\": \"^1.3.0\"\x7d\x7d"),
    ("package-lock.json", "\x7b\x7d")]

end Sample

open Sample

/-- A project of Go is installed. -/
theorem goProject_installs :
    LockedInstalls (foundIn goProject) ["go.sum"]
      (buildReproduction .standard id (reportOf (foundIn goProject)) none none ["go.sum"] none).steps := by
  have hfound : detectRequirements .standard goProject = .ok (reportOf (foundIn goProject)).requirements :=
    foundIn_eq (by decide +kernel)
  refine (lockedInstalls_iff .standard id _ none none ["go.sum"] none hfound).mpr ?_
  intro manager lockfile command hlocks
  have htable : ∀ entry ∈ installCommands, entry.2.1 = lit "go.sum" → entry.1 = lit "go" := by
    decide +kernel
  exact Or.inl (htable _ hlocks.known (List.mem_singleton.mp hlocks.present))

/-- A project of Node with a lockfile of npm is not installed. -/
theorem nodeProject_not_installed :
    ∃ requirements, detectRequirements .standard nodeProject = .ok requirements ∧
      ¬LockedInstalls requirements ["package-lock.json"]
        (buildReproduction .standard id (reportOf requirements) none none ["package-lock.json"]
          none).steps := by
  have hevaluated : (detectRequirements .standard nodeProject).toOption.isSome = true ∧
      (installSteps (foundIn nodeProject) ["package-lock.json"]).isEmpty = true ∧
        lit "node" ∈ (foundIn nodeProject).map ProjectRequirement.ecosystem := by
    decide +kernel
  obtain ⟨hsome, hempty, hnode⟩ := hevaluated
  refine ⟨foundIn nodeProject, foundIn_eq hsome, fun hall => ?_⟩
  obtain ⟨r, hr, hecosystem⟩ := List.mem_map.mp hnode
  have hstep := hall "npm" "package-lock.json" "npm ci"
    ⟨List.mem_cons_self, List.mem_cons_self, lit "node", List.mem_cons_self, r, hr, hecosystem⟩
  rcases List.mem_cons.mp hstep with hcopy | hinstall
  · exact installStep_ne_copyStep _ _ hcopy
  · rw [List.isEmpty_iff] at hempty
    have hnil : installStep "package-lock.json" "npm ci" ∈
        installSteps (foundIn nodeProject) ["package-lock.json"] := hinstall
    rw [hempty] at hnil
    cases hnil

end DevRepro.Reproduce
