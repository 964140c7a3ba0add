import DevRepro.Lib.MapM
import DevRepro.Project.Lockfiles
import DevRepro.Project.TomlReader
import DevRepro.Project.VersionFiles
import DevRepro.Rules.DeclaredRuntimes

/-!
# What a project requires

`detect_requirements` of `project/detectors.py`: the detectors of the ecosystems, one after
another, and then the lockfiles, the containers and the workflows.  A requirement carries
the ecosystem of its detector (`detected_ecosystem`).
-/

namespace DevRepro.Project

open DevRepro.Python DevRepro.Lib DevRepro.Agents DevRepro.Snapshots DevRepro.Rules DevRepro.Core

/-! ## The project -/

/-- What the detectors see of a project, where a file goes by its path from the root. -/
structure ProjectFiles where
  /-- `str(root)` -/
  root : Str
  /-- `_read`. -/
  read : Str → Option Str
  /-- `sorted(root.glob("requirements*.txt"))` -/
  requirementFiles : List Str
  /-- `root.glob("*.csproj")` -/
  csprojFiles : List Str
  /-- `sorted(wf_dir.glob("*.yml")) + sorted(wf_dir.glob("*.yaml"))`, or nothing if there is
  no such directory. -/
  workflows : List Str
  tree : DirTree

/-- `str(root / name)` -/
def ProjectFiles.path (files : ProjectFiles) (name : Str) : Str := files.root ++ lit "/" ++ name

/-- A text that is not empty, as `if text:` takes it. -/
def ProjectFiles.content (files : ProjectFiles) (name : Str) : Option Str :=
  (files.read name).filter fun text => text ≠ []

/-- What the detectors take from the interpreter. -/
structure DetectRuntime extends AgentRuntime, PolicyRuntime where
  /-- `tomllib.loads`. -/
  tomlLoads : Str → Except Exc Document
  /-- `type(value).__name__` of a date or a time. -/
  dateTypeName : Str → Str

/-- A `ProjectParseError`, which ends the detection. -/
def projectParseError : ExcType := .other "ProjectParseError"

/-- `except type as exc: raise ProjectParseError(f"invalid {name}: {exc}") from exc` -/
def orInvalid {α : Type} (type : ExcType) (name : Str) : Except Exc α → Except Exc α
  | .ok value => .ok value
  | .error e =>
    if e.type = type then
      .error ⟨projectParseError, lit "invalid " ++ name ++ lit ": " ++ e.text⟩
    else .error e

/-- The interpreter for evaluation, which reads the TOML of strings and booleans. -/
def DetectRuntime.standard : DetectRuntime where
  toAgentRuntime := .standard
  toRuntime := .standard
  tomlStr := PolicyRuntime.standard.tomlStr
  tomlLoads := fun text =>
    match loadsToml (fun _ => none) text with
    | some data => .ok data
    | none => .error ⟨.other "TOMLDecodeError", []⟩
  dateTypeName := fun _ => "datetime"

section Detectors

variable (rt : DetectRuntime) (files : ProjectFiles)

/-! ## Documents -/

/-- `type(value).__name__` -/
def Toml.typeName : Toml → Str
  | .str _ => "str"
  | .int _ => "int"
  | .float _ => "float"
  | .bool _ => "bool"
  | .dateTime text => rt.dateTypeName text
  | .arr _ => "list"
  | .table _ => "dict"

def lacksAttribute {α : Type} (value : Toml) (name : Str) : Except Exc α :=
  .error ⟨.attributeError,
    lit "'" ++ value.typeName rt ++ lit "' object has no attribute '" ++ name ++ lit "'"⟩

/-- `value.get(key)` -/
def Toml.get? (value : Toml) (key : Str) : Except Exc (Option Toml) :=
  match value with
  | .table items => .ok (Dict.find? key items)
  | other => lacksAttribute rt other "get"

/-- `value.items()` -/
def Toml.entries (value : Toml) : Except Exc Document :=
  match value with
  | .table items => .ok items
  | other => lacksAttribute rt other "items"

/-- `value or default` -/
def Toml.orElse (value default : Toml) : Toml := if value.truthy then value else default

/-- What `for item in value` goes through. -/
def Toml.elements : Toml → Except Exc (List Toml)
  | .arr elems => .ok elems
  | .str s => .ok (s.map fun c => .str [c])
  | .table items => .ok (items.map fun item => .str item.1)
  | other =>
    .error ⟨.typeError, lit "'" ++ other.typeName rt ++ lit "' object is not iterable"⟩

/-- `str(value)`, which no policy refuses. -/
def Toml.text (value : Toml) : Except Exc Str :=
  match value.toStr rt.toPolicyRuntime with
  | .ok s => .ok s
  | .error (.raised e) => .error e
  | .error (.policyError message _) => .error ⟨.other "PolicyError", message⟩

/-- The requirement of a value, when it is a string. -/
def stringReq (ecosystem name source : Str) : Option Toml → List ProjectRequirement
  | some (.str spec) => [req ecosystem name spec .runtime source]
  | _ => []

/-- The same of a JSON value. -/
def jsonReq (ecosystem name source : Str) : Option Json → List ProjectRequirement
  | some (.str spec) => [req ecosystem name spec .runtime source]
  | _ => []

/-- The requirement of a file that holds a version. -/
def pinnedReq (ecosystem name file : Str) : List ProjectRequirement :=
  match files.read file with
  | some text =>
    if strip text = [] then [] else [req ecosystem name (strip text) .runtime (files.path file)]
  | none => []

/-- The requirements of a file, or none if there is no such file. -/
def fileReqs (text : Option Str) (parse : Str → Except Exc (List ProjectRequirement)) :
    Except Exc (List ProjectRequirement) :=
  match text with
  | none => .ok []
  | some text => parse text

/-! ## Python -/

/-- A character of `[A-Za-z0-9._\-]`. -/
def isPackageChar (c : CodePoint) : Bool :=
  isAsciiLetter c || (0x30 ≤ c.val && c.val ≤ 0x39) || c == codePoint '.' || c == codePoint '_' ||
    c == codePoint '-'

/-- `(\[[^\]]*\])?`, and what is behind it. -/
def extrasOf (s : Str) : Str × Str :=
  match s with
  | [] => ([], [])
  | c :: inside =>
    match inside.dropWhile fun d => d ≠ codePoint ']' with
    | close :: behind =>
      if c = codePoint '[' then
        (c :: (inside.takeWhile fun d => d ≠ codePoint ']') ++ [close], behind)
      else ([], s)
    | [] => ([], s)

/-- `_pep508_split`. -/
def pep508Split (dep : Str) : Str × Str × Str :=
  let text := strip dep
  let name := text.takeWhile isPackageChar
  let (extras, behind) := extrasOf ((text.drop name.length).dropWhile isSpace)
  let spec := behind.dropWhile isSpace
  if name = [] ∨ codePoint '\n' ∈ spec then (text, [], []) else (name, extras, strip spec)

/-- The requirement of a package. -/
def packageReq (source dep : Str) : ProjectRequirement :=
  req "python" (pep508Split dep).1 (pep508Split dep).2.2 .runtime source

/-- The requirement of a dependency of Poetry. -/
def poetryReq (source : Str) (item : Str × Toml) : Option ProjectRequirement :=
  if item.1 = lit "python" then none
  else
    let spec := match item.2 with
      | .str spec => spec
      | _ => "*"
    some (req "python" item.1 (spec.dropWhile fun c => c = codePoint '^' ∨ c = codePoint '~')
      .runtime source)

/-- The requirements of `pyproject.toml`. -/
def pyprojectReqs (source text : Str) : Except Exc (List ProjectRequirement) := do
  let data ← orInvalid (.other "TOMLDecodeError") "pyproject.toml" (rt.tomlLoads text)
  let project := (Dict.find? (lit "project") data).getD (.table [])
  let runtime ← project.get? rt "requires-python"
  let dependencies ← project.get? rt "dependencies"
  let elements ← ((dependencies.getD (.arr [])).orElse (.arr [])).elements rt
  let packages ← elements.mapM fun dep => return packageReq source (← dep.text rt)
  let tool := (Dict.find? (lit "tool") data).getD (.table [])
  let poetry := (← tool.get? rt "poetry").getD (.table [])
  let poetryDependencies := ((← poetry.get? rt "dependencies").getD (.table [])).orElse (.table [])
  return stringReq "python" "python" source runtime ++ packages ++
    (← poetryDependencies.entries rt).filterMap (poetryReq source)

/-- The requirements of a requirements file. -/
def requirementsReqs (source text : Str) : List ProjectRequirement :=
  (((splitlines text).map strip).filter fun entry =>
    entry ≠ [] ∧ startsWith entry "#" = false ∧ startsWith entry "-" = false).map (packageReq source)

/-- `_python_deps`. -/
def pythonDeps : Except Exc (List ProjectRequirement) := do
  let declared ← fileReqs (files.read "pyproject.toml") (pyprojectReqs rt (files.path "pyproject.toml"))
  return declared ++ files.requirementFiles.flatMap fun name =>
    requirementsReqs (files.path name) ((files.read name).getD [])

/-! ## The other languages -/

/-- `<TargetFramework>([^<]+)</TargetFramework>`, at the start of a text. -/
def targetFramework (s : Str) : Option Str :=
  let opening := lit "<TargetFramework>"
  let inside := (s.drop opening.length).takeWhile fun c => c ≠ codePoint '<'
  if startsWith s opening ∧ inside ≠ [] ∧
      startsWith (s.drop (opening.length + inside.length)) "</TargetFramework>" then some inside
  else none

/-- The requirement of `global.json`. -/
def globalJsonReqs (source text : Str) : Except Exc (List ProjectRequirement) := do
  let data ← orInvalid .jsonDecodeError "global.json" (loads rt.limits text)
  let sdk := (← data.getD "sdk" .null).orElse (.obj [])
  return jsonReq "dotnet" "dotnet-sdk" source (← sdk.get? "version")

/-- `_dotnet_deps`. -/
def dotnetDeps : Except Exc (List ProjectRequirement) := do
  let sdk ← fileReqs (files.content "global.json") (globalJsonReqs rt (files.path "global.json"))
  return sdk ++ (files.csprojFiles.take 10).flatMap fun name =>
    (((files.read name).getD []).tails.filterMap targetFramework).map fun framework =>
      req "dotnet" "target-framework" (strip framework) .runtime (files.path name)

/-- The starts of the lines that `^` finds. -/
def lineStarts (text : Str) : List Str :=
  text :: text.tails.filterMap fun s =>
    match s with
    | c :: rest => if c = codePoint '\n' then some rest else none
    | [] => none

/-- `go\s+(\d+\.\d+(?:\.\d+)?)` -/
def goVersion (s : Str) : Option Str :=
  let (major, behind) := leadingDigits ((s.drop 2).dropWhile isSpace)
  if startsWith s "go" ∧ ((s.drop 2).head?.any isSpace) ∧ major ≠ [] then
    match dottedDigits behind with
    | (some minor, behind) =>
      match (dottedDigits behind).1 with
      | some patch => some (major ++ lit "." ++ minor ++ lit "." ++ patch)
      | none => some (major ++ lit "." ++ minor)
    | (none, _) => none
  else none

/-- `_go_deps`. -/
def goDeps : Except Exc (List ProjectRequirement) :=
  .ok (((files.content "go.mod").bind fun text => (lineStarts text).findSome? goVersion).toList.map
    fun version => req "go" "go" (lit ">=" ++ version) .runtime (files.path "go.mod"))

/-- `\s*(.+)`, where whitespace alone keeps a character. -/
def restOfText (s : Str) : Option Str :=
  match s.dropWhile isSpace with
  | [] => (s.filter fun c => c ≠ codePoint '\n').getLast?.map fun c => [c]
  | c :: rest => some ((c :: rest).takeWhile fun c => c ≠ codePoint '\n')

/-- `rust-version\s*=\s*(.+)` -/
def rustVersion (s : Str) : Option Str :=
  if startsWith s "rust-version" then
    match (s.drop 12).dropWhile isSpace with
    | c :: rest => if c = codePoint '=' then restOfText rest else none
    | [] => none
  else none

/-- The requirement of `rust-toolchain.toml`. -/
def rustToolchainReqs (source text : Str) : Except Exc (List ProjectRequirement) := do
  let data ← orInvalid (.other "TOMLDecodeError") "rust-toolchain.toml" (rt.tomlLoads text)
  let toolchain := (Dict.find? (lit "toolchain") data).getD (.table [])
  return stringReq "rust" "rust-toolchain" source (← toolchain.get? rt "channel")

/-- `_rust_deps`. -/
def rustDeps : Except Exc (List ProjectRequirement) := do
  let toolchain ← fileReqs (files.content "rust-toolchain.toml")
    (rustToolchainReqs rt (files.path "rust-toolchain.toml"))
  let pinned := if (files.content "rust-toolchain.toml").isSome then []
    else pinnedReq files "rust" "rust-toolchain" "rust-toolchain"
  let version := (files.content "Cargo.toml").bind fun text => text.tails.findSome? rustVersion
  return toolchain ++ pinned ++ version.toList.map fun version =>
    req "rust" "rustc" (stripChars isSingle (stripChars isDouble (strip version))) .runtime
      (files.path "Cargo.toml")

/-- The requirement of `composer.json`. -/
def composerReqs (source text : Str) : Except Exc (List ProjectRequirement) := do
  let data ← orInvalid .jsonDecodeError "composer.json" (loads rt.limits text)
  let require := (← data.getD "require" .null).orElse (.obj [])
  return jsonReq "php" "php" source (← require.get? "php")

/-- `_php_ruby_java_deps`. -/
def phpRubyJavaDeps : Except Exc (List ProjectRequirement) := do
  let php ← fileReqs (files.content "composer.json") (composerReqs rt (files.path "composer.json"))
  return php ++ pinnedReq files "ruby" "ruby" ".ruby-version" ++
    pinnedReq files "java" "java" ".java-version" ++
    toolVersionsReqs (files.path ".tool-versions") ((files.read ".tool-versions").getD []) ++
    miseReqs rt.toAgentRuntime (files.path "mise.toml") ((files.read "mise.toml").getD [])

/-- `cmake_minimum_required\s*\(\s*VERSION\s+([\d.]+)` -/
def cmakeVersion (s : Str) : Option Str :=
  let call := lit "cmake_minimum_required"
  let opened := (s.drop call.length).dropWhile isSpace
  let named := (opened.drop 1).dropWhile isSpace
  let version := ((named.drop 7).dropWhile isSpace).takeWhile fun c =>
    (digitValue? c).isSome || c == codePoint '.'
  if startsWith s call ∧ startsWith opened "(" ∧ startsWith named "VERSION" ∧
      (named.drop 7).head?.any isSpace ∧ version ≠ [] then some version
  else none

/-- The requirement of a file that is there. -/
def presentReq (ecosystem name : Str) (kind : RequirementKind) (file : List Str) :
    List ProjectRequirement :=
  if files.tree.isFile file then [req ecosystem name "*" kind (files.path (posix file))] else []

/-- `_cpp_deps`. -/
def cppDeps : Except Exc (List ProjectRequirement) :=
  let version := (files.content "CMakeLists.txt").bind fun text => text.tails.findSome? cmakeVersion
  .ok ((version.toList.map fun version =>
      req "cpp" "cmake" (lit ">=" ++ version) .compiler (files.path "CMakeLists.txt")) ++
    presentReq files "cpp" "vcpkg-manifest" .tool ["vcpkg.json"] ++
    presentReq files "cpp" "conan" .tool ["conanfile.txt"])

/-! ## Containers and workflows -/

/-- `_container_deps`. -/
def containerDeps : List ProjectRequirement :=
  let compose := [lit "compose.yaml", lit "compose.yml", lit "docker-compose.yml",
    lit "docker-compose.yaml"].find? fun name => files.tree.isFile [name]
  let devcontainer := presentReq files "container" "devcontainer" .container
    [".devcontainer", "devcontainer.json"]
  presentReq files "container" "docker-build" .container ["Dockerfile"] ++
    (compose.toList.map fun name =>
      req "container" "docker-compose" "*" .container (files.path name)) ++
    if devcontainer = [] then
      presentReq files "container" "devcontainer" .container [".devcontainer.json"]
    else devcontainer

/-- `_CI_VERSION_RE`. -/
def ciVersionKeys : List (Str × Str) :=
  [("python", "python-version:"), ("node", "node-version:"), ("go", "go-version:")]

/-- A key with the text behind it, up to whitespace: `\s*(\S+)`. -/
def ciVersionHere (key s : Str) : Option Str :=
  let version := ((s.drop key.length).dropWhile isSpace).takeWhile fun c => !isSpace c
  if startsWith s key ∧ version ≠ [] then some version else none

/-- `_ci_deps`. -/
def ciDeps : List ProjectRequirement :=
  files.workflows.flatMap fun name =>
    let text := (files.read (lit ".github/workflows/" ++ name)).getD []
    ciVersionKeys.filterMap fun (ecosystem, key) =>
      ((text.tails.filterMap (ciVersionHere key)).find? fun version => version ≠ lit "$").map
        fun version => req ecosystem (lit "ci:" ++ ecosystem) version .runtime
          (files.path (lit ".github/workflows/" ++ name))

/-! ## The detection -/

/-- `_BUILTIN_DETECTORS`, with what they return. -/
def builtinDetectors : List (Str × Except Exc (List ProjectRequirement)) :=
  [("_python_deps", pythonDeps rt files),
    ("_node_deps",
      orInvalid .jsonDecodeError "package.json" (nodeDeps rt.toRuntime files.root files.read)),
    ("_dotnet_deps", dotnetDeps rt files), ("_go_deps", goDeps files), ("_rust_deps", rustDeps rt files),
    ("_php_ruby_java_deps", phpRubyJavaDeps rt files), ("_cpp_deps", cppDeps files)]

/-- What a detector adds: a failure of its own is a requirement too. -/
def runDetector (detector : Str × Except Exc (List ProjectRequirement)) :
    Except Exc (List ProjectRequirement) :=
  match detector.2 with
  | .ok found => .ok found
  | .error e =>
    if e.type = projectParseError then .error e
    else .ok [⟨"generic", lit "parse-error:" ++ detector.1, "*", .tool, files.root, false,
      some (lit "detector failed: " ++ e.type.name ++ lit ": " ++ e.text)⟩]

/-- `detect_requirements`. -/
def detectRequirements : Except Exc (List ProjectRequirement) := do
  let detected ← (builtinDetectors rt files).mapM (runDetector files)
  return detected.flatten ++
    (lockfiles (fun path => files.path (posix path)) files.tree).map Prod.snd ++
    containerDeps files ++ ciDeps files

end Detectors

/-! ## Ecosystems -/

/-- The ecosystems of the detectors. -/
def detectedEcosystems : List Str :=
  texts ["python", "node", "dotnet", "go", "rust", "php", "ruby", "java", "generic", "cpp", "container"]

/-- Requirements with an ecosystem of the detectors. -/
def Detected (found : List ProjectRequirement) : Prop :=
  ∀ r ∈ found, r.ecosystem ∈ detectedEcosystems

section Ecosystems

variable {rt : DetectRuntime} {files : ProjectFiles} {found other : List ProjectRequirement}

/-- The ecosystems that the detectors write. -/
theorem written_ecosystems :
    (lit "python" ∈ detectedEcosystems ∧ lit "node" ∈ detectedEcosystems ∧
      lit "dotnet" ∈ detectedEcosystems ∧ lit "go" ∈ detectedEcosystems ∧
      lit "rust" ∈ detectedEcosystems ∧ lit "php" ∈ detectedEcosystems ∧
      lit "ruby" ∈ detectedEcosystems ∧ lit "java" ∈ detectedEcosystems ∧
      lit "generic" ∈ detectedEcosystems ∧ lit "cpp" ∈ detectedEcosystems ∧
      lit "container" ∈ detectedEcosystems) ∧
    (∀ item ∈ ciVersionKeys, item.1 ∈ detectedEcosystems) ∧
    ∀ marker ∈ lockfileMarkers, marker.2.1 ∈ detectedEcosystems := by
  decide +kernel

theorem Detected.nil : Detected [] := fun _ hr => nomatch hr

theorem Detected.append (h : Detected found) (h' : Detected other) : Detected (found ++ other) := by
  intro r hr
  rcases List.mem_append.mp hr with hr | hr
  · exact h r hr
  · exact h' r hr

theorem Detected.map {α : Type} {f : α → ProjectRequirement}
    (h : ∀ a, (f a).ecosystem ∈ detectedEcosystems) (l : List α) : Detected (l.map f) := by
  intro r hr
  obtain ⟨a, -, rfl⟩ := List.mem_map.mp hr
  exact h a

theorem Detected.flatMap {α : Type} {f : α → List ProjectRequirement} (h : ∀ a, Detected (f a))
    (l : List α) : Detected (l.flatMap f) := by
  intro r hr
  obtain ⟨a, -, hr⟩ := List.mem_flatMap.mp hr
  exact h a r hr

theorem Detected.filterMap {α : Type} {f : α → Option ProjectRequirement}
    (h : ∀ a, ∀ r ∈ f a, r.ecosystem ∈ detectedEcosystems) (l : List α) :
    Detected (l.filterMap f) := by
  intro r hr
  obtain ⟨a, -, hr⟩ := List.mem_filterMap.mp hr
  exact h a r hr

theorem Detected.mapM {α : Type} {f : α → Except Exc ProjectRequirement} {l : List α}
    (h : ∀ a r, f a = .ok r → r.ecosystem ∈ detectedEcosystems) (hmap : l.mapM f = .ok found) :
    Detected found := by
  intro r hr
  obtain ⟨a, -, hr⟩ := exists_of_mem_mapM_ok hmap hr
  exact h a r hr

theorem detected_stringReq {ecosystem name source : Str} (h : ecosystem ∈ detectedEcosystems)
    (value : Option Toml) : Detected (stringReq ecosystem name source value) := by
  intro r hr
  unfold stringReq at hr
  split at hr
  · rw [List.mem_singleton.mp hr]
    exact h
  · cases hr

theorem detected_jsonReq {ecosystem name source : Str} (h : ecosystem ∈ detectedEcosystems)
    (value : Option Json) : Detected (jsonReq ecosystem name source value) := by
  intro r hr
  unfold jsonReq at hr
  split at hr
  · rw [List.mem_singleton.mp hr]
    exact h
  · cases hr

theorem detected_pinnedReq {ecosystem name file : Str} (h : ecosystem ∈ detectedEcosystems) :
    Detected (pinnedReq files ecosystem name file) := by
  intro r hr
  unfold pinnedReq at hr
  split at hr
  · split at hr
    · cases hr
    · rw [List.mem_singleton.mp hr]
      exact h
  · cases hr

theorem detected_presentReq {ecosystem name : Str} {kind : RequirementKind} {file : List Str}
    (h : ecosystem ∈ detectedEcosystems) : Detected (presentReq files ecosystem name kind file) := by
  intro r hr
  unfold presentReq at hr
  split at hr
  · rw [List.mem_singleton.mp hr]
    exact h
  · cases hr

theorem Detected.fileReqs {text : Option Str} {parse : Str → Except Exc (List ProjectRequirement)}
    (h : ∀ text found, parse text = .ok found → Detected found)
    (hfound : fileReqs text parse = .ok found) : Detected found := by
  cases text with
  | none =>
    cases hfound
    exact Detected.nil
  | some text => exact h text found hfound

theorem orInvalid_eq_ok {α : Type} {type : ExcType} {name : Str} {x : Except Exc α} {a : α} :
    orInvalid type name x = .ok a ↔ x = .ok a := by
  cases x with
  | ok value => exact Iff.rfl
  | error e =>
    constructor
    · intro h
      rw [orInvalid] at h
      split at h <;> cases h
    · intro h
      cases h

theorem pyprojectReqs_detected {source text : Str} (h : pyprojectReqs rt source text = .ok found) :
    Detected found := by
  obtain ⟨⟨hpython, -, -, -, -, -, -, -, -, -, -⟩, -⟩ := written_ecosystems
  rw [pyprojectReqs] at h
  obtain ⟨data, -, h⟩ := bind_eq_ok.mp h
  obtain ⟨runtime, -, h⟩ := bind_eq_ok.mp h
  obtain ⟨dependencies, -, h⟩ := bind_eq_ok.mp h
  obtain ⟨elements, -, h⟩ := bind_eq_ok.mp h
  obtain ⟨packages, hpackages, h⟩ := bind_eq_ok.mp h
  obtain ⟨poetry, -, h⟩ := bind_eq_ok.mp h
  obtain ⟨poetryDependencies, -, h⟩ := bind_eq_ok.mp h
  obtain ⟨entries, -, h⟩ := bind_eq_ok.mp h
  rw [← pure_eq_ok.mp h]
  refine (Detected.append (detected_stringReq hpython runtime) ?_).append ?_
  · refine Detected.mapM ?_ hpackages
    intro dep r hr
    obtain ⟨name, -, hr⟩ := bind_eq_ok.mp hr
    rw [← pure_eq_ok.mp hr]
    exact hpython
  · refine Detected.filterMap ?_ entries
    intro item r hr
    rw [poetryReq] at hr
    split at hr
    · cases hr
    · cases hr
      exact hpython

theorem pythonDeps_detected (h : pythonDeps rt files = .ok found) : Detected found := by
  obtain ⟨⟨hpython, -, -, -, -, -, -, -, -, -, -⟩, -⟩ := written_ecosystems
  rw [pythonDeps] at h
  obtain ⟨declared, hdeclared, h⟩ := bind_eq_ok.mp h
  rw [← pure_eq_ok.mp h]
  exact (Detected.fileReqs (fun _ _ => pyprojectReqs_detected) hdeclared).append
    (Detected.flatMap (fun name => Detected.map (fun _ => hpython) _) _)

theorem sectionReqs_detected {run : Runtime} {source name : Str} {data : Json}
    (h : sectionReqs run source data name = .ok found) : Detected found := by
  obtain ⟨⟨-, hnode, -, -, -, -, -, -, -, -, -⟩, -⟩ := written_ecosystems
  rw [sectionReqs] at h
  obtain ⟨value, -, h⟩ := bind_eq_ok.mp h
  split at h
  · refine Detected.mapM ?_ h
    intro item r hr
    obtain ⟨spec, -, hr⟩ := bind_eq_ok.mp hr
    rw [← pure_eq_ok.mp hr]
    exact hnode
  · cases h

theorem engineReq_detected (source name : Str) (value : Option Json) :
    Detected (engineReq source name value) := by
  obtain ⟨⟨-, hnode, -, -, -, -, -, -, -, -, -⟩, -⟩ := written_ecosystems
  intro r hr
  unfold engineReq at hr
  split at hr
  · rw [List.mem_singleton.mp hr]
    exact hnode
  · cases hr

theorem pinReqs_detected (source : Str) (text : Option Str) : Detected (pinReqs source text) := by
  obtain ⟨⟨-, hnode, -, -, -, -, -, -, -, -, -⟩, -⟩ := written_ecosystems
  intro r hr
  unfold pinReqs at hr
  split at hr
  · cases hr
  · split at hr
    · cases hr
    · rw [List.mem_singleton.mp hr]
      exact hnode

theorem packageReqs_detected {run : Runtime} {source text : Str}
    (h : packageReqs run source text = .ok found) : Detected found := by
  rw [packageReqs] at h
  obtain ⟨data, -, h⟩ := bind_eq_ok.mp h
  obtain ⟨engines, -, h⟩ := bind_eq_ok.mp h
  obtain ⟨node, -, h⟩ := bind_eq_ok.mp h
  obtain ⟨npm, -, h⟩ := bind_eq_ok.mp h
  obtain ⟨dependencies, hdependencies, h⟩ := bind_eq_ok.mp h
  obtain ⟨devDependencies, hdev, h⟩ := bind_eq_ok.mp h
  rw [← pure_eq_ok.mp h]
  exact (((engineReq_detected _ _ node).append (engineReq_detected _ _ npm)).append
    (sectionReqs_detected hdependencies)).append (sectionReqs_detected hdev)

theorem nodeDeps_detected {run : Runtime} {root : Str} {read : Str → Option Str}
    (h : nodeDeps run root read = .ok found) : Detected found := by
  rw [nodeDeps] at h
  cases hread : read "package.json" with
  | none =>
    rw [hread] at h
    rw [← pure_eq_ok.mp h]
    exact (Detected.nil.append (pinReqs_detected _ _)).append (pinReqs_detected _ _)
  | some text =>
    rw [hread] at h
    obtain ⟨declared, hdeclared, h⟩ := bind_eq_ok.mp h
    rw [← pure_eq_ok.mp h]
    exact ((packageReqs_detected hdeclared).append (pinReqs_detected _ _)).append
      (pinReqs_detected _ _)

theorem dotnetDeps_detected (h : dotnetDeps rt files = .ok found) : Detected found := by
  obtain ⟨⟨-, -, hdotnet, -, -, -, -, -, -, -, -⟩, -⟩ := written_ecosystems
  rw [dotnetDeps] at h
  obtain ⟨sdk, hsdk, h⟩ := bind_eq_ok.mp h
  rw [← pure_eq_ok.mp h]
  refine Detected.append (Detected.fileReqs ?_ hsdk)
    (Detected.flatMap (fun name => Detected.map (fun _ => hdotnet) _) _)
  intro text found hfound
  rw [globalJsonReqs] at hfound
  obtain ⟨data, -, hfound⟩ := bind_eq_ok.mp hfound
  obtain ⟨value, -, hfound⟩ := bind_eq_ok.mp hfound
  obtain ⟨version, -, hfound⟩ := bind_eq_ok.mp hfound
  rw [← pure_eq_ok.mp hfound]
  exact detected_jsonReq hdotnet version

theorem goDeps_detected (h : goDeps files = .ok found) : Detected found := by
  obtain ⟨⟨-, -, -, hgo, -, -, -, -, -, -, -⟩, -⟩ := written_ecosystems
  cases h
  exact Detected.map (fun _ => hgo) _

theorem rustDeps_detected (h : rustDeps rt files = .ok found) : Detected found := by
  obtain ⟨⟨-, -, -, -, hrust, -, -, -, -, -, -⟩, -⟩ := written_ecosystems
  rw [rustDeps] at h
  obtain ⟨toolchain, htoolchain, h⟩ := bind_eq_ok.mp h
  rw [← pure_eq_ok.mp h]
  refine ((Detected.fileReqs ?_ htoolchain).append ?_).append (Detected.map (fun _ => hrust) _)
  · intro text found hfound
    rw [rustToolchainReqs] at hfound
    obtain ⟨data, -, hfound⟩ := bind_eq_ok.mp hfound
    obtain ⟨channel, -, hfound⟩ := bind_eq_ok.mp hfound
    rw [← pure_eq_ok.mp hfound]
    exact detected_stringReq hrust channel
  · split
    · exact Detected.nil
    · exact detected_pinnedReq hrust

theorem phpRubyJavaDeps_detected (h : phpRubyJavaDeps rt files = .ok found) : Detected found := by
  obtain ⟨⟨-, -, -, -, -, hphp, hruby, hjava, hgeneric, -, -⟩, -⟩ := written_ecosystems
  rw [phpRubyJavaDeps] at h
  obtain ⟨declared, hdeclared, h⟩ := bind_eq_ok.mp h
  rw [← pure_eq_ok.mp h]
  refine ((((Detected.fileReqs ?_ hdeclared).append (detected_pinnedReq hruby)).append
    (detected_pinnedReq hjava)).append (Detected.map (fun _ => hgeneric) _)).append
      (Detected.map (fun _ => hgeneric) _)
  intro text found hfound
  rw [composerReqs] at hfound
  obtain ⟨data, -, hfound⟩ := bind_eq_ok.mp hfound
  obtain ⟨value, -, hfound⟩ := bind_eq_ok.mp hfound
  obtain ⟨version, -, hfound⟩ := bind_eq_ok.mp hfound
  rw [← pure_eq_ok.mp hfound]
  exact detected_jsonReq hphp version

theorem cppDeps_detected (h : cppDeps files = .ok found) : Detected found := by
  obtain ⟨⟨-, -, -, -, -, -, -, -, -, hcpp, -⟩, -⟩ := written_ecosystems
  cases h
  exact ((Detected.map (fun _ => hcpp) _).append (detected_presentReq hcpp)).append
    (detected_presentReq hcpp)

theorem containerDeps_detected : Detected (containerDeps files) := by
  obtain ⟨⟨-, -, -, -, -, -, -, -, -, -, hcontainer⟩, -⟩ := written_ecosystems
  rw [containerDeps]
  refine ((detected_presentReq hcontainer).append (Detected.map (fun _ => hcontainer) _)).append ?_
  split
  · exact detected_presentReq hcontainer
  · exact detected_presentReq hcontainer

theorem ciDeps_detected : Detected (ciDeps files) := by
  refine Detected.flatMap (fun name => ?_) _
  intro r hr
  obtain ⟨⟨ecosystem, key⟩, hkey, hr⟩ := List.mem_filterMap.mp hr
  obtain ⟨version, -, rfl⟩ := Option.map_eq_some_iff.mp hr
  exact written_ecosystems.2.1 _ hkey

theorem lockfiles_detected (pathText : List Str → Str) (tree : DirTree) :
    Detected ((lockfiles pathText tree).map Prod.snd) := by
  have hdir : ∀ directory : List Str, ∀ item ∈ (lockfileMarkers.filter fun marker =>
      tree.isFile (directory ++ [marker.1])).map (lockfileRequirement pathText directory),
        item.2.ecosystem ∈ detectedEcosystems := by
    intro directory item hitem
    obtain ⟨marker, hmarker, rfl⟩ := List.mem_map.mp hitem
    exact written_ecosystems.2.2 _ (List.mem_filter.mp hmarker).1
  intro r hr
  obtain ⟨item, hitem, rfl⟩ := List.mem_map.mp hr
  rcases List.mem_append.mp hitem with hitem | hitem
  · exact hdir [] item hitem
  · obtain ⟨directory, -, hitem⟩ := List.mem_flatMap.mp hitem
    exact hdir directory item hitem

theorem builtinDetectors_detected {detector : Str × Except Exc (List ProjectRequirement)}
    (h : detector ∈ builtinDetectors rt files) (hfound : detector.2 = .ok found) :
    Detected found := by
  rw [builtinDetectors] at h
  simp only [List.mem_cons, List.not_mem_nil, or_false] at h
  rcases h with rfl | rfl | rfl | rfl | rfl | rfl | rfl
  · exact pythonDeps_detected hfound
  · exact nodeDeps_detected (orInvalid_eq_ok.mp hfound)
  · exact dotnetDeps_detected hfound
  · exact goDeps_detected hfound
  · exact rustDeps_detected hfound
  · exact phpRubyJavaDeps_detected hfound
  · exact cppDeps_detected hfound

theorem runDetector_detected {detector : Str × Except Exc (List ProjectRequirement)}
    (h : detector ∈ builtinDetectors rt files) (hfound : runDetector files detector = .ok found) :
    Detected found := by
  obtain ⟨⟨-, -, -, -, -, -, -, -, hgeneric, -, -⟩, -⟩ := written_ecosystems
  rw [runDetector] at hfound
  split at hfound
  · next hok =>
    cases hfound
    exact builtinDetectors_detected h hok
  · split at hfound
    · cases hfound
    · cases hfound
      intro r hr
      rw [List.mem_singleton.mp hr]
      exact hgeneric

/-- A requirement carries the ecosystem of its detector. -/
theorem detected_ecosystem (h : detectRequirements rt files = .ok found) :
    ∀ r ∈ found, r.ecosystem ∈ detectedEcosystems := by
  rw [detectRequirements] at h
  obtain ⟨detected, hdetected, h⟩ := bind_eq_ok.mp h
  rw [← pure_eq_ok.mp h]
  refine ((Detected.append ?_ (lockfiles_detected _ _)).append containerDeps_detected).append
    ciDeps_detected
  intro r hr
  obtain ⟨found, hfound, hr⟩ := List.mem_flatten.mp hr
  obtain ⟨detector, hmem, hrun⟩ := exists_of_mem_mapM_ok hdetected hfound
  exact runDetector_detected hmem hrun r hr

end Ecosystems

end DevRepro.Project
