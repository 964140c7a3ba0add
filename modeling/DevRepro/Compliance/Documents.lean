import DevRepro.Lib.Sorting
import DevRepro.Rules.ActiveVersion
import DevRepro.Server.Sql

/-!
# The documents of the toolchain

What `attest.py`, `envbom.py` and `licenses.py` of `compliance/` write about the tools of a
report.  The attestation takes the version and the source of a tool from two folds over
the installations, the bill of materials takes both from one installation, and the license
inventory lists every active one.  `str.lower` and the digest of `hashlib` are parameters.
-/

namespace DevRepro.Compliance

open DevRepro.Python DevRepro.Lib DevRepro.Snapshots DevRepro.Rules

variable (lower sha256 : Str → Str)

/-! ## Package URLs -/

/-- `_PURL_NAMES` -/
def purlNames : List Str :=
  ["python", "node", "go", "rustc", "cargo", "java", "dotnet", "ruby", "php", "perl", "git",
   "docker", "podman", "kubectl", "npm", "pnpm", "yarn", "bun", "pip", "uv", "poetry", "gcc",
   "clang", "cmake", "make"]

/-- `purl_for` -/
def purlFor (name : Str) (version : Option Str) : Option Str :=
  version.bind fun version =>
    if version = [] ∨ lower name ∉ purlNames then none
    else some (lit "pkg:generic/" ++ lower name ++ lit "@" ++ version)

/-! ## The attestation -/

/-- An entry of the toolchain. -/
structure AttestedTool where
  name : Str
  version : Option Str
  purl : Option Str
  installSource : Option Str

/-- `tool.install_source`, unless it is empty. -/
def sourceText (t : ToolInstallation) : Option Str := t.installSource.filter fun source => source ≠ []

/-- `{t.name: t.install_source for t in report.tools if t.is_active and t.install_source}` -/
def recordSource (sources : Str → Option Str) (t : ToolInstallation) : Str → Option Str :=
  if t.isActive ∧ (sourceText t).isSome then Function.update sources t.name t.installSource
  else sources

def activeSources (report : ScanReport) : Str → Option Str :=
  report.tools.foldl recordSource fun _ => none

/-- The names of installations, in order and each of them once. -/
def namesOf (tools : List ToolInstallation) : List Str :=
  ascending (tools.map ToolInstallation.name).dedup

/-- `_tool_entries` -/
def toolEntries (report : ScanReport) : List AttestedTool :=
  (namesOf (report.tools.filter ToolInstallation.isActive)).map fun name =>
    let version := (activeVersions report name).join
    ⟨name, version, purlFor lower name version, activeSources report name⟩

/-! ## The bill of materials -/

/-- `_PROVENANCE` -/
def provenances : List (Str × Str) :=
  [
    ("distro", "Installed by the operating system package manager"),
    ("system-local", "Installed into /usr/local by an administrator or a build"),
    ("official-installer", "Installed by a vendor installer"),
    ("docker-desktop", "Part of a Docker Desktop installation"),
    ("vs-installer", "Installed by the Visual Studio installer"),
    ("brew", "Installed by Homebrew"),
    ("scoop", "Installed by Scoop"),
    ("choco", "Installed by Chocolatey"),
    ("conda", "Installed by conda"),
    ("rustup", "Installed by rustup"),
    ("pyenv", "Installed by pyenv, a version manager"),
    ("nvm", "Installed by nvm, a version manager"),
    ("fnm", "Installed by fnm, a version manager"),
    ("volta", "Installed by Volta, a version manager"),
    ("mise", "Installed by mise, a version manager"),
    ("asdf", "Installed by asdf, a version manager"),
    ("store-alias", "A Windows App Execution Alias, not a real installation"),
    ("unknown", "Provenance could not be determined from the installation path")]

/-- `_PROVENANCE.get(source, _PROVENANCE["unknown"])` -/
def provenanceOf (source : Str) : Str :=
  ((provenances.find? fun entry => decide (entry.1 = source)).map Prod.snd).getD
    "Provenance could not be determined from the installation path"

/-- `_properties` -/
def properties (pairs : List (Str × Option Str)) : List (Str × Str) :=
  pairs.filterMap fun (key, value) =>
    (value.filter fun value => value ≠ []).map fun value => (lit "devrepro:" ++ key, value)

/-- `_bom_ref`, unless its text cannot be encoded. -/
def bomRef (kind name version : Str) : Option Str :=
  let text := kind ++ lit ":" ++ name ++ lit ":" ++ version
  if Server.Encodable text then
    some (kind ++ lit "-" ++ (lower name).map (fun c => if c = codePoint ' ' then codePoint '-' else c) ++
      lit "-" ++ (sha256 text).take 16)
  else none

/-- A component; its type is `application` and its scope `required`. -/
structure BomComponent where
  ref : Str
  name : Str
  version : Str
  description : Str
  properties : List (Str × Str)
  purl : Option Str

/-- The installation that stands for a name. -/
def chosen (installs : List ToolInstallation) : Option ToolInstallation :=
  ((installs.find? fun t => t.isActive && (readable t).isSome).or
    (installs.find? fun t => (readable t).isSome)).or installs.head?

/-- The component of an installation. -/
def componentOf (installs : List ToolInstallation) (t : ToolInstallation) (version : Str) :
    Option BomComponent :=
  let source := lower ((sourceText t).getD "unknown")
  (bomRef lower sha256 "tool" t.name version).map fun ref =>
    ⟨ref, t.name, version, provenanceOf source,
      properties [("install-source", t.installSource),
        ("installations-found", if 1 < installs.length then some (natStr installs.length) else none)],
      purlFor lower t.name (some version)⟩

/-- The installations that get a component, with their versions. -/
def described (tools : List ToolInstallation) : List (ToolInstallation × Str) :=
  (namesOf tools).filterMap fun name =>
    (chosen (named tools name)).bind fun t => (readable t).map fun version => (t, version)

/-- `_tool_components`, unless a text in it cannot be encoded. -/
def toolComponents (report : ScanReport) : Option (List BomComponent) :=
  (described report.tools).mapM fun (t, version) =>
    componentOf lower sha256 (named report.tools t.name) t version

/-! ## The license inventory -/

inductive BuildObligation where
  | none
  | redistributionOnly
  | review
  deriving DecidableEq

def BuildObligation.value : BuildObligation → Str
  | none => "none"
  | redistributionOnly => "redistribution-only"
  | review => "review"

structure ToolLicense where
  tool : Str
  spdx : Str
  obligation : BuildObligation
  note : Str

/-- `TOOL_LICENSES` -/
def toolLicenses : List ToolLicense :=
  [
    ⟨"gcc", "GPL-3.0-or-later WITH GCC-exception-3.1", .none,
      lit ("The Runtime Library Exception exists so that compiling with GCC does " ++
        "not place the output under the GPL. Redistributing GCC itself still " ++
        "does.")⟩,
    ⟨"clang", "Apache-2.0 WITH LLVM-exception", .none,
      lit ("Permissive, with an exception that covers runtime library code linked " ++
        "into the output.")⟩,
    ⟨"rustc", "MIT OR Apache-2.0", .none,
      lit ("Dual-licensed permissively; the standard library ships under the same " ++
        "terms.")⟩,
    ⟨"cargo", "MIT OR Apache-2.0", .none,
      "Same terms as the Rust toolchain."⟩,
    ⟨"go", "BSD-3-Clause", .none,
      lit ("Permissive. The standard library is linked into every Go binary and the " ++
        "license permits it with attribution.")⟩,
    ⟨"python", "PSF-2.0", .none,
      lit ("Permissive. Bundling the interpreter requires including its license " ++
        "text.")⟩,
    ⟨"node", "MIT", .none,
      "Permissive; bundled OpenSSL carries its own terms."⟩,
    ⟨"npm", "Artistic-2.0", .none,
      "Permissive."⟩,
    ⟨"pnpm", "MIT", .none,
      "Permissive."⟩,
    ⟨"yarn", "BSD-2-Clause", .none,
      "Permissive."⟩,
    ⟨"bun", "MIT", .none,
      "Permissive."⟩,
    ⟨"pip", "MIT", .none,
      "Permissive."⟩,
    ⟨"uv", "MIT OR Apache-2.0", .none,
      "Permissive."⟩,
    ⟨"poetry", "MIT", .none,
      "Permissive."⟩,
    ⟨"git", "GPL-2.0-only", .redistributionOnly,
      lit ("Using git creates no obligation on your source. Shipping git inside an " ++
        "image you distribute does.")⟩,
    ⟨"make", "GPL-3.0-or-later", .redistributionOnly,
      "A build driver; it contributes nothing to the output."⟩,
    ⟨"cmake", "BSD-3-Clause", .none,
      "Permissive."⟩,
    ⟨"docker", "Apache-2.0", .redistributionOnly,
      lit ("The engine is permissively licensed; images you build carry the " ++
        "licenses of whatever is inside them, which is the question that " ++
        "actually matters.")⟩,
    ⟨"podman", "Apache-2.0", .none,
      "Permissive."⟩,
    ⟨"kubectl", "Apache-2.0", .none,
      "Permissive."⟩,
    ⟨"java", "GPL-2.0-only WITH Classpath-exception-2.0", .review,
      lit ("Depends on the distribution: an OpenJDK build carries the Classpath " ++
        "Exception, and an Oracle JDK is under a separate commercial agreement " ++
        "with its own field-of-use terms.")⟩,
    ⟨"dotnet", "MIT", .none,
      "The SDK and runtime are permissive."⟩,
    ⟨"ruby", "Ruby OR BSD-2-Clause", .none,
      "Permissive."⟩,
    ⟨"php", "PHP-3.01", .none,
      "Permissive."⟩,
    ⟨"perl", "Artistic-1.0-Perl OR GPL-1.0-or-later", .none,
      "Permissive."⟩,
    ⟨"openssl", "Apache-2.0", .review,
      lit ("Apache-2.0 since 3.0; 1.x is under the older OpenSSL/SSLeay dual " ++
        "license, which is incompatible with GPL-2.0 without an exception. Which " ++
        "one applies depends on the version installed.")⟩]

/-- `license_for` -/
def licenseFor (tool : Str) : Option ToolLicense :=
  toolLicenses.find? fun entry => decide (entry.tool = tool)

structure LicenseRow where
  license : ToolLicense
  version : Option Str

structure LicenseInventory where
  tools : List LicenseRow
  unknown : List Str
  obligationsPresent : List Str

/-- The active installations, by name. -/
def activeTools (report : ScanReport) : List ToolInstallation :=
  (report.tools.mergeSort fun a b => strLe a.name b.name).filter ToolInstallation.isActive

/-- `toolchain_licenses` -/
def toolchainLicenses (report : ScanReport) : LicenseInventory :=
  let rows := (activeTools report).filterMap fun t =>
    (licenseFor t.name).map fun license => ⟨license, t.version⟩
  { tools := rows
    unknown := ((activeTools report).filter fun t => (licenseFor t.name).isNone).map ToolInstallation.name
    obligationsPresent := ascending
      ((rows.map fun row => row.license.obligation.value).filter fun value => value ≠ lit "none").dedup }

end DevRepro.Compliance
