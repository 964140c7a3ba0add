import DevRepro.Core.Versioning
import DevRepro.Lib.Lines
import DevRepro.Project.Policy
import DevRepro.Python.Words
import DevRepro.Snapshots.Models

/-!
# The onboarding script

`generators/onboarding.py`: what the policy requires that a machine does not have,
and the script for it.

The script writes names, ranges and versions into comments.  `onlyVetted_iff` says
when they stay there.
-/

namespace DevRepro.Generators

open DevRepro.Python DevRepro.Lib DevRepro.Core DevRepro.Project DevRepro.Snapshots

/-! ## What is missing -/

structure MissingRequirement where
  name : Str
  required : Str
  detected : Option Str
  deriving DecidableEq

/-- `sorted(table.items())`: the names are distinct, so the values never decide. -/
def sortedItems {α : Type} (table : Dict Str α) : List (Str × α) :=
  table.items.mergeSort fun a b => strLe a.1 b.1

variable (rt : Runtime)

/-- One requirement, for the active version of each name. -/
def missingRequirement (installed : Str → Option Str) (requirement : Str × Str) :
    Option MissingRequirement :=
  match installed requirement.1 with
  | none => some ⟨requirement.1, requirement.2, none⟩
  | some version =>
    if satisfies rt.limits version requirement.2 = some false then
      some ⟨requirement.1, requirement.2, some version⟩
    else none

/-- `installed.get(name)` for the active versions of a report. -/
def installedVersion (report : ScanReport) (name : Str) : Option Str :=
  (activeVersions report name).join

/-- `missing_requirements`. -/
def missingRequirements (report : ScanReport) (policy : Policy) : List MissingRequirement :=
  [policy.requiredRuntimes, policy.requiredTools].flatMap fun source =>
    (sortedItems source).filterMap (missingRequirement rt (installedVersion report))

/-! ## The script -/

/-- `INSTALL_COMMANDS`: the commands for Windows, macOS and Linux. -/
def installCommands : List (Str × Option Str × Option Str × Option Str) := [
  ("python", some "winget install Python.Python.3.12", some "brew install python@3.12", none),
  ("node", some "winget install OpenJS.NodeJS.LTS", some "brew install node", none),
  ("go", some "winget install GoLang.Go", some "brew install go", none),
  ("rustc", some "winget install Rustlang.Rustup",
    some "curl --proto '=https' --tlsv1.2 -sSf https://sh.rustup.rs | sh",
    some "curl --proto '=https' --tlsv1.2 -sSf https://sh.rustup.rs | sh"),
  ("cargo", none, none, none),
  ("git", some "winget install Git.Git", some "brew install git",
    some "sudo apt-get install -y git"),
  ("docker", some "winget install Docker.DockerDesktop", some "brew install --cask docker", none),
  ("kubectl", some "winget install Kubernetes.kubectl", some "brew install kubectl", none),
  ("java", some "winget install EclipseAdoptium.Temurin.21.JDK", some "brew install openjdk@21",
    none),
  ("dotnet", some "winget install Microsoft.DotNet.SDK.8", some "brew install dotnet", none),
  ("uv", some "winget install astral-sh.uv", some "brew install uv",
    some "curl -LsSf https://astral.sh/uv/install.sh | sh"),
  ("pnpm", some "npm install -g pnpm", some "npm install -g pnpm", some "npm install -g pnpm"),
  ("yarn", some "npm install -g yarn", some "npm install -g yarn", some "npm install -g yarn")]

/-- `_PIPES_TO_SHELL` -/
def pipesToShell : List Str := ["| sh", "| bash", "iex "]

/-- `any(marker in command for marker in _PIPES_TO_SHELL)` -/
def pipesDownload (command : Str) : Bool := pipesToShell.any (containsText command)

/-- `_command_for`. -/
def commandFor (name platform : Str) : Option Str :=
  match Dict.find? name installCommands with
  | none => none
  | some (windows, macos, linux) =>
    if platform = lit "windows" then windows
    else if platform = lit "macos" then macos
    else linux

/-- The lines of the script before its comments. -/
def preamble (platform : Str) : List Str :=
  if platform = lit "windows" then [lit "# PowerShell. Read before running."]
  else [lit "#!/usr/bin/env bash", lit "set -euo pipefail"]

/-- The comments on where the script comes from. -/
def headerLines (report : ScanReport) (generatedAt : Str) : List Str :=
  [[],
    lit "# Generated by devrepro " ++ (report.devreproVersion ++ (lit " at " ++ generatedAt)),
    lit "# from a scan of ONE machine (" ++ (report.platform.osName ++ (lit " " ++
      (report.platform.arch ++ lit "). It covers what that machine was missing, not"))),
    lit "# everything the project needs. Re-run `devrepro onboard` on yours.",
    lit "# Nothing here has been executed.",
    []]

/-- What the script says about a requirement. -/
def MissingRequirement.line (item : MissingRequirement) : Str :=
  match item.detected with
  | some detected =>
    lit "# " ++ (item.name ++ (lit ": have " ++ (detected ++ (lit ", policy requires " ++
      item.required))))
  | none => lit "# " ++ (item.name ++ (lit ": not installed, policy requires " ++ item.required))

/-- The lines for one missing requirement. -/
def itemLines (platform : Str) (item : MissingRequirement) : List Str :=
  item.line ::
    (match commandFor item.name platform with
    | none =>
      [lit "#   No install command is printed for " ++ (item.name ++ lit (" on this " ++
          "platform. A wrong one in a setup script is worse than none, because")),
        lit "#   somebody runs it. Install it the way your team does."]
    | some command =>
      if pipesDownload command then
        [lit ("#   This downloads and executes a remote script. That is a " ++
            "decision, and a generated file should not make it for you:"),
          lit "#   " ++ command]
      else [command]) ++ [[]]

/-- The lines that `render_onboarding_script` joins. -/
def scriptLines (report : ScanReport) (policy : Policy) (platform generatedAt : Str) : List Str :=
  let missing := missingRequirements rt report policy
  preamble platform ++ headerLines report generatedAt ++
    if missing = [] then
      [lit "# Nothing to install: this machine already satisfies the policy.", []]
    else missing.flatMap (itemLines platform) ++ [lit "# Then re-check: devrepro check"]

/-- `render_onboarding_script`. -/
def renderOnboardingScript (report : ScanReport) (policy : Policy) (platform generatedAt : Str) :
    Str :=
  join "\n" (scriptLines rt report policy platform generatedAt) ++ lit "\n"

end DevRepro.Generators
