import DevRepro.Core.Versioning
import DevRepro.Snapshots.Models

/-!
# The check of a version

`active_tool` and `check_version_requirement` of `rules/base.py`.
-/

namespace DevRepro.Rules

open DevRepro.Python DevRepro.Core DevRepro.Snapshots
open DevRepro.Mcp (Finding FindingState Evidence)

/-- `RuleContext.active_tool`. -/
def activeTool (tools : List ToolInstallation) (name : Str) : Option ToolInstallation :=
  let candidates := tools.filter fun t => t.name = name
  (candidates.find? ToolInstallation.isActive).or candidates.head?

/-- The arguments of `check_version_requirement`, without the tool. -/
structure VersionRequirement where
  rulePrefix : Str
  toolName : Str
  requiredSpec : Str
  knownBad : List Str
  source : Str
  missingState : FindingState
  evidenceExcerpt : Str

variable (rt : Runtime)

/-- The evidence of every finding. -/
def VersionRequirement.evidence (r : VersionRequirement) : List Evidence :=
  [⟨"command", none, none, some
    (if r.evidenceExcerpt = [] then r.toolName ++ lit " version check" else r.evidenceExcerpt), true⟩]

/-- The finding for a tool without a version. -/
def VersionRequirement.missing (r : VersionRequirement) : Finding :=
  ⟨r.rulePrefix ++ lit "/missing", r.missingState,
    lit "Required tool '" ++ r.toolName ++ lit "' (" ++ r.requiredSpec ++ lit ") not found on PATH.",
    r.evidence, none, some r.requiredSpec, some r.toolName,
    some (lit "Install " ++ r.toolName ++ lit " " ++ r.requiredSpec ++
      lit " via your preferred package manager or version manager."),
    [lit "declared in " ++ r.source], none⟩

/-- The finding for a version or a range that cannot be read. -/
def VersionRequirement.unparseable (r : VersionRequirement) (version : Str) : Finding :=
  ⟨r.rulePrefix ++ lit "/version-unparseable", .unknown,
    lit "Could not parse " ++ r.toolName ++ lit " version " ++ rt.strRepr version ++ lit " against " ++
      rt.strRepr r.requiredSpec ++ lit ".",
    r.evidence, some version, some r.requiredSpec, some r.toolName, none, [], none⟩

/-- The finding for a version that is known to be bad. -/
def VersionRequirement.bad (r : VersionRequirement) (version badSpec : Str) : Finding :=
  ⟨r.rulePrefix ++ lit "/known-bad-version", .error,
    r.toolName ++ lit " " ++ version ++ lit " matches a known-bad range (" ++ badSpec ++ lit ").",
    r.evidence, some version, some (lit "not " ++ badSpec), some r.toolName,
    some (lit "Upgrade " ++ r.toolName ++ lit " outside the known-bad range."),
    [lit "policy known_bad_versions[" ++ r.toolName ++ lit "]"], none⟩

/-- The finding for a version within or outside the range. -/
def VersionRequirement.verdict (r : VersionRequirement) (version : Str) (inRange : Bool) : Finding :=
  if inRange then
    ⟨r.rulePrefix ++ lit "/version-ok", .pass,
      r.toolName ++ lit " " ++ version ++ lit " satisfies " ++ r.requiredSpec ++ lit ".",
      r.evidence, some version, some r.requiredSpec, some r.toolName, none, [], none⟩
  else
    ⟨r.rulePrefix ++ lit "/version-mismatch", .error,
      r.toolName ++ lit " " ++ version ++ lit " does not satisfy required range " ++
        r.requiredSpec ++ lit ".",
      r.evidence, some version, some r.requiredSpec, some r.toolName,
      some (lit "Install a " ++ r.toolName ++ lit " version within " ++ r.requiredSpec ++
        lit " (use a version manager to avoid disturbing other projects)."),
      [lit "declared in " ++ r.source], none⟩

/-- `parse_spec(spec).satisfied_by(version)`. -/
def inSpec (limits : Limits) (spec : Str) (version : Version) : Option Bool :=
  (parseSpec limits spec).map fun groups => groups.any fun group => group.all (satisfiedBy version)

/-- `check_version_requirement`. -/
def checkVersionRequirement (r : VersionRequirement) (active : Option ToolInstallation) :
    List Finding :=
  let version := (active.bind ToolInstallation.version).getD []
  if version = [] then [r.missing]
  else
    match parseVersion rt.limits version with
    | none => [r.unparseable rt version]
    | some v =>
      match inSpec rt.limits r.requiredSpec v with
      | none => [r.unparseable rt version]
      | some inRange =>
        -- The loop over the known-bad ranges stops at the first one that matches.
        let known := r.knownBad.find? fun spec => inSpec rt.limits spec v = some true
        (known.map (r.bad version)).toList ++ [r.verdict version inRange]

variable {rt}

/-- A tool is reported as missing exactly when it has no readable version. -/
theorem reports_missing_iff {r : VersionRequirement} {active : Option ToolInstallation} :
    (∃ f ∈ checkVersionRequirement rt r active, f.ruleId = r.rulePrefix ++ lit "/missing") ↔
      (active.bind ToolInstallation.version).getD [] = [] := by
  have hunparseable : ∀ version, (r.unparseable rt version).ruleId ≠ r.rulePrefix ++ lit "/missing" :=
    fun version h => absurd (List.append_cancel_left h) (by decide)
  constructor
  · intro ⟨f, hf, hmissing⟩
    rw [checkVersionRequirement] at hf
    by_contra hversion
    dsimp only at hf
    rw [if_neg hversion] at hf
    cases hparse : parseVersion rt.limits ((active.bind ToolInstallation.version).getD []) with
    | none =>
      rw [hparse, List.mem_singleton] at hf
      rw [hf] at hmissing
      exact hunparseable _ hmissing
    | some v =>
      rw [hparse] at hf
      dsimp only at hf
      cases hspec : inSpec rt.limits r.requiredSpec v with
      | none =>
        rw [hspec, List.mem_singleton] at hf
        rw [hf] at hmissing
        exact hunparseable _ hmissing
      | some inRange =>
        rw [hspec, List.mem_append, List.mem_singleton, Option.mem_toList, Option.map_eq_some_iff] at hf
        rcases hf with ⟨spec, _, rfl⟩ | rfl
        · exact absurd (List.append_cancel_left hmissing) (by decide)
        · rw [VersionRequirement.verdict] at hmissing
          split_ifs at hmissing
          · exact absurd (List.append_cancel_left hmissing) (by decide)
          · exact absurd (List.append_cancel_left hmissing) (by decide)
  · intro hversion
    refine ⟨r.missing, ?_, rfl⟩
    rw [checkVersionRequirement]
    dsimp only
    rw [if_pos hversion]
    exact List.mem_singleton_self _

end DevRepro.Rules
