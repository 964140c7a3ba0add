import DevRepro.Python.JsonDump

/-!
# Scan reports

The part of `core/models.py` that a tool result shows: the report of one scan
with its findings, tools, platform and score, and what `model_dump` makes of
each.  `exitFor` and `verdictOf` turn the states of the findings into the
verdict that every result carries.

`RuleDoc` and `explainRule` are the rule catalogue, with its two tables as
data.
-/

namespace DevRepro.Mcp

open DevRepro.Python

/-! ## The report -/

inductive FindingState where
  | pass
  | info
  | warn
  | error
  | blocked
  | unknown
  deriving DecidableEq

/-- `state.value`. -/
def FindingState.value : FindingState → Str
  | pass => "PASS"
  | info => "INFO"
  | warn => "WARN"
  | error => "ERROR"
  | blocked => "BLOCKED"
  | unknown => "UNKNOWN"

/-- A `str | None` field. -/
def optStr : Option Str → Json
  | none => .null
  | some s => .str s

/-- A `tuple[str, ...]` field. -/
def strs (texts : List Str) : Json := .arr (texts.map .str)

structure Evidence where
  source : Str
  command : Option (List Str)
  path : Option Str
  excerpt : Option Str
  redacted : Bool

/-- `evidence.model_dump(mode="json")`. -/
def Evidence.modelDump (e : Evidence) : Json :=
  .obj [("source", .str e.source), ("command", (e.command.map strs).getD .null),
    ("path", optStr e.path), ("excerpt", optStr e.excerpt), ("redacted", .bool e.redacted)]

structure Finding where
  ruleId : Str
  state : FindingState
  summary : Str
  evidence : List Evidence
  detected : Option Str
  required : Option Str
  component : Option Str
  remediationHint : Option Str
  references : List Str
  probeId : Option Str

/-- `finding.model_dump(mode="json")`. -/
def Finding.modelDump (f : Finding) : Json :=
  .obj [("rule_id", .str f.ruleId), ("state", .str f.state.value), ("summary", .str f.summary),
    ("evidence", .arr (f.evidence.map Evidence.modelDump)), ("detected", optStr f.detected),
    ("required", optStr f.required), ("component", optStr f.component),
    ("remediation_hint", optStr f.remediationHint), ("references", strs f.references),
    ("probe_id", optStr f.probeId)]

structure ToolInstallation where
  name : Str
  version : Option Str
  exePath : Option Str
  installSource : Option Str
  isActive : Bool

structure PlatformInfo where
  osName : Str
  osVersion : Str
  arch : Str
  kernel : Option Str
  shell : Option Str
  isWsl : Bool

/-- `platform.model_dump(mode="json")`. -/
def PlatformInfo.modelDump (p : PlatformInfo) : Json :=
  .obj [("os_name", .str p.osName), ("os_version", .str p.osVersion), ("arch", .str p.arch),
    ("kernel", optStr p.kernel), ("shell", optStr p.shell), ("is_wsl", .bool p.isWsl)]

structure ReproducibilityPoint where
  criterion : Str
  earned : Int
  possible : Int
  explanation : Str

/-- `point.model_dump(mode="json")`. -/
def ReproducibilityPoint.modelDump (p : ReproducibilityPoint) : Json :=
  .obj [("criterion", .str p.criterion), ("earned", .int p.earned), ("possible", .int p.possible),
    ("explanation", .str p.explanation)]

structure ReproducibilityScore where
  total : Int
  possible : Int
  points : List ReproducibilityPoint

/-- `score.model_dump(mode="json")`. -/
def ReproducibilityScore.modelDump (s : ReproducibilityScore) : Json :=
  .obj [("total", .int s.total), ("possible", .int s.possible),
    ("points", .arr (s.points.map ReproducibilityPoint.modelDump))]

/-- The report of one scan.  `createdAt` is `created_at.isoformat()`. -/
structure ScanReport where
  createdAt : Str
  platform : PlatformInfo
  findings : List Finding
  tools : List ToolInstallation
  policyApplied : Bool
  score : Option ReproducibilityScore

/-! ## The verdict -/

/-- `exit_for`, on the states of the findings. -/
def exitFor (states : List FindingState) : Int :=
  if .blocked ∈ states ∨ .error ∈ states then 2
  else if .warn ∈ states ∨ .unknown ∈ states then 1
  else 0

/-- `_verdict`: the name of the verdict and the exit code it would have been. -/
def verdictOf (report : ScanReport) : Str × Int :=
  let code := exitFor (report.findings.map Finding.state)
  let name : Str :=
    if code = 0 then "READY" else if code = 1 then "READY_WITH_WARNINGS"
    else if code = 2 then "BLOCKED" else "UNKNOWN"
  (name, code)

/-! ## The rule catalogue -/

/-- The long-form explanation of one rule. -/
structure RuleDoc where
  ruleId : Str
  title : Str
  means : Str
  matters : Str
  fix : Str

/-- `doc.as_dict()`. -/
def RuleDoc.asDict (doc : RuleDoc) : Json :=
  .obj [("rule_id", .str doc.ruleId), ("title", .str doc.title), ("means", .str doc.means),
    ("matters", .str doc.matters), ("fix", .str doc.fix)]

/-- The tables of `rules/catalog.py`: the texts of the literal ids and of the
suffixes that packs compose onto their names.  A row is title, means, matters
and fix. -/
structure Catalog where
  literal : List (Str × Str × Str × Str × Str)
  composed : List (Str × Str × Str × Str × Str)

/-- A lookup in a table of the catalogue. -/
def Catalog.row? (table : List (Str × Str × Str × Str × Str)) (key : Str) :
    Option (Str × Str × Str × Str) :=
  (table.find? fun row => row.1 = key).map Prod.snd

/-- `_doc`. -/
def ruleDoc (ruleId : Str) (entry : Str × Str × Str × Str) : RuleDoc :=
  ⟨ruleId, entry.1, entry.2.1, entry.2.2.1, entry.2.2.2⟩

/-- `explain_rule`. -/
def explainRule (catalog : Catalog) (ruleId : Str) : Option RuleDoc :=
  match Catalog.row? catalog.literal ruleId with
  | some entry => some (ruleDoc ruleId entry)
  | none =>
    let suffix := (ruleId.dropWhile (· ≠ codePoint '/')).tail
    if suffix = [] then none
    else (Catalog.row? catalog.composed suffix).map (ruleDoc ruleId)

end DevRepro.Mcp
