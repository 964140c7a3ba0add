import DevRepro.Diff.Engine
import DevRepro.Python.JsonRoundTrip

/-!
# Loading a snapshot

`load_snapshot` of `snapshots/store.py`.  The validation of pydantic is a
parameter: `validate` is `Snapshot.model_validate`, with the text of the
`ValidationError` where it raises one.  `ForbidsExtra` and `Inverts` are what
the program relies on: `extra="forbid"`, and that validation undoes
`model_dump`, where a field that is left out takes its default.

A full scan report is not a snapshot, so its export fails validation and takes
the second path of `load_snapshot`, which keeps the fields that both types
share.  The requirements have another name in a report, and the compilers have
none, so both are lost on that path.  `export_agrees_iff` says that nothing
else is.
-/

namespace DevRepro.Snapshots

open DevRepro.Python DevRepro.Diff

/-! ## `load_snapshot` -/

/-- The fields that a report export and a snapshot share. -/
def sharedFields : List Str :=
  ["schema_version", "created_at", "devrepro_version", "platform", "tools", "path_analysis",
    "compilers", "containers", "wsl", "gpu", "virtualenvs", "score", "privacy"]

/-- The fields by which a report export is recognized. -/
def reportFields : List Str := ["findings", "requirements", "policy_applied"]

/-- A `SnapshotSchemaError`. -/
def schemaError (text : Str) : Exc := ⟨.other "SnapshotSchemaError", text⟩

/-- The shared fields of an export. -/
def coerce (data : List (Str × Json)) : List (Str × Json) :=
  let coerced := data.filter fun item => item.1 ∈ sharedFields
  if lit "devrepro_version" ∈ coerced.map Prod.fst then coerced
  else
    coerced ++ ([("devrepro_version", (dictGet? data "devrepro_version").getD (.str "unknown"))] :
      List (Str × Json))

/-- `load_snapshot`, for a file that holds the text `raw`. -/
def loadSnapshot (rt : Runtime) (validate : Json → Except Str Snapshot) (raw : Str) :
    Except Exc Snapshot :=
  match loads rt.limits raw with
  | .error exc =>
    if exc.type = .jsonDecodeError then
      .error (schemaError (lit "snapshot is not valid JSON: " ++ exc.text))
    else .error exc
  | .ok (.obj data) =>
    match ((dictGet? data "schema_version").getD (.str "?")).toStr rt with
    | .error exc => .error exc
    | .ok version =>
      if version ≠ lit "1.0" then
        .error (schemaError (lit "unsupported snapshot schema_version " ++ rt.strRepr version ++
          lit " (supported: ('1.0',))"))
      else
        match validate (.obj data) with
        | .ok snapshot => .ok snapshot
        | .error _ =>
          if ∃ field ∈ reportFields, field ∈ data.map Prod.fst then
            match validate (.obj (coerce data)) with
            | .ok snapshot => .ok snapshot
            | .error text => .error (schemaError (lit "snapshot failed validation: " ++ text))
          else .error (schemaError "snapshot failed validation: unrecognized snapshot shape")
  | .ok _ => .error (schemaError "snapshot must be a JSON object")

/-! ## What validation does -/

/-- The names of the fields of a snapshot. -/
def snapshotFields : List Str :=
  ["schema_version", "created_at", "devrepro_version", "platform", "tools", "path_analysis",
    "compilers", "requirements_fingerprint", "containers", "wsl", "gpu", "virtualenvs", "score",
    "privacy"]

/-- The dumps of the defaults of a snapshot. -/
def defaultItems : List (Str × Json) :=
  [("schema_version", .str "1.0"), ("tools", .arr []), ("path_analysis", .null),
    ("compilers", .arr []), ("requirements_fingerprint", .arr []), ("containers", .null),
    ("wsl", .null), ("gpu", .null), ("virtualenvs", .arr []), ("score", .null)]

/-- `extra="forbid"`. -/
def ForbidsExtra (validate : Json → Except Str Snapshot) : Prop :=
  ∀ fields : List (Str × Json), (∃ item ∈ fields, item.1 ∉ snapshotFields) →
    ∃ text, validate (.obj fields) = .error text

/-- Validation gives a snapshot back from the dumps of its fields, where fields
with a default may be left out. -/
def Inverts (validate : Json → Except Str Snapshot) (s : Snapshot) : Prop :=
  ∀ fields : List (Str × Json), (fields.map Prod.fst).Nodup → (∀ item ∈ fields, item ∈ s.items) →
    (∀ item ∈ s.items, item ∈ fields ∨ item ∈ defaultItems) → validate (.obj fields) = .ok s

/-! ## The export of a report -/

/-- The snapshot that has the fields of a report which have the same name in
both types, and defaults elsewhere. -/
def sharedPart (r : ScanReport) : Snapshot where
  schemaVersion := r.schemaVersion
  createdAt := r.createdAt
  devreproVersion := r.devreproVersion
  platform := r.platform
  tools := r.tools
  pathAnalysis := r.pathAnalysis
  compilers := []
  requirementsFingerprint := []
  containers := r.containers
  wsl := r.wsl
  gpu := r.gpu
  virtualenvs := []
  score := r.score
  privacy := r.privacy

/-- The fields of a report that `coerce` keeps. -/
theorem coerce_items (r : ScanReport) :
    coerce r.items =
      ([("schema_version", .str r.schemaVersion), ("created_at", .str r.createdAt),
        ("devrepro_version", .str r.devreproVersion), ("platform", r.platform.modelDump),
        ("tools", .arr (r.tools.map ToolInstallation.modelDump)),
        ("path_analysis", optDump PathAnalysis.modelDump r.pathAnalysis),
        ("score", optDump Mcp.ReproducibilityScore.modelDump r.score),
        ("containers", optDump ContainerState.modelDump r.containers),
        ("wsl", optDump WslState.modelDump r.wsl), ("gpu", optDump GpuStack.modelDump r.gpu),
        ("privacy", .obj r.privacy)] : List (Str × Json)) := by
  rfl

/-- The names of the fields that `coerce` keeps, in the order of a report. -/
def sharedNames : List Str :=
  ["schema_version", "created_at", "devrepro_version", "platform", "tools", "path_analysis",
    "score", "containers", "wsl", "gpu", "privacy"]

/-- A field of the shared part comes from the export or has its default. -/
theorem sharedPart_items (r : ScanReport) :
    ∀ item ∈ (sharedPart r).items, item ∈ coerce r.items ∨ item ∈ defaultItems := by
  intro item hitem
  rw [coerce_items]
  simp only [Snapshot.items, sharedPart, List.map_nil, List.mem_cons, List.not_mem_nil,
    or_false] at hitem
  simp only [defaultItems, List.mem_cons, List.not_mem_nil, or_false]
  rcases hitem with h | h | h | h | h | h | h | h | h | h | h | h | h | h <;> simp [h]

theorem coerce_items_sub (r : ScanReport) : ∀ item ∈ coerce r.items, item ∈ (sharedPart r).items := by
  intro item hitem
  rw [coerce_items] at hitem
  simp only [List.mem_cons, List.not_mem_nil, or_false] at hitem
  simp only [Snapshot.items, sharedPart, List.map_nil, List.mem_cons, List.not_mem_nil, or_false]
  rcases hitem with h | h | h | h | h | h | h | h | h | h | h <;> simp [h]

/-- `render_json`, behind `assert_no_secrets`. -/
def renderJson (rt : Runtime) (r : ScanReport) : Except Exc Str :=
  dumps rt (.indented 2) r.modelDump

/-- The text is the export of the report, and `json.loads` reads the report back
from it. -/
def Exports (rt : Runtime) (r : ScanReport) (text : Str) : Prop :=
  renderJson rt r = .ok text ∧ loads rt.limits text = .ok r.modelDump

/-- The exports of readable reports are exports in this sense. -/
theorem exports_of_readable {rt : Runtime} {r : ScanReport} {text : Str}
    (hrender : renderJson rt r = .ok text) (hread : Readable rt.limits 0 r.modelDump) :
    Exports rt r text := by
  refine ⟨hrender, ?_⟩
  have htext : text = dumpText rt (.indented 2) 0 r.modelDump := (dumps_ok hrender).2
  rw [htext]
  exact loads_dumpText rt _ hread

variable {rt : Runtime} {validate : Json → Except Str Snapshot} {r : ScanReport} {text : Str}

/-- An export with the supported version is loaded as its shared part. -/
theorem loadSnapshot_export (hexports : Exports rt r text) (hforbids : ForbidsExtra validate)
    (hinverts : Inverts validate (sharedPart r)) (hversion : r.schemaVersion = lit "1.0") :
    loadSnapshot rt validate text = .ok (sharedPart r) := by
  have hreject : ∃ reason, validate (.obj r.items) = .error reason := by
    apply hforbids
    have hname : lit "findings" ∉ snapshotFields := by decide
    exact ⟨(lit "findings", .arr (r.findings.map Mcp.Finding.modelDump)), by simp [ScanReport.items],
      hname⟩
  have hkeep : validate (.obj (coerce r.items)) = .ok (sharedPart r) := by
    apply hinverts
    · rw [coerce_items]
      have hnames : sharedNames.Nodup := by decide
      exact hnames
    · exact coerce_items_sub r
    · exact sharedPart_items r
  have hfield : ∃ field ∈ reportFields, field ∈ r.items.map Prod.fst :=
    ⟨lit "findings", by decide, by simp [ScanReport.items]⟩
  rcases hreject with ⟨reason, hreason⟩
  have hget : dictGet? r.items "schema_version" = some (.str r.schemaVersion) := rfl
  simp only [loadSnapshot, hexports.2, ScanReport.modelDump, hget, Option.getD_some, Json.toStr,
    hversion, ne_eq, not_true_eq_false, if_false, hreason, if_pos hfield, hkeep]

/-- An export with another version is refused. -/
theorem loadSnapshot_other_version (hexports : Exports rt r text)
    (hversion : r.schemaVersion ≠ lit "1.0") :
    ∃ exc, loadSnapshot rt validate text = .error exc := by
  have hget : dictGet? r.items "schema_version" = some (.str r.schemaVersion) := rfl
  simp only [loadSnapshot, hexports.2, ScanReport.modelDump, hget, Option.getD_some, Json.toStr,
    ne_eq, hversion, not_false_eq_true, if_true]
  exact ⟨_, rfl⟩

/-! ## Agreement of the two conversions -/

/-- Two snapshots agree on what a diff looks at, and on the rest of the scan. -/
structure Agrees (s s' : Snapshot) : Prop where
  platform : s.platform = s'.platform
  tools : s.tools = s'.tools
  pathAnalysis : s.pathAnalysis = s'.pathAnalysis
  compilers : s.compilers = s'.compilers
  requirementsFingerprint : s.requirementsFingerprint = s'.requirementsFingerprint
  containers : s.containers = s'.containers
  wsl : s.wsl = s'.wsl
  gpu : s.gpu = s'.gpu
  score : s.score = s'.score

/-- A diff against any snapshot has the same entries for both. -/
def SameDiffs (snapshotId : Snapshot → Str) (s s' : Snapshot) : Prop :=
  ∀ third,
    (diffSnapshots snapshotId s third).map EnvironmentDiff.entries =
        (diffSnapshots snapshotId s' third).map EnvironmentDiff.entries ∧
      (diffSnapshots snapshotId third s).map EnvironmentDiff.entries =
        (diffSnapshots snapshotId third s').map EnvironmentDiff.entries

/-- Snapshots that agree have the same diffs. -/
theorem Agrees.sameDiffs {s s' : Snapshot} (h : Agrees s s')
    (hversion : s.schemaVersion = s'.schemaVersion) (snapshotId : Snapshot → Str) :
    SameDiffs snapshotId s s' := by
  have hpath : normalizedPath s = normalizedPath s' := by
    rw [normalizedPath, normalizedPath, h.pathAnalysis]
  intro third
  have hleft : diffEntries s third = diffEntries s' third := by
    simp only [diffEntries, toolEntries, pathEntries, h.platform, h.tools, hpath,
      h.requirementsFingerprint, h.containers, h.wsl, h.gpu]
  have hright : diffEntries third s = diffEntries third s' := by
    simp only [diffEntries, toolEntries, pathEntries, h.platform, h.tools, hpath,
      h.requirementsFingerprint, h.containers, h.wsl, h.gpu]
  constructor
  · rw [diffSnapshots, diffSnapshots, hversion]
    by_cases hsame : s'.schemaVersion = third.schemaVersion
    · rw [if_neg (not_not_intro hsame), if_neg (not_not_intro hsame)]
      exact congrArg Except.ok hleft
    · rw [if_pos hsame, if_pos hsame]
  · rw [diffSnapshots, diffSnapshots, hversion]
    by_cases hsame : third.schemaVersion = s'.schemaVersion
    · rw [if_neg (not_not_intro hsame), if_neg (not_not_intro hsame)]
      exact congrArg Except.ok hright
    · rw [if_pos hsame, if_pos hsame]

/-- The shared part agrees with the snapshot of the report exactly when there
are no requirements and no compilers to lose. -/
theorem sharedPart_agrees_iff (now : Str) :
    Agrees (sharedPart r) (snapshotFromReport now r) ↔
      r.requirements = [] ∧ ∀ tool ∈ r.tools, tool.name ∉ compilerNames := by
  have hcompilers : (r.tools.filter fun t => t.name ∈ compilerNames) = [] ↔
      ∀ tool ∈ r.tools, tool.name ∉ compilerNames := by simp
  constructor
  · intro h
    exact ⟨h.requirementsFingerprint.symm, hcompilers.mp h.compilers.symm⟩
  · intro ⟨hrequirements, hnone⟩
    exact ⟨rfl, rfl, rfl, (hcompilers.mpr hnone).symm, hrequirements.symm, rfl, rfl, rfl, rfl⟩

/-- The export of a report is loaded as a snapshot that agrees with the snapshot
of the report exactly when the export has the supported version, and the report
has no requirements and no compilers. -/
theorem export_agrees_iff (snapshotId : Snapshot → Str) (now : Str) (hexports : Exports rt r text)
    (hforbids : ForbidsExtra validate) (hinverts : Inverts validate (sharedPart r)) :
    (∃ loaded, loadSnapshot rt validate text = .ok loaded ∧
      Agrees loaded (snapshotFromReport now r) ∧
      SameDiffs snapshotId loaded (snapshotFromReport now r)) ↔
    r.schemaVersion = lit "1.0" ∧ r.requirements = [] ∧
      ∀ tool ∈ r.tools, tool.name ∉ compilerNames := by
  constructor
  · intro ⟨loaded, hload, hagrees, _⟩
    by_cases hversion : r.schemaVersion = lit "1.0"
    · rw [loadSnapshot_export hexports hforbids hinverts hversion, Except.ok.injEq] at hload
      rw [← hload] at hagrees
      exact ⟨hversion, (sharedPart_agrees_iff now).mp hagrees⟩
    · rcases @loadSnapshot_other_version _ validate _ _ hexports hversion with ⟨exc, hexc⟩
      rw [hexc] at hload
      cases hload
  · intro ⟨hversion, hrest⟩
    have hagrees := (sharedPart_agrees_iff now).mpr hrest
    exact ⟨sharedPart r, loadSnapshot_export hexports hforbids hinverts hversion, hagrees,
      hagrees.sameDiffs hversion snapshotId⟩

namespace Sample

/-- A report of a bare machine, for a project with some requirements. -/
def report (requirements : List ProjectRequirement) : ScanReport :=
  ⟨"1.0", "2026-01-01T00:00:00Z", "0.2.0", ⟨"Linux", "6.5", "x86_64", none, none, false⟩, [], [],
    none, requirements, false, none, [], none, none, none, []⟩

def requirement : ProjectRequirement :=
  ⟨"python", "python", ">=3.12", .runtime, "pyproject.toml", false, none⟩

/-- A validation that knows one snapshot, and forbids extra fields. -/
def onlyValid (s : Snapshot) : Json → Except Str Snapshot
  | .obj fields =>
    if ∀ item ∈ fields, item.1 ∈ snapshotFields then .ok s
    else .error "Extra inputs are not permitted"
  | _ => .error "Input should be a valid dictionary"

theorem onlyValid_forbidsExtra (s : Snapshot) : ForbidsExtra (onlyValid s) := by
  intro fields hextra
  refine ⟨"Extra inputs are not permitted", if_neg ?_⟩
  simpa using hextra

theorem onlyValid_inverts (s : Snapshot) : Inverts (onlyValid s) s := by
  intro fields _ hsub _
  apply if_pos
  intro item hitem
  have hname : item.1 ∈ s.items.map Prod.fst := List.mem_map_of_mem (hsub item hitem)
  exact hname

/-- The export of the sample report. -/
def export_ (requirements : List ProjectRequirement) : Str :=
  dumpText Runtime.standard (.indented 2) 0 (report requirements).modelDump

theorem export_exports {requirements : List ProjectRequirement}
    (hdump : dumpError Runtime.standard (.indented 2) 0 (report requirements).modelDump = none)
    (hread : checkReadable Runtime.standard.limits 0 (report requirements).modelDump = true) :
    Exports Runtime.standard (report requirements) (export_ requirements) :=
  exports_of_readable (dumps_of_no_error hdump) (readable_of_check hread)

end Sample

theorem export_agrees_iff_sample :
    (∃ loaded, loadSnapshot Runtime.standard
        (Sample.onlyValid (sharedPart (Sample.report []))) (Sample.export_ []) = .ok loaded ∧
      Agrees loaded (snapshotFromReport "now" (Sample.report [])) ∧
      SameDiffs (fun _ => []) loaded (snapshotFromReport "now" (Sample.report []))) ↔
    (Sample.report []).schemaVersion = lit "1.0" ∧ (Sample.report []).requirements = [] ∧
      ∀ tool ∈ (Sample.report []).tools, tool.name ∉ compilerNames :=
  export_agrees_iff (fun _ => []) "now"
    (Sample.export_exports (by decide +kernel) (by decide +kernel))
    (Sample.onlyValid_forbidsExtra _) (Sample.onlyValid_inverts _)

/-- The export of a report with a requirement is loaded without it. -/
theorem export_loses_requirement :
    ¬∀ (rt : Runtime) (validate : Json → Except Str Snapshot) (r : ScanReport) (text now : Str)
      (snapshotId : Snapshot → Str), Exports rt r text → ForbidsExtra validate →
        Inverts validate (sharedPart r) →
          ∃ loaded, loadSnapshot rt validate text = .ok loaded ∧
            Agrees loaded (snapshotFromReport now r) ∧
            SameDiffs snapshotId loaded (snapshotFromReport now r) := by
  intro h
  have hexports : Exports Runtime.standard (Sample.report [Sample.requirement])
      (Sample.export_ [Sample.requirement]) :=
    Sample.export_exports (by decide +kernel) (by decide +kernel)
  have hload := loadSnapshot_export hexports (Sample.onlyValid_forbidsExtra _)
    (Sample.onlyValid_inverts _) rfl
  rcases h _ _ _ _ [] (fun _ => []) hexports (Sample.onlyValid_forbidsExtra _)
    (Sample.onlyValid_inverts _) with ⟨loaded, hloaded, hagrees, _⟩
  rw [hload, Except.ok.injEq] at hloaded
  rw [← hloaded] at hagrees
  have hlost : ([] : List ProjectRequirement) = [Sample.requirement] :=
    hagrees.requirementsFingerprint
  cases hlost

end DevRepro.Snapshots
