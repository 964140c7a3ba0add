import DevRepro.Reports.Sarif
import DevRepro.Snapshots.Store

/-!
# The contract of the report

`check_report` and `check_exit_code` of `core/contract.py`, which a consumer runs on the exported
report and on the exit code.

`checkReport_eq_nil_iff` says what a report without problems promises, and `checkReport_export`
that the exports of this program have no problem but findings without evidence.
-/

namespace DevRepro.Core

open DevRepro.Python
open DevRepro.Mcp (Finding exitFor)
open DevRepro.Snapshots (ScanReport Exports)

/-! ## The check -/

/-- The types of the fields. -/
inductive FieldType where
  | str
  | dict
  | list
  deriving DecidableEq

/-- `f"{expected}"` -/
def FieldType.text : FieldType → Str
  | str => "<class 'str'>"
  | dict => "<class 'dict'>"
  | list => "<class 'list'>"

/-- `isinstance(value, expected)` -/
def FieldType.isInstance : FieldType → Json → Bool
  | str, .str _ => true
  | dict, .obj _ => true
  | list, .arr _ => true
  | _, _ => false

/-- `REQUIRED_REPORT_FIELDS` -/
def requiredReportFields : List (Str × FieldType) :=
  [("schema_version", .str), ("devrepro_version", .str), ("created_at", .str), ("platform", .dict),
    ("findings", .list), ("tools", .list)]

/-- `REQUIRED_FINDING_FIELDS` -/
def requiredFindingFields : List (Str × FieldType) :=
  [("rule_id", .str), ("state", .str), ("summary", .str), ("evidence", .list)]

/-- `FINDING_STATES` -/
def findingStates : List Str := ["PASS", "INFO", "WARN", "ERROR", "BLOCKED", "UNKNOWN"]

section

variable (rt : Runtime)

/-- The problems of one field. -/
def fieldProblem (payload : List (Str × Json)) (place : Str) (field : Str × FieldType) : List Str :=
  match dictGet? payload field.1 with
  | none => [place ++ lit ": missing required field " ++ rt.strRepr field.1]
  | some value =>
    if field.2.isInstance value then []
    else [place ++ lit ": " ++ rt.strRepr field.1 ++ lit " is " ++ value.typeName ++
      lit ", contract says " ++ field.2.text]

/-- `_field_problems` -/
def fieldProblems (payload : List (Str × Json)) (required : List (Str × FieldType)) (place : Str) : List Str :=
  required.flatMap (fieldProblem rt payload place)

def stateProblems (finding : List (Str × Json)) (place : Str) : List Str :=
  match dictGet? finding "state" with
  | some (.str state) =>
    if state ∈ findingStates then []
    else [place ++ lit ": state " ++ rt.strRepr state ++ lit " is not in the contract"]
  | _ => []

def evidenceProblems (finding : List (Str × Json)) (place : Str) : List Str :=
  match dictGet? finding "evidence" with
  | some (.arr []) => [place ++ lit ": evidence is empty; every finding must carry some"]
  | _ => []

/-- `where` of a finding -/
def findingPlace (index : Nat) : Str := lit "findings[" ++ natStr index ++ lit "]"

/-- The problems of one finding. -/
def findingProblems (index : Nat) : Json → List Str
  | .obj finding =>
    fieldProblems rt finding requiredFindingFields (findingPlace index) ++
      stateProblems rt finding (findingPlace index) ++ evidenceProblems finding (findingPlace index)
  | _ => [findingPlace index ++ lit ": not an object"]

/-- `check_report` -/
def checkReport (payload : List (Str × Json)) : List Str :=
  fieldProblems rt payload requiredReportFields "report" ++
    match dictGet? payload "findings" with
    | some (.arr findings) => findings.zipIdx.flatMap fun item => findingProblems rt item.2 item.1
    | _ => []

end

/-! ## What the contract promises -/

/-- A payload has its required fields. -/
def HasFields (payload : List (Str × Json)) (required : List (Str × FieldType)) : Prop :=
  ∀ field ∈ required, ∃ value, dictGet? payload field.1 = some value ∧ field.2.isInstance value = true

structure FindingContract (finding : List (Str × Json)) : Prop where
  fields : HasFields finding requiredFindingFields
  state : ∃ state ∈ findingStates, dictGet? finding "state" = some (.str state)
  evidence : ∃ first rest, dictGet? finding "evidence" = some (.arr (first :: rest))

structure ReportContract (payload : List (Str × Json)) : Prop where
  fields : HasFields payload requiredReportFields
  findings : ∃ findings, dictGet? payload "findings" = some (.arr findings) ∧
    ∀ finding ∈ findings, ∃ items, finding = .obj items ∧ FindingContract items

variable {rt : Runtime}

theorem isInstance_str {value : Json} : FieldType.str.isInstance value = true ↔ ∃ s, value = .str s := by
  cases value <;> simp [FieldType.isInstance]

theorem isInstance_list {value : Json} : FieldType.list.isInstance value = true ↔ ∃ elems, value = .arr elems := by
  cases value <;> simp [FieldType.isInstance]

theorem fieldProblem_eq_nil_iff {payload : List (Str × Json)} {place : Str} {field : Str × FieldType} :
    fieldProblem rt payload place field = [] ↔
      ∃ value, dictGet? payload field.1 = some value ∧ field.2.isInstance value = true := by
  rw [fieldProblem]
  cases dictGet? payload field.1 with
  | none => simp
  | some value => by_cases h : field.2.isInstance value = true <;> simp [h]

theorem fieldProblems_eq_nil_iff {payload : List (Str × Json)} {required : List (Str × FieldType)}
    {place : Str} : fieldProblems rt payload required place = [] ↔ HasFields payload required := by
  rw [fieldProblems, List.flatMap_eq_nil_iff]
  exact forall₂_congr fun field _ => fieldProblem_eq_nil_iff

theorem stateProblems_eq_nil_iff {finding : List (Str × Json)} {place state : Str}
    (h : dictGet? finding "state" = some (.str state)) :
    stateProblems rt finding place = [] ↔ state ∈ findingStates := by
  rw [stateProblems, h]
  by_cases hstate : state ∈ findingStates <;> simp [hstate]

theorem evidenceProblems_eq_nil_iff {finding : List (Str × Json)} {place : Str} {evidence : List Json}
    (h : dictGet? finding "evidence" = some (.arr evidence)) :
    evidenceProblems finding place = [] ↔ evidence ≠ [] := by
  rw [evidenceProblems, h]
  cases evidence <;> simp

theorem findingProblems_eq_nil_iff {index : Nat} {finding : Json} :
    findingProblems rt index finding = [] ↔ ∃ items, finding = .obj items ∧ FindingContract items := by
  cases finding with
  | obj items =>
    rw [findingProblems, List.append_eq_nil_iff, List.append_eq_nil_iff, fieldProblems_eq_nil_iff]
    constructor
    · rintro ⟨⟨hfields, hstate⟩, hevidence⟩
      obtain ⟨value, hvalue, htype⟩ := hfields (lit "state", .str) (by decide)
      obtain ⟨state, rfl⟩ := isInstance_str.mp htype
      obtain ⟨value', hvalue', htype'⟩ := hfields (lit "evidence", .list) (by decide)
      obtain ⟨evidence, rfl⟩ := isInstance_list.mp htype'
      obtain ⟨first, rest, rfl⟩ := List.exists_cons_of_ne_nil
        ((evidenceProblems_eq_nil_iff hvalue').mp hevidence)
      exact ⟨items, rfl, hfields, ⟨state, (stateProblems_eq_nil_iff hvalue).mp hstate, hvalue⟩,
        first, rest, hvalue'⟩
    · rintro ⟨_, hitems, hfields, ⟨state, hstate, hvalue⟩, first, rest, hevidence⟩
      obtain rfl := Json.obj.inj hitems
      exact ⟨⟨hfields, (stateProblems_eq_nil_iff hvalue).mpr hstate⟩,
        (evidenceProblems_eq_nil_iff hevidence).mpr (List.cons_ne_nil first rest)⟩
  | _ => simp [findingProblems]

/-- A report without problems is one that keeps the contract. -/
theorem checkReport_eq_nil_iff (rt : Runtime) (payload : List (Str × Json)) :
    checkReport rt payload = [] ↔ ReportContract payload := by
  rw [checkReport, List.append_eq_nil_iff, fieldProblems_eq_nil_iff]
  constructor
  · rintro ⟨hfields, hfindings⟩
    obtain ⟨value, hvalue, htype⟩ := hfields (lit "findings", .list) (by decide)
    obtain ⟨findings, rfl⟩ := isInstance_list.mp htype
    have hget : dictGet? payload "findings" = some (.arr findings) := hvalue
    rw [hget] at hfindings
    refine ⟨hfields, findings, hget, fun finding hfinding => ?_⟩
    obtain ⟨index, hindex⟩ := List.mem_iff_getElem?.mp hfinding
    have hitem : (finding, index) ∈ findings.zipIdx := List.mem_zipIdx_iff_getElem?.mpr hindex
    exact findingProblems_eq_nil_iff.mp (List.flatMap_eq_nil_iff.mp hfindings _ hitem)
  · rintro ⟨hfields, findings, hget, hfindings⟩
    rw [hget]
    refine ⟨hfields, List.flatMap_eq_nil_iff.mpr fun item hitem => ?_⟩
    exact findingProblems_eq_nil_iff.mpr (hfindings item.1 (List.mem_iff_getElem?.mpr
      ⟨item.2, List.mem_zipIdx_iff_getElem?.mp hitem⟩))

/-! ## The exports -/

/-- What is said of a finding without evidence. -/
def noEvidence (index : Nat) : Str :=
  findingPlace index ++ lit ": evidence is empty; every finding must carry some"

theorem findingStates_value : ∀ state : Mcp.FindingState, state.value ∈ findingStates := by
  intro state
  cases state <;> decide

/-- A finding of this program has all its fields, and its state is in the contract. -/
theorem findingProblems_modelDump (rt : Runtime) (index : Nat) (f : Finding) :
    findingProblems rt index f.modelDump = if f.evidence = [] then [noEvidence index] else [] := by
  obtain ⟨items, hitems⟩ : ∃ items, f.modelDump = .obj items := ⟨_, rfl⟩
  have hrule : dictGet? items "rule_id" = some (.str f.ruleId) := by cases hitems; rfl
  have hstate : dictGet? items "state" = some (.str f.state.value) := by cases hitems; rfl
  have hsummary : dictGet? items "summary" = some (.str f.summary) := by cases hitems; rfl
  have hevidence : dictGet? items "evidence" = some (.arr (f.evidence.map Mcp.Evidence.modelDump)) := by
    cases hitems
    rfl
  have hfields : HasFields items requiredFindingFields := by
    intro field hfield
    simp only [requiredFindingFields, List.mem_cons, List.not_mem_nil, or_false] at hfield
    rcases hfield with rfl | rfl | rfl | rfl
    · exact ⟨_, hrule, rfl⟩
    · exact ⟨_, hstate, rfl⟩
    · exact ⟨_, hsummary, rfl⟩
    · exact ⟨_, hevidence, rfl⟩
  rw [hitems, findingProblems, fieldProblems_eq_nil_iff.mpr hfields,
    (stateProblems_eq_nil_iff hstate).mpr (findingStates_value f.state), evidenceProblems, hevidence]
  cases f.evidence <;> rfl

theorem hasFields_items (r : ScanReport) : HasFields r.items requiredReportFields := by
  intro field hfield
  simp only [requiredReportFields, List.mem_cons, List.not_mem_nil, or_false] at hfield
  rcases hfield with rfl | rfl | rfl | rfl | rfl | rfl
  · exact ⟨.str r.schemaVersion, rfl, rfl⟩
  · exact ⟨.str r.devreproVersion, rfl, rfl⟩
  · exact ⟨.str r.createdAt, rfl, rfl⟩
  · exact ⟨r.platform.modelDump, rfl, rfl⟩
  · exact ⟨.arr (r.findings.map Finding.modelDump), rfl, rfl⟩
  · exact ⟨.arr (r.tools.map Snapshots.ToolInstallation.modelDump), rfl, rfl⟩

theorem checkReport_items (rt : Runtime) (r : ScanReport) : checkReport rt r.items =
    r.findings.zipIdx.flatMap fun item => if item.1.evidence = [] then [noEvidence item.2] else [] := by
  have hget : dictGet? r.items "findings" = some (.arr (r.findings.map Finding.modelDump)) := rfl
  rw [checkReport, fieldProblems_eq_nil_iff.mpr (hasFields_items r), hget, List.nil_append]
  show (List.zipIdx (r.findings.map Finding.modelDump)).flatMap _ = _
  rw [List.zipIdx_map, List.flatMap_map]
  exact List.flatMap_congr fun item _ => findingProblems_modelDump rt item.2 item.1

/-- The check of an exported report names the findings without evidence, and nothing else. -/
theorem checkReport_export {r : ScanReport} {text : Str} (h : Exports rt r text) :
    ∃ payload, loads rt.limits text = .ok (.obj payload) ∧
      (∀ problem, problem ∈ checkReport rt payload ↔
        ∃ index f, r.findings[index]? = some f ∧ f.evidence = [] ∧ problem = noEvidence index) ∧
      (ReportContract payload ↔ ∀ f ∈ r.findings, f.evidence ≠ []) := by
  refine ⟨r.items, h.2, fun problem => ?_, ?_⟩
  · rw [checkReport_items, List.mem_flatMap]
    constructor
    · rintro ⟨item, hitem, hproblem⟩
      by_cases hevidence : item.1.evidence = []
      · rw [if_pos hevidence] at hproblem
        exact ⟨item.2, item.1, List.mem_zipIdx_iff_getElem?.mp hitem, hevidence,
          List.mem_singleton.mp hproblem⟩
      · rw [if_neg hevidence] at hproblem
        cases hproblem
    · rintro ⟨index, f, hf, hevidence, rfl⟩
      exact ⟨(f, index), List.mem_zipIdx_iff_getElem?.mpr hf, by simp [hevidence]⟩
  · rw [← checkReport_eq_nil_iff rt, checkReport_items, List.flatMap_eq_nil_iff]
    constructor
    · intro h f hf hevidence
      obtain ⟨index, hindex⟩ := List.mem_iff_getElem?.mp hf
      have hitem := h (f, index) (List.mem_zipIdx_iff_getElem?.mpr hindex)
      rw [if_pos hevidence] at hitem
      cases hitem
    · intro h item hitem
      exact if_neg (h item.1 (List.mem_iff_getElem?.mpr ⟨item.2, List.mem_zipIdx_iff_getElem?.mp hitem⟩))

/-- The export of a report whose finding has no evidence. -/
theorem checkReport_export_unknown : ∃ text payload, loads Runtime.standard.limits text = .ok (.obj payload) ∧
    noEvidence 0 ∈ checkReport .standard payload ∧ ¬ReportContract payload := by
  have hexports : Exports .standard Reports.unknownReport
      (dumpText .standard (.indented 2) 0 Reports.unknownReport.modelDump) :=
    Snapshots.exports_of_readable (dumps_of_no_error (by decide +kernel)) (readable_of_check (by decide +kernel))
  obtain ⟨payload, hload, hproblems, hcontract⟩ := checkReport_export hexports
  refine ⟨_, payload, hload, (hproblems _).mpr ⟨0, _, rfl, rfl, rfl⟩, fun h => ?_⟩
  exact hcontract.mp h _ List.mem_cons_self rfl

/-! ## Exit codes -/

/-- `check_exit_code`: the members of `ExitCode` -/
def checkExitCode (code : Int) : Option Str :=
  ([(0, "READY"), (1, "READY_WITH_WARNINGS"), (2, "BLOCKED"), (3, "INTERNAL_ERROR"),
    (4, "USAGE_ERROR")] : List (Int × Str)).lookup code

/-- The contract knows the exit code of a scan by the verdict of `preflight`. -/
theorem checkExitCode_exitFor (r : ScanReport) :
    checkExitCode (exitFor (r.findings.map Finding.state)) = some (Reports.preflightVerdict r) := by
  rw [Reports.preflightVerdict_eq, ← Reports.exitFor_worstState]
  cases Reports.worstState r <;> decide

end DevRepro.Core
