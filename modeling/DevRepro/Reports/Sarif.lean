import DevRepro.Lib.Sorting
import DevRepro.Mcp.Report
import DevRepro.Python.JsonDump
import DevRepro.Reports.CheckRun
import DevRepro.Snapshots.Chain

/-!
# SARIF and the verdicts

`reports/sarif.py`, and the verdict of a report in its other outputs: `exit_for` and
`preflight` of the command line, the chat message of `exporters/chat.py`, the conclusion of the
check run and the levels of the SARIF log.

`sarifLog_complete_iff` accounts for the log.  The outputs are computed from the findings one by
one; `verdicts_agree_iff` says that they agree on every report but those whose worst finding is
`UNKNOWN`, which the check run passes.
-/

namespace DevRepro.Reports

open DevRepro.Python DevRepro.Lib DevRepro.Snapshots
open DevRepro.Mcp (Finding FindingState exitFor)

/-! ## The log -/

/-- `_LEVEL_FOR_STATE` -/
def levelForState : FindingState → Str
  | .blocked => "error"
  | .error => "error"
  | .warn => "warning"
  | .unknown => "warning"
  | .info => "note"
  | .pass => "note"

structure SarifResult where
  ruleId : Str
  ruleIndex : Nat
  level : Str
  message : Str
  fingerprint : Str
  properties : List (Str × Str)

structure SarifLog where
  rules : List Str
  results : List SarifResult

/-- `sorted({f.rule_id for f in report.findings})` -/
def ruleIds (report : ScanReport) : List Str := ascending (report.findings.map Finding.ruleId).dedup

/-- `rule_index[rule_id]` -/
def ruleIndex (report : ScanReport) (ruleId : Str) : Nat := (ruleIds report).idxOf ruleId

/-- The order of the keys `(rule_index[x.rule_id], x.summary)`. -/
def resultLe (report : ScanReport) (f g : Finding) : Bool :=
  ruleIndex report f.ruleId < ruleIndex report g.ruleId ||
    (ruleIndex report f.ruleId == ruleIndex report g.ruleId && strLe f.summary g.summary)

/-- A property that is there unless it is `None`. -/
def property (key : Str) : Option Str → List (Str × Str)
  | none => []
  | some value => [(key, value)]

/-- `f.evidence[0].excerpt if f.evidence else None`, unless it is empty. -/
def evidenceExcerpt (f : Finding) : Option Str := do
  let excerpt ← (← f.evidence.head?).excerpt
  if excerpt = [] then none else some excerpt

/-- The properties of a result. -/
def sarifProperties (f : Finding) : List (Str × Str) :=
  [(lit "state", f.state.value), (lit "devrepro-rule-id", f.ruleId)] ++ property "detected" f.detected ++
    property "required" f.required ++ property "component" f.component ++
    property "remediation-hint" f.remediationHint ++ property "evidence-excerpt" (evidenceExcerpt f)

/-- The text whose digest is the fingerprint. -/
def fingerprintText (report : ScanReport) (f : Finding) : Str :=
  report.platform.osName ++ lit "|" ++ f.ruleId ++ lit "|" ++ f.summary

section

variable (sha256 : ByteArray → Str)

/-- The result of a finding. -/
def sarifResult (report : ScanReport) (f : Finding) : Except Exc SarifResult :=
  match encodeUtf8 (fingerprintText report f) with
  | none => .error unicodeEncodeError
  | some bytes => .ok ⟨f.ruleId, ruleIndex report f.ruleId, levelForState f.state, f.summary,
      sha256 bytes, sarifProperties f⟩

/-- The rules and the results of `render_sarif`. -/
def sarifLog (report : ScanReport) : Except Exc SarifLog := do
  let results ← (report.findings.mergeSort (resultLe report)).mapM (sarifResult sha256 report)
  return ⟨ruleIds report, results⟩

/-- `_TOOL_URI` -/
def toolUri : Json := .str "https://github.com/webdevsamran/devrepro-doctor"

def SarifResult.asDict (r : SarifResult) : Json :=
  .obj [("ruleId", .str r.ruleId), ("ruleIndex", .int r.ruleIndex), ("level", .str r.level),
    ("message", .obj [("text", .str r.message)]),
    ("partialFingerprints", .obj [("devreproFinding/v1", .str r.fingerprint)]),
    ("properties", .obj (r.properties.map fun item => (item.1, .str item.2)))]

def sarifRule (id : Str) : Json :=
  .obj [("id", .str id),
    ("shortDescription", .obj [("text", .str (lit "Developer-environment check: " ++ id))]),
    ("helpUri", toolUri)]

/-- The document, for a version of the program. -/
def SarifLog.asDict (version : Str) (log : SarifLog) : Json :=
  .obj [("$schema", .str "https://json.schemastore.org/sarif-2.1.0.json"), ("version", .str "2.1.0"),
    ("runs", .arr [.obj [("tool", .obj [("driver", .obj [("name", .str "DevRepro Doctor"),
        ("version", .str version), ("informationUri", toolUri),
        ("rules", .arr (log.rules.map sarifRule))])]),
      ("results", .arr (log.results.map SarifResult.asDict)),
      ("automationDetails", .obj [("description", .obj [("text", .str
        (lit "Project-aware developer-environment diagnostics " ++
          lit "(read-only scan; privacy-redacted)."))])])]])]

/-- `render_sarif` -/
def renderSarif (rt : Runtime) (version : Str) (assertNoSecrets : Str → Except Exc Unit)
    (report : ScanReport) : Except Exc Str := do
  let log ← sarifLog sha256 report
  let payload ← dumps rt (.indented 2) (log.asDict version)
  assertNoSecrets payload
  return payload

end

/-! ## The account of the log -/

variable {sha256 : ByteArray → Str} {report : ScanReport}

theorem mem_ruleIds {ruleId : Str} : ruleId ∈ ruleIds report ↔ ∃ f ∈ report.findings, f.ruleId = ruleId := by
  rw [ruleIds, (ascending_perm _).mem_iff, List.mem_dedup, List.mem_map]

theorem ruleIds_nodup (report : ScanReport) : (ruleIds report).Nodup :=
  (ascending_perm _).nodup_iff.mpr (List.nodup_dedup _)

theorem getElem?_ruleIndex {f : Finding} (hf : f ∈ report.findings) :
    (ruleIds report)[ruleIndex report f.ruleId]? = some f.ruleId := by
  have hmem : f.ruleId ∈ ruleIds report := mem_ruleIds.mpr ⟨f, hf, rfl⟩
  exact List.getElem?_idxOf hmem

theorem sarifResult_eq_ok {f : Finding} {r : SarifResult} (h : sarifResult sha256 report f = .ok r) :
    ∃ bytes, encodeUtf8 (fingerprintText report f) = some bytes ∧
      r = ⟨f.ruleId, ruleIndex report f.ruleId, levelForState f.state, f.summary, sha256 bytes,
        sarifProperties f⟩ := by
  rw [sarifResult] at h
  cases hbytes : encodeUtf8 (fingerprintText report f) with
  | none =>
    rw [hbytes] at h
    cases h
  | some bytes =>
    rw [hbytes] at h
    exact ⟨bytes, rfl, (Except.ok.inj h).symm⟩

/-- What a log says of the findings. -/
structure SarifComplete (sha256 : ByteArray → Str) (report : ScanReport) (log : SarifLog) : Prop where
  /-- The rules are those of the findings, each of them once and in order. -/
  rules : log.rules.Pairwise (· < ·) ∧ ∀ ruleId, ruleId ∈ log.rules ↔ ∃ f ∈ report.findings, f.ruleId = ruleId
  /-- The results are those of the findings, in some order. -/
  results : ∃ findings, findings.Perm report.findings ∧
    List.Forall₂ (fun f r => sarifResult sha256 report f = .ok r) findings log.results
  /-- Each result points at its rule. -/
  indexed : ∀ r ∈ log.results, log.rules[r.ruleIndex]? = some r.ruleId
  /-- A rule has its results in one block, in the order of their texts. -/
  ordered : log.results.Pairwise fun a b => a.ruleIndex < b.ruleIndex ∨
    (a.ruleIndex = b.ruleIndex ∧ a.message ≤ b.message)

theorem resultLe_iff {f g : Finding} : resultLe report f g = true ↔
    ruleIndex report f.ruleId < ruleIndex report g.ruleId ∨
      (ruleIndex report f.ruleId = ruleIndex report g.ruleId ∧ f.summary ≤ g.summary) := by
  rw [resultLe, Bool.or_eq_true, Bool.and_eq_true, decide_eq_true_eq, beq_iff_eq, Core.strLe_iff]

theorem resultLe_total (f g : Finding) : (resultLe report f g || resultLe report g f) = true := by
  rw [Bool.or_eq_true, resultLe_iff, resultLe_iff]
  rcases lt_trichotomy (ruleIndex report f.ruleId) (ruleIndex report g.ruleId) with hlt | heq | hgt
  · exact Or.inl (Or.inl hlt)
  · exact (le_total f.summary g.summary).imp (fun h => Or.inr ⟨heq, h⟩) (fun h => Or.inr ⟨heq.symm, h⟩)
  · exact Or.inr (Or.inl hgt)

theorem resultLe_trans (f g h : Finding) (hfg : resultLe report f g = true)
    (hgh : resultLe report g h = true) : resultLe report f h = true := by
  rw [resultLe_iff] at hfg hgh ⊢
  rcases hfg with hfg | ⟨hfg, hleft⟩
  · rcases hgh with hgh | ⟨hgh, _⟩
    · exact Or.inl (hfg.trans hgh)
    · exact Or.inl (hgh ▸ hfg)
  · rcases hgh with hgh | ⟨hgh, hright⟩
    · exact Or.inl (hfg ▸ hgh)
    · exact Or.inr ⟨hfg.trans hgh, hleft.trans hright⟩

theorem sarifLog_eq_ok {log : SarifLog} (h : sarifLog sha256 report = .ok log) :
    log.rules = ruleIds report ∧
      List.Forall₂ (fun f r => sarifResult sha256 report f = .ok r)
        (report.findings.mergeSort (resultLe report)) log.results := by
  rw [sarifLog] at h
  obtain ⟨results, hresults, hlog⟩ := bind_eq_ok.mp h
  obtain rfl := Except.ok.inj hlog
  exact ⟨rfl, mapM_eq_ok.mp hresults⟩

theorem complete_of_sarifLog {log : SarifLog} (h : sarifLog sha256 report = .ok log) :
    SarifComplete sha256 report log := by
  obtain ⟨hrules, hresults⟩ := sarifLog_eq_ok h
  have hperm : (report.findings.mergeSort (resultLe report)).Perm report.findings :=
    List.mergeSort_perm _ _
  constructor
  · rw [hrules]
    refine ⟨?_, fun ruleId => mem_ruleIds⟩
    exact ((pairwise_ascending _).and (ruleIds_nodup report)).imp fun h => lt_of_le_of_ne h.1 h.2
  · exact ⟨_, hperm, hresults⟩
  · intro r hr
    obtain ⟨f, hf, hresult⟩ := exists_of_forall₂ hresults hr
    obtain ⟨bytes, _, rfl⟩ := sarifResult_eq_ok hresult
    rw [hrules]
    exact getElem?_ruleIndex (hperm.mem_iff.mp hf)
  · have hsorted := List.pairwise_mergeSort (@resultLe_trans report) resultLe_total report.findings
    refine pairwise_of_forall₂ hresults hsorted fun f g r t hr ht hfg => ?_
    obtain ⟨_, _, rfl⟩ := sarifResult_eq_ok hr
    obtain ⟨_, _, rfl⟩ := sarifResult_eq_ok ht
    exact resultLe_iff.mp hfg

theorem not_surrogate_of_encodeUtf8 {s : Str} {bytes : ByteArray} (h : encodeUtf8 s = some bytes) :
    ∀ c ∈ s, isSurrogate c = false := by
  obtain ⟨chars, hchars, -⟩ := Option.map_eq_some_iff.mp h
  intro c hc
  rw [← lit_of_mapM hchars] at hc
  obtain ⟨ch, -, rfl⟩ := List.mem_map.mp hc
  exact codePoint_not_surrogate ch

/-- A fingerprint is taken exactly of texts without surrogates. -/
theorem exists_fingerprintBytes_iff (report : ScanReport) (f : Finding) :
    (∃ bytes, encodeUtf8 (fingerprintText report f) = some bytes) ↔
      ∀ c ∈ report.platform.osName ++ f.ruleId ++ f.summary, isSurrogate c = false := by
  constructor
  · rintro ⟨bytes, hbytes⟩ c hc
    refine not_surrogate_of_encodeUtf8 hbytes c ?_
    rw [fingerprintText]
    simp only [List.mem_append] at hc ⊢
    tauto
  · intro hclean
    refine encodeUtf8_isSome fun c hc => ?_
    have hbar : isSurrogate (codePoint '|') = false := codePoint_not_surrogate '|'
    have htext := hclean c
    rw [fingerprintText] at hc
    simp only [List.mem_append] at hc htext
    rcases hc with (((hc | hc) | hc) | hc) | hc
    · exact htext (Or.inl (Or.inl hc))
    · exact List.mem_singleton.mp hc ▸ hbar
    · exact htext (Or.inl (Or.inr hc))
    · exact List.mem_singleton.mp hc ▸ hbar
    · exact htext (Or.inr hc)

/-- There is a log exactly when no text of a fingerprint has a surrogate. -/
theorem exists_sarifLog_iff (sha256 : ByteArray → Str) (report : ScanReport) :
    (∃ log, sarifLog sha256 report = .ok log) ↔
      ∀ f ∈ report.findings, ∀ c ∈ report.platform.osName ++ f.ruleId ++ f.summary,
        isSurrogate c = false := by
  have hperm : (report.findings.mergeSort (resultLe report)).Perm report.findings :=
    List.mergeSort_perm _ _
  constructor
  · rintro ⟨log, hlog⟩ f hf
    obtain ⟨-, hresults⟩ := sarifLog_eq_ok hlog
    obtain ⟨r, -, hr⟩ := exists_of_forall₂ hresults.flip (hperm.mem_iff.mpr hf)
    obtain ⟨bytes, hbytes, -⟩ := sarifResult_eq_ok hr
    exact (exists_fingerprintBytes_iff report f).mp ⟨bytes, hbytes⟩
  · intro hclean
    obtain ⟨results, hresults⟩ : ∃ results, List.Forall₂ (fun f r => sarifResult sha256 report f = .ok r)
        (report.findings.mergeSort (resultLe report)) results := by
      refine exists_forall₂ fun f hf => ?_
      obtain ⟨bytes, hbytes⟩ := (exists_fingerprintBytes_iff report f).mpr (hclean f (hperm.mem_iff.mp hf))
      exact ⟨_, by rw [sarifResult, hbytes]⟩
    refine ⟨⟨ruleIds report, results⟩, ?_⟩
    rw [sarifLog]
    exact bind_eq_ok.mpr ⟨results, mapM_eq_ok.mpr hresults, rfl⟩

/-- A report without surrogates has a log, and the log is complete. -/
theorem sarifLog_complete_iff (sha256 : ByteArray → Str) (report : ScanReport) :
    (∃ log, sarifLog sha256 report = .ok log ∧ SarifComplete sha256 report log) ↔
      ∀ f ∈ report.findings, ∀ c ∈ report.platform.osName ++ f.ruleId ++ f.summary,
        isSurrogate c = false := by
  rw [← exists_sarifLog_iff sha256]
  exact exists_congr fun log => and_iff_left_of_imp complete_of_sarifLog

/-- What is rendered is a complete log that the privacy gate has let through. -/
theorem renderSarif_eq_ok {rt : Runtime} {version payload : Str} {assertNoSecrets : Str → Except Exc Unit}
    (h : renderSarif sha256 rt version assertNoSecrets report = .ok payload) :
    ∃ log, SarifComplete sha256 report log ∧ dumps rt (.indented 2) (log.asDict version) = .ok payload ∧
      assertNoSecrets payload = .ok () := by
  rw [renderSarif] at h
  obtain ⟨log, hlog, h⟩ := bind_eq_ok.mp h
  obtain ⟨text, htext, h⟩ := bind_eq_ok.mp h
  obtain ⟨_, hgate, h⟩ := bind_eq_ok.mp h
  obtain rfl := Except.ok.inj h
  exact ⟨log, complete_of_sarifLog hlog, htext, hgate⟩

/-! ## The verdicts -/

/-- `worst_state` -/
def worstState (report : ScanReport) : FindingState :=
  ([.blocked, .error, .warn, .unknown, .info, .pass].find? fun state =>
    decide (state ∈ report.findings.map Finding.state)).getD .pass

/-- `_verdict` of the chat message. -/
def chatVerdict (report : ScanReport) : Str :=
  if worstState report = .error ∨ worstState report = .blocked then "BLOCKED"
  else if worstState report = .warn ∨ worstState report = .unknown then "READY_WITH_WARNINGS"
  else "READY"

/-- The verdict of `preflight`. -/
def preflightVerdict (report : ScanReport) : Str :=
  (List.lookup (worstState report).value
    [(lit "PASS", lit "READY"), (lit "INFO", lit "READY"), (lit "WARN", lit "READY_WITH_WARNINGS"),
      (lit "UNKNOWN", lit "READY_WITH_WARNINGS"), (lit "ERROR", lit "BLOCKED"),
      (lit "BLOCKED", lit "BLOCKED")]).getD "READY_WITH_WARNINGS"

/-- The exit code of `preflight`. -/
def preflightExit (report : ScanReport) : Option Int :=
  List.lookup (preflightVerdict report)
    [(lit "READY", 0), (lit "READY_WITH_WARNINGS", 1), (lit "BLOCKED", 2)]

/-- The name of an exit code. -/
def exitName (code : Int) : Str :=
  if code = 2 then "BLOCKED" else if code = 1 then "READY_WITH_WARNINGS" else "READY"

/-- The exit code that the levels of a log stand for. -/
def exitOfLevels (log : SarifLog) : Int :=
  if ∃ r ∈ log.results, r.level = lit "error" then 2
  else if ∃ r ∈ log.results, r.level = lit "warning" then 1
  else 0

/-- The exit code that a conclusion of a check run stands for. -/
def exitOfConclusion (conclusion : Str) : Int :=
  if conclusion = lit "failure" then 2 else if conclusion = lit "neutral" then 1 else 0

/-- A finding has one of the states. -/
def HasState (report : ScanReport) (states : List FindingState) : Prop :=
  ∃ f ∈ report.findings, f.state ∈ states

instance (report : ScanReport) (states : List FindingState) : Decidable (HasState report states) :=
  inferInstanceAs (Decidable (∃ f ∈ report.findings, f.state ∈ states))

theorem hasState_singleton {report : ScanReport} {s : FindingState} :
    HasState report [s] ↔ s ∈ report.findings.map Finding.state := by
  simp only [HasState, List.mem_singleton, List.mem_map]

theorem hasState_pair {report : ScanReport} {s t : FindingState} :
    HasState report [s, t] ↔
      s ∈ report.findings.map Finding.state ∨ t ∈ report.findings.map Finding.state := by
  rw [← hasState_singleton, ← hasState_singleton, HasState, HasState, HasState, ← exists_or]
  simp only [List.mem_cons, List.not_mem_nil, or_false, ← and_or_left]

theorem exitFor_eq (report : ScanReport) : exitFor (report.findings.map Finding.state) =
    if HasState report [.blocked, .error] then 2
    else if HasState report [.warn, .unknown] then 1 else 0 := by
  simp only [exitFor, hasState_pair]

/-- The exit code of the worst state is that of the states. -/
theorem exitFor_worstState (report : ScanReport) :
    exitFor [worstState report] = exitFor (report.findings.map Finding.state) := by
  rw [worstState]
  generalize report.findings.map Finding.state = states
  by_cases hblocked : .blocked ∈ states
  · simp [exitFor, hblocked]
  by_cases herror : .error ∈ states
  · simp [exitFor, hblocked, herror]
  by_cases hwarn : .warn ∈ states
  · simp [exitFor, hblocked, herror, hwarn]
  by_cases hunknown : .unknown ∈ states
  · simp [exitFor, hblocked, herror, hwarn, hunknown]
  by_cases hinfo : .info ∈ states
  · simp [exitFor, hblocked, herror, hwarn, hunknown, hinfo]
  · by_cases hpass : .pass ∈ states <;> simp [exitFor, hblocked, herror, hwarn, hunknown, hinfo, hpass]

theorem worstState_eq_unknown_iff (report : ScanReport) : worstState report = .unknown ↔
    ¬HasState report [.blocked, .error] ∧ ¬HasState report [.warn] ∧ HasState report [.warn, .unknown] := by
  rw [worstState, hasState_singleton, hasState_pair, hasState_pair]
  generalize report.findings.map Finding.state = states
  by_cases hblocked : .blocked ∈ states
  · simp [hblocked]
  by_cases herror : .error ∈ states
  · simp [hblocked, herror]
  by_cases hwarn : .warn ∈ states
  · simp [hblocked, herror, hwarn]
  by_cases hunknown : .unknown ∈ states
  · simp [hblocked, herror, hwarn, hunknown]
  by_cases hinfo : .info ∈ states
  · simp [hblocked, herror, hwarn, hunknown, hinfo]
  · by_cases hpass : .pass ∈ states <;> simp [hblocked, herror, hwarn, hunknown, hinfo, hpass]

theorem chatVerdict_eq (report : ScanReport) :
    chatVerdict report = exitName (exitFor [worstState report]) := by
  rw [chatVerdict]
  cases worstState report <;> decide

theorem preflightVerdict_eq (report : ScanReport) :
    preflightVerdict report = exitName (exitFor [worstState report]) := by
  rw [preflightVerdict]
  cases worstState report <;> decide

theorem preflightExit_eq (report : ScanReport) :
    preflightExit report = some (exitFor [worstState report]) := by
  rw [preflightExit, preflightVerdict_eq]
  cases worstState report <;> decide

/-- The levels of a log are those of the findings. -/
theorem exists_level_iff {log : SarifLog} (h : sarifLog sha256 report = .ok log) (level : Str) :
    (∃ r ∈ log.results, r.level = level) ↔ ∃ f ∈ report.findings, levelForState f.state = level := by
  obtain ⟨findings, hperm, hresults⟩ := (complete_of_sarifLog h).results
  constructor
  · rintro ⟨r, hr, hlevel⟩
    obtain ⟨f, hf, hresult⟩ := exists_of_forall₂ hresults hr
    obtain ⟨_, _, rfl⟩ := sarifResult_eq_ok hresult
    exact ⟨f, hperm.mem_iff.mp hf, hlevel⟩
  · rintro ⟨f, hf, hlevel⟩
    obtain ⟨r, hr, hresult⟩ := exists_of_forall₂ hresults.flip (hperm.mem_iff.mpr hf)
    obtain ⟨_, _, rfl⟩ := sarifResult_eq_ok hresult
    exact ⟨_, hr, hlevel⟩

theorem exitOfLevels_eq {log : SarifLog} (h : sarifLog sha256 report = .ok log) :
    exitOfLevels log = exitFor (report.findings.map Finding.state) := by
  have herror : ∀ state : FindingState, levelForState state = lit "error" ↔ state ∈ [.blocked, .error] := by
    intro state
    cases state <;> decide
  have hwarning : ∀ state : FindingState,
      levelForState state = lit "warning" ↔ state ∈ [.warn, .unknown] := by
    intro state
    cases state <;> decide
  rw [exitFor_eq, exitOfLevels]
  simp only [exists_level_iff h, herror, hwarning]
  rfl

/-- The conclusion of a check run does not ask for `UNKNOWN`. -/
theorem exitOfConclusion_eq (report : ScanReport) :
    exitOfConclusion (conclusionOf (annotationsFor report)) =
      if HasState report [.blocked, .error] then 2 else if HasState report [.warn] then 1 else 0 := by
  have hlevel : ∀ (level : AnnotationLevel) (states : List FindingState),
      (∀ state, (state ≠ .pass ∧ levelOf state = level) ↔ state ∈ states) →
      ((annotationsFor report).any (fun a => a.level = level) = true ↔ HasState report states) := by
    intro level states hstates
    rw [List.any_eq_true, annotationsFor]
    simp only [List.mem_map, interesting, List.mem_mergeSort, List.mem_filter, decide_eq_true_eq, HasState]
    constructor
    · rintro ⟨_, ⟨f, ⟨hf, hpass⟩, rfl⟩, hf'⟩
      exact ⟨f, hf, (hstates f.state).mp ⟨hpass, hf'⟩⟩
    · rintro ⟨f, hf, hstate⟩
      have hf' := (hstates f.state).mpr hstate
      exact ⟨_, ⟨f, ⟨hf, hf'.1⟩, rfl⟩, hf'.2⟩
  have hfailure := hlevel .failure [.blocked, .error] fun state => by cases state <;> decide
  have hwarning := hlevel .warning [.warn] fun state => by cases state <;> decide
  rw [conclusionOf]
  simp only [hfailure, hwarning]
  split_ifs <;> decide

/-- The verdicts of the command line, of `preflight` and of the chat message are one, and it is
that of the levels of the log.  The conclusion of the check run is that of the verdict unless the
worst finding is `UNKNOWN`. -/
theorem verdicts_agree_iff {log : SarifLog} (h : sarifLog sha256 report = .ok log) :
    preflightExit report = some (exitFor (report.findings.map Finding.state)) ∧
      preflightVerdict report = exitName (exitFor (report.findings.map Finding.state)) ∧
      chatVerdict report = exitName (exitFor (report.findings.map Finding.state)) ∧
      exitOfLevels log = exitFor (report.findings.map Finding.state) ∧
      (exitOfConclusion (conclusionOf (annotationsFor report)) =
        exitFor (report.findings.map Finding.state) ↔ worstState report ≠ .unknown) := by
  refine ⟨?_, ?_, ?_, exitOfLevels_eq h, ?_⟩
  · rw [preflightExit_eq, exitFor_worstState]
  · rw [preflightVerdict_eq, exitFor_worstState]
  · rw [chatVerdict_eq, exitFor_worstState]
  · rw [exitOfConclusion_eq, exitFor_eq, Ne, worstState_eq_unknown_iff]
    by_cases hblocked : HasState report [.blocked, .error]
    · simp [hblocked]
    by_cases hwarn : HasState report [.warn]
    · have heither : HasState report [.warn, .unknown] := hasState_pair.mpr (Or.inl (hasState_singleton.mp hwarn))
      simp [hblocked, hwarn, heither]
    · by_cases heither : HasState report [.warn, .unknown] <;> simp [hblocked, hwarn, heither]

/-- A report of one finding, about a probe without an answer. -/
def unknownReport : ScanReport :=
  ⟨"1.0", "2026-01-01T00:00:00Z", "0.2.0", ⟨"Linux", "6.5", "x86_64", none, none, false⟩,
    [⟨"git/missing", .unknown, "No answer.", [], none, none, none, none, [], none⟩], [],
    none, [], false, none, [], none, none, none, []⟩

theorem unknownReport_logged : ∃ log, sarifLog (fun _ => []) unknownReport = .ok log := by
  refine (exists_sarifLog_iff _ _).mpr fun f hf c hc => ?_
  obtain rfl := List.mem_singleton.mp hf
  obtain ⟨ch, -, rfl⟩ : ∃ ch ∈ "Linuxgit/missingNo answer.".toList, codePoint ch = c :=
    List.mem_map.mp hc
  exact codePoint_not_surrogate ch

/-- The check run passes what the verdict warns about. -/
theorem verdicts_agree_iff_unknown : ∃ log, sarifLog (fun _ => []) unknownReport = .ok log ∧
    exitOfLevels log = 1 ∧ exitOfConclusion (conclusionOf (annotationsFor unknownReport)) ≠ 1 := by
  obtain ⟨log, hlog⟩ := unknownReport_logged
  obtain ⟨-, -, -, hlevels, hconclusion⟩ := verdicts_agree_iff hlog
  refine ⟨log, hlog, by rw [hlevels]; decide, fun h => ?_⟩
  exact hconclusion.mp (h.trans (by decide)) (by decide)

end DevRepro.Reports
