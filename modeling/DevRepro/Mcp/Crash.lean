import DevRepro.Mcp.Payload

/-!
# When a handler crashes

A handler of the server ends in one of three ways: with a result, with an
`McpError`, or with some other exception.  The last one is a crash, and this
module says exactly when a request crashes.

Most of what a client can send does not crash the server, because
`validate_arguments` runs before a tool does: `str(arguments["tool"])` is
applied to strings only.  What is left is `Undisturbed` for a tool call, and
`Quiet` for a whole request: `params` that are not an object, a method or a
tool name whose `str()` recurses too deeply, and the surroundings, namely a
path that does not resolve, a scan or a survey that raises, and a score that
cannot be written.
-/

namespace DevRepro.Mcp

open DevRepro.Python

/-- A handler ended with a result or with an `McpError`. -/
def Handled {α : Type} (outcome : Except Failure α) : Prop := ∀ exc, outcome ≠ .error (.py exc)

section

variable {α : Type}

@[simp] theorem handled_ok (a : α) : Handled (.ok a : Except Failure α) := by
  intro exc h
  cases h

@[simp] theorem handled_mcp (error : McpError) :
    Handled (.error (.mcp error) : Except Failure α) := by
  intro exc h
  cases h

@[simp] theorem not_handled_py (exc : Exc) :
    ¬Handled (.error (.py exc) : Except Failure α) := fun h => h exc rfl

theorem handled_error_iff {β : Type} (failure : Failure) :
    Handled (.error failure : Except Failure α) ↔ Handled (.error failure : Except Failure β) := by
  cases failure <;> simp

end

section

variable {Time : Type} (package : Package) (config : ServerConfig) (env : Env Time)

section

variable [Sub Time] [LT Time] [DecidableLT Time]

/-- Nothing unexpected happens to a tool call: a call that is not refused, and
is not `explain`, has a path that resolves, gets a report, and can render it. -/
def Undisturbed (name : Str) (arguments : List (Str × Json)) (cache : ReportCache Time) : Prop :=
  refusal package name arguments = none → name ≠ lit "explain" →
    Handled (resolveWithin package config env (projectOf arguments)) ∧
    ∀ project, resolveWithin package config env (projectOf arguments) = .ok project →
      ∃ report wasFresh, (cache.get env project (refreshOf arguments)).1 = .ok (report, wasFresh) ∧
        (name = lit "doctor" → ScoreFits package report) ∧
        (name = lit "agent_readiness" → ∃ survey, env.survey project = .ok survey)

/-- Nothing unexpected happens to `tools/call`. -/
def QuietCall (params : Json) (cache : ReportCache Time) : Prop :=
  ∃ items name, params = .obj items ∧
    (((dictGet? items "name").getD .null).orElse (.str [])).toStr package.runtime = .ok name ∧
    ∀ arguments, ((dictGet? items "arguments").getD .null).orElse (.obj []) = .obj arguments →
      Undisturbed package config env name arguments cache

/-- Nothing unexpected happens to a request. -/
def Quiet (fields : List (Str × Json)) (cache : ReportCache Time) : Prop :=
  ∃ method, ((dictGet? fields "method").getD .null).toStr package.runtime = .ok method ∧
    (method = lit "tools/call" →
      QuietCall package config env (((dictGet? fields "params").getD .null).orElse (.obj [])) cache)

end

variable {package config env}

/-! ## Rendering -/

theorem content_handled_iff {payload : Json} :
    Handled (content package payload) ↔
      dumpError package.runtime (.indented 2) 0 payload = none := by
  rw [content]
  cases hdumps : dumps package.runtime (.indented 2) payload with
  | error exc =>
    refine ⟨fun h => absurd h (not_handled_py exc), fun h => ?_⟩
    rw [dumps_of_no_error h] at hdumps
    cases hdumps
  | ok text => exact ⟨fun _ => (dumps_ok hdumps).1, fun _ => handled_ok _⟩

/-- A shallow payload is rendered when its integers are short. -/
theorem content_handled_of_shallow {payload : Json} {n : Nat} (hn : n ≤ 16)
    (h : payload.Shallow (ShortInt package) n) : Handled (content package payload) := by
  have hroom := package.runtime.dumpsDepth_ge (DumpStyle.indented 2).indent
  exact content_handled_iff.mpr (dumpError_of_shallow h (by omega))

/-! ## Arguments that are strings -/

theorem wrongType_string {schema : InputSchema} {item : Str × Json} {key : Str}
    {description : Option Str}
    (hfind : (schema.properties.find? fun declared => declared.1 = item.1) =
      some (key, ⟨.string, description⟩))
    (h : wrongType package schema item = none) : ∃ s, item.2 = .str s := by
  rw [wrongType, hfind] at h
  cases hvalue : item.2 with
  | str s => exact ⟨s, rfl⟩
  | null | bool | int | float | arr | obj => simp [hvalue, JsonType.isInstance] at h

theorem validateArguments_none {schema : InputSchema} {arguments : List (Str × Json)}
    (h : validateArguments package schema arguments = none) :
    ∀ item ∈ arguments, wrongType package schema item = none := by
  simp only [validateArguments] at h
  split_ifs at h
  split at h
  · cases h
  · exact List.findSome?_eq_none_iff.mp h

/-- A tool that is not refused has an argument of the declared type. -/
theorem string_of_refusal_none {name key : Str} {arguments : List (Str × Json)}
    {tool : ToolDefinition} {description : Option Str}
    (htool : (toolDefinitions.find? fun tool => tool.name = name) = some tool)
    (hkey : (tool.inputSchema.properties.find? fun declared => declared.1 = key) =
      some (key, ⟨.string, description⟩))
    (h : refusal package name arguments = none) {value : Json}
    (hvalue : dictGet? arguments key = some value) : ∃ s, value = .str s := by
  rw [refusal] at h
  split at h
  · cases h
  · rw [htool] at h
    exact @wrongType_string _ _ (key, value) _ _ hkey
      (validateArguments_none h _ (mem_of_dictGet? hvalue))

theorem textArgument_ok {arguments : List (Str × Json)} {key : Str}
    (h : ∀ value, dictGet? arguments key = some value → ∃ s, value = .str s) :
    ∃ text, textArgument package arguments key = .ok text := by
  rw [textArgument]
  cases hvalue : dictGet? arguments key with
  | none => exact ⟨[], rfl⟩
  | some value =>
    rcases h value hvalue with ⟨s, rfl⟩
    by_cases hs : s = []
    · exact ⟨[], by simp [Json.orElse, Json.truthy, Json.toStr, hs]⟩
    · exact ⟨s, by simp [Json.orElse, Json.truthy, Json.toStr, hs]⟩

/-! ## Tools -/

theorem explain_handled {arguments : List (Str × Json)}
    (hrefusal : refusal package (lit "explain") arguments = none) :
    Handled (explain package arguments) := by
  rcases @textArgument_ok package _ _
    (fun _ => @string_of_refusal_none _ _ (lit "rule_id") _ _ _ rfl rfl hrefusal _) with ⟨text, htext⟩
  simp only [explain, htext]
  cases explainRule package.catalog text with
  | none => exact handled_mcp _
  | some doc =>
    refine content_handled_of_shallow (n := 7) (by decide) ?_
    have hzero : ShortInt package 0 := shortInt_of_length (by decide)
    simp [shallow_ruleDoc, hzero]

theorem toolFields_handled_iff {name : Str} {arguments : List (Str × Json)} {project : Path}
    {report : ScanReport} (hrefusal : refusal package name arguments = none) :
    Handled (toolFields package env name arguments project report) ↔
      (name = lit "agent_readiness" → ∃ survey, env.survey project = .ok survey) := by
  rw [toolFields]
  split_ifs with hdoctor hcheck hinfo hwhich hready
  · refine ⟨fun _ h => absurd (hdoctor.symm.trans h) (by decide), fun _ => handled_ok _⟩
  · refine ⟨fun _ h => absurd (hcheck.symm.trans h) (by decide), fun _ => handled_ok _⟩
  · refine ⟨fun _ h => absurd (hinfo.symm.trans h) (by decide), fun _ => handled_ok _⟩
  · refine ⟨fun _ h => absurd (hwhich.symm.trans h) (by decide), fun _ => ?_⟩
    rw [hwhich] at hrefusal
    rcases @textArgument_ok package _ _
      (fun _ => @string_of_refusal_none _ _ (lit "tool") _ _ _ rfl rfl hrefusal _) with ⟨text, htext⟩
    rw [htext]
    simp only
    split_ifs
    · exact handled_mcp _
    · exact handled_ok _
  · cases hsurvey : env.survey project with
    | error exc =>
      refine ⟨fun h => absurd h (not_handled_py exc), fun h => ?_⟩
      rcases h hready with ⟨survey, hok⟩
      cases hok
    | ok survey => exact ⟨fun _ _ => ⟨survey, rfl⟩, fun _ => handled_ok _⟩
  · exact ⟨fun _ h => absurd h hready, fun _ => handled_ok _⟩

theorem shortInt_exitCode (report : ScanReport) : ShortInt package (verdictOf report).2 := by
  have hcode : (verdictOf report).2 = 2 ∨ (verdictOf report).2 = 1 ∨ (verdictOf report).2 = 0 := by
    simp only [verdictOf, exitFor]
    split_ifs
    · exact Or.inl rfl
    · exact Or.inr (Or.inl rfl)
    · exact Or.inr (Or.inr rfl)
  rcases hcode with h | h | h
  all_goals
    rw [h]
    exact shortInt_of_length (by decide)

/-- An answer is rendered unless the score has a huge integer or the survey of
the manifests raises. -/
theorem answer_handled_iff {name : Str} {arguments : List (Str × Json)} {project : Path}
    {report : ScanReport} {wasFresh : Bool} (hrefusal : refusal package name arguments = none) :
    Handled (answer package env name arguments project report wasFresh) ↔
      (name = lit "doctor" → ScoreFits package report) ∧
        (name = lit "agent_readiness" → ∃ survey, env.survey project = .ok survey) := by
  have hhandled := @toolFields_handled_iff _ _ env _ _ project report hrefusal
  rw [answer]
  cases htool : toolFields package env name arguments project report with
  | error failure =>
    rw [htool] at hhandled
    have hready : Handled (.error failure : Except Failure (List (Str × Json))) →
        (name = lit "doctor" → ScoreFits package report) := by
      intro _ hdoctor
      rw [toolFields, if_pos hdoctor] at htool
      cases htool
    cases failure with
    | mcp error =>
      exact ⟨fun _ => ⟨hready (handled_mcp error), hhandled.mp (handled_mcp error)⟩,
        fun _ => handled_mcp error⟩
    | py exc =>
      exact ⟨fun h => absurd h (not_handled_py exc),
        fun h => absurd (hhandled.mpr h.2) (not_handled_py exc)⟩
  | ok fields =>
    rw [htool] at hhandled
    have hsurvey := hhandled.mp (handled_ok fields)
    constructor
    · intro hcontent
      refine ⟨fun hdoctor => ?_, hsurvey⟩
      rw [toolFields, if_pos hdoctor] at htool
      cases htool
      have hshallow := @shallow_of_dumpError _ _ _ _ 7 (content_handled_iff.mp hcontent) (by
        cases report.score <;> simp [shallow_finding, shallow_score_iff])
      intro score hscore
      have hsome : report.score = some score := hscore
      have hmember := hshallow (lit "score", score.modelDump) (by simp [hsome])
      exact (shallow_score_iff score).mp hmember
    · intro h
      refine content_handled_of_shallow (n := 7) (by decide) ?_
      have hfields := toolFields_shallow (P := ShortInt package) h.1 htool
      simpa [shortInt_exitCode] using hfields

end

section

variable {Time : Type} [Sub Time] [LT Time] [DecidableLT Time]
variable {package : Package} {config : ServerConfig} {env : Env Time} {cache : ReportCache Time}

/-! ## Requests -/

theorem callTool_handled_iff {name : Str} {arguments : List (Str × Json)} :
    Handled (callTool package config env name arguments cache).1 ↔
      Undisturbed package config env name arguments cache := by
  rw [callTool, Undisturbed]
  cases hrefusal : refusal package name arguments with
  | some error => simp
  | none =>
    by_cases hexplain : name = lit "explain"
    · rw [hexplain] at hrefusal ⊢
      simp [explain_handled hrefusal]
    · cases hproject : resolveWithin package config env (projectOf arguments) with
      | error failure => simpa [hexplain] using handled_error_iff failure
      | ok project =>
        rcases hget : cache.get env project (refreshOf arguments) with ⟨result, after⟩
        cases result with
        | error exc => simp [hexplain, hget]
        | ok found =>
          rcases found with ⟨report, wasFresh⟩
          simp only [if_neg hexplain, hget, answer_handled_iff hrefusal]
          constructor
          · intro h _ _
            refine ⟨handled_ok project, fun other hother => ?_⟩
            cases hother
            exact ⟨report, wasFresh, by rw [hget], h⟩
          · intro h
            rcases (h trivial hexplain).2 project rfl with ⟨report', wasFresh', hsame, hrest⟩
            rw [hget] at hsame
            cases hsame
            exact hrest

theorem toolsCall_handled_iff {params : Json} :
    Handled (toolsCall package config env params cache).1 ↔
      QuietCall package config env params cache := by
  rw [toolsCall, QuietCall]
  cases params with
  | obj items =>
    cases hname : (((dictGet? items "name").getD .null).orElse (.str [])).toStr package.runtime with
    | error exc => simp [Json.get?, hname]
    | ok name =>
      cases harguments : ((dictGet? items "arguments").getD .null).orElse (.obj []) with
      | obj arguments => simp [Json.get?, hname, harguments, callTool_handled_iff]
      | null | bool | int | float | str | arr => simp [Json.get?, hname, harguments]
  | null | bool | int | float | str | arr => simp [Json.get?]

theorem dispatch_handled_iff {method : Str} {params : Json} :
    Handled (dispatch package config env method params cache).1 ↔
      (method = lit "tools/call" → QuietCall package config env params cache) := by
  rw [dispatch]
  split_ifs with hinit hnotify hping hlist hcall
  · exact ⟨fun _ h => absurd (hinit.symm.trans h) (by decide), fun _ => handled_ok _⟩
  · refine ⟨fun _ h => ?_, fun _ => handled_ok _⟩
    rw [h] at hnotify
    exact absurd hnotify (by decide)
  · exact ⟨fun _ h => absurd (hping.symm.trans h) (by decide), fun _ => handled_ok _⟩
  · exact ⟨fun _ h => absurd (hlist.symm.trans h) (by decide), fun _ => handled_ok _⟩
  · rw [toolsCall_handled_iff]
    exact ⟨fun h _ => h, fun h => h hcall⟩
  · exact ⟨fun _ h => absurd h hcall, fun _ => handled_mcp _⟩

/-- A request crashes unless it is quiet. -/
theorem perform_handled_iff {fields : List (Str × Json)} :
    Handled (perform package config env fields cache).1 ↔
      Quiet package config env fields cache := by
  rw [perform, Quiet]
  cases hmethod : ((dictGet? fields "method").getD .null).toStr package.runtime with
  | error exc => simp
  | ok method => simp [dispatch_handled_iff]

end

end DevRepro.Mcp
