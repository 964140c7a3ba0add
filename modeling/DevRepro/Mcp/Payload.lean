import DevRepro.Mcp.Protocol

/-!
# What the server builds can be written

`json.dumps` fails on deep nesting and on integers with too many digits.  This
module shows that neither happens to a value that the server builds itself:
the results and the errors of `_dispatch` nest a few containers, and the only
integers in them that are not constants are those of a score.

A score comes from the scanner, so a score with a huge integer is the one way
in which `_content` can fail.  `ScoreFits` excludes it.
-/

namespace DevRepro.Mcp

open DevRepro.Python

/-- An integer that the interpreter converts to text. -/
def ShortInt (package : Package) (n : Int) : Prop :=
  fitsDigits package.runtime.limits n = true

/-- The integers of a report's score are short. -/
def ScoreFits (package : Package) (report : ScanReport) : Prop :=
  ∀ score ∈ report.score, ShortInt package score.total ∧ ShortInt package score.possible ∧
    ∀ p ∈ score.points, ShortInt package p.earned ∧ ShortInt package p.possible

/-! ## Shallow values -/

section Shallow

variable {P : Int → Prop} {n : Nat}

@[simp] theorem shallow_null : Json.null.Shallow P n := by
  cases n <;> trivial

@[simp] theorem shallow_bool (b : Bool) : (Json.bool b).Shallow P n := by
  cases n <;> trivial

@[simp] theorem shallow_str (s : Str) : (Json.str s).Shallow P n := by
  cases n <;> trivial

@[simp] theorem shallow_int (k : Int) : (Json.int k).Shallow P n ↔ P k := by
  cases n <;> rfl

@[simp] theorem shallow_arr_nil : (Json.arr []).Shallow P (n + 1) := by
  intro v hv
  cases hv

@[simp] theorem shallow_arr_cons (v : Json) (rest : List Json) :
    (Json.arr (v :: rest)).Shallow P (n + 1) ↔
      v.Shallow P n ∧ (Json.arr rest).Shallow P (n + 1) :=
  List.forall_mem_cons

@[simp] theorem shallow_arr_map {α : Type} (f : α → Json) (items : List α) :
    (Json.arr (items.map f)).Shallow P (n + 1) ↔ ∀ x ∈ items, (f x).Shallow P n :=
  List.forall_mem_map

@[simp] theorem shallow_obj (fields : List (Str × Json)) :
    (Json.obj fields).Shallow P (n + 1) ↔ ∀ item ∈ fields, item.2.Shallow P n := Iff.rfl

@[simp] theorem shallow_optStr (s : Option Str) : (optStr s).Shallow P n := by
  cases s <;> simp [optStr]

@[simp] theorem shallow_strs (texts : List Str) : (strs texts).Shallow P (n + 1) := by
  simp [strs]

theorem shallow_evidence (e : Evidence) : e.modelDump.Shallow P (n + 2) := by
  cases hcommand : e.command <;> simp [Evidence.modelDump, hcommand]

theorem shallow_finding (f : Finding) : f.modelDump.Shallow P (n + 4) := by
  simp [Finding.modelDump, shallow_evidence]

theorem shallow_platform (p : PlatformInfo) : p.modelDump.Shallow P (n + 1) := by
  simp [PlatformInfo.modelDump]

theorem shallow_score_iff (s : ReproducibilityScore) :
    s.modelDump.Shallow P (n + 3) ↔
      P s.total ∧ P s.possible ∧ ∀ p ∈ s.points, P p.earned ∧ P p.possible := by
  simp [ReproducibilityScore.modelDump, ReproducibilityPoint.modelDump]

theorem shallow_ruleDoc (doc : RuleDoc) : doc.asDict.Shallow P (n + 1) := by
  simp [RuleDoc.asDict]

theorem shallow_tools : (Json.arr (toolDefinitions.map ToolDefinition.asDict)).Shallow P (n + 5) := by
  simp [toolDefinitions, ToolDefinition.asDict, InputSchema.asDict, projectArg, Property.asDict]

theorem shallow_serverInfo (package : Package) : (serverInfo package).Shallow P (n + 3) := by
  simp [serverInfo]

end Shallow

/-! ## Results and errors can be written -/

/-- What a handler returns or raises can be part of a response. -/
def Writable (package : Package) : Except Failure Json → Prop
  | .ok result => result.Shallow (ShortInt package) 8
  | .error (.mcp error) => error.asDict.Shallow (ShortInt package) 8
  | .error (.py _) => True

section

variable {Time : Type} {package : Package} {config : ServerConfig} {env : Env Time}

theorem shortInt_of_length {k : Int} (h : (natStr k.natAbs).length ≤ 640) : ShortInt package k :=
  fitsDigits_of_length package.runtime h

/-- An error of the protocol can be written when its data can. -/
theorem writable_mcp {code : Int} (hcode : (natStr code.natAbs).length ≤ 640) {message : Str}
    {data : Json} (hdata : data.Shallow (ShortInt package) 7) :
    Writable package (.error (.mcp ⟨code, message, data⟩)) := by
  simp [Writable, McpError.asDict, shortInt_of_length hcode, hdata]

theorem wrongType_writable {schema : InputSchema} {item : Str × Json} {error : McpError}
    (h : wrongType package schema item = some error) : Writable package (.error (.mcp error)) := by
  rw [wrongType] at h
  split at h
  · cases h
  · simp only at h
    split_ifs at h
    cases h
    exact writable_mcp (by decide) (by simp)

theorem validateArguments_writable {schema : InputSchema} {arguments : List (Str × Json)}
    {error : McpError} (h : validateArguments package schema arguments = some error) :
    Writable package (.error (.mcp error)) := by
  simp only [validateArguments] at h
  split_ifs at h
  · cases h
    exact writable_mcp (by decide) (by simp)
  · cases h
    exact writable_mcp (by decide) (by simp)
  · split at h
    · cases h
      exact writable_mcp (by decide) (by simp)
    · rcases List.exists_of_findSome?_eq_some h with ⟨item, _, hitem⟩
      exact wrongType_writable hitem

theorem refusal_writable {name : Str} {arguments : List (Str × Json)} {error : McpError}
    (h : refusal package name arguments = some error) : Writable package (.error (.mcp error)) := by
  rw [refusal] at h
  split at h
  · cases h
    exact writable_mcp (by decide) (by simp)
  · split at h
    · cases h
      exact writable_mcp (by decide) (by simp)
    · exact validateArguments_writable h

theorem resolveWithin_writable {candidate : Option Str} {failure : Failure}
    (h : resolveWithin package config env candidate = .error failure) :
    Writable package (.error failure) := by
  rw [resolveWithin] at h
  split at h
  · cases h
    trivial
  · split at h
    · cases h
    · cases h
    · split at h
      · cases h
        trivial
      · split_ifs at h
        cases h
        exact writable_mcp (by decide) (by simp)

/-- A tool result can be written, as its payload has been written before. -/
theorem content_writable {payload : Json} (h : payload.Shallow (fun _ => True) 7) :
    Writable package (content package payload) := by
  rw [content]
  cases hdumps : dumps package.runtime (.indented 2) payload with
  | error exc => trivial
  | ok text =>
    have hshort : payload.Shallow (ShortInt package) 7 := shallow_of_dumpError (dumps_ok hdumps).1 h
    simp [Writable, hshort]

theorem explain_writable (arguments : List (Str × Json)) :
    Writable package (explain package arguments) := by
  rw [explain]
  split
  · trivial
  · split
    · exact writable_mcp (by decide) (by simp)
    · exact content_writable (by simp [shallow_ruleDoc])

/-- The fields that a tool adds are shallow.  Only `doctor` shows integers, those
of the score. -/
theorem toolFields_shallow {P : Int → Prop} {name : Str} {arguments : List (Str × Json)}
    {project : Path} {report : ScanReport} {fields : List (Str × Json)}
    (hscore : name = lit "doctor" → ∀ score ∈ report.score, P score.total ∧ P score.possible ∧
      ∀ p ∈ score.points, P p.earned ∧ P p.possible)
    (h : toolFields package env name arguments project report = .ok fields) :
    ∀ item ∈ fields, item.2.Shallow P 6 := by
  rw [toolFields] at h
  split_ifs at h with hdoctor
  · cases h
    cases hsome : report.score with
    | none => simp [shallow_finding]
    | some score =>
      have hints := hscore hdoctor score hsome
      simpa [shallow_finding, shallow_score_iff] using hints
  · cases h
    simp [shallow_finding]
  · cases h
    simp [shallow_platform, infoTools]
  · cases htext : textArgument package arguments "tool" with
    | error exc => rw [htext] at h; cases h
    | ok text =>
      rw [htext] at h
      simp only at h
      split_ifs at h
      cases h
      simp [whichFields]
  · cases hsurvey : env.survey project with
    | error exc => rw [hsurvey] at h; cases h
    | ok survey =>
      rw [hsurvey] at h
      cases h
      simp [agentFields]
  · cases h
    simp

theorem toolFields_error {name : Str} {arguments : List (Str × Json)} {project : Path}
    {report : ScanReport} {failure : Failure}
    (h : toolFields package env name arguments project report = .error failure) :
    Writable package (.error failure) := by
  rw [toolFields] at h
  split_ifs at h
  · cases htext : textArgument package arguments "tool" with
    | error exc => rw [htext] at h; cases h; trivial
    | ok text =>
      rw [htext] at h
      simp only at h
      split_ifs at h
      cases h
      exact writable_mcp (by decide) (by simp)
  · cases hsurvey : env.survey project with
    | error exc => rw [hsurvey] at h; cases h; trivial
    | ok survey => rw [hsurvey] at h; cases h

theorem answer_writable (name : Str) (arguments : List (Str × Json)) (project : Path)
    (report : ScanReport) (wasFresh : Bool) :
    Writable package (answer package env name arguments project report wasFresh) := by
  rw [answer]
  cases htool : toolFields package env name arguments project report with
  | error failure => exact toolFields_error htool
  | ok fields =>
    have hfields := toolFields_shallow (P := fun _ => True) (fun _ score _ => by simp) htool
    refine content_writable ?_
    simpa using hfields

variable [Sub Time] [LT Time] [DecidableLT Time]

theorem callTool_writable (name : Str) (arguments : List (Str × Json)) (cache : ReportCache Time) :
    Writable package (callTool package config env name arguments cache).1 := by
  rw [callTool]
  cases hrefusal : refusal package name arguments with
  | some error => exact refusal_writable hrefusal
  | none =>
    simp only
    split_ifs
    · exact explain_writable arguments
    · cases hproject : resolveWithin package config env (projectOf arguments) with
      | error failure => exact resolveWithin_writable hproject
      | ok project =>
        rcases hget : cache.get env project (refreshOf arguments) with ⟨result, after⟩
        cases result with
        | error exc => simp only [hget]; trivial
        | ok found =>
          simp only [hget]
          exact answer_writable name arguments project found.1 found.2

theorem toolsCall_writable (params : Json) (cache : ReportCache Time) :
    Writable package (toolsCall package config env params cache).1 := by
  rw [toolsCall]
  split
  · trivial
  · split
    · trivial
    · split
      · trivial
      · split
        · exact callTool_writable _ _ cache
        · exact writable_mcp (by decide) (by simp)

theorem dispatch_writable (method : Str) (params : Json) (cache : ReportCache Time) :
    Writable package (dispatch package config env method params cache).1 := by
  rw [dispatch]
  split_ifs
  · exact shallow_serverInfo package
  · simp [Writable]
  · simp [Writable]
  · show Json.Shallow _ _ _
    simpa using shallow_tools (n := 2)
  · exact toolsCall_writable params cache
  · exact writable_mcp (by decide) (by simp)

theorem perform_writable (fields : List (Str × Json)) (cache : ReportCache Time) :
    Writable package (perform package config env fields cache).1 := by
  rw [perform]
  split
  · trivial
  · exact dispatch_writable _ _ cache

end

end DevRepro.Mcp
