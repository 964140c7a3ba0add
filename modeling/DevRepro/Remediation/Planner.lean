import DevRepro.Mcp.Report
import DevRepro.Remediation.Graph

/-!
# Planning and fixing

`build_plan` and `execute_plan` of `remediation/planner.py`.

The callbacks of `execute_plan` answer by what happened before: an `Event` is a check of a
step or a call of the executor, and a callback sees the list of them.  `fix_runs_safe_steps`
says which calls are made and that every step is reported.  `keeps_findings_iff` says when a
plan names the rule of every finding it was made from.
-/

namespace DevRepro.Planner

open DevRepro.Python DevRepro.Lib DevRepro.Core
open DevRepro.Mcp (Finding FindingState)
open DevRepro.Remediation (RiskLevel)

/-- `Remediation`. -/
structure Remediation where
  id : Str
  title : Str
  risk : RiskLevel
  preconditions : List Str
  changes : List Str
  rollback : Str
  automatable : Bool
  findingIds : List Str
  commands : List (List Str)

/-! ## The plan -/

/-- `rule_id.endswith(ending)` -/
def endsWith (s ending : Str) : Bool := ending.isSuffixOf s

def removeDuplicates (f : Finding) : Remediation where
  id := "rem/path-remove-duplicates"
  title := "Remove duplicate PATH entries"
  risk := .safe
  preconditions := ["No running installer is modifying PATH"]
  changes := [lit ("Rewrite the user PATH variable keeping the first occurrence " ++
    "of each entry, preserving order.")]
  rollback := "Restore PATH from the backup file written next to the change log."
  automatable := true
  findingIds := [f.ruleId]
  commands := []

def removeDead (f : Finding) : Remediation where
  id := "rem/path-remove-dead"
  title := "Remove dead PATH entries"
  risk := .low
  preconditions := ["Entry does not exist on disk (verified at execution time)"]
  changes := ["Remove PATH entries whose directories no longer exist."]
  rollback := "Restore PATH from the backup file written next to the change log."
  automatable := true
  findingIds := [f.ruleId]
  commands := []

/-- `f.component or "tool"` -/
def toolOf (f : Finding) : Str :=
  match f.component with
  | none | some [] => "tool"
  | some name => name

/-- `f.required or 'declared'` -/
def rangeOf (f : Finding) : Str :=
  match f.required with
  | none | some [] => "declared"
  | some range => range

def installTool (f : Finding) : Remediation where
  id := lit "rem/install-" ++ toolOf f
  title := lit "Install/align " ++ toolOf f ++ lit " to required range"
  risk := .medium
  preconditions := [lit "A package source for " ++ toolOf f ++ lit " is reachable"]
  changes := [lit "Install " ++ toolOf f ++ lit " within range " ++ rangeOf f ++
    lit (" using a version " ++
      "manager where available (pyenv/nvm/rustup/sdkman). DevRepro prints the " ++
      "commands; it does not run installs automatically.")]
  rollback := lit ("Version managers allow `switch` back to the previous version; " ++
    "system-wide installs must be rolled back manually.")
  automatable := false
  findingIds := [f.ruleId]
  commands := []

def startDaemon (f : Finding) : Remediation where
  id := "rem/start-docker-daemon"
  title := "Start the Docker daemon"
  risk := .safe
  preconditions := ["Docker Desktop installed or docker.service present"]
  changes := ["Start Docker Desktop (Windows/macOS) or systemctl start docker (Linux)."]
  rollback := "Stop the daemon again (`systemctl stop docker` / quit Docker Desktop)."
  automatable := false
  findingIds := [f.ruleId]
  commands := []

def setDefaultDistro (f : Finding) : Remediation where
  id := "rem/wsl-set-default"
  title := "Set the default WSL distro"
  risk := .safe
  preconditions := ["At least one WSL distro registered"]
  changes := ["Run `wsl --set-default <distro>` for the first registered distro."]
  rollback := "Run `wsl --set-default <previous>` (recorded in the change log)."
  automatable := true
  findingIds := [f.ruleId]
  commands := []

def enableTimeSync (f : Finding) : Remediation where
  id := "rem/enable-time-sync"
  title := "Enable automatic time synchronization"
  risk := .low
  preconditions := ["Time service available (w32time/timedatectl)"]
  changes := ["Enable NTP sync via OS settings; never touches TLS configuration."]
  rollback := "Disable automatic time sync again via OS settings."
  automatable := false
  findingIds := [f.ruleId]
  commands := []

/-- The step of a finding's rule, where the planner recognises it. -/
def stepFor (f : Finding) : Option Remediation :=
  if f.ruleId = lit "path/duplicates" then some (removeDuplicates f)
  else if f.ruleId = lit "path/dead-entries" then some (removeDead f)
  else if endsWith f.ruleId "/version-mismatch" || endsWith f.ruleId "/missing" then
    some (installTool f)
  else if startsWith f.ruleId "containers/docker-daemon" then some (startDaemon f)
  else if f.ruleId = lit "wsl/no-default-distro" then some (setDefaultDistro f)
  else if f.ruleId = lit "network/clock-skew" then some (enableTimeSync f)
  else none

/-- What one round of `build_plan` comes to, before it looks for the step among the others. -/
def planned (f : Finding) : Option Remediation :=
  if f.state = .pass ∨ f.state = .info then none else stepFor f

/-- One round of `build_plan`; its set `seen` holds the ids of the plan. -/
def addStep (plan : List Remediation) (f : Finding) : List Remediation :=
  match planned f with
  | none => plan
  | some step => if step.id ∈ plan.map Remediation.id then plan else plan ++ [step]

/-- The sort key of a plan. -/
def riskRank : RiskLevel → ℕ
  | .safe => 0
  | .low => 1
  | .medium => 2
  | .high => 3

/-- `build_plan`. -/
def buildPlan (findings : List Finding) : List Remediation :=
  (findings.foldl addStep []).mergeSort fun a b => riskRank a.risk ≤ riskRank b.risk

/-! ## The execution -/

/-- What happened in a run, as the callbacks can see it. -/
inductive Event where
  /-- The precondition check answered for a step. -/
  | check (step : Remediation) (passed : Bool)
  /-- The executor ran a command. -/
  | call (command : List Str) (rc : ℤ)

/-- One entry of the result. -/
structure StepResult where
  id : Str
  status : Str
  detail : Option Str
  command : Option Str

/-- `RemediationRefusedError`. -/
def refusedError : Exc :=
  ⟨.other "RemediationRefusedError", lit ("Refusing to execute: no explicit confirmation given. " ++
    "`devrepro fix` requires --yes after reviewing `devrepro plan`.")⟩

section Code

variable (executor : List Event → List Str → ℤ)
  (preconditionCheck : Option (List Event → Remediation → Bool))

/-- Whether `step.automatable` and `step.risk in AUTOMATABLE_RISKS`. -/
def isAutomatable (step : Remediation) : Bool := step.automatable && step.risk ∈ [.safe, .low]

/-- One command of a step. -/
def runCommand (step : Remediation) (run : List Event × List StepResult) (command : List Str) :
    List Event × List StepResult :=
  let rc := executor run.1 command
  (run.1 ++ [.call command rc], run.2 ++ [⟨step.id,
    if rc = 0 then "executed" else lit "failed(rc=" ++ intStr rc ++ lit ")", none,
    some (join " " command)⟩])

/-- The precondition check of a step, and what happened up to its answer. -/
def runCheck (history : List Event) (step : Remediation) : List Event × Bool :=
  match preconditionCheck with
  | none => (history, true)
  | some check => (history ++ [.check step (check history step)], check history step)

/-- One round of the loop of `execute_plan`. -/
def executeStep (run : List Event × List StepResult) (step : Remediation) :
    List Event × List StepResult :=
  if !isAutomatable step then (run.1, run.2 ++ [⟨step.id, "skipped-manual", none, none⟩])
  else
    let (history, passed) := runCheck preconditionCheck run.1 step
    if !passed then (history, run.2 ++ [⟨step.id, "skipped-preconditions", none, none⟩])
    else if step.commands = [] then
      (history, run.2 ++ [⟨step.id, "no-commands", some (lit
        ("Planned as automatable but carries no executable command; " ++
          "apply the documented change manually. See `devrepro plan`.")), none⟩])
    else step.commands.foldl (runCommand executor step) (history, run.2)

/-- `execute_plan`: what happened, and what it returns or raises. -/
def executePlan (plan : List Remediation) (confirmed : Bool) :
    List Event × Except Exc (List StepResult) :=
  if !confirmed then ([], .error refusedError)
  else
    let run := plan.foldl (executeStep executor preconditionCheck) ([], [])
    (run.1, .ok run.2)

end Code

/-! ## What a run calls -/

/-- The commands that the executor was called with. -/
def calls (history : List Event) : List (List Str) :=
  history.filterMap fun
    | .call command _ => some command
    | .check _ _ => none

variable {executor : List Event → List Str → ℤ}
  {preconditionCheck : Option (List Event → Remediation → Bool)} {step : Remediation}

theorem calls_append (first second : List Event) :
    calls (first ++ second) = calls first ++ calls second := List.filterMap_append

theorem calls_runCheck (history : List Event) :
    calls (runCheck preconditionCheck history step).1 = calls history := by
  unfold runCheck
  cases preconditionCheck with
  | none => rfl
  | some check => exact (calls_append _ _).trans (List.append_nil _)

/-- The commands of a step are called in their order, each with an entry of the step. -/
theorem runCommands_spec (commands : List (List Str)) (run : List Event × List StepResult) :
    ∃ block : List StepResult, block.length = commands.length ∧ (∀ r ∈ block, r.id = step.id) ∧
      (commands.foldl (runCommand executor step) run).2 = run.2 ++ block ∧
      calls (commands.foldl (runCommand executor step) run).1 = calls run.1 ++ commands := by
  induction commands generalizing run with
  | nil => exact ⟨[], rfl, by simp, (List.append_nil _).symm, (List.append_nil _).symm⟩
  | cons command rest ih =>
    obtain ⟨block, hlen, hids, hresults, hcalls⟩ := ih (runCommand executor step run command)
    rw [List.foldl_cons, hresults, hcalls, runCommand]
    refine ⟨_ :: block, ?_, ?_, List.append_assoc _ _ _, ?_⟩
    · rw [List.length_cons, List.length_cons, hlen]
    · exact List.forall_mem_cons.mpr ⟨rfl, hids⟩
    · rw [calls_append, List.append_assoc]
      rfl

/-- Whether a step gets to its commands, after what happened before. -/
def Runs (preconditionCheck : Option (List Event → Remediation → Bool)) (history : List Event)
    (step : Remediation) : Prop :=
  step.automatable = true ∧ (step.risk = .safe ∨ step.risk = .low) ∧
    ∀ check ∈ preconditionCheck, check history step = true

theorem isAutomatable_iff :
    isAutomatable step = true ↔ step.automatable = true ∧ (step.risk = .safe ∨ step.risk = .low) := by
  simp [isAutomatable]

theorem runCheck_passes_iff (history : List Event) :
    (runCheck preconditionCheck history step).2 = true ↔
      ∀ check ∈ preconditionCheck, check history step = true := by
  unfold runCheck
  cases preconditionCheck <;> simp

/-- A round without calls reports the step in one entry. -/
theorem executeStep_reports (run : List Event × List StepResult)
    (h : ¬(isAutomatable step = true ∧ (runCheck preconditionCheck run.1 step).2 = true) ∨
      step.commands = []) :
    ∃ result : StepResult, result.id = step.id ∧
      (executeStep executor preconditionCheck run step).2 = run.2 ++ [result] ∧
      calls (executeStep executor preconditionCheck run step).1 = calls run.1 := by
  unfold executeStep
  cases hauto : isAutomatable step with
  | false => exact ⟨_, rfl, rfl, rfl⟩
  | true =>
    dsimp only
    cases hpassed : (runCheck preconditionCheck run.1 step).2 with
    | false => exact ⟨_, rfl, rfl, calls_runCheck _⟩
    | true =>
      have hnone : step.commands = [] := h.resolve_left fun hnot => hnot ⟨hauto, hpassed⟩
      rw [if_neg (by simp), if_neg (by simp), if_pos hnone]
      exact ⟨_, rfl, rfl, calls_runCheck _⟩

/-- A round of a step that runs goes through its commands. -/
theorem executeStep_runs (run : List Event × List StepResult) (hauto : isAutomatable step = true)
    (hpassed : (runCheck preconditionCheck run.1 step).2 = true) (hcommands : step.commands ≠ []) :
    executeStep executor preconditionCheck run step =
      step.commands.foldl (runCommand executor step)
        ((runCheck preconditionCheck run.1 step).1, run.2) := by
  rw [executeStep, hauto]
  dsimp only
  rw [hpassed, if_neg (by simp), if_neg (by simp), if_neg hcommands]

open Classical in
/-- A round calls the commands of a step that runs, and reports the step. -/
theorem executeStep_spec (run : List Event × List StepResult) :
    ∃ block : List StepResult, block ≠ [] ∧ (∀ r ∈ block, r.id = step.id) ∧
      (executeStep executor preconditionCheck run step).2 = run.2 ++ block ∧
      calls (executeStep executor preconditionCheck run step).1 =
        calls run.1 ++ if Runs preconditionCheck run.1 step then step.commands else [] := by
  have hruns : Runs preconditionCheck run.1 step ↔ isAutomatable step = true ∧
      (runCheck preconditionCheck run.1 step).2 = true := by
    rw [isAutomatable_iff, runCheck_passes_iff, and_assoc]
    rfl
  by_cases hquiet : ¬Runs preconditionCheck run.1 step ∨ step.commands = []
  · obtain ⟨result, hid, hresults, hcalls⟩ :=
      @executeStep_reports executor preconditionCheck step run (hquiet.imp_left hruns.not.mp)
    have hnone : (if Runs preconditionCheck run.1 step then step.commands else []) = [] := by
      split_ifs with h
      · exact hquiet.resolve_left (not_not_intro h)
      · rfl
    refine ⟨[result], List.cons_ne_nil _ _, by simpa using hid, hresults, ?_⟩
    rw [hnone, List.append_nil, hcalls]
  · rw [not_or, not_not] at hquiet
    obtain ⟨hrun, hcommands⟩ := hquiet
    obtain ⟨hauto, hpassed⟩ := hruns.mp hrun
    obtain ⟨block, hlen, hids, hresults, hcalls⟩ := @runCommands_spec executor step
      step.commands ((runCheck preconditionCheck run.1 step).1, run.2)
    rw [executeStep_runs run hauto hpassed hcommands, if_pos hrun]
    refine ⟨block, ?_, hids, hresults, by rw [hcalls, calls_runCheck]⟩
    rw [← List.length_pos_iff, hlen]
    exact List.length_pos_iff.mpr hcommands

/-- What had happened when the turn of a step came: the run of the steps before it. -/
def historyAt (executor : List Event → List Str → ℤ)
    (preconditionCheck : Option (List Event → Remediation → Bool)) (plan : List Remediation)
    (index : ℕ) : List Event :=
  (executePlan executor preconditionCheck (plan.take index) true).1

open Classical in
/-- The commands of the steps that get to them, in the order of the plan. -/
noncomputable def safeCommands (executor : List Event → List Str → ℤ)
    (preconditionCheck : Option (List Event → Remediation → Bool)) (plan : List Remediation) :
    List (List Str) :=
  plan.zipIdx.flatMap fun item =>
    if Runs preconditionCheck (historyAt executor preconditionCheck plan item.2) item.1 then
      item.1.commands
    else []

open Classical in
theorem safeCommands_append (plan : List Remediation) (step : Remediation) :
    safeCommands executor preconditionCheck (plan ++ [step]) =
      safeCommands executor preconditionCheck plan ++
        if Runs preconditionCheck (executePlan executor preconditionCheck plan true).1 step then
          step.commands
        else [] := by
  have hearlier : ∀ item ∈ plan.zipIdx, historyAt executor preconditionCheck (plan ++ [step]) item.2 =
      historyAt executor preconditionCheck plan item.2 := by
    intro item hitem
    have hlt : item.2 < plan.length := by
      simpa using List.snd_lt_of_mem_zipIdx hitem
    rw [historyAt, historyAt, List.take_append_of_le_length hlt.le]
  have hlast : historyAt executor preconditionCheck (plan ++ [step]) plan.length =
      (executePlan executor preconditionCheck plan true).1 := by
    rw [historyAt, List.take_left]
  have hzip : (plan ++ [step]).zipIdx = plan.zipIdx ++ [(step, plan.length)] := by
    rw [List.zipIdx_append]
    simp
  unfold safeCommands
  rw [hzip, List.flatMap_append]
  congr 1
  · exact List.flatMap_congr fun item hitem => by rw [hearlier item hitem]
  · rw [List.flatMap_singleton, hlast]

/-- A run with confirmation calls these commands and reports every step in its place. -/
theorem executePlan_spec (plan : List Remediation) :
    ∃ blocks : List (List StepResult),
      (executePlan executor preconditionCheck plan true).2 = .ok blocks.flatten ∧
      calls (executePlan executor preconditionCheck plan true).1 =
        safeCommands executor preconditionCheck plan ∧
      List.Forall₂ (fun step block => block ≠ [] ∧ ∀ r ∈ block, r.id = step.id) plan blocks := by
  induction plan using List.reverseRecOn with
  | nil => exact ⟨[], rfl, rfl, List.Forall₂.nil⟩
  | append_singleton plan step ih =>
    obtain ⟨blocks, hresults, hcalls, hblocks⟩ := ih
    have hround : executePlan executor preconditionCheck (plan ++ [step]) true =
        ((executeStep executor preconditionCheck
            (plan.foldl (executeStep executor preconditionCheck) ([], [])) step).1,
          .ok (executeStep executor preconditionCheck
            (plan.foldl (executeStep executor preconditionCheck) ([], [])) step).2) := by
      unfold executePlan
      rw [List.foldl_append]
      rfl
    obtain ⟨block, hne, hids, hstep, hnew⟩ := @executeStep_spec executor
      preconditionCheck step (plan.foldl (executeStep executor preconditionCheck) ([], []))
    refine ⟨blocks ++ [block], ?_, ?_, ?_⟩
    · rw [hround, hstep, List.flatten_append, List.flatten_singleton]
      have hprevious : (plan.foldl (executeStep executor preconditionCheck) ([], [])).2 =
          blocks.flatten := Except.ok.inj hresults
      rw [hprevious]
    · rw [hround, safeCommands_append, ← hcalls]
      exact hnew
    · exact List.rel_append hblocks (List.Forall₂.cons ⟨hne, hids⟩ List.Forall₂.nil)

/-- Without confirmation nothing is called.  With it, the calls are the commands of the
automatable steps of low risk that pass their check, and every step is reported. -/
theorem fix_runs_safe_steps (executor : List Event → List Str → ℤ)
    (preconditionCheck : Option (List Event → Remediation → Bool)) (plan : List Remediation) :
    executePlan executor preconditionCheck plan false = ([], .error refusedError) ∧
      ∃ blocks : List (List StepResult),
        (executePlan executor preconditionCheck plan true).2 = .ok blocks.flatten ∧
        calls (executePlan executor preconditionCheck plan true).1 =
          safeCommands executor preconditionCheck plan ∧
        List.Forall₂ (fun step block => block ≠ [] ∧ ∀ r ∈ block, r.id = step.id) plan blocks :=
  ⟨rfl, executePlan_spec plan⟩

/-! ## What a plan keeps of the findings -/

variable {findings : List Finding} {plan : List Remediation}

theorem planned_findingIds {f : Finding} {step : Remediation} (h : planned f = some step) :
    step.findingIds = [f.ruleId] := by
  unfold planned stepFor at h
  split_ifs at h <;> cases h <;> rfl

/-- A finding is the first of some that maps to its step. -/
def FirstFor (findings : List Finding) (f : Finding) (step : Remediation) : Prop :=
  planned f = some step ∧ ∃ before after, findings = before ++ f :: after ∧
    ∀ g ∈ before, ∀ other, planned g = some other → other.id ≠ step.id

theorem firstFor_append {f g : Finding} {step : Remediation} :
    FirstFor (findings ++ [f]) g step ↔ FirstFor findings g step ∨
      g = f ∧ planned f = some step ∧
        ∀ h ∈ findings, ∀ other, planned h = some other → other.id ≠ step.id := by
  unfold FirstFor
  constructor
  · rintro ⟨hplanned, before, after, hsplit, hfirst⟩
    rcases DepthFirst.split_append_singleton hsplit with ⟨rfl, rfl⟩ | ⟨init, hinit⟩
    · exact Or.inr ⟨rfl, hplanned, hfirst⟩
    · exact Or.inl ⟨hplanned, before, init, hinit, hfirst⟩
  · rintro (⟨hplanned, before, after, rfl, hfirst⟩ | ⟨rfl, hplanned, hfirst⟩)
    · exact ⟨hplanned, before, after ++ [f], by rw [List.append_assoc, List.cons_append], hfirst⟩
    · exact ⟨hplanned, findings, [], rfl, hfirst⟩

/-- What the rounds of `build_plan` keep: distinct ids, one for every step that a finding
maps to, and the steps are those of the first findings. -/
structure Collected (findings : List Finding) (plan : List Remediation) : Prop where
  nodup : (plan.map Remediation.id).Nodup
  ids : ∀ f ∈ findings, ∀ step, planned f = some step → step.id ∈ plan.map Remediation.id
  mem_iff : ∀ step, step ∈ plan ↔ ∃ f, FirstFor findings f step

/-- The step of a plan comes from some finding. -/
theorem Collected.source (h : Collected findings plan) {id : Str} (hid : id ∈ plan.map Remediation.id) :
    ∃ f ∈ findings, ∃ step, planned f = some step ∧ step.id = id := by
  obtain ⟨step, hstep, rfl⟩ := List.mem_map.mp hid
  obtain ⟨f, hplanned, before, after, rfl, -⟩ := (h.mem_iff step).mp hstep
  exact ⟨f, List.mem_append_right _ List.mem_cons_self, step, hplanned, rfl⟩

/-- The id of a planned step is taken when an earlier finding maps to a step with it. -/
theorem Collected.taken_iff (h : Collected findings plan) {step : Remediation} :
    step.id ∈ plan.map Remediation.id ↔
      ¬∀ g ∈ findings, ∀ other, planned g = some other → other.id ≠ step.id := by
  constructor
  · intro hmem hall
    obtain ⟨g, hg, other, hother, heq⟩ := h.source hmem
    exact hall g hg other hother heq
  · intro hnot
    by_contra hmem
    exact hnot fun g hg other hother heq => hmem (heq ▸ h.ids g hg other hother)

/-- A finding without a step, or with the id of one that is planned, changes nothing. -/
theorem Collected.pass (h : Collected findings plan) {f : Finding}
    (hseen : ∀ step, planned f = some step → step.id ∈ plan.map Remediation.id) :
    Collected (findings ++ [f]) plan := by
  refine ⟨h.nodup, fun g hg step hstep => ?_, fun step => ?_⟩
  · rcases List.mem_append.mp hg with hg | hg
    · exact h.ids g hg step hstep
    · rw [List.mem_singleton.mp hg] at hstep
      exact hseen step hstep
  · rw [h.mem_iff]
    simp only [firstFor_append]
    refine exists_congr fun g => (or_iff_left ?_).symm
    rintro ⟨-, hstep, hall⟩
    exact h.taken_iff.mp (hseen step hstep) hall

/-- A finding with a step of a new id adds it. -/
theorem Collected.add (h : Collected findings plan) {f : Finding} {new : Remediation}
    (hplanned : planned f = some new) (hnew : new.id ∉ plan.map Remediation.id) :
    Collected (findings ++ [f]) (plan ++ [new]) := by
  refine ⟨?_, fun g hg step hstep => ?_, fun step => ?_⟩
  · rw [List.map_append, List.nodup_append]
    refine ⟨h.nodup, List.nodup_singleton _, fun a ha b hb heq => ?_⟩
    rw [List.mem_singleton.mp hb] at heq
    exact hnew (heq ▸ ha)
  · rw [List.map_append]
    rcases List.mem_append.mp hg with hg | hg
    · exact List.mem_append_left _ (h.ids g hg step hstep)
    · rw [List.mem_singleton.mp hg, hplanned] at hstep
      cases hstep
      exact List.mem_append_right _ (List.mem_singleton_self _)
  · have hall := not_not.mp fun hnot => hnew (h.taken_iff.mpr hnot)
    simp only [firstFor_append, List.mem_append, List.mem_singleton, h.mem_iff, hplanned,
      Option.some_inj]
    constructor
    · rintro (⟨g, hg⟩ | rfl)
      · exact ⟨g, Or.inl hg⟩
      · exact ⟨f, Or.inr ⟨rfl, rfl, hall⟩⟩
    · rintro ⟨g, hg | ⟨-, rfl, -⟩⟩
      · exact Or.inl ⟨g, hg⟩
      · exact Or.inr rfl

theorem Collected.round {f : Finding} (h : Collected findings plan) :
    Collected (findings ++ [f]) (addStep plan f) := by
  unfold addStep
  cases hplanned : planned f with
  | none => exact h.pass fun step hstep => by cases hplanned.symm.trans hstep
  | some new =>
    dsimp only
    split_ifs with hseen
    · refine h.pass fun step hstep => ?_
      cases hplanned.symm.trans hstep
      exact hseen
    · exact h.add hplanned hseen

theorem collected (findings : List Finding) : Collected findings (findings.foldl addStep []) := by
  induction findings using List.reverseRecOn with
  | nil =>
    refine ⟨List.nodup_nil, fun f hf => absurd hf List.not_mem_nil, fun step => ?_⟩
    simp [FirstFor]
  | append_singleton findings f ih =>
    rw [List.foldl_append]
    exact ih.round

theorem mem_buildPlan_iff {step : Remediation} :
    step ∈ buildPlan findings ↔ ∃ f, FirstFor findings f step := by
  rw [buildPlan, List.mem_mergeSort, (collected findings).mem_iff]

theorem buildPlan_ids_nodup (findings : List Finding) :
    ((buildPlan findings).map Remediation.id).Nodup :=
  ((List.mergeSort_perm _ _).map _).nodup_iff.mpr (collected findings).nodup

/-- The steps come by their risk. -/
theorem buildPlan_sorted (findings : List Finding) :
    (buildPlan findings).Pairwise fun a b => riskRank a.risk ≤ riskRank b.risk := by
  have hsorted : ((findings.foldl addStep []).mergeSort fun a b =>
      decide (riskRank a.risk ≤ riskRank b.risk)).Pairwise fun a b =>
        decide (riskRank a.risk ≤ riskRank b.risk) = true := List.pairwise_mergeSort
    (fun a b c hab hbc => by simp only [decide_eq_true_eq] at *; exact hab.trans hbc)
    (fun a b => by simp only [Bool.or_eq_true, decide_eq_true_eq]; exact le_total _ _)
    (findings.foldl addStep [])
  exact hsorted.imp of_decide_eq_true

/-- A finding that asks for a step: it is neither `PASS` nor `INFO`, and its rule is one that
the planner recognises. -/
def Actionable (f : Finding) : Prop :=
  f.state ≠ .pass ∧ f.state ≠ .info ∧ (stepFor f).isSome = true

/-- A plan with distinct ids by risk, that names the rule of every actionable finding. -/
def PlanComplete (findings : List Finding) : Prop :=
  ((buildPlan findings).map Remediation.id).Nodup ∧
    ((buildPlan findings).Pairwise fun a b => riskRank a.risk ≤ riskRank b.risk) ∧
    ∀ f ∈ findings, Actionable f → ∃ step ∈ buildPlan findings, f.ruleId ∈ step.findingIds

/-- The rule of every actionable finding is that of the first finding of some step. -/
def FirstOfRule (findings : List Finding) : Prop :=
  ∀ f ∈ findings, Actionable f → ∃ g step, FirstFor findings g step ∧ g.ruleId = f.ruleId

/-- A plan names every rule exactly when no rule comes in second for all of its steps. -/
theorem keeps_findings_iff (findings : List Finding) :
    PlanComplete findings ↔ FirstOfRule findings := by
  unfold PlanComplete
  rw [and_iff_right (buildPlan_ids_nodup findings), and_iff_right (buildPlan_sorted findings)]
  refine forall₃_congr fun f _ _ => ?_
  simp only [mem_buildPlan_iff]
  constructor
  · rintro ⟨step, ⟨g, hg⟩, hrule⟩
    rw [planned_findingIds hg.1, List.mem_singleton] at hrule
    exact ⟨g, step, hg, hrule.symm⟩
  · rintro ⟨g, step, hg, hrule⟩
    refine ⟨step, ⟨g, hg⟩, ?_⟩
    rw [planned_findingIds hg.1, hrule]
    exact List.mem_singleton_self _

/-- Two findings about one tool. -/
def toolTwice : List Finding :=
  let finding := fun ruleId => (⟨ruleId, .error, "", [], none, some ">=3.11", some "python", none, [],
    none⟩ : Finding)
  [finding "python/missing", finding "python/version-mismatch"]

/-- The second finding about a tool leaves no trace in the plan. -/
theorem second_finding_lost : ¬PlanComplete toolTwice := by
  rintro ⟨-, -, hcovers⟩
  have hplan : ∃ first, toolTwice.foldl addStep [] = [first] ∧
      first.findingIds = [lit "python/missing"] := ⟨_, rfl, rfl⟩
  obtain ⟨first, hfold, hids⟩ := hplan
  obtain ⟨step, hstep, hrule⟩ := hcovers _ (List.mem_cons_of_mem _ List.mem_cons_self)
    ⟨by decide, by decide, by decide +kernel⟩
  rw [buildPlan, hfold, List.mergeSort_singleton, List.mem_singleton] at hstep
  rw [hstep, hids] at hrule
  exact absurd hrule (by decide +kernel)

end DevRepro.Planner
