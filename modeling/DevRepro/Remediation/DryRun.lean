import DevRepro.Remediation.Graph

/-!
# Dry runs

`DryRunTransaction.run` of `remediation/graph.py`: the steps of a plan in their order, each
executed or skipped.

`Simulated` is what the loop keeps: a step that was reached is executed exactly when it is
cleared and all its prerequisites were executed.  `dry_run_gated` draws from it that nothing
risky runs unconfirmed, that nothing runs on a skipped base, and that more confirmations
never take a step away.
-/

namespace DevRepro.Remediation

open DevRepro.Python DevRepro.Lib DevRepro.Core

/-- `DryRunTransaction`; `confirmedIds` lists the members of a `frozenset`. -/
structure DryRunTransaction where
  steps : List RemediationStep
  executed : List Str
  skipped : List (Str × Str)
  confirmedIds : List Str

/-- A transaction that has not run. -/
def DryRunTransaction.fresh (steps : List RemediationStep) (confirmedIds : List Str) :
    DryRunTransaction := ⟨steps, [], [], confirmedIds⟩

/-- What `run` returns. -/
structure DryRunReport where
  executed : List Str
  skipped : List (Str × Str)
  total : ℕ
  note : Str

section Code

variable (rt : Runtime)

/-- An f-string's text of a list of strings. -/
def listRepr (names : List Str) : Str :=
  lit "[" ++ join ", " (names.map rt.strRepr) ++ lit "]"

/-- `step.risk in (RiskLevel.MEDIUM, RiskLevel.HIGH)` -/
def needsConfirmation (step : RemediationStep) : Bool := step.risk ∈ [.medium, .high]

/-- The lists that the loop of `run` appends to, and its set `completed`. -/
structure Progress where
  executed : List Str
  skipped : List (Str × Str)
  completed : List Str

/-- One round of the loop of `run`. -/
def runStep (confirmedIds : List Str) (p : Progress) (step : RemediationStep) : Progress :=
  let unmet := step.prerequisites.filter fun id => id ∉ p.completed
  if unmet ≠ [] then
    { p with skipped := p.skipped ++
        [(step.id, lit "prerequisites not satisfied: " ++ listRepr rt unmet)] }
  else if needsConfirmation step && decide (step.id ∉ confirmedIds) then
    { p with skipped := p.skipped ++
        [(step.id, step.risk.value ++ lit "-risk action requires explicit confirmation")] }
  else
    { p with executed := p.executed ++ [step.id], completed := p.completed ++ [step.id] }

/-- `DryRunTransaction.run`: the report, and the transaction as it leaves it. -/
def DryRunTransaction.run (t : DryRunTransaction) : Except Exc (DryRunReport × DryRunTransaction) := do
  let ordered ← buildExecutionOrder rt t.steps
  let p := ordered.foldl (runStep rt t.confirmedIds) ⟨t.executed, t.skipped, []⟩
  return (⟨p.executed, p.skipped, ordered.length, "dry-run only; no commands were executed"⟩,
    { t with executed := p.executed, skipped := p.skipped })

end Code

variable {rt : Runtime} {confirmed : List Str} {done : List RemediationStep} {p : Progress}
  {step : RemediationStep}

/-! ## The loop -/

/-- A step may run as far as its risk goes. -/
def Cleared (confirmed : List Str) (step : RemediationStep) : Prop :=
  needsConfirmation step = true → step.id ∈ confirmed

/-- Where the loop stands after some steps. -/
structure Simulated (confirmed : List Str) (done : List RemediationStep) (p : Progress) : Prop where
  completed : p.completed = p.executed
  once : (p.executed ++ p.skipped.map Prod.fst).Perm (done.map RemediationStep.id)
  executed_iff : ∀ step ∈ done, step.id ∈ p.executed ↔
    Cleared confirmed step ∧ ∀ id ∈ step.prerequisites, id ∈ p.executed
  before : ∀ step ∈ done, ∀ first rest, p.executed = first ++ step.id :: rest →
    ∀ id ∈ step.prerequisites, id ∈ first

theorem simulated_nil : Simulated confirmed [] ⟨[], [], []⟩ :=
  ⟨rfl, List.Perm.refl _, fun _ h => absurd h List.not_mem_nil, fun _ h => absurd h List.not_mem_nil⟩

/-- A round executes a step that is cleared and whose prerequisites were executed. -/
theorem runStep_executes (h : p.completed = p.executed)
    (hmet : ∀ id ∈ step.prerequisites, id ∈ p.executed) (hcleared : Cleared confirmed step) :
    runStep rt confirmed p step =
      { p with executed := p.executed ++ [step.id], completed := p.completed ++ [step.id] } := by
  have hunmet : step.prerequisites.filter (fun id => id ∉ p.completed) = [] := by
    rw [List.filter_eq_nil_iff]
    intro id hid
    rw [h]
    simpa using hmet id hid
  have hrisk : ¬(needsConfirmation step && decide (step.id ∉ confirmed)) = true := by
    rw [Bool.and_eq_true, decide_eq_true_eq]
    exact fun ⟨hneeds, hnot⟩ => hnot (hcleared hneeds)
  rw [runStep, hunmet, if_neg (not_not_intro rfl), if_neg hrisk]

/-- A round skips every other step. -/
theorem runStep_skips (h : p.completed = p.executed)
    (hskip : ¬(Cleared confirmed step ∧ ∀ id ∈ step.prerequisites, id ∈ p.executed)) :
    ∃ reason, runStep rt confirmed p step = { p with skipped := p.skipped ++ [(step.id, reason)] } := by
  rw [runStep]
  split_ifs with hunmet hrisk
  · exact ⟨_, rfl⟩
  · exact ⟨_, rfl⟩
  · refine absurd ⟨fun hneeds => ?_, fun id hid => ?_⟩ hskip
    · rw [Bool.and_eq_true, decide_eq_true_eq, not_and, not_not] at hrisk
      exact hrisk hneeds
    · rw [not_not, List.filter_eq_nil_iff, h] at hunmet
      simpa using hunmet id hid

/-- A step that comes new has not been executed. -/
theorem Simulated.fresh (h : Simulated confirmed done p)
    (hnew : step.id ∉ done.map RemediationStep.id) : step.id ∉ p.executed := fun hmem =>
  hnew (h.once.subset (List.mem_append_left _ hmem))

/-- A step that comes new and is executed keeps `Simulated`, when the prerequisites of all
steps are known. -/
theorem Simulated.execute (h : Simulated confirmed done p)
    (hnew : step.id ∉ done.map RemediationStep.id)
    (hknown : ∀ s ∈ done, ∀ id ∈ s.prerequisites, id ∈ done.map RemediationStep.id)
    (hcleared : Cleared confirmed step) (hmet : ∀ id ∈ step.prerequisites, id ∈ p.executed) :
    Simulated confirmed (done ++ [step])
      { p with executed := p.executed ++ [step.id], completed := p.completed ++ [step.id] } := by
  refine ⟨by rw [h.completed], ?_, fun s hs => ?_, fun s hs first rest hsplit => ?_⟩
  · have hswap : (p.executed ++ [step.id] ++ p.skipped.map Prod.fst).Perm
        (p.executed ++ p.skipped.map Prod.fst ++ [step.id]) := by
      rw [List.append_assoc, List.append_assoc]
      exact List.perm_append_comm.append_left _
    rw [List.map_append]
    exact hswap.trans (h.once.append_right _)
  · rcases List.mem_append.mp hs with hs | hs
    · -- the new id is none of the earlier ones, which hold the prerequisites of `s`
      have hids : ∀ id, id ∈ done.map RemediationStep.id →
          (id ∈ p.executed ++ [step.id] ↔ id ∈ p.executed) := by
        intro id hid
        rw [List.mem_append, List.mem_singleton, or_iff_left]
        exact fun heq => hnew (heq ▸ hid)
      rw [hids _ (List.mem_map_of_mem hs), h.executed_iff s hs]
      exact and_congr_right fun _ =>
        forall₂_congr fun id hid => (hids id (hknown s hs id hid)).symm
    · rw [List.mem_singleton.mp hs]
      exact iff_of_true (List.mem_append_right _ (List.mem_singleton_self _))
        ⟨hcleared, fun id hid => List.mem_append_left _ (hmet id hid)⟩
  · rcases DepthFirst.split_append_singleton hsplit with ⟨rfl, hid⟩ | ⟨init, hinit⟩
    · rcases List.mem_append.mp hs with hs | hs
      · exact absurd (hid ▸ List.mem_map_of_mem hs) hnew
      · rw [List.mem_singleton.mp hs]
        exact hmet
    · rcases List.mem_append.mp hs with hs | hs
      · exact h.before s hs first init hinit
      · rw [List.mem_singleton.mp hs] at hinit
        exact absurd (hinit ▸ List.mem_append_right _ List.mem_cons_self) (h.fresh hnew)

/-- A step that comes new and is skipped keeps it as well. -/
theorem Simulated.skip (h : Simulated confirmed done p)
    (hnew : step.id ∉ done.map RemediationStep.id)
    (hskip : ¬(Cleared confirmed step ∧ ∀ id ∈ step.prerequisites, id ∈ p.executed))
    (reason : Str) :
    Simulated confirmed (done ++ [step])
      { p with skipped := p.skipped ++ [(step.id, reason)] } := by
  refine ⟨h.completed, ?_, fun s hs => ?_, fun s hs first rest hsplit => ?_⟩
  · rw [List.map_append, List.map_append, ← List.append_assoc]
    exact h.once.append_right _
  · rcases List.mem_append.mp hs with hs | hs
    · exact h.executed_iff s hs
    · rw [List.mem_singleton.mp hs]
      exact iff_of_false (h.fresh hnew) hskip
  · rcases List.mem_append.mp hs with hs | hs
    · exact h.before s hs first rest hsplit
    · rw [List.mem_singleton.mp hs] at hsplit
      exact absurd (hsplit ▸ List.mem_append_right _ List.mem_cons_self) (h.fresh hnew)

/-- A round keeps `Simulated`, for a step that comes new and behind its prerequisites. -/
theorem Simulated.round (h : Simulated confirmed done p)
    (hnew : step.id ∉ done.map RemediationStep.id)
    (hknown : ∀ s ∈ done ++ [step], ∀ id ∈ s.prerequisites, id ∈ done.map RemediationStep.id) :
    Simulated confirmed (done ++ [step]) (runStep rt confirmed p step) := by
  by_cases hrun : Cleared confirmed step ∧ ∀ id ∈ step.prerequisites, id ∈ p.executed
  · rw [runStep_executes h.completed hrun.2 hrun.1]
    exact h.execute hnew (fun s hs => hknown s (List.mem_append_left _ hs)) hrun.1 hrun.2
  · obtain ⟨reason, hskip⟩ := @runStep_skips rt confirmed _ step h.completed hrun
    rw [hskip]
    exact h.skip hnew hrun reason

/-- An order without its last step. -/
theorem BehindPrerequisites.init {steps : List RemediationStep}
    (h : BehindPrerequisites (steps ++ [step])) : BehindPrerequisites steps := by
  intro before s after hsplit
  refine h before s (after ++ [step]) ?_
  rw [hsplit, List.append_assoc, List.cons_append]

/-- The prerequisites of an ordered step are known. -/
theorem BehindPrerequisites.known {steps : List RemediationStep} (h : BehindPrerequisites steps)
    (hstep : step ∈ steps) : ∀ id ∈ step.prerequisites, id ∈ steps.map RemediationStep.id := by
  intro id hid
  obtain ⟨before, after, rfl⟩ := List.append_of_mem hstep
  rw [List.map_append]
  exact List.mem_append_left _ (h before step after rfl id hid)

/-- The whole loop. -/
theorem simulated_run {ordered : List RemediationStep}
    (hids : (ordered.map RemediationStep.id).Nodup) (hbehind : BehindPrerequisites ordered) :
    Simulated confirmed ordered (ordered.foldl (runStep rt confirmed) ⟨[], [], []⟩) := by
  induction ordered using List.reverseRecOn with
  | nil => exact simulated_nil
  | append_singleton done step ih =>
    rw [List.map_append, List.nodup_append] at hids
    rw [List.foldl_append]
    refine (ih hids.1 hbehind.init).round ?_ fun s hs => ?_
    · exact fun hmem => hids.2.2 _ hmem _ (List.mem_singleton_self _) rfl
    · rcases List.mem_append.mp hs with hs | hs
      · exact hbehind.init.known hs
      · rw [List.mem_singleton.mp hs]
        exact hbehind done step [] rfl

/-- With more confirmations, every step that was executed is executed. -/
theorem Simulated.mono {more : List Str} {q : Progress} {ordered : List RemediationStep}
    (hbehind : BehindPrerequisites ordered) (hmore : confirmed ⊆ more)
    (h : Simulated confirmed ordered p) (h' : Simulated more ordered q) :
    p.executed ⊆ q.executed := by
  have hprefix : ∀ done rest, ordered = done ++ rest →
      ∀ s ∈ done, s.id ∈ p.executed → s.id ∈ q.executed := by
    intro done
    induction done using List.reverseRecOn with
    | nil => exact fun _ _ s hs => absurd hs List.not_mem_nil
    | append_singleton done step ih =>
      intro rest hsplit s hs hmem
      rw [List.append_assoc] at hsplit
      rcases List.mem_append.mp hs with hs | hs
      · exact ih _ hsplit s hs hmem
      · rw [List.mem_singleton.mp hs] at hmem ⊢
        have hstep : step ∈ ordered := hsplit ▸ List.mem_append_right _ List.mem_cons_self
        obtain ⟨hcleared, hmet⟩ := (h.executed_iff step hstep).mp hmem
        refine (h'.executed_iff step hstep).mpr
          ⟨fun hneeds => hmore (hcleared hneeds), fun id hid => ?_⟩
        obtain ⟨s, hs, rfl⟩ := List.mem_map.mp (hbehind done step rest hsplit id hid)
        exact ih _ hsplit s hs (hmet _ hid)
  intro id hid
  obtain ⟨s, hs, rfl⟩ := List.mem_map.mp (h.once.subset (List.mem_append_left _ hid))
  exact hprefix ordered [] (List.append_nil _).symm s hs hid

/-! ## The gate -/

/-- What a dry run of some steps has to report. -/
structure Gated (steps : List RemediationStep) (confirmed : List Str) (report : DryRunReport) :
    Prop where
  /-- Every id is listed once, as executed or as skipped. -/
  once : (report.executed ++ report.skipped.map Prod.fst).Perm (steps.map RemediationStep.id)
  /-- What is risky runs with a confirmation only. -/
  authorised : ∀ s ∈ steps, s.id ∈ report.executed → s.risk = .medium ∨ s.risk = .high →
    s.id ∈ confirmed
  /-- Prerequisites are executed before what they are for. -/
  before : ∀ s ∈ steps, ∀ first rest, report.executed = first ++ s.id :: rest →
    ∀ id ∈ s.prerequisites, id ∈ first
  /-- A skipped step lacks a confirmation, or a prerequisite of it was skipped. -/
  reason : ∀ s ∈ steps, s.id ∈ report.skipped.map Prod.fst →
    ((s.risk = .medium ∨ s.risk = .high) ∧ s.id ∉ confirmed) ∨
      ∃ id ∈ s.prerequisites, id ∈ report.skipped.map Prod.fst

theorem needsConfirmation_iff : needsConfirmation step = true ↔ step.risk = .medium ∨ step.risk = .high := by
  simp [needsConfirmation]

theorem Simulated.gated {steps ordered : List RemediationStep} {total : ℕ} {note : Str}
    (h : Simulated confirmed ordered p) (hperm : ordered.Perm steps)
    (hids : (steps.map RemediationStep.id).Nodup) (hbehind : BehindPrerequisites ordered) :
    Gated steps confirmed ⟨p.executed, p.skipped, total, note⟩ where
  once := h.once.trans (hperm.map _)
  authorised := fun s hs hmem hrisk =>
    ((h.executed_iff s (hperm.mem_iff.mpr hs)).mp hmem).1 (needsConfirmation_iff.mpr hrisk)
  before := fun s hs => h.before s (hperm.mem_iff.mpr hs)
  reason := by
    intro s hs hskipped
    have hordered := hperm.mem_iff.mpr hs
    have hnodup := (h.once.trans (hperm.map _)).nodup_iff.mpr hids
    have hnot : s.id ∉ p.executed := fun hmem =>
      (List.nodup_append.mp hnodup).2.2 _ hmem _ hskipped rfl
    rw [h.executed_iff s hordered, not_and_or] at hnot
    rcases hnot with hcleared | hunmet
    · rw [Cleared, needsConfirmation_iff, Classical.not_imp] at hcleared
      exact Or.inl hcleared
    · simp only [not_forall] at hunmet
      obtain ⟨id, hid, hunmet⟩ := hunmet
      have hknown := h.once.symm.subset (hbehind.known hordered id hid)
      exact Or.inr ⟨id, hid, (List.mem_append.mp hknown).resolve_left hunmet⟩

/-- A run of a fresh transaction on a plan that is ordered. -/
theorem run_fresh {steps ordered : List RemediationStep}
    (h : buildExecutionOrder rt steps = .ok ordered) (confirmed : List Str) :
    let p := ordered.foldl (runStep rt confirmed) ⟨[], [], []⟩
    (DryRunTransaction.fresh steps confirmed).run rt =
      .ok (⟨p.executed, p.skipped, ordered.length, "dry-run only; no commands were executed"⟩,
        ⟨steps, p.executed, p.skipped, confirmed⟩) := by
  unfold DryRunTransaction.run DryRunTransaction.fresh
  dsimp only
  rw [h]
  rfl

/-- The confirmation gate of a dry run, for every plan that can be ordered. -/
theorem dry_run_gated (rt : Runtime) (steps : List RemediationStep)
    (hids : (steps.map RemediationStep.id).Nodup) (hplan : ¬(Dangling steps ∨ Cyclic steps))
    (confirmed : List Str) :
    ∃ report after, (DryRunTransaction.fresh steps confirmed).run rt = .ok (report, after) ∧
      Gated steps confirmed report ∧
      ∀ more, confirmed ⊆ more → ∃ wider after',
        (DryRunTransaction.fresh steps more).run rt = .ok (wider, after') ∧
          report.executed ⊆ wider.executed := by
  obtain ⟨hdangling, hcyclic⟩ := not_or.mp hplan
  obtain ⟨ordered, hordered⟩ := buildExecutionOrder_returns rt hids hdangling hcyclic
  obtain ⟨hperm, hbehind⟩ := buildExecutionOrder_ok rt hids hordered
  have hsim : ∀ set, Simulated set ordered (ordered.foldl (runStep rt set) ⟨[], [], []⟩) := fun _ =>
    simulated_run ((hperm.map _).nodup_iff.mpr hids) hbehind
  refine ⟨_, _, run_fresh hordered confirmed, (hsim confirmed).gated hperm hids hbehind, ?_⟩
  intro more hmore
  exact ⟨_, _, run_fresh hordered more, (hsim confirmed).mono hbehind hmore (hsim more)⟩

theorem dry_run_gated_backup : ∃ report after,
    (DryRunTransaction.fresh backupFirst []).run .standard = .ok (report, after) ∧
      Gated backupFirst [] report := by
  obtain ⟨report, after, hrun, hgated, -⟩ :=
    dry_run_gated .standard backupFirst (by decide +kernel) backupFirst_plan []
  exact ⟨report, after, hrun, hgated⟩

end DevRepro.Remediation
