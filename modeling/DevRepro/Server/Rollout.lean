import DevRepro.Generators.Onboarding
import DevRepro.Lib.Dict
import DevRepro.Project.Compose
import DevRepro.Server.Analytics

/-!
# The simulation of a policy and the check of one machine

`simulate_policy` of `server/analytics.py` judges the machines that
`missing_requirements` of `generators/onboarding.py` judges one at a time.  The
simulation merges the two tables of a policy, so the range of a runtime is lost
when the same name is a required tool: `agrees_iff` says on which machines that
makes a difference.
-/

namespace DevRepro.Server

open DevRepro.Python DevRepro.Lib DevRepro.Core DevRepro.Project DevRepro.Snapshots
  DevRepro.Generators

/-! ## Machines -/

/-- `{**policy.required_runtimes, **policy.required_tools}` -/
def mergedRequirements (policy : Policy) : Dict Str Str :=
  policy.requiredRuntimes.merge policy.requiredTools

/-- A machine whose report and whose stored fact tell the same active versions, of
which it has one at least. -/
structure ScannedMachine where
  report : ScanReport
  fact : SnapshotFact
  same : ∀ name, getTool fact.tools name = installedVersion report name
  readable : fact.tools ≠ []

variable (rt : Runtime)

/-- `simulate_policy`, for a policy and the facts of machines. -/
def simulateRollout (policy : Policy) (facts : List SnapshotFact) : PolicySimulation :=
  simulatePolicy rt (sortedItems (mergedRequirements policy)) facts

/-- `broke`, after the loop over the requirements of one machine. -/
def breaks (policy : Policy) (fact : SnapshotFact) : Bool :=
  ((sortedItems (mergedRequirements policy)).foldl (checkRequirement rt fact.tools) ([], false)).2

/-- The causes as a dictionary. -/
def causeCount (simulation : PolicySimulation) (key : Str) : Option Nat :=
  Dict.find? key simulation.causes

/-- The simulation counts the machines that miss something, in any order of the
snapshots. -/
structure VerdictsAgree (policy : Policy) (machines : List ScannedMachine) : Prop where
  failing : ∀ machine ∈ machines,
    breaks rt policy machine.fact = true ↔ missingRequirements rt machine.report policy ≠ []
  count : (simulateRollout rt policy (machines.map ScannedMachine.fact)).newlyFailing =
    (machines.filter fun machine => missingRequirements rt machine.report policy ≠ []).length
  order : ∀ others : List ScannedMachine, others.Perm machines →
    (simulateRollout rt policy (others.map ScannedMachine.fact)).evaluated =
        (simulateRollout rt policy (machines.map ScannedMachine.fact)).evaluated ∧
      (simulateRollout rt policy (others.map ScannedMachine.fact)).newlyFailing =
        (simulateRollout rt policy (machines.map ScannedMachine.fact)).newlyFailing ∧
      causeCount (simulateRollout rt policy (others.map ScannedMachine.fact)) =
        causeCount (simulateRollout rt policy (machines.map ScannedMachine.fact))

/-! ## One requirement -/

/-- The active versions do not meet a requirement. -/
def unmet (installed : Str → Option Str) (requirement : Str × Str) : Bool :=
  match installed requirement.1 with
  | none => true
  | some version => satisfies rt.limits version requirement.2 == some false

/-- The cause that a requirement counts for. -/
def causeOf (installed : Str → Option Str) (requirement : Str × Str) : Option Str :=
  match installed requirement.1 with
  | none => some (requirement.1 ++ lit " (absent)")
  | some version =>
    if satisfies rt.limits version requirement.2 = some false then
      some (requirement.1 ++ lit " " ++ requirement.2)
    else none

variable {rt}

theorem unmet_iff {installed : Str → Option Str} {requirement : Str × Str} :
    unmet rt installed requirement = true ↔
      (missingRequirement rt installed requirement).isSome = true := by
  rw [unmet, missingRequirement]
  cases installed requirement.1 with
  | none => simp
  | some version => simp

theorem checkRequirement_eq (tools : List (Str × Str)) (state : List (Str × Nat) × Bool)
    (requirement : Str × Str) :
    checkRequirement rt tools state requirement =
      ((causeOf rt (getTool tools) requirement).toList.foldl (fun causes key => countCause key causes)
          state.1,
        state.2 || unmet rt (getTool tools) requirement) := by
  rw [checkRequirement, causeOf, unmet]
  cases getTool tools requirement.1 with
  | none => simp
  | some version =>
    cases hsat : satisfies rt.limits version requirement.2 with
    | none => simp [hsat]
    | some ok =>
      cases ok with
      | true => simp [hsat]
      | false => simp [hsat]

/-- The loop over the requirements of one machine. -/
theorem checkRequirements_eq (tools : List (Str × Str)) (required : List (Str × Str))
    (state : List (Str × Nat) × Bool) :
    required.foldl (checkRequirement rt tools) state =
      ((required.filterMap (causeOf rt (getTool tools))).foldl
          (fun causes key => countCause key causes) state.1,
        state.2 || required.any (unmet rt (getTool tools))) := by
  induction required generalizing state with
  | nil => simp
  | cons requirement required ih =>
    rw [List.foldl_cons, ih, checkRequirement_eq, List.filterMap_cons, List.any_cons, Bool.or_assoc]
    cases causeOf rt (getTool tools) requirement with
    | none => rfl
    | some key => rfl

theorem breaks_eq (policy : Policy) (fact : SnapshotFact) :
    breaks rt policy fact =
      (sortedItems (mergedRequirements policy)).any (unmet rt (getTool fact.tools)) := by
  rw [breaks, checkRequirements_eq, Bool.false_or]

/-! ## The counts -/

/-- The causes that a machine counts for, one for each requirement that it does not meet. -/
def machineCauses (rt : Runtime) (policy : Policy) (fact : SnapshotFact) : List Str :=
  (sortedItems (mergedRequirements policy)).filterMap (causeOf rt (getTool fact.tools))

/-- What a simulation counts, for machines that have tools. -/
theorem simulateRollout_eq (policy : Policy) {facts : List SnapshotFact}
    (h : ∀ fact ∈ facts, fact.tools ≠ []) :
    simulateRollout rt policy facts =
      ⟨facts.length, (facts.filter (breaks rt policy)).length,
        (facts.flatMap (machineCauses rt policy)).foldl (fun causes key => countCause key causes) [],
        0⟩ := by
  induction facts using List.reverseRecOn with
  | nil => rfl
  | append_singleton facts fact ih =>
    have hfact : fact.tools ≠ [] := h fact (List.mem_append_right _ (List.mem_singleton_self _))
    have ih := ih fun other hother => h other (List.mem_append_left _ hother)
    rw [simulateRollout, simulatePolicy] at ih
    rw [simulateRollout, simulatePolicy, List.foldl_append, ih, List.foldl_cons, List.foldl_nil,
      simulateMachine, if_neg hfact, checkRequirements_eq]
    simp only [Bool.false_or, List.length_append, List.length_singleton, List.filter_append,
      List.flatMap_append, List.foldl_append, List.flatMap_singleton, PolicySimulation.mk.injEq,
      true_and, and_true]
    refine ⟨?_, rfl⟩
    rw [← breaks_eq]
    cases hbreaks : breaks rt policy fact with
    | true => simp [hbreaks]
    | false => simp [hbreaks]

theorem find?_countCause (key other : Str) (causes : List (Str × Nat)) :
    Dict.find? other (countCause key causes) =
      if other = key then some ((Dict.find? other causes).getD 0 + 1)
      else Dict.find? other causes := by
  induction causes with
  | nil =>
    rw [countCause, Dict.find?_cons, Dict.find?_nil]
    split_ifs with h h' h'
    · rfl
    · exact absurd h.symm h'
    · exact absurd h'.symm h
    · rfl
  | cons cause causes ih =>
    obtain ⟨name, n⟩ := cause
    rw [countCause]
    by_cases hname : name = key
    · rw [if_pos hname, Dict.find?_cons, Dict.find?_cons]
      subst hname
      by_cases hother : other = name
      · subst hother
        simp
      · simp [hother, Ne.symm hother]
    · rw [if_neg hname, Dict.find?_cons, Dict.find?_cons, ih]
      by_cases hother : name = other
      · subst hother
        simp [hname]
      · simp [hother]

/-- The count of a cause is how often it was counted. -/
theorem find?_counts (keys : List Str) (key : Str) :
    Dict.find? key (keys.foldl (fun causes key => countCause key causes) []) =
      if keys.count key = 0 then none else some (keys.count key) := by
  induction keys using List.reverseRecOn with
  | nil => rfl
  | append_singleton keys last ih =>
    rw [List.foldl_append, List.foldl_cons, List.foldl_nil, find?_countCause, ih,
      List.count_append, List.count_singleton]
    by_cases hlast : key = last
    · subst hlast
      by_cases hzero : keys.count key = 0
      · simp [hzero]
      · simp [hzero]
    · simp [hlast, Ne.symm hlast]

/-- Nothing that a simulation tells depends on the order of the facts. -/
theorem simulateRollout_perm (policy : Policy) {facts others : List SnapshotFact}
    (h : ∀ fact ∈ facts, fact.tools ≠ []) (hperm : others.Perm facts) :
    (simulateRollout rt policy others).evaluated = (simulateRollout rt policy facts).evaluated ∧
      (simulateRollout rt policy others).newlyFailing =
        (simulateRollout rt policy facts).newlyFailing ∧
      causeCount (simulateRollout rt policy others) =
        causeCount (simulateRollout rt policy facts) := by
  have hothers : ∀ fact ∈ others, fact.tools ≠ [] := fun fact hfact => h fact (hperm.subset hfact)
  rw [simulateRollout_eq policy h, simulateRollout_eq policy hothers]
  refine ⟨hperm.length_eq, (hperm.filter _).length_eq, funext fun key => ?_⟩
  have hcount := (hperm.flatMap_right (machineCauses rt policy)).count_eq key
  rw [causeCount, causeCount, find?_counts, find?_counts, hcount]

/-! ## Agreement -/

theorem mem_sortedItems {α : Type} {table : Dict Str α} {item : Str × α} :
    item ∈ sortedItems table ↔ item ∈ table.items := List.mem_mergeSort

/-- Something is missing when an entry of one of the tables is not met. -/
theorem missingRequirements_ne_nil_iff {report : ScanReport} {policy : Policy} :
    missingRequirements rt report policy ≠ [] ↔
      (∃ item ∈ policy.requiredRuntimes.items, unmet rt (installedVersion report) item = true) ∨
        ∃ item ∈ policy.requiredTools.items, unmet rt (installedVersion report) item = true := by
  have htable : ∀ table : Dict Str Str,
      (sortedItems table).filterMap (missingRequirement rt (installedVersion report)) ≠ [] ↔
        ∃ item ∈ table.items, unmet rt (installedVersion report) item = true := by
    intro table
    rw [Ne, List.filterMap_eq_nil_iff]
    push Not
    refine exists_congr fun item => ?_
    rw [mem_sortedItems, unmet_iff, Option.isSome_iff_ne_none]
  rw [missingRequirements, List.flatMap_cons, List.flatMap_singleton, Ne, List.append_eq_nil_iff,
    not_and_or]
  exact or_congr (htable _) (htable _)

/-- A range of a runtime that the machine does not meet, and that a required tool of
the same name hides: everything else of the policy is met. -/
def HiddenGap (rt : Runtime) (policy : Policy) (installed : Str → Option Str) : Prop :=
  (∃ item ∈ policy.requiredRuntimes.items, unmet rt installed item = true) ∧
    (∀ item ∈ policy.requiredTools.items, unmet rt installed item = false) ∧
    ∀ item ∈ policy.requiredRuntimes.items, unmet rt installed item = true →
      policy.requiredTools.contains item.1 = true

theorem breaks_iff {policy : Policy} (machine : ScannedMachine) :
    breaks rt policy machine.fact = true ↔
      (∃ item ∈ policy.requiredTools.items,
          unmet rt (installedVersion machine.report) item = true) ∨
        ∃ item ∈ policy.requiredRuntimes.items, policy.requiredTools.contains item.1 = false ∧
          unmet rt (installedVersion machine.report) item = true := by
  rw [breaks_eq, List.any_eq_true, funext machine.same]
  simp only [mem_sortedItems, mergedRequirements, Dict.mem_merge_iff, or_and_right, exists_or,
    and_assoc]

/-- The two judge a machine alike unless it has a hidden gap. -/
theorem breaks_iff_missing {policy : Policy} (machine : ScannedMachine) :
    (breaks rt policy machine.fact = true ↔
        missingRequirements rt machine.report policy ≠ []) ↔
      ¬HiddenGap rt policy (installedVersion machine.report) := by
  rw [breaks_iff, missingRequirements_ne_nil_iff, HiddenGap]
  constructor
  · rintro h ⟨hruntime, htools, hshadowed⟩
    rcases h.mpr (Or.inl hruntime) with ⟨item, hitem, hunmet⟩ | ⟨item, hitem, hnot, hunmet⟩
    · rw [htools item hitem] at hunmet
      cases hunmet
    · rw [hshadowed item hitem hunmet] at hnot
      cases hnot
  · intro h
    constructor
    · rintro (htool | ⟨item, hitem, -, hunmet⟩)
      · exact Or.inr htool
      · exact Or.inl ⟨item, hitem, hunmet⟩
    · rintro (hruntime | htool)
      · by_contra hnot
        rw [not_or] at hnot
        refine h ⟨hruntime, fun item hitem => ?_, fun item hitem hunmet => ?_⟩
        · exact eq_false_of_ne_true fun hunmet => hnot.1 ⟨item, hitem, hunmet⟩
        · exact eq_true_of_ne_false fun hcontains => hnot.2 ⟨item, hitem, hcontains, hunmet⟩
      · exact Or.inl htool

/-- A simulation agrees with the check of each machine, in any order of the
snapshots, exactly when no machine has a gap that the merge hides. -/
theorem agrees_iff (policy : Policy) (machines : List ScannedMachine) :
    VerdictsAgree rt policy machines ↔
      ∀ machine ∈ machines, ¬HiddenGap rt policy (installedVersion machine.report) := by
  have hreadable : ∀ fact ∈ machines.map ScannedMachine.fact, fact.tools ≠ [] := by
    intro fact hfact
    obtain ⟨machine, -, rfl⟩ := List.mem_map.mp hfact
    exact machine.readable
  constructor
  · intro h machine hmachine
    exact (breaks_iff_missing machine).mp (h.failing machine hmachine)
  · intro h
    have hfailing : ∀ machine ∈ machines, breaks rt policy machine.fact = true ↔
        missingRequirements rt machine.report policy ≠ [] :=
      fun machine hmachine => (breaks_iff_missing machine).mpr (h machine hmachine)
    refine ⟨hfailing, ?_, fun others hperm => ?_⟩
    · rw [simulateRollout_eq policy hreadable, List.filter_map]
      dsimp only
      rw [List.length_map]
      refine congrArg List.length (List.filter_congr fun machine hmachine => ?_)
      rw [Function.comp_apply, Bool.eq_iff_iff, hfailing machine hmachine, decide_eq_true_iff]
    · exact simulateRollout_perm policy hreadable (hperm.map _)

/-- A policy with `node` in both tables. -/
def nodeTwice : Policy :=
  { Policy.default with
    requiredRuntimes := Dict.empty.set "node" ">=20", requiredTools := Dict.empty.set "node" ">=16" }

/-- A machine with Node 18 alone. -/
def nodeMachine : ScannedMachine where
  report := ⟨"1.0", "2026-01-01T00:00:00Z", "0.2.0",
    ⟨"Linux", "6.5", "x86_64", none, none, false⟩, [],
    [⟨"node", some "18.0.0", some "/usr/bin/node", none, true, some 0⟩],
    none, [], false, none, [], none, none, none, []⟩
  fact := ⟨1, .str "2026-01-01T00:00:00Z", "READY", [("node", "18.0.0")]⟩
  same := by
    intro name
    rw [installedVersion, activeVersions, List.foldl_cons, List.foldl_nil, recordVersion,
      if_pos ⟨rfl, rfl⟩]
    by_cases hname : name = lit "node"
    · subst hname
      rfl
    · rw [Function.update_of_ne hname, getTool, List.find?_cons_of_neg (by simp [Ne.symm hname])]
      rfl
  readable := List.cons_ne_nil _ _

/-- The range that the tool hides is not simulated. -/
theorem nodeTwice_disagrees : ¬VerdictsAgree .standard nodeTwice [nodeMachine] := by
  intro h
  refine (breaks_iff_missing nodeMachine).mp (h.failing nodeMachine (List.mem_singleton_self _)) ?_
  have hruntime : unmet .standard (installedVersion nodeMachine.report) ("node", ">=20") = true := by
    decide +kernel
  have htool : unmet .standard (installedVersion nodeMachine.report) ("node", ">=16") = false := by
    decide +kernel
  refine ⟨⟨_, List.mem_singleton_self _, hruntime⟩, fun item hitem => ?_, fun item hitem _ => ?_⟩
  · rw [List.mem_singleton.mp hitem]
    exact htool
  · rw [List.mem_singleton.mp hitem]
    decide

end DevRepro.Server
