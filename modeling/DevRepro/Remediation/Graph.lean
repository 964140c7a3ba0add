import DevRepro.Core.VersionOrder
import DevRepro.Lib.DepthFirst

/-!
# The order of a remediation plan

`RemediationStep` and `build_execution_order` of `remediation/graph.py`.  The nested `visit`
is `Lib.DepthFirst.visit` on the steps: what it keeps in `done` are the ids of `order`, and
`visiting` holds those of the steps on its way.

`execution_order` is the result: the plans that are refused are those with an unknown
prerequisite or a cycle, every other one gets an order of all its steps in which each stands
behind its prerequisites, and the order of the input does not matter.
-/

namespace DevRepro.Remediation

open DevRepro.Python DevRepro.Lib DevRepro.Core
open Relation (TransGen)

/-- How risky a change is. -/
inductive RiskLevel where
  | safe
  | low
  | medium
  | high
  deriving DecidableEq

/-- The value of the enumeration. -/
def RiskLevel.value : RiskLevel → Str
  | .safe => "SAFE"
  | .low => "LOW"
  | .medium => "MEDIUM"
  | .high => "HIGH"

/-- A step of a plan, as far as its order and its simulation read it. -/
structure RemediationStep where
  id : Str
  risk : RiskLevel
  prerequisites : List Str

/-- `PlanCycleError`. -/
def planCycleError (text : Str) : Exc := ⟨.other "PlanCycleError", text⟩

section Code

variable (rt : Runtime) (steps : List RemediationStep)

/-- `by_id.get(id)`: a later step of the same id replaces an earlier one. -/
def byId (id : Str) : Option RemediationStep := steps.reverse.find? fun s => s.id = id

/-- The first prerequisite without a step, and the step that has it. -/
def unknownPrerequisite : Option (RemediationStep × Str) :=
  steps.findSome? fun s => (s.prerequisites.find? fun p => (byId steps p).isNone).map (s, ·)

/-- The steps that a step needs. -/
def needed (s : RemediationStep) : List RemediationStep := s.prerequisites.filterMap (byId steps)

/-- `sorted(steps, key=lambda x: x.id)` -/
def sortedSteps : List RemediationStep := steps.mergeSort fun a b => strLe a.id b.id

/-- `build_execution_order`.  The visits of a plan without a cycle are never nested deeper
than it has steps. -/
def buildExecutionOrder : Except Exc (List RemediationStep) :=
  match unknownPrerequisite steps with
  | some (s, p) =>
    .error (planCycleError
      (lit "step " ++ rt.strRepr s.id ++ lit " depends on unknown step " ++ rt.strRepr p))
  | none =>
    match DepthFirst.search RemediationStep.id (needed steps) (steps.length + 1)
        (sortedSteps steps) with
    | .ok order => .ok order
    | .error (.cycle s) =>
      .error (planCycleError (lit "prerequisite cycle involving " ++ rt.strRepr s.id))
    | .error .tooDeep => .error ⟨.recursionError, "maximum recursion depth exceeded"⟩

end Code

/-! ## The relation of a plan -/

section Relation

variable (steps : List RemediationStep)

/-- Some prerequisite names no step. -/
def Dangling : Prop := ∃ s ∈ steps, ∃ p ∈ s.prerequisites, p ∉ steps.map RemediationStep.id

/-- A step has another one among its prerequisites. -/
def Requires (a b : RemediationStep) : Prop := b ∈ steps ∧ b.id ∈ a.prerequisites

/-- The prerequisite relation has a cycle. -/
def Cyclic : Prop := ∃ s ∈ steps, TransGen (Requires steps) s s

/-- Every step stands behind its prerequisites. -/
def BehindPrerequisites (order : List RemediationStep) : Prop :=
  ∀ before step after, order = before ++ step :: after →
    ∀ p ∈ step.prerequisites, p ∈ before.map RemediationStep.id

end Relation

variable {steps others : List RemediationStep}

theorem byId_eq_some_iff (hids : (steps.map RemediationStep.id).Nodup) {id : Str}
    {s : RemediationStep} : byId steps id = some s ↔ s ∈ steps ∧ s.id = id := by
  unfold byId
  constructor
  · intro h
    exact ⟨List.mem_reverse.mp (List.mem_of_find?_eq_some h), by simpa using List.find?_some h⟩
  · rintro ⟨hs, rfl⟩
    cases h : steps.reverse.find? fun other => other.id = s.id with
    | none =>
      have hnot := List.find?_eq_none.mp h s (List.mem_reverse.mpr hs)
      exact absurd (decide_eq_true rfl) hnot
    | some other =>
      have hother := List.mem_reverse.mp (List.mem_of_find?_eq_some h)
      have hid : other.id = s.id := by simpa using List.find?_some h
      rw [List.inj_on_of_nodup_map hids hother hs hid]

theorem byId_eq_none_iff (hids : (steps.map RemediationStep.id).Nodup) {id : Str} :
    byId steps id = none ↔ id ∉ steps.map RemediationStep.id := by
  rw [← not_iff_not, not_not, List.mem_map, ← ne_eq, Option.ne_none_iff_exists']
  simp only [byId_eq_some_iff hids]

theorem mem_needed_iff (hids : (steps.map RemediationStep.id).Nodup) {a b : RemediationStep} :
    b ∈ needed steps a ↔ Requires steps a b := by
  unfold needed Requires
  rw [List.mem_filterMap]
  simp only [byId_eq_some_iff hids]
  constructor
  · rintro ⟨p, hp, hb, rfl⟩
    exact ⟨hb, hp⟩
  · rintro ⟨hb, hp⟩
    exact ⟨b.id, hp, hb, rfl⟩

theorem unknownPrerequisite_eq_none_iff (hids : (steps.map RemediationStep.id).Nodup) :
    unknownPrerequisite steps = none ↔ ¬Dangling steps := by
  unfold unknownPrerequisite Dangling
  simp only [List.findSome?_eq_none_iff, Option.map_eq_none_iff, List.find?_eq_none,
    Option.isNone_iff_eq_none, byId_eq_none_iff hids, not_exists, not_and]

/-- The steps as a graph of their ids. -/
def planGraph (hids : (steps.map RemediationStep.id).Nodup) :
    DepthFirst.Graph RemediationStep Str where
  nodes := steps
  key := RemediationStep.id
  next := needed steps
  closed := fun _ _ _ hb => ((mem_needed_iff hids).mp hb).1
  distinct := hids

theorem cyclic_iff (hids : (steps.map RemediationStep.id).Nodup) :
    (planGraph hids).Cyclic ↔ Cyclic steps := by
  have hneeds : (planGraph hids).Needs = Requires steps :=
    funext fun a => funext fun b => propext (mem_needed_iff hids)
  unfold DepthFirst.Graph.Cyclic Cyclic
  rw [hneeds]
  rfl

theorem behindPrerequisites_of_ordered (hids : (steps.map RemediationStep.id).Nodup)
    {order : List RemediationStep} (hdangling : ¬Dangling steps)
    (h : (planGraph hids).Ordered order) : BehindPrerequisites order := by
  intro before step after hsplit p hp
  have hstep : step ∈ steps := h.subset (hsplit ▸ List.mem_append_right _ List.mem_cons_self)
  have hknown : p ∈ steps.map RemediationStep.id := by
    by_contra hnot
    exact hdangling ⟨step, hstep, p, hp, hnot⟩
  obtain ⟨s, hs, rfl⟩ := List.mem_map.mp hknown
  exact List.mem_map_of_mem
    (h.behind before step after hsplit s ((mem_needed_iff hids).mpr ⟨hs, hp⟩))

theorem sortedSteps_perm (steps : List RemediationStep) : (sortedSteps steps).Perm steps :=
  List.mergeSort_perm _ _

/-- A plan that is refused has an unknown prerequisite or a cycle, and the other way round. -/
theorem buildExecutionOrder_error_iff (rt : Runtime)
    (hids : (steps.map RemediationStep.id).Nodup) :
    (∃ text, buildExecutionOrder rt steps = .error (planCycleError text)) ↔
      Dangling steps ∨ Cyclic steps := by
  have hsearch := DepthFirst.Graph.search_fails_iff (G := planGraph hids)
    (sortedSteps_perm steps).subset (sortedSteps_perm steps).symm.subset (Nat.lt_succ_self _)
  rw [cyclic_iff hids] at hsearch
  have hdeep := DepthFirst.Graph.search_depth (G := planGraph hids) (sortedSteps_perm steps).subset
    (Nat.lt_succ_self _)
  rw [buildExecutionOrder]
  cases hunknown : unknownPrerequisite steps with
  | some found =>
    have hdangling : Dangling steps := by
      by_contra hnot
      rw [(unknownPrerequisite_eq_none_iff hids).mpr hnot] at hunknown
      cases hunknown
    exact iff_of_true ⟨_, rfl⟩ (Or.inl hdangling)
  | none =>
    have hknown := (unknownPrerequisite_eq_none_iff hids).mp hunknown
    rw [or_iff_right hknown, ← hsearch]
    change _ ↔ ∃ fault, DepthFirst.search RemediationStep.id (needed steps) (steps.length + 1)
      (sortedSteps steps) = .error fault
    cases h : DepthFirst.search RemediationStep.id (needed steps) (steps.length + 1)
        (sortedSteps steps) with
    | ok order => exact iff_of_false (fun ⟨_, heq⟩ => by cases heq) (fun ⟨_, heq⟩ => by cases heq)
    | error fault =>
      cases fault with
      | cycle s => exact iff_of_true ⟨_, rfl⟩ ⟨_, rfl⟩
      | tooDeep => exact absurd h hdeep

/-- A plan that is ordered has all its steps in the order, behind their prerequisites. -/
theorem buildExecutionOrder_ok (rt : Runtime) (hids : (steps.map RemediationStep.id).Nodup)
    {order : List RemediationStep} (h : buildExecutionOrder rt steps = .ok order) :
    order.Perm steps ∧ BehindPrerequisites order := by
  rw [buildExecutionOrder] at h
  cases hunknown : unknownPrerequisite steps with
  | some found =>
    rw [hunknown] at h
    cases h
  | none =>
    rw [hunknown] at h
    cases hsearch : DepthFirst.search RemediationStep.id (needed steps) (steps.length + 1)
        (sortedSteps steps) with
    | error fault =>
      rw [hsearch] at h
      cases fault <;> cases h
    | ok found =>
      rw [hsearch] at h
      cases h
      obtain ⟨hordered, hroots⟩ := DepthFirst.Graph.search_ok (G := planGraph hids)
        (sortedSteps_perm steps).subset hsearch
      refine ⟨?_, behindPrerequisites_of_ordered hids
        ((unknownPrerequisite_eq_none_iff hids).mp hunknown) hordered⟩
      rw [List.perm_ext_iff_of_nodup hordered.nodup hids.of_map]
      exact fun s => ⟨fun hs => hordered.subset hs,
        fun hs => hroots ((sortedSteps_perm steps).symm.subset hs)⟩

/-- Where a plan without cycles and unknown prerequisites is ordered. -/
theorem buildExecutionOrder_returns (rt : Runtime) (hids : (steps.map RemediationStep.id).Nodup)
    (hdangling : ¬Dangling steps) (hcyclic : ¬Cyclic steps) :
    ∃ order, buildExecutionOrder rt steps = .ok order := by
  have hsearch := DepthFirst.Graph.search_fails_iff (G := planGraph hids)
    (sortedSteps_perm steps).subset (sortedSteps_perm steps).symm.subset (Nat.lt_succ_self _)
  rw [cyclic_iff hids] at hsearch
  rw [buildExecutionOrder, (unknownPrerequisite_eq_none_iff hids).mpr hdangling]
  cases h : DepthFirst.search RemediationStep.id (needed steps) (steps.length + 1)
      (sortedSteps steps) with
  | ok order => exact ⟨order, rfl⟩
  | error fault => exact absurd (hsearch.mp ⟨fault, h⟩) hcyclic

/-! ## The order of the input -/

theorem byId_perm (hids : (steps.map RemediationStep.id).Nodup) (h : others.Perm steps) :
    byId others = byId steps := by
  have hothers : (others.map RemediationStep.id).Nodup := (h.map _).nodup_iff.mpr hids
  funext id
  refine Option.ext fun s => ?_
  rw [byId_eq_some_iff hothers, byId_eq_some_iff hids, h.mem_iff]

theorem sortedSteps_eq (hids : (steps.map RemediationStep.id).Nodup) (h : others.Perm steps) :
    sortedSteps others = sortedSteps steps := by
  have hsorted : ∀ list : List RemediationStep,
      (sortedSteps list).Pairwise fun a b => strLe a.id b.id = true := by
    intro list
    refine List.pairwise_mergeSort (fun a b c hab hbc => ?_) (fun a b => ?_) list
    · rw [strLe_iff] at hab hbc ⊢
      exact hab.trans hbc
    · rw [Bool.or_eq_true, strLe_iff, strLe_iff]
      exact le_total a.id b.id
  refine List.Perm.eq_of_pairwise (fun a b ha hb hab hba => ?_) (hsorted others) (hsorted steps)
    (((sortedSteps_perm others).trans h).trans (sortedSteps_perm steps).symm)
  rw [strLe_iff] at hab hba
  have hmem : ∀ s ∈ sortedSteps others, s ∈ steps := fun s hs =>
    h.subset ((sortedSteps_perm others).subset hs)
  exact List.inj_on_of_nodup_map hids (hmem a ha) ((sortedSteps_perm steps).subset hb)
    (le_antisymm hab hba)

/-- Another order of the input gives the same order of execution. -/
theorem buildExecutionOrder_perm (rt : Runtime) (hids : (steps.map RemediationStep.id).Nodup)
    (h : others.Perm steps) (order : List RemediationStep) :
    buildExecutionOrder rt others = .ok order ↔ buildExecutionOrder rt steps = .ok order := by
  have hothers : (others.map RemediationStep.id).Nodup := (h.map _).nodup_iff.mpr hids
  have hneeded : needed others = needed steps := funext fun s => by
    unfold needed
    rw [byId_perm hids h]
  have hdangling : Dangling others ↔ Dangling steps := by
    unfold Dangling
    simp only [h.mem_iff, (h.map RemediationStep.id).mem_iff]
  rw [buildExecutionOrder, buildExecutionOrder, hneeded, sortedSteps_eq hids h, h.length_eq]
  cases hunknown : unknownPrerequisite steps with
  | none =>
    have hnone : unknownPrerequisite others = none := by
      rw [unknownPrerequisite_eq_none_iff hothers, hdangling]
      exact (unknownPrerequisite_eq_none_iff hids).mp hunknown
    rw [hnone]
  | some found =>
    cases hother : unknownPrerequisite others with
    | some other => exact iff_of_false (fun heq => by cases heq) (fun heq => by cases heq)
    | none =>
      have hnot := (unknownPrerequisite_eq_none_iff hothers).mp hother
      rw [hdangling, ← unknownPrerequisite_eq_none_iff hids, hunknown] at hnot
      cases hnot

/-- A plan whose prerequisites have a lower rank has no cycle. -/
theorem not_cyclic_of_rank {steps : List RemediationStep} (rank : RemediationStep → ℕ)
    (h : ∀ a ∈ steps, ∀ b ∈ steps, b.id ∈ a.prerequisites → rank b < rank a) : ¬Cyclic steps := by
  rintro ⟨s, hs, hcycle⟩
  have hlower : ∀ t, TransGen (Requires steps) s t → t ∈ steps ∧ rank t < rank s := by
    intro t ht
    induction ht with
    | single hneeds => exact ⟨hneeds.1, h s hs _ hneeds.1 hneeds.2⟩
    | tail _ hneeds ih => exact ⟨hneeds.1, (h _ ih.1 _ hneeds.1 hneeds.2).trans ih.2⟩
  exact lt_irrefl _ (hlower s hcycle).2

/-- The order of execution is a stable topological one, and missing exactly where there is
none. -/
theorem execution_order (rt : Runtime) (steps : List RemediationStep)
    (hids : (steps.map RemediationStep.id).Nodup) :
    ((∃ text, buildExecutionOrder rt steps = .error (planCycleError text)) ↔
        Dangling steps ∨ Cyclic steps) ∧
      (¬(Dangling steps ∨ Cyclic steps) →
        ∃ order, order.Perm steps ∧ BehindPrerequisites order ∧
          ∀ others, others.Perm steps → buildExecutionOrder rt others = .ok order) := by
  refine ⟨buildExecutionOrder_error_iff rt hids, fun h => ?_⟩
  obtain ⟨hdangling, hcyclic⟩ := not_or.mp h
  obtain ⟨order, horder⟩ := buildExecutionOrder_returns rt hids hdangling hcyclic
  obtain ⟨hperm, hbehind⟩ := buildExecutionOrder_ok rt hids horder
  exact ⟨order, hperm, hbehind, fun others hothers =>
    (buildExecutionOrder_perm rt hids hothers order).mpr horder⟩

/-- An update that needs a backup. -/
def backupFirst : List RemediationStep := [⟨"update", .medium, ["backup"]⟩, ⟨"backup", .safe, []⟩]

theorem backupFirst_plan : ¬(Dangling backupFirst ∨ Cyclic backupFirst) := by
  have hknown : ∀ s ∈ backupFirst, ∀ p ∈ s.prerequisites, p ∈ backupFirst.map RemediationStep.id := by
    decide +kernel
  have hrank : ∀ a ∈ backupFirst, ∀ b ∈ backupFirst, b.id ∈ a.prerequisites →
      b.prerequisites.length < a.prerequisites.length := by
    decide +kernel
  rintro (⟨s, hs, p, hp, hnot⟩ | hcyclic)
  · exact hnot (hknown s hs p hp)
  · exact not_cyclic_of_rank (fun s => s.prerequisites.length) hrank hcyclic

theorem execution_order_backup : ∃ order, order.Perm backupFirst ∧ BehindPrerequisites order ∧
    ∀ others, others.Perm backupFirst → buildExecutionOrder .standard others = .ok order :=
  (execution_order .standard backupFirst (by decide +kernel)).2 backupFirst_plan

end DevRepro.Remediation
