import DevRepro.Rules.Sources
import DevRepro.Server.Rollout

/-!
# A scan and the whole policy

What a policy asks of a machine, and what the engine reports of it.  The packs look at
a few names each; `enforced_iff` says when every entry of a policy is told of, in terms
of the ranges that the packs hold a tool to (`HeldTo`) and of the other sources of a
finding.
-/

namespace DevRepro.Rules

open DevRepro.Python DevRepro.Lib DevRepro.Core DevRepro.Project DevRepro.Snapshots
open DevRepro.Generators DevRepro.Server

/-! ## What a policy asks -/

/-- The tools of a policy, with a range each. -/
def entries (policy : Policy) : List (Str × Str) :=
  policy.requiredRuntimes.items ++ policy.requiredTools.items

variable (rt : RuleRuntime)

/-- The active version of a tool, as far as it can be read. -/
def activeVersion (tools : List ToolInstallation) (name : Str) : Option Version :=
  ((activeTool tools name).bind ToolInstallation.version).bind (parseVersion rt.limits)

/-- An entry that the active version of its tool does not meet. -/
def Outside (tools : List ToolInstallation) (entry : Str × Str) : Prop :=
  ∃ v ∈ activeVersion rt tools entry.1, inSpec rt.limits entry.2 v = some false

/-- An entry whose tool is absent. -/
def Absent (tools : List ToolInstallation) (entry : Str × Str) : Prop :=
  (parseSpec rt.limits entry.2).isSome = true ∧ ∀ t ∈ tools, t.name ≠ entry.1

/-- A range of bad versions that the active version of a tool lies in. -/
def KnownBad (tools : List ToolInstallation) (item : Str × List Str) : Prop :=
  ∃ bad ∈ item.2, ∃ v ∈ activeVersion rt tools item.1, inSpec rt.limits bad v = some true

/-- The context of a scan under a policy, for the tools of a report. -/
def governed (ctx : RuleContext) (policy : Policy) (report : Snapshots.ScanReport) : RuleContext :=
  { ctx with policy := some policy, tools := report.tools }

variable (ctx : RuleContext) (policy : Policy) (report : Snapshots.ScanReport)

/-- The findings of a scan tell all that the policy asks and the machine does not meet. -/
structure Enforced : Prop where
  outside : ∀ entry ∈ entries policy, Outside rt report.tools entry →
    HasError rt (governed ctx policy report) entry.1
  absent : ∀ entry ∈ entries policy, Absent rt report.tools entry →
    HasProblem rt (governed ctx policy report) entry.1
  knownBad : ∀ item ∈ policy.knownBadVersions.items, KnownBad rt report.tools item →
    HasError rt (governed ctx policy report) item.1
  met : (∀ entry ∈ entries policy, ¬HasProblem rt (governed ctx policy report) entry.1) →
    (∀ item ∈ policy.knownBadVersions.items, ¬HasError rt (governed ctx policy report) item.1) →
      missingRequirements rt.toRuntime report policy = []

/-- Whatever the machine does not meet has a source: a range that the packs hold the
tool to and that its version misses as well, a lockfile, or a pack that knows the name. -/
structure Covered : Prop where
  outside : ∀ entry ∈ entries policy, Outside rt report.tools entry →
    ErrorSource rt (governed ctx policy report) entry.1
  absent : ∀ entry ∈ entries policy, Absent rt report.tools entry →
    ProblemSource rt (governed ctx policy report) entry.1
  knownBad : ∀ item ∈ policy.knownBadVersions.items, KnownBad rt report.tools item →
    ErrorSource rt (governed ctx policy report) item.1
  unmet : ∀ entry ∈ entries policy,
    unmet rt.toRuntime (installedVersion report) entry = true →
      (∃ other ∈ entries policy, ProblemSource rt (governed ctx policy report) other.1) ∨
        ∃ item ∈ policy.knownBadVersions.items, ErrorSource rt (governed ctx policy report) item.1

variable {rt ctx policy report}

/-- The requirements are met when no entry is unmet. -/
theorem missingRequirements_eq_nil_iff :
    missingRequirements rt.toRuntime report policy = [] ↔
      ∀ entry ∈ entries policy, unmet rt.toRuntime (installedVersion report) entry = false := by
  rw [← not_iff_not, ← Ne, missingRequirements_ne_nil_iff]
  simp only [entries, List.mem_append, or_imp, forall_and, not_and_or, not_forall,
    Bool.not_eq_false, exists_prop]

variable (rt ctx policy report) in
/-- A scan enforces the whole policy exactly when whatever the machine does not meet
has a source. -/
theorem enforced_iff : Enforced rt ctx policy report ↔ Covered rt ctx policy report := by
  constructor
  · intro h
    refine ⟨fun entry hentry hout => ?_, fun entry hentry habsent => ?_, fun item hitem hbad => ?_,
      fun entry hentry hunmet => ?_⟩
    · exact hasError_iff.mp (h.outside entry hentry hout)
    · exact hasProblem_iff.mp (h.absent entry hentry habsent)
    · exact hasError_iff.mp (h.knownBad item hitem hbad)
    · by_contra hsource
      rw [not_or, not_exists, not_exists] at hsource
      have hmissing := h.met
        (fun other hother hproblem => hsource.1 other ⟨hother, hasProblem_iff.mp hproblem⟩)
        (fun item hitem herror => hsource.2 item ⟨hitem, hasError_iff.mp herror⟩)
      rw [missingRequirements_eq_nil_iff.mp hmissing entry hentry] at hunmet
      cases hunmet
  · intro h
    refine ⟨fun entry hentry hout => ?_, fun entry hentry habsent => ?_, fun item hitem hbad => ?_,
      fun hproblem herror => ?_⟩
    · exact hasError_iff.mpr (h.outside entry hentry hout)
    · exact hasProblem_iff.mpr (h.absent entry hentry habsent)
    · exact hasError_iff.mpr (h.knownBad item hitem hbad)
    · refine missingRequirements_eq_nil_iff.mpr fun entry hentry => ?_
      refine eq_false_of_ne_true fun hunmet => ?_
      rcases h.unmet entry hentry hunmet with ⟨other, hother, hsource⟩ | ⟨item, hitem, hsource⟩
      · exact hproblem other hother (hasProblem_iff.mpr hsource)
      · exact herror item hitem (hasError_iff.mpr hsource)

/-- A policy that asks for kubectl. -/
def kubectlPolicy : Policy :=
  { Policy.default with requiredTools := Dict.empty.set "kubectl" ">=1.28" }

/-- A machine with an older kubectl alone. -/
def kubectlMachine : Snapshots.ScanReport :=
  ⟨"1.0", "2026-01-01T00:00:00Z", "0.2.0", ⟨"Linux", "6.5", "x86_64", none, none, false⟩, [],
    [⟨"kubectl", some "1.20.0", some "/usr/bin/kubectl", none, true, some 0⟩],
    none, [], true, none, [], none, none, none, []⟩

/-- The context of a project that declares nothing. -/
def bareContext : RuleContext where
  platformInfo := ⟨"Linux", "6.5", "x86_64", none, none, false⟩
  tools := []
  requirements := []
  policy := none
  pathAnalysis := none
  containers := none
  wsl := none
  gpu := none
  activeManager := none
  lockfiles := []
  extra := Dict.empty

/-- No pack looks at kubectl. -/
theorem kubectl_unenforced : ¬Enforced .standard bareContext kubectlPolicy kubectlMachine := by
  intro h
  have hout : Outside .standard kubectlMachine.tools ("kubectl", ">=1.28") :=
    ⟨⟨[1, 20, 0], none⟩, by decide +kernel, by decide +kernel⟩
  obtain ⟨f, hf, hname, -⟩ := h.outside ("kubectl", ">=1.28") (by decide +kernel) hout
  have hnone : ((evaluate .standard (governed bareContext kubectlPolicy kubectlMachine)).all fun f =>
      decide (f.component ≠ some (lit "kubectl"))) = true := by decide +kernel
  exact of_decide_eq_true (List.all_eq_true.mp hnone f hf) hname

end DevRepro.Rules
