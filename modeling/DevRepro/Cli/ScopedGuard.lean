import DevRepro.Project.ContractChanges
import DevRepro.Rules.PolicyCoverage

/-!
# The gate of a change

`relevant_rule_prefixes` of `project/contract.py` and the filter of `guard --scope changed`.
A finding survives when the table opens its rules for one of the changes (`mem_scopedBlocking`);
`kept_iff` says for which contexts and changes every blocking finding about a changed file does.
-/

namespace DevRepro.Cli

open DevRepro.Python DevRepro.Lib DevRepro.Core DevRepro.Project DevRepro.Rules DevRepro.Snapshots
open DevRepro.Mcp (Finding Evidence)

/-! ## The filter -/

/-- `RELEVANT_PREFIXES`; a kind without any stands for no filter. -/
def relevantPrefixes : ContractKind → List Str
  | .policy => []
  | .lockfile =>
    ["lockfiles", "python", "node", "go", "rust", "php", "ruby", "java", "dotnet", "path"]
  | .manifest =>
    ["lockfiles", "python", "node", "go", "rust", "php", "ruby", "java", "dotnet", "cpp", "path"]
  | .toolchainPin =>
    ["lockfiles", "python", "node", "go", "rust", "php", "ruby", "java", "dotnet", "path", "shell"]
  | .ci => ["python", "node", "go", "rust", "java", "dotnet", "containers", "network"]
  | .container => ["containers", "wsl", "virt"]
  | .envNames => ["env"]
  | .agentManifest => ["agents", "hygiene", "path"]

/-- The loop of `relevant_rule_prefixes`. -/
def gatherPrefixes : List ContractChange → List Str → Option (List Str)
  | [], prefixes => some prefixes
  | change :: rest, prefixes =>
    if relevantPrefixes change.kind = [] then none
    else gatherPrefixes rest (prefixes ++ relevantPrefixes change.kind)

/-- `relevant_rule_prefixes` -/
def relevantRulePrefixes (changes : List ContractChange) : Option (List Str) := gatherPrefixes changes []

/-- `rule_id.split("/", 1)[0]` -/
def packOf (ruleId : Str) : Str := ruleId.takeWhile fun c => c ≠ codePoint '/'

/-- The states that block. -/
def Blocks (f : Finding) : Prop := f.state = .error ∨ f.state = .blocked

instance instDecidableBlocks (f : Finding) : Decidable (Blocks f) :=
  inferInstanceAs (Decidable (f.state = .error ∨ f.state = .blocked))

/-- The blocking findings that `guard --scope changed` looks at. -/
def scopedBlocking (changes : List ContractChange) (findings : List Finding) : List Finding :=
  let blocking := findings.filter fun f => Blocks f
  match relevantRulePrefixes changes with
  | none => blocking
  | some prefixes => blocking.filter fun f => packOf f.ruleId ∈ prefixes

/-! ## What survives -/

/-- A change is of the policy, or of a kind with the rules of the pack in the table. -/
def Opens (changes : List ContractChange) (pack : Str) : Prop :=
  ∃ change ∈ changes, change.kind = .policy ∨ pack ∈ relevantPrefixes change.kind

theorem Opens.mono {changes larger : List ContractChange} {pack : Str} (h : Opens changes pack)
    (hsub : changes ⊆ larger) : Opens larger pack := by
  obtain ⟨change, hchange, hkind⟩ := h
  exact ⟨change, hsub hchange, hkind⟩

theorem relevantPrefixes_eq_nil_iff {kind : ContractKind} : relevantPrefixes kind = [] ↔ kind = .policy := by
  cases kind <;> simp [relevantPrefixes]

theorem gatherPrefixes_iff {pack : Str} (changes : List ContractChange) (prefixes : List Str) :
    (∀ gathered ∈ gatherPrefixes changes prefixes, pack ∈ gathered) ↔
      pack ∈ prefixes ∨ Opens changes pack := by
  induction changes generalizing prefixes with
  | nil => simp [gatherPrefixes, Opens]
  | cons change rest ih =>
    have hopens : Opens (change :: rest) pack ↔
        (change.kind = .policy ∨ pack ∈ relevantPrefixes change.kind) ∨ Opens rest pack := by
      simp only [Opens, List.exists_mem_cons_iff]
    rw [gatherPrefixes, hopens]
    by_cases hpolicy : change.kind = .policy
    · rw [if_pos (relevantPrefixes_eq_nil_iff.mpr hpolicy)]
      simp [hpolicy]
    · rw [if_neg (mt relevantPrefixes_eq_nil_iff.mp hpolicy), ih, List.mem_append]
      simp [hpolicy, or_assoc]

theorem relevantRulePrefixes_iff {changes : List ContractChange} {pack : Str} :
    (∀ gathered ∈ relevantRulePrefixes changes, pack ∈ gathered) ↔ Opens changes pack := by
  rw [relevantRulePrefixes, gatherPrefixes_iff]
  simp

/-- A finding survives if and only if it blocks and a change opens its rules. -/
theorem mem_scopedBlocking {changes : List ContractChange} {findings : List Finding} {f : Finding} :
    f ∈ scopedBlocking changes findings ↔ f ∈ findings ∧ Blocks f ∧ Opens changes (packOf f.ruleId) := by
  rw [← relevantRulePrefixes_iff, scopedBlocking]
  cases relevantRulePrefixes changes with
  | none => simp
  | some prefixes =>
    simp only [List.mem_filter, decide_eq_true_eq, and_assoc, Option.mem_def, Option.some.injEq,
      forall_eq']

/-! ## Findings about files -/

section Packs

variable {rt : RuleRuntime} {ctx : RuleContext}

/-- The evidence of the finding names the file. -/
def About (f : Finding) (path : Str) : Prop := ∃ e ∈ f.evidence, e.path = some path

/-- If it blocks, it is about no file. -/
def NoFile (f : Finding) : Prop := Blocks f → ∀ e ∈ f.evidence, e.path = none

theorem noFile_of_state {f : Finding} (h : f.state = .warn ∨ f.state = .info ∨ f.state = .unknown) :
    NoFile f := by
  rintro (hstate | hstate)
  · rw [hstate] at h
    exact absurd h (by decide)
  · rw [hstate] at h
    exact absurd h (by decide)

theorem noFile_of_evidence {f : Finding} {e : Evidence} (h : f.evidence = [e]) (hpath : e.path = none) :
    NoFile f := by
  intro _ other hother
  rw [h, List.mem_singleton] at hother
  rw [hother, hpath]

theorem noFile_ite {p : Prop} [Decidable p] {f g : Finding} (hg : NoFile g)
    (h : f ∈ if p then [g] else []) : NoFile f := by
  split_ifs at h
  · rw [List.mem_singleton.mp h]
    exact hg
  · cases h

theorem noFile_check {check : VersionRequirement} {f : Finding} (h : f ∈ checkFindings rt ctx check) :
    NoFile f := by
  have hevidence : f.evidence = check.evidence := by
    rcases mem_checkFindings_cases h with ⟨rfl, -⟩ | ⟨version, -, -, rfl | ⟨v, inRange, -, -, rfl | ⟨bad, -, -, rfl⟩⟩⟩
    · rfl
    · rfl
    · rw [VersionRequirement.verdict]
      split_ifs <;> rfl
    · rfl
  exact noFile_of_evidence (hevidence.trans rfl) rfl

theorem noFile_advisories {f : Finding} (h : f ∈ evaluateAdvisories rt ctx) : NoFile f := by
  rw [evaluateAdvisories] at h
  rcases List.mem_cons.mp h with rfl | h
  · exact noFile_of_state (Or.inr (Or.inl rfl))
  · obtain ⟨hit, -, rfl⟩ := List.mem_map.mp h
    exact noFile_of_state (Or.inl rfl)

theorem noFile_aiGpu {f : Finding} (h : f ∈ evaluateAiGpu rt ctx) : NoFile f := by
  rw [evaluateAiGpu] at h
  split at h
  · exact noFile_ite (noFile_of_state (Or.inr (Or.inr rfl))) h
  · rcases List.mem_append.mp h with h | h
    · exact noFile_ite (noFile_of_state (Or.inl rfl)) h
    · exact noFile_ite (noFile_of_state (Or.inr (Or.inl rfl))) h

theorem noFile_container {f : Finding} (h : f ∈ containerFindings ctx) : NoFile f := by
  rw [containerFindings] at h
  by_cases hneeds : needsDocker ctx = true
  · rw [if_pos hneeds] at h
    split at h
    · rw [List.mem_singleton.mp h]
      exact noFile_of_state (Or.inr (Or.inr rfl))
    · rcases List.mem_append.mp h with h | h
      · rw [engineFindings] at h
        split_ifs at h
        · rw [List.mem_singleton.mp h]
          exact noFile_of_evidence rfl rfl
        · rw [List.mem_singleton.mp h]
          exact noFile_of_evidence rfl rfl
        · cases h
      · exact noFile_ite (noFile_of_state (Or.inl rfl)) h
  · rw [if_neg hneeds] at h
    cases h

theorem noFile_wsl {f : Finding} (h : f ∈ evaluateWsl ctx) : NoFile f := by
  rw [evaluateWsl] at h
  split at h
  · cases h
  · rename_i wsl _
    by_cases havailable : wsl.available = true
    · rw [if_pos havailable] at h
      rcases List.mem_append.mp h with h | h
      · exact noFile_ite (noFile_of_state (Or.inl rfl)) h
      · exact noFile_ite (noFile_of_state (Or.inl rfl)) h
    · rw [if_neg havailable] at h
      cases h

/-- Only two packs block for what is in a file. -/
theorem pack_of_about {f : Finding} {path : Str} (h : f ∈ evaluate rt ctx) (hblocks : Blocks f)
    (habout : About f path) : f ∈ evaluateFrameworks rt ctx ∨ f ∈ evaluateLockfiles rt ctx := by
  have hfile : ¬NoFile f := by
    intro hnone
    obtain ⟨e, he, hpath⟩ := habout
    rw [hnone hblocks e he] at hpath
    cases hpath
  rcases mem_evaluate.mp h with ⟨check, -, h⟩ | h | h | h | h | h | h | h | h
  · exact absurd (noFile_check h) hfile
  · exact absurd (noFile_advisories h) hfile
  · exact absurd (noFile_aiGpu h) hfile
  · exact absurd (noFile_container h) hfile
  · exact absurd (noFile_ite (noFile_of_evidence rfl rfl) h) hfile
  · exact Or.inl h
  · exact Or.inr h
  · exact absurd (noFile_ite (noFile_of_state (Or.inl rfl)) h) hfile
  · exact absurd (noFile_wsl h) hfile

/-- The framework facts of a context. -/
def frameworkRequirements (ctx : RuleContext) : List FrameworkRequirement :=
  match ctx.extra.get? "framework_requirements" with
  | some (.frameworks requirements) => requirements
  | _ => []

/-- The native dependencies of a context. -/
def declaredNative (ctx : RuleContext) : List NativeDependency :=
  match ctx.extra.get? "native_dependencies" with
  | some (.native dependencies) => dependencies
  | _ => []

variable (rt ctx) in
/-- No version of the tool is active that meets the framework. -/
def Unmet (requirement : FrameworkRequirement) : Prop :=
  ∀ version ∈ checkedVersion ctx requirement.tool,
    satisfies rt.limits version requirement.required = some false

variable (rt ctx) in
/-- The machine cannot use a lockfile that was read. -/
def Refused (fact : LockfileFacts) : Prop :=
  fact.unreadable = false ∧ (TooOld rt ctx fact ∨ ∃ runtime, LockedOut rt ctx fact runtime)

theorem about_fileEvidence {f : Finding} {path excerpt other : Str}
    (h : f.evidence = fileEvidence path excerpt) : About f other ↔ other = path := by
  rw [About, h, fileEvidence]
  simp [eq_comm]

theorem packOf_append (framework ending : Str) :
    packOf (framework ++ codePoint '/' :: ending) = packOf framework := by
  induction framework with
  | nil => rfl
  | cons c framework ih =>
    rw [List.cons_append, packOf, packOf, List.takeWhile_cons, List.takeWhile_cons]
    split
    · exact congrArg (c :: ·) ih
    · rfl

theorem evaluateFrameworks_eq : evaluateFrameworks rt ctx =
    (frameworkRequirements ctx).filterMap (frameworkFinding rt ctx.tools) ++
      (declaredNative ctx).map nativeFinding := by
  rw [evaluateFrameworks, frameworkRequirements, declaredNative]
  congr 1
  · cases ctx.extra.get? "framework_requirements" with
    | none => rfl
    | some value => cases value <;> rfl
  · cases ctx.extra.get? "native_dependencies" with
    | none => rfl
    | some value => cases value <;> rfl

theorem mem_evaluateFrameworks {f : Finding} :
    f ∈ evaluateFrameworks rt ctx ∧ Blocks f ↔
      (∃ r ∈ frameworkRequirements ctx, frameworkFinding rt ctx.tools r = some f) ∧ Blocks f := by
  refine and_congr_left fun hblocks => ?_
  rw [evaluateFrameworks_eq, List.mem_append, List.mem_filterMap, or_iff_left]
  rw [List.mem_map]
  rintro ⟨dependency, -, rfl⟩
  rcases hblocks with hstate | hstate
  · cases hstate
  · cases hstate

/-- What the finding of a framework is about, and whose rule it is. -/
theorem frameworkFinding_about {r : FrameworkRequirement} {f : Finding}
    (h : frameworkFinding rt ctx.tools r = some f) :
    (∃ excerpt, f.evidence = fileEvidence r.source excerpt) ∧ packOf f.ruleId = packOf r.framework := by
  rw [frameworkFinding] at h
  split at h
  · cases h
    exact ⟨⟨_, rfl⟩, packOf_append _ _⟩
  · cases h
    exact ⟨⟨_, rfl⟩, packOf_append _ _⟩
  · split at h
    · cases h
    · cases h
      exact ⟨⟨_, rfl⟩, packOf_append _ _⟩
    · cases h
      exact ⟨⟨_, rfl⟩, packOf_append _ _⟩

theorem unmet_of_blocks {r : FrameworkRequirement} {f : Finding}
    (h : frameworkFinding rt ctx.tools r = some f) (hblocks : Blocks f) : Unmet rt ctx r := by
  obtain ⟨-, hstate | ⟨-, hfails⟩⟩ := frameworkFinding_cases h
  · rw [Blocks, hstate] at hblocks
    exact absurd hblocks (by decide)
  · exact hfails

theorem formatFindings_about {fact : LockfileFacts} {f : Finding} (h : f ∈ formatFindings rt ctx fact) :
    ∃ excerpt, f.evidence = fileEvidence fact.path excerpt := by
  rw [formatFindings] at h
  by_cases hminimum : isBlank fact.minimumTool = true
  · rw [if_pos hminimum] at h
    cases h
  rw [if_neg hminimum] at h
  dsimp only at h
  split at h
  · rw [List.mem_singleton.mp h]
    exact ⟨_, rfl⟩
  · split at h
    · rw [List.mem_singleton.mp h]
      exact ⟨_, rfl⟩
    · split at h
      · rw [List.mem_singleton.mp h]
        exact ⟨_, rfl⟩
      · rw [List.mem_singleton.mp h]
        exact ⟨_, rfl⟩
      · rw [List.mem_singleton.mp h]
        exact ⟨_, rfl⟩

theorem lockedRuntimeFindings_about {fact : LockfileFacts} {f : Finding}
    (h : f ∈ lockedRuntimeFindings rt ctx fact) :
    ∃ excerpt, f.evidence = fileEvidence fact.path excerpt := by
  rw [lockedRuntimeFindings] at h
  split at h
  · cases h
  · split at h
    · cases h
    · cases h
    · split at h
      · rw [List.mem_singleton.mp h]
        exact ⟨_, rfl⟩
      · cases h
      · rw [List.mem_singleton.mp h]
        exact ⟨_, rfl⟩

/-- The lockfiles that block are those that the machine cannot use. -/
theorem mem_evaluateLockfiles {f : Finding} (h : f ∈ evaluateLockfiles rt ctx) (hblocks : Blocks f) :
    ∃ fact ∈ ctx.lockfiles, Refused rt ctx fact ∧
      (∃ excerpt, f.evidence = fileEvidence fact.path excerpt) ∧ packOf f.ruleId = "lockfiles" := by
  obtain ⟨fact, hfact, h⟩ := List.mem_flatMap.mp h
  refine ⟨fact, hfact, ?_⟩
  cases hreadable : fact.unreadable with
  | true =>
    rw [hreadable, if_pos rfl, List.mem_singleton] at h
    rw [h] at hblocks
    rcases hblocks with hstate | hstate <;> cases hstate
  | false =>
    rw [hreadable, if_neg Bool.false_ne_true, List.mem_append] at h
    rcases h with h | h
    · obtain ⟨-, ⟨-, hstate, -⟩ | ⟨-, hstate⟩ | ⟨-, hstate⟩ | ⟨hrule, -, hold⟩⟩ := mem_formatFindings h
      · rw [Blocks, hstate] at hblocks
        exact absurd hblocks (by decide)
      · rw [Blocks, hstate] at hblocks
        exact absurd hblocks (by decide)
      · rw [Blocks, hstate] at hblocks
        exact absurd hblocks (by decide)
      · exact ⟨⟨hreadable, Or.inl hold⟩, formatFindings_about h, by rw [hrule]; decide⟩
    · obtain ⟨runtime, -, ⟨-, hstate⟩ | ⟨hrule, -, hout⟩⟩ := mem_lockedRuntimeFindings h
      · rw [Blocks, hstate] at hblocks
        exact absurd hblocks (by decide)
      · exact ⟨⟨hreadable, Or.inr ⟨runtime, hout⟩⟩, lockedRuntimeFindings_about h, by rw [hrule]; decide⟩

/-- A lockfile that the machine cannot use blocks. -/
theorem exists_refused {fact : LockfileFacts} (hfact : fact ∈ ctx.lockfiles) (h : Refused rt ctx fact) :
    ∃ f ∈ evaluateLockfiles rt ctx, Blocks f ∧ About f fact.path ∧ packOf f.ruleId = "lockfiles" := by
  obtain ⟨hreadable, hold⟩ := h
  have hmem : ∀ f, f ∈ formatFindings rt ctx fact ++ lockedRuntimeFindings rt ctx fact →
      f ∈ evaluateLockfiles rt ctx := by
    intro f hf
    refine List.mem_flatMap.mpr ⟨fact, hfact, ?_⟩
    rw [hreadable, if_neg Bool.false_ne_true]
    exact hf
  have hfinding : ∃ f ∈ formatFindings rt ctx fact ++ lockedRuntimeFindings rt ctx fact, f.state = .error ∧
      ∃ excerpt, f.evidence = fileEvidence fact.path excerpt := by
    rcases hold with hold | ⟨runtime, hout⟩
    · obtain ⟨f, hf, hstate, -⟩ := exists_formatFinding hold
      exact ⟨f, List.mem_append_left _ hf, hstate, formatFindings_about hf⟩
    · obtain ⟨f, hf, hstate, -⟩ := exists_lockedRuntimeFinding hout
      exact ⟨f, List.mem_append_right _ hf, hstate, lockedRuntimeFindings_about hf⟩
  obtain ⟨f, hf, hstate, excerpt, hevidence⟩ := hfinding
  obtain ⟨-, -, -, -, hrule⟩ := mem_evaluateLockfiles (hmem f hf) (Or.inl hstate)
  exact ⟨f, hmem f hf, Or.inl hstate, (about_fileEvidence hevidence).mpr rfl, hrule⟩

end Packs

/-! ## What a change is about -/

variable (rt : RuleRuntime) (ctx : RuleContext) (changes : List ContractChange)

/-- Every blocking finding about a changed file survives, and more changes keep what survives. -/
structure Kept : Prop where
  about : ∀ f ∈ evaluate rt ctx, Blocks f → (∃ change ∈ changes, About f change.path) →
    f ∈ scopedBlocking changes (evaluate rt ctx)
  grows : ∀ f ∈ scopedBlocking changes (evaluate rt ctx), ∀ larger, changes ⊆ larger →
    f ∈ scopedBlocking larger (evaluate rt ctx)

/-- The changes open the rules of the lockfiles and of the frameworks that fail in their files. -/
structure Covered : Prop where
  lockfiles : ∀ fact ∈ ctx.lockfiles, Refused rt ctx fact →
    fact.path ∈ changes.map ContractChange.path → Opens changes "lockfiles"
  frameworks : ∀ r ∈ frameworkRequirements ctx, Unmet rt ctx r →
    r.source ∈ changes.map ContractChange.path → Opens changes (packOf r.framework)

variable {rt ctx changes}

theorem Kept.covered (h : Kept rt ctx changes) : Covered rt ctx changes := by
  constructor
  · intro fact hfact hrefused hpath
    obtain ⟨change, hchange, hsame⟩ := List.mem_map.mp hpath
    obtain ⟨f, hf, hblocks, hfile, hrule⟩ := exists_refused hfact hrefused
    have hkept := h.about f (mem_evaluate.mpr (by tauto)) hblocks
      ⟨change, hchange, by rw [hsame]; exact hfile⟩
    rw [← hrule]
    exact (mem_scopedBlocking.mp hkept).2.2
  · intro r hr hunmet hpath
    obtain ⟨change, hchange, hsame⟩ := List.mem_map.mp hpath
    obtain ⟨f, hf, -, hstate⟩ := exists_frameworkFinding hunmet
    obtain ⟨⟨excerpt, hevidence⟩, hrule⟩ := frameworkFinding_about hf
    have hframework := (mem_evaluateFrameworks.mpr ⟨⟨r, hr, hf⟩, Or.inr hstate⟩).1
    have hkept := h.about f (mem_evaluate.mpr (by tauto)) (Or.inr hstate)
      ⟨change, hchange, (about_fileEvidence hevidence).mpr hsame⟩
    rw [← hrule]
    exact (mem_scopedBlocking.mp hkept).2.2

/-- More changes open more rules. -/
theorem scopedBlocking_mono {findings : List Finding} {larger : List ContractChange} (hsub : changes ⊆ larger)
    {f : Finding} (hf : f ∈ scopedBlocking changes findings) : f ∈ scopedBlocking larger findings := by
  obtain ⟨hmem, hblocks, hopens⟩ := mem_scopedBlocking.mp hf
  exact mem_scopedBlocking.mpr ⟨hmem, hblocks, hopens.mono hsub⟩

theorem Covered.kept (h : Covered rt ctx changes) : Kept rt ctx changes := by
  constructor
  · rintro f hf hblocks ⟨change, hchange, hfile⟩
    refine mem_scopedBlocking.mpr ⟨hf, hblocks, ?_⟩
    have hpath := List.mem_map_of_mem (f := ContractChange.path) hchange
    rcases pack_of_about hf hblocks hfile with hpack | hpack
    · obtain ⟨⟨r, hr, hfinding⟩, -⟩ := mem_evaluateFrameworks.mp ⟨hpack, hblocks⟩
      obtain ⟨⟨excerpt, hevidence⟩, hrule⟩ := frameworkFinding_about hfinding
      rw [hrule]
      rw [(about_fileEvidence hevidence).mp hfile] at hpath
      exact h.frameworks r hr (unmet_of_blocks hfinding hblocks) hpath
    · obtain ⟨fact, hfact, hrefused, ⟨excerpt, hevidence⟩, hrule⟩ := mem_evaluateLockfiles hpack hblocks
      rw [hrule]
      rw [(about_fileEvidence hevidence).mp hfile] at hpath
      exact h.lockfiles fact hfact hrefused hpath
  · exact fun f hf larger hsub => scopedBlocking_mono hsub hf

variable (rt ctx changes)

/-- The gate keeps what the changes are about if and only if they open the rules of the lockfiles
and of the frameworks that fail in the changed files. -/
theorem kept_iff : Kept rt ctx changes ↔ Covered rt ctx changes := ⟨Kept.covered, Covered.kept⟩

/-! ## The frameworks of the code -/

/-- The frameworks that `detect_frameworks` knows. -/
def frameworkNames : List Str := ["next", "django", "spring-boot"]

variable {rt ctx changes}

/-- The table has no rules of frameworks: only a change of the policy opens them. -/
theorem opens_framework_iff {framework : Str} (h : framework ∈ frameworkNames) :
    Opens changes (packOf framework) ↔ ∃ change ∈ changes, change.kind = .policy := by
  have hnone : ∀ kind : ContractKind, packOf framework ∉ relevantPrefixes kind := by
    intro kind
    have htable : (frameworkNames.all fun name =>
        decide (packOf name ∉ relevantPrefixes kind)) = true := by
      cases kind <;> decide
    exact of_decide_eq_true (List.all_eq_true.mp htable framework h)
  simp only [Opens, hnone, or_false]

def nextRequirement : FrameworkRequirement :=
  ⟨"next", "^15.0.0", "node", ">=18.18.0", "package.json", "Next.js 15 requires Node 18.18.0 or newer."⟩

/-- Next 15 on a machine with Node 18.0. -/
def nextContext : RuleContext :=
  { bareContext with
    tools := [⟨"node", some "18.0.0", some "/usr/bin/node", none, true, some 0⟩]
    extra := Dict.empty.set "framework_requirements" (.frameworks [nextRequirement]) }

/-- The commit that adds Next 15 to `package.json` passes the gate. -/
theorem framework_blocker_dropped :
    ¬(∀ (rt : RuleRuntime) (ctx : RuleContext) (changes : List ContractChange), changes ≠ [] →
      Kept rt ctx changes) := by
  intro h
  have hcovered := (h .standard nextContext [⟨"package.json", .manifest⟩] (by decide)).covered
  have hunmet : Unmet .standard nextContext nextRequirement := by
    intro version hversion
    obtain rfl : lit "18.0.0" = version := Option.some.inj hversion
    decide +kernel
  have hopens := hcovered.frameworks nextRequirement List.mem_cons_self hunmet (by decide)
  exact absurd ((opens_framework_iff (by decide)).mp hopens) (by decide)

end DevRepro.Cli
