import DevRepro.Diff.Tools
import DevRepro.Exporters.Bundle
import DevRepro.Rules.Base

/-!
# The active version of a tool

Four folds over the installations of a report answer which version of a tool is
active.  For the installations of the name that are active, `active_versions`
takes the first version, `active_tool` the first installation, `snapshot_facts`
the first readable version and `build_setup_steps` the last one.

`same_version_iff` says when the four agree: the first active installation has a
readable version, and the last active one that has a readable version has the
same.
-/

namespace DevRepro.Rules

open DevRepro.Python DevRepro.Snapshots DevRepro.Server DevRepro.Exporters

/-! ## The installations of a name -/

/-- The version of an installation, if a reader can make something of it. -/
def readable (t : ToolInstallation) : Option Str := t.version.filter fun version => version ≠ []

/-- The installations listed under a name. -/
def named (tools : List ToolInstallation) (name : Str) : List ToolInstallation :=
  tools.filter fun t => t.name = name

/-- The active ones among them. -/
def actives (tools : List ToolInstallation) (name : Str) : List ToolInstallation :=
  (named tools name).filter ToolInstallation.isActive

theorem readable_eq_some {t : ToolInstallation} {version : Str} :
    readable t = some version ↔ t.version = some version ∧ version ≠ [] := by
  rw [readable, Option.filter_eq_some_iff, decide_eq_true_iff]

theorem named_snoc (tools : List ToolInstallation) (t : ToolInstallation) (name : Str) :
    named (tools ++ [t]) name = named tools name ++ if t.name = name then [t] else [] := by
  rw [named, List.filter_append]
  by_cases h : t.name = name
  · rw [if_pos h]
    simp [named, h]
  · rw [if_neg h]
    simp [named, h]

theorem actives_snoc (tools : List ToolInstallation) (t : ToolInstallation) (name : Str) :
    actives (tools ++ [t]) name =
      actives tools name ++ if t.name = name ∧ t.isActive = true then [t] else [] := by
  rw [actives, named_snoc, List.filter_append]
  by_cases hname : t.name = name
  · by_cases hactive : t.isActive = true
    · simp [actives, hname, hactive]
    · simp [actives, hname, hactive]
  · simp [actives, hname]

/-! ## The four answers -/

/-- `active_versions` takes the first version of an active installation. -/
theorem activeVersions_eq (tools : List ToolInstallation) (name : Str) :
    (tools.foldl recordVersion (fun _ => none) name).join =
      (actives tools name).findSome? ToolInstallation.version := by
  induction tools using List.reverseRecOn with
  | nil => rfl
  | append_singleton tools t ih =>
    rw [List.foldl_append, actives_snoc, List.findSome?_append, ← ih]
    generalize tools.foldl recordVersion (fun _ => none) = versions
    rw [List.foldl_cons, List.foldl_nil, recordVersion]
    by_cases hname : t.name = name
    · rw [hname]
      by_cases hactive : t.isActive = true
      · by_cases hnone : (versions name).join = none
        · simp [hactive, hnone]
        · rcases Option.ne_none_iff_exists'.mp hnone with ⟨version, hversion⟩
          simp [hactive, hversion]
      · simp [hactive]
    · rw [if_neg (c := t.name = name ∧ t.isActive = true) (fun h => hname h.1), List.findSome?_nil,
        Option.or_none]
      split_ifs
      · rw [Function.update_of_ne (Ne.symm hname)]
      · rfl

/-- `active_tool` takes the first active installation, when there is one. -/
theorem activeTool_eq {tools : List ToolInstallation} {name : Str} (h : actives tools name ≠ []) :
    activeTool tools name = (actives tools name).head? := by
  have hfind : ((named tools name).find? ToolInstallation.isActive) = (actives tools name).head? :=
    (List.head?_filter).symm
  rw [activeTool]
  show ((named tools name).find? ToolInstallation.isActive).or _ = _
  rw [hfind]
  cases hactives : actives tools name with
  | nil => exact absurd hactives h
  | cons t rest => rfl

variable {rt : Runtime}

/-- The fields of a tool in a report. -/
def toolFields (t : ToolInstallation) : List (Str × Json) :=
  [("name", .str t.name), ("version", Mcp.optStr t.version), ("exe_path", Mcp.optStr t.exePath),
    ("install_source", Mcp.optStr t.installSource), ("is_active", .bool t.isActive),
    ("precedence", optInt t.precedence)]

theorem modelDump_eq (t : ToolInstallation) : t.modelDump = .obj (toolFields t) := rfl

theorem field_name (t : ToolInstallation) : field (toolFields t) "name" = .str t.name := rfl

theorem field_version (t : ToolInstallation) :
    field (toolFields t) "version" = Mcp.optStr t.version := rfl

theorem field_is_active (t : ToolInstallation) :
    field (toolFields t) "is_active" = .bool t.isActive := rfl

theorem truthy_str (s : Str) : (Json.str s).truthy = decide (s ≠ []) := by
  cases s with
  | nil => rfl
  | cons c rest => rfl

theorem truthy_version (t : ToolInstallation) :
    (Mcp.optStr t.version).truthy = (readable t).isSome := by
  rw [readable]
  cases t.version with
  | none => rfl
  | some version =>
    cases version with
    | nil => rfl
    | cons c rest => rfl

theorem addTool_modelDump (tools : List (Str × Str)) (t : ToolInstallation) :
    addTool rt tools t.modelDump = .ok
      (match readable t with
        | some version =>
          if t.isActive = true ∧ (getTool tools t.name).getD [] = [] then setTool t.name version tools
          else tools
        | none => tools) := by
  rw [modelDump_eq, addTool, field_is_active, field_name, field_version]
  dsimp only
  rw [truthy_version]
  by_cases hactive : t.isActive = true
  · rw [if_neg (by simp [Json.truthy, hactive])]
    cases hreadable : readable t with
    | none => simp
    | some version =>
      rw [(readable_eq_some.mp hreadable).1]
      by_cases hnew : (getTool tools t.name).getD [] = []
      · simp [hactive, hnew, Mcp.optStr, Json.toStr, Except.map]
      · simp [hnew]
  · rw [if_pos (by simp [Json.truthy, hactive])]
    cases readable t with
    | none => rfl
    | some version => simp [hactive]

/-- `snapshot_facts` takes the first readable version of an active installation. -/
theorem activeTools_eq (tools : List ToolInstallation) :
    ∃ active, (tools.map ToolInstallation.modelDump).foldlM (addTool rt) [] = .ok active ∧
      ∀ name, getTool active name = (actives tools name).findSome? readable := by
  induction tools using List.reverseRecOn with
  | nil => exact ⟨[], rfl, fun _ => rfl⟩
  | append_singleton tools t ih =>
    rcases ih with ⟨active, hfold, hactive⟩
    rw [List.map_append, List.foldlM_append, hfold]
    have hlast : ([t].map ToolInstallation.modelDump).foldlM (addTool rt) active =
        addTool rt active t.modelDump := by
      simp
    refine ⟨_, hlast.trans (addTool_modelDump active t), fun name => ?_⟩
    rw [actives_snoc, List.findSome?_append, ← hactive]
    have hempty : (getTool active t.name).getD [] = [] ↔ getTool active t.name = none := by
      rw [hactive]
      cases hfound : (actives tools t.name).findSome? readable with
      | none => simp
      | some version =>
        rcases List.exists_of_findSome?_eq_some hfound with ⟨u, _, hu⟩
        simp [(readable_eq_some.mp hu).2]
    cases hreadable : readable t with
    | none =>
      dsimp only
      split_ifs
      · simp [hreadable]
      · simp
    | some version =>
      simp only [hempty]
      by_cases hname : t.name = name
      · rw [hname]
        by_cases his : t.isActive = true
        · cases hfound : getTool active name with
          | none => simp [his, hreadable, getTool_setTool]
          | some old => simp [his, hfound]
        · simp [his]
      · have hother : getTool (if t.isActive = true ∧ getTool active t.name = none then
            setTool t.name version active else active) name = getTool active name := by
          split_ifs
          · rw [getTool_setTool, if_neg (Ne.symm hname)]
          · rfl
        rw [hother, if_neg (fun h => hname h.1)]
        simp

theorem entryName_toolFields (t : ToolInstallation) : entryName rt (toolFields t) = .ok t.name := by
  rw [entryName, field_name, Json.orElse, truthy_str]
  cases t.name with
  | nil => rfl
  | cons c rest => rfl

theorem matchTool_toolFields (active : List (Str × Str)) (t : ToolInstallation) :
    matchTool rt active (toolFields t) = .ok
      (match readable t with
        | some version =>
          if t.name ≠ [] ∧ (t.isActive = true ∨ getTool active t.name = none) then
            setTool t.name version active
          else active
        | none => active) := by
  rw [matchTool, entryName_toolFields, field_version, field_is_active, truthy_version]
  dsimp only [bind, Except.bind]
  cases hreadable : readable t with
  | none => simp [pure, Except.pure]
  | some version =>
    rw [(readable_eq_some.mp hreadable).1]
    by_cases hset : t.name ≠ [] ∧ (t.isActive = true ∨ getTool active t.name = none)
    · dsimp only
      rw [if_pos hset, if_pos ⟨hset.1, rfl, hset.2⟩]
      rfl
    · dsimp only
      rw [if_neg hset, if_neg (fun h => hset ⟨h.1, h.2.2⟩)]
      rfl

/-- `build_setup_steps` takes the last readable version of an active installation, or the
first one of any installation. -/
theorem setupFold_eq (tools : List ToolInstallation) :
    ∃ active, (tools.map toolFields).foldlM (matchTool rt) [] = .ok active ∧
      ∀ name, getTool active name =
        if name = [] then none
        else ((actives tools name).reverse.findSome? readable).or
          ((named tools name).findSome? readable) := by
  induction tools using List.reverseRecOn with
  | nil => exact ⟨[], rfl, fun name => by split_ifs <;> rfl⟩
  | append_singleton tools t ih =>
    rcases ih with ⟨active, hfold, hactive⟩
    rw [List.map_append, List.foldlM_append, hfold]
    have hlast : ([t].map toolFields).foldlM (matchTool rt) active =
        matchTool rt active (toolFields t) := by
      simp
    refine ⟨_, hlast.trans (matchTool_toolFields active t), fun name => ?_⟩
    rw [actives_snoc, named_snoc, List.findSome?_append, List.reverse_append, List.findSome?_append]
    by_cases hname : t.name = name
    · rw [hname]
      by_cases hempty : name = []
      · rw [if_pos hempty]
        have hnone : getTool active name = none := by rw [hactive, if_pos hempty]
        cases readable t with
        | none => exact hnone
        | some version =>
          dsimp only
          rw [if_neg (fun h => h.1 hempty)]
          exact hnone
      · rw [if_neg hempty]
        have hold := hactive name
        rw [if_neg hempty] at hold
        cases hreadable : readable t with
        | none =>
          dsimp only
          rw [hold]
          by_cases his : t.isActive = true
          · simp [his, hreadable]
          · simp [his, hreadable]
        | some version =>
          dsimp only
          by_cases his : t.isActive = true
          · rw [if_pos ⟨hempty, Or.inl his⟩, getTool_setTool, if_pos rfl, if_pos ⟨rfl, his⟩]
            simp [hreadable]
          · rw [if_neg (c := name = name ∧ t.isActive = true) (fun h => his h.2)]
            cases hfound : getTool active name with
            | none =>
              rw [if_pos ⟨hempty, Or.inr rfl⟩, getTool_setTool, if_pos rfl]
              rw [hold, Option.or_eq_none_iff] at hfound
              simp [hfound.1, hfound.2, hreadable]
            | some old =>
              rw [if_neg (by simp [his]), hfound]
              rw [hold] at hfound
              simp only [if_true, List.reverse_nil, List.findSome?_nil, Option.none_or]
              rw [← Option.or_assoc, hfound, Option.some_or]
    · have hkeep : getTool (match readable t with
          | some version =>
            if t.name ≠ [] ∧ (t.isActive = true ∨ getTool active t.name = none) then
              setTool t.name version active
            else active
          | none => active) name = getTool active name := by
        cases readable t with
        | none => rfl
        | some version =>
          dsimp only
          split_ifs
          · rw [getTool_setTool, if_neg (Ne.symm hname)]
          · rfl
      rw [hkeep, hactive, if_neg (c := t.name = name ∧ t.isActive = true) (fun h => hname h.1),
        if_neg (c := t.name = name) hname]
      simp

/-! ## Agreement -/

/-- The version that `active_versions` gives. -/
def reportedVersion (report : ScanReport) (name : Str) : Option Str :=
  (activeVersions report name).join

/-- The version of `active_tool`. -/
def ruleVersion (report : ScanReport) (name : Str) : Option Str :=
  (activeTool report.tools name).bind ToolInstallation.version

/-- The version that `snapshot_facts` tells about a stored report. -/
def factVersion (rt : Runtime) (report : ScanReport) (name : Str) : Option Str :=
  (activeTools rt report.items).toOption.bind fun active => getTool active name

/-- The version that `build_setup_steps` prints. -/
def stepVersion (rt : Runtime) (report : ScanReport) (name : Str) : Option Str :=
  (setupVersions rt report.items).toOption.bind fun active => getTool active name

/-- The four answers are the same, and no check reports the tool as missing. -/
structure SameVersion (rt : Runtime) (report : ScanReport) (name : Str) : Prop where
  rule : ruleVersion report name = reportedVersion report name
  fact : factVersion rt report name = reportedVersion report name
  step : stepVersion rt report name = reportedVersion report name
  found : ∀ r f, f ∈ checkVersionRequirement rt r (activeTool report.tools name) →
    f.ruleId ≠ r.rulePrefix ++ lit "/missing"

theorem reportedVersion_eq (report : ScanReport) (name : Str) :
    reportedVersion report name = (actives report.tools name).findSome? ToolInstallation.version :=
  activeVersions_eq report.tools name

theorem factVersion_eq (report : ScanReport) (name : Str) :
    factVersion rt report name = (actives report.tools name).findSome? readable := by
  rcases @activeTools_eq rt report.tools with ⟨active, hfold, hactive⟩
  have hfield : field report.items "tools" = .arr (report.tools.map ToolInstallation.modelDump) := rfl
  have hok : activeTools rt report.items = .ok active := by
    rw [activeTools, hfield, Json.orElse]
    split_ifs with htruthy
    · exact hfold
    · have hnil : report.tools.map ToolInstallation.modelDump = [] := by
        cases htools : report.tools.map ToolInstallation.modelDump with
        | nil => rfl
        | cons t rest =>
          rw [htools] at htruthy
          exact absurd rfl htruthy
      rw [hnil] at hfold
      exact hfold
  rw [factVersion, hok]
  exact hactive name

theorem stepVersion_eq (report : ScanReport) (name : Str) :
    stepVersion rt report name = if name = [] then none
      else ((actives report.tools name).reverse.findSome? readable).or
        ((named report.tools name).findSome? readable) := by
  rcases @setupFold_eq rt report.tools with ⟨active, hfold, hactive⟩
  have hfield : field report.items "tools" = .arr (report.tools.map ToolInstallation.modelDump) := rfl
  have hentries : entriesOf report.items "tools" = .ok (report.tools.map toolFields) := by
    have hdicts : dictsOf (report.tools.map ToolInstallation.modelDump) = report.tools.map toolFields := by
      rw [dictsOf, List.filterMap_map]
      show List.filterMap (some ∘ toolFields) report.tools = _
      rw [List.filterMap_eq_map]
    rw [entriesOf, hfield, Json.orElse]
    split_ifs with htruthy
    · exact congrArg Except.ok hdicts
    · have hnil : report.tools = [] := by
        cases htools : report.tools with
        | nil => rfl
        | cons t rest =>
          rw [htools] at htruthy
          exact absurd rfl htruthy
      rw [hnil]
      rfl
  have hok : setupVersions rt report.items = .ok active := by
    rw [setupVersions, hentries]
    exact hfold
  rw [stepVersion, hok]
  exact hactive name

theorem ruleVersion_eq {report : ScanReport} {name : Str} (h : actives report.tools name ≠ []) :
    ruleVersion report name = (actives report.tools name).head?.bind ToolInstallation.version := by
  rw [ruleVersion, activeTool_eq h]

/-- No check reports a tool as missing exactly when it has a version. -/
theorem found_iff {active : Option ToolInstallation} :
    (∀ r f, f ∈ checkVersionRequirement rt r active → f.ruleId ≠ r.rulePrefix ++ lit "/missing") ↔
      (active.bind ToolInstallation.version).getD [] ≠ [] := by
  constructor
  · intro h hempty
    have hmissing := @reports_missing_iff rt ⟨[], [], [], [], [], .blocked, []⟩ active
    rcases hmissing.mpr hempty with ⟨f, hf, hid⟩
    exact h _ f hf hid
  · intro hversion r f hf hid
    exact hversion (reports_missing_iff.mp ⟨f, hf, hid⟩)

/-- The four folds agree on a tool with a readable active version exactly when the first
active installation has a readable version, and the last active one with a readable
version has the same. -/
theorem same_version_iff (rt : Runtime) (report : ScanReport) (name : Str)
    (hreadable : ∃ t ∈ report.tools, t.name = name ∧ t.isActive = true ∧ readable t ≠ none) :
    SameVersion rt report name ↔
      name ≠ [] ∧ ∃ version, (actives report.tools name).head?.bind readable = some version ∧
        (actives report.tools name).reverse.findSome? readable = some version := by
  rcases hreadable with ⟨t, ht, hname, hactive, hversion⟩
  have hmem : t ∈ actives report.tools name := by
    simp [actives, named, ht, hname, hactive]
  have hne : actives report.tools name ≠ [] := List.ne_nil_of_mem hmem
  constructor
  · intro h
    have hstep := h.step
    have hrule := h.rule
    have hfound := found_iff.mp h.found
    rw [← h.fact, factVersion_eq] at hstep hrule
    have hsome : ∃ version, (actives report.tools name).findSome? readable = some version := by
      rw [← Option.isSome_iff_exists, List.findSome?_isSome_iff]
      exact ⟨t, hmem, Option.isSome_iff_ne_none.mpr hversion⟩
    rcases hsome with ⟨version, hfirst⟩
    have hlast : ∃ last, (actives report.tools name).reverse.findSome? readable = some last := by
      rw [← Option.isSome_iff_exists, List.findSome?_isSome_iff]
      exact ⟨t, List.mem_reverse.mpr hmem, Option.isSome_iff_ne_none.mpr hversion⟩
    rcases hlast with ⟨last, hlast⟩
    rw [stepVersion_eq, hlast, Option.some_or, hfirst] at hstep
    rw [hfirst] at hrule
    by_cases hempty : name = []
    · rw [if_pos hempty] at hstep
      cases hstep
    · rw [if_neg hempty, Option.some.injEq] at hstep
      refine ⟨hempty, version, ?_, ?_⟩
      · have hnonempty : version ≠ [] := by
          rw [ruleVersion] at hrule
          rw [hrule] at hfound
          exact hfound
        rw [ruleVersion_eq hne] at hrule
        rcases Option.bind_eq_some_iff.mp hrule with ⟨head, hhead, hheadversion⟩
        rw [hhead]
        exact readable_eq_some.mpr ⟨hheadversion, hnonempty⟩
      · rw [hlast, hstep]
  · intro ⟨hempty, version, hhead, hlast⟩
    rcases Option.bind_eq_some_iff.mp hhead with ⟨first, hfirst, hfirstreadable⟩
    have hfirstversion := (readable_eq_some.mp hfirstreadable).1
    have hcons : ∃ rest, actives report.tools name = first :: rest := by
      rw [List.head?_eq_some_iff] at hfirst
      exact hfirst
    rcases hcons with ⟨rest, hcons⟩
    have hreported : reportedVersion report name = some version := by
      rw [reportedVersion_eq, hcons, List.findSome?_cons, hfirstversion]
    have hrule : ruleVersion report name = some version := by
      rw [ruleVersion_eq hne, hfirst]
      exact hfirstversion
    constructor
    · rw [hrule, hreported]
    · rw [factVersion_eq, hreported, hcons, List.findSome?_cons, hfirstreadable]
    · rw [stepVersion_eq, if_neg hempty, hlast, hreported]
      rfl
    · apply found_iff.mpr
      rw [ruleVersion] at hrule
      rw [hrule]
      exact (readable_eq_some.mp hfirstreadable).2

/-! ## An alias in front of an interpreter -/

namespace Sample

/-- An installation of Python on the `PATH`. -/
def python (version : Option Str) : ToolInstallation := ⟨"python", version, none, none, true, none⟩

/-- A stub without a version, and the interpreter behind it. -/
def aliased : ScanReport := Diff.Sample.reportOf [python none, python (some "3.14.7")]

/-- The interpreter alone. -/
def plain : ScanReport := Diff.Sample.reportOf [python (some "3.14.7")]

end Sample

/-- The rules call a tool missing that has an active version. -/
theorem aliased_tool_missing :
    (∃ t ∈ Sample.aliased.tools, t.name = lit "python" ∧ t.isActive = true ∧ readable t ≠ none) ∧
      ¬SameVersion .standard Sample.aliased "python" := by
  refine ⟨by decide, fun h => ?_⟩
  have hrule := h.rule
  revert hrule
  decide

/-- One installation is the same for all. -/
theorem same_version_iff_plain :
    SameVersion .standard Sample.plain "python" ↔
      lit "python" ≠ [] ∧ ∃ version,
        (actives Sample.plain.tools "python").head?.bind readable = some version ∧
          (actives Sample.plain.tools "python").reverse.findSome? readable = some version :=
  same_version_iff .standard Sample.plain "python" (by decide)

end DevRepro.Rules
