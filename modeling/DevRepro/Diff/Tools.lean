import DevRepro.Diff.Symmetry

/-!
# Which tool drift a diff reports

A scan resolves several installations of one name with `active_versions`: the
first readable version of an active one.  The diff resolves them in another
way: it keeps the last installation listed under the name, active or not.

`LastDiffers` says that the diff sees a difference, and `toolEntry_reports` that
it reports one then and only then.  So a change of the active version is
reported exactly when the last installations listed differ as well, which
`drift_reported_iff` states and `drift_masked` refutes in general.
-/

namespace DevRepro.Diff

open DevRepro.Python DevRepro.Snapshots

/-- The last installations listed under a name differ in version or in
executable, or only one side lists the name. -/
def LastDiffers (a b : List ToolInstallation) (name : Str) : Prop :=
  match lastNamed a name, lastNamed b name with
  | none, none => False
  | some ta, some tb =>
    ta.version.getD [] ≠ tb.version.getD [] ∨ ta.exePath.getD [] ≠ tb.exePath.getD []
  | _, _ => True

/-- A diff has a tool entry of a name that is not `SAME`. -/
def ReportsTool (entries : List DiffEntry) (name : Str) : Prop :=
  ∃ e ∈ entries, e.component = lit "tool" ∧ e.name = name ∧ e.classification ≠ .same

/-! ## The tool section -/

theorem toolEntry_shape {critical : Bool} {name : Str} {ta tb : Option ToolInstallation}
    {e : DiffEntry} (h : toolEntry critical name ta tb = some e) :
    e.component = lit "tool" ∧ e.name = name := by
  cases ta with
  | none =>
    cases tb with
    | none => cases h
    | some tb => cases h; exact ⟨rfl, rfl⟩
  | some ta =>
    cases tb with
    | none => cases h; exact ⟨rfl, rfl⟩
    | some tb =>
      rw [toolEntry] at h
      split_ifs at h
      · cases h
        exact ⟨rfl, rfl⟩
      · cases h
        exact ⟨rfl, rfl⟩
      · cases h
        exact ⟨rfl, rfl⟩

/-- The entry of a name is a difference exactly when the last installations
differ. -/
theorem toolEntry_reports {critical : Bool} {name : Str} {a b : List ToolInstallation} :
    (∃ e, toolEntry critical name (lastNamed a name) (lastNamed b name) = some e ∧
      e.classification ≠ .same) ↔ LastDiffers a b name := by
  rw [LastDiffers]
  cases lastNamed a name with
  | none =>
    cases lastNamed b name with
    | none => simp [toolEntry]
    | some tb => simp [toolEntry]
  | some ta =>
    cases lastNamed b name with
    | none => simp [toolEntry]
    | some tb =>
      by_cases hversion : ta.version.getD [] = tb.version.getD []
      · by_cases hpath : ta.exePath.getD [] = tb.exePath.getD []
        · simp [toolEntry, hversion, hpath]
        · simp [toolEntry, hversion, hpath]
      · simp [toolEntry, hversion]

theorem lastNamed_isSome_iff {tools : List ToolInstallation} {name : Str} :
    (lastNamed tools name).isSome = true ↔ name ∈ tools.map ToolInstallation.name := by
  simp [lastNamed, List.find?_isSome]

/-- A name with different last installations is one that a side lists. -/
theorem mem_toolNames_of_lastDiffers {a b : List ToolInstallation} {name : Str}
    (h : LastDiffers a b name) : name ∈ toolNames a b := by
  have hmem : name ∈ a.map ToolInstallation.name ∨ name ∈ b.map ToolInstallation.name := by
    rw [← lastNamed_isSome_iff, ← lastNamed_isSome_iff]
    rw [LastDiffers] at h
    cases ha : lastNamed a name with
    | some ta => exact Or.inl rfl
    | none =>
      cases hb : lastNamed b name with
      | some tb => exact Or.inr rfl
      | none => simp [ha, hb] at h
  rw [toolNames, List.mem_mergeSort, List.mem_dedup, List.mem_append]
  exact hmem

theorem toolEntries_reports_iff (a b : Snapshot) (name : Str) :
    ReportsTool (toolEntries a b) name ↔ LastDiffers a.tools b.tools name := by
  constructor
  · intro ⟨e, he, _, hname, hclass⟩
    rcases List.mem_filterMap.mp he with ⟨other, _, hentry⟩
    have hother : other = name := (toolEntry_shape hentry).2.symm.trans hname
    rw [hother] at hentry
    exact toolEntry_reports.mp ⟨e, hentry, hclass⟩
  · intro h
    rcases toolEntry_reports.mpr h with ⟨e, hentry, hclass⟩
    exact ⟨e, List.mem_filterMap.mpr ⟨name, mem_toolNames_of_lastDiffers h, hentry⟩,
      (toolEntry_shape hentry).1, (toolEntry_shape hentry).2, hclass⟩

/-! ## The other sections -/

/-- No entry is about a tool. -/
def NoTool (entries : List DiffEntry) : Prop := ∀ e ∈ entries, e.component ≠ lit "tool"

theorem NoTool.append {xs ys : List DiffEntry} (h : NoTool xs) (h' : NoTool ys) :
    NoTool (xs ++ ys) := by
  intro e he
  rcases List.mem_append.mp he with he | he
  · exact h e he
  · exact h' e he

theorem compareOptional_noTool {component name detail : Str} {x y : Option Str}
    {classification : DiffClassification} {critical : Bool} (h : component ≠ lit "tool") :
    NoTool (compareOptional component name x y classification detail critical) := by
  intro e he
  rw [compareOptional] at he
  split_ifs at he
  · cases he
  · rw [List.mem_singleton.mp he]
    exact h

theorem noTool_flatMap {α : Type} {xs : List α} {f : α → List DiffEntry}
    (h : ∀ x ∈ xs, NoTool (f x)) : NoTool (xs.flatMap f) := by
  intro e he
  rcases List.mem_flatMap.mp he with ⟨x, hx, hex⟩
  exact h x hx e hex

theorem pathEntries_noTool (a b : Snapshot) : NoTool (pathEntries a b) := by
  intro e he
  rw [pathEntries] at he
  split_ifs at he
  · rw [List.mem_singleton.mp he]
    show lit "path" ≠ lit "tool"
    decide
  · cases he

theorem requirementEntries_noTool (a b : List ProjectRequirement) :
    NoTool (requirementEntries a b) := by
  intro e he
  rcases List.mem_filterMap.mp he with ⟨key, _, hentry⟩
  split_ifs at hentry
  cases hentry
  show lit "requirement" ≠ lit "tool"
  decide

theorem daemonEntries_noTool (a b : Option ContainerState) : NoTool (daemonEntries a b) := by
  intro e he
  rw [daemonEntries] at he
  split_ifs at he
  · rw [List.mem_singleton.mp he]
    show lit "container" ≠ lit "tool"
    decide
  · cases he

theorem axisEntries_noTool (a b : Option ContainerState) : NoTool (axisEntries a b) := by
  intro e he
  cases a with
  | none => cases he
  | some ca =>
    cases b with
    | none => cases he
    | some cb =>
      rcases List.mem_filterMap.mp he with ⟨axis, _, hentry⟩
      split_ifs at hentry
      all_goals
        cases hentry
        show lit "container" ≠ lit "tool"
        decide

/-- Only the tool section reports tools. -/
theorem diffEntries_reports_iff (a b : Snapshot) (name : Str) :
    ReportsTool (diffEntries a b) name ↔ LastDiffers a.tools b.tools name := by
  rw [← toolEntries_reports_iff]
  have hbefore : NoTool (platformEntries a.platform b.platform) :=
    noTool_flatMap fun _ _ => compareOptional_noTool (by decide)
  have hafter : NoTool (pathEntries a b ++
      requirementEntries a.requirementsFingerprint b.requirementsFingerprint ++
      daemonEntries a.containers b.containers ++ axisEntries a.containers b.containers ++
      dockerCliEntries a.containers b.containers ++ wslEntries a.wsl b.wsl ++
      gpuEntries a.gpu b.gpu) :=
    ((((((pathEntries_noTool a b).append (requirementEntries_noTool _ _)).append
      (daemonEntries_noTool _ _)).append (axisEntries_noTool _ _)).append
      (compareOptional_noTool (by decide))).append
      ((compareOptional_noTool (by decide)).append (compareOptional_noTool (by decide)))).append
      (noTool_flatMap fun _ _ => compareOptional_noTool (by decide))
  constructor
  · rintro ⟨e, he, htool, hrest⟩
    refine ⟨e, ?_, htool, hrest⟩
    simp only [diffEntries, List.append_assoc] at he
    rcases List.mem_append.mp he with he | he
    · exact absurd htool (hbefore e he)
    · rcases List.mem_append.mp he with he | he
      · exact he
      · refine absurd htool (hafter e ?_)
        simpa only [List.append_assoc] using he
  · rintro ⟨e, he, hrest⟩
    refine ⟨e, ?_, hrest⟩
    simp only [diffEntries, List.append_assoc]
    exact List.mem_append_right _ (List.mem_append_left _ he)

/-! ## Drift of the active version -/

/-- Snapshots of reports have one schema version. -/
theorem diffSnapshots_of_reports (snapshotId : Snapshot → Str) (now now' : Str) (r s : ScanReport) :
    diffSnapshots snapshotId (snapshotFromReport now r) (snapshotFromReport now' s) =
      .ok ⟨snapshotId (snapshotFromReport now r), snapshotId (snapshotFromReport now' s),
        diffEntries (snapshotFromReport now r) (snapshotFromReport now' s)⟩ :=
  if_neg (not_not_intro rfl)

/-- The drift of every active version is reported if and only if every name
whose active version drifts has different last installations as well. -/
theorem drift_reported_iff (snapshotId : Snapshot → Str) (now now' : Str) (r s : ScanReport) :
    (∀ name, activeVersions r name ≠ activeVersions s name →
      ∃ diff, diffSnapshots snapshotId (snapshotFromReport now r) (snapshotFromReport now' s) =
        .ok diff ∧ ReportsTool diff.entries name) ↔
    ∀ name, activeVersions r name ≠ activeVersions s name → LastDiffers r.tools s.tools name := by
  refine forall_congr' fun name => imp_congr_right fun _ => ?_
  have hdiff := diffSnapshots_of_reports snapshotId now now' r s
  have hreports := diffEntries_reports_iff (snapshotFromReport now r) (snapshotFromReport now' s) name
  constructor
  · intro ⟨diff, hok, hreport⟩
    rw [hdiff, Except.ok.injEq] at hok
    rw [← hok] at hreport
    exact hreports.mp hreport
  · intro h
    exact ⟨_, hdiff, hreports.mpr h⟩

namespace Sample

/-- A report of a machine with some tools. -/
def reportOf (tools : List ToolInstallation) : ScanReport :=
  ⟨"1.0", "2026-01-01T00:00:00Z", "0.2.0", ⟨"Linux", "6.5", "x86_64", none, none, false⟩, [], tools,
    none, [], false, none, [], none, none, none, []⟩

/-- An active Python of some version, before an inactive one that is always the
same. -/
def pythons (version : Str) : List ToolInstallation :=
  [⟨"python", some version, some "/usr/bin/python", none, true, some 0⟩,
    ⟨"python", some "3.9.0", some "/opt/python", none, false, some 1⟩]

end Sample

/-- A drift that an inactive installation hides. -/
theorem drift_masked :
    ¬∀ (snapshotId : Snapshot → Str) (now now' : Str) (r s : ScanReport) (name : Str),
      activeVersions r name ≠ activeVersions s name →
        ∃ diff, diffSnapshots snapshotId (snapshotFromReport now r) (snapshotFromReport now' s) =
          .ok diff ∧ ReportsTool diff.entries name := by
  intro h
  have hdrift : activeVersions (Sample.reportOf (Sample.pythons "3.12.4")) (lit "python") ≠
      activeVersions (Sample.reportOf (Sample.pythons "3.13.0")) (lit "python") := by decide
  rcases h (fun _ => []) [] [] _ _ _ hdrift with ⟨diff, hdiff, hreport⟩
  have hentries : diff.entries =
      diffEntries (snapshotFromReport [] (Sample.reportOf (Sample.pythons "3.12.4")))
        (snapshotFromReport [] (Sample.reportOf (Sample.pythons "3.13.0"))) := by
    rw [diffSnapshots_of_reports, Except.ok.injEq] at hdiff
    rw [← hdiff]
  rw [hentries, diffEntries_reports_iff] at hreport
  have hsame : lastNamed (Sample.pythons "3.12.4") (lit "python") =
      lastNamed (Sample.pythons "3.13.0") (lit "python") := by decide
  have hsome : lastNamed (Sample.pythons "3.13.0") (lit "python") =
      some ⟨"python", some "3.9.0", some "/opt/python", none, false, some 1⟩ := by decide
  simp [LastDiffers, snapshotFromReport, Sample.reportOf, hsame, hsome] at hreport

end DevRepro.Diff
