import DevRepro.Diff.Engine

/-!
# The diff is symmetric

`Mirrored` says that one list of entries is the other with the two values
exchanged, up to order.  Every section of the diff is mirrored when its sides
are exchanged, and `Mirrored.append` puts the sections together.

Two sections list names in a sorted order that does not depend on the sides,
so only the set of names has to be the same.  The PATH section writes the side
letters into its values, and `swapSides` exchanges them.
-/

namespace DevRepro.Diff

open DevRepro.Python DevRepro.Snapshots

/-! ## Mirrored entries -/

/-- What a diff says about one name. -/
abbrev EntryKey := Str × Str × DiffClassification × Bool × Option Str × Option Str

def DiffEntry.key (e : DiffEntry) : EntryKey :=
  (e.component, e.name, e.classification, e.projectCritical, e.aValue, e.bValue)

/-- The side letters exchanged. -/
def swapSide (c : CodePoint) : CodePoint :=
  if c = codePoint 'A' then codePoint 'B' else if c = codePoint 'B' then codePoint 'A' else c

/-- A PATH summary with the side letters exchanged. -/
def swapSides (text : Str) : Str := text.map swapSide

/-- The value of an entry as the other diff writes it. -/
def mirrorValue (component : Str) (value : Option Str) : Option Str :=
  if component = lit "path" then value.map swapSides else value

/-- An entry with the two values exchanged. -/
def DiffEntry.mirror (e : DiffEntry) : EntryKey :=
  (e.component, e.name, e.classification, e.projectCritical, mirrorValue e.component e.bValue,
    mirrorValue e.component e.aValue)

/-- The second list is the first one with the two values exchanged. -/
def Mirrored (xs ys : List DiffEntry) : Prop :=
  (ys.map DiffEntry.key).Perm (xs.map DiffEntry.mirror)

theorem Mirrored.append {xs ys xs' ys' : List DiffEntry} (h : Mirrored xs ys)
    (h' : Mirrored xs' ys') : Mirrored (xs ++ xs') (ys ++ ys') := by
  rw [Mirrored, List.map_append, List.map_append]
  exact List.Perm.append h h'

theorem mirrored_of_eq {xs ys : List DiffEntry}
    (h : ys.map DiffEntry.key = xs.map DiffEntry.mirror) : Mirrored xs ys := by
  rw [Mirrored, h]

theorem mirrorValue_of_ne {component : Str} (h : component ≠ lit "path") (value : Option Str) :
    mirrorValue component value = value := if_neg h

/-- Two sections that list the same names are mirrored when the entry of every
name is. -/
theorem mirrored_filterMap {α : Type} {xs ys : List α} {f g : α → Option DiffEntry}
    (hperm : ys.Perm xs)
    (hentry : ∀ x, (g x).map DiffEntry.key = (f x).map DiffEntry.mirror) :
    Mirrored (xs.filterMap f) (ys.filterMap g) := by
  rw [Mirrored, List.map_filterMap, List.map_filterMap, funext hentry]
  exact hperm.filterMap _

/-! ## Sections -/

theorem compareOptional_mirrored {component name detail : Str} {x y : Option Str}
    {classification : DiffClassification} {critical : Bool} (h : component ≠ lit "path") :
    Mirrored (compareOptional component name x y classification detail critical)
      (compareOptional component name y x classification detail critical) := by
  refine mirrored_of_eq ?_
  rw [compareOptional, compareOptional]
  by_cases hxy : x = y
  · rw [if_pos hxy, if_pos hxy.symm]
    rfl
  · rw [if_neg hxy, if_neg (Ne.symm hxy)]
    simp [DiffEntry.key, DiffEntry.mirror, mirrorValue_of_ne h]

theorem mirrored_flatMap {α : Type} {xs : List α} {f g : α → List DiffEntry}
    (h : ∀ x ∈ xs, Mirrored (f x) (g x)) : Mirrored (xs.flatMap f) (xs.flatMap g) := by
  induction xs with
  | nil => exact mirrored_of_eq rfl
  | cons x xs ih =>
    rw [List.flatMap_cons, List.flatMap_cons]
    exact (h x List.mem_cons_self).append (ih fun y hy => h y (List.mem_cons_of_mem _ hy))

theorem platformEntries_mirrored (a b : Mcp.PlatformInfo) :
    Mirrored (platformEntries a b) (platformEntries b a) := by
  have hne : lit "platform" ≠ lit "path" := by decide
  simp only [platformEntries, platformKeys, List.zip_cons_cons, List.zip_nil_right,
    List.flatMap_cons, List.flatMap_nil]
  refine (compareOptional_mirrored hne).append ((compareOptional_mirrored hne).append
    ((compareOptional_mirrored hne).append ((compareOptional_mirrored hne).append ?_)))
  exact mirrored_of_eq rfl

theorem toolEntry_mirrored (critical : Bool) (name : Str) (ta tb : Option ToolInstallation) :
    (toolEntry critical name tb ta).map DiffEntry.key =
      (toolEntry critical name ta tb).map DiffEntry.mirror := by
  have hne : lit "tool" ≠ lit "path" := by decide
  cases ta with
  | none =>
    cases tb with
    | none => rfl
    | some tb => simp [toolEntry, DiffEntry.key, DiffEntry.mirror, mirrorValue_of_ne hne]
  | some ta =>
    cases tb with
    | none => simp [toolEntry, DiffEntry.key, DiffEntry.mirror, mirrorValue_of_ne hne]
    | some tb =>
      by_cases hversion : ta.version.getD [] = tb.version.getD []
      · by_cases hpath : ta.exePath.getD [] = tb.exePath.getD []
        · simp [toolEntry, hversion, hpath, DiffEntry.key, DiffEntry.mirror, mirrorValue_of_ne hne]
        · simp [toolEntry, hversion, hpath, Ne.symm hpath, DiffEntry.key, DiffEntry.mirror,
            mirrorValue_of_ne hne]
      · simp [toolEntry, hversion, Ne.symm hversion, DiffEntry.key, DiffEntry.mirror,
          mirrorValue_of_ne hne]

/-- A sorted list of names depends only on the set of names. -/
theorem sorted_dedup_perm {α : Type} [DecidableEq α] (le : α → α → Bool) (xs ys : List α) :
    ((ys ++ xs).dedup.mergeSort le).Perm ((xs ++ ys).dedup.mergeSort le) :=
  (List.mergeSort_perm _ _).trans
    ((List.perm_append_comm.dedup).trans (List.mergeSort_perm _ _).symm)

theorem toolEntries_mirrored (a b : Snapshot) : Mirrored (toolEntries a b) (toolEntries b a) := by
  refine mirrored_filterMap (sorted_dedup_perm strLe _ _) fun name => ?_
  rw [toolEntry_mirrored]
  simp only [or_comm]

theorem swapSides_natStr (n : Nat) : swapSides (natStr n) = natStr n := by
  have hdigit : ∀ d < 10, swapSide (digit d) = digit d := by decide
  induction n using Nat.strongRecOn with
  | _ n ih =>
    by_cases hlt : n < 10
    · rw [natStr_of_lt hlt]
      simp [swapSides, hdigit n hlt]
    · have hsmall : n % 10 < 10 := Nat.mod_lt _ (by decide)
      have hprev := ih (n / 10) (by omega)
      rw [swapSides] at hprev
      rw [natStr_of_le (by omega), swapSides, List.map_append, hprev]
      simp [hdigit _ hsmall]

/-- The summary of a side, as the other diff writes it. -/
theorem swapSides_pathSummary (side other : Str) (hside : swapSides side = other)
    (own rest : List Str) : swapSides (pathSummary side own rest) = pathSummary other own rest := by
  have hparts : ∀ s t : Str, swapSides (s ++ t) = swapSides s ++ swapSides t :=
    fun s t => List.map_append
  have hentries : swapSides (lit " entries") = lit " entries" := by decide
  have hopen : swapSides (lit "; ") = lit "; " := by decide
  have honly : swapSides (lit "-only: ") = lit "-only: " := by decide
  simp only [pathSummary]
  split_ifs with hnone
  · simp only [hparts, swapSides_natStr, hentries]
    rfl
  · simp only [hparts, swapSides_natStr, hentries, hopen, honly, hside]

theorem pathEntries_mirrored (a b : Snapshot) : Mirrored (pathEntries a b) (pathEntries b a) := by
  refine mirrored_of_eq ?_
  rw [pathEntries, pathEntries]
  by_cases hsame : normalizedPath a = normalizedPath b
  · rw [if_neg (not_not_intro hsame), if_neg (not_not_intro hsame.symm)]
    rfl
  · rw [if_pos hsame, if_pos (Ne.symm hsame)]
    simp [DiffEntry.key, DiffEntry.mirror, mirrorValue,
      swapSides_pathSummary (lit "A") (lit "B") (by decide),
      swapSides_pathSummary (lit "B") (lit "A") (by decide)]

theorem requirementEntries_mirrored (a b : List ProjectRequirement) :
    Mirrored (requirementEntries a b) (requirementEntries b a) := by
  have hne : lit "requirement" ≠ lit "path" := by decide
  refine mirrored_filterMap (sorted_dedup_perm pairLe _ _) fun key => ?_
  by_cases hsame : lastSpec a key = lastSpec b key
  · simp [hsame]
  · simp [hsame, Ne.symm hsame, DiffEntry.key, DiffEntry.mirror, mirrorValue_of_ne hne]

theorem daemonEntries_mirrored (a b : Option ContainerState) :
    Mirrored (daemonEntries a b) (daemonEntries b a) := by
  have hne : lit "container" ≠ lit "path" := by decide
  refine mirrored_of_eq ?_
  rw [daemonEntries, daemonEntries]
  by_cases hsame : a.map ContainerState.dockerDaemonOk = b.map ContainerState.dockerDaemonOk
  · rw [if_neg (not_not_intro hsame), if_neg (not_not_intro hsame.symm)]
    rfl
  · rw [if_pos hsame, if_pos (Ne.symm hsame)]
    simp [DiffEntry.key, DiffEntry.mirror, mirrorValue_of_ne hne]

theorem axisEntries_mirrored (a b : Option ContainerState) :
    Mirrored (axisEntries a b) (axisEntries b a) := by
  have hne : lit "container" ≠ lit "path" := by decide
  cases a with
  | none => cases b <;> exact mirrored_of_eq rfl
  | some ca =>
    cases b with
    | none => exact mirrored_of_eq rfl
    | some cb =>
      refine mirrored_filterMap (List.Perm.refl _) fun axis => ?_
      by_cases hsame : axis.value ca = axis.value cb
      · simp [hsame]
      · simp [hsame, Ne.symm hsame, DiffEntry.key, DiffEntry.mirror, mirrorValue_of_ne hne]

theorem wslEntries_mirrored (a b : Option WslState) :
    Mirrored (wslEntries a b) (wslEntries b a) :=
  (compareOptional_mirrored (by decide)).append (compareOptional_mirrored (by decide))

theorem gpuEntries_mirrored (a b : Option GpuStack) : Mirrored (gpuEntries a b) (gpuEntries b a) :=
  mirrored_flatMap fun _ _ => compareOptional_mirrored (by decide)

theorem diffEntries_mirrored (a b : Snapshot) : Mirrored (diffEntries a b) (diffEntries b a) :=
  (((((((((platformEntries_mirrored _ _).append (toolEntries_mirrored a b)).append
    (pathEntries_mirrored a b)).append (requirementEntries_mirrored _ _)).append
    (daemonEntries_mirrored _ _)).append (axisEntries_mirrored _ _)).append
    (compareOptional_mirrored (by decide))).append (wslEntries_mirrored _ _)).append
    (gpuEntries_mirrored _ _))

/-! ## A snapshot against itself -/

theorem compareOptional_self (component name detail : Str) (x : Option Str)
    (classification : DiffClassification) (critical : Bool) :
    compareOptional component name x x classification detail critical = [] := if_pos rfl

theorem toolEntry_self {critical : Bool} {name : Str} {tool : Option ToolInstallation}
    {e : DiffEntry} (h : toolEntry critical name tool tool = some e) : e.classification = .same := by
  cases tool with
  | none => cases h
  | some t =>
    simp only [toolEntry, ne_eq, not_true_eq_false, if_false, Option.some.injEq] at h
    rw [← h]

theorem diffEntries_self (a : Snapshot) : diffEntries a a = toolEntries a a := by
  have hreq : requirementEntries a.requirementsFingerprint a.requirementsFingerprint = [] := by
    simp [requirementEntries]
  have haxis : axisEntries a.containers a.containers = [] := by
    cases hc : a.containers with
    | none => rfl
    | some c => simp [axisEntries]
  simp [diffEntries, platformEntries, platformKeys, pathEntries, daemonEntries, dockerCliEntries,
    wslEntries, gpuEntries, gpuAxes, compareOptional_self, hreq, haxis]

/-- Exchanging the sides of a diff exchanges the two values of every entry, and
a snapshot differs from itself in nothing. -/
theorem diff_symmetric (snapshotId : Snapshot → Str) (a b : Snapshot)
    (h : a.schemaVersion = b.schemaVersion) :
    (∃ ab ba, diffSnapshots snapshotId a b = .ok ab ∧ diffSnapshots snapshotId b a = .ok ba ∧
      (ba.entries.map DiffEntry.key).Perm (ab.entries.map DiffEntry.mirror)) ∧
    ∃ aa, diffSnapshots snapshotId a a = .ok aa ∧ ∀ e ∈ aa.entries, e.classification = .same := by
  refine ⟨⟨_, _, if_neg (not_not_intro h), if_neg (not_not_intro h.symm), diffEntries_mirrored a b⟩,
    ⟨_, if_neg (not_not_intro rfl), fun e he => ?_⟩⟩
  rw [diffEntries_self] at he
  rcases List.mem_filterMap.mp he with ⟨name, _, hentry⟩
  exact toolEntry_self hentry

namespace Sample

/-- A snapshot with nothing but a platform and some tools. -/
def snapshot (tools : List ToolInstallation) : Snapshot :=
  ⟨"1.0", "2026-01-01T00:00:00Z", "0.2.0", ⟨"Linux", "6.5", "x86_64", none, none, false⟩, tools, none,
    [], [], none, none, none, [], none, []⟩

end Sample

theorem diff_symmetric_sample :
    (∃ ab ba, diffSnapshots (fun _ => []) (Sample.snapshot []) (Sample.snapshot []) = .ok ab ∧
      diffSnapshots (fun _ => []) (Sample.snapshot []) (Sample.snapshot []) = .ok ba ∧
      (ba.entries.map DiffEntry.key).Perm (ab.entries.map DiffEntry.mirror)) ∧
    ∃ aa, diffSnapshots (fun _ => []) (Sample.snapshot []) (Sample.snapshot []) = .ok aa ∧
      ∀ e ∈ aa.entries, e.classification = .same :=
  diff_symmetric (fun _ => []) (Sample.snapshot []) (Sample.snapshot []) rfl

end DevRepro.Diff
