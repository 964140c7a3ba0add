import DevRepro.Diff.Tools
import DevRepro.Drift.Timeline

/-!
# Stored history

`snapshots/history.py`, and the commands `history` and `drift` of
`cli/commands/snapshots.py`.

The listing is sorted by time, `latest` takes its end and reverses it, and both
commands hand the reversed list to functions that read from old to new.
`computeDrift_comm_iff` says when the exchange of the two sides goes unnoticed.
-/

namespace DevRepro.Snapshots

open DevRepro.Python DevRepro.Diff DevRepro.Drift

/-! ## Drift between two snapshots -/

/-- `classification.value`. -/
def classificationValue : DiffClassification → Str
  | .same => "same"
  | .versionDrift => "version-drift"
  | .missing => "missing"
  | .extra => "extra"
  | .pathPrecedence => "path-precedence"
  | .platformExpected => "platform-expected"
  | .projectCritical => "project-critical"

structure DriftItem where
  name : Str
  kind : Str
  detail : Str
  deriving DecidableEq

/-- The kind of an entry. -/
def driftKind (e : DiffEntry) : Str :=
  if e.component = lit "tool" ∧ e.classification = .versionDrift then "runtime-changed"
  else if e.component = lit "container" then "docker-state-changed"
  else if e.component = lit "path" then "path-precedence-changed"
  else if e.classification = .missing then "tool-missing"
  else classificationValue e.classification

/-- The item of an entry. -/
def driftItem (e : DiffEntry) : Option DriftItem :=
  if e.classification = .same then none
  else some ⟨e.name, driftKind e, e.detail.getD []⟩

/-- `compute_drift`. -/
def computeDrift (snapshotId : Snapshot → Str) (previous current : Snapshot) :
    Except Exc (List DriftItem) :=
  (diffSnapshots snapshotId previous current).map fun diff => diff.entries.filterMap driftItem

/-! ## The store -/

/-- A file of the history directory, and what `load_snapshot` makes of it. -/
structure HistoryFile where
  mtime : Int
  load : Except Exc Snapshot

/-- `list_snapshots`. -/
def listSnapshots (dir : List HistoryFile) : List HistoryFile :=
  dir.mergeSort fun a b => decide (a.mtime ≤ b.mtime)

/-- The snapshots of files that load. -/
def loadAll (files : List HistoryFile) : List Snapshot := files.filterMap fun f => f.load.toOption

/-- `latest`. -/
def latest (dir : List HistoryFile) (n : Nat) : List Snapshot :=
  let files := listSnapshots dir
  loadAll (files.drop (files.length - n)).reverse

/-! ## The commands -/

/-- What a command prints: the message that there are too few snapshots, or its result. -/
inductive Printed (α : Type) where
  | tooFew
  | result (value : α)

/-- The command `history`. -/
def historyCommand (snapshotId : Snapshot → Str) (dir : List HistoryFile) :
    Except Exc (Printed (List DriftItem)) :=
  match latest dir 2 with
  | first :: second :: _ => (computeDrift snapshotId first second).map .result
  | _ => .ok .tooFew

/-- What the command `drift` passes to `build_timeline`. -/
def driftInput (dir : List HistoryFile) : Printed (List (List (Str × Json))) :=
  let snaps := latest dir 10
  if snaps.length < 2 then .tooFew else .result (snaps.map Snapshot.items)

/-- The command `drift`. -/
def driftCommand (rt : Runtime) (dir : List HistoryFile) : Except Exc (Printed DriftTimeline) :=
  match driftInput dir with
  | .tooFew => .ok .tooFew
  | .result payloads => (buildTimeline rt payloads).map .result

/-! ## Sorted names -/

theorem strLe_total (s t : Str) : (strLe s t || strLe t s) = true := by
  induction s generalizing t with
  | nil => simp [strLe]
  | cons c s ih =>
    cases t with
    | nil => simp [strLe]
    | cons d t =>
      have hrest := ih t
      simp only [strLe, Bool.or_eq_true, Bool.and_eq_true, decide_eq_true_eq] at hrest ⊢
      rcases lt_trichotomy c d with hlt | heq | hgt
      · exact Or.inl (Or.inl hlt)
      · rcases hrest with hst | hts
        · exact Or.inl (Or.inr ⟨heq, hst⟩)
        · exact Or.inr (Or.inr ⟨heq.symm, hts⟩)
      · exact Or.inr (Or.inl hgt)

theorem strLe_antisymm {s t : Str} (hst : strLe s t = true) (hts : strLe t s = true) : s = t := by
  induction s generalizing t with
  | nil =>
    cases t with
    | nil => rfl
    | cons d t => simp [strLe] at hts
  | cons c s ih =>
    cases t with
    | nil => simp [strLe] at hst
    | cons d t =>
      simp only [strLe, Bool.or_eq_true, Bool.and_eq_true, decide_eq_true_eq] at hst hts
      rcases hst with hlt | ⟨heq, hst⟩
      · rcases hts with hgt | ⟨heq, _⟩
        · exact absurd hgt hlt.asymm
        · exact absurd heq.symm hlt.ne
      · rcases hts with hgt | ⟨_, hts⟩
        · exact absurd heq.symm hgt.ne
        · rw [heq, ih hst hts]

theorem pairLe_iff {p q : Str × Str} :
    pairLe p q = true ↔ p.1 = q.1 ∧ strLe p.2 q.2 = true ∨ p.1 ≠ q.1 ∧ strLe p.1 q.1 = true := by
  rw [pairLe]
  split_ifs with h
  · simp [h]
  · simp [h]

theorem pairLe_total (p q : Str × Str) : (pairLe p q || pairLe q p) = true := by
  rw [Bool.or_eq_true, pairLe_iff, pairLe_iff]
  by_cases h : p.1 = q.1
  · have hsnd := strLe_total p.2 q.2
    rw [Bool.or_eq_true] at hsnd
    rcases hsnd with hpq | hqp
    · exact Or.inl (Or.inl ⟨h, hpq⟩)
    · exact Or.inr (Or.inl ⟨h.symm, hqp⟩)
  · have hfst := strLe_total p.1 q.1
    rw [Bool.or_eq_true] at hfst
    rcases hfst with hpq | hqp
    · exact Or.inl (Or.inr ⟨h, hpq⟩)
    · exact Or.inr (Or.inr ⟨Ne.symm h, hqp⟩)

theorem pairLe_antisymm {p q : Str × Str} (hpq : pairLe p q = true) (hqp : pairLe q p = true) :
    p = q := by
  rw [pairLe_iff] at hpq hqp
  rcases hpq with ⟨h, hpq⟩ | ⟨h, hpq⟩
  · rcases hqp with ⟨_, hqp⟩ | ⟨h', _⟩
    · exact Prod.ext h (strLe_antisymm hpq hqp)
    · exact absurd h.symm h'
  · rcases hqp with ⟨h', _⟩ | ⟨_, hqp⟩
    · exact absurd h'.symm h
    · exact absurd (strLe_antisymm hpq hqp) h

theorem pairLe_trans {p q r : Str × Str} (hpq : pairLe p q = true) (hqr : pairLe q r = true) :
    pairLe p r = true := by
  rw [pairLe_iff] at hpq hqr ⊢
  rcases hpq with ⟨h, hpq⟩ | ⟨h, hpq⟩
  · rcases hqr with ⟨h', hqr⟩ | ⟨h', hqr⟩
    · exact Or.inl ⟨h.trans h', Server.strLe_trans hpq hqr⟩
    · rw [h]
      exact Or.inr ⟨h', hqr⟩
  · rcases hqr with ⟨h', hqr⟩ | ⟨h', hqr⟩
    · rw [← h']
      exact Or.inr ⟨h, hpq⟩
    · refine Or.inr ⟨fun heq => h ?_, Server.strLe_trans hpq hqr⟩
      rw [heq] at hpq
      rw [heq]
      exact strLe_antisymm hpq hqr

/-- Names in a sorted order do not depend on the order of the sides. -/
theorem sorted_dedup_comm {α : Type} [DecidableEq α] {le : α → α → Bool}
    (htrans : ∀ a b c, le a b = true → le b c = true → le a c = true)
    (htotal : ∀ a b, (le a b || le b a) = true)
    (hantisymm : ∀ a b, le a b = true → le b a = true → a = b) (xs ys : List α) :
    (ys ++ xs).dedup.mergeSort le = (xs ++ ys).dedup.mergeSort le := by
  have hsorted : ∀ l : List α, (l.mergeSort le).Pairwise fun a b => le a b = true :=
    fun l => List.pairwise_mergeSort htrans htotal l
  exact List.Perm.eq_of_pairwise (fun a b _ _ hab hba => hantisymm a b hab hba) (hsorted _)
    (hsorted _) (sorted_dedup_perm le xs ys)

theorem toolNames_comm (a b : List ToolInstallation) : toolNames b a = toolNames a b :=
  @sorted_dedup_comm _ _ strLe (fun _ _ _ => Server.strLe_trans) strLe_total
    (fun _ _ => strLe_antisymm) _ _

theorem requirementKeys_comm (a b : List ProjectRequirement) :
    requirementKeys b a = requirementKeys a b :=
  @sorted_dedup_comm _ _ pairLe (fun _ _ _ => pairLe_trans) pairLe_total
    (fun _ _ => pairLe_antisymm) _ _

/-! ## Exchanged sides -/

/-- The items of some entries. -/
def itemsOf (entries : List DiffEntry) : List DriftItem := entries.filterMap driftItem

theorem itemsOf_append (xs ys : List DiffEntry) : itemsOf (xs ++ ys) = itemsOf xs ++ itemsOf ys :=
  List.filterMap_append

theorem compareOptional_comm (component name detail : Str) (x y : Option Str)
    (classification : DiffClassification) (critical : Bool) :
    itemsOf (compareOptional component name y x classification detail critical) =
      itemsOf (compareOptional component name x y classification detail critical) := by
  rw [compareOptional, compareOptional]
  by_cases h : x = y
  · rw [if_pos h, if_pos h.symm]
  · rw [if_neg h, if_neg (Ne.symm h)]
    rfl

theorem itemsOf_flatMap {α : Type} {xs : List α} {f g : α → List DiffEntry}
    (h : ∀ x, itemsOf (f x) = itemsOf (g x)) : itemsOf (xs.flatMap f) = itemsOf (xs.flatMap g) := by
  induction xs with
  | nil => rfl
  | cons x rest ih =>
    rw [List.flatMap_cons, List.flatMap_cons, itemsOf_append, itemsOf_append, h, ih]

theorem itemsOf_filterMap {α : Type} {xs : List α} {f g : α → Option DiffEntry}
    (h : ∀ x ∈ xs, (f x).bind driftItem = (g x).bind driftItem) :
    itemsOf (xs.filterMap f) = itemsOf (xs.filterMap g) := by
  rw [itemsOf, itemsOf, List.filterMap_filterMap, List.filterMap_filterMap]
  exact List.filterMap_congr h

theorem platformEntries_comm (a b : Mcp.PlatformInfo) :
    itemsOf (platformEntries b a) = itemsOf (platformEntries a b) := by
  simp only [platformEntries, platformKeys, List.zip_cons_cons, List.zip_nil_right,
    List.flatMap_cons, List.flatMap_nil, itemsOf_append]
  rw [compareOptional_comm _ _ _ (some a.osName), compareOptional_comm _ _ _ (some a.osVersion),
    compareOptional_comm _ _ _ (some a.arch), compareOptional_comm _ _ _ a.kernel]

theorem pathEntries_comm (a b : Snapshot) : itemsOf (pathEntries b a) = itemsOf (pathEntries a b) := by
  rw [pathEntries, pathEntries]
  by_cases h : normalizedPath a = normalizedPath b
  · rw [if_neg (not_not_intro h), if_neg (not_not_intro h.symm)]
  · rw [if_pos h, if_pos (Ne.symm h)]
    rfl

theorem requirementEntries_comm (a b : List ProjectRequirement) :
    itemsOf (requirementEntries b a) = itemsOf (requirementEntries a b) := by
  rw [requirementEntries, requirementEntries, requirementKeys_comm]
  apply itemsOf_filterMap
  intro key _
  by_cases h : lastSpec a key = lastSpec b key
  · rw [if_neg (not_not_intro h), if_neg (not_not_intro h.symm)]
  · rw [if_pos h, if_pos (Ne.symm h)]
    rfl

theorem daemonEntries_comm (a b : Option ContainerState) :
    itemsOf (daemonEntries b a) = itemsOf (daemonEntries a b) := by
  rw [daemonEntries, daemonEntries]
  by_cases h : a.map ContainerState.dockerDaemonOk = b.map ContainerState.dockerDaemonOk
  · rw [if_neg (not_not_intro h), if_neg (not_not_intro h.symm)]
  · rw [if_pos h, if_pos (Ne.symm h)]
    rfl

theorem axisEntries_comm (a b : Option ContainerState) :
    itemsOf (axisEntries b a) = itemsOf (axisEntries a b) := by
  cases a with
  | none =>
    cases b with
    | none => rfl
    | some cb => rfl
  | some ca =>
    cases b with
    | none => rfl
    | some cb =>
      rw [axisEntries, axisEntries]
      apply itemsOf_filterMap
      intro axis _
      by_cases h : axis.value ca = axis.value cb
      · rw [if_pos h, if_pos h.symm]
      · rw [if_neg h, if_neg (Ne.symm h)]
        rfl

/-- Every name is listed by both lists of tools or by none. -/
def SameNames (a b : List ToolInstallation) : Prop :=
  ∀ name, name ∈ a.map ToolInstallation.name ↔ name ∈ b.map ToolInstallation.name

theorem toolEntries_comm {a b : Snapshot} (h : SameNames a.tools b.tools) :
    itemsOf (toolEntries b a) = itemsOf (toolEntries a b) := by
  rw [toolEntries, toolEntries, toolNames_comm]
  apply itemsOf_filterMap
  intro name _
  have hsome := h name
  rw [← lastNamed_isSome_iff, ← lastNamed_isSome_iff] at hsome
  dsimp only
  cases ha : lastNamed a.tools name with
  | none =>
    cases hb : lastNamed b.tools name with
    | none => rfl
    | some tb =>
      rw [ha, hb] at hsome
      exact absurd (hsome.mpr rfl) (by decide)
  | some ta =>
    cases hb : lastNamed b.tools name with
    | none =>
      rw [ha, hb] at hsome
      exact absurd (hsome.mp rfl) (by decide)
    | some tb =>
      rw [toolEntry, toolEntry]
      by_cases hversion : ta.version.getD [] = tb.version.getD []
      · rw [if_neg (not_not_intro hversion), if_neg (not_not_intro hversion.symm)]
        by_cases hpath : ta.exePath.getD [] = tb.exePath.getD []
        · rw [if_neg (not_not_intro hpath), if_neg (not_not_intro hpath.symm)]
          rfl
        · rw [if_pos hpath, if_pos (Ne.symm hpath)]
          rfl
      · rw [if_pos hversion, if_pos (Ne.symm hversion)]
        rfl

theorem diffEntries_comm {a b : Snapshot} (h : SameNames a.tools b.tools) :
    itemsOf (diffEntries b a) = itemsOf (diffEntries a b) := by
  have hwsl : itemsOf (wslEntries b.wsl a.wsl) = itemsOf (wslEntries a.wsl b.wsl) := by
    rw [wslEntries, wslEntries, itemsOf_append, itemsOf_append,
      compareOptional_comm _ _ _ (a.wsl.map fun w => boolStr w.available),
      compareOptional_comm _ _ _ (a.wsl.bind WslState.defaultDistro)]
  have hgpu : itemsOf (gpuEntries b.gpu a.gpu) = itemsOf (gpuEntries a.gpu b.gpu) :=
    itemsOf_flatMap fun _ => compareOptional_comm _ _ _ _ _ _ _
  have hcli : itemsOf (dockerCliEntries b.containers a.containers) =
      itemsOf (dockerCliEntries a.containers b.containers) := compareOptional_comm _ _ _ _ _ _ _
  simp only [diffEntries, itemsOf_append, platformEntries_comm a.platform, toolEntries_comm h,
    pathEntries_comm a, requirementEntries_comm a.requirementsFingerprint,
    daemonEntries_comm a.containers, axisEntries_comm a.containers, hcli, hwsl, hgpu]

/-! ## A tool on one side -/

/-- No entry is of the class `MISSING`. -/
def NoMissing (entries : List DiffEntry) : Prop := ∀ e ∈ entries, e.classification ≠ .missing

theorem NoMissing.append {xs ys : List DiffEntry} (h : NoMissing xs) (h' : NoMissing ys) :
    NoMissing (xs ++ ys) := List.forall_mem_append.mpr ⟨h, h'⟩

theorem compareOptional_noMissing {component name detail : Str} {x y : Option Str}
    {classification : DiffClassification} {critical : Bool} (h : classification ≠ .missing) :
    NoMissing (compareOptional component name x y classification detail critical) := by
  intro e he
  rw [compareOptional] at he
  split_ifs at he
  · exact absurd he List.not_mem_nil
  · rw [List.mem_singleton.mp he]
    exact h

theorem noMissing_flatMap {α : Type} {xs : List α} {f : α → List DiffEntry}
    (h : ∀ x, NoMissing (f x)) : NoMissing (xs.flatMap f) := by
  intro e he
  rcases List.mem_flatMap.mp he with ⟨x, _, hx⟩
  exact h x e hx

theorem pathEntries_noMissing (a b : Snapshot) : NoMissing (pathEntries a b) := by
  intro e he
  rw [pathEntries] at he
  split_ifs at he
  · rw [List.mem_singleton.mp he]
    exact DiffClassification.noConfusion
  · exact absurd he List.not_mem_nil

theorem requirementEntries_noMissing (a b : List ProjectRequirement) :
    NoMissing (requirementEntries a b) := by
  intro e he
  rcases List.mem_filterMap.mp he with ⟨key, _, hentry⟩
  split_ifs at hentry
  cases hentry
  exact DiffClassification.noConfusion

theorem daemonEntries_noMissing (a b : Option ContainerState) : NoMissing (daemonEntries a b) := by
  intro e he
  rw [daemonEntries] at he
  split_ifs at he
  · rw [List.mem_singleton.mp he]
    exact DiffClassification.noConfusion
  · exact absurd he List.not_mem_nil

theorem axisEntries_noMissing (a b : Option ContainerState) : NoMissing (axisEntries a b) := by
  intro e he
  cases a with
  | none =>
    cases b with
    | none => exact absurd he List.not_mem_nil
    | some cb => exact absurd he List.not_mem_nil
  | some ca =>
    cases b with
    | none => exact absurd he List.not_mem_nil
    | some cb =>
      rcases List.mem_filterMap.mp he with ⟨axis, _, hentry⟩
      split_ifs at hentry with hsame hcritical
      · cases hentry
        exact DiffClassification.noConfusion
      · cases hentry
        exact DiffClassification.noConfusion

/-- An entry of the class `MISSING` is one of a tool. -/
theorem mem_toolEntries_of_missing {a b : Snapshot} {e : DiffEntry} (he : e ∈ diffEntries a b)
    (hmissing : e.classification = .missing) : e ∈ toolEntries a b := by
  have hplatform : NoMissing (platformEntries a.platform b.platform) :=
    noMissing_flatMap fun _ => compareOptional_noMissing (by decide)
  have hcli : NoMissing (dockerCliEntries a.containers b.containers) :=
    compareOptional_noMissing (by decide)
  have hwsl : NoMissing (wslEntries a.wsl b.wsl) :=
    (compareOptional_noMissing (by decide)).append (compareOptional_noMissing (by decide))
  have hgpu : NoMissing (gpuEntries a.gpu b.gpu) :=
    noMissing_flatMap fun _ => compareOptional_noMissing (by decide)
  simp only [diffEntries, List.mem_append] at he
  rcases he with (((((((he | he) | he) | he) | he) | he) | he) | he) | he
  · exact absurd hmissing (hplatform e he)
  · exact he
  · exact absurd hmissing (pathEntries_noMissing _ _ e he)
  · exact absurd hmissing (requirementEntries_noMissing _ _ e he)
  · exact absurd hmissing (daemonEntries_noMissing _ _ e he)
  · exact absurd hmissing (axisEntries_noMissing _ _ e he)
  · exact absurd hmissing (hcli e he)
  · exact absurd hmissing (hwsl e he)
  · exact absurd hmissing (hgpu e he)

theorem missing_of_driftKind {e : DiffEntry} (h : driftKind e = lit "tool-missing") :
    e.classification = .missing := by
  rw [driftKind] at h
  split_ifs at h with h1 h2 h3 h4
  · exact absurd h (by decide)
  · exact absurd h (by decide)
  · exact absurd h (by decide)
  · exact h4
  · cases hclass : e.classification with
    | missing => rfl
    | _ =>
      rw [hclass] at h
      exact absurd h (by decide)

/-- The item of a tool that the first side lists and the second does not. -/
def removedItem (name : Str) : DriftItem :=
  ⟨name, "tool-missing", lit "'" ++ name ++ lit "' exists on A but not on B."⟩

theorem removedItem_mem_iff {a b : Snapshot} {name : Str} :
    removedItem name ∈ itemsOf (diffEntries a b) ↔
      name ∈ a.tools.map ToolInstallation.name ∧ name ∉ b.tools.map ToolInstallation.name := by
  rw [← lastNamed_isSome_iff, ← lastNamed_isSome_iff]
  constructor
  · intro h
    rcases List.mem_filterMap.mp h with ⟨e, he, hitem⟩
    rw [driftItem] at hitem
    split_ifs at hitem
    rw [Option.some.injEq, removedItem, DriftItem.mk.injEq] at hitem
    rcases hitem with ⟨hname, hkind, hdetail⟩
    have htool := mem_toolEntries_of_missing he (missing_of_driftKind hkind)
    rcases List.mem_filterMap.mp htool with ⟨other, _, hentry⟩
    have hother : other = name := (toolEntry_shape hentry).2.symm.trans hname
    rw [hother] at hentry
    cases ha : lastNamed a.tools name with
    | none =>
      rw [ha] at hentry
      cases hb : lastNamed b.tools name with
      | none =>
        rw [hb] at hentry
        cases hentry
      | some tb =>
        -- The detail names the other side.
        rw [hb] at hentry
        cases hentry
        rw [Option.getD_some, List.append_assoc, List.append_assoc] at hdetail
        have hrest := List.append_cancel_left (List.append_cancel_left hdetail)
        exact absurd hrest (by decide)
    | some ta =>
      cases hb : lastNamed b.tools name with
      | none => exact ⟨rfl, by decide⟩
      | some tb =>
        rw [ha, hb, toolEntry] at hentry
        have hclass := missing_of_driftKind hkind
        split_ifs at hentry
        · cases hentry
          cases hclass
        · cases hentry
          cases hclass
        · cases hentry
          cases hclass
  · rintro ⟨ha, hb⟩
    have hname := lastNamed_isSome_iff.mp ha
    rcases Option.isSome_iff_exists.mp ha with ⟨ta, hta⟩
    have htb : lastNamed b.tools name = none := Option.not_isSome_iff_eq_none.mp hb
    have hlisted : name ∈ toolNames a.tools b.tools := by
      rw [toolNames, List.mem_mergeSort, List.mem_dedup, List.mem_append]
      exact Or.inl hname
    have hentry : ∃ critical, toolEntry critical name (lastNamed a.tools name)
        (lastNamed b.tools name) = some ⟨"tool", name, .missing, ta.version, none,
          some (lit "'" ++ name ++ lit "' exists on A but not on B."), critical⟩ ∧
        (⟨"tool", name, .missing, ta.version, none,
          some (lit "'" ++ name ++ lit "' exists on A but not on B."), critical⟩ : DiffEntry) ∈
            toolEntries a b := by
      have hvalue : ∀ critical, toolEntry critical name (lastNamed a.tools name)
          (lastNamed b.tools name) = some ⟨"tool", name, .missing, ta.version, none,
            some (lit "'" ++ name ++ lit "' exists on A but not on B."), critical⟩ := by
        intro critical
        rw [hta, htb]
        rfl
      exact ⟨_, hvalue _, List.mem_filterMap.mpr ⟨name, hlisted, hvalue _⟩⟩
    rcases hentry with ⟨critical, _, he⟩
    have hall : (⟨"tool", name, .missing, ta.version, none,
        some (lit "'" ++ name ++ lit "' exists on A but not on B."), critical⟩ : DiffEntry) ∈
          diffEntries a b := by
      simp only [diffEntries, List.mem_append]
      exact Or.inl (Or.inl (Or.inl (Or.inl (Or.inl (Or.inl (Or.inl (Or.inr he)))))))
    exact List.mem_filterMap.mpr ⟨_, hall, rfl⟩

/-- The two texts that name the schema versions in either order. -/
def SchemaTextsAgree (a b : Snapshot) : Prop :=
  b.schemaVersion ++ lit " vs " ++ a.schemaVersion = a.schemaVersion ++ lit " vs " ++ b.schemaVersion

/-- Exchanging the sides of a drift goes unnoticed exactly when both sides list the same
tools, or when the snapshots are refused with a text that reads alike both ways. -/
theorem computeDrift_comm_iff (snapshotId : Snapshot → Str) (a b : Snapshot) :
    computeDrift snapshotId b a = computeDrift snapshotId a b ↔
      SchemaTextsAgree a b ∧ (a.schemaVersion = b.schemaVersion → SameNames a.tools b.tools) := by
  rw [computeDrift, computeDrift, diffSnapshots, diffSnapshots]
  by_cases hschema : a.schemaVersion = b.schemaVersion
  · rw [if_neg (not_not_intro hschema), if_neg (not_not_intro hschema.symm)]
    show Except.ok (itemsOf (diffEntries b a)) = Except.ok (itemsOf (diffEntries a b)) ↔ _
    rw [Except.ok.injEq]
    constructor
    · intro h
      refine ⟨by rw [SchemaTextsAgree, hschema], fun _ name => ⟨fun ha => ?_, fun hb => ?_⟩⟩
      · by_contra hnot
        have hmem := removedItem_mem_iff.mpr ⟨ha, hnot⟩
        rw [← h, removedItem_mem_iff] at hmem
        exact hnot hmem.1
      · by_contra hnot
        have hmem := removedItem_mem_iff.mpr ⟨hb, hnot⟩
        rw [h, removedItem_mem_iff] at hmem
        exact hnot hmem.1
    · exact fun h => diffEntries_comm (h.2 hschema)
  · rw [if_pos hschema, if_pos (Ne.symm hschema)]
    show Except.error _ = Except.error _ ↔ _
    rw [Except.error.injEq, Exc.mk.injEq, SchemaTextsAgree]
    constructor
    · intro h
      have htext := h.2
      rw [List.append_assoc, List.append_assoc, List.append_assoc, List.append_assoc] at htext
      refine ⟨?_, fun heq => absurd heq hschema⟩
      rw [List.append_assoc, List.append_assoc]
      exact List.append_cancel_left htext
    · intro h
      refine ⟨rfl, ?_⟩
      have htext := h.1
      rw [List.append_assoc, List.append_assoc] at htext
      rw [List.append_assoc, List.append_assoc, List.append_assoc, List.append_assoc, htext]

/-! ## Which way the commands read -/

/-- The snapshots of the directory that load, from the oldest to the newest. -/
def loadable (dir : List HistoryFile) : List Snapshot := loadAll (listSnapshots dir)

/-- The newest ten files that load, from the oldest to the newest. -/
def newestTen (dir : List HistoryFile) : List Snapshot :=
  let files := listSnapshots dir
  loadAll (files.drop (files.length - 10))

/-- Both commands read the history from old to new. -/
structure ReadsForward (snapshotId : Snapshot → Str) (dir : List HistoryFile) : Prop where
  history : ∀ earlier older newer, loadable dir = earlier ++ [older, newer] →
    historyCommand snapshotId dir = (computeDrift snapshotId older newer).map .result
  drift : ∀ payloads, driftInput dir = .result payloads →
    payloads = (newestTen dir).map Snapshot.items

/-- The newest two files load and do not show the direction, and the payloads of the
newest ten read alike both ways. -/
structure Directionless (dir : List HistoryFile) : Prop where
  newest : ∃ earlier older newer a b, listSnapshots dir = earlier ++ [older, newer] ∧
    older.load = .ok a ∧ newer.load = .ok b ∧ SchemaTextsAgree a b ∧
      (a.schemaVersion = b.schemaVersion → SameNames a.tools b.tools)
  palindrome : ((newestTen dir).map Snapshot.items).reverse = (newestTen dir).map Snapshot.items

theorem loadAll_append (xs ys : List HistoryFile) : loadAll (xs ++ ys) = loadAll xs ++ loadAll ys :=
  List.filterMap_append

theorem loadAll_reverse (files : List HistoryFile) : loadAll files.reverse = (loadAll files).reverse :=
  List.filterMap_reverse

theorem length_loadAll_le (files : List HistoryFile) : (loadAll files).length ≤ files.length :=
  List.length_filterMap_le _ _

theorem latest_ten (dir : List HistoryFile) : latest dir 10 = (newestTen dir).reverse := by
  rw [latest, newestTen]
  exact loadAll_reverse _

theorem latest_two {dir earlier : List HistoryFile} {older newer : HistoryFile}
    (h : listSnapshots dir = earlier ++ [older, newer]) : latest dir 2 = loadAll [newer, older] := by
  have hdrop : (earlier ++ [older, newer]).drop ((earlier ++ [older, newer]).length - 2) =
      [older, newer] := by
    have hlength : (earlier ++ [older, newer]).length - 2 = earlier.length := by simp
    rw [hlength, List.drop_left]
  rw [latest, h, hdrop]
  rfl

theorem exists_last_two {α : Type} {l : List α} (h : 2 ≤ l.length) :
    ∃ earlier older newer, l = earlier ++ [older, newer] := by
  rcases List.eq_nil_or_concat l with rfl | ⟨front, newer, rfl⟩
  · simp at h
  · rcases List.eq_nil_or_concat front with rfl | ⟨earlier, older, rfl⟩
    · simp at h
    · exact ⟨earlier, older, newer, by simp⟩

theorem map_result_inj {α : Type} {x y : Except Exc α} :
    x.map Printed.result = y.map Printed.result ↔ x = y := by
  cases x with
  | error e =>
    cases y with
    | error f => simp [Except.map]
    | ok b => simp [Except.map]
  | ok a =>
    cases y with
    | error f => simp [Except.map]
    | ok b => simp [Except.map]

theorem map_result_ne_tooFew {α : Type} (x : Except Exc α) :
    Except.ok Printed.tooFew ≠ x.map Printed.result := by
  cases x with
  | error e =>
    intro h
    cases h
  | ok a =>
    intro h
    cases h

theorem drift_forward_iff (dir : List HistoryFile) :
    (∀ payloads, driftInput dir = .result payloads →
        payloads = (newestTen dir).map Snapshot.items) ↔
      ((newestTen dir).map Snapshot.items).reverse = (newestTen dir).map Snapshot.items := by
  rw [driftInput, latest_ten, List.length_reverse, List.map_reverse]
  by_cases hfew : (newestTen dir).length < 2
  · rw [if_pos hfew]
    refine iff_of_true (fun payloads h => by cases h) ?_
    cases hten : newestTen dir with
    | nil => rfl
    | cons s rest =>
      cases rest with
      | nil => rfl
      | cons t rest =>
        rw [hten, List.length_cons, List.length_cons] at hfew
        omega
  · rw [if_neg hfew]
    constructor
    · exact fun h => h _ rfl
    · intro h payloads hpayloads
      cases hpayloads
      exact h

theorem history_forward_iff (snapshotId : Snapshot → Str) {dir : List HistoryFile}
    (htwo : 2 ≤ (loadable dir).length) :
    (∀ earlier older newer, loadable dir = earlier ++ [older, newer] →
        historyCommand snapshotId dir = (computeDrift snapshotId older newer).map .result) ↔
      ∃ earlier older newer a b, listSnapshots dir = earlier ++ [older, newer] ∧
        older.load = .ok a ∧ newer.load = .ok b ∧ SchemaTextsAgree a b ∧
          (a.schemaVersion = b.schemaVersion → SameNames a.tools b.tools) := by
  have hfiles : 2 ≤ (listSnapshots dir).length := htwo.trans (length_loadAll_le _)
  rcases exists_last_two hfiles with ⟨earlier, older, newer, hsplit⟩
  have hlatest := latest_two hsplit
  have hunique : ∀ earlier' older' newer', listSnapshots dir = earlier' ++ [older', newer'] →
      older' = older ∧ newer' = newer := by
    intro earlier' older' newer' h
    rw [hsplit] at h
    have htail := (List.append_inj' h rfl).2
    rw [List.cons.injEq, List.cons.injEq] at htail
    exact ⟨htail.1.symm, htail.2.1.symm⟩
  have hbad : historyCommand snapshotId dir = .ok .tooFew →
      ¬∀ earlier older newer, loadable dir = earlier ++ [older, newer] →
        historyCommand snapshotId dir = (computeDrift snapshotId older newer).map .result := by
    intro hfew h
    rcases exists_last_two htwo with ⟨e, o, n, hload⟩
    have hcommand := h e o n hload
    rw [hfew] at hcommand
    exact map_result_ne_tooFew _ hcommand
  cases hold : older.load with
  | error exc =>
    have hfew : historyCommand snapshotId dir = .ok .tooFew := by
      rw [historyCommand, hlatest]
      cases hnew : newer.load with
      | error exc' => simp [loadAll, hold, hnew, Except.toOption]
      | ok b => simp [loadAll, hold, hnew, Except.toOption]
    refine iff_of_false (hbad hfew) ?_
    intro ⟨e, o, n, a, b, hfiles', hloado, _⟩
    rw [(hunique e o n hfiles').1, hold] at hloado
    cases hloado
  | ok a =>
    cases hnew : newer.load with
    | error exc =>
      have hfew : historyCommand snapshotId dir = .ok .tooFew := by
        rw [historyCommand, hlatest]
        simp [loadAll, hold, hnew, Except.toOption]
      refine iff_of_false (hbad hfew) ?_
      intro ⟨e, o, n, a', b, hfiles', _, hloadn, _⟩
      rw [(hunique e o n hfiles').2, hnew] at hloadn
      cases hloadn
    | ok b =>
      have hcommand : historyCommand snapshotId dir = (computeDrift snapshotId b a).map .result := by
        rw [historyCommand, hlatest]
        simp [loadAll, hold, hnew, Except.toOption]
      have hload : loadable dir = loadAll earlier ++ [a, b] := by
        rw [loadable, hsplit, loadAll_append]
        simp [loadAll, hold, hnew, Except.toOption]
      have hcomm := computeDrift_comm_iff snapshotId a b
      constructor
      · intro h
        have heq := h _ a b hload
        rw [hcommand, map_result_inj, hcomm] at heq
        exact ⟨earlier, older, newer, a, b, hsplit, hold, hnew, heq⟩
      · intro ⟨e, o, n, a', b', hfiles', hloado, hloadn, hrest⟩ e' o' n' hload'
        rw [(hunique e o n hfiles').1, hold, Except.ok.injEq] at hloado
        rw [(hunique e o n hfiles').2, hnew, Except.ok.injEq] at hloadn
        rw [← hloado, ← hloadn, ← hcomm] at hrest
        rw [hload] at hload'
        have htail := (List.append_inj' hload' rfl).2
        rw [List.cons.injEq, List.cons.injEq] at htail
        rw [hcommand, ← htail.1, ← htail.2.1, hrest]

/-- The commands read a history with two snapshots that load from old to new exactly when
nothing in it shows the direction. -/
theorem reads_forward_iff (snapshotId : Snapshot → Str) (dir : List HistoryFile)
    (htwo : 2 ≤ (loadable dir).length) : ReadsForward snapshotId dir ↔ Directionless dir := by
  have hhistory := history_forward_iff snapshotId htwo
  have hdrift := drift_forward_iff dir
  constructor
  · exact fun h => ⟨hhistory.mp h.history, hdrift.mp h.drift⟩
  · exact fun h => ⟨hhistory.mpr h.newest, hdrift.mpr h.palindrome⟩

/-! ## An installation -/

namespace Sample

/-- A history in which Go was installed. -/
def installed : List HistoryFile :=
  [⟨1, .ok (Diff.Sample.snapshot [])⟩,
    ⟨2, .ok (Diff.Sample.snapshot [⟨"go", some "1.22", none, none, true, none⟩])⟩]

theorem installed_listed : listSnapshots installed = installed := by
  apply List.mergeSort_of_pairwise
  decide

end Sample

/-- An installation is reported as a removal. -/
theorem installation_reads_backward :
    2 ≤ (loadable Sample.installed).length ∧ (Sample.installed.map HistoryFile.mtime).Nodup ∧
      ¬ReadsForward (fun _ => []) Sample.installed := by
  have hload : loadable Sample.installed = [] ++ [Diff.Sample.snapshot [],
      Diff.Sample.snapshot [⟨"go", some "1.22", none, none, true, none⟩]] := by
    rw [loadable, Sample.installed_listed]
    rfl
  refine ⟨by rw [hload]; decide, by decide, fun h => ?_⟩
  have hlatest : latest Sample.installed 2 = [Diff.Sample.snapshot [⟨"go", some "1.22", none, none,
      true, none⟩], Diff.Sample.snapshot []] := by
    rw [latest, Sample.installed_listed]
    rfl
  have hhistory := h.history _ _ _ hload
  rw [historyCommand, hlatest] at hhistory
  have hcomm := (computeDrift_comm_iff _ _ _).mp (map_result_inj.mp hhistory)
  have hsame := (hcomm.2 rfl "go").mpr (by decide)
  exact absurd hsame (by decide)

/-- The rule for this history. -/
theorem reads_forward_iff_installed :
    ReadsForward (fun _ => []) Sample.installed ↔ Directionless Sample.installed :=
  reads_forward_iff (fun _ => []) Sample.installed (by
    rw [loadable, Sample.installed_listed]
    decide)

end DevRepro.Snapshots
