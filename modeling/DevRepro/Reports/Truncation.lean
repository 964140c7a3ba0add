import DevRepro.Reports.Commands

/-!
# What GitHub renders

GitHub renders the commands `::error`, `::warning` and `::notice`, and of each
kind the first few.  The commands of a report are `::failure`, `::warning` and
`::notice`, and a truncation notice is a `::notice` like any other.  So a finding
is lost when it stops the build, and when the notices use up their own places
(`truncation_visible_iff`).
-/

namespace DevRepro.Reports

open DevRepro.Python DevRepro.Lib DevRepro.Snapshots
open DevRepro.Mcp (Finding FindingState Evidence)

/-! ## What is rendered -/

/-- The commands that GitHub renders. -/
def renderedKinds : List Str := ["error", "warning", "notice"]

/-- Whether the command at a place is rendered: it is of a kind that is, and one of the first
of its kind. -/
def Rendered (limit : Int) (commands : List Command) (i : Nat) : Prop :=
  ∃ c, commands[i]? = some c ∧ c.name ∈ renderedKinds ∧
    ((commands.take i).countP fun other => other.name = c.name : Int) < limit

/-- The commands that a reader of the output finds. -/
def commandsOf (report : ScanReport) (limit : Int) : List Command :=
  (readCommands (renderWorkflowCommands report limit)).filterMap id

/-- Every finding that is not `PASS` is rendered, or a truncation notice counts it and is
rendered itself.  The annotation of a finding is kept when there is room for it behind the
ones before, and its command stands behind theirs; the notices stand behind all of them. -/
def TruncationVisible (report : ScanReport) (limit : Int) : Prop :=
  ∀ before a behind, annotationsFor report = before ++ a :: behind →
    ((levelCount a.level before : Int) < limit ∧
      (commandsOf report limit)[(capped before limit).kept.length]? = some (commandOf a) ∧
      Rendered limit (commandsOf report limit) (capped before limit).kept.length) ∨
    (limit ≤ levelCount a.level before ∧ ∃ i count,
      (capped (annotationsFor report) limit).kept.length ≤ i ∧
      (commandsOf report limit)[i]? = some (noticeCommand limit a.level count) ∧
      Rendered limit (commandsOf report limit) i)

/-- The findings that become notices. -/
def noticeCount (report : ScanReport) : Nat :=
  report.findings.countP fun f => f.state = .info ∨ f.state = .unknown

/-- The findings that become warnings. -/
def warningCount (report : ScanReport) : Nat := report.findings.countP fun f => f.state = .warn

/-- Nothing to render, or no finding that stops the build and a place for every notice. -/
def RoomForAll (report : ScanReport) (limit : Int) : Prop :=
  (∀ f ∈ report.findings, f.state = .pass) ∨
    (1 ≤ limit ∧ (∀ f ∈ report.findings, f.state ≠ .blocked ∧ f.state ≠ .error) ∧
      (noticeCount report : Int) ≤ limit ∧
      ((warningCount report : Int) ≤ limit ∨ (noticeCount report : Int) < limit))

/-! ## Counts -/

theorem commandsOf_eq (report : ScanReport) (limit : Int) :
    commandsOf report limit = expectedCommands report limit := by
  rw [commandsOf, readCommands_render, List.filterMap_map]
  exact List.filterMap_some

/-- The annotations of a level are the findings of its states. -/
theorem levelCount_annotationsFor (report : ScanReport) (level : AnnotationLevel) :
    levelCount level (annotationsFor report) =
      report.findings.countP fun f => f.state ≠ .pass ∧ levelOf f.state = level := by
  rw [levelCount, annotationsFor, List.countP_map, (interesting_perm report).countP_eq, List.countP_filter]
  apply List.countP_congr
  intro f _
  simp only [annotationOf, Function.comp_apply, Bool.and_eq_true, decide_eq_true_iff]
  exact (and_congr_left fun _ => decide_eq_true_iff).trans and_comm

theorem noticeCount_eq (report : ScanReport) :
    levelCount .notice (annotationsFor report) = noticeCount report := by
  rw [levelCount_annotationsFor, noticeCount]
  apply List.countP_congr
  intro f _
  cases f.state <;> simp [levelOf]

theorem warningCount_eq (report : ScanReport) :
    levelCount .warning (annotationsFor report) = warningCount report := by
  rw [levelCount_annotationsFor, warningCount]
  apply List.countP_congr
  intro f _
  cases f.state <;> simp [levelOf]

theorem failureCount_eq_zero_iff (report : ScanReport) :
    levelCount .failure (annotationsFor report) = 0 ↔
      ∀ f ∈ report.findings, f.state ≠ .blocked ∧ f.state ≠ .error := by
  rw [levelCount_annotationsFor, List.countP_eq_zero]
  refine forall_congr' fun f => forall_congr' fun _ => ?_
  cases f.state <;> simp [levelOf]

theorem annotationsFor_eq_nil_iff (report : ScanReport) :
    annotationsFor report = [] ↔ ∀ f ∈ report.findings, f.state = .pass := by
  rw [annotationsFor, List.map_eq_nil_iff, ← List.length_eq_zero_iff,
    (interesting_perm report).length_eq, List.length_eq_zero_iff, List.filter_eq_nil_iff]
  simp

theorem levelName_injective {level other : AnnotationLevel} (h : level.name = other.name) :
    level = other := by
  cases level <;> cases other <;> first | rfl | exact absurd h (by decide)

/-- The commands of a kind among the commands of annotations. -/
theorem countP_commandOf (level : AnnotationLevel) (annotations : List Annotation) :
    ((annotations.map commandOf).countP fun c => c.name = level.name) =
      levelCount level annotations := by
  rw [List.countP_map, levelCount]
  apply List.countP_congr
  intro a _
  simp only [Function.comp_apply, commandOf, decide_eq_true_iff]
  exact ⟨fun h => levelName_injective (of_decide_eq_true h),
    fun h => decide_eq_true (congrArg AnnotationLevel.name h)⟩

/-- The annotations of a level that are kept. -/
theorem levelCount_kept (annotations : List Annotation) (limit : Int) (level : AnnotationLevel) :
    levelCount level (capped annotations limit).kept =
      min limit.toNat (levelCount level annotations) := by
  rw [levelCount, List.countP_eq_length_filter, (capped_invariant annotations limit).kept,
    List.length_take, ← List.countP_eq_length_filter]
  rfl

/-- What is kept of a part is the beginning of what is kept. -/
theorem kept_append (annotations more : List Annotation) (limit : Int) :
    (capped annotations limit).kept <+: (capped (annotations ++ more) limit).kept := by
  induction more using List.reverseRecOn with
  | nil => rw [List.append_nil]
  | append_singleton more a ih =>
    have hstep : (capped (annotations ++ (more ++ [a])) limit) =
        capStep limit (capped (annotations ++ more) limit) a := by
      rw [← List.append_assoc, capped, List.foldl_append]
      rfl
    rw [hstep, capStep]
    split_ifs
    · exact ih.trans (List.prefix_append _ _)
    · exact ih

/-- An annotation that there is room for stands behind the ones that are kept before it. -/
theorem kept_of_room {before behind : List Annotation} {a : Annotation} {limit : Int}
    (h : (levelCount a.level before : Int) < limit) :
    (capped before limit).kept ++ [a] <+: (capped (before ++ a :: behind) limit).kept := by
  have hstep : (capped (before ++ [a]) limit).kept = (capped before limit).kept ++ [a] := by
    have hseen := (capInvariant_step (capped_invariant before limit) a).seen a.level
    rw [capped, List.foldl_append, List.foldl_cons, List.foldl_nil]
    show (capStep limit (capped before limit) a).kept = _
    have hcount := (capped_invariant before limit).seen a.level
    rw [capStep, countOf_set, if_pos rfl, hcount, if_pos (by omega)]
  have happend := kept_append (before ++ [a]) behind limit
  rw [List.append_assoc, List.singleton_append, hstep] at happend
  exact happend

/-! ## Places -/

/-- The place of the notice of a level. -/
theorem notice_place {report : ScanReport} {limit : Int} {i count : Nat} {level : AnnotationLevel}
    (hplace : (capped (annotationsFor report) limit).kept.length ≤ i)
    (hcommand : (commandsOf report limit)[i]? = some (noticeCommand limit level count))
    (hrendered : Rendered limit (commandsOf report limit) i) :
    (min limit.toNat (noticeCount report) : Int) < limit := by
  rcases hrendered with ⟨c, hc, _, hroom⟩
  rw [hcommand] at hc
  rw [← Option.some.inj hc, commandsOf_eq] at hroom
  have hkept := levelCount_kept (annotationsFor report) limit .notice
  rw [noticeCount_eq, ← countP_commandOf] at hkept
  have hfirst : ((expectedCommands report limit).take i).countP
      (fun other => other.name = lit "notice") ≥
        (((capped (annotationsFor report) limit).kept.map commandOf).countP
          fun other => other.name = lit "notice") := by
    rw [expectedCommands, List.take_append, List.take_of_length_le (by rw [List.length_map]; exact hplace),
      List.countP_append]
    exact Nat.le_add_right _ _
  rw [show AnnotationLevel.name .notice = lit "notice" from rfl] at hkept
  rw [hkept] at hfirst
  have hroom' : (((expectedCommands report limit).take i).countP
      (fun other => other.name = lit "notice") : Int) < limit := hroom
  omega

/-- A list with more than `n` elements that pass a test has one behind `n` of them. -/
theorem exists_split_countP {α : Type} (p : α → Bool) {n : Nat} {l : List α} (h : n < l.countP p) :
    ∃ before a behind, l = before ++ a :: behind ∧ p a = true ∧ before.countP p = n := by
  induction l generalizing n with
  | nil => exact absurd h (Nat.not_lt_zero n)
  | cons a l ih =>
    by_cases ha : p a = true
    · rw [List.countP_cons_of_pos ha] at h
      cases n with
      | zero => exact ⟨[], a, l, rfl, ha, rfl⟩
      | succ n =>
        rcases ih (Nat.lt_of_succ_lt_succ h) with ⟨before, b, behind, rfl, hb, hcount⟩
        refine ⟨a :: before, b, behind, rfl, hb, ?_⟩
        rw [List.countP_cons_of_pos ha, hcount]
    · rw [List.countP_cons_of_neg ha] at h
      rcases ih h with ⟨before, b, behind, rfl, hb, hcount⟩
      refine ⟨a :: before, b, behind, rfl, hb, ?_⟩
      rw [List.countP_cons_of_neg ha, hcount]

/-- Some annotation has a level and stands behind a number of others with it. -/
theorem exists_annotation {annotations : List Annotation} {level : AnnotationLevel} {n : Nat}
    (h : n < levelCount level annotations) :
    ∃ before a behind, annotations = before ++ a :: behind ∧ a.level = level ∧
      levelCount level before = n := by
  rcases exists_split_countP _ h with ⟨before, a, behind, hsplit, ha, hcount⟩
  exact ⟨before, a, behind, hsplit, of_decide_eq_true ha, hcount⟩

/-- What is visible has room. -/
theorem TruncationVisible.room {report : ScanReport} {limit : Int}
    (h : TruncationVisible report limit) : RoomForAll report limit := by
  by_cases hnone : annotationsFor report = []
  · exact Or.inl ((annotationsFor_eq_nil_iff report).mp hnone)
  · right
    have hlimit : 1 ≤ limit := by
      rcases List.exists_cons_of_ne_nil hnone with ⟨a, behind, hsplit⟩
      rcases h [] a behind hsplit with ⟨hroom, _⟩ | ⟨_, i, count, hplace, hcommand, hrendered⟩
      · exact Int.lt_of_le_of_lt (Int.natCast_nonneg _) hroom
      · have := notice_place hplace hcommand hrendered
        omega
    have hfull : ∀ level, limit.toNat < levelCount level (annotationsFor report) →
        (noticeCount report : Int) < limit := by
      intro level hmore
      rcases exists_annotation hmore with ⟨before, a, behind, hsplit, hlevel, hcount⟩
      rcases h before a behind hsplit with ⟨hroom, _⟩ | ⟨_, i, count, hplace, hcommand, hrendered⟩
      · rw [hlevel, hcount] at hroom
        omega
      · have := notice_place hplace hcommand hrendered
        omega
    refine ⟨hlimit, ?_, ?_, ?_⟩
    · rw [← failureCount_eq_zero_iff]
      by_contra hsome
      rcases exists_annotation (Nat.pos_of_ne_zero hsome) with
        ⟨before, a, behind, hsplit, hlevel, hcount⟩
      rcases h before a behind hsplit with ⟨_, hcommand, hrendered⟩ | ⟨hover, _⟩
      · rcases hrendered with ⟨c, hc, hkind, _⟩
        rw [hcommand] at hc
        rw [← Option.some.inj hc] at hkind
        have hname : (commandOf a).name = lit "failure" := by
          rw [commandOf, hlevel]
          rfl
        rw [hname] at hkind
        exact absurd hkind (by decide)
      · rw [hlevel, hcount] at hover
        omega
    · by_contra hover
      have := hfull .notice (by rw [noticeCount_eq]; omega)
      omega
    · by_cases hwarnings : (warningCount report : Int) ≤ limit
      · exact Or.inl hwarnings
      · exact Or.inr (hfull .warning (by rw [warningCount_eq]; omega))

/-- A list whose keys are distinct and all the same has one entry. -/
theorem eq_singleton_of_keys {κ β : Type} {items : List (κ × β)} {item : κ × β}
    (hmem : item ∈ items) (hnodup : (items.map Prod.fst).Nodup)
    (hkey : ∀ other ∈ items, other.1 = item.1) : items = [item] := by
  rcases items with _ | ⟨first, _ | ⟨second, rest⟩⟩
  · exact absurd hmem List.not_mem_nil
  · rw [List.mem_singleton.mp hmem]
  · have hsame : first.1 = second.1 :=
      (hkey first (by simp)).trans (hkey second (by simp)).symm
    rw [List.map_cons, List.map_cons, List.nodup_cons] at hnodup
    exact absurd (hsame ▸ List.mem_cons_self) hnodup.1

theorem levelCount_split (level : AnnotationLevel) (before : List Annotation) (a : Annotation)
    (behind : List Annotation) :
    levelCount level (before ++ a :: behind) =
      levelCount level before + (if a.level = level then 1 else 0) + levelCount level behind := by
  rw [← List.singleton_append, ← List.append_assoc, levelCount, List.countP_append,
    ← levelCount, ← levelCount, levelCount_snoc]

/-- An annotation with room is rendered in its place. -/
theorem rendered_of_room {before behind : List Annotation} {a : Annotation} {limit : Int}
    (hfailure : a.level ≠ .failure) (hroom : (levelCount a.level before : Int) < limit)
    (notices : List Command) :
    (((capped (before ++ a :: behind) limit).kept.map commandOf ++ notices)[
        (capped before limit).kept.length]? = some (commandOf a)) ∧
      Rendered limit ((capped (before ++ a :: behind) limit).kept.map commandOf ++ notices)
        (capped before limit).kept.length := by
  rcases @kept_of_room before behind a limit hroom with ⟨more, hkept⟩
  have hcommands : (capped (before ++ a :: behind) limit).kept.map commandOf ++ notices =
      (capped before limit).kept.map commandOf ++
        (commandOf a :: (more.map commandOf ++ notices)) := by
    rw [← hkept]
    simp
  have hlength : ((capped before limit).kept.map commandOf).length =
      (capped before limit).kept.length := List.length_map _
  have hplace : ((capped before limit).kept.map commandOf ++
      (commandOf a :: (more.map commandOf ++ notices)))[(capped before limit).kept.length]? =
        some (commandOf a) := by
    rw [← hlength, List.getElem?_append_right (le_refl _), Nat.sub_self]
    rfl
  rw [hcommands]
  refine ⟨hplace, commandOf a, hplace, ?_, ?_⟩
  · show a.level.name ∈ renderedKinds
    cases hlevel : a.level with
    | notice => decide
    | warning => decide
    | failure => exact absurd hlevel hfailure
  · rw [← hlength, List.take_left]
    show ((((capped before limit).kept.map commandOf).countP fun c => c.name = a.level.name : Nat) :
      Int) < limit
    rw [countP_commandOf, levelCount_kept]
    omega

/-- What has room is visible. -/
theorem RoomForAll.visible {report : ScanReport} {limit : Int} (h : RoomForAll report limit) :
    TruncationVisible report limit := by
  intro before a behind hsplit
  rcases h with hnone | ⟨hlimit, hfailures, hnotices, hwarnings⟩
  · rw [(annotationsFor_eq_nil_iff report).mpr hnone] at hsplit
    exact absurd hsplit.symm (List.append_ne_nil_of_right_ne_nil _ (List.cons_ne_nil _ _))
  · have hfailure := (failureCount_eq_zero_iff report).mpr hfailures
    have hnotice := noticeCount_eq report
    have hcount := levelCount_split a.level before a behind
    rw [if_pos rfl, ← hsplit] at hcount
    have hlevel : a.level ≠ .failure := by
      intro heq
      rw [heq] at hcount
      omega
    rw [commandsOf_eq, expectedCommands, hsplit]
    by_cases hroom : (levelCount a.level before : Int) < limit
    · have hplace := @rendered_of_room before behind a limit hlevel hroom
      exact Or.inl ⟨hroom, hplace _⟩
    · right
      have hwarning : a.level = .warning := by
        cases heq : a.level with
        | notice =>
          rw [heq] at hcount hroom
          omega
        | warning => rfl
        | failure => exact absurd heq hlevel
      rw [hwarning] at hcount hroom ⊢
      have hmany := warningCount_eq report
      have hfree : (noticeCount report : Int) < limit := by
        rcases hwarnings with hfew | hfree
        · omega
        · exact hfree
      rw [← hsplit]
      have hitem : (AnnotationLevel.warning, warningCount report - limit.toNat) ∈
          droppedItems (capped (annotationsFor report) limit).dropped := by
        rw [mem_droppedItems]
        omega
      have hitems : droppedItems (capped (annotationsFor report) limit).dropped =
          [(.warning, warningCount report - limit.toNat)] := by
        apply eq_singleton_of_keys hitem (droppedItems_once _ _)
        rintro ⟨level, count⟩ hother
        rw [mem_droppedItems] at hother
        cases level with
        | notice => omega
        | warning => rfl
        | failure => omega
      have hlength : ((capped (annotationsFor report) limit).kept.map commandOf).length =
          (capped (annotationsFor report) limit).kept.length := List.length_map _
      have hplace : ((capped (annotationsFor report) limit).kept.map commandOf ++
          (droppedItems (capped (annotationsFor report) limit).dropped).map
            fun item => noticeCommand limit item.1 item.2)[
              (capped (annotationsFor report) limit).kept.length]? =
            some (noticeCommand limit .warning (warningCount report - limit.toNat)) := by
        rw [hitems, ← hlength, List.getElem?_append_right (le_refl _), Nat.sub_self]
        rfl
      have hkind : lit "notice" ∈ renderedKinds := by decide
      refine ⟨by omega, _, _, le_refl _, hplace, _, hplace, hkind, ?_⟩
      rw [← hlength, List.take_left]
      show ((((capped (annotationsFor report) limit).kept.map commandOf).countP
        fun c => c.name = AnnotationLevel.name .notice : Nat) : Int) < limit
      rw [countP_commandOf, levelCount_kept, hnotice]
      omega

/-- No finding is lost exactly when none stops the build and every notice has a place. -/
theorem truncation_visible_iff (report : ScanReport) (limit : Int) :
    TruncationVisible report limit ↔ RoomForAll report limit :=
  ⟨TruncationVisible.room, RoomForAll.visible⟩

namespace Sample

/-- A finding that stops the build. -/
def daemonDown : Finding :=
  ⟨"docker/daemon-not-running", .blocked, "The Docker daemon is not running.",
    [⟨"command", none, none, none, false⟩], none, none, none, none, [], none⟩

end Sample

/-- The only finding of a report is not rendered. -/
theorem blocked_finding_lost : ¬TruncationVisible (Sample.reportOf [Sample.daemonDown]) 10 := by
  intro hvisible
  rcases hvisible.room with hpass | ⟨_, hstates, _⟩
  · exact absurd (hpass _ List.mem_cons_self) (by decide)
  · exact absurd rfl (hstates _ List.mem_cons_self).1

end DevRepro.Reports
