import DevRepro.Project.Matrices

/-!
# Matrices in a workflow

Where the matrix of a job stands in a workflow, and that `parse_workflow_matrices` finds it
there: the lines before and behind it do not reach its axes.
-/

namespace DevRepro.Project

open DevRepro.Python DevRepro.Lib DevRepro.Agents

/-! ## Workflows -/

/-- The lines of jobs with other names, whose keys stand in a column. -/
structure OtherJobs (rt : WordRuntime) (job : Str) (h : Nat) (lines : List (Nat × Str)) : Prop where
  first : ∀ line ∈ lines.head?, line.1 = h
  each : ∀ line ∈ lines, h < line.1 ∨
    (line.1 = h ∧ ∃ name, blockKey rt.toAgentRuntime line.2 = some name ∧ name ≠ job)

/-- A workflow with the matrix of a job: what is before `jobs:`, other jobs, the job with its
matrix between its other lines, more jobs, and what is behind. -/
inductive Renders (rt : WordRuntime) (job : Str) (sections : List MatrixSection) :
    List (Nat × Str) → Prop
  | mk {pre earlier body own later trailing : List (Nat × Str)} {blocks : List (List (Nat × Str))}
      {header : Str} {j h m c : Nat} (hj : j < h) (hm : h < m) (hc : m < c)
      (hpre : ∀ line ∈ pre, line.2 ≠ lit "jobs:") (hearlier : OtherJobs rt job h earlier)
      (hheader : blockKey rt.toAgentRuntime header = some job)
      (hbody : ∀ line ∈ body, h < line.1 ∧ line.2 ≠ lit "matrix:")
      (hblocks : List.Forall₂ (SectionLines c) sections blocks)
      (hleft : ∀ line ∈ own.head?, line.1 ≤ m)
      (hown : ∀ line ∈ own, h < line.1 ∧ line.2 ≠ lit "matrix:")
      (hlater : OtherJobs rt job h later) (hout : ∀ line ∈ trailing.head?, line.1 ≤ j)
      (htrailing : ∀ line ∈ trailing, line.2 ≠ lit "jobs:") :
      Renders rt job sections (pre ++ (j, lit "jobs:") :: (earlier ++ (h, header) ::
        (body ++ (m, lit "matrix:") :: (blocks.flatten ++ (own ++ (later ++ trailing))))))

/-- The matrix of a job is read as it says: each key with its values, and no other. -/
def MatrixRead (rt : WordRuntime) (lines : List Str) (job : Str) (sections : List MatrixSection) :
    Prop :=
  ∃ axes, (parseWorkflowMatrices rt.toAgentRuntime lines).get? job = some axes ∧
    ∀ key, axes.get? key =
      if matrixValues sections key = [] then none else some (matrixValues sections key)

/-! ## Lines -/

section Scan

variable {rt : WordRuntime} {s : MatrixScan} {j h m : Nat} {job name : Str}

/-- A line that is neither blank nor a comment. -/
def scanItem (rt : AgentRuntime) (s : MatrixScan) (line : Nat × Str) : MatrixScan :=
  match s.jobsIndent with
  | none => if line.2 = lit "jobs:" then { s with jobsIndent := some line.1 } else s
  | some jobsIndent => jobsLine rt s jobsIndent line.1 line.2

def scanItems (rt : AgentRuntime) (s : MatrixScan) (lines : List (Nat × Str)) : MatrixScan :=
  lines.foldl (scanItem rt) s

theorem foldl_scanLine (rt : AgentRuntime) (lines : List Str) (s : MatrixScan) :
    lines.foldl (scanLine rt) s = scanItems rt s (contentOf lines) := by
  induction lines generalizing s with
  | nil => rfl
  | cons line rest ih =>
    rw [List.foldl_cons, ih, contentOf, contentOf]
    cases hfiller : isFiller line with
    | true =>
      rw [List.filter_cons_of_neg (by simp [hfiller]), scanLine, if_pos hfiller]
    | false =>
      rw [List.filter_cons_of_pos (by simp [hfiller]), scanLine, hfiller, if_neg Bool.false_ne_true]
      rfl

theorem scanItems_append (rt : AgentRuntime) (s : MatrixScan) (front back : List (Nat × Str)) :
    scanItems rt s (front ++ back) = scanItems rt (scanItems rt s front) back := List.foldl_append

theorem scanItems_cons (rt : AgentRuntime) (s : MatrixScan) (line : Nat × Str)
    (rest : List (Nat × Str)) :
    scanItems rt s (line :: rest) = scanItems rt (scanItem rt s line) rest := rfl

theorem scanItems_unchanged {lines : List (Nat × Str)}
    (hall : ∀ line ∈ lines, scanItem rt.toAgentRuntime s line = s) :
    scanItems rt.toAgentRuntime s lines = s := by
  induction lines with
  | nil => rfl
  | cons line rest ih =>
    rw [scanItems_cons, hall line List.mem_cons_self]
    exact ih fun other hother => hall other (List.mem_cons_of_mem _ hother)

/-- Outside `jobs:` only that key counts. -/
theorem scanItems_outside {lines : List (Nat × Str)} (hjobs : s.jobsIndent = none)
    (hall : ∀ line ∈ lines, line.2 ≠ lit "jobs:") : scanItems rt.toAgentRuntime s lines = s := by
  refine scanItems_unchanged fun line hline => ?_
  rw [scanItem, hjobs]
  dsimp only
  rw [if_neg (hall line hline)]

theorem scanItem_jobs (hjobs : s.jobsIndent = some j) (line : Nat × Str) :
    scanItem rt.toAgentRuntime s line = jobsLine rt.toAgentRuntime s j line.1 line.2 := by
  rw [scanItem, hjobs]

/-- A line within a job. -/
theorem scanItem_deeper (hjobs : s.jobsIndent = some j) (hjob : s.job = some name)
    (hindent : s.jobIndent = h) (hj : j < h) {line : Nat × Str} (hdeeper : h < line.1) :
    scanItem rt.toAgentRuntime s line = jobLine rt.toAgentRuntime s name line.1 line.2 := by
  have hin : ¬(line.1 ≤ j ∧ line.2 ≠ lit "jobs:") := fun hand => by
    have := hand.1
    omega
  have hheader : (s.job.isNone || decide (line.1 ≤ s.jobIndent)) = false := by
    rw [hjob, Option.isNone_some, Bool.false_or, hindent, decide_eq_false_iff_not]
    omega
  rw [scanItem_jobs hjobs, jobsLine, if_neg hin, hheader, if_neg Bool.false_ne_true, hjob]

/-- The key of a job. -/
theorem scanItem_header (hjobs : s.jobsIndent = some j) (hplace : s.job = none ∨ s.jobIndent = h)
    (hj : j < h) {text : Str} (hkey : blockKey rt.toAgentRuntime text = some name) :
    scanItem rt.toAgentRuntime s (h, text) =
      { s with
        job := some name
        jobIndent := h
        matrixIndent := none
        axis := none
        inInclude := false } := by
  have hin : ¬(h ≤ j ∧ text ≠ lit "jobs:") := fun hand => by
    have := hand.1
    omega
  have hheader : (s.job.isNone || decide (h ≤ s.jobIndent)) = true := by
    rcases hplace with hnone | hsame
    · rw [hnone]
      rfl
    · rw [hsame, decide_eq_true le_rfl, Bool.or_true]
  rw [scanItem_jobs hjobs, jobsLine, if_neg hin, if_pos hheader, hkey, Option.filter_some,
    if_pos (decide_eq_true hj)]

/-! ## Other jobs -/

/-- The axes of the other jobs are not touched, nor the place of the job. -/
theorem jobLine_frame (rt : AgentRuntime) (s : MatrixScan) (name : Str) (i : Nat) (text : Str) :
    (jobLine rt s name i text).jobsIndent = s.jobsIndent ∧ (jobLine rt s name i text).job = s.job ∧
      (jobLine rt s name i text).jobIndent = s.jobIndent ∧
      ∀ other, other ≠ name →
        (jobLine rt s name i text).matrices.get? other = s.matrices.get? other := by
  rw [jobLine]
  split
  · split
    · refine ⟨rfl, rfl, rfl, fun other hother => ?_⟩
      dsimp only
      split
      · rfl
      · rw [Dict.get?_set, if_neg hother]
    · exact ⟨rfl, rfl, rfl, fun other hother => rfl⟩
  · split
    · exact ⟨rfl, rfl, rfl, fun other hother => rfl⟩
    · refine ⟨rfl, rfl, rfl, fun other hother => ?_⟩
      rw [matrixLine]
      exact (Dict.get?_set _ _ _ _).trans (if_neg hother)

/-- The scanner is between two jobs, with some axes for the job. -/
structure Between (j h : Nat) (job : Str) (axes : Option Axes) (s : MatrixScan) : Prop where
  jobs : s.jobsIndent = some j
  place : s.job = none ∨ s.jobIndent = h
  axes : s.matrices.get? job = axes

/-- A line of another job, within it. -/
theorem Between.other {axes : Option Axes} (hs : Between j h job axes s) (hj : j < h)
    (hother : ∃ name, s.job = some name ∧ name ≠ job) {line : Nat × Str}
    (hline : h < line.1 ∨
      (line.1 = h ∧ ∃ name, blockKey rt.toAgentRuntime line.2 = some name ∧ name ≠ job)) :
    Between j h job axes (scanItem rt.toAgentRuntime s line) ∧
      ∃ name, (scanItem rt.toAgentRuntime s line).job = some name ∧ name ≠ job := by
  obtain ⟨name, hname, hne⟩ := hother
  have hindent : s.jobIndent = h := by
    rcases hs.place with hnone | hsame
    · rw [hname] at hnone
      cases hnone
    · exact hsame
  obtain ⟨i, text⟩ := line
  rcases hline with hdeeper | ⟨rfl, next, hkey, hnext⟩
  · obtain ⟨hjobs, hjob, hplace, haxes⟩ := jobLine_frame rt.toAgentRuntime s name i text
    rw [scanItem_deeper hs.jobs hname hindent hj hdeeper]
    exact ⟨⟨hjobs.trans hs.jobs, Or.inr (hplace.trans hindent),
      (haxes job (Ne.symm hne)).trans hs.axes⟩, name, hjob.trans hname, hne⟩
  · rw [scanItem_header hs.jobs hs.place hj hkey]
    exact ⟨⟨hs.jobs, Or.inr rfl, hs.axes⟩, next, rfl, hnext⟩

/-- The lines of other jobs leave the scanner between two jobs. -/
theorem Between.others {axes : Option Axes} {lines : List (Nat × Str)}
    (hs : Between j h job axes s) (hj : j < h) (hlines : OtherJobs rt job h lines) :
    Between j h job axes (scanItems rt.toAgentRuntime s lines) := by
  cases lines with
  | nil => exact hs
  | cons line rest =>
    -- The first line is the key of a job.
    obtain ⟨i, text⟩ := line
    have hfirst : i = h := hlines.first (i, text) rfl
    subst hfirst
    obtain ⟨name, hkey, hne⟩ : ∃ name, blockKey rt.toAgentRuntime text = some name ∧ name ≠ job := by
      rcases hlines.each _ List.mem_cons_self with hdeeper | ⟨-, hname⟩
      · exact absurd hdeeper (lt_irrefl i)
      · exact hname
    rw [scanItems_cons, scanItem_header hs.jobs hs.place hj hkey]
    have hrun : ∀ (rest : List (Nat × Str)) (s : MatrixScan), Between j i job axes s →
        (∃ name, s.job = some name ∧ name ≠ job) →
        (∀ line ∈ rest, i < line.1 ∨
          (line.1 = i ∧ ∃ name, blockKey rt.toAgentRuntime line.2 = some name ∧ name ≠ job)) →
        Between j i job axes (scanItems rt.toAgentRuntime s rest) := by
      intro rest
      induction rest with
      | nil => exact fun s hs _ _ => hs
      | cons line rest ih =>
        intro s hs hother hall
        obtain ⟨hnext, hname⟩ := hs.other hj hother (hall line List.mem_cons_self)
        exact ih _ hnext hname fun other hmem => hall other (List.mem_cons_of_mem _ hmem)
    exact hrun rest _ ⟨hs.jobs, Or.inr rfl, hs.axes⟩ ⟨name, rfl, hne⟩
      fun line hline => hlines.each line (List.mem_cons_of_mem _ hline)

/-! ## The job -/

/-- The scanner is in the job. -/
structure InJob (j h : Nat) (job : Str) (s : MatrixScan) : Prop where
  jobs : s.jobsIndent = some j
  job : s.job = some job
  indent : s.jobIndent = h

/-- Lines of the job outside its matrix change nothing. -/
theorem InJob.unchanged {lines : List (Nat × Str)} (hs : InJob j h job s) (hj : j < h)
    (hmatrix : s.matrixIndent = none) (hall : ∀ line ∈ lines, h < line.1 ∧ line.2 ≠ lit "matrix:") :
    scanItems rt.toAgentRuntime s lines = s := by
  refine scanItems_unchanged fun line hline => ?_
  obtain ⟨hdeeper, htext⟩ := hall line hline
  rw [scanItem_deeper hs.jobs hs.job hs.indent hj hdeeper, jobLine, hmatrix]
  dsimp only
  rw [if_neg htext]

/-- The lines of the matrix are read into the axes of the job. -/
theorem InJob.matrix {lines : List (Nat × Str)} (hs : InJob j h job s) (hj : j < h) (hm : h < m)
    (hmatrix : s.matrixIndent = some m) (hsome : (s.matrices.get? job).isSome = true)
    (hall : ∀ line ∈ lines, m < line.1) :
    InJob j h job (scanItems rt.toAgentRuntime s lines) ∧
      (scanItems rt.toAgentRuntime s lines).matrixIndent = some m ∧
      (scanItems rt.toAgentRuntime s lines).matrices.get? job =
        some (readLines rt.toAgentRuntime (s.axesScan job) lines).axes := by
  induction lines generalizing s with
  | nil =>
    obtain ⟨axes, haxes⟩ := Option.isSome_iff_exists.mp hsome
    refine ⟨hs, hmatrix, ?_⟩
    show s.matrices.get? job = some ((s.matrices.get? job).getD Dict.empty)
    rw [haxes]
    rfl
  | cons line rest ih =>
    have hdeeper := hall line List.mem_cons_self
    have hin : ¬line.1 ≤ m := not_le.mpr hdeeper
    have hstep : scanItem rt.toAgentRuntime s line =
        matrixLine rt.toAgentRuntime s job line.1 line.2 := by
      rw [scanItem_deeper hs.jobs hs.job hs.indent hj (hm.trans hdeeper), jobLine, hmatrix]
      dsimp only
      rw [if_neg hin]
    have haxes : (matrixLine rt.toAgentRuntime s job line.1 line.2).axesScan job =
        axesLine rt.toAgentRuntime (s.axesScan job) line.1 line.2 := by
      rw [matrixLine, MatrixScan.axesScan]
      dsimp only
      rw [Dict.get?_set, if_pos rfl]
      rfl
    have hnext :
        ((matrixLine rt.toAgentRuntime s job line.1 line.2).matrices.get? job).isSome = true := by
      rw [matrixLine]
      dsimp only
      rw [Dict.get?_set, if_pos rfl]
      rfl
    rw [scanItems_cons, hstep, readLines_cons, ← haxes]
    exact ih ⟨hs.jobs, hs.job, hs.indent⟩ hmatrix hnext
      fun other hother => hall other (List.mem_cons_of_mem _ hother)

/-- The lines of the job behind its matrix leave its axes as they are. -/
theorem InJob.behind {own : List (Nat × Str)} (hs : InJob j h job s) (hj : j < h)
    (hmatrix : s.matrixIndent = some m) (hleft : ∀ line ∈ own.head?, line.1 ≤ m)
    (hown : ∀ line ∈ own, h < line.1 ∧ line.2 ≠ lit "matrix:") :
    Between j h job (s.matrices.get? job) (scanItems rt.toAgentRuntime s own) := by
  cases own with
  | nil => exact ⟨hs.jobs, Or.inr hs.indent, rfl⟩
  | cons line rest =>
    have hdeeper := (hown line List.mem_cons_self).1
    rw [scanItems_cons, scanItem_deeper hs.jobs hs.job hs.indent hj hdeeper, jobLine, hmatrix]
    dsimp only
    have hsame := @InJob.unchanged rt { s with matrixIndent := none, axis := none, inInclude := false }
      j h job rest ⟨hs.jobs, hs.job, hs.indent⟩ hj rfl
      fun other hother => hown other (List.mem_cons_of_mem _ hother)
    rw [if_pos (hleft line rfl), hsame]
    exact ⟨hs.jobs, Or.inr hs.indent, rfl⟩

/-- What is behind `jobs:` leaves the axes as they are. -/
theorem Between.trailing {axes : Option Axes} {trailing : List (Nat × Str)}
    (hs : Between j h job axes s) (hout : ∀ line ∈ trailing.head?, line.1 ≤ j)
    (htrailing : ∀ line ∈ trailing, line.2 ≠ lit "jobs:") :
    (scanItems rt.toAgentRuntime s trailing).matrices.get? job = axes := by
  cases trailing with
  | nil => exact hs.axes
  | cons line rest =>
    rw [scanItems_cons, scanItem_jobs hs.jobs, jobsLine,
      if_pos ⟨hout line rfl, htrailing line List.mem_cons_self⟩, scanItems_outside rfl
        fun other hother => htrailing other (List.mem_cons_of_mem _ hother)]
    exact hs.axes

end Scan

/-! ## The matrix of a job -/

section Matrix

variable {rt : WordRuntime} {c : Nat}

theorem entryLines_column {column : Nat} {entry : MatrixEntry} {lines : List (Nat × Str)}
    (h : EntryLines column entry lines) : ∀ line ∈ lines, column ≤ line.1 := by
  intro line hline
  cases h with
  | @block first others gap text texts hgap hne hfirst hothers =>
    rcases List.mem_cons.mp hline with rfl | hline
    · exact le_rfl
    · obtain ⟨t, -, rfl⟩ := List.mem_map.mp hline
      dsimp only
      omega
  | flow ht hdashed =>
    rw [List.mem_singleton.mp hline]

theorem ItemColumn.le {indented : Bool} {column : Nat} (h : ItemColumn c indented column) :
    c ≤ column := by
  cases indented with
  | true => exact le_of_lt h
  | false =>
    have hsame : column = c := h
    exact hsame.ge

/-- No line of a section is left of its key. -/
theorem sectionLines_column {sec : MatrixSection} {lines : List (Nat × Str)}
    (h : SectionLines c sec lines) : ∀ line ∈ lines, c ≤ line.1 := by
  intro line hline
  cases h with
  | flow hgap hvalues => rw [List.mem_singleton.mp hline]
  | wrapped hgap hvalues htext hstart hrest =>
    rcases List.mem_cons.mp hline with rfl | hline
    · exact le_rfl
    · exact (hrest line hline).1
  | flowEntries hgap hpieces htext hrest =>
    rcases List.mem_cons.mp hline with rfl | hline
    · exact le_rfl
    · exact (hrest line hline).1
  | block hcolumn hitems =>
    rcases List.mem_cons.mp hline with rfl | hline
    · exact le_rfl
    · obtain ⟨t, -, rfl⟩ := List.mem_map.mp hline
      exact hcolumn.le
  | entries hcolumn hitems =>
    rcases List.mem_cons.mp hline with rfl | hline
    · exact le_rfl
    · obtain ⟨block, hblock, hin⟩ := List.mem_flatten.mp hline
      obtain ⟨entry, -, hentry⟩ := exists_of_forall₂ hitems hblock
      exact hcolumn.le.trans (entryLines_column hentry line hin)

/-- The values of a key, when those that have none are left out. -/
theorem get?_nonemptyAxes (axes : Axes) (key : Str) :
    (nonemptyAxes axes).get? key =
      if valuesAt axes key = [] then none else some (valuesAt axes key) := by
  rw [nonemptyAxes, valuesAt, Dict.get?, Dict.get?]
  dsimp only
  have hnodup := axes.nodup
  generalize axes.items = items at hnodup
  induction items with
  | nil => rfl
  | cons item rest ih =>
    rw [List.map_cons, List.nodup_cons] at hnodup
    rw [Dict.find?_cons]
    by_cases hkey : item.1 = key
    · rw [if_pos hkey, Option.getD_some]
      by_cases hnil : item.2 = []
      · rw [List.filter_cons_of_neg (by simp [hnil]), if_pos hnil, ih hnodup.2]
        have hnone : Dict.find? key rest = none := by
          rw [Dict.find?, Option.map_eq_none_iff, List.find?_eq_none]
          intro other hother
          rw [decide_eq_true_iff]
          rintro rfl
          exact hnodup.1 (hkey ▸ List.mem_map_of_mem hother)
        rw [hnone]
        rfl
      · rw [List.filter_cons_of_pos (by simp [hnil]), Dict.find?_cons, if_pos hkey, if_neg hnil]
    · rw [if_neg hkey, ← ih hnodup.2]
      by_cases hnil : item.2 = []
      · rw [List.filter_cons_of_neg (by simp [hnil])]
      · rw [List.filter_cons_of_pos (by simp [hnil]), Dict.find?_cons, if_neg hkey]

/-- The scanner has read the key of the matrix of a job. -/
structure AtMatrix (j h m : Nat) (job : Str) (s : MatrixScan) : Prop where
  inJob : InJob j h job s
  matrix : s.matrixIndent = some m
  empty : s.matrices.get? job = some Dict.empty
  axis : s.axis = none
  outside : s.inInclude = false

/-- The key of the job, its lines before the matrix, and the key of the matrix. -/
theorem Between.matrix {s : MatrixScan} {j h m : Nat} {job header : Str} {body : List (Nat × Str)}
    (hs : Between j h job none s) (hj : j < h) (hm : h < m)
    (hheader : blockKey rt.toAgentRuntime header = some job)
    (hbody : ∀ line ∈ body, h < line.1 ∧ line.2 ≠ lit "matrix:") :
    AtMatrix j h m job
      (scanItems rt.toAgentRuntime s ((h, header) :: (body ++ [(m, lit "matrix:")]))) := by
  rw [scanItems_cons, scanItem_header hs.jobs hs.place hj hheader, scanItems_append]
  have hin : InJob j h job ⟨s.matrices, s.jobsIndent, some job, h, none, none, s.axisIndent, false⟩ :=
    ⟨hs.jobs, rfl, rfl⟩
  rw [hin.unchanged hj rfl hbody]
  have hkey : scanItem rt.toAgentRuntime
      ⟨s.matrices, s.jobsIndent, some job, h, none, none, s.axisIndent, false⟩ (m, lit "matrix:") =
        ⟨s.matrices.set job Dict.empty, s.jobsIndent, some job, h, some m, none, s.axisIndent, false⟩ := by
    rw [scanItem_deeper hin.jobs hin.job hin.indent hj hm, jobLine]
    dsimp only
    rw [if_pos rfl, if_neg]
    rw [Dict.contains, hs.axes]
    exact Bool.false_ne_true
  have hempty : (s.matrices.set job (Dict.empty : Axes)).get? job = some Dict.empty := by
    rw [Dict.get?_set, if_pos rfl]
  rw [scanItems_cons, hkey]
  exact ⟨⟨hs.jobs, rfl, rfl⟩, rfl, hempty, rfl, rfl⟩

/-- Behind the key of the matrix its sections are read. -/
theorem AtMatrix.sections {s : MatrixScan} {j h m c : Nat} {job : Str} {sections : List MatrixSection}
    {blocks : List (List (Nat × Str))} (hs : AtMatrix j h m job s) (hj : j < h) (hm : h < m)
    (hc : m < c) (hblocks : List.Forall₂ (SectionLines c) sections blocks)
    (hplain : ∀ sec ∈ sections, sec.Plain rt) :
    InJob j h job (scanItems rt.toAgentRuntime s blocks.flatten) ∧
      (scanItems rt.toAgentRuntime s blocks.flatten).matrixIndent = some m ∧
      (scanItems rt.toAgentRuntime s blocks.flatten).matrices.get? job =
        some (sections.foldl MatrixSection.run ⟨Dict.empty, false⟩).axes := by
  have hcolumns : ∀ line ∈ blocks.flatten, m < line.1 := by
    intro line hline
    obtain ⟨block, hblock, hin⟩ := List.mem_flatten.mp hline
    obtain ⟨sec, -, hsec⟩ := exists_of_forall₂ hblocks hblock
    exact hc.trans_le (sectionLines_column hsec line hin)
  have hscan : s.axesScan job = ⟨Dict.empty, none, s.axisIndent, false⟩ := by
    rw [MatrixScan.axesScan, hs.empty, hs.axis, hs.outside]
    rfl
  have hread := @sections_read rt ⟨Dict.empty, none, s.axisIndent, false⟩ c sections blocks hblocks
    hplain ⟨nofun, Or.inl rfl⟩
  obtain ⟨hjob, hinside, haxes⟩ := @InJob.matrix rt s j h m job _ hs.inJob hj hm hs.matrix
    (by rw [hs.empty]; rfl) hcolumns
  rw [hscan, hread] at haxes
  exact ⟨hjob, hinside, haxes⟩

/-- Whatever stands around it, the matrix of a job is read section by section. -/
theorem matrices_get? {lines : List Str} {job : Str} {sections : List MatrixSection}
    (hplain : ∀ sec ∈ sections, sec.Plain rt) (h : Renders rt job sections (contentOf lines)) :
    (parseWorkflowMatrices rt.toAgentRuntime lines).get? job =
      some (nonemptyAxes (sections.foldl MatrixSection.run ⟨Dict.empty, false⟩).axes) := by
  rw [parseWorkflowMatrices, foldl_scanLine]
  generalize contentOf lines = content at h
  cases h with
  | @mk pre earlier body own later trailing blocks header j h m c hj hm hc hpre hearlier hheader hbody
      hblocks hleft hown hlater hout htrailing =>
    have hjobs : scanItem rt.toAgentRuntime .initial (j, lit "jobs:") =
        { MatrixScan.initial with jobsIndent := some j } := by
      rw [scanItem]
      exact if_pos rfl
    have hbefore : Between j h job none { MatrixScan.initial with jobsIndent := some j } :=
      ⟨rfl, Or.inl rfl, rfl⟩
    have hshape : (h, header) :: (body ++ (m, lit "matrix:") :: (blocks.flatten ++
        (own ++ (later ++ trailing)))) = ((h, header) :: (body ++ [(m, lit "matrix:")])) ++
          (blocks.flatten ++ (own ++ (later ++ trailing))) := by simp
    rw [scanItems_append, scanItems_outside rfl hpre, scanItems_cons, hjobs, scanItems_append, hshape,
      scanItems_append, scanItems_append, scanItems_append, scanItems_append]
    have hopen := (hbefore.others hj hearlier).matrix (m := m) hj hm hheader hbody
    obtain ⟨hjob, hinside, haxes⟩ := hopen.sections hj hm hc hblocks hplain
    have hafter := (@InJob.behind rt _ j h m job own hjob hj hinside hleft hown).others hj hlater
    rw [Dict.get?_mapValues, hafter.trailing hout htrailing, haxes]
    rfl

end Matrix

/-- The matrix of a job is read as it says when nothing of its `include` is lost, and every
section keeps its values. -/
theorem matrixRead_iff {rt : WordRuntime} {lines : List Str} {job : Str}
    {sections : List MatrixSection} (hwell : WellFormed rt sections)
    (h : Renders rt job sections (contentOf lines)) :
    MatrixRead rt lines job sections ↔ IncludeSeen sections ∧ SectionsKept sections := by
  have hvalues : ∀ key, valuesAt (sections.foldl MatrixSection.run ⟨Dict.empty, false⟩).axes key =
      readAt sections key := fun key => congrArg Prod.fst (sections_at key sections ⟨Dict.empty, false⟩)
  rw [← sections_kept_iff hwell, MatrixRead, matrices_get? hwell.plain h]
  constructor
  · rintro ⟨axes, haxes, hall⟩ key
    rw [← Option.some_inj.mp haxes] at hall
    have hkey := hall key
    rw [get?_nonemptyAxes, hvalues] at hkey
    split_ifs at hkey with hread hsaid hsaid
    · exact hread.trans hsaid.symm
    · exact Option.some_inj.mp hkey
  · intro hall
    refine ⟨_, rfl, fun key => ?_⟩
    rw [get?_nonemptyAxes, hvalues, hall key]

/-! ## Two orders -/

namespace Sample

def matrixHeader : List Str := ["jobs:", "  test:", "    strategy:", "      matrix:"]

def pythonAxis : MatrixSection := .flow "python" (texts ["3.11", "3.12"])

def pythonInclude : MatrixSection := .entries true [.block ("python", "3.13") []] true

def axisLines : List Str := ["        python: [3.11, '3.12']"]

def includeLines : List Str :=
  ["        include:", "          # Not released.", "          - python: \"3.13\""]

/-- What `axisLines` reads as. -/
def axisContent : List (Nat × Str) :=
  [(8, lit "python" ++ codePoint ':' :: (lit " " ++ codePoint '[' ::
    (join "," [[] ++ lit "3.11" ++ [],
      lit " " ++ codePoint '\'' :: (lit "3.12" ++ [codePoint '\'']) ++ []] ++ [codePoint ']'])))]

/-- What `includeLines` reads as. -/
def includeContent : List (Nat × Str) :=
  (8, entriesKey true ++ lit ":") :: List.flatten [(10, codePoint '-' :: (lit " " ++
    (lit "python" ++ codePoint ':' :: (lit " " ++ codePoint '"' :: (lit "3.13" ++ [codePoint '"']))))) ::
      List.map (fun t => (10 + 1 + (lit " ").length, t)) []]

theorem sampleBlank : IsBlank (lit " ") := by
  intro c hc
  rw [List.mem_singleton.mp (show c ∈ [codePoint ' '] from hc)]
  decide

theorem samplePython : KeyName .standard (lit "python") := keyName_of_ascii (by decide) (by decide)

theorem sampleVersion {v : Str} (h : v ∈ texts ["3.11", "3.12", "3.13"]) : PlainValue v := by
  have hall : (texts ["3.11", "3.12", "3.13"]).all (fun v => decide (v ≠ []) &&
      v.all fun c => !isSpace c && !isQuote c && decide (c ∉ valueSigns)) = true := by
    decide
  have hchecked := List.all_eq_true.mp hall v h
  rw [Bool.and_eq_true, decide_eq_true_iff] at hchecked
  exact plainValue_of_checks hchecked.1 hchecked.2

theorem axisContent_lines : SectionLines 8 pythonAxis axisContent := by
  refine .flow sampleBlank (.some (List.cons_ne_nil _ _) (.cons ?_ (.cons ?_ .nil)))
  · exact .mk nofun .bare nofun
  · exact .mk sampleBlank (.quoted (by decide)) nofun

theorem includeContent_lines : SectionLines 8 pythonInclude includeContent := by
  refine .entries (show 8 < 10 by decide) (.cons ?_ .nil)
  exact .block sampleBlank (List.cons_ne_nil _ _) (.mk sampleBlank (.quoted (by decide))) .nil

/-- The matrix of `test`, whose sections are in the column 8. -/
theorem sampleRenders {sections : List MatrixSection} {blocks : List (List (Nat × Str))}
    (h : List.Forall₂ (SectionLines 8) sections blocks) {content : List (Nat × Str)}
    (hcontent : content = contentOf matrixHeader ++ blocks.flatten) :
    Renders .standard (lit "test") sections content := by
  have hheader : contentOf matrixHeader = [] ++ (0, lit "jobs:") :: ([] ++ (2, lit "test:") ::
      ([(4, lit "strategy:")] ++ [(6, lit "matrix:")])) ∧
      blockKey WordRuntime.standard.toAgentRuntime (lit "test:") = some (lit "test") ∧
      lit "strategy:" ≠ lit "matrix:" := by
    decide +kernel
  obtain ⟨hlines, hkey, hother⟩ := hheader
  have hbody : ∀ line ∈ [(4, lit "strategy:")], 2 < line.1 ∧ line.2 ≠ lit "matrix:" := by
    intro line hline
    rw [List.mem_singleton.mp hline]
    exact ⟨by decide, hother⟩
  have hnone : OtherJobs .standard (lit "test") 2 [] := ⟨nofun, nofun⟩
  have hrenders : Renders .standard (lit "test") sections ([] ++ (0, lit "jobs:") :: ([] ++
      (2, lit "test:") :: ([(4, lit "strategy:")] ++ (6, lit "matrix:") ::
        (blocks.flatten ++ ([] ++ ([] ++ [])))))) :=
    .mk (by decide) (by decide) (by decide) nofun hnone hkey hbody h nofun nofun hnone nofun nofun
  rw [hcontent, hlines]
  simpa only [List.append_assoc, List.cons_append, List.nil_append, List.append_nil] using hrenders

theorem sampleWellFormed {sections : List MatrixSection}
    (h : sections = [pythonAxis, pythonInclude] ∨ sections = [pythonInclude, pythonAxis]) :
    WellFormed .standard sections := by
  have haxis : pythonAxis.Plain .standard := by
    refine ⟨?_, nofun⟩
    rintro name values ⟨⟩
    exact ⟨samplePython, by decide,
      fun v hv => sampleVersion (List.mem_append_left (texts ["3.13"]) hv)⟩
  have hinclude : pythonInclude.Plain .standard := by
    refine ⟨nofun, fun pair hpair => ?_⟩
    rw [List.mem_singleton.mp (show pair ∈ [(lit "python", lit "3.13")] from hpair)]
    exact ⟨samplePython, by decide, sampleVersion (List.mem_append_right (texts ["3.11", "3.12"])
      (List.mem_singleton.mpr rfl))⟩
  rcases h with rfl | rfl
  · exact ⟨List.forall_mem_cons.mpr ⟨haxis, List.forall_mem_singleton.mpr hinclude⟩, by decide,
      by decide⟩
  · exact ⟨List.forall_mem_cons.mpr ⟨hinclude, List.forall_mem_singleton.mpr haxis⟩, by decide,
      by decide⟩

end Sample

open Sample

/-- The matrix whose axis stands before `include` is read. -/
theorem includeBehind_read :
    MatrixRead .standard (matrixHeader ++ axisLines ++ includeLines) "test"
      [pythonAxis, pythonInclude] := by
  have hcontent : contentOf (matrixHeader ++ axisLines ++ includeLines) =
      contentOf matrixHeader ++ [axisContent, includeContent].flatten := by
    decide +kernel
  have hrenders := sampleRenders (.cons axisContent_lines (.cons includeContent_lines .nil)) hcontent
  refine (matrixRead_iff (sampleWellFormed (Or.inl rfl)) hrenders).mpr ⟨fun key => rfl, ?_⟩
  intro front sec back hsplit
  cases front with
  | nil =>
    obtain ⟨rfl, rfl⟩ := List.cons.inj hsplit
    exact nofun
  | cons first front =>
    cases front with
    | nil =>
      obtain ⟨rfl, rfl⟩ := List.cons.inj (List.cons.inj hsplit).2
      exact trivial
    | cons second front =>
      exact absurd (List.cons.inj (List.cons.inj hsplit).2).2.symm
        (List.append_ne_nil_of_right_ne_nil _ (List.cons_ne_nil _ _))

/-- The axis behind `include` loses the version that it added. -/
theorem includeBefore_lost :
    WellFormed .standard [pythonInclude, pythonAxis] ∧
      Renders .standard (lit "test") [pythonInclude, pythonAxis]
        (contentOf (matrixHeader ++ includeLines ++ axisLines)) ∧
      ¬MatrixRead .standard (matrixHeader ++ includeLines ++ axisLines) "test"
        [pythonInclude, pythonAxis] := by
  have hcontent : contentOf (matrixHeader ++ includeLines ++ axisLines) =
      contentOf matrixHeader ++ [includeContent, axisContent].flatten := by
    decide +kernel
  refine ⟨sampleWellFormed (Or.inr rfl),
    sampleRenders (.cons includeContent_lines (.cons axisContent_lines .nil)) hcontent, ?_⟩
  rintro ⟨axes, haxes, hall⟩
  have hread : ((parseWorkflowMatrices WordRuntime.standard.toAgentRuntime
        (matrixHeader ++ includeLines ++ axisLines)).get? (lit "test")).map (fun axes =>
          axes.get? (lit "python")) = some (some (texts ["3.11", "3.12"])) ∧
      matrixValues [pythonInclude, pythonAxis] (lit "python") = texts ["3.11", "3.12", "3.13"] ∧
      texts ["3.11", "3.12", "3.13"] ≠ [] ∧
      texts ["3.11", "3.12"] ≠ texts ["3.11", "3.12", "3.13"] := by
    decide +kernel
  obtain ⟨hget, hvalues, hne, hother⟩ := hread
  rw [haxes, Option.map_some, Option.some_inj, hall, hvalues, if_neg hne] at hget
  exact hother (Option.some_inj.mp hget).symm

end DevRepro.Project
