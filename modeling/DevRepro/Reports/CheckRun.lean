import DevRepro.Lib.MapM
import DevRepro.Reports.Commands

/-!
# Check runs

`render_check_run` of `reports/annotations.py`.  A finding in a file of the
repository becomes an annotation, up to fifty of them, and any other one is a
line of the text, with the first line of its message.  A message without a line
has no first one, and a rule id with a newline is not on one line
(`check_run_complete_iff`).
-/

namespace DevRepro.Reports

open DevRepro.Python DevRepro.Lib DevRepro.Snapshots
open DevRepro.Mcp (Finding FindingState Evidence)

/-! ## The payload -/

structure CheckAnnotation where
  path : Option Str
  startLine : Int
  endLine : Int
  annotationLevel : Str
  title : Str
  message : Str

structure CheckOutput where
  title : Str
  summary : Str
  text : Str
  annotations : List CheckAnnotation

structure CheckRun where
  name : Str
  status : Str
  conclusion : Str
  output : CheckOutput

/-- `a.line or 1`. -/
def lineOrOne : Option Int → Int
  | none => 1
  | some n => if n = 0 then 1 else n

def checkAnnotation (a : Annotation) : CheckAnnotation :=
  ⟨a.path, lineOrOne a.line, lineOrOne a.line, a.level.name, a.title, a.message⟩

/-- The conclusion from the levels. -/
def conclusionOf (annotations : List Annotation) : Str :=
  if annotations.any fun a => a.level = .failure then "failure"
  else if annotations.any fun a => a.level = .warning then "neutral"
  else "success"

/-- The numbers of annotations by level. -/
def countsText (annotations : List Annotation) : Str :=
  natStr (levelCount .failure annotations) ++ lit " blocking, " ++
    natStr (levelCount .warning annotations) ++ lit " warning, " ++
    natStr (levelCount .notice annotations) ++ lit " informational."

/-- The number of anchored findings that are left out, if there are any. -/
def leftOutText (count : Nat) : Str :=
  if count = 0 then []
  else lit " " ++ natStr count ++ lit " further file-anchored finding(s) are not " ++
    lit "in this payload; the Check Run API takes 50 per request."

/-- The lines before the findings about the machine. -/
def machineHeader : List Str :=
  [lit "### Machine state", [],
    lit "These are properties of the machine this ran on, not of any file in " ++
      lit "the diff, so they are listed rather than annotated.", []]

/-- `a.message.splitlines()[0]`. -/
def firstMessageLine (a : Annotation) : Except Exc Str :=
  match splitlines a.message with
  | [] => .error ⟨.other "IndexError", "list index out of range"⟩
  | line :: _ => .ok line

/-- The line of a finding about the machine. -/
def machineLine (a : Annotation) : Except Exc Str := do
  let first ← firstMessageLine a
  return lit "- **" ++ a.title ++ lit "** — " ++ first

/-- `render_check_run`. -/
def renderCheckRun (report : ScanReport) (name : Str) : Except Exc CheckRun := do
  let annotations := annotationsFor report
  let anchored := annotations.filter Annotation.anchored
  let unanchored := annotations.filter fun a => !a.anchored
  let head := anchored.take 50
  let entries ← unanchored.mapM machineLine
  let textLines := if unanchored = [] then [] else machineHeader ++ entries
  return ⟨name, "completed", conclusionOf annotations,
    ⟨lit "devrepro: " ++ conclusionOf annotations,
      countsText annotations ++ leftOutText (anchored.length - head.length),
      join "\n" textLines, head.map checkAnnotation⟩⟩

/-! ## Accounts -/

/-- A line that names a rule. -/
def Names (f : Finding) (line : Str) : Prop :=
  ∃ rest, line = lit "- **" ++ f.ruleId ++ lit "** — " ++ rest

/-- The text has one line for each of the findings, behind its header. -/
def Lists (text : Str) (listed : List Finding) : Prop :=
  (listed = [] ∧ text = []) ∨
    ∃ lines, text.splitOn (codePoint '\n') = machineHeader ++ lines ∧ List.Forall₂ Names listed lines

/-- The payload is there, and every finding that is not `PASS` is an annotation with its path,
one of the stated number of others with a path, or a line of the text. -/
def CheckRunComplete (report : ScanReport) (name : Str) : Prop :=
  ∃ run, renderCheckRun report name = .ok run ∧ ∃ shown further listed : List Finding,
    (shown ++ further ++ listed).Perm (report.findings.filter fun f => f.state ≠ .pass) ∧
    (∀ f ∈ shown ++ further, (pathFor f).isSome = true) ∧
    run.output.annotations = shown.map (fun f => checkAnnotation (annotationOf f)) ∧
    run.output.summary = countsText (annotationsFor report) ++ leftOutText further.length ∧
    Lists run.output.text listed

/-- A finding without a path has something to say, and a rule id on one line. -/
def Listable (report : ScanReport) : Prop :=
  ∀ f ∈ report.findings, f.state ≠ .pass → pathFor f = none →
    (f.summary = [] → ∃ hint ∈ f.remediationHint, hint ≠ []) ∧ codePoint '\n' ∉ f.ruleId

theorem detailOf_eq_nil_iff (f : Finding) :
    detailOf f = [] ↔ ¬(f.summary = [] → ∃ hint ∈ f.remediationHint, hint ≠ []) := by
  rw [detailOf]
  cases f.remediationHint with
  | none => simp
  | some hint =>
    cases hint with
    | nil => simp
    | cons c rest => simp

/-- A message has a first line unless it is empty, and the line has no newline. -/
theorem firstMessageLine_eq_ok {a : Annotation} {line : Str} (h : firstMessageLine a = .ok line) :
    a.message ≠ [] ∧ codePoint '\n' ∉ line := by
  rw [firstMessageLine] at h
  cases hlines : splitlines a.message with
  | nil =>
    rw [hlines] at h
    cases h
  | cons first rest =>
    rw [hlines] at h
    cases h
    constructor
    · intro hempty
      rw [hempty] at hlines
      cases hlines
    · intro hnewline
      have hmem : line ∈ splitlines a.message := by
        rw [hlines]
        exact List.mem_cons_self
      have hbreak : isLineBreak (codePoint '\n') = true := by decide
      rw [no_break_of_mem_splitlines hmem _ hnewline] at hbreak
      exact absurd hbreak Bool.false_ne_true

/-- A text without any line is empty. -/
theorem eq_nil_of_scanLines {s : Str} (h : scanLines s = ([], [])) : s = [] := by
  induction s with
  | nil => rfl
  | cons c s ih =>
    rw [scanLines] at h
    by_cases hbreak : isLineBreak c = true
    · rw [if_pos hbreak] at h
      by_cases hpair : c = codePoint '\r' ∧ s.head? = some (codePoint '\n')
      · rw [if_pos hpair] at h
        rw [ih h] at hpair
        exact absurd hpair.2 (by decide)
      · rw [if_neg hpair] at h
        cases h
    · rw [if_neg hbreak] at h
      cases hlines : (scanLines s).1 with
      | nil =>
        rw [hlines] at h
        cases h
      | cons line lines =>
        rw [hlines] at h
        cases h

theorem splitlines_ne_nil {s : Str} (h : s ≠ []) : splitlines s ≠ [] := by
  intro hnil
  rw [splitlines, List.append_eq_nil_iff] at hnil
  have hrest : (scanLines s).2 = [] := by
    by_contra hne
    rw [if_neg hne] at hnil
    exact absurd hnil.2 (List.cons_ne_nil _ _)
  exact h (eq_nil_of_scanLines (Prod.ext hnil.1 hrest))

theorem firstMessageLine_ok {a : Annotation} (h : a.message ≠ []) :
    ∃ line, firstMessageLine a = .ok line := by
  rcases List.exists_cons_of_ne_nil (splitlines_ne_nil h) with ⟨line, rest, hlines⟩
  rw [firstMessageLine, hlines]
  exact ⟨line, rfl⟩

theorem machineLine_eq_ok {a : Annotation} {line : Str} :
    machineLine a = .ok line ↔ ∃ first, firstMessageLine a = .ok first ∧
      lit "- **" ++ a.title ++ lit "** — " ++ first = line := by
  rw [machineLine, bind_eq_ok]
  exact exists_congr fun first => and_congr_right fun _ => pure_eq_ok

/-! ## The findings of each kind -/

/-- The findings in a file of the repository. -/
def inFiles (report : ScanReport) : List Finding :=
  (interesting report).filter fun f => (pathFor f).isSome

/-- The findings about the machine. -/
def onMachine (report : ScanReport) : List Finding :=
  (interesting report).filter fun f => !(pathFor f).isSome

theorem anchored_annotationsFor (report : ScanReport) :
    (annotationsFor report).filter Annotation.anchored = (inFiles report).map annotationOf := by
  rw [annotationsFor, List.filter_map, inFiles]
  rfl

theorem unanchored_annotationsFor (report : ScanReport) :
    (annotationsFor report).filter (fun a => !a.anchored) = (onMachine report).map annotationOf := by
  rw [annotationsFor, List.filter_map, onMachine]
  rfl

theorem mem_onMachine {report : ScanReport} {f : Finding} :
    f ∈ onMachine report ↔ f ∈ report.findings ∧ f.state ≠ .pass ∧ pathFor f = none := by
  rw [onMachine, List.mem_filter, (interesting_perm report).mem_iff, List.mem_filter, and_assoc]
  simp

/-- The findings are those of the annotations, those that are left out and the others. -/
theorem findings_perm (report : ScanReport) :
    ((inFiles report).take 50 ++ (inFiles report).drop 50 ++ onMachine report).Perm
      (report.findings.filter fun f => f.state ≠ .pass) := by
  rw [List.take_append_drop]
  exact (List.filter_append_perm _ _).trans (interesting_perm report)

/-- What a payload is made of. -/
theorem renderCheckRun_eq_ok {report : ScanReport} {name : Str} {run : CheckRun} :
    renderCheckRun report name = .ok run ↔
      ∃ entries, List.Forall₂ (fun f line => machineLine (annotationOf f) = .ok line)
          (onMachine report) entries ∧
        ⟨name, "completed", conclusionOf (annotationsFor report),
          ⟨lit "devrepro: " ++ conclusionOf (annotationsFor report),
            countsText (annotationsFor report) ++ leftOutText ((inFiles report).drop 50).length,
            join "\n" (if onMachine report = [] then [] else machineHeader ++ entries),
            ((inFiles report).take 50).map fun f => checkAnnotation (annotationOf f)⟩⟩ = run := by
  rw [renderCheckRun, unanchored_annotationsFor, anchored_annotationsFor, bind_eq_ok]
  refine exists_congr fun entries => ?_
  rw [mapM_eq_ok, List.forall₂_map_left_iff, pure_eq_ok]
  have hlength : ((inFiles report).map annotationOf).length -
      (((inFiles report).map annotationOf).take 50).length = ((inFiles report).drop 50).length := by
    rw [List.length_take, List.length_map, List.length_drop]
    omega
  rw [hlength, ← List.map_take, List.map_map]
  simp only [List.map_eq_nil_iff]
  rfl

/-! ## Completeness -/

theorem machineHeader_clean : ∀ line ∈ machineHeader, codePoint '\n' ∉ line := by
  decide

/-- A line of the text names its rule. -/
theorem machineLine_names {f : Finding} {line : Str} (hrule : codePoint '\n' ∉ f.ruleId)
    (h : machineLine (annotationOf f) = .ok line) : Names f line ∧ codePoint '\n' ∉ line := by
  rcases machineLine_eq_ok.mp h with ⟨first, hfirst, rfl⟩
  refine ⟨⟨first, rfl⟩, ?_⟩
  have hstart : codePoint '\n' ∉ lit "- **" := by decide
  have hdash : codePoint '\n' ∉ lit "** — " := by decide
  simp only [List.mem_append, not_or]
  exact ⟨⟨⟨hstart, hrule⟩, hdash⟩, (firstMessageLine_eq_ok hfirst).2⟩

/-- Findings that can be listed are. -/
theorem Listable.complete {report : ScanReport} (h : Listable report) (name : Str) :
    CheckRunComplete report name := by
  have hmachine : ∀ f ∈ onMachine report, detailOf f ≠ [] ∧ codePoint '\n' ∉ f.ruleId := by
    intro f hf
    rcases mem_onMachine.mp hf with ⟨hin, hstate, hpath⟩
    have hlistable := h f hin hstate hpath
    exact ⟨fun hempty => (detailOf_eq_nil_iff f).mp hempty hlistable.1, hlistable.2⟩
  have hlines : ∀ f ∈ onMachine report, ∃ line, machineLine (annotationOf f) = .ok line := by
    intro f hf
    rcases @firstMessageLine_ok (annotationOf f) (hmachine f hf).1 with ⟨first, hfirst⟩
    exact ⟨_, machineLine_eq_ok.mpr ⟨first, hfirst, rfl⟩⟩
  rcases exists_forall₂ hlines with ⟨entries, hentries⟩
  refine ⟨_, renderCheckRun_eq_ok.mpr ⟨entries, hentries, rfl⟩, (inFiles report).take 50,
    (inFiles report).drop 50, onMachine report, findings_perm report, ?_, rfl, rfl, ?_⟩
  · intro f hf
    rw [List.take_append_drop] at hf
    exact (List.mem_filter.mp hf).2
  · by_cases hnone : onMachine report = []
    · left
      refine ⟨hnone, ?_⟩
      show join "\n" (if onMachine report = [] then [] else machineHeader ++ entries) = []
      rw [if_pos hnone]
      rfl
    · right
      have hnames : List.Forall₂ (fun f line => Names f line ∧ codePoint '\n' ∉ line)
          (onMachine report) entries := by
        have hboth := (List.forall₂_and_left _ _).mpr ⟨hmachine, hentries⟩
        exact hboth.imp fun _ _ hline => machineLine_names hline.1.2 hline.2
      refine ⟨entries, ?_, hnames.imp fun _ _ hline => hline.1⟩
      show (join "\n" (if onMachine report = [] then [] else machineHeader ++ entries)).splitOn
        (codePoint '\n') = machineHeader ++ entries
      rw [if_neg hnone, join_eq_intercalate]
      refine List.splitOn_intercalate _ (fun line hline => ?_) (by simp [machineHeader])
      rcases List.mem_append.mp hline with hheader | hentry
      · exact machineHeader_clean line hheader
      · rcases exists_of_forall₂ hnames hentry with ⟨_, _, _, hclean⟩
        exact hclean

/-- A finding that a text lists has its rule id on one line. -/
theorem Lists.rule_unbroken {text : Str} {listed : List Finding} (h : Lists text listed)
    {f : Finding} (hf : f ∈ listed) : codePoint '\n' ∉ f.ruleId := by
  rcases h with ⟨hnone, _⟩ | ⟨lines, hsplit, hnames⟩
  · rw [hnone] at hf
    exact absurd hf List.not_mem_nil
  · rcases exists_of_forall₂ hnames.flip hf with ⟨line, hline, rest, hname⟩
    have hmem : line ∈ text.splitOn (codePoint '\n') := by
      rw [hsplit]
      exact List.mem_append_right _ hline
    have hclean : Unbroken (· == codePoint '\n') line := unbroken_of_mem_linesOf hmem
    intro hnewline
    have hin : codePoint '\n' ∈ line := by
      rw [hname]
      simp [hnewline]
    exact absurd (beq_self_eq_true _) (Bool.not_eq_true _ ▸ hclean _ hin)

/-- A complete payload has listable findings. -/
theorem CheckRunComplete.listable {report : ScanReport} {name : Str}
    (h : CheckRunComplete report name) : Listable report := by
  rcases h with ⟨run, hrun, shown, further, listed, hperm, hpaths, _, _, hlists⟩
  rcases renderCheckRun_eq_ok.mp hrun with ⟨entries, hentries, _⟩
  intro f hf hstate hpath
  constructor
  · have hmem : f ∈ onMachine report := mem_onMachine.mpr ⟨hf, hstate, hpath⟩
    rcases exists_of_forall₂ hentries.flip hmem with ⟨line, _, hline⟩
    rcases machineLine_eq_ok.mp hline with ⟨first, hfirst, _⟩
    by_contra hempty
    exact (firstMessageLine_eq_ok hfirst).1 ((detailOf_eq_nil_iff f).mpr hempty)
  · have hall : f ∈ shown ++ further ++ listed :=
      hperm.mem_iff.mpr (List.mem_filter.mpr ⟨hf, by simpa using hstate⟩)
    rcases List.mem_append.mp hall with hanchored | hlisted
    · have hsome := hpaths f hanchored
      rw [hpath] at hsome
      exact absurd hsome Bool.false_ne_true
    · exact hlists.rule_unbroken hlisted

/-- A payload is complete exactly when its findings about the machine can be listed. -/
theorem check_run_complete_iff (report : ScanReport) (name : Str) :
    CheckRunComplete report name ↔ Listable report :=
  ⟨CheckRunComplete.listable, fun h => h.complete name⟩

namespace Sample

/-- A finding about the machine that has nothing to say. -/
def silentFinding : Finding :=
  ⟨"docker/daemon-not-running", .warn, [], [⟨"command", none, none, none, false⟩], none, none, none,
    none, [], none⟩

end Sample

/-- A payload that is not built. -/
theorem silent_finding_raises : ¬CheckRunComplete (Sample.reportOf [Sample.silentFinding]) "devrepro" := by
  intro hcomplete
  have hlistable := hcomplete.listable _ List.mem_cons_self (by decide) rfl
  rcases hlistable.1 rfl with ⟨hint, hhint, _⟩
  cases hhint

end DevRepro.Reports
