import DevRepro.Lib.Dict
import DevRepro.Python.JsonRoundTrip
import DevRepro.Python.JsonPaired
import DevRepro.Python.Words
import DevRepro.Reproduce.Emit

/-!
# Stale recipes

`reproduce --check` compares two Dockerfiles without the lines that hold a mark of
provenance.  `comparison_exact` says what recipes that write one line for each field
get from it: a regenerated one compares equal, and recipes that compare equal describe
the same environment.
-/

namespace DevRepro.Reproduce

open DevRepro.Python DevRepro.Lib Reproduction

variable (r s : Reproduction)

/-! ## The comparison -/

/-- The recipes differ at most in the time of the scan. -/
structure Regenerated : Prop where
  baseImage : r.baseImage = s.baseImage
  baseDigest : r.baseDigest = s.baseDigest
  steps : r.steps = s.steps
  failingCommand : r.failingCommand = s.failingCommand
  expectedSymptom : r.expectedSymptom = s.expectedSymptom
  preconditions : r.preconditions = s.preconditions
  metadata : ∀ key, key ≠ lit "scanned_at" → r.metadata.get? key = s.metadata.get? key

/-- The recipes describe the same environment and the same failure. -/
structure SameFacts : Prop where
  imageReference : r.imageReference = s.imageReference
  commands : r.steps.map SetupStep.command = s.steps.map SetupStep.command
  failingCommand : r.failingCommand = s.failingCommand

/-- The comparison takes two recipes for the same. -/
def Compares : Prop := stripProvenance (renderDockerfile r) = stripProvenance (renderDockerfile s)

/-- The comparison is exact for two recipes. -/
structure ComparisonExact : Prop where
  regenerated : Regenerated r s → Compares r s
  changed : Compares r s → SameFacts r s

/-- A text on one line. -/
abbrev OneLine (s : Str) : Prop := Unbroken isLineBreak s

/-- Every field is on one line. -/
structure Flat : Prop where
  metadata : ∀ item ∈ r.metadata.items, OneLine item.2
  image : OneLine r.imageReference
  preconditions : ∀ p ∈ r.preconditions, OneLine p.kind ∧ OneLine p.detail
  command : ∀ step ∈ r.steps, OneLine step.command
  comments : ∀ step ∈ r.steps, OneLine step.reason ∧ ∀ source ∈ step.source, OneLine source
  symptom : ∀ symptom ∈ r.expectedSymptom, OneLine symptom

/-- Moreover, no instruction holds a mark of provenance, and the failing command survives
its escapes. -/
structure Clean : Prop extends Flat r where
  unmarked : ∀ line ∈ instructions r, keeps line = true
  failingCommand : ∀ command ∈ r.failingCommand, WellPaired command

variable {r s}

/-! ## Lines -/

theorem oneLine_of_printable {t : Str} (h : PrintableText t) : OneLine t :=
  fun c hc => isLineBreak_of_isPrintableAscii (h c hc)

theorem oneLine_of_all {t : Str} (h : t.all isPrintableAscii = true) : OneLine t :=
  oneLine_of_printable (List.all_eq_true.mp h)

/-- A text of the renderer, before a field. -/
theorem oneLine_lit_append {t field : Str} (ht : t.all isPrintableAscii = true) (h : OneLine field) :
    OneLine (t ++ field) :=
  unbroken_append.mpr ⟨oneLine_of_all ht, h⟩

theorem mem_filled {t : Str} {o : Option Str} (h : t ∈ filled o) : t ∈ o :=
  (Option.filter_eq_some_iff.mp h).1

theorem Flat.oneLine_metadata (h : Flat r) (key : Str) {default : Str}
    (hdefault : default.all isPrintableAscii = true) : OneLine (r.metadataText key default) := by
  rw [metadataText]
  cases hget : r.metadata.get? key with
  | none => exact oneLine_of_all hdefault
  | some value => exact h.metadata (key, value) (Dict.mem_items_iff.mpr hget)

theorem Flat.oneLine_header (h : Flat r) : ∀ line ∈ header r, OneLine line := by
  intro line hline
  rw [header, List.mem_append, List.mem_append] at hline
  rcases hline with (hline | hline) | hline
  · simp only [provenance, List.mem_cons, List.not_mem_nil, or_false] at hline
    rcases hline with rfl | rfl | rfl
    · refine oneLine_lit_append rfl (unbroken_append.mpr ⟨?_, oneLine_of_all rfl⟩)
      exact h.oneLine_metadata _ rfl
    · exact oneLine_lit_append rfl (h.oneLine_metadata _ rfl)
    · exact oneLine_lit_append rfl (h.oneLine_metadata _ rfl)
  · exact oneLine_of_all (remarks_printable hline)
  · obtain ⟨p, hp, rfl⟩ := List.mem_map.mp hline
    refine oneLine_lit_append rfl (unbroken_append.mpr ⟨(h.preconditions p hp).1, ?_⟩)
    exact oneLine_lit_append rfl (h.preconditions p hp).2

theorem instruction_oneLine {command : Str} (h : OneLine command) : OneLine (instruction command) := by
  rw [instruction]
  split_ifs
  · exact h
  · exact oneLine_lit_append rfl h

theorem cmdLine_oneLine (command : Str) : OneLine (cmdLine command) := by
  refine oneLine_lit_append rfl (oneLine_lit_append rfl ?_)
  exact unbroken_append.mpr ⟨oneLine_of_printable (quote_printable command), oneLine_of_all rfl⟩

theorem Flat.oneLine_step (h : Flat r) {step : SetupStep} (hstep : step ∈ r.steps) :
    ∀ line ∈ step.lines, OneLine line := by
  intro line hline
  rw [SetupStep.lines, SetupStep.comments, List.mem_append, List.mem_cons] at hline
  rcases hline with (rfl | hline) | hline
  · exact oneLine_lit_append rfl (h.comments step hstep).1
  · rw [Option.mem_toList, Option.map_eq_some_iff] at hline
    obtain ⟨source, hsource, rfl⟩ := hline
    exact oneLine_lit_append rfl ((h.comments step hstep).2 source (mem_filled hsource))
  · simp only [List.mem_cons, List.not_mem_nil, or_false] at hline
    rcases hline with rfl | rfl
    · exact instruction_oneLine (h.command step hstep)
    · exact unbroken_nil

theorem Flat.oneLine_failure (h : Flat r) : ∀ line ∈ failureLines r, OneLine line := by
  intro line hline
  rw [failureLines] at hline
  split at hline
  · cases hline
  · rw [List.mem_append, List.mem_singleton] at hline
    rcases hline with hline | rfl
    · rcases mem_failureComments hline with hprintable | ⟨symptom, hsymptom, rfl⟩
      · exact oneLine_of_all hprintable
      · exact oneLine_lit_append rfl (h.symptom symptom (mem_filled hsymptom))
    · exact cmdLine_oneLine _

theorem Flat.oneLine_lines (h : Flat r) : ∀ line ∈ dockerfileLines r, OneLine line := by
  intro line hline
  rw [dockerfileLines, List.mem_append, List.mem_append, List.mem_append] at hline
  rcases hline with ((hline | hline) | hline) | hline
  · exact h.oneLine_header line hline
  · simp only [List.mem_cons, List.not_mem_nil, or_false] at hline
    rcases hline with rfl | rfl | rfl | rfl
    · exact unbroken_nil
    · exact oneLine_lit_append rfl h.image
    · exact oneLine_of_all rfl
    · exact unbroken_nil
  · obtain ⟨step, hstep, hline⟩ := List.mem_flatMap.mp hline
    exact h.oneLine_step hstep line hline
  · exact h.oneLine_failure line hline

/-! ## What is compared -/

/-- A flat Dockerfile has the lines that it was written from. -/
theorem Flat.splitlines_eq (h : Flat r) : splitlines (renderDockerfile r) = dockerfileLines r := by
  rw [renderDockerfile, join_newline dockerfileLines_ne_nil, splitlines_unlines h.oneLine_lines]

/-- The lines that are compared. -/
def kept (r : Reproduction) : List Str := (dockerfileLines r).filter keeps

theorem kept_ne_nil : kept r ≠ [] := by
  have hmem : lit "WORKDIR /work" ∈ kept r := by
    refine List.mem_filter.mpr ⟨?_, rfl⟩
    rw [dockerfileLines]
    simp
  exact List.ne_nil_of_mem hmem

theorem compares_iff (hr : Flat r) (hs : Flat s) : Compares r s ↔ kept r = kept s := by
  rw [Compares, stripProvenance, stripProvenance, hr.splitlines_eq, hs.splitlines_eq]
  constructor
  · refine join_newline_injective kept_ne_nil kept_ne_nil (fun line hline => ?_) (fun line hline => ?_)
    · exact hr.oneLine_lines line (List.mem_filter.mp hline).1
    · exact hs.oneLine_lines line (List.mem_filter.mp hline).1
  · intro h
    rw [← kept, ← kept, h]

/-- The line with the time of the scan is not kept. -/
theorem keeps_scannedAt (time : Str) : keeps (lit "# Scanned at:  " ++ time) = false := by
  have hmarked : containsText (lit "# Scanned at:  " ++ time) (lit "Scanned at:") = true :=
    containsText_iff.mpr ⟨lit "# ", lit "  " ++ time, rfl⟩
  rw [keeps, provenancePrefixes, List.any_cons, hmarked]
  rfl

/-- What is kept of the header. -/
def keptHeader (r : Reproduction) : List Str :=
  [lit "# Generated by devrepro " ++ (r.metadataText "devrepro_version" "?" ++ lit "."),
    lit "# Observed on: " ++ r.metadataText "observed_on" "unknown"].filter keeps ++
      (remarks r ++ r.preconditions.map Precondition.line).filter keeps

theorem filter_header : (header r).filter keeps = keptHeader r := by
  rw [header, keptHeader, provenance, List.append_assoc, List.filter_append]
  simp only [List.filter_cons, keeps_scannedAt, List.filter_nil, Bool.false_eq_true, if_false]

theorem kept_eq : kept r = keptHeader r ++
    ([[], lit "FROM " ++ r.imageReference, lit "WORKDIR /work", []] ++
      r.steps.flatMap SetupStep.lines ++ failureLines r).filter keeps := by
  rw [kept, dockerfileLines, List.append_assoc, List.append_assoc, List.filter_append, filter_header,
    ← List.append_assoc]

/-- A regenerated recipe is compared by the same lines. -/
theorem Regenerated.kept_eq (h : Regenerated r s) : kept r = kept s := by
  have hmetadata : ∀ key default : Str, key ≠ lit "scanned_at" →
      r.metadataText key default = s.metadataText key default := by
    intro key default hkey
    rw [metadataText, metadataText, h.metadata key hkey]
  have hheader : keptHeader r = keptHeader s := by
    rw [keptHeader, keptHeader, hmetadata _ _ (by decide), hmetadata _ _ (by decide),
      remarks, remarks, pinned, pinned, reproduces, reproduces, h.baseDigest, h.failingCommand,
      h.preconditions]
  have hfailure : failureLines r = failureLines s := by
    rw [failureLines, failureLines, failureComments, failureComments, h.failingCommand,
      h.expectedSymptom]
  rw [Reproduce.kept_eq, Reproduce.kept_eq, hheader, hfailure, imageReference, imageReference,
    h.baseDigest, h.baseImage, h.steps]

/-! ## What equal comparisons say -/

/-- The instructions are kept, and can be told from the comments. -/
theorem Clean.filter_kept (h : Clean r) : (kept r).filter (acts isSpace) = instructions r := by
  rw [kept, List.filter_comm, filter_dockerfileLines inked_isSpace, List.filter_eq_self]
  exact h.unmarked

theorem instruction_injective : Function.Injective instruction := by
  have hrun : ∀ rest : Str, ([lit "COPY ", lit "ADD ", lit "ENV ", lit "ARG "].any
      (startsWith (lit "RUN " ++ rest))) = false := fun _ => rfl
  intro c d h
  rw [instruction, instruction] at h
  split_ifs at h with hc hd hd
  · exact h
  · rw [h, hrun] at hc
    cases hc
  · rw [← h, hrun] at hd
    cases hd
  · exact List.append_cancel_left h

theorem loads_quote {l : Limits} {t : Str} (h : WellPaired t) : loads l (quote t) = .ok (.str t) := by
  have hhead : (quote t).head? ≠ some 0xFEFF := by
    rw [quote, List.cons_append, List.head?_cons]
    decide
  rw [loads, if_neg hhead, Scan.run_quote_value h]
  rfl

theorem quote_injective {t u : Str} (ht : WellPaired t) (hu : WellPaired u) (h : quote t = quote u) :
    t = u := by
  have hloads := loads_quote (l := ⟨0, 0⟩) ht
  rw [h, loads_quote hu, Except.ok.injEq, Json.str.injEq] at hloads
  exact hloads.symm

/-- The instructions tell the image, the commands and a failing command that is not empty. -/
theorem facts_of_instructions (hr : Clean r) (hs : Clean s) (h : instructions r = instructions s) :
    r.imageReference = s.imageReference ∧
      r.steps.map SetupStep.command = s.steps.map SetupStep.command ∧
        filled r.failingCommand = filled s.failingCommand := by
  rw [instructions, instructions, List.append_assoc, List.append_assoc] at h
  obtain ⟨himage, hrest⟩ := List.cons_eq_cons.mp h
  have htail : r.steps.map (fun step => instruction step.command) ++
      ((filled r.failingCommand).map cmdLine).toList =
        s.steps.map (fun step => instruction step.command) ++
          ((filled s.failingCommand).map cmdLine).toList := (List.cons_eq_cons.mp hrest).2
  have hstep : ∀ steps : List SetupStep, ∀ line ∈ steps.map fun step => instruction step.command,
      isCmd line = false := by
    intro steps line hline
    obtain ⟨step, -, rfl⟩ := List.mem_map.mp hline
    exact isCmd_instruction _
  have hcmd : ∀ command : Option Str, ∀ line ∈ (command.map cmdLine).toList, isCmd line = true := by
    intro command line hline
    rw [Option.mem_toList, Option.map_eq_some_iff] at hline
    obtain ⟨text, -, rfl⟩ := hline
    exact isCmd_cmdLine text
  have hsteps := congrArg (List.filter fun line => !isCmd line) htail
  have hcommand := congrArg (List.filter isCmd) htail
  have hkeepSteps : ∀ q : Reproduction,
      (q.steps.map (fun step => instruction step.command) ++
          ((filled q.failingCommand).map cmdLine).toList).filter (fun line => !isCmd line) =
        q.steps.map fun step => instruction step.command := by
    intro q
    rw [List.filter_append, List.filter_eq_self.mpr, List.filter_eq_nil_iff.mpr, List.append_nil]
    · intro line hline
      rw [hcmd _ line hline]
      exact Bool.false_ne_true
    · intro line hline
      rw [hstep _ line hline]
      rfl
  have hkeepCommand : ∀ q : Reproduction,
      (q.steps.map (fun step => instruction step.command) ++
          ((filled q.failingCommand).map cmdLine).toList).filter isCmd =
        ((filled q.failingCommand).map cmdLine).toList := by
    intro q
    rw [List.filter_append, List.filter_eq_nil_iff.mpr, List.filter_eq_self.mpr (hcmd _),
      List.nil_append]
    intro line hline
    rw [hstep _ line hline]
    exact Bool.false_ne_true
  rw [hkeepSteps, hkeepSteps] at hsteps
  rw [hkeepCommand, hkeepCommand] at hcommand
  refine ⟨List.append_cancel_left himage, ?_, ?_⟩
  · refine instruction_injective.list_map ?_
    rw [List.map_map, List.map_map]
    exact hsteps
  · cases hfr : filled r.failingCommand with
    | none =>
      cases hfs : filled s.failingCommand with
      | none => rfl
      | some d =>
        rw [hfr, hfs] at hcommand
        cases hcommand
    | some c =>
      cases hfs : filled s.failingCommand with
      | none =>
        rw [hfr, hfs] at hcommand
        cases hcommand
      | some d =>
        rw [hfr, hfs] at hcommand
        have hline : cmdLine c = cmdLine d := List.head_eq_of_cons_eq hcommand
        have hquote := List.append_cancel_right
          (List.append_cancel_left (List.append_cancel_left hline))
        rw [quote_injective (hr.failingCommand c (mem_filled hfr))
          (hs.failingCommand d (mem_filled hfs)) hquote]

/-- The first line of the remark that only a recipe without a failing command has. -/
def noCommandLine : Str := lit "# NO FAILING COMMAND was supplied, so this sets up an environment"

/-- The kept header ends at the first blank line. -/
theorem takeWhile_kept : (kept r).takeWhile (fun line => line ≠ []) = keptHeader r := by
  have hheader : ∀ line ∈ keptHeader r, decide (line ≠ []) = true := by
    intro line hline
    rw [← filter_header] at hline
    have hhead := header_comments line (List.mem_filter.mp hline).1
    rw [decide_eq_true_iff]
    rintro rfl
    cases hhead
  rw [kept_eq, List.takeWhile_append_of_pos hheader, List.append_assoc, List.cons_append,
    List.filter_cons_of_pos rfl, List.takeWhile_cons_of_neg (by simp), List.append_nil]

theorem mem_keptHeader_iff : noCommandLine ∈ keptHeader r ↔ r.reproduces = false := by
  rw [← filter_header, List.mem_filter]
  have hother : ∀ start rest : Str, (start.isPrefixOf noCommandLine) = false →
      noCommandLine ≠ start ++ rest := by
    intro start rest hstart heq
    rw [heq, List.isPrefixOf_iff_prefix.mpr (List.prefix_append _ _)] at hstart
    cases hstart
  constructor
  · rintro ⟨hline, -⟩
    rw [header, List.mem_append, List.mem_append, remarks, List.mem_append, List.mem_append] at hline
    rcases hline with (hline | (hline | hline) | hline) | hline
    · simp only [provenance, List.mem_cons, List.not_mem_nil, or_false] at hline
      rcases hline with heq | heq | heq
      · exact absurd heq (hother _ _ rfl)
      · exact absurd heq (hother _ _ rfl)
      · exact absurd heq (hother _ _ rfl)
    · exact absurd hline (by decide +kernel)
    · split_ifs at hline
      · cases hline
      · exact absurd hline (by decide +kernel)
    · split_ifs at hline with hreproduces
      · cases hline
      · exact eq_false_of_ne_true hreproduces
    · obtain ⟨p, -, heq⟩ := List.mem_map.mp hline
      exact absurd heq.symm (hother _ _ rfl)
  · intro hreproduces
    refine ⟨?_, rfl⟩
    rw [header, remarks, hreproduces]
    refine List.mem_append_left _ (List.mem_append_right _ (List.mem_append_right _ ?_))
    exact List.mem_cons_self

theorem filled_some (t : Str) : filled (some t) = if t = [] then none else some t := by
  rw [filled, Option.filter_some]
  by_cases ht : t = []
  · simp [ht]
  · simp [ht]

theorem filled_inj {o p : Option Str} (hsome : o.isSome = p.isSome) (h : filled o = filled p) :
    o = p := by
  cases o with
  | none =>
    cases p with
    | none => rfl
    | some u => cases hsome
  | some t =>
    cases p with
    | none => cases hsome
    | some u =>
      rw [filled_some, filled_some] at h
      split_ifs at h with ht hu hu
      · rw [ht, hu]
      · exact h

/-- A recipe for a command, scanned at a time. -/
def sampleRecipe (command time : Str) : Reproduction where
  baseImage := "python:3.12-bookworm"
  baseDigest := none
  steps := [⟨"COPY . /work", "the project", none⟩, ⟨"uv sync --frozen", "installs", none⟩]
  failingCommand := some command
  expectedSymptom := none
  preconditions := [⟨"state", "a database with data in it"⟩]
  metadata := ⟨[(lit "devrepro_version", lit "0.2.0"), (lit "scanned_at", time)],
    (by decide : [lit "devrepro_version", lit "scanned_at"].Nodup)⟩

theorem sampleRecipe_flat (command : Str) {time : Str} (htime : OneLine time) :
    Flat (sampleRecipe command time) where
  metadata := by
    intro item hitem
    rcases List.mem_cons.mp hitem with rfl | hitem
    · exact oneLine_of_all rfl
    · rw [List.mem_singleton.mp hitem]
      exact htime
  image := oneLine_of_all rfl
  preconditions := List.forall_mem_singleton.mpr
    ⟨oneLine_of_all rfl, oneLine_of_all rfl⟩
  command := List.forall_mem_cons.mpr ⟨oneLine_of_all rfl,
    List.forall_mem_singleton.mpr (oneLine_of_all rfl)⟩
  comments := List.forall_mem_cons.mpr ⟨⟨oneLine_of_all rfl, by simp⟩,
    List.forall_mem_singleton.mpr ⟨oneLine_of_all rfl, by simp⟩⟩
  symptom := by simp [sampleRecipe]

theorem sampleRecipe_clean {command time : Str} (hcommand : WellPaired command) (htime : OneLine time)
    (hkeeps : keeps (cmdLine command) = true) : Clean (sampleRecipe command time) where
  toFlat := sampleRecipe_flat command htime
  unmarked := by
    intro line hline
    rw [instructions] at hline
    rcases List.mem_append.mp hline with hline | hline
    · have hfixed : ([lit "FROM python:3.12-bookworm", lit "WORKDIR /work", lit "COPY . /work",
          lit "RUN uv sync --frozen"].all keeps) = true := rfl
      exact List.all_eq_true.mp hfixed line hline
    · rw [Option.mem_toList, Option.map_eq_some_iff] at hline
      obtain ⟨text, htext, rfl⟩ := hline
      obtain rfl : command = text := Option.some.inj (mem_filled htext)
      exact hkeeps
  failingCommand := by
    intro text htext
    obtain rfl : command = text := Option.some.inj htext
    exact hcommand

end DevRepro.Reproduce
