import DevRepro.Python.JsonPaired
import DevRepro.Python.JsonRoundTrip
import DevRepro.Python.Words
import DevRepro.Reproduce.Emit
import DevRepro.Shell.Quoted

/-!
# What a recipe can carry into its files

The fields of a recipe end up in comments, in instructions, in a JSON array and inside
the double quotes of a script.  `uninjected_iff` says when they stay there: in the
Dockerfile, in the file for the sandbox, and in the script.
-/

namespace DevRepro.Reproduce

open DevRepro.Python DevRepro.Lib DevRepro.Shell Reproduction

/-! ## Readers -/

def isNewline (c : CodePoint) : Bool := c == codePoint '\n'

/-- The blanks of a shell. -/
def isShellBlank (c : CodePoint) : Bool := c == codePoint ' ' || c == codePoint '\t'

/-- The lines of a Dockerfile that are not blank and no comments. -/
def builderLines (text : Str) : List Str := activeLines isNewline (acts isSpace) text

variable (r : Reproduction)

/-- The instructions without the `CMD`. -/
def setupInstructions : List Str :=
  [lit "FROM " ++ r.imageReference, lit "WORKDIR /work"] ++
    r.steps.map fun step => instruction step.command

/-- The script up to the end of the header. -/
def scriptStart : Str :=
  unlines (codePoint '\n') ([lit "#!/usr/bin/env bash", lit "set -euo pipefail"] ++ header r)

/-- The argument of the `CMD` for a command. -/
def cmdArgument (command : Str) : Str :=
  lit "[\"sh\", \"-c\"" ++ (lit ", " ++ (quote command ++ lit "]"))

/-- The files of a recipe have its instructions, and nothing else that is acted on. -/
structure Uninjected (rt : Runtime) : Prop where
  /-- The Dockerfile has the instructions of the recipe. -/
  dockerfile : builderLines (renderDockerfile r) = instructions r
  /-- The `CMD` decodes to the failing command. -/
  decodes : ∀ command ∈ filled r.failingCommand,
    loads rt.limits (cmdArgument command) = .ok (.arr [.str "sh", .str "-c", .str command])
  /-- The sandbox has them without the `CMD`. -/
  sandbox : builderLines (renderSandbox r) = setupInstructions r
  /-- Up to the end of the header, the shell acts on the line of the script alone. -/
  header : scriptStart r <+: renderReproScript r ∧
    activeLines isNewline (acts isShellBlank) (scriptStart r) = [lit "set -euo pipefail"]
  /-- The shell passes the symptom to `echo` as it is. -/
  symptom : ∀ symptom ∈ filled r.expectedSymptom, (filled r.failingCommand).isSome = true →
    ∃ before after, renderReproScript r =
        before ++ (lit "echo \"Expected symptom: " ++ (symptom ++ codePoint '"' :: after)) ∧
      readQuoted false (symptom ++ codePoint '"' :: after) = some (symptom, after)

/-! ## Conditions -/

/-- Behind its first line, a text has only blank lines and comments. -/
def Inert (blank : CodePoint → Bool) (s : Str) : Prop :=
  ∀ line ∈ behind isNewline s, acts blank line = false

/-- The texts of the header. -/
def headerTexts : List Str :=
  [r.metadataText "devrepro_version" "?" ++ lit ".", r.metadataText "observed_on" "unknown",
    r.metadataText "scanned_at" "unknown"] ++
      r.preconditions.map fun p => p.kind ++ (lit "]: " ++ p.detail)

/-- The texts of the comments on the steps and on the failure. -/
def bodyTexts : List Str :=
  (r.steps.flatMap fun step => step.reason :: (filled step.source).toList) ++
    if (filled r.failingCommand).isSome then (filled r.expectedSymptom).toList else []

/-- The fields of the recipe stay where they are written. -/
structure Contained : Prop where
  image : Unbroken isNewline r.imageReference
  commands : ∀ step ∈ r.steps, Unbroken isNewline step.command
  comments : ∀ text ∈ headerTexts r ++ bodyTexts r, Inert isSpace text
  paired : ∀ command ∈ filled r.failingCommand, WellPaired command
  /-- The sandbox rewrites the start of a `CMD` wherever it stands. -/
  unmarked : (filled r.failingCommand).isSome = true →
    ∀ line ∈ setupInstructions r, ¬cmdStart <:+: line
  /-- The sandbox repeats the failing command in a comment. -/
  repeated : ∀ command ∈ filled r.failingCommand, Inert isSpace command
  header : ∀ text ∈ headerTexts r, Inert isShellBlank text
  symptom : ∀ symptom ∈ filled r.expectedSymptom, (filled r.failingCommand).isSome = true →
    Literal symptom

variable {r} {blank : CodePoint → Bool}

/-! ## Comments -/

theorem isNewline_iff (c : CodePoint) : isNewline c = true ↔ c = codePoint '\n' := beq_iff_eq

theorem unbroken_of_all {s : Str} (h : s.all (fun c => !isNewline c) = true) : Unbroken isNewline s := by
  intro c hc
  have hnewline := List.all_eq_true.mp h c hc
  rw [Bool.not_eq_true'] at hnewline
  exact hnewline

theorem inert_of_unbroken {s : Str} (h : Unbroken isNewline s) : Inert blank s := by
  rw [Inert, h.behind]
  exact fun line hline => nomatch hline

theorem inert_append {s : Str} (h : s.all (fun c => !isNewline c) = true) {t : Str} :
    Inert blank (s ++ t) ↔ Inert blank t := by
  rw [Inert, Inert, behind_append (unbroken_of_all h)]

theorem inert_of_printable {s : Str} (h : s.all isPrintableAscii = true) : Inert blank s := by
  refine inert_of_unbroken fun c hc => ?_
  rw [isNewline, beq_eq_false_iff_ne]
  rintro rfl
  exact absurd (List.all_eq_true.mp h _ hc) (by decide)

/-- The header stays in its comments when its texts do. -/
theorem forall_header_inert :
    (∀ line ∈ header r, Inert blank line) ↔ ∀ text ∈ headerTexts r, Inert blank text := by
  have hremarks : ∀ line ∈ remarks r, Inert blank line :=
    fun line hline => inert_of_printable (remarks_printable hline)
  have hprovenance : (∀ line ∈ provenance r, Inert blank line) ↔
      ∀ text ∈ [r.metadataText "devrepro_version" "?" ++ lit ".",
        r.metadataText "observed_on" "unknown", r.metadataText "scanned_at" "unknown"],
          Inert blank text := by
    have hprefix : ∀ start text : Str, start.all (fun c => !isNewline c) = true →
        (Inert blank (start ++ text) ↔ Inert blank text) := fun start text h => inert_append h
    rw [provenance, List.forall_mem_cons, List.forall_mem_cons, List.forall_mem_singleton,
      List.forall_mem_cons, List.forall_mem_cons, List.forall_mem_singleton,
      hprefix (lit "# Generated by devrepro ") _ rfl, hprefix (lit "# Observed on: ") _ rfl,
      hprefix (lit "# Scanned at:  ") _ rfl]
  rw [header, headerTexts, List.forall_mem_append, List.forall_mem_append, List.forall_mem_append,
    and_iff_left hremarks, hprovenance, List.forall_mem_map, List.forall_mem_map]
  refine and_congr_right fun _ => forall_congr' fun p => imp_congr_right fun _ => ?_
  rw [Precondition.line]
  exact inert_append rfl

theorem forall_steps_inert (steps : List SetupStep) :
    (∀ line ∈ steps.flatMap SetupStep.comments, Inert blank line) ↔
      ∀ text ∈ steps.flatMap fun step => step.reason :: (filled step.source).toList,
        Inert blank text := by
  rw [List.forall_mem_flatMap, List.forall_mem_flatMap]
  refine forall_congr' fun step => imp_congr_right fun _ => ?_
  rw [SetupStep.comments, List.forall_mem_cons, List.forall_mem_cons, inert_append rfl]
  cases filled step.source with
  | none => simp
  | some source =>
    rw [Option.map_some, Option.toList_some, Option.toList_some, List.forall_mem_singleton,
      List.forall_mem_singleton, inert_append rfl]

theorem forall_failure_inert :
    (∀ line ∈ failureComments r, Inert blank line) ↔
      ∀ text ∈ (filled r.expectedSymptom).toList, Inert blank text := by
  constructor
  · intro h text htext
    rw [Option.mem_toList] at htext
    have hline := h (lit "# Expected: " ++ text) (by
      rw [failureComments, List.mem_append, Option.mem_toList, Option.mem_def.mp htext]
      exact Or.inr rfl)
    exact (inert_append rfl).mp hline
  · intro h line hline
    rcases mem_failureComments hline with hprintable | ⟨symptom, hsymptom, rfl⟩
    · exact inert_of_printable hprintable
    · exact (inert_append rfl).mpr (h symptom (Option.mem_toList.mpr hsymptom))

/-! ## The Dockerfile -/

/-- A line of the renderer starts with no blank. -/
theorem dockerfileLines_head {line : Str} (h : line ∈ dockerfileLines r) :
    ∀ c ∈ line.head?, isSpace c = false := by
  intro c hc
  have hcomment : line.head? = some (codePoint '#') → isSpace c = false := by
    intro hhead
    obtain rfl : codePoint '#' = c := Option.some.inj (hhead.symm.trans hc)
    exact inked_isSpace _ (by simp)
  by_cases hacts : acts isSpace line = true
  · have hmem : line ∈ instructions r := by
      rw [← filter_dockerfileLines inked_isSpace]
      exact List.mem_filter.mpr ⟨h, hacts⟩
    rw [instructions, List.mem_append, List.mem_append] at hmem
    rcases hmem with (hmem | hmem) | hmem
    · rcases List.mem_cons.mp hmem with rfl | hmem
      · obtain rfl : codePoint 'F' = c := Option.some.inj hc
        exact inked_isSpace _ (by simp)
      · rw [List.mem_singleton.mp hmem] at hc
        obtain rfl : codePoint 'W' = c := Option.some.inj hc
        exact inked_isSpace _ (by simp)
    · obtain ⟨step, -, rfl⟩ := List.mem_map.mp hmem
      have hhead := instruction_head step.command
      rw [hc] at hhead
      refine inked_isSpace c ?_
      simp only [List.mem_cons, Option.some.injEq, List.not_mem_nil, or_false] at hhead ⊢
      tauto
    · rw [Option.mem_toList, Option.map_eq_some_iff] at hmem
      obtain ⟨command, -, rfl⟩ := hmem
      obtain rfl : codePoint 'C' = c := Option.some.inj hc
      exact inked_isSpace _ (by simp)
  · -- A line that starts with a blank and is not acted on would be one of the comments.
    rw [dockerfileLines, List.mem_append, List.mem_append, List.mem_append] at h
    rcases h with ((h | h) | h) | h
    · exact hcomment (header_comments line h)
    · simp only [List.mem_cons, List.not_mem_nil, or_false] at h
      rcases h with rfl | rfl | rfl | rfl
      · cases hc
      · exact absurd (acts_from inked_isSpace _) hacts
      · exact absurd (acts_workdir inked_isSpace) hacts
      · cases hc
    · obtain ⟨step, -, h⟩ := List.mem_flatMap.mp h
      rw [SetupStep.lines, List.mem_append] at h
      rcases h with h | h
      · exact hcomment (step_comments line h)
      · rcases List.mem_cons.mp h with rfl | h
        · exact absurd (acts_instruction inked_isSpace _) hacts
        · rw [List.mem_singleton.mp h] at hc
          cases hc
    · rw [failureLines] at h
      split at h
      · cases h
      · rcases List.mem_append.mp h with h | h
        · exact hcomment (failure_comments line h)
        · rw [List.mem_singleton.mp h] at hacts
          exact absurd (acts_cmdLine inked_isSpace _) hacts

theorem acts_cons {c : CodePoint} (hblank : blank c = false) (rest : Str) :
    acts blank (c :: rest) = decide (c ≠ codePoint '#') := by
  rw [acts, List.dropWhile_cons_of_neg (by rw [hblank]; exact Bool.false_ne_true)]
  simp

/-- What a line is, its first line shows. -/
theorem acts_firstLine {line : Str} (h : ∀ c ∈ line.head?, isSpace c = false) :
    acts isSpace (firstLine isNewline line) = acts isSpace line := by
  cases line with
  | nil => rfl
  | cons c rest =>
    have hc : isSpace c = false := h c rfl
    have hnewline : isNewline c = false := by
      rw [← Bool.not_eq_true, isNewline_iff]
      rintro rfl
      exact absurd hc (by decide)
    have hfirst : firstLine isNewline (c :: rest) = c :: firstLine isNewline rest := by
      simp [firstLine, hnewline]
    rw [hfirst, acts_cons hc, acts_cons hc]

theorem filter_eq_flatMap {α : Type} (p : α → Bool) (list : List α) :
    list.filter p = list.flatMap fun a => if p a = true then [a] else [] := by
  induction list with
  | nil => rfl
  | cons a list ih =>
    rw [List.filter_cons, List.flatMap_cons, ih]
    split_ifs
    · rfl
    · rfl

theorem firstLine_eq_self_iff {line : Str} :
    firstLine isNewline line = line ↔ Unbroken isNewline line := by
  constructor
  · intro h c hc
    rw [← h] at hc
    have hnewline := List.mem_takeWhile_imp hc
    rw [Bool.not_eq_true'] at hnewline
    exact hnewline
  · exact Unbroken.firstLine

theorem mem_instructions_iff {line : Str} :
    line ∈ instructions r ↔ line ∈ dockerfileLines r ∧ acts isSpace line = true := by
  rw [← filter_dockerfileLines inked_isSpace, List.mem_filter]

/-- The Dockerfile has the instructions of the recipe when each is one line, and behind
the first line of each comment is nothing to act on. -/
theorem dockerfile_iff :
    builderLines (renderDockerfile r) = instructions r ↔
      (∀ line ∈ dockerfileLines r, Inert isSpace line) ∧
        ∀ line ∈ instructions r, Unbroken isNewline line := by
  rw [builderLines, renderDockerfile, join_newline dockerfileLines_ne_nil, activeLines_unlines rfl rfl,
    funext activeLines_eq, ← filter_dockerfileLines inked_isSpace, filter_eq_flatMap,
    flatMap_append_eq_flatMap_iff]
  · constructor
    · intro h
      refine ⟨fun line hline c hc => ?_, fun line hline => ?_⟩
      · have hrest := (h line hline).1
        rw [List.filter_eq_nil_iff] at hrest
        exact eq_false_of_ne_true (hrest c hc)
      · rw [← filter_eq_flatMap, List.mem_filter] at hline
        have hstart := (h line hline.1).2
        rw [acts_firstLine (dockerfileLines_head hline.1), if_pos hline.2, if_pos hline.2,
          List.singleton_inj] at hstart
        exact firstLine_eq_self_iff.mp hstart
    · rintro ⟨hinert, hlines⟩ line hline
      refine ⟨?_, ?_⟩
      · rw [List.filter_eq_nil_iff]
        intro c hc
        rw [hinert line hline c hc]
        exact Bool.false_ne_true
      · rw [acts_firstLine (dockerfileLines_head hline)]
        split_ifs with hacts
        · rw [(hlines line ?_).firstLine]
          rw [← filter_eq_flatMap]
          exact List.mem_filter.mpr ⟨hline, hacts⟩
        · rfl
  · intro line hline
    rw [acts_firstLine (dockerfileLines_head hline)]
    split_ifs
    · rfl
    · rfl

/-- The instructions are one line each when the fields in them are. -/
theorem forall_instructions_unbroken :
    (∀ line ∈ instructions r, Unbroken isNewline line) ↔
      Unbroken isNewline r.imageReference ∧ ∀ step ∈ r.steps, Unbroken isNewline step.command := by
  have hinstruction : ∀ command : Str,
      Unbroken isNewline (instruction command) ↔ Unbroken isNewline command := by
    intro command
    rw [instruction]
    split_ifs
    · rfl
    · rw [unbroken_append, and_iff_right (unbroken_of_all rfl)]
  have hcmd : ∀ line ∈ ((filled r.failingCommand).map cmdLine).toList, Unbroken isNewline line := by
    intro line hline
    rw [Option.mem_toList, Option.map_eq_some_iff] at hline
    obtain ⟨command, -, rfl⟩ := hline
    have hquote : Unbroken isNewline (quote command) := by
      intro c hc
      have hprintable := isLineBreak_of_isPrintableAscii (quote_printable command c hc)
      rw [← Bool.not_eq_true, isNewline_iff]
      rintro rfl
      exact absurd hprintable (by decide)
    rw [cmdLine, unbroken_append, unbroken_append, unbroken_append]
    exact ⟨unbroken_of_all rfl, unbroken_of_all rfl, hquote, unbroken_of_all rfl⟩
  rw [instructions, List.forall_mem_append, List.forall_mem_append, and_iff_left hcmd,
    List.forall_mem_cons, List.forall_mem_singleton, List.forall_mem_map, unbroken_append,
    and_iff_right (unbroken_of_all rfl), and_iff_left (unbroken_of_all rfl)]
  refine and_congr_right fun _ => forall_congr' fun step => imp_congr_right fun _ => ?_
  exact hinstruction step.command

/-- The lines that are no instructions are inert when the texts in them are. -/
theorem forall_lines_inert (h : ∀ line ∈ instructions r, Unbroken isNewline line) :
    (∀ line ∈ dockerfileLines r, Inert isSpace line) ↔
      ∀ text ∈ headerTexts r ++ bodyTexts r, Inert isSpace text := by
  have hinert : ∀ line ∈ instructions r, Inert isSpace line := fun line hline =>
    inert_of_unbroken (h line hline)
  have hnil : Inert isSpace [] := inert_of_unbroken unbroken_nil
  simp only [instructions, List.forall_mem_append, List.forall_mem_cons, List.forall_mem_map,
    List.not_mem_nil, false_imp_iff, implies_true, and_true] at hinert
  obtain ⟨⟨⟨hfrom, hworkdir⟩, hsteps⟩, hcmd⟩ := hinert
  have hstepLines : (∀ line ∈ r.steps.flatMap SetupStep.lines, Inert isSpace line) ↔
      ∀ line ∈ r.steps.flatMap SetupStep.comments, Inert isSpace line := by
    rw [List.forall_mem_flatMap, List.forall_mem_flatMap]
    refine forall_congr' fun step => imp_congr_right fun hstep => ?_
    rw [SetupStep.lines, List.forall_mem_append, List.forall_mem_cons, List.forall_mem_singleton,
      and_iff_left ⟨hsteps step hstep, hnil⟩]
  have hfailure : (∀ line ∈ failureLines r, Inert isSpace line) ↔
      ∀ text ∈ (if (filled r.failingCommand).isSome = true then (filled r.expectedSymptom).toList
        else []), Inert isSpace text := by
    rw [failureLines]
    cases hcommand : filled r.failingCommand with
    | none => simp
    | some command =>
      dsimp only
      rw [Option.isSome_some, if_pos rfl, List.forall_mem_append, forall_failure_inert,
        List.forall_mem_singleton]
      refine and_iff_left (hcmd _ ?_)
      rw [hcommand]
      exact List.mem_singleton_self _
  have hfixed : ∀ line ∈ [[], lit "FROM " ++ r.imageReference, lit "WORKDIR /work", []],
      Inert isSpace line := by
    rw [List.forall_mem_cons, List.forall_mem_cons, List.forall_mem_cons, List.forall_mem_singleton]
    exact ⟨hnil, hfrom, hworkdir, hnil⟩
  rw [dockerfileLines, List.forall_mem_append, List.forall_mem_append, List.forall_mem_append,
    forall_header_inert, and_iff_left hfixed, hstepLines, forall_steps_inert, hfailure, bodyTexts,
    List.forall_mem_append, List.forall_mem_append, and_assoc]

/-- The `CMD` decodes to the command when no pair of its characters reads as one. -/
theorem decodes_iff (rt : Runtime) (command : Str) :
    loads rt.limits (cmdArgument command) = .ok (.arr [.str "sh", .str "-c", .str command]) ↔
      WellPaired command := by
  have htext : cmdArgument command =
      dumpText rt .plain 0 (.arr [.str "sh", .str "-c", .str command]) := by
    have hstart : lit "[\"sh\", \"-c\"" ++ lit ", " =
        codePoint '[' :: (quote "sh" ++ (lit ", " ++ (quote "-c" ++ lit ", "))) := by decide
    have hseparator : DumpStyle.plain.separator 1 = lit ", " := by decide
    simp only [dumpText, dumpElems, hseparator]
    rw [cmdArgument, ← List.append_assoc, hstart]
    simp [DumpStyle.newline, DumpStyle.plain]
    rfl
  rw [htext]
  constructor
  · intro h
    have hprintable : ∀ c ∈ dumpText rt .plain 0 (.arr [.str "sh", .str "-c", .str command]),
        isSurrogate c = false :=
      fun c hc => isSurrogate_of_isPrintableAscii (dumpText_printable rt rfl _ 0 c hc)
    cases loads_paired hprintable h with
    | arr _ each =>
      cases each (.str command) (by simp) with
      | str _ paired => exact paired
  · intro h
    refine loads_dumpText rt .plain (.arr 0 _ rt.depth_pos fun v hv => ?_)
    simp only [List.mem_cons, List.not_mem_nil, or_false] at hv
    rcases hv with rfl | rfl | rfl
    · exact .str _ _ (by decide)
    · exact .str _ _ (by decide)
    · exact .str _ _ h

/-! ## The sandbox -/

/-- What the adapter makes of a line. -/
def rewritten (command line : Str) : Str := replaceText cmdStart (sandboxNote command) line

/-- The first line of the note. -/
def noteLine : Str := lit "# E2B starts sessions from this template rather than running it, so"

theorem noteLine_unbroken : Unbroken isNewline noteLine := unbroken_of_all rfl

theorem cmdStart_unbroken : Unbroken isNewline cmdStart := unbroken_of_all rfl

theorem newline_not_mem_cmdStart : codePoint '\n' ∉ cmdStart := by
  intro h
  have hbreak := cmdStart_unbroken _ h
  exact absurd hbreak (by decide)

theorem cmdStart_ne_nil : cmdStart ≠ [] := by
  rw [cmdStart, lit, Ne, List.map_eq_nil_iff, String.toList_eq_nil_iff]
  decide

/-- The lines of the note, before a text. -/
theorem linesOf_note (command text : Str) :
    linesOf isNewline (sandboxNote command ++ text) =
      noteLine :: lit "# the failing command belongs in the session, not in the image:" ::
        (lit "#   " ++ firstLine isNewline command) ::
          (behind isNewline command ++
            (lit "# " ++ (cmdStart ++ firstLine isNewline text)) :: behind isNewline text) := by
  have hnl : isNewline (codePoint '\n') = true := rfl
  have hnote : sandboxNote command ++ text =
      noteLine ++ codePoint '\n' ::
        (lit "# the failing command belongs in the session, not in the image:" ++ codePoint '\n' ::
          ((lit "#   " ++ command) ++ codePoint '\n' :: (lit "# " ++ (cmdStart ++ text)))) := by
    have hstart : lit ("# E2B starts sessions from this template rather than running it, so\n" ++
        "# the failing command belongs in the session, not in the image:\n#   ") =
          noteLine ++ codePoint '\n' ::
            (lit "# the failing command belongs in the session, not in the image:" ++
              codePoint '\n' :: lit "#   ") := by decide +kernel
    have hend : lit "\n# " = codePoint '\n' :: lit "# " := rfl
    rw [sandboxNote, hstart, hend]
    simp only [List.append_assoc, List.cons_append]
  have hsecond : Unbroken isNewline
      (lit "# the failing command belongs in the session, not in the image:") := unbroken_of_all rfl
  have hthird : Unbroken isNewline (lit "#   ") := unbroken_of_all rfl
  have hlast : Unbroken isNewline (lit "# ") := unbroken_of_all rfl
  rw [hnote, linesOf_append_cons _ _ hnl, linesOf_append_cons _ _ hnl, linesOf_append_cons _ _ hnl,
    noteLine_unbroken.linesOf, hsecond.linesOf, linesOf_append hthird, linesOf_append hlast,
    firstLine_append cmdStart_unbroken, behind_append cmdStart_unbroken]
  rfl

theorem behind_note (command text : Str) :
    behind isNewline (sandboxNote command ++ text) =
      lit "# the failing command belongs in the session, not in the image:" ::
        (lit "#   " ++ firstLine isNewline command) ::
          (behind isNewline command ++
            (lit "# " ++ (cmdStart ++ firstLine isNewline text)) :: behind isNewline text) := by
  rw [behind, linesOf_note]
  rfl

theorem firstLine_note (command text : Str) :
    firstLine isNewline (sandboxNote command ++ text) = noteLine := by
  have h := linesOf_note command text
  rw [linesOf_eq, List.cons.injEq] at h
  exact h.1

/-- A line starts as before where it held no start of a `CMD`, and with the note behind
what was before it where it did. -/
theorem firstLine_rewritten (command : Str) {line : Str} (h : Unbroken isNewline line) :
    (¬cmdStart <:+: line ∧ firstLine isNewline (rewritten command line) = line) ∨
      ∃ before after, line = before ++ (cmdStart ++ after) ∧ (before = [] → cmdStart <+: line) ∧
        firstLine isNewline (rewritten command line) = before ++ noteLine := by
  rcases @replaceText_cases cmdStart (sandboxNote command) cmdStart_ne_nil line with
    ⟨hwithout, heq⟩ | ⟨before, after, hline, hbefore, heq⟩
  · refine Or.inl ⟨hwithout, ?_⟩
    rw [rewritten, heq, h.firstLine]
  · refine Or.inr ⟨before, after, hline, hbefore, ?_⟩
    rw [hline] at h
    rw [rewritten, heq, firstLine_append (unbroken_append.mp h).1, firstLine_note]

/-- A rewritten line is inert when the command is. -/
theorem inert_rewritten {command : Str} (hcommand : Inert isSpace command) {line : Str}
    (h : Unbroken isNewline line) : Inert isSpace (rewritten command line) := by
  induction hlength : line.length using Nat.strongRecOn generalizing line with
  | ind n ih =>
    subst hlength
    rcases @replaceText_cases cmdStart (sandboxNote command) cmdStart_ne_nil line with
      ⟨-, heq⟩ | ⟨before, after, rfl, -, heq⟩
    · rw [rewritten, heq]
      exact inert_of_unbroken h
    · obtain ⟨hbefore, hrest⟩ := unbroken_append.mp h
      have hafter := (unbroken_append.mp hrest).2
      have hpositive : 0 < cmdStart.length := List.length_pos_of_ne_nil cmdStart_ne_nil
      have hshorter : after.length < (before ++ (cmdStart ++ after)).length := by
        simp only [List.length_append]
        omega
      have hbehind := ih after.length hshorter hafter rfl
      rw [Inert, rewritten, heq, behind_append hbefore, behind_note]
      intro other hother
      have hcomment : other.head? = some (codePoint '#') → acts isSpace other = false :=
        acts_of_comment inked_isSpace
      rcases List.mem_cons.mp hother with rfl | hother
      · exact hcomment rfl
      rcases List.mem_cons.mp hother with rfl | hother
      · exact hcomment rfl
      rcases List.mem_append.mp hother with hother | hother
      · exact hcommand other hother
      rcases List.mem_cons.mp hother with rfl | hother
      · exact hcomment rfl
      · exact hbehind other hother

/-- The lines of the Dockerfile. -/
def physicalLines (r : Reproduction) : List Str :=
  (dockerfileLines r).flatMap (linesOf isNewline)

theorem renderDockerfile_eq : renderDockerfile r = unlines (codePoint '\n') (physicalLines r) := by
  rw [renderDockerfile, join_newline dockerfileLines_ne_nil, physicalLines,
    unlines_flatMap_linesOf isNewline_iff]

theorem physicalLines_unbroken {line : Str} (h : line ∈ physicalLines r) : Unbroken isNewline line := by
  obtain ⟨entry, -, hline⟩ := List.mem_flatMap.mp h
  exact unbroken_of_mem_linesOf hline

/-- The instructions are the lines that the builder acts on. -/
theorem filter_physicalLines (h : builderLines (renderDockerfile r) = instructions r) :
    (physicalLines r).filter (acts isSpace) = instructions r := by
  rw [← h, builderLines, renderDockerfile_eq, activeLines_unlines rfl rfl, filter_eq_flatMap]
  refine List.flatMap_congr fun line hline => ?_
  rw [activeLines, (physicalLines_unbroken hline).linesOf, List.filter_cons, List.filter_nil]

theorem setupInstructions_not_cmd {line : Str} (h : line ∈ setupInstructions r) : isCmd line = false := by
  rw [setupInstructions, List.mem_append] at h
  rcases h with h | h
  · rcases List.mem_cons.mp h with rfl | h
    · rfl
    · rw [List.mem_singleton.mp h]
      rfl
  · obtain ⟨step, -, rfl⟩ := List.mem_map.mp h
    exact isCmd_instruction _

/-- Without the `CMD`, the instructions are those of the setup. -/
theorem filter_instructions : (instructions r).filter (fun line => !isCmd line) = setupInstructions r := by
  have hsetup : instructions r =
      setupInstructions r ++ ((filled r.failingCommand).map cmdLine).toList := rfl
  rw [hsetup, List.filter_append, List.filter_eq_self.mpr, List.filter_eq_nil_iff.mpr, List.append_nil]
  · intro line hline
    rw [Option.mem_toList, Option.map_eq_some_iff] at hline
    obtain ⟨command, -, rfl⟩ := hline
    rw [isCmd_cmdLine]
    exact Bool.false_ne_true
  · intro line hline
    rw [setupInstructions_not_cmd hline]
    rfl

/-- An instruction of the setup starts with a letter. -/
theorem setupInstructions_head {line : Str} (h : line ∈ setupInstructions r) :
    ∃ c rest, line = c :: rest ∧ isSpace c = false ∧ c ≠ codePoint '#' := by
  have hmem : line ∈ instructions r := List.mem_append_left _ h
  rw [mem_instructions_iff] at hmem
  cases line with
  | nil =>
    rw [acts_nil] at hmem
    cases hmem.2
  | cons c rest =>
    have hc : isSpace c = false := dockerfileLines_head hmem.1 c rfl
    have hacts := hmem.2
    rw [acts_cons hc, decide_eq_true_iff] at hacts
    exact ⟨c, rest, rfl, hc, hacts⟩

/-- An instruction of the setup is acted on, rewritten or not. -/
theorem acts_rewritten (command : Str) {line : Str} (h : line ∈ setupInstructions r)
    (hline : Unbroken isNewline line) :
    acts isSpace (firstLine isNewline (rewritten command line)) = true := by
  obtain ⟨c, rest, rfl, hc, hsign⟩ := setupInstructions_head h
  rcases firstLine_rewritten command hline with ⟨-, heq⟩ | ⟨before, after, hsplit, hbefore, heq⟩
  · rw [heq, acts_cons hc, decide_eq_true_iff]
    exact hsign
  · rw [heq]
    cases before with
    | nil =>
      have hcmd := List.isPrefixOf_iff_prefix.mpr (hbefore rfl)
      have hnot := setupInstructions_not_cmd h
      rw [isCmd, startsWith, hcmd] at hnot
      cases hnot
    | cons d before =>
      obtain ⟨rfl, -⟩ := List.cons_eq_cons.mp hsplit
      rw [List.cons_append, acts_cons hc, decide_eq_true_iff]
      exact hsign

theorem acts_append (s t : Str) :
    acts blank (s ++ t) = if s.all blank = true then acts blank t else acts blank s := by
  induction s with
  | nil => rfl
  | cons c s ih =>
    by_cases hc : blank c = true
    · have hdrop : ∀ u : Str, acts blank (c :: u) = acts blank u := by
        intro u
        rw [acts, acts, List.dropWhile_cons_of_pos hc]
      rw [List.cons_append, hdrop, hdrop, ih, List.all_cons, hc, Bool.true_and]
    · have hblank := eq_false_of_ne_true hc
      rw [List.cons_append, acts_cons hblank, acts_cons hblank, List.all_cons, hblank, Bool.false_and,
        if_neg Bool.false_ne_true]

/-- Every other line stays one that is not acted on, and so becomes the `CMD`. -/
theorem not_acts_rewritten (command : Str) {line : Str} (hline : Unbroken isNewline line)
    (h : ¬(acts isSpace line = true ∧ isCmd line = false)) :
    acts isSpace (firstLine isNewline (rewritten command line)) = false := by
  have hnote : acts isSpace noteLine = false := acts_of_comment inked_isSpace rfl
  by_cases hcmd : isCmd line = true
  · obtain ⟨rest, rfl⟩ := List.isPrefixOf_iff_prefix.mp hcmd
    rw [rewritten, replaceText_append cmdStart_ne_nil, firstLine_note]
    exact hnote
  · have hacts : acts isSpace line = false :=
      eq_false_of_ne_true fun hacts => h ⟨hacts, eq_false_of_ne_true hcmd⟩
    rcases firstLine_rewritten command hline with ⟨-, heq⟩ | ⟨before, after, hsplit, -, heq⟩
    · rw [heq]
      exact hacts
    · have hstart : acts isSpace (cmdStart ++ after) = true := by
        have hword : acts isSpace (codePoint 'C' :: (lit "MD [\"sh\", \"-c\"" ++ after)) = true :=
          acts_word (inked_isSpace _ (by simp)) (by decide) _
        exact hword
      rw [hsplit, acts_append, hstart] at hacts
      rw [heq, acts_append, hnote]
      split_ifs at hacts ⊢
      exact hacts

/-- The lines of the rewritten Dockerfile. -/
theorem builderLines_sandbox {command : Str} (hcommand : filled r.failingCommand = some command) :
    builderLines (renderSandbox r) =
      (physicalLines r).flatMap fun line => activeLines isNewline (acts isSpace) (rewritten command line) := by
  have hrender : renderSandbox r =
      unlines (codePoint '\n') ((physicalLines r).map (rewritten command)) := by
    rw [renderSandbox, hcommand]
    dsimp only
    rw [renderDockerfile_eq, replaceText_unlines cmdStart_ne_nil newline_not_mem_cmdStart]
    rfl
  rw [builderLines, hrender, activeLines_unlines rfl rfl, List.flatMap_map]

/-- The sandbox keeps the setup when no line of it holds the start of a `CMD`, and the
command that it repeats has nothing to act on behind its first line. -/
theorem sandbox_iff {command : Str} (hcommand : filled r.failingCommand = some command)
    (hdockerfile : builderLines (renderDockerfile r) = instructions r) :
    builderLines (renderSandbox r) = setupInstructions r ↔
      (∀ line ∈ setupInstructions r, ¬cmdStart <:+: line) ∧ Inert isSpace command := by
  let start := fun line : Str => if acts isSpace line = true ∧ isCmd line = false then
    [firstLine isNewline (rewritten command line)] else []
  let rest := fun line : Str => if acts isSpace line = true ∧ isCmd line = false then
    (behind isNewline (rewritten command line)).filter (acts isSpace)
    else activeLines isNewline (acts isSpace) (rewritten command line)
  let want := fun line : Str => if acts isSpace line = true ∧ isCmd line = false then [line] else []
  have hmem : ∀ line, line ∈ setupInstructions r ↔
      line ∈ physicalLines r ∧ acts isSpace line = true ∧ isCmd line = false := by
    intro line
    rw [← filter_instructions, ← filter_physicalLines hdockerfile, List.mem_filter, List.mem_filter,
      Bool.not_eq_true', and_assoc]
  have hwant : (physicalLines r).flatMap want = setupInstructions r := by
    rw [← filter_instructions, ← filter_physicalLines hdockerfile, List.filter_filter, filter_eq_flatMap]
    refine List.flatMap_congr fun line _ => ?_
    simp only [want, Bool.and_eq_true, Bool.not_eq_true', and_comm]
  have hparts : ∀ line ∈ physicalLines r,
      activeLines isNewline (acts isSpace) (rewritten command line) = start line ++ rest line := by
    intro line hline
    by_cases hsetup : acts isSpace line = true ∧ isCmd line = false
    · have hacts := acts_rewritten command ((hmem line).mpr ⟨hline, hsetup⟩) (physicalLines_unbroken hline)
      simp only [start, rest, if_pos hsetup]
      rw [activeLines_eq, if_pos hacts]
    · simp only [start, rest, if_neg hsetup]
      rfl
  have hlength : ∀ line ∈ physicalLines r, (start line).length = (want line).length := by
    intro line _
    by_cases hsetup : acts isSpace line = true ∧ isCmd line = false
    · simp only [start, want, if_pos hsetup, List.length_singleton]
    · simp only [start, want, if_neg hsetup]
  rw [builderLines_sandbox hcommand, List.flatMap_congr hparts, ← hwant,
    flatMap_append_eq_flatMap_iff hlength, hwant]
  constructor
  · intro h
    constructor
    · intro line hline hinfix
      obtain ⟨hphysical, hsetup⟩ := (hmem line).mp hline
      have hstart := (h line hphysical).2
      simp only [start, want, if_pos hsetup, List.singleton_inj] at hstart
      rcases firstLine_rewritten command (physicalLines_unbroken hphysical) with
        ⟨hwithout, -⟩ | ⟨before, after, hsplit, -, heq⟩
      · exact hwithout hinfix
      · -- The note does not read like the start of a `CMD`.
        rw [heq, hsplit] at hstart
        obtain ⟨hhead, -⟩ := List.cons_eq_cons.mp (List.append_cancel_left hstart)
        exact absurd hhead (by decide)
    · have hcmd : cmdLine command ∈ instructions r := by
        rw [instructions, hcommand]
        exact List.mem_append_right _ (List.mem_singleton_self _)
      rw [← filter_physicalLines hdockerfile, List.mem_filter] at hcmd
      have hrest := (h _ hcmd.1).1
      have hnot : ¬(acts isSpace (cmdLine command) = true ∧ isCmd (cmdLine command) = false) := by
        rw [isCmd_cmdLine]
        exact fun hc => Bool.false_ne_true hc.2.symm
      simp only [rest, if_neg hnot] at hrest
      rw [activeLines_eq, rewritten, cmdLine, replaceText_append cmdStart_ne_nil, behind_note,
        List.append_eq_nil_iff, List.filter_eq_nil_iff] at hrest
      intro line hline
      refine eq_false_of_ne_true (hrest.2 line ?_)
      exact List.mem_cons_of_mem _ (List.mem_cons_of_mem _ (List.mem_append_left _ hline))
  · rintro ⟨hwithout, hinert⟩ line hline
    have hunbroken := physicalLines_unbroken hline
    have hbehind : (behind isNewline (rewritten command line)).filter (acts isSpace) = [] := by
      rw [List.filter_eq_nil_iff]
      intro other hother
      rw [inert_rewritten hinert hunbroken other hother]
      exact Bool.false_ne_true
    by_cases hsetup : acts isSpace line = true ∧ isCmd line = false
    · simp only [start, rest, want, if_pos hsetup]
      refine ⟨hbehind, ?_⟩
      rcases firstLine_rewritten command hunbroken with ⟨-, heq⟩ | ⟨before, after, hsplit, -, -⟩
      · rw [heq]
      · exact absurd ⟨before, after, by rw [hsplit, List.append_assoc]⟩
          (hwithout line ((hmem line).mpr ⟨hline, hsetup⟩))
    · simp only [start, rest, want, if_neg hsetup, and_true]
      rw [activeLines_eq, hbehind, List.append_nil, if_neg]
      rw [not_acts_rewritten command hunbroken hsetup]
      exact Bool.false_ne_true

/-! ## All files -/

theorem renderReproScript_eq : renderReproScript r = unlines (codePoint '\n') (scriptLines r) := by
  rw [renderReproScript, join_newline]
  rw [scriptLines]
  exact List.cons_ne_nil _ _

theorem scriptStart_isStart : scriptStart r <+: renderReproScript r := by
  rw [renderReproScript_eq, scriptLines, List.append_assoc, unlines_append]
  exact List.prefix_append _ _

/-- Where the symptom stands in the script. -/
theorem symptom_in_script {symptom : Str} (hsymptom : symptom ∈ filled r.expectedSymptom)
    (hcommand : (filled r.failingCommand).isSome = true) : ∃ before after, renderReproScript r =
      before ++ (lit "echo \"Expected symptom: " ++ (symptom ++ codePoint '"' :: after)) := by
  have hline : unlines (codePoint '\n') [symptomLine symptom] =
      lit "echo \"Expected symptom: " ++ (symptom ++ codePoint '"' :: lit "\n") := by
    have hsingle : unlines (codePoint '\n') [symptomLine symptom] = symptomLine symptom ++ lit "\n" :=
      List.append_nil _
    rw [hsingle, symptomLine, List.append_assoc, List.append_assoc]
    rfl
  obtain ⟨start, hlines⟩ : ∃ start, scriptLines r = start ++ ([symptomLine symptom] ++ noteLines) := by
    rw [scriptLines, if_pos hcommand, Option.mem_def.mp hsymptom, Option.map_some, Option.toList_some,
      List.append_assoc verdictLines, ← List.append_assoc _ verdictLines]
    exact ⟨_, rfl⟩
  rw [renderReproScript_eq, hlines, unlines_append, unlines_append, hline, List.append_assoc,
    List.append_assoc]
  exact ⟨_, _, rfl⟩

theorem header_iff :
    (scriptStart r <+: renderReproScript r ∧
        activeLines isNewline (acts isShellBlank) (scriptStart r) = [lit "set -euo pipefail"]) ↔
      ∀ text ∈ headerTexts r, Inert isShellBlank text := by
  have hstart : activeLines isNewline (acts isShellBlank) (scriptStart r) =
      lit "set -euo pipefail" :: (header r).flatMap (activeLines isNewline (acts isShellBlank)) := by
    rw [scriptStart, activeLines_unlines rfl rfl, List.flatMap_append]
    rfl
  rw [and_iff_right scriptStart_isStart, ← forall_header_inert, hstart, List.cons_eq_cons,
    and_iff_right rfl, List.flatMap_eq_nil_iff]
  refine forall_congr' fun line => imp_congr_right fun hline => ?_
  obtain ⟨rest, rfl⟩ := List.head?_eq_some_iff.mp (header_comments line hline)
  have hfirst : acts isShellBlank (firstLine isNewline (codePoint '#' :: rest)) = false :=
    acts_comment (by decide) _
  rw [activeLines_eq, hfirst, if_neg Bool.false_ne_true, List.nil_append, List.filter_eq_nil_iff]
  simp only [Inert, Bool.not_eq_true]

variable (r) in
/-- A recipe injects nothing into its files exactly when its fields stay where they are
written. -/
theorem uninjected_iff (rt : Runtime) : Uninjected r rt ↔ Contained r := by
  have hdockerfile : builderLines (renderDockerfile r) = instructions r ↔
      (∀ text ∈ headerTexts r ++ bodyTexts r, Inert isSpace text) ∧
        Unbroken isNewline r.imageReference ∧ ∀ step ∈ r.steps, Unbroken isNewline step.command := by
    rw [dockerfile_iff, ← forall_instructions_unbroken]
    exact and_congr_left fun h => forall_lines_inert h
  constructor
  · intro h
    obtain ⟨hcomments, himage, hcommands⟩ := hdockerfile.mp h.dockerfile
    have hsandbox : ∀ command ∈ filled r.failingCommand,
        (∀ line ∈ setupInstructions r, ¬cmdStart <:+: line) ∧ Inert isSpace command :=
      fun command hcommand => (sandbox_iff hcommand h.dockerfile).mp h.sandbox
    refine ⟨himage, hcommands, hcomments, fun command hcommand => ?_, fun hsome => ?_,
      fun command hcommand => (hsandbox command hcommand).2, header_iff.mp h.header, ?_⟩
    · exact (decodes_iff rt command).mp (h.decodes command hcommand)
    · obtain ⟨command, hcommand⟩ := Option.isSome_iff_exists.mp hsome
      exact (hsandbox command hcommand).1
    · intro symptom hsymptom hsome
      obtain ⟨before, after, -, hread⟩ := h.symptom symptom hsymptom hsome
      exact (readQuoted_iff symptom after).mp hread
  · intro h
    have hfile := hdockerfile.mpr ⟨h.comments, h.image, h.commands⟩
    refine ⟨hfile, fun command hcommand => ?_, ?_, header_iff.mpr h.header, ?_⟩
    · exact (decodes_iff rt command).mpr (h.paired command hcommand)
    · cases hcommand : filled r.failingCommand with
      | none =>
        have hinstructions : instructions r = setupInstructions r := by
          rw [instructions, hcommand]
          exact List.append_nil _
        rw [renderSandbox, hcommand]
        exact hfile.trans hinstructions
      | some command =>
        exact (sandbox_iff hcommand hfile).mpr
          ⟨h.unmarked (by rw [hcommand]; rfl), h.repeated command hcommand⟩
    · intro symptom hsymptom hsome
      obtain ⟨before, after, hscript⟩ := symptom_in_script hsymptom hsome
      exact ⟨before, after, hscript,
        (readQuoted_iff symptom after).mpr (h.symptom symptom hsymptom hsome)⟩

/-- A recipe whose symptom is a command substitution. -/
def substitutionRecipe : Reproduction where
  baseImage := "python:3.12-bookworm"
  baseDigest := none
  steps := [⟨"uv sync --frozen", "installs", some "uv.lock"⟩]
  failingCommand := some "pytest -x"
  expectedSymptom := some "$(touch owned)"
  preconditions := []
  metadata := Dict.empty

/-- The shell expands the symptom. -/
theorem substitution_injected : ¬Uninjected substitutionRecipe .standard := by
  intro h
  obtain ⟨before, after, -, hread⟩ := h.symptom "$(touch owned)" rfl rfl
  have hnone : readQuoted false (lit "$(touch owned)" ++ codePoint '"' :: after) = none := rfl
  rw [hnone] at hread
  cases hread

end DevRepro.Reproduce
