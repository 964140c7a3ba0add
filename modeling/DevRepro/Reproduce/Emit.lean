import DevRepro.Lib.Dict
import DevRepro.Lib.Lines
import DevRepro.Python.JsonDump
import DevRepro.Python.Replace
import DevRepro.Python.Words

/-!
# Recipes

`reproduce/recipe.py`, and the renderers of `reproduce/emit.py` and
`reproduce/adapters.py` for a Dockerfile, a script and the sandbox that takes a
Dockerfile.
-/

namespace DevRepro.Reproduce

open DevRepro.Python DevRepro.Lib

/-! ## Recipes -/

structure SetupStep where
  command : Str
  reason : Str
  source : Option Str

structure Precondition where
  kind : Str
  detail : Str

structure Reproduction where
  baseImage : Str
  baseDigest : Option Str
  steps : List SetupStep
  failingCommand : Option Str
  expectedSymptom : Option Str
  preconditions : List Precondition
  metadata : Dict Str Str

namespace Reproduction

variable (r : Reproduction)

def pinned : Bool := r.baseDigest.isSome

/-- A text that is not empty, as `if` takes it. -/
def filled (s : Option Str) : Option Str := s.filter fun s => s ≠ []

def imageReference : Str := (filled r.baseDigest).getD r.baseImage

def reproduces : Bool := r.failingCommand.isSome

/-- `recipe.metadata.get(key, default)` -/
def metadataText (key default : Str) : Str := (r.metadata.get? key).getD default

end Reproduction

open Reproduction

variable (r : Reproduction)

/-! ## The header -/

/-- The remarks on an image that is not pinned. -/
def notPinned : List Str := [
  lit "# NOT PINNED: the base image is referenced by a mutable tag, so",
  lit "# this file can produce a different container next month. Re-run",
  lit "# with a reachable container engine to resolve a digest."]

/-- The remarks on a recipe without a failing command. -/
def noFailingCommand : List Str := [
  lit "# NO FAILING COMMAND was supplied, so this sets up an environment",
  lit "# and stops. Pass --failing-command to make it a reproduction:",
  lit "# one that stops working when somebody fixes the cause."]

/-- The lines of `_header` that say where the recipe comes from. -/
def provenance : List Str := [
  lit "# Generated by devrepro " ++ (r.metadataText "devrepro_version" "?" ++ lit "."),
  lit "# Observed on: " ++ r.metadataText "observed_on" "unknown",
  lit "# Scanned at:  " ++ r.metadataText "scanned_at" "unknown"]

/-- The lines of `_header` that say what the recipe is not. -/
def remarks : List Str :=
  [lit "# REVIEW BEFORE RUNNING. This is a draft of a reproduction, not a",
    lit "# verified one -- nothing here has been built or executed."] ++
    (if r.pinned then [] else notPinned) ++ if r.reproduces then [] else noFailingCommand

def Precondition.line (p : Precondition) : Str :=
  lit "# PRECONDITION [" ++ (p.kind ++ (lit "]: " ++ p.detail))

/-- `_header`, with the comment sign of the Dockerfile and the script. -/
def header : List Str := provenance r ++ remarks r ++ r.preconditions.map Precondition.line

/-! ## The Dockerfile -/

/-- The instruction of a step. -/
def instruction (command : Str) : Str :=
  if [lit "COPY ", lit "ADD ", lit "ENV ", lit "ARG "].any (startsWith command) then command
  else lit "RUN " ++ command

/-- The comments on a step. -/
def SetupStep.comments (step : SetupStep) : List Str :=
  (lit "# " ++ step.reason) :: ((filled step.source).map fun source => lit "# source: " ++ source).toList

def SetupStep.lines (step : SetupStep) : List Str :=
  step.comments ++ [instruction step.command, []]

/-- The comments on the failing command. -/
def failureComments : List Str :=
  [lit "# The command that failed. CMD rather than RUN on purpose: a RUN",
    lit "# that fails aborts the build, which looks the same as a broken",
    lit "# recipe. This way the container exits with the failure's status."] ++
    ((filled r.expectedSymptom).map fun symptom => lit "# Expected: " ++ symptom).toList

/-- `CMD ["sh", "-c"` -/
def cmdStart : Str := lit "CMD [\"sh\", \"-c\""

/-- The line that runs a command. -/
def cmdLine (command : Str) : Str := cmdStart ++ (lit ", " ++ (quote command ++ lit "]"))

/-- The lines about the failing command. -/
def failureLines : List Str :=
  match filled r.failingCommand with
  | none => []
  | some command => failureComments r ++ [cmdLine command]

/-- The lines that `render_dockerfile` joins. -/
def dockerfileLines : List Str :=
  header r ++ [[], lit "FROM " ++ r.imageReference, lit "WORKDIR /work", []] ++
    r.steps.flatMap SetupStep.lines ++ failureLines r

/-- `render_dockerfile`. -/
def renderDockerfile : Str := join "\n" (dockerfileLines r) ++ lit "\n"

/-! ## Instructions -/

/-- The lines that the builder acts on. -/
def instructions : List Str :=
  [lit "FROM " ++ r.imageReference, lit "WORKDIR /work"] ++
    r.steps.map (fun step => instruction step.command) ++
      ((filled r.failingCommand).map cmdLine).toList

/-- A line that is not blank and no comment, for the characters that count as blanks. -/
def acts (blank : CodePoint → Bool) (line : Str) : Bool :=
  ((line.dropWhile blank).head?).any fun c => c ≠ codePoint '#'

variable {r} {blank : CodePoint → Bool}

@[simp] theorem acts_nil : acts blank [] = false := rfl

theorem acts_comment (hblank : blank (codePoint '#') = false) (rest : Str) :
    acts blank (codePoint '#' :: rest) = false := by
  rw [acts, List.dropWhile_cons_of_neg (by rw [hblank]; exact Bool.false_ne_true)]
  rfl

theorem acts_word {c : CodePoint} (hblank : blank c = false) (hc : c ≠ codePoint '#') (rest : Str) :
    acts blank (c :: rest) = true := by
  rw [acts, List.dropWhile_cons_of_neg (by rw [hblank]; exact Bool.false_ne_true)]
  simp [hc]

theorem dockerfileLines_ne_nil : dockerfileLines r ≠ [] := by
  rw [dockerfileLines, header, provenance]
  exact List.cons_ne_nil _ _

/-- The lines of the header are comments. -/
theorem header_comments : ∀ line ∈ header r, line.head? = some (codePoint '#') := by
  intro line hline
  have hfixed : ∀ list : List Str,
      list.all (fun line => line.head? == some (codePoint '#')) = true →
        line ∈ list → line.head? = some (codePoint '#') :=
    fun list hlist hmem => beq_iff_eq.mp (List.all_eq_true.mp hlist line hmem)
  rw [header, List.mem_append, List.mem_append, remarks, List.mem_append, List.mem_append] at hline
  rcases hline with (hline | (hline | hline) | hline) | hline
  · simp only [provenance, List.mem_cons, List.not_mem_nil, or_false] at hline
    rcases hline with rfl | rfl | rfl
    · rfl
    · rfl
    · rfl
  · exact hfixed _ (by decide +kernel) hline
  · split_ifs at hline
    · cases hline
    · exact hfixed notPinned (by decide +kernel) hline
  · split_ifs at hline
    · cases hline
    · exact hfixed noFailingCommand (by decide +kernel) hline
  · obtain ⟨p, -, rfl⟩ := List.mem_map.mp hline
    rfl

theorem step_comments {step : SetupStep} : ∀ line ∈ step.comments, line.head? = some (codePoint '#') := by
  intro line hline
  rw [SetupStep.comments, List.mem_cons, Option.mem_toList, Option.map_eq_some_iff] at hline
  rcases hline with rfl | ⟨source, -, rfl⟩
  · rfl
  · rfl

theorem failure_comments : ∀ line ∈ failureComments r, line.head? = some (codePoint '#') := by
  intro line hline
  simp only [failureComments, List.mem_append, List.mem_cons, List.not_mem_nil, or_false,
    Option.mem_toList, Option.map_eq_some_iff] at hline
  rcases hline with (rfl | rfl | rfl) | ⟨symptom, -, rfl⟩
  · rfl
  · rfl
  · rfl
  · rfl

/-- An instruction starts with a capital letter. -/
theorem instruction_head (command : Str) :
    (instruction command).head? ∈ [some (codePoint 'C'), some (codePoint 'A'), some (codePoint 'E'),
      some (codePoint 'R')] := by
  rw [instruction]
  split_ifs with h
  · simp only [List.any_cons, List.any_nil, Bool.or_false, Bool.or_eq_true, startsWith,
      List.isPrefixOf_iff_prefix] at h
    rcases h with h | h | h | h
    · obtain ⟨rest, rfl⟩ := h
      exact List.mem_cons_self
    · obtain ⟨rest, rfl⟩ := h
      exact List.mem_cons_of_mem _ List.mem_cons_self
    · obtain ⟨rest, rfl⟩ := h
      exact List.mem_cons_of_mem _ (List.mem_cons_of_mem _ List.mem_cons_self)
    · obtain ⟨rest, rfl⟩ := h
      exact List.mem_cons_of_mem _ List.mem_cons_self
  · exact List.mem_cons_of_mem _ (List.mem_cons_of_mem _ (List.mem_cons_of_mem _ List.mem_cons_self))

/-- What the lines of a recipe start with is no blank. -/
def Inked (blank : CodePoint → Bool) : Prop :=
  ∀ c ∈ [codePoint '#', codePoint 'F', codePoint 'W', codePoint 'C', codePoint 'A', codePoint 'E',
    codePoint 'R'], blank c = false

theorem inked_isSpace : Inked isSpace := by
  have hall : [codePoint '#', codePoint 'F', codePoint 'W', codePoint 'C', codePoint 'A', codePoint 'E',
      codePoint 'R'].all (fun c => !isSpace c) = true := by decide
  intro c hc
  have hblank := List.all_eq_true.mp hall c hc
  rw [Bool.not_eq_true'] at hblank
  exact hblank

theorem acts_of_comment (hblank : Inked blank) {line : Str} (h : line.head? = some (codePoint '#')) :
    acts blank line = false := by
  obtain ⟨rest, rfl⟩ := List.head?_eq_some_iff.mp h
  exact acts_comment (hblank _ (by simp)) rest

theorem acts_instruction (hblank : Inked blank) (command : Str) :
    acts blank (instruction command) = true := by
  have hhead := instruction_head command
  cases hline : instruction command with
  | nil =>
    rw [hline] at hhead
    simp at hhead
  | cons c rest =>
    rw [hline, List.head?_cons] at hhead
    have hc : c ∈ [codePoint 'C', codePoint 'A', codePoint 'E', codePoint 'R'] := by simpa using hhead
    have hsign : c ≠ codePoint '#' := by
      rintro rfl
      exact absurd hc (by decide)
    refine acts_word (hblank c ?_) hsign rest
    simp only [List.mem_cons, List.not_mem_nil, or_false] at hc ⊢
    tauto

theorem acts_from (hblank : Inked blank) (image : Str) : acts blank (lit "FROM " ++ image) = true := by
  have h : acts blank (codePoint 'F' :: (lit "ROM " ++ image)) = true :=
    acts_word (hblank _ (by simp)) (by decide) _
  exact h

theorem acts_workdir (hblank : Inked blank) : acts blank (lit "WORKDIR /work") = true := by
  have h : acts blank (codePoint 'W' :: lit "ORKDIR /work") = true :=
    acts_word (hblank _ (by simp)) (by decide) _
  exact h

theorem acts_cmdLine (hblank : Inked blank) (command : Str) : acts blank (cmdLine command) = true := by
  have h : acts blank (codePoint 'C' ::
      (lit "MD [\"sh\", \"-c\"" ++ (lit ", " ++ (quote command ++ lit "]")))) = true :=
    acts_word (hblank _ (by simp)) (by decide) _
  exact h

theorem filter_comments (hblank : Inked blank) {lines : List Str}
    (h : ∀ line ∈ lines, line.head? = some (codePoint '#')) : lines.filter (acts blank) = [] := by
  rw [List.filter_eq_nil_iff]
  intro line hline
  rw [acts_of_comment hblank (h line hline)]
  exact Bool.false_ne_true

/-- Of the lines of a Dockerfile, the builder acts on the instructions. -/
theorem filter_dockerfileLines (hblank : Inked blank) :
    (dockerfileLines r).filter (acts blank) = instructions r := by
  have hsteps : ∀ steps : List SetupStep, (steps.flatMap SetupStep.lines).filter (acts blank) =
      steps.map fun step => instruction step.command := by
    intro steps
    induction steps with
    | nil => rfl
    | cons step steps ih =>
      rw [List.flatMap_cons, List.filter_append, ih, SetupStep.lines, List.filter_append,
        filter_comments hblank step_comments, List.filter_cons_of_pos (acts_instruction hblank _)]
      rfl
  have hfailure : (failureLines r).filter (acts blank) =
      ((filled r.failingCommand).map cmdLine).toList := by
    rw [failureLines]
    cases filled r.failingCommand with
    | none => rfl
    | some command =>
      dsimp only
      rw [List.filter_append, filter_comments hblank failure_comments,
        List.filter_cons_of_pos (acts_cmdLine hblank _)]
      rfl
  rw [dockerfileLines, List.filter_append, List.filter_append, List.filter_append,
    filter_comments hblank header_comments, hsteps, hfailure, instructions,
    List.filter_cons_of_neg (by simp), List.filter_cons_of_pos (acts_from hblank _),
    List.filter_cons_of_pos (acts_workdir hblank), List.filter_cons_of_neg (by simp)]
  rfl

/-- A line that starts as the one for the failing command. -/
def isCmd (line : Str) : Bool := startsWith line cmdStart

theorem isCmd_cmdLine (command : Str) : isCmd (cmdLine command) = true :=
  List.isPrefixOf_iff_prefix.mpr (List.prefix_append _ _)

theorem isCmd_instruction (command : Str) : isCmd (instruction command) = false := by
  have hother : ∀ (start rest : Str), (cmdStart.isPrefixOf start || start.isPrefixOf cmdStart) = false →
      isCmd (start ++ rest) = false := by
    intro start rest hstart
    rw [Bool.or_eq_false_iff] at hstart
    refine eq_false_of_ne_true fun hcmd => ?_
    rcases List.prefix_or_prefix_of_prefix (List.isPrefixOf_iff_prefix.mp hcmd)
      (List.prefix_append start rest) with h | h
    · rw [List.isPrefixOf_iff_prefix.mpr h] at hstart
      cases hstart.1
    · rw [List.isPrefixOf_iff_prefix.mpr h] at hstart
      cases hstart.2
  rw [instruction]
  split_ifs with h
  · obtain ⟨start, hstart, hprefix⟩ := List.any_eq_true.mp h
    obtain ⟨rest, rfl⟩ := List.isPrefixOf_iff_prefix.mp hprefix
    refine hother start rest ?_
    have htable : ([lit "COPY ", lit "ADD ", lit "ENV ", lit "ARG "].all fun start =>
        !(cmdStart.isPrefixOf start || start.isPrefixOf cmdStart)) = true := rfl
    have hline := List.all_eq_true.mp htable start hstart
    rw [Bool.not_eq_true'] at hline
    exact hline
  · exact hother _ command rfl

/-! ## Provenance -/

variable (r)

/-- `PROVENANCE_PREFIXES` -/
def provenancePrefixes : List Str := [lit "Scanned at:", lit "\"//generated-at\""]

/-- A line that the comparison keeps. -/
def keeps (line : Str) : Bool := !provenancePrefixes.any (containsText line)

/-- `strip_provenance`. -/
def stripProvenance (content : Str) : Str := join "\n" ((splitlines content).filter keeps)

/-! ## The script -/

/-- The lines of `render_repro_script` before the symptom. -/
def verdictLines : List Str := [
  lit "set +e",
  lit "docker run --rm \"$TAG\"",
  lit "status=$?",
  lit "set -e",
  [],
  lit "if [ $status -eq 0 ]; then",
  lit "  echo \"NOT REPRODUCED: the command succeeded in this container.\"",
  lit "  echo \"Either the cause is not in the environment this recipe\"",
  lit "  echo \"captures, or it has already been fixed.\"",
  lit "  exit 1",
  lit "fi",
  lit "echo \"REPRODUCED: exited $status, as reported.\""]

/-- The lines behind the symptom. -/
def noteLines : List Str := [
  lit "echo \"Note: check the failure matches. A different failure is not\"",
  lit "echo \"a reproduction, and is the usual way this wastes time.\"",
  lit "exit 0"]

/-- The line that tells the symptom. -/
def symptomLine (symptom : Str) : Str := lit "echo \"Expected symptom: " ++ (symptom ++ lit "\"")

/-- The lines that `render_repro_script` joins. -/
def scriptLines : List Str :=
  [lit "#!/usr/bin/env bash", lit "set -euo pipefail"] ++ header r ++
    [[], lit "TAG=\"devrepro-repro:$(date +%s)\"", lit "docker build -t \"$TAG\" -f Dockerfile.repro .",
      []] ++
    if (filled r.failingCommand).isSome then
      verdictLines ++ ((filled r.expectedSymptom).map symptomLine).toList ++ noteLines
    else [lit "docker run --rm -it \"$TAG\" bash"]

/-- `render_repro_script`. -/
def renderReproScript : Str := join "\n" (scriptLines r) ++ lit "\n"

/-! ## The sandbox -/

/-- What the adapter writes for the start of the `CMD`. -/
def sandboxNote (command : Str) : Str :=
  lit ("# E2B starts sessions from this template rather than running it, so\n" ++
    "# the failing command belongs in the session, not in the image:\n#   ") ++
    (command ++ (lit "\n# " ++ cmdStart))

/-- The content that `render_adapter` gives for `e2b`. -/
def renderSandbox : Str :=
  match filled r.failingCommand with
  | none => renderDockerfile r
  | some command => replaceText cmdStart (sandboxNote command) (renderDockerfile r)

/-! ## Fixed lines -/

variable {r}

/-- The remarks are texts of the renderer only. -/
theorem remarks_printable {line : Str} (h : line ∈ remarks r) : line.all isPrintableAscii = true := by
  rw [remarks, List.mem_append, List.mem_append] at h
  rcases h with (h | h) | h
  · rcases List.mem_pair.mp h with heq | heq
    all_goals rw [heq]; exact lit_all rfl (by decide)
  · split_ifs at h
    · cases h
    · simp only [notPinned, List.mem_cons, List.not_mem_nil, or_false] at h
      rcases h with heq | heq | heq
      all_goals rw [heq]; exact lit_all rfl (by decide)
  · split_ifs at h
    · cases h
    · simp only [noFailingCommand, List.mem_cons, List.not_mem_nil, or_false] at h
      rcases h with heq | heq | heq
      all_goals rw [heq]; exact lit_all rfl (by decide)

/-- The comments on the failing command are texts of the renderer, but for the symptom. -/
theorem mem_failureComments {line : Str} (h : line ∈ failureComments r) :
    line.all isPrintableAscii = true ∨
      ∃ symptom ∈ filled r.expectedSymptom, line = lit "# Expected: " ++ symptom := by
  rw [failureComments, List.mem_append, Option.mem_toList, Option.map_eq_some_iff] at h
  rcases h with h | ⟨symptom, hsymptom, rfl⟩
  · simp only [List.mem_cons, List.not_mem_nil, or_false] at h
    refine Or.inl ?_
    rcases h with heq | heq | heq
    all_goals rw [heq]; exact lit_all rfl (by decide)
  · exact Or.inr ⟨symptom, hsymptom, rfl⟩

end DevRepro.Reproduce
