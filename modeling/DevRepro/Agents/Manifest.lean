import DevRepro.Agents.Commands

/-!
# Agent manifests and workflows

`parse_declared_commands`, `ci_declared_commands` and `manifest_vs_ci` of
`agents/manifest.py`.

`shellLines` are the lines of a document that stand in a shell block, and
`mem_declaredKeys_iff` says that the keys which a manifest declares are those of
the commands on these lines.
-/

namespace DevRepro.Agents

open DevRepro.Python

variable (rt : AgentRuntime)

/-! ## Manifests -/

structure DeclaredCommand where
  raw : Str
  program : Str
  manifest : Str
  line : Nat
  cwd : Str
  deriving DecidableEq

/-- `_SHELL_FENCES`. -/
def shellFences : List Str :=
  texts ["bash", "sh", "shell", "zsh", "console", "shell-session", "terminal", ""]

/-- A character of `[A-Za-z0-9_-]`. -/
def isFenceChar (c : CodePoint) : Bool :=
  isAsciiLetter c || (0x30 ≤ c.val && c.val ≤ 0x39) || c == codePoint '_' || c == codePoint '-'

/-- The language of a line that `_FENCE` matches. -/
def fenceLanguage (line : Str) : Option Str :=
  let body := line.dropWhile isSpace
  if startsWith body "```" then
    let tail := body.drop 3
    if (tail.dropWhile isFenceChar).all isSpace then some (tail.takeWhile isFenceChar) else none
  else none

def isShellFence (language : Str) : Bool := decide (rt.lower language ∈ shellFences)

/-- One segment of the target of a `cd`. -/
def cdSegment (parts : List Str) (segment : Str) : List Str :=
  if segment = [] ∨ segment = lit "." then parts
  else if segment = lit ".." then parts.dropLast
  else parts ++ [segment]

/-- `_apply_cd`. -/
def applyCd (cwd command : Str) : Str :=
  match words command with
  | _ :: target :: _ =>
    let target := stripChars isQuote target
    if startsWith target "/" || startsWith target "~" || target[1]? == some (codePoint ':') then "."
    else
      let parts := if cwd = lit "." then [] else cwd.splitOn (codePoint '/')
      let slashes := target.map fun c => if c = codePoint '\\' then codePoint '/' else c
      let parts := (slashes.splitOn (codePoint '/')).foldl cdSegment parts
      if join "/" parts = [] then "." else join "/" parts
  | _ => "."

/-- The commands of the parts of one line. -/
def lineCommands (manifest : Str) (lineno : Nat) (cwd : Str) : List Str → List DeclaredCommand
  | [] => []
  | part :: rest =>
    let program := programOf rt part
    if program = [] then lineCommands manifest lineno cwd rest
    else
      ⟨part, program, manifest, lineno, cwd⟩ ::
        lineCommands manifest lineno (if program = lit "cd" then applyCd cwd part else cwd) rest

/-- The loop of `parse_declared_commands`. -/
def parseLines (manifest : Str) : Bool → Nat → List Str → List DeclaredCommand
  | _, _, [] => []
  | inShellBlock, lineno, line :: rest =>
    match fenceLanguage line with
    | some language =>
      parseLines manifest (!inShellBlock && isShellFence rt language) (lineno + 1) rest
    | none =>
      (if inShellBlock then lineCommands rt manifest lineno "." (splitCommandLine line) else []) ++
        parseLines manifest inShellBlock (lineno + 1) rest

/-- `parse_declared_commands`. -/
def parseDeclaredCommands (text manifest : Str) : List DeclaredCommand :=
  parseLines rt manifest false 1 (splitlines text)

/-! ## Workflows -/

/-- What stands behind `run:`, and the whitespace behind that. -/
def afterRun (line : Str) : Option Str :=
  let body := line.dropWhile isSpace
  let body := if startsWith body "-" then (body.drop 1).dropWhile isSpace else body
  if startsWith body "run:" then some ((body.drop 4).dropWhile isSpace) else none

/-- The command of a line that `_RUN_SCALAR` matches. -/
def runScalar (line : Str) : Option Str :=
  match afterRun line with
  | none | some [] => none
  | some (c :: rest) =>
    if c = codePoint '|' ∨ c = codePoint '>' then none else some (stripEnd isSpace (c :: rest))

/-- The indent of a line that `_RUN_BLOCK` matches. -/
def runBlock (line : Str) : Option Nat :=
  match afterRun line with
  | none | some [] => none
  | some (c :: rest) =>
    if c = codePoint '|' ∨ c = codePoint '>' then
      let rest := if startsWith rest "-" || startsWith rest "+" then rest.drop 1 else rest
      if rest.all isSpace then some (line.takeWhile isSpace).length else none
    else none

/-- A line outside a block: its commands, and the block that it opens. -/
def outerLine (line : Str) : List Str × Option Nat :=
  match runScalar line with
  | some text => (splitCommandLine text, none)
  | none => ([], runBlock line)

/-- Whether a line ends the block of an indent. -/
def endsBlock (indent : Nat) (line : Str) : Bool :=
  strip line != [] && decide ((line.takeWhile isSpace).length ≤ indent)

/-- One line, in the block that is open. -/
def stepLine (block : Option Nat) (line : Str) : List Str × Option Nat :=
  match block with
  | none => outerLine line
  | some indent =>
    if endsBlock indent line then outerLine line else (splitCommandLine line, some indent)

/-- The loops of `_run_steps`. -/
def stepLines : Option Nat → List Str → List Str
  | _, [] => []
  | block, line :: rest => (stepLine block line).1 ++ stepLines (stepLine block line).2 rest

/-- `_run_steps`. -/
def runSteps (text : Str) : List Str := stepLines none (splitlines text)

/-- `_gates_a_pull_request`. -/
def gatesAPullRequest (text : Str) : Bool :=
  let trigger := beforeText "jobs:" text
  containsText trigger "pull_request" ||
    (containsText trigger "push:" && containsText trigger "branches")

/-- `ci_declared_commands`, on the texts of the workflows in the order in which they
are read; `none` for one that cannot be read. -/
def ciDeclaredCommands (workflows : List (Option Str)) : List Str :=
  workflows.flatMap fun
    | none => []
    | some text => if gatesAPullRequest text then runSteps text else []

/-- One command of the loop of `manifest_vs_ci`. -/
def missingStep (declaredKeys missing : List Str) (command : Str) : List Str :=
  let key := commandKey rt command
  if key = [] ∨ key ∈ declaredKeys then missing
  else if key ∈ missing.map (commandKey rt) then missing
  else missing ++ [command]

/-- `manifest_vs_ci`. -/
def manifestVsCi (declared : List DeclaredCommand) (ci : List Str) : List Str :=
  ci.foldl (missingStep rt (declared.map fun c => commandKey rt c.raw)) []

/-! ## What the workflows say -/

theorem afterRun_within {line text : Str} (h : afterRun line = some text) : text <:+: line := by
  unfold afterRun at h
  dsimp only at h
  split_ifs at h
  · cases h
    exact ((List.dropWhile_suffix _).trans ((List.drop_suffix _ _).trans
      ((List.dropWhile_suffix _).trans ((List.drop_suffix _ _).trans
        (List.dropWhile_suffix _))))).isInfix
  · cases h
    exact ((List.dropWhile_suffix _).trans ((List.drop_suffix _ _).trans
      (List.dropWhile_suffix _))).isInfix

theorem runScalar_within {line text : Str} (h : runScalar line = some text) : text <:+: line := by
  unfold runScalar at h
  split at h
  · cases h
  · cases h
  · rename_i c rest hrun
    split_ifs at h
    cases h
    exact (stripEnd_isStart _).isInfix.trans (afterRun_within hrun)

theorem mem_outerLine {c line : Str} (h : c ∈ (outerLine line).1) :
    ∃ text, text <:+: line ∧ c ∈ splitCommandLine text := by
  unfold outerLine at h
  split at h
  · rename_i text hscalar
    exact ⟨text, runScalar_within hscalar, h⟩
  · cases h

theorem mem_stepLines {c : Str} {block : Option Nat} {lines : List Str}
    (h : c ∈ stepLines block lines) :
    ∃ line ∈ lines, ∃ text, text <:+: line ∧ c ∈ splitCommandLine text := by
  induction lines generalizing block with
  | nil => cases h
  | cons line rest ih =>
    rw [stepLines, List.mem_append] at h
    rcases h with h | h
    · refine ⟨line, List.mem_cons_self, ?_⟩
      unfold stepLine at h
      split at h
      · exact mem_outerLine h
      · split_ifs at h
        · exact mem_outerLine h
        · exact ⟨line, List.infix_rfl, h⟩
    · obtain ⟨other, hother, htext⟩ := ih h
      exact ⟨other, List.mem_cons_of_mem _ hother, htext⟩

/-- A command of the workflows was split off a line of one. -/
theorem mem_ciDeclaredCommands {c : Str} {workflows : List (Option Str)}
    (h : c ∈ ciDeclaredCommands workflows) :
    ∃ text, (∀ d ∈ text, isLineBreak d = false) ∧ c ∈ splitCommandLine text := by
  obtain ⟨workflow, -, hc⟩ := List.mem_flatMap.mp h
  cases workflow with
  | none => cases hc
  | some source =>
    dsimp only at hc
    split_ifs at hc
    · obtain ⟨line, hline, text, htext, hmem⟩ := mem_stepLines hc
      exact ⟨text, fun d hd => no_break_of_mem_splitlines hline d (htext.subset hd), hmem⟩
    · cases hc

/-! ## What is missing -/

variable {rt}

theorem missingStep_eq_nil {declaredKeys missing : List Str} {command : Str} :
    missingStep rt declaredKeys missing command = [] ↔
      missing = [] ∧ (commandKey rt command = [] ∨ commandKey rt command ∈ declaredKeys) := by
  unfold missingStep
  dsimp only
  split_ifs with hkey hmissing
  · exact ⟨fun h => ⟨h, hkey⟩, fun h => h.1⟩
  · constructor
    · rintro rfl
      cases hmissing
    · exact fun h => absurd h.2 hkey
  · constructor
    · intro h
      simp at h
    · exact fun h => absurd h.2 hkey

/-- Nothing is missing when every key of the workflows is declared. -/
theorem manifestVsCi_eq_nil {declared : List DeclaredCommand} {ci : List Str} :
    manifestVsCi rt declared ci = [] ↔ ∀ c ∈ ci, commandKey rt c = [] ∨
      commandKey rt c ∈ declared.map fun d => commandKey rt d.raw := by
  have hfold : ∀ (declaredKeys missing : List Str),
      ci.foldl (missingStep rt declaredKeys) missing = [] ↔
        missing = [] ∧ ∀ c ∈ ci, commandKey rt c = [] ∨ commandKey rt c ∈ declaredKeys := by
    intro declaredKeys
    induction ci with
    | nil => simp
    | cons command rest ih =>
      intro missing
      rw [List.foldl_cons, ih, missingStep_eq_nil, List.forall_mem_cons, and_assoc]
  rw [manifestVsCi, hfold]
  exact ⟨fun h => h.2, fun h => ⟨rfl, h⟩⟩

/-! ## The lines of shell blocks -/

variable (rt) in
/-- The lines that stand in a shell block. -/
def shellLines : Bool → List Str → List Str
  | _, [] => []
  | inShellBlock, line :: rest =>
    match fenceLanguage line with
    | some language => shellLines (!inShellBlock && isShellFence rt language) rest
    | none => (if inShellBlock then [line] else []) ++ shellLines inShellBlock rest

theorem mem_lineCommands_raw {manifest cwd raw : Str} {lineno : Nat} {parts : List Str} :
    raw ∈ (lineCommands rt manifest lineno cwd parts).map DeclaredCommand.raw ↔
      raw ∈ parts ∧ programOf rt raw ≠ [] := by
  induction parts generalizing cwd with
  | nil => simp [lineCommands]
  | cons part rest ih =>
    rw [lineCommands]
    by_cases hprogram : programOf rt part = []
    · rw [if_pos hprogram, ih, List.mem_cons]
      constructor
      · exact fun h => ⟨Or.inr h.1, h.2⟩
      · rintro ⟨rfl | h, hne⟩
        · exact absurd hprogram hne
        · exact ⟨h, hne⟩
    · rw [if_neg hprogram, List.map_cons, List.mem_cons, ih, List.mem_cons]
      constructor
      · rintro (rfl | h)
        · exact ⟨Or.inl rfl, hprogram⟩
        · exact ⟨Or.inr h.1, h.2⟩
      · rintro ⟨rfl | h, hne⟩
        · exact Or.inl rfl
        · exact Or.inr ⟨h, hne⟩

theorem mem_parseLines_raw {manifest raw : Str} {inShellBlock : Bool} {lineno : Nat}
    {lines : List Str} :
    raw ∈ (parseLines rt manifest inShellBlock lineno lines).map DeclaredCommand.raw ↔
      ∃ line ∈ shellLines rt inShellBlock lines, raw ∈ splitCommandLine line ∧
        programOf rt raw ≠ [] := by
  induction lines generalizing inShellBlock lineno with
  | nil => simp [parseLines, shellLines]
  | cons line rest ih =>
    rw [parseLines, shellLines]
    cases fenceLanguage line with
    | some language => exact ih
    | none =>
      dsimp only
      rw [List.map_append, List.mem_append, ih]
      cases inShellBlock with
      | false => simp
      | true =>
        rw [if_pos rfl, if_pos rfl, mem_lineCommands_raw]
        simp

/-- The keys of a manifest are those of the commands in its shell blocks. -/
theorem mem_declaredKeys_iff {text manifest key : Str} (hkey : key ≠ []) :
    key ∈ (parseDeclaredCommands rt text manifest).map (fun d => commandKey rt d.raw) ↔
      ∃ line ∈ shellLines rt false (splitlines text), ∃ part ∈ splitCommandLine line,
        commandKey rt part = key := by
  have hraw : key ∈ (parseDeclaredCommands rt text manifest).map (fun d => commandKey rt d.raw) ↔
      ∃ raw ∈ (parseDeclaredCommands rt text manifest).map DeclaredCommand.raw,
        commandKey rt raw = key := by
    simp only [List.mem_map, exists_exists_and_eq_and]
  rw [hraw]
  constructor
  · rintro ⟨raw, hmem, heq⟩
    obtain ⟨line, hline, hpart, -⟩ := mem_parseLines_raw.mp hmem
    exact ⟨line, hline, raw, hpart, heq⟩
  · rintro ⟨line, hline, part, hpart, heq⟩
    refine ⟨part, mem_parseLines_raw.mpr ⟨line, hline, hpart, programOf_of_key ?_⟩, heq⟩
    rw [heq]
    exact hkey

/-- Lines without a fence are in a shell block together or not at all. -/
theorem shellLines_append {inShellBlock : Bool} {lines rest : List Str}
    (h : ∀ line ∈ lines, fenceLanguage line = none) :
    shellLines rt inShellBlock (lines ++ rest) =
      (if inShellBlock then lines else []) ++ shellLines rt inShellBlock rest := by
  induction lines with
  | nil => cases inShellBlock <;> rfl
  | cons line lines ih =>
    rw [List.cons_append, shellLines, h line List.mem_cons_self]
    dsimp only
    rw [ih fun other hother => h other (List.mem_cons_of_mem _ hother)]
    cases inShellBlock <;> rfl

end DevRepro.Agents
