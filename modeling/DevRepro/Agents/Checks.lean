import DevRepro.Agents.Manifest
import DevRepro.Lib.Firsts
import DevRepro.Mcp.Protocol

/-!
# Checks of declared commands

`check_declared_commands` of `agents/manifest.py`.  A command is checked once for its
program and its manifest, and a program with a path is looked for below the root.
`pathsChecked_iff` says when that is a check of every such program in the directory that
the command runs in.
-/

namespace DevRepro.Agents

open DevRepro.Python DevRepro.Lib
open DevRepro.Mcp (Path)

/-! ## Checks -/

inductive CheckStatus where
  | ok
  | shellBuiltin
  | notOnPath
  | missing
  | pathAbsent
  deriving DecidableEq

structure CommandCheck where
  command : DeclaredCommand
  status : CheckStatus
  detail : Str
  resolved : Option Str
  deriving DecidableEq

/-- What the checks take from the machine and the interpreter. -/
structure Machine where
  /-- `path.exists()` -/
  pathExists : Path → Bool
  /-- `str(path)` -/
  pathText : Path → Str
  /-- `repr(text)` -/
  repr : Str → Str
  /-- `resolve_all_on_path` -/
  resolveAll : Str → List Str
  /-- `shutil.which(name) is not None` -/
  which : Str → Bool
  /-- `str.isidentifier` -/
  isIdentifier : Str → Bool
  /-- `find_spec(name) is not None`, or an error that `_importable_module` handles -/
  findSpec : Str → Option Bool

/-- `DeclaredCommand.is_runnable`. -/
def DeclaredCommand.isRunnable (c : DeclaredCommand) : Bool :=
  c.program != [] && decide (c.program ∉ shellKeywords)

/-- `_looks_like_path`. -/
def looksLikePath (program : Str) : Bool :=
  decide (codePoint '/' ∈ program) || decide (codePoint '\\' ∈ program)

section Definitions

variable (m : Machine) (root : Path) (command : DeclaredCommand)

/-- `_check_path_program`; the root is `Path(root or ".")`. -/
def checkPathProgram : CommandCheck :=
  let target := root.join (Path.parse command.program)
  if m.pathExists target then
    ⟨command, .ok, m.repr command.program ++ lit " exists in the repository.",
      some (m.pathText target)⟩
  else
    ⟨command, .pathAbsent, m.repr command.program ++
      (lit " does not exist yet. This is often expected: a " ++
        (lit "setup step usually creates it, so it only matters if an earlier " ++
          lit "command in the same block did not run.")), none⟩

/-- `_importable_module`. -/
def importableModule (program : Str) : Option Str :=
  let candidate := program.map fun c => if c = codePoint '-' then codePoint '_' else c
  if m.which program then none
  else if !m.isIdentifier candidate then none
  else if m.findSpec candidate = some true then some candidate else none

/-- The check of one command. -/
def checkCommand : CommandCheck :=
  let program := command.program
  if looksLikePath program then checkPathProgram m root command
  else if program ∈ shellBuiltins then
    ⟨command, .shellBuiltin, m.repr program ++ lit " is a shell builtin; always available.", none⟩
  else
    match m.resolveAll program with
    | first :: others =>
      let extra :=
        if others = [] then []
        else lit " " ++ (natStr (others.length + 1) ++ lit " installations found; the first wins.")
      ⟨command, .ok, m.repr program ++ (lit " resolves on PATH." ++ extra), some first⟩
    | [] =>
      match importableModule m program with
      | some module =>
        ⟨command, .notOnPath, m.repr program ++ (lit " is installed but not on PATH in this " ++
          (lit "shell. `python -m " ++ (module ++ (lit "` works, so this is a PATH " ++
            (lit "problem, not a missing dependency -- activate the " ++
              lit "virtualenv or add the scripts directory to PATH."))))), none⟩
      | none =>
        ⟨command, .missing, m.repr program ++ (lit " is not on PATH and is not importable as a " ++
          lit "Python module. The agent will fail on this command."), none⟩

end Definitions

/-- What a command is known by to the loop. -/
def seenKey (c : DeclaredCommand) : Str × Str := (c.program, c.manifest)

/-- `check_declared_commands`. -/
def checkDeclaredCommands (m : Machine) (root : Path) (commands : List DeclaredCommand) :
    List CommandCheck :=
  (firsts seenKey (commands.filter DeclaredCommand.isRunnable)).map (checkCommand m root)

/-! ## Every program -/

section Statements

variable (m : Machine) (root : Path) (commands : List DeclaredCommand)

/-- The file of a program, in the directory that its command runs in. -/
def ownTarget (c : DeclaredCommand) : Path :=
  (root.join (Path.parse c.cwd)).join (Path.parse c.program)

/-- Every program with a path is checked in its own directory, and every other program once
for its manifest. -/
structure PathsChecked : Prop where
  paths : ∀ c ∈ commands, looksLikePath c.program = true →
    ∃ check ∈ checkDeclaredCommands m root commands,
      check.command.program = c.program ∧ check.command.cwd = c.cwd
  bare : ∀ c ∈ commands, c.isRunnable = true → looksLikePath c.program = false →
    ∃ check ∈ checkDeclaredCommands m root commands,
      check.command.program = c.program ∧ check.command.manifest = c.manifest
  ok : ∀ check ∈ checkDeclaredCommands m root commands,
    looksLikePath check.command.program = true →
      (check.status = .ok ↔ m.pathExists (ownTarget root check.command) = true)

/-- The first command with its program in its manifest. -/
def IsFirst (c : DeclaredCommand) : Prop :=
  ∃ before after, commands = before ++ c :: after ∧
    ∀ d ∈ before, ¬(d.program = c.program ∧ d.manifest = c.manifest)

/-- The directories make no difference: where a program with a path is run, it is the first
of some manifest, and for the first ones the directory does not change whether the file is
there. -/
structure SameDirectories : Prop where
  cwds : ∀ c ∈ commands, looksLikePath c.program = true →
    ∃ d, IsFirst commands d ∧ d.program = c.program ∧ d.cwd = c.cwd
  files : ∀ d, IsFirst commands d → looksLikePath d.program = true →
    (m.pathExists (root.join (Path.parse d.program)) = true ↔
      m.pathExists (ownTarget root d) = true)

end Statements

variable {m : Machine} {root : Path} {commands : List DeclaredCommand}

theorem isFirst_iff {c : DeclaredCommand} : IsFirst commands c ↔ c ∈ firsts seenKey commands := by
  rw [mem_firsts]
  refine exists₂_congr fun before after => and_congr_right fun _ => ?_
  simp only [seenKey, List.mem_map, Prod.mk.injEq, not_exists, not_and]

theorem isRunnable_of_path {c : DeclaredCommand} (h : looksLikePath c.program = true) :
    c.isRunnable = true := by
  have hwords : ∀ keyword ∈ shellKeywords, looksLikePath keyword = false := by decide
  rw [DeclaredCommand.isRunnable, Bool.and_eq_true, bne_iff_ne, decide_eq_true_iff]
  constructor
  · intro hnil
    rw [hnil] at h
    cases h
  · intro hin
    rw [hwords _ hin] at h
    cases h

@[simp] theorem checkCommand_command (c : DeclaredCommand) :
    (checkCommand m root c).command = c := by
  unfold checkCommand checkPathProgram
  dsimp only
  split_ifs
  · rfl
  · rfl
  · rfl
  · split
    · rfl
    · split <;> rfl

/-- The checks are those of the first commands that run something. -/
theorem mem_checkDeclaredCommands {check : CommandCheck} :
    check ∈ checkDeclaredCommands m root commands ↔
      ∃ c, IsFirst commands c ∧ c.isRunnable = true ∧ checkCommand m root c = check := by
  have hkey : ∀ c d : DeclaredCommand, seenKey c = seenKey d → c.isRunnable = d.isRunnable := by
    intro c d h
    have hprogram : c.program = d.program := congrArg Prod.fst h
    rw [DeclaredCommand.isRunnable, DeclaredCommand.isRunnable, hprogram]
  rw [checkDeclaredCommands, List.mem_map]
  simp only [mem_firsts_filter hkey, isFirst_iff, and_assoc]

/-- Every command that runs something has a check of its program in its manifest. -/
theorem checked_once {c : DeclaredCommand} (hc : c ∈ commands) (hrun : c.isRunnable = true) :
    ∃ check ∈ checkDeclaredCommands m root commands,
      check.command.program = c.program ∧ check.command.manifest = c.manifest := by
  have hmem : seenKey c ∈ (firsts seenKey (commands.filter DeclaredCommand.isRunnable)).map seenKey := by
    rw [keys_firsts]
    exact List.mem_map_of_mem (List.mem_filter.mpr ⟨hc, hrun⟩)
  obtain ⟨d, hd, hkey⟩ := List.mem_map.mp hmem
  refine ⟨checkCommand m root d, List.mem_map_of_mem hd, ?_⟩
  rw [checkCommand_command]
  exact Prod.mk.inj hkey

/-- A program with a path is found where the root has it. -/
theorem path_status {c : DeclaredCommand} (h : looksLikePath c.program = true) :
    (checkCommand m root c).status = .ok ↔
      m.pathExists (root.join (Path.parse c.program)) = true := by
  rw [checkCommand, if_pos h, checkPathProgram]
  split_ifs with hexists
  · exact iff_of_true rfl hexists
  · exact iff_of_false (fun heq => nomatch heq) hexists

variable (m root commands) in
/-- Every program with a path is checked where it runs exactly when the directories make no
difference. -/
theorem pathsChecked_iff : PathsChecked m root commands ↔ SameDirectories m root commands := by
  constructor
  · intro h
    constructor
    · intro c hc hpath
      obtain ⟨check, hcheck, hprogram, hcwd⟩ := h.paths c hc hpath
      obtain ⟨d, hfirst, -, rfl⟩ := mem_checkDeclaredCommands.mp hcheck
      rw [checkCommand_command] at hprogram hcwd
      exact ⟨d, hfirst, hprogram, hcwd⟩
    · intro d hfirst hpath
      have hcheck : checkCommand m root d ∈ checkDeclaredCommands m root commands :=
        mem_checkDeclaredCommands.mpr ⟨d, hfirst, isRunnable_of_path hpath, rfl⟩
      have hok := h.ok _ hcheck
      rw [checkCommand_command] at hok
      rw [← path_status hpath]
      exact hok hpath
  · intro h
    constructor
    · intro c hc hpath
      obtain ⟨d, hfirst, hprogram, hcwd⟩ := h.cwds c hc hpath
      have hrun : d.isRunnable = true := isRunnable_of_path (by rw [hprogram]; exact hpath)
      refine ⟨_, mem_checkDeclaredCommands.mpr ⟨d, hfirst, hrun, rfl⟩, ?_⟩
      rw [checkCommand_command]
      exact ⟨hprogram, hcwd⟩
    · exact fun c hc hrun _ => checked_once hc hrun
    · intro check hcheck hpath
      obtain ⟨d, hfirst, -, rfl⟩ := mem_checkDeclaredCommands.mp hcheck
      rw [checkCommand_command] at hpath ⊢
      rw [path_status hpath]
      exact h.files d hfirst hpath

/-- A machine where only `repo/web/run.sh` is there. -/
def webMachine : Machine where
  pathExists := fun p => decide (p = Path.parse "repo/web/run.sh")
  pathText := fun p => join "/" p.parts
  repr := fun s => lit "'" ++ s ++ lit "'"
  resolveAll := fun _ => []
  which := fun _ => false
  isIdentifier := fun _ => false
  findSpec := fun _ => none

/-- The commands of `cd web && ./run.sh`, and of `./run.sh` on the next line. -/
def webCommands : List DeclaredCommand :=
  [⟨"cd web", "cd", "AGENTS.md", 2, "."⟩, ⟨"./run.sh", "./run.sh", "AGENTS.md", 2, "web"⟩,
    ⟨"./run.sh", "./run.sh", "AGENTS.md", 3, "."⟩]

/-- The script in `web` is reported absent, and the one at the root is not checked. -/
theorem web_unchecked :
    parseDeclaredCommands .standard "```sh\ncd web && ./run.sh\n./run.sh\n```\n" "AGENTS.md" =
        webCommands ∧
      (checkDeclaredCommands webMachine (Path.parse "repo") webCommands).map
          (fun check => (check.command.cwd, check.status)) =
        [(lit ".", .shellBuiltin), (lit "web", .pathAbsent)] ∧
      ¬PathsChecked webMachine (Path.parse "repo") webCommands := by
  have hstatus : (checkDeclaredCommands webMachine (Path.parse "repo") webCommands).map
      (fun check => (check.command.cwd, check.status)) =
        [(lit ".", .shellBuiltin), (lit "web", .pathAbsent)] := by decide +kernel
  refine ⟨by decide +kernel, hstatus, fun h => ?_⟩
  have hchecks : ((checkDeclaredCommands webMachine (Path.parse "repo") webCommands).all
      fun check => decide (¬(check.command.program = lit "./run.sh" ∧ check.command.cwd = lit "."))) =
        true := by decide +kernel
  obtain ⟨check, hcheck, hboth⟩ := h.paths ⟨"./run.sh", "./run.sh", "AGENTS.md", 3, "."⟩
    (List.mem_cons_of_mem _ (List.mem_cons_of_mem _ List.mem_cons_self)) (by decide)
  exact of_decide_eq_true (List.all_eq_true.mp hchecks check hcheck) hboth

end DevRepro.Agents
