import DevRepro.Agents.Manifest
import DevRepro.Python.JsonDump
import DevRepro.Python.Words

/-!
# Drafting a manifest

`agents/author.py`: an `AGENTS.md` that is drafted from the workflows.

The draft lists every command of the workflows in a shell block, so that reading
it again finds all of them.  `generated_matches_ci_iff` says when it does: no
line that is put into the draft may be a fence, and a command must survive being
split a second time.
-/

namespace DevRepro.Agents

open DevRepro.Python

variable (rt : AgentRuntime)

/-! ## The shape of a project -/

structure ProjectShape where
  name : Str
  ecosystems : List Str
  gates : List Str
  directories : List Str
  hasPrecommit : Bool
  existingManifests : List Str

/-- What `detect_project_shape` looks at. -/
structure ProjectHost where
  /-- `root.resolve().name`. -/
  name : Str
  isFile : Str → Bool
  isDir : Str → Bool
  /-- Some directory of the root has a `package.json`. -/
  nestedPackage : Bool
  workflows : List (Option Str)

/-- `_ECOSYSTEM_MARKERS`. -/
def ecosystemMarkers : List (Str × Str) :=
  [("pyproject.toml", "Python"), ("setup.py", "Python"), ("requirements.txt", "Python"),
    ("package.json", "Node"), ("go.mod", "Go"), ("Cargo.toml", "Rust"), ("composer.json", "PHP"),
    ("Gemfile", "Ruby"), ("pom.xml", "Java"), ("build.gradle", "Java"),
    ("build.gradle.kts", "Java"), ("CMakeLists.txt", "C/C++")].map
    fun (entry : String × String) => (lit entry.1, lit entry.2)

/-- `_SETUP_PREFIXES`. -/
def setupPrefixes : List Str := texts ["pip install", "python -m pip", "uv pip install",
  "uv sync", "poetry install", "npm ci", "npm install", "npm i ", "yarn install", "pnpm install",
  "bundle install", "go mod download", "cargo fetch", "apt-get", "sudo apt",
  "npx playwright install", "playwright install"]

/-- `_NOTABLE_DIRS`. -/
def notableDirs : List Str := texts ["src", "lib", "app", "tests", "test", "docs", "scripts",
  "web", "frontend", "backend", "packages", "services", "examples"]

/-- The manifests that `detect_project_shape` looks for. -/
def knownManifests : List Str :=
  texts ["AGENTS.md", "CLAUDE.md", ".cursorrules", ".github/copilot-instructions.md"]

/-- `" ".join(command.split())`. -/
def normalisedCommand (command : Str) : Str := join " " (words command)

/-- One command of the loop of `_dedupe`: the commands so far, under their normalised
forms. -/
def dedupeStep (st : List Str × List Str) (command : Str) : List Str × List Str :=
  let key := normalisedCommand command
  if key ≠ [] ∧ key ∉ st.1 then (st.1 ++ [key], st.2 ++ [strip command]) else st

/-- `_dedupe`. -/
def dedupe (commands : List Str) : List Str := (commands.foldl dedupeStep ([], [])).2

/-- One marker of the loop over `_ECOSYSTEM_MARKERS`. -/
def ecosystemStep (root : ProjectHost) (ecosystems : List Str) (entry : Str × Str) : List Str :=
  if root.isFile entry.1 ∧ entry.2 ∉ ecosystems then ecosystems ++ [entry.2] else ecosystems

/-- The ecosystems of a project. -/
def detectEcosystems (root : ProjectHost) : List Str :=
  let ecosystems := ecosystemMarkers.foldl (ecosystemStep root) []
  if lit "Node" ∉ ecosystems ∧ root.nestedPackage then ecosystems ++ [lit "Node"] else ecosystems

/-- `detect_project_shape`. -/
def detectProjectShape (root : ProjectHost) : ProjectShape where
  name := root.name
  ecosystems := detectEcosystems root
  gates := dedupe (ciDeclaredCommands root.workflows)
  directories := notableDirs.filter fun name => root.isDir name && !startsWith name "."
  hasPrecommit := root.isFile ".pre-commit-config.yaml"
  existingManifests := knownManifests.filter root.isFile

/-- Whether a command sets up the project. -/
def isSetup (command : Str) : Bool :=
  setupPrefixes.any fun start => startsWith (rt.lower (normalisedCommand command)) start

/-- `split_setup_and_gates`. -/
def splitSetupAndGates (commands : List Str) : List Str × List Str :=
  (commands.filter (isSetup rt), commands.filter fun c => !isSetup rt c)

/-! ## The draft -/

/-- Commands in a shell block. -/
def shellBlock (commands : List Str) : List Str :=
  lit "```bash" :: commands ++ [lit "```", []]

def introLines : List Str := texts [
  "",
  "Instructions for an automated contributor.",
  "",
  "> Drafted by `devrepro generate agents-md` from this repository's CI",
  "> workflows. **If a command below disagrees with the workflow, the",
  "> workflow wins and this file is the bug.** Re-run",
  "> `devrepro agent-check .` after changing either.",
  ""]

def ecosystemLines (ecosystems : List Str) : List Str :=
  if ecosystems = [] then []
  else
    texts ["## What this is", ""] ++ [lit "A " ++ join " + " ecosystems ++ lit " project."] ++
      texts [
        "",
        "<!-- TODO(human): one paragraph on what it does and who uses it. A",
        "     generator cannot know this, and an agent reads it first. -->",
        ""]

def setupLines (setup : List Str) : List Str :=
  if setup = [] then [] else texts ["## Setup", ""] ++ shellBlock setup

def gatesHeading : List Str := texts ["## Checks that gate a pull request", ""]

def gatesIntro : List Str := texts [
  "Every one of these runs in CI. Run them all before proposing a",
  "change; a subset is how a green local run still fails the pull",
  "request.",
  ""]

def gatesCount (count : Nat) : List Str :=
  [lit "That is " ++ natStr count ++ lit " command(s), read from the workflows that"] ++ texts [
    "trigger on pull requests. Release-only steps are deliberately",
    "excluded: an agent should not be running `twine` or `gh release`.",
    ""]

def noGates : List Str := texts [
  "<!-- TODO(human): no pull-request workflow was found, so this",
  "     section could not be generated. List the commands that must",
  "     pass, and keep them identical to whatever gates merges. -->",
  ""]

def gateLines (gates : List Str) : List Str :=
  if gates = [] then noGates else gatesIntro ++ shellBlock gates ++ gatesCount gates.length

def precommitLines (hasPrecommit : Bool) : List Str :=
  if hasPrecommit then texts [
    "A `.pre-commit-config.yaml` exists. `pre-commit run --all-files`",
    "covers the hooks in it, which may be a subset of the list above.",
    ""]
  else []

def layoutLines (directories : List Str) : List Str :=
  if directories = [] then []
  else
    texts ["## Layout", ""] ++ directories.map (fun name => lit "- `" ++ name ++ lit "/`") ++ [[]]

def conventionLines : List Str := texts [
  "## Conventions",
  "",
  "<!-- TODO(human): the rules that are not obvious from the code -- what",
  "     to name things, what never to touch, which patterns were chosen",
  "     deliberately and which are accidents nobody has cleaned up. This",
  "     is the section an agent most needs and the one a generator is",
  "     least able to write, so it is left empty on purpose rather than",
  "     filled with plausible guesses. -->",
  ""]

def finishLines : List Str := texts [
  "## Before you finish",
  "",
  "- Run every command in the gate list above.",
  "- `devrepro agent-check .` reports whether this file still matches CI,",
  "  whether every declared command resolves on this machine, and what a",
  "  session here could reach."]

def otherLines (manifests : List Str) : List Str :=
  let others := join ", " ((manifests.filter fun m => m != lit "AGENTS.md").map fun m =>
    lit "`" ++ m ++ lit "`")
  texts ["", "## Other instruction files", ""] ++
    [lit "This repository also has " ++ others ++ lit ". Keep them consistent:"] ++ texts [
    "`devrepro agent-check .` reports where they disagree, and an agent",
    "reading one of them will not see the others."]

/-- The lines of the draft behind its heading, but for the empty one at its end. -/
def bodyLines (shape : ProjectShape) : List Str :=
  let (setup, gates) := splitSetupAndGates rt shape.gates
  introLines ++ ecosystemLines shape.ecosystems ++ setupLines setup ++ gatesHeading ++
    gateLines gates ++ precommitLines shape.hasPrecommit ++ layoutLines shape.directories ++
    conventionLines ++ finishLines ++
    if 1 < shape.existingManifests.length then otherLines shape.existingManifests else []

/-- `generate_agents_md`. -/
def generateAgentsMd (shape : ProjectShape) : Str :=
  stripEnd isSpace (join "\n" ((lit "# " ++ shape.name) :: bodyLines rt shape ++ [[]])) ++ lit "\n"

/-! ## Repeated commands -/

theorem words_normalisedCommand (c : Str) : words (normalisedCommand c) = words c :=
  words_join fun _ hw => mem_words hw

theorem words_ne_nil_of_stripped {c : Str} (hne : c ≠ []) (hstrip : strip c = c) :
    words c ≠ [] := by
  intro hnil
  rw [words_eq_nil_iff, ← strip_eq_nil_iff, hstrip] at hnil
  exact hne hnil

/-- The commands that are kept stand for all of them. -/
theorem dedupe_spec {commands : List Str} (h : ∀ c ∈ commands, c ≠ [] ∧ strip c = c) :
    (∀ d ∈ dedupe commands, d ∈ commands) ∧
      ∀ c ∈ commands, ∃ d ∈ dedupe commands, words d = words c := by
  have hfold : ∀ (seen out : List Str), (∀ key ∈ seen, ∃ d ∈ out, normalisedCommand d = key) →
      (∀ d ∈ (commands.foldl dedupeStep (seen, out)).2, d ∈ out ∨ d ∈ commands) ∧
        (∀ d ∈ out, d ∈ (commands.foldl dedupeStep (seen, out)).2) ∧
        ∀ c ∈ commands, ∃ d ∈ (commands.foldl dedupeStep (seen, out)).2,
          normalisedCommand d = normalisedCommand c := by
    induction commands with
    | nil => exact fun seen out _ => ⟨fun d hd => Or.inl hd, fun d hd => hd, by simp⟩
    | cons command rest ih =>
      intro seen out hseen
      obtain ⟨hne, hstrip⟩ := h command List.mem_cons_self
      have hkey : normalisedCommand command ≠ [] := by
        intro hnil
        have hwords := words_normalisedCommand command
        rw [hnil] at hwords
        exact words_ne_nil_of_stripped hne hstrip hwords.symm
      have ih' := ih fun c hc => h c (List.mem_cons_of_mem _ hc)
      rw [List.foldl_cons, dedupeStep]
      dsimp only
      by_cases hnew : normalisedCommand command ∈ seen
      · rw [if_neg fun hboth => hboth.2 hnew]
        obtain ⟨hfrom, hkeep, hall⟩ := ih' seen out hseen
        refine ⟨fun d hd => (hfrom d hd).imp_right (List.mem_cons_of_mem _), hkeep, ?_⟩
        intro c hc
        rcases List.mem_cons.mp hc with rfl | hc
        · obtain ⟨d, hd, heq⟩ := hseen _ hnew
          exact ⟨d, hkeep d hd, heq⟩
        · exact hall c hc
      · rw [if_pos ⟨hkey, hnew⟩, hstrip]
        obtain ⟨hfrom, hkeep, hall⟩ :=
          ih' (seen ++ [normalisedCommand command]) (out ++ [command]) (by
            intro key hmem
            rcases List.mem_append.mp hmem with hmem | hmem
            · obtain ⟨d, hd, heq⟩ := hseen key hmem
              exact ⟨d, List.mem_append_left _ hd, heq⟩
            · exact ⟨command, by simp, (List.mem_singleton.mp hmem).symm⟩)
        refine ⟨fun d hd => ?_, fun d hd => hkeep d (List.mem_append_left _ hd), ?_⟩
        · rcases hfrom d hd with hout | hrest
          · rcases List.mem_append.mp hout with hout | hone
            · exact Or.inl hout
            · exact Or.inr (by rw [List.mem_singleton.mp hone]; exact List.mem_cons_self)
          · exact Or.inr (List.mem_cons_of_mem _ hrest)
        · intro c hc
          rcases List.mem_cons.mp hc with rfl | hc
          · exact ⟨c, hkeep c (by simp), rfl⟩
          · exact hall c hc
  obtain ⟨hfrom, -, hall⟩ := hfold [] [] (by simp)
  refine ⟨fun d hd => (hfrom d hd).resolve_left (by simp), fun c hc => ?_⟩
  obtain ⟨d, hd, heq⟩ := hall c hc
  refine ⟨d, hd, ?_⟩
  rw [← words_normalisedCommand d, heq, words_normalisedCommand]

/-! ## The text of the draft -/

/-- Lines, each with its newline. -/
def unlines (lines : List Str) : Str := lines.flatMap fun line => line ++ lit "\n"

theorem unlines_cons (line : Str) (lines : List Str) :
    unlines (line :: lines) = line ++ lit "\n" ++ unlines lines :=
  List.flatMap_cons

theorem unlines_eq (lines : List Str) : unlines lines = Lib.unlines (codePoint '\n') lines := rfl

theorem stripEnd_unlines {lines : List Str} {line : Str} {c : CodePoint}
    (hline : line.getLast? = some c) (hc : isSpace c = false) :
    stripEnd isSpace (unlines (lines ++ [line])) ++ lit "\n" = unlines (lines ++ [line]) := by
  obtain ⟨start, rfl⟩ : ∃ start, line = start ++ [c] := by
    have hne : line ≠ [] := by
      rintro rfl
      cases hline
    refine ⟨line.dropLast, ?_⟩
    rw [List.getLast?_eq_getLast_of_ne_nil hne, Option.some.injEq] at hline
    rw [← hline, List.dropLast_append_getLast hne]
  have htext : unlines (lines ++ [start ++ [c]]) =
      (unlines lines ++ start ++ [c]) ++ lit "\n" := by
    simp [unlines, lit]
  have hnewline : stripEnd isSpace ((unlines lines ++ start ++ [c]) ++ lit "\n") =
      unlines lines ++ start ++ [c] := by
    have hspace : isSpace (codePoint '\n') = true := by decide
    simp [stripEnd, lit, hspace, hc]
  rw [htext, hnewline]

/-! ## The lines of the draft -/

/-- A line that is read as one line, and is no fence. -/
structure Prose (line : Str) : Prop where
  one : ∀ c ∈ line, isLineBreak c = false
  noFence : fenceLanguage line = none

def isProse (line : Str) : Bool :=
  line.all (fun c => !isLineBreak c) && (fenceLanguage line).isNone

theorem isProse_iff {line : Str} : isProse line = true ↔ Prose line := by
  rw [isProse, Bool.and_eq_true, List.all_eq_true, Option.isNone_iff_eq_none]
  simp only [Bool.not_eq_true']
  exact ⟨fun h => ⟨h.1, h.2⟩, fun h => ⟨h.one, h.noFence⟩⟩

theorem prose_of_all {lines : List Str} (h : lines.all isProse = true) :
    ∀ line ∈ lines, Prose line := fun line hline =>
  isProse_iff.mp (List.all_eq_true.mp h line hline)

/-- Texts that can stand within a line. -/
def Inline (s : Str) : Prop := ∀ c ∈ s, isLineBreak c = false

theorem inline_of_all {s : Str} (h : s.all (fun c => !isLineBreak c) = true) : Inline s := by
  intro c hc
  simpa using List.all_eq_true.mp h c hc

theorem Inline.append {s t : Str} (hs : Inline s) (ht : Inline t) : Inline (s ++ t) := by
  intro c hc
  rcases List.mem_append.mp hc with hc | hc
  · exact hs c hc
  · exact ht c hc

/-- A start of a line that no fence has. -/
def isProseStart (start : Str) : Bool :=
  start.all (fun c => !isLineBreak c) &&
    match start with
    | [] => false
    | c :: _ => !isSpace c && c != codePoint '\x60'

/-- A text within a line of prose. -/
theorem prose_around {start middle ending : Str} (hstart : isProseStart start = true)
    (hmiddle : Inline middle) (hending : ending.all (fun c => !isLineBreak c) = true) :
    Prose (start ++ middle ++ ending) := by
  unfold isProseStart at hstart
  rw [Bool.and_eq_true] at hstart
  refine ⟨((inline_of_all hstart.1).append hmiddle).append (inline_of_all hending), ?_⟩
  cases start with
  | nil => cases hstart.2
  | cons c rest =>
    have hhead := hstart.2
    dsimp only at hhead
    rw [Bool.and_eq_true, Bool.not_eq_true', bne_iff_ne] at hhead
    unfold fenceLanguage
    rw [List.cons_append, List.cons_append, List.dropWhile_cons_of_neg (by simp [hhead.1])]
    dsimp only
    rw [if_neg]
    intro h
    obtain ⟨others, heq⟩ := List.isPrefixOf_iff_prefix.mp h
    exact hhead.2 (List.cons.inj heq).1.symm

/-- A fixed line, read off its characters. -/
theorem texts_all_cons {p : Str → Bool} {line : String} {rest : List String} {chars : List Char}
    (hline : line = String.ofList chars) (h : p (chars.map codePoint) = true)
    (hrest : (texts rest).all p = true) : (texts (line :: rest)).all p = true := by
  show (p (lit line) && (texts rest).all p) = true
  rw [hline, lit, String.toList_ofList, h, hrest]
  rfl

theorem intro_prose : introLines.all isProse = true := by
  unfold introLines
  repeat refine texts_all_cons rfl (by decide) ?_
  exact List.all_nil

theorem gates_prose : (gatesHeading ++ gatesIntro ++ noGates).all isProse = true := by
  rw [List.all_append, List.all_append, Bool.and_eq_true, Bool.and_eq_true]
  refine ⟨⟨?_, ?_⟩, ?_⟩
  · unfold gatesHeading
    repeat refine texts_all_cons rfl (by decide) ?_
    exact List.all_nil
  · unfold gatesIntro
    repeat refine texts_all_cons rfl (by decide) ?_
    exact List.all_nil
  · unfold noGates
    repeat refine texts_all_cons rfl (by decide) ?_
    exact List.all_nil

theorem closing_prose : (conventionLines ++ finishLines).all isProse = true := by
  rw [List.all_append, Bool.and_eq_true]
  constructor
  · unfold conventionLines
    repeat refine texts_all_cons rfl (by decide) ?_
    exact List.all_nil
  · unfold finishLines
    repeat refine texts_all_cons rfl (by decide) ?_
    exact List.all_nil

theorem precommit_prose (hasPrecommit : Bool) :
    ∀ line ∈ precommitLines hasPrecommit, Prose line := by
  refine prose_of_all ?_
  cases hasPrecommit with
  | false => rfl
  | true =>
    unfold precommitLines
    rw [if_pos rfl]
    repeat refine texts_all_cons rfl (by decide) ?_
    exact List.all_nil

theorem no_break_join {sep : Str} {parts : List Str} (hsep : ∀ c ∈ sep, isLineBreak c = false)
    (h : ∀ part ∈ parts, ∀ c ∈ part, isLineBreak c = false) :
    ∀ c ∈ join sep parts, isLineBreak c = false := by
  intro c hc
  rcases mem_join hc with hc | ⟨part, hpart, hc⟩
  · exact hsep c hc
  · exact h part hpart c hc

theorem inline_of_mem {table : List Str} {s : Str}
    (htable : table.all (fun s => s.all fun c => !isLineBreak c) = true) (h : s ∈ table) :
    Inline s :=
  inline_of_all (List.all_eq_true.mp htable s h)

theorem markers_inline :
    (ecosystemMarkers.map Prod.snd).all (fun s => s.all fun c => !isLineBreak c) = true := by
  decide +kernel

/-- The ecosystems are names of the table. -/
theorem detectEcosystems_inline (root : ProjectHost) : ∀ e ∈ detectEcosystems root, Inline e := by
  have hfold : ∀ (entries : List (Str × Str)) (ecosystems : List Str),
      (∀ entry ∈ entries, Inline entry.2) → (∀ e ∈ ecosystems, Inline e) →
        ∀ e ∈ entries.foldl (ecosystemStep root) ecosystems, Inline e := by
    intro entries
    induction entries with
    | nil => exact fun ecosystems _ h => h
    | cons entry rest ih =>
      intro ecosystems hentries hsofar
      refine ih _ (fun other hother => hentries other (List.mem_cons_of_mem _ hother)) ?_
      unfold ecosystemStep
      split_ifs
      · intro e he
        rcases List.mem_append.mp he with he | he
        · exact hsofar e he
        · rw [List.mem_singleton.mp he]
          exact hentries entry List.mem_cons_self
      · exact hsofar
  have htable := hfold ecosystemMarkers [] (fun entry hentry =>
    inline_of_mem markers_inline (List.mem_map_of_mem hentry)) (by simp)
  unfold detectEcosystems
  dsimp only
  split_ifs
  · intro e he
    rcases List.mem_append.mp he with he | he
    · exact htable e he
    · rw [List.mem_singleton.mp he]
      exact inline_of_all (by decide)
  · exact htable

theorem ecosystem_prose {ecosystems : List Str} (h : ∀ e ∈ ecosystems, Inline e) :
    ∀ line ∈ ecosystemLines ecosystems, Prose line := by
  unfold ecosystemLines
  split_ifs
  · simp
  · intro line hline
    rw [List.mem_append, List.mem_append, List.mem_singleton] at hline
    rcases hline with (hline | rfl) | hline
    · exact prose_of_all (by decide +kernel) line hline
    · have hjoin : Inline (join " + " ecosystems) :=
        no_break_join (inline_of_all (by decide)) h
      exact prose_around (by decide) hjoin (by decide)
    · exact prose_of_all (by decide +kernel) line hline

theorem count_prose (count : Nat) : ∀ line ∈ gatesCount count, Prose line := by
  intro line hline
  rcases List.mem_append.mp hline with hline | hline
  · rw [List.mem_singleton.mp hline]
    have hnumber : Inline (natStr count) := fun c hc =>
      isLineBreak_of_isPrintableAscii (natStr_printable count c hc)
    exact prose_around (by decide) hnumber (by decide +kernel)
  · exact prose_of_all (by decide +kernel) line hline

theorem layout_prose {directories : List Str} (h : ∀ name ∈ directories, Inline name) :
    ∀ line ∈ layoutLines directories, Prose line := by
  unfold layoutLines
  split_ifs
  · simp
  · intro line hline
    rw [List.mem_append, List.mem_append, List.mem_map] at hline
    rcases hline with (hline | ⟨name, hname, rfl⟩) | hline
    · exact prose_of_all (by decide +kernel) line hline
    · exact prose_around (by decide) (h name hname) (by decide)
    · rw [List.mem_singleton.mp hline]
      exact isProse_iff.mp (by decide)

theorem other_prose {manifests : List Str} (h : ∀ m ∈ manifests, Inline m) :
    ∀ line ∈ otherLines manifests, Prose line := by
  intro line hline
  unfold otherLines at hline
  dsimp only at hline
  rw [List.mem_append, List.mem_append, List.mem_singleton] at hline
  rcases hline with (hline | rfl) | hline
  · exact prose_of_all (by decide +kernel) line hline
  · have hjoin : Inline (join ", " ((manifests.filter fun m => m != lit "AGENTS.md").map fun m =>
        lit "`" ++ m ++ lit "`")) := by
      refine no_break_join (inline_of_all (by decide)) fun part hpart => ?_
      obtain ⟨m, hm, rfl⟩ := List.mem_map.mp hpart
      exact ((inline_of_all (by decide)).append (h m (List.mem_filter.mp hm).1)).append
        (inline_of_all (by decide))
    exact prose_around (by decide +kernel) hjoin (by decide +kernel)
  · exact prose_of_all (by decide +kernel) line hline

/-! ## The shell blocks of the draft -/

variable {rt}

theorem fenceLanguage_open : fenceLanguage (lit "```bash") = some (lit "bash") := by decide

theorem isShellFence_bash : isShellFence rt (lit "bash") = true := by
  have hletters : (lit "bash").all (fun c => decide (0x61 ≤ c.val ∧ c.val ≤ 0x7A)) = true := by
    decide
  rw [isShellFence, rt.lower_ascii _ fun c hc => by
    simpa using List.all_eq_true.mp hletters c hc]
  decide

/-- A shell block of commands that are no fences is read as these commands. -/
theorem shellLines_block {commands rest : List Str}
    (h : ∀ c ∈ commands, fenceLanguage c = none) :
    shellLines rt false (shellBlock commands ++ rest) = commands ++ shellLines rt false rest := by
  rw [shellBlock, List.append_assoc, List.cons_append, shellLines, fenceLanguage_open]
  dsimp only
  rw [isShellFence_bash, Bool.not_false, Bool.true_and, shellLines_append h, if_pos rfl]
  -- the closing fence leaves the block, whatever its language
  rfl

theorem shellLines_prose {lines rest : List Str} (h : ∀ line ∈ lines, Prose line) :
    shellLines rt false (lines ++ rest) = shellLines rt false rest := by
  rw [shellLines_append fun line hline => (h line hline).noFence]
  rfl

theorem shellLines_setup {setup rest : List Str} (h : ∀ c ∈ setup, fenceLanguage c = none) :
    shellLines rt false (setupLines setup ++ rest) = setup ++ shellLines rt false rest := by
  unfold setupLines
  split_ifs with hnil
  · rw [hnil]
    rfl
  · rw [List.append_assoc, shellLines_prose (prose_of_all (by decide)), shellLines_block h]

theorem shellLines_gates {gates rest : List Str} (h : ∀ c ∈ gates, fenceLanguage c = none) :
    shellLines rt false (gatesHeading ++ gateLines gates ++ rest) =
      gates ++ shellLines rt false rest := by
  have hprose := prose_of_all gates_prose
  rw [List.append_assoc, shellLines_prose fun line hline => hprose line (by simp [hline])]
  unfold gateLines
  split_ifs with hnil
  · rw [hnil, shellLines_prose fun line hline => hprose line (by simp [hline])]
    rfl
  · rw [List.append_assoc, List.append_assoc,
      shellLines_prose fun line hline => hprose line (by simp [hline]), shellLines_block h,
      shellLines_prose (count_prose _)]

/-- What can be told of the shape of a project: its texts stand within lines. -/
structure Plain (shape : ProjectShape) : Prop where
  ecosystems : ∀ e ∈ shape.ecosystems, Inline e
  directories : ∀ name ∈ shape.directories, Inline name
  manifests : ∀ m ∈ shape.existingManifests, Inline m
  gates : ∀ c ∈ shape.gates, Inline c

/-- The lines behind the gates. -/
def closingLines (shape : ProjectShape) : List Str :=
  precommitLines shape.hasPrecommit ++ layoutLines shape.directories ++ conventionLines ++
    finishLines ++
    if 1 < shape.existingManifests.length then otherLines shape.existingManifests else []

theorem bodyLines_eq (shape : ProjectShape) : bodyLines rt shape =
    (introLines ++ ecosystemLines shape.ecosystems) ++
      (setupLines (splitSetupAndGates rt shape.gates).1 ++
        (gatesHeading ++ gateLines (splitSetupAndGates rt shape.gates).2 ++
          closingLines shape)) := by
  simp only [bodyLines, closingLines, List.append_assoc]

theorem Plain.closing {shape : ProjectShape} (h : Plain shape) :
    ∀ line ∈ closingLines shape, Prose line := by
  intro line hline
  have hclosing := prose_of_all closing_prose
  unfold closingLines at hline
  simp only [List.mem_append] at hline
  rcases hline with (((hline | hline) | hline) | hline) | hline
  · exact precommit_prose _ line hline
  · exact layout_prose h.directories line hline
  · exact hclosing line (by simp [hline])
  · exact hclosing line (by simp [hline])
  · split_ifs at hline
    · exact other_prose h.manifests line hline
    · cases hline

/-- The shell lines of the draft are its commands. -/
theorem Plain.shellLines_body {shape : ProjectShape} (h : Plain shape)
    (hfence : ∀ c ∈ shape.gates, fenceLanguage c = none) :
    shellLines rt false (bodyLines rt shape) =
      (splitSetupAndGates rt shape.gates).1 ++ (splitSetupAndGates rt shape.gates).2 := by
  have hintro : ∀ line ∈ introLines ++ ecosystemLines shape.ecosystems, Prose line := by
    intro line hline
    rcases List.mem_append.mp hline with hline | hline
    · exact prose_of_all intro_prose line hline
    · exact ecosystem_prose h.ecosystems line hline
  have hend : shellLines rt false (closingLines shape ++ []) = shellLines rt false [] :=
    shellLines_prose h.closing
  rw [List.append_nil] at hend
  rw [bodyLines_eq, shellLines_prose hintro, shellLines_setup, shellLines_gates, hend]
  · exact congrArg _ (List.append_nil _)
  · exact fun c hc => hfence c (List.mem_filter.mp hc).1
  · exact fun c hc => hfence c (List.mem_filter.mp hc).1

/-- Every line of the draft behind its heading is one line. -/
theorem Plain.body_inline {shape : ProjectShape} (h : Plain shape) :
    ∀ line ∈ bodyLines rt shape, Inline line := by
  have hblock : ∀ commands : List Str, (∀ c ∈ commands, Inline c) →
      ∀ line ∈ shellBlock commands, Inline line := by
    intro commands hcommands line hline
    rw [shellBlock, List.mem_append, List.mem_cons] at hline
    rcases hline with (rfl | hline) | hline
    · exact inline_of_all (by decide)
    · exact hcommands line hline
    · exact inline_of_mem (by decide) hline
  have hgates := prose_of_all gates_prose
  intro line hline
  rw [bodyLines_eq] at hline
  simp only [List.mem_append] at hline
  rcases hline with (hline | hline) | hline | (hline | hline) | hline
  · exact (prose_of_all intro_prose line hline).one
  · exact (ecosystem_prose h.ecosystems line hline).one
  · unfold setupLines at hline
    split_ifs at hline
    · cases hline
    · rcases List.mem_append.mp hline with hline | hline
      · exact inline_of_mem (by decide) hline
      · exact hblock _ (fun c hc => h.gates c (List.mem_filter.mp hc).1) line hline
  · exact (hgates line (by simp [hline])).one
  · unfold gateLines at hline
    split_ifs at hline
    · exact (hgates line (by simp [hline])).one
    · simp only [List.mem_append] at hline
      rcases hline with (hline | hline) | hline
      · exact (hgates line (by simp [hline])).one
      · exact hblock _ (fun c hc => h.gates c (List.mem_filter.mp hc).1) line hline
      · exact (count_prose _ line hline).one
  · exact (h.closing line hline).one

/-- The draft ends with a full stop. -/
theorem bodyLines_last (shape : ProjectShape) : ∃ line, [line] <:+ bodyLines rt shape ∧
    line.getLast? = some (codePoint '.') := by
  have hclosing : closingLines shape <:+ bodyLines rt shape := by
    rw [bodyLines_eq]
    exact (List.suffix_append _ _).trans ((List.suffix_append _ _).trans (List.suffix_append _ _))
  by_cases hother : 1 < shape.existingManifests.length
  · refine ⟨"reading one of them will not see the others.", List.IsSuffix.trans ?_ hclosing,
      by decide +kernel⟩
    rw [closingLines, if_pos hother, otherLines]
    exact (List.suffix_cons _ _).trans ((List.suffix_append _ _).trans (List.suffix_append _ _))
  · refine ⟨"  session here could reach.", List.IsSuffix.trans ?_ hclosing, by decide +kernel⟩
    rw [closingLines, if_neg hother, List.append_nil]
    have hfinish : [lit "  session here could reach."] <:+ finishLines :=
      ⟨finishLines.dropLast, rfl⟩
    exact hfinish.trans (List.suffix_append _ _)

/-- The draft is its lines, each with its newline. -/
theorem generateAgentsMd_eq (shape : ProjectShape) : generateAgentsMd rt shape =
    unlines ((lit "# " ++ shape.name) :: bodyLines rt shape) := by
  obtain ⟨line, ⟨lines, hlines⟩, hline⟩ := @bodyLines_last rt shape
  rw [generateAgentsMd, join_newline_nil (List.cons_ne_nil _ _), ← unlines_eq, ← hlines, ← List.cons_append]
  exact stripEnd_unlines hline (by decide)

/-- The lines of the heading of a draft. -/
def headingLines (name : Str) : List Str := splitlines (lit "# " ++ name ++ lit "\n")

theorem Plain.splitlines_draft {shape : ProjectShape} (h : Plain shape) :
    splitlines (generateAgentsMd rt shape) = headingLines shape.name ++ bodyLines rt shape := by
  have hunlines : unlines ((lit "# " ++ shape.name) :: bodyLines rt shape) =
      (lit "# " ++ shape.name) ++ codePoint '\n' :: unlines (bodyLines rt shape) := by
    rw [unlines_cons]
    simp [lit]
  rw [generateAgentsMd_eq, hunlines, splitlines_append_newline, unlines_eq,
    splitlines_unlines h.body_inline]
  rfl

/-! ## The drafted manifest and the workflows -/

theorem ci_part {root : ProjectHost} {c : Str} (h : c ∈ ciDeclaredCommands root.workflows) :
    Inline c ∧ ∃ line, Part c line := by
  obtain ⟨text, htext, hmem⟩ := mem_ciDeclaredCommands h
  have hpart := splitCommandLine_part hmem
  exact ⟨fun d hd => htext d (hpart.within.subset hd), text, hpart⟩

theorem gates_spec (root : ProjectHost) :
    (∀ d ∈ (detectProjectShape root).gates, d ∈ ciDeclaredCommands root.workflows) ∧
      ∀ c ∈ ciDeclaredCommands root.workflows,
        ∃ d ∈ (detectProjectShape root).gates, words d = words c :=
  dedupe_spec fun c hc => by
    obtain ⟨-, line, hpart⟩ := ci_part hc
    exact ⟨hpart.nonempty, hpart.stripped⟩

theorem detect_plain (root : ProjectHost) : Plain (detectProjectShape root) where
  ecosystems := detectEcosystems_inline root
  directories := fun name hname =>
    @inline_of_mem notableDirs name (by decide +kernel) (List.mem_filter.mp hname).1
  manifests := fun m hm =>
    @inline_of_mem knownManifests m (by decide +kernel) (List.mem_filter.mp hm).1
  gates := fun c hc => (ci_part ((gates_spec root).1 c hc)).1

/-- A draft without stray fences matches the workflows exactly when the key of every
command comes back from splitting the commands again. It does when no command that
has a key reads as a comment or ends with a backslash. -/
theorem generated_matches_ci_iff (rt : AgentRuntime) (root : ProjectHost) (manifest : Str)
    (hname : ∀ line ∈ headingLines root.name, fenceLanguage line = none)
    (hcommands : ∀ c ∈ (detectProjectShape root).gates, fenceLanguage c = none) :
    (manifestVsCi rt
          (parseDeclaredCommands rt (generateAgentsMd rt (detectProjectShape root)) manifest)
          (ciDeclaredCommands root.workflows) = [] ↔
        ∀ c ∈ (detectProjectShape root).gates, commandKey rt c ≠ [] →
          ∃ d ∈ (detectProjectShape root).gates, ∃ part ∈ splitCommandLine d,
            commandKey rt part = commandKey rt c) ∧
      ((∀ c ∈ (detectProjectShape root).gates, commandKey rt c ≠ [] →
          startsWith c "#" = false ∧ ∀ d ∈ c.getLast?, d ≠ codePoint '\\') →
        manifestVsCi rt
          (parseDeclaredCommands rt (generateAgentsMd rt (detectProjectShape root)) manifest)
          (ciDeclaredCommands root.workflows) = []) := by
  obtain ⟨hfrom, hall⟩ := gates_spec root
  have hplain := detect_plain root
  have hlines : ∀ line, line ∈ shellLines rt false
      (splitlines (generateAgentsMd rt (detectProjectShape root))) ↔
        line ∈ (detectProjectShape root).gates := by
    intro line
    have hroot : (detectProjectShape root).name = root.name := rfl
    rw [hplain.splitlines_draft, hroot, shellLines_append hname, hplain.shellLines_body hcommands,
      splitSetupAndGates]
    simp only [Bool.false_eq_true, ↓reduceIte, List.nil_append, List.mem_append, List.mem_filter]
    cases isSetup rt line <;> simp
  have hiff : manifestVsCi rt
        (parseDeclaredCommands rt (generateAgentsMd rt (detectProjectShape root)) manifest)
        (ciDeclaredCommands root.workflows) = [] ↔
      ∀ c ∈ (detectProjectShape root).gates, commandKey rt c ≠ [] →
        ∃ d ∈ (detectProjectShape root).gates, ∃ part ∈ splitCommandLine d,
          commandKey rt part = commandKey rt c := by
    rw [manifestVsCi_eq_nil]
    constructor
    · intro h c hc hkey
      obtain ⟨line, hline, hpart⟩ :=
        (mem_declaredKeys_iff hkey).mp ((h c (hfrom c hc)).resolve_left hkey)
      exact ⟨line, (hlines line).mp hline, hpart⟩
    · intro h c hc
      by_cases hkey : commandKey rt c = []
      · exact Or.inl hkey
      · obtain ⟨kept, hkept, hwords⟩ := hall c hc
        rw [← commandKey_congr hwords] at hkey ⊢
        obtain ⟨d, hd, hpart⟩ := h kept hkept hkey
        exact Or.inr ((mem_declaredKeys_iff hkey).mpr ⟨d, (hlines d).mpr hd, hpart⟩)
  refine ⟨hiff, fun h => hiff.mpr fun c hc hkey => ?_⟩
  obtain ⟨-, line, hpart⟩ := ci_part (hfrom c hc)
  obtain ⟨hhash, hlast⟩ := h c hc hkey
  exact ⟨c, hc, c, by rw [split_again hpart hkey hhash hlast]; exact List.mem_cons_self, rfl⟩

/-- A repository with one workflow on pull requests. -/
def sampleRoot (steps : String) : ProjectHost where
  name := "demo"
  isFile := fun _ => false
  isDir := fun _ => false
  nestedPackage := false
  workflows := [some (lit "on: pull_request\njobs:\n  a:\n    steps:\n      - run: |\n" ++ lit steps)]

/-- A step that prints a fence ends the block of the draft: the gate behind it is not
declared. -/
theorem printed_fence_hides_gate : manifestVsCi .standard
    (parseDeclaredCommands .standard (generateAgentsMd .standard
      (detectProjectShape (sampleRoot "          ```\n          pytest -q\n"))) "AGENTS.md")
    (ciDeclaredCommands (sampleRoot "          ```\n          pytest -q\n").workflows) =
      [lit "pytest -q"] := by
  decide +kernel

theorem generated_matches_ci_iff_pytest : manifestVsCi .standard
    (parseDeclaredCommands .standard (generateAgentsMd .standard
      (detectProjectShape (sampleRoot "          pytest -q\n"))) "AGENTS.md")
    (ciDeclaredCommands (sampleRoot "          pytest -q\n").workflows) = [] := by
  have hgates : (detectProjectShape (sampleRoot "          pytest -q\n")).gates =
      [lit "pytest -q"] := by decide +kernel
  refine (generated_matches_ci_iff .standard (sampleRoot "          pytest -q\n") "AGENTS.md"
    (by decide +kernel) (by decide +kernel)).2 fun c hc _ => ?_
  rw [hgates, List.mem_singleton] at hc
  subst hc
  have hlast : (lit "pytest -q").getLast? = some (codePoint 'q') := by decide +kernel
  refine ⟨by decide, fun d hd => ?_⟩
  rw [hlast] at hd
  cases hd
  decide

end DevRepro.Agents
