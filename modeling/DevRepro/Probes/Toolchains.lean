import DevRepro.Platforms.PathAnalysis
import DevRepro.Python.Words

/-!
# Toolchain detection

`detect_toolchain` of `probes/toolchains.py` and `resolve_all_on_path` of `probes/helpers.py`,
on a machine that is not Windows.  Files are told apart by their real paths within one
command name, but a tool may have several names: `counted_iff` says when its installations
are counted once.
-/

namespace DevRepro.Probes

open DevRepro.Python DevRepro.Lib
open DevRepro.Platforms (childText)
open DevRepro.Snapshots (ToolInstallation)

/-! ## Resolution -/

/-- The machine: its directories, files and links. -/
structure FileSystem where
  /-- The names in a directory that are no directories, or none where `os.scandir` fails. -/
  index : Str → Option (List Str)
  /-- `os.access(path, os.X_OK)`. -/
  executable : Str → Bool
  /-- `str(Path(path).resolve())`. -/
  real : Str → Str

variable (fs : FileSystem)

/-- `_path_entries`. -/
def pathEntries (pathEnv : Str) : List Str := pathEnv.splitOn (codePoint ':')

/-- The file of a name in a directory of the PATH. -/
def candidate (name directory : Str) : Option Str :=
  if directory = [] then none
  else
    match fs.index directory with
    | none => none
    | some names => if name ∈ names then some (childText directory name) else none

/-- The state of the loop: the real paths that were seen, and the matches. -/
structure Matches where
  seen : List Str
  found : List Str

/-- One directory of the loop. -/
def addMatch (name : Str) (state : Matches) (directory : Str) : Matches :=
  match candidate fs name directory with
  | none => state
  | some full =>
    if fs.real full ∈ state.seen then state
    else if fs.executable full then ⟨fs.real full :: state.seen, state.found ++ [full]⟩
    else state

/-- `resolve_all_on_path`. -/
def resolveAllOnPath (pathEnv name : Str) : List Str :=
  ((pathEntries pathEnv).foldl (addMatch fs name) ⟨[], []⟩).found

/-- The files that a name resolves to. -/
def ResolvesTo (pathEnv name full : Str) : Prop :=
  ∃ directory ∈ pathEntries pathEnv, candidate fs name directory = some full ∧
    fs.executable full = true

/-- The loop has seen just the real paths of its matches, each of them once. -/
structure Matching (name : Str) (directories : List Str) (state : Matches) : Prop where
  seen : ∀ real, real ∈ state.seen ↔ real ∈ state.found.map fs.real
  nodup : (state.found.map fs.real).Nodup
  sound : ∀ full ∈ state.found, ∃ directory ∈ directories,
    candidate fs name directory = some full ∧ fs.executable full = true
  complete : ∀ directory ∈ directories, ∀ full, candidate fs name directory = some full →
    fs.executable full = true → fs.real full ∈ state.found.map fs.real

variable {fs} {name : Str} {directories : List Str} {state : Matches}

theorem Matching.start : Matching fs name [] ⟨[], []⟩ :=
  ⟨by simp, List.nodup_nil, by simp, by simp⟩

/-- What one directory keeps. -/
theorem Matching.step (h : Matching fs name directories state) (directory : Str) :
    Matching fs name (directories ++ [directory]) (addMatch fs name state directory) := by
  have hsound : ∀ full ∈ state.found, ∃ d ∈ directories ++ [directory],
      candidate fs name d = some full ∧ fs.executable full = true := by
    intro full hfull
    obtain ⟨d, hd, hcandidate⟩ := h.sound full hfull
    exact ⟨d, List.mem_append_left _ hd, hcandidate⟩
  -- Where nothing is added, the new directory has nothing new.
  have hsame : (∀ full, candidate fs name directory = some full → fs.executable full = true →
      fs.real full ∈ state.found.map fs.real) → Matching fs name (directories ++ [directory]) state := by
    intro hold
    refine ⟨h.seen, h.nodup, hsound, fun d hd full hcandidate hexecutable => ?_⟩
    rcases List.mem_append.mp hd with hd | hd
    · exact h.complete d hd full hcandidate hexecutable
    · rw [List.mem_singleton.mp hd] at hcandidate
      exact hold full hcandidate hexecutable
  unfold addMatch
  cases hcandidate : candidate fs name directory with
  | none => exact hsame fun full hfull => by cases hcandidate.symm.trans hfull
  | some full =>
    dsimp only
    split_ifs with hseen hexecutable
    · refine hsame fun other hother _ => ?_
      cases hcandidate.symm.trans hother
      exact (h.seen _).mp hseen
    · refine ⟨fun real => ?_, ?_, fun other hother => ?_, fun d hd other hother hexecutable' => ?_⟩
      · rw [List.mem_cons, h.seen, List.map_append, List.mem_append, List.map_singleton,
          List.mem_singleton, or_comm]
      · rw [List.map_append, List.map_singleton]
        refine List.Nodup.append h.nodup (List.nodup_singleton _) ?_
        rw [List.disjoint_singleton]
        exact mt (h.seen _).mpr hseen
      · rcases List.mem_append.mp hother with hother | hother
        · exact hsound other hother
        · rw [List.mem_singleton.mp hother]
          exact ⟨directory, List.mem_append_right _ (List.mem_singleton_self _), hcandidate, hexecutable⟩
      · rw [List.map_append, List.mem_append]
        rcases List.mem_append.mp hd with hd | hd
        · exact Or.inl (h.complete d hd other hother hexecutable')
        · rw [List.mem_singleton.mp hd] at hother
          cases hcandidate.symm.trans hother
          exact Or.inr (List.mem_singleton_self _)
    · refine hsame fun other hother hexecutable' => ?_
      cases hcandidate.symm.trans hother
      exact absurd hexecutable' hexecutable

theorem matching_foldl (fs : FileSystem) (name : Str) (directories : List Str) :
    Matching fs name directories (directories.foldl (addMatch fs name) ⟨[], []⟩) := by
  induction directories using List.reverseRecOn with
  | nil => exact .start
  | append_singleton directories directory ih =>
    rw [List.foldl_append]
    exact ih.step directory

/-- The matches of one name are files that it resolves to, with distinct real paths. -/
theorem resolveAllOnPath_spec (fs : FileSystem) (pathEnv name : Str) :
    ((resolveAllOnPath fs pathEnv name).map fs.real).Nodup ∧
      (∀ full ∈ resolveAllOnPath fs pathEnv name, ResolvesTo fs pathEnv name full) ∧
      ∀ full, ResolvesTo fs pathEnv name full →
        fs.real full ∈ (resolveAllOnPath fs pathEnv name).map fs.real := by
  have h := matching_foldl fs name (pathEntries pathEnv)
  refine ⟨h.nodup, h.sound, ?_⟩
  rintro full ⟨directory, hdirectory, hcandidate, hexecutable⟩
  exact h.complete directory hdirectory full hcandidate hexecutable

/-! ## Detection -/

structure ToolSpec where
  name : Str
  commands : List Str
  versionArgs : List Str
  category : Str
  versionRegex : Option Str

/-- An executable to ask for its version. -/
structure Planned where
  spec : ToolSpec
  exe : Str
  precedence : Nat
  total : Nat

/-- The markers of `_install_source`. -/
def sourceMarkers : List (Str × Str) :=
  [("windowsapps", "store-alias"), ("/pyenv/", "pyenv"), ("/.pyenv/", "pyenv"), ("/nvm/",
    "nvm"), ("/.nvm/", "nvm"), ("/fnm_", "fnm"), ("/volta/", "volta"), ("/mise/", "mise"),
    ("/asdf/", "asdf"), ("/conda", "conda"), ("/miniconda", "conda"), ("/anaconda", "conda"),
    ("/.cargo/bin", "rustup"), ("/scoop/", "scoop"), ("/chocolatey/", "choco"), ("/homebrew/",
    "brew"), ("/cellar/", "brew"), ("/usr/local/bin", "system-local"), ("/usr/bin", "distro"),
    ("/microsoft visual studio", "vs-installer"), ("/nodejs", "official-installer"),
    ("/python3", "official-installer"), ("/python", "official-installer"), ("/dotnet",
    "official-installer"), ("/go/bin", "official-installer"), ("/docker", "docker-desktop")]

/-- `_install_source`, with `str.lower`. -/
def installSource (lower : Str → Str) (path : Str) : Str :=
  ((sourceMarkers.find? fun marker => containsText (lower path) marker.1).map Prod.snd).getD "unknown"

/-- What detection asks for: the files, `str.lower`, and the version that an executable
prints. -/
structure Machine extends FileSystem where
  lower : Str → Str
  version : ToolSpec → Str → Option Str

variable (machine : Machine) (pathEnv : Str)

/-- The plan of one command name. -/
def planCommand (spec : ToolSpec) (cmd : Str) : List Planned :=
  let found := resolveAllOnPath machine.toFileSystem pathEnv cmd
  found.zipIdx.map fun (exe, precedence) => ⟨spec, exe, precedence, found.length⟩

/-- `planned` -/
def plan (specs : List ToolSpec) : List Planned :=
  specs.flatMap fun spec => spec.commands.flatMap (planCommand machine pathEnv spec)

def installation (p : Planned) : ToolInstallation where
  name := p.spec.name
  version := machine.version p.spec p.exe
  exePath := some p.exe
  installSource := some (installSource machine.lower p.exe)
  isActive := p.precedence = 0
  precedence := if 1 < p.total then some p.precedence else none

/-- `detect_toolchain`. -/
def detectToolchain (specs : List ToolSpec) : List ToolInstallation :=
  (plan machine pathEnv specs).map (installation machine)

/-- The groups of `find_duplicates`. -/
def addInstall (byName : Dict Str (List ToolInstallation)) (t : ToolInstallation) :
    Dict Str (List ToolInstallation) :=
  byName.set t.name ((byName.get? t.name).getD [] ++ [t])

/-- `find_duplicates`. -/
def findDuplicates (installs : List ToolInstallation) : List (Str × List ToolInstallation) :=
  (installs.foldl addInstall .empty).items.filter fun group => 1 < group.2.length

/-! ## What is promised -/

/-- The real path of an installation. -/
def realPath (t : ToolInstallation) : Option Str := t.exePath.map machine.real

/-- The installations of a tool are distinct files, one of them is active, none is missing,
and the finding about several ones counts the files. -/
structure Counted (specs : List ToolSpec) (spec : ToolSpec) : Prop where
  distinct : (((detectToolchain machine pathEnv specs).filter fun t => t.name = spec.name).map
    (realPath machine)).Nodup
  active : ((detectToolchain machine pathEnv specs).filter fun t => t.name = spec.name) ≠ [] →
    ∃ t, (((detectToolchain machine pathEnv specs).filter fun t => t.name = spec.name).filter
      ToolInstallation.isActive) = [t]
  complete : ∀ cmd ∈ spec.commands, ∀ full, ResolvesTo machine.toFileSystem pathEnv cmd full →
    ∃ t ∈ detectToolchain machine pathEnv specs, t.name = spec.name ∧
      realPath machine t = some (machine.real full)
  finding : ∀ group, (spec.name, group) ∈ findDuplicates (detectToolchain machine pathEnv specs) →
    (group.map (realPath machine)).dedup.length = group.length

/-- No two command names of the tool are both found. -/
def OneCommand (spec : ToolSpec) : Prop :=
  spec.commands.Pairwise fun cmd other =>
    (∀ full, ¬ResolvesTo machine.toFileSystem pathEnv cmd full) ∨
      ∀ full, ¬ResolvesTo machine.toFileSystem pathEnv other full

/-! ## The installations of a command -/

variable {machine pathEnv} {spec : ToolSpec} {cmd : Str}

/-- The installations that one command name gives. -/
def commandInstalls (machine : Machine) (pathEnv : Str) (spec : ToolSpec) (cmd : Str) :
    List ToolInstallation :=
  (planCommand machine pathEnv spec cmd).map (installation machine)

theorem commandInstalls_paths : (commandInstalls machine pathEnv spec cmd).map (realPath machine) =
    ((resolveAllOnPath machine.toFileSystem pathEnv cmd).map machine.real).map some := by
  rw [commandInstalls, planCommand, List.map_map, List.map_map, List.map_map]
  generalize (resolveAllOnPath machine.toFileSystem pathEnv cmd).length = total
  generalize resolveAllOnPath machine.toFileSystem pathEnv cmd = found
  rw [← List.map_map, ← List.map_map]
  conv_rhs => rw [← List.zipIdx_map_fst 0 found]
  rw [List.map_map, List.map_map, List.map_map]
  rfl

theorem commandInstalls_name {t : ToolInstallation} (h : t ∈ commandInstalls machine pathEnv spec cmd) :
    t.name = spec.name := by
  obtain ⟨p, hp, rfl⟩ := List.mem_map.mp h
  obtain ⟨item, -, rfl⟩ := List.mem_map.mp hp
  rfl

/-- The first one is active, and no other. -/
theorem commandInstalls_active :
    (commandInstalls machine pathEnv spec cmd).filter ToolInstallation.isActive =
      (commandInstalls machine pathEnv spec cmd).take 1 := by
  rw [commandInstalls, planCommand]
  cases hfound : resolveAllOnPath machine.toFileSystem pathEnv cmd with
  | nil => rfl
  | cons first rest =>
    dsimp only
    rw [List.zipIdx_cons, List.map_cons, List.map_cons, List.take_succ_cons, List.take_zero,
      List.filter_cons_of_pos (by rfl)]
    refine congrArg (List.cons _) (List.filter_eq_nil_iff.mpr fun t ht => ?_)
    obtain ⟨p, hp, rfl⟩ := List.mem_map.mp ht
    obtain ⟨item, hitem, rfl⟩ := List.mem_map.mp hp
    have hplace := (List.mem_zipIdx hitem).1
    simp only [installation, decide_eq_true_eq]
    omega

theorem commandInstalls_ne_nil (spec : ToolSpec) : commandInstalls machine pathEnv spec cmd ≠ [] ↔
    ∃ full, ResolvesTo machine.toFileSystem pathEnv cmd full := by
  obtain ⟨-, hsound, hcomplete⟩ := resolveAllOnPath_spec machine.toFileSystem pathEnv cmd
  have hempty : commandInstalls machine pathEnv spec cmd = [] ↔
      resolveAllOnPath machine.toFileSystem pathEnv cmd = [] := by
    rw [← List.map_eq_nil_iff (f := realPath machine), commandInstalls_paths, List.map_eq_nil_iff,
      List.map_eq_nil_iff]
  rw [Ne, hempty]
  constructor
  · intro hne
    obtain ⟨full, hfull⟩ := List.exists_mem_of_ne_nil _ hne
    exact ⟨full, hsound full hfull⟩
  · rintro ⟨full, hfull⟩ hnil
    have hmem := hcomplete full hfull
    rw [hnil] at hmem
    cases hmem

/-! ## The installations of a tool -/

variable {specs : List ToolSpec}

/-- The installations under the name of a tool come from its command names. -/
theorem detect_filter (machine : Machine) (pathEnv : Str) (hnames : (specs.map ToolSpec.name).Nodup) (hspec : spec ∈ specs) :
    ((detectToolchain machine pathEnv specs).filter fun t => t.name = spec.name) =
      spec.commands.flatMap (commandInstalls machine pathEnv spec) := by
  have hother : ∀ other : ToolSpec, (other.commands.flatMap (commandInstalls machine pathEnv other)).filter
      (fun t => t.name = spec.name) =
        if other.name = spec.name then other.commands.flatMap (commandInstalls machine pathEnv other)
        else [] := by
    intro other
    have hname : ∀ t ∈ other.commands.flatMap (commandInstalls machine pathEnv other),
        t.name = other.name := by
      intro t ht
      obtain ⟨cmd, -, ht⟩ := List.mem_flatMap.mp ht
      exact commandInstalls_name ht
    split_ifs with h
    · exact List.filter_eq_self.mpr fun t ht => decide_eq_true ((hname t ht).trans h)
    · refine List.filter_eq_nil_iff.mpr fun t ht => ?_
      rw [decide_eq_true_eq, hname t ht]
      exact h
  have hdetect : detectToolchain machine pathEnv specs =
      specs.flatMap fun other => other.commands.flatMap (commandInstalls machine pathEnv other) := by
    simp only [detectToolchain, plan, List.map_flatMap]
    rfl
  rw [hdetect, List.filter_flatMap]
  simp only [hother]
  clear hdetect hother
  induction specs with
  | nil => cases hspec
  | cons first rest ih =>
    rw [List.map_cons, List.nodup_cons] at hnames
    rw [List.flatMap_cons]
    by_cases hfirst : first = spec
    · subst hfirst
      have hnone : ∀ other ∈ rest, (if other.name = first.name then
          other.commands.flatMap (commandInstalls machine pathEnv other) else []) = [] := by
        intro other hmem
        exact if_neg fun heq => hnames.1 (List.mem_map.mpr ⟨other, hmem, heq⟩)
      rw [if_pos rfl, List.flatMap_eq_nil_iff.mpr hnone, List.append_nil]
    · have hmem : spec ∈ rest := by
        rcases List.mem_cons.mp hspec with heq | hmem
        · exact absurd heq.symm hfirst
        · exact hmem
      have hname : first.name ≠ spec.name := fun heq =>
        hnames.1 (List.mem_map.mpr ⟨spec, hmem, heq.symm⟩)
      rw [if_neg hname, List.nil_append, ih hnames.2 hmem]

/-- The first elements of lists are at most one when at most one list has any. -/
theorem length_flatMap_take_one {κ α : Type} {f : κ → List α} {l : List κ} :
    (l.flatMap fun c => (f c).take 1).length ≤ 1 ↔ l.Pairwise fun a b => f a = [] ∨ f b = [] := by
  induction l with
  | nil => simp
  | cons c l ih =>
    rw [List.flatMap_cons, List.length_append, List.pairwise_cons]
    cases hc : f c with
    | nil => simpa using ih
    | cons a rest =>
      have hnone : (l.flatMap fun c => (f c).take 1).length ≤ 0 ↔ ∀ b ∈ l, f b = [] := by
        rw [Nat.le_zero, List.length_eq_zero_iff, List.flatMap_eq_nil_iff]
        simp
      rw [List.take_succ_cons, List.take_zero, List.length_singleton, Nat.add_comm,
        Nat.add_le_add_iff_right (k := 0), hnone]
      simp only [List.cons_ne_nil, false_or]
      constructor
      · intro h
        exact ⟨h, List.pairwise_of_forall_mem_list fun a ha _ _ => Or.inl (h a ha)⟩
      · exact And.left

theorem oneCommand_iff : OneCommand machine pathEnv spec ↔ spec.commands.Pairwise fun cmd other =>
    commandInstalls machine pathEnv spec cmd = [] ∨ commandInstalls machine pathEnv spec other = [] := by
  have hnone : ∀ cmd, (∀ full, ¬ResolvesTo machine.toFileSystem pathEnv cmd full) ↔
      commandInstalls machine pathEnv spec cmd = [] := by
    intro cmd
    rw [← not_exists, ← commandInstalls_ne_nil spec, Ne, not_not]
  rw [OneCommand]
  simp only [hnone]

theorem active_installs (commands : List Str) :
    (commands.flatMap (commandInstalls machine pathEnv spec)).filter ToolInstallation.isActive =
      commands.flatMap fun cmd => (commandInstalls machine pathEnv spec cmd).take 1 := by
  rw [List.filter_flatMap]
  simp only [commandInstalls_active]

/-- With one command name that is found, the files are distinct. -/
theorem nodup_installs (h : OneCommand machine pathEnv spec) :
    ((spec.commands.flatMap (commandInstalls machine pathEnv spec)).map (realPath machine)).Nodup := by
  rw [List.map_flatMap, List.nodup_flatMap]
  refine ⟨fun cmd _ => ?_, (oneCommand_iff.mp h).imp ?_⟩
  · rw [commandInstalls_paths]
    exact (resolveAllOnPath_spec machine.toFileSystem pathEnv cmd).1.map (Option.some_injective _)
  · rintro cmd other (hnil | hnil)
    · show List.Disjoint (List.map _ _) _
      rw [hnil]
      exact List.disjoint_nil_left _
    · show List.Disjoint _ (List.map _ _)
      rw [hnil]
      exact List.disjoint_nil_right _

theorem get?_foldl_addInstall (installs : List ToolInstallation) (name : Str) :
    ((installs.foldl addInstall Dict.empty).get? name).getD [] =
      installs.filter fun t => t.name = name := by
  induction installs using List.reverseRecOn with
  | nil => rfl
  | append_singleton installs t ih =>
    rw [List.foldl_append, List.filter_append, ← ih]
    show ((addInstall _ t).get? name).getD [] = _
    rw [addInstall, Dict.get?_set]
    by_cases h : t.name = name
    · rw [if_pos h.symm, h, List.filter_singleton, decide_eq_true h]
      rfl
    · rw [if_neg (Ne.symm h), List.filter_singleton, decide_eq_false h]
      exact (List.append_nil _).symm

/-- A group of duplicates has all installations of its name. -/
theorem group_eq {installs group : List ToolInstallation} {name : Str}
    (h : (name, group) ∈ findDuplicates installs) : group = installs.filter fun t => t.name = name := by
  have hget := Dict.get?_of_mem (List.mem_filter.mp h).1
  rw [← get?_foldl_addInstall, hget]
  rfl

/-- The installations of a tool are counted once, with one of them active, exactly when no two
of its command names are found on the PATH. -/
theorem counted_iff (machine : Machine) (pathEnv : Str) (specs : List ToolSpec)
    (hnames : (specs.map ToolSpec.name).Nodup) (spec : ToolSpec) (hspec : spec ∈ specs) :
    Counted machine pathEnv specs spec ↔ OneCommand machine pathEnv spec := by
  have hinstalls := detect_filter machine pathEnv hnames hspec
  constructor
  · intro h
    rw [oneCommand_iff, ← length_flatMap_take_one, ← active_installs, ← hinstalls]
    by_cases hnone : ((detectToolchain machine pathEnv specs).filter fun t => t.name = spec.name) = []
    · rw [hnone]
      exact Nat.zero_le _
    · obtain ⟨t, ht⟩ := h.active hnone
      rw [ht, List.length_singleton]
  · intro h
    have hdistinct : (((detectToolchain machine pathEnv specs).filter fun t =>
        t.name = spec.name).map (realPath machine)).Nodup := by
      rw [hinstalls]
      exact nodup_installs h
    refine ⟨hdistinct, fun hne => ?_, fun cmd hcmd full hfull => ?_, fun group hgroup => ?_⟩
    · rw [hinstalls] at hne ⊢
      rw [active_installs]
      have hle := length_flatMap_take_one.mpr (oneCommand_iff.mp h)
      have hsome : (spec.commands.flatMap fun cmd =>
          (commandInstalls machine pathEnv spec cmd).take 1) ≠ [] := by
        intro hnil
        rw [List.flatMap_eq_nil_iff] at hnil
        refine hne (List.flatMap_eq_nil_iff.mpr fun cmd hcmd => ?_)
        simpa using hnil cmd hcmd
      have hpos := List.length_pos_iff.mpr hsome
      exact List.length_eq_one_iff.mp (by omega)
    · have hreal := (resolveAllOnPath_spec machine.toFileSystem pathEnv cmd).2.2 full hfull
      have hpath : some (machine.real full) ∈
          (commandInstalls machine pathEnv spec cmd).map (realPath machine) := by
        rw [commandInstalls_paths]
        exact List.mem_map_of_mem hreal
      obtain ⟨t, ht, hpath⟩ := List.mem_map.mp hpath
      have hmem : t ∈ (detectToolchain machine pathEnv specs).filter fun t => t.name = spec.name := by
        rw [hinstalls]
        exact List.mem_flatMap.mpr ⟨cmd, hcmd, ht⟩
      rw [List.mem_filter, decide_eq_true_eq] at hmem
      exact ⟨t, hmem.1, hmem.2, hpath⟩
    · rw [group_eq hgroup, hdistinct.dedup, List.length_map]

/-- The row of Python in `TOOL_SPECS`. -/
def pythonSpec : ToolSpec :=
  ⟨"python", ["python", "python3"], ["--version"], "runtime", some "[Pp]ython (\\d[\\w.\\-+]*)"⟩

/-- The usual layout: `python` is a link to `python3`. -/
def linkedMachine : Machine where
  index := fun directory =>
    if directory = lit "/usr/bin" then some [lit "python", lit "python3"] else none
  executable := fun _ => true
  real := fun _ => "/usr/bin/python3"
  lower := id
  version := fun _ _ => some "3.12.3"

/-- One file is counted as two installations, both of them active. -/
theorem linked_python_counted_twice : ¬Counted linkedMachine "/usr/bin" [pythonSpec] pythonSpec := by
  intro h
  have hdistinct := h.distinct
  revert hdistinct
  decide +kernel

/-- A machine with `python3` alone. -/
def plainMachine : Machine :=
  { linkedMachine with
    index := fun directory => if directory = lit "/usr/bin" then some [lit "python3"] else none }

theorem counted_iff_plain : Counted plainMachine "/usr/bin" [pythonSpec] pythonSpec := by
  have hnone : ((pathEntries "/usr/bin").all fun directory =>
      (candidate plainMachine.toFileSystem "python" directory).isNone) = true := by decide
  refine (counted_iff plainMachine "/usr/bin" [pythonSpec] (List.nodup_singleton _) pythonSpec
    (List.mem_singleton_self _)).mpr ?_
  refine List.pairwise_pair.mpr (Or.inl fun full => ?_)
  rintro ⟨directory, hdirectory, hcandidate, -⟩
  have hmissing := List.all_eq_true.mp hnone directory hdirectory
  rw [hcandidate] at hmissing
  cases hmissing

end DevRepro.Probes
