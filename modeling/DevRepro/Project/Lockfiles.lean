import DevRepro.Lib.DepthFirst
import DevRepro.Snapshots.Models

/-!
# Where lockfiles are looked for

`_walk` of `project/lockfiles.py` and `_nested_dirs` of `project/detectors.py`, with
the functions that look for lockfiles in the directories that they find.

The two skip the same directories but for `vendor` and `site`, which only the first
one skips.  `sameSearch_iff` says for which trees that makes no difference.
-/

namespace DevRepro.Project

open DevRepro.Python DevRepro.Lib DevRepro.Snapshots

/-! ## Directories -/

/-- A directory tree, under the names from its root.  A link may lead back up, so
the paths need not end. -/
structure DirTree where
  /-- The directories in a directory, in the order of `iterdir`, or nothing for an
  `OSError`. -/
  subdirs : List Str → Option (List Str)
  /-- `path.is_file()` -/
  isFile : List Str → Bool

/-- `path.as_posix()`, below the root. -/
def posix (path : List Str) : Str := join "/" path

/-- `MAX_DEPTH` of `lockfiles.py` and `_MAX_LOCKFILE_DEPTH` of `detectors.py`. -/
def maxDepth : Nat := 3

def maxLockfileDepth : Nat := 3

/-- `_SKIP_DIRS` of `lockfiles.py`. -/
def lockfileSkipDirs : List Str :=
  ["node_modules", "vendor", "target", "dist", "build", "site", "venv", "__pycache__"]

/-- `SKIP_DIRS` of `monorepo.py`. -/
def skipDirs : List Str :=
  [".git", "node_modules", ".venv", "venv", "__pycache__", "target", "dist", "build", ".tox"]

/-- `name in skip or name.startswith(".")` -/
def skipped (skip : List Str) (name : Str) : Bool := decide (name ∈ skip) || startsWith name "."

/-- The directories that `_walk` enters from one. -/
def walkNames (tree : DirTree) (path : List Str) : List Str :=
  (((tree.subdirs path).getD []).mergeSort strLe).filter fun name => !skipped lockfileSkipDirs name

/-- The directories that `_nested_dirs` enters from one. -/
def nestedNames (tree : DirTree) (path : List Str) : List Str :=
  ((tree.subdirs path).getD []).filter fun name => !skipped skipDirs name

/-- `_walk`. -/
def walk (tree : DirTree) (depth : Nat) : List (List Str) :=
  walkFrom (pathKids (walkNames tree)) depth [([], 0)] [[]]

/-- `_nested_dirs`. -/
def nestedDirs (tree : DirTree) (depth : Nat) : List (List Str) :=
  walkFrom (pathKids (nestedNames tree)) depth [([], 0)] []

/-! ## Lockfiles -/

/-- `markers` of `_lockfiles`: the file, its ecosystem and its label. -/
def lockfileMarkers : List (Str × Str × Str) :=
  [("poetry.lock", "python", "poetry-lock"), ("uv.lock", "python", "uv-lock"),
    ("Pipfile.lock", "python", "pipenv-lock"), ("package-lock.json", "node", "npm-lock"),
    ("pnpm-lock.yaml", "node", "pnpm-lock"), ("yarn.lock", "node", "yarn-lock"),
    ("bun.lockb", "node", "bun-lock"), ("go.sum", "go", "go-sum"),
    ("Cargo.lock", "rust", "cargo-lock"), ("composer.lock", "php", "composer-lock"),
    ("Gemfile.lock", "ruby", "bundler-lock"), ("poetry.toml", "python", "poetry-config")]

/-- The names of `LOCKFILE_PARSERS`, sorted. -/
def lockfileParsers : List Str :=
  ["Cargo.lock", "Gemfile.lock", "Pipfile.lock", "bun.lock", "bun.lockb", "composer.lock", "go.sum",
    "npm-shrinkwrap.json", "package-lock.json", "pnpm-lock.yaml", "poetry.lock", "uv.lock",
    "yarn.lock"]

/-- The requirement of `_lockfiles` for a file of a directory, with its path. -/
def lockfileRequirement (pathText : List Str → Str) (directory : List Str)
    (marker : Str × Str × Str) : List Str × ProjectRequirement :=
  let path := directory ++ [marker.1]
  let name := if directory = [] then marker.2.2 else marker.2.2 ++ lit "@" ++ posix directory
  (path, ⟨marker.2.1, name, "*", .tool, pathText path, false, some "lockfile present"⟩)

/-- `_lockfiles`: each requirement with the path of its file.  `pathText` is `str()` of
a path below the root. -/
def lockfiles (pathText : List Str → Str) (tree : DirTree) : List (List Str × ProjectRequirement) :=
  let inDir := fun directory : List Str =>
    (lockfileMarkers.filter fun marker => tree.isFile (directory ++ [marker.1])).map
      (lockfileRequirement pathText directory)
  inDir [] ++ (nestedDirs tree maxLockfileDepth).flatMap inDir

/-- `collect_lockfile_facts`: each fact with the path of its file.  `facts` is what the
parser of a name makes of a file: every parser of the table makes something of it. -/
def collectLockfileFacts {φ : Type} (facts : List Str → φ) (tree : DirTree) :
    List (List Str × φ) :=
  ((walk tree maxDepth).flatMap fun directory =>
    (lockfileParsers.filter fun name => tree.isFile (directory ++ [name])).map fun name =>
      (directory ++ [name], facts (directory ++ [name]))).mergeSort
    fun a b => strLe (posix a.1) (posix b.1)

variable {φ : Type}

/-- The two search the same directories, so a file that both know by name is
reported by both or by neither. -/
structure SameSearch (pathText : List Str → Str) (facts : List Str → φ) (tree : DirTree) : Prop where
  dirs : ∀ path, path ∈ walk tree maxDepth ↔ path = [] ∨ path ∈ nestedDirs tree maxLockfileDepth
  files : ∀ directory name, name ∈ lockfileMarkers.map Prod.fst → name ∈ lockfileParsers →
    (directory ++ [name] ∈ (lockfiles pathText tree).map Prod.fst ↔
      directory ++ [name] ∈ (collectLockfileFacts facts tree).map Prod.fst)

/-- No directory that is looked into, within the limit, is named `vendor` or `site`. -/
def NoVendor (tree : DirTree) : Prop :=
  ∀ path, path.length ≤ maxDepth → Lib.Listed (fun path => (tree.subdirs path).getD []) [] path →
    (∀ name ∈ path, skipped skipDirs name = false) → lit "vendor" ∉ path ∧ lit "site" ∉ path

/-! ## The directories -/

theorem mem_walk {tree : DirTree} {path : List Str} :
    path ∈ walk tree maxDepth ↔
      path.length ≤ maxDepth ∧ Lib.Listed (fun path => (tree.subdirs path).getD []) [] path ∧
        ∀ name ∈ path, skipped lockfileSkipDirs name = false := by
  have hnames : ∀ path name, name ∈ walkNames tree path ↔
      name ∈ (tree.subdirs path).getD [] ∧ (!skipped lockfileSkipDirs name) = true := by
    intro path name
    rw [walkNames, List.mem_filter, List.mem_mergeSort]
  rw [walk, mem_walkFrom_root, List.mem_singleton, listed_iff hnames]
  simp only [Bool.not_eq_true']
  constructor
  · rintro (rfl | ⟨-, hlength, hlisted, hnames⟩)
    · exact ⟨Nat.zero_le _, trivial, fun name hname => nomatch hname⟩
    · exact ⟨hlength, hlisted, hnames⟩
  · intro h
    by_cases hpath : path = []
    · exact Or.inl hpath
    · exact Or.inr ⟨hpath, h.1, h.2.1, h.2.2⟩

theorem mem_nestedDirs {tree : DirTree} {path : List Str} :
    path ∈ nestedDirs tree maxLockfileDepth ↔
      path ≠ [] ∧ path.length ≤ maxLockfileDepth ∧
        Lib.Listed (fun path => (tree.subdirs path).getD []) [] path ∧
          ∀ name ∈ path, skipped skipDirs name = false := by
  have hnames : ∀ path name, name ∈ nestedNames tree path ↔
      name ∈ (tree.subdirs path).getD [] ∧ (!skipped skipDirs name) = true := by
    intro path name
    rw [nestedNames, List.mem_filter]
  rw [nestedDirs, mem_walkFrom_root, listed_iff hnames]
  simp only [List.not_mem_nil, false_or, Bool.not_eq_true']

/-- The skip lists differ in two names. -/
theorem skipped_lockfile_iff (name : Str) :
    skipped lockfileSkipDirs name = false ↔
      skipped skipDirs name = false ∧ name ≠ lit "vendor" ∧ name ≠ lit "site" := by
  have hdot : name = lit ".git" ∨ name = lit ".venv" ∨ name = lit ".tox" →
      startsWith name "." = true := by
    rintro (rfl | rfl | rfl)
    · decide
    · decide
    · decide
  simp only [skipped, lockfileSkipDirs, skipDirs, Bool.or_eq_false_iff, decide_eq_false_iff_not,
    List.mem_cons, List.not_mem_nil, or_false, not_or]
  constructor
  · rintro ⟨⟨h1, h2, h3, h4, h5, h6, h7, h8⟩, hstart⟩
    refine ⟨⟨⟨?_, h1, ?_, h7, h8, h3, h4, h5, ?_⟩, hstart⟩, h2, h6⟩
    · exact fun h => absurd (hdot (Or.inl h)) (by rw [hstart]; exact Bool.false_ne_true)
    · exact fun h => absurd (hdot (Or.inr (Or.inl h))) (by rw [hstart]; exact Bool.false_ne_true)
    · exact fun h => absurd (hdot (Or.inr (Or.inr h))) (by rw [hstart]; exact Bool.false_ne_true)
  · rintro ⟨⟨⟨-, h1, -, h7, h8, h3, h4, h5, -⟩, hstart⟩, h2, h6⟩
    exact ⟨⟨h1, h2, h3, h4, h5, h6, h7, h8⟩, hstart⟩

/-- The walks find the same directories exactly where no `vendor` and no `site` is in
the way. -/
theorem sameDirs_iff {tree : DirTree} :
    (∀ path, path ∈ walk tree maxDepth ↔ path = [] ∨ path ∈ nestedDirs tree maxLockfileDepth) ↔
      NoVendor tree := by
  constructor
  · intro h path hlength hlisted hnames
    have hwalk : path ∈ walk tree maxDepth := by
      rw [h]
      by_cases hpath : path = []
      · exact Or.inl hpath
      · exact Or.inr (mem_nestedDirs.mpr ⟨hpath, hlength, hlisted, hnames⟩)
    have hall := (mem_walk.mp hwalk).2.2
    exact ⟨fun hmem => ((skipped_lockfile_iff _).mp (hall _ hmem)).2.1 rfl,
      fun hmem => ((skipped_lockfile_iff _).mp (hall _ hmem)).2.2 rfl⟩
  · intro h path
    rw [mem_walk, mem_nestedDirs]
    constructor
    · rintro ⟨hlength, hlisted, hnames⟩
      by_cases hpath : path = []
      · exact Or.inl hpath
      · exact Or.inr ⟨hpath, hlength, hlisted,
          fun name hname => ((skipped_lockfile_iff name).mp (hnames name hname)).1⟩
    · rintro (rfl | ⟨-, hlength, hlisted, hnames⟩)
      · exact ⟨Nat.zero_le _, trivial, fun name hname => nomatch hname⟩
      · refine ⟨hlength, hlisted, fun name hname => (skipped_lockfile_iff name).mpr
          ⟨hnames name hname, ?_, ?_⟩⟩
        · rintro rfl
          exact (h path hlength hlisted hnames).1 hname
        · rintro rfl
          exact (h path hlength hlisted hnames).2 hname

/-! ## The lockfiles -/

theorem append_singleton_inj {directory other : List Str} {name file : Str} :
    directory ++ [name] = other ++ [file] ↔ directory = other ∧ name = file := by
  constructor
  · intro h
    exact ⟨(List.append_inj' h rfl).1, List.singleton_inj.mp (List.append_inj' h rfl).2⟩
  · rintro ⟨rfl, rfl⟩
    rfl

theorem mem_lockfiles {pathText : List Str → Str} {tree : DirTree} {directory : List Str} {name : Str} :
    directory ++ [name] ∈ (lockfiles pathText tree).map Prod.fst ↔
      name ∈ lockfileMarkers.map Prod.fst ∧ tree.isFile (directory ++ [name]) = true ∧
        (directory = [] ∨ directory ∈ nestedDirs tree maxLockfileDepth) := by
  have hdir : ∀ other : List Str, directory ++ [name] ∈
      ((lockfileMarkers.filter fun marker => tree.isFile (other ++ [marker.1])).map
        (lockfileRequirement pathText other)).map Prod.fst ↔
      directory = other ∧ name ∈ lockfileMarkers.map Prod.fst ∧
        tree.isFile (directory ++ [name]) = true := by
    intro other
    rw [List.map_map]
    simp only [List.mem_map, List.mem_filter, Function.comp_apply, lockfileRequirement]
    constructor
    · rintro ⟨marker, ⟨hmarker, hfile⟩, heq⟩
      obtain ⟨rfl, rfl⟩ := append_singleton_inj.mp heq
      exact ⟨rfl, ⟨marker, hmarker, rfl⟩, hfile⟩
    · rintro ⟨rfl, ⟨marker, hmarker, rfl⟩, hfile⟩
      exact ⟨marker, ⟨hmarker, hfile⟩, rfl⟩
  rw [lockfiles]
  dsimp only
  rw [List.map_append, List.mem_append, hdir, List.map_flatMap, List.mem_flatMap]
  simp only [hdir]
  constructor
  · rintro (⟨rfl, hname, hfile⟩ | ⟨_, hnested, rfl, hname, hfile⟩)
    · exact ⟨hname, hfile, Or.inl rfl⟩
    · exact ⟨hname, hfile, Or.inr hnested⟩
  · rintro ⟨hname, hfile, rfl | hnested⟩
    · exact Or.inl ⟨rfl, hname, hfile⟩
    · exact Or.inr ⟨_, hnested, rfl, hname, hfile⟩

theorem mem_collectLockfileFacts {facts : List Str → φ} {tree : DirTree} {directory : List Str}
    {name : Str} :
    directory ++ [name] ∈ (collectLockfileFacts facts tree).map Prod.fst ↔
      name ∈ lockfileParsers ∧ tree.isFile (directory ++ [name]) = true ∧
        directory ∈ walk tree maxDepth := by
  simp only [collectLockfileFacts, List.mem_map, List.mem_mergeSort, List.mem_flatMap, List.mem_filter]
  constructor
  · rintro ⟨_, ⟨other, hother, file, ⟨hparser, hfile⟩, rfl⟩, heq⟩
    obtain ⟨rfl, rfl⟩ := append_singleton_inj.mp heq
    exact ⟨hparser, hfile, hother⟩
  · rintro ⟨hparser, hfile, hwalk⟩
    exact ⟨_, ⟨directory, hwalk, name, ⟨hparser, hfile⟩, rfl⟩, rfl⟩

/-- Manifests and lockfiles are searched in the same places exactly where no `vendor`
and no `site` directory is within reach. -/
theorem sameSearch_iff (pathText : List Str → Str) (facts : List Str → φ) (tree : DirTree) :
    SameSearch pathText facts tree ↔ NoVendor tree := by
  constructor
  · intro h
    exact sameDirs_iff.mp h.dirs
  · intro h
    have hdirs := sameDirs_iff.mpr h
    refine ⟨hdirs, fun directory name hmarker hparser => ?_⟩
    rw [mem_lockfiles, mem_collectLockfileFacts, hdirs]
    tauto

/-- A repository with a lockfile under `vendor`. -/
def vendored : DirTree where
  subdirs := fun path => if path = [] then some ["vendor"] else some []
  isFile := fun path => decide (path = ["vendor", "composer.lock"])

/-- A lockfile under `vendor` is reported once. -/
theorem vendored_differs : ¬SameSearch posix (fun _ => ()) vendored := by
  intro h
  have hlisted : Lib.Listed (fun path => (vendored.subdirs path).getD []) [] [lit "vendor"] :=
    ⟨List.mem_singleton_self _, trivial⟩
  have hskipped : skipped skipDirs (lit "vendor") = false := by decide
  have hvendor := sameDirs_iff.mp h.dirs [lit "vendor"] (by decide) hlisted fun name hname => by
    rw [List.mem_singleton.mp hname]
    exact hskipped
  exact hvendor.1 (List.mem_singleton_self _)

end DevRepro.Project
