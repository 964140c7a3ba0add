import DevRepro.Python.Fnmatch

/-!
# The environment contract

`CONTRACT_PATTERNS` and `classify_contract_path` of `project/contract.py`, and
`_matches_contract` of `watch.py`, which read one table of patterns.

`matchesContract_iff` and `classifyContractPath_iff` say what each of them asks
of a path.  The watcher takes every tail of a path that starts at a name; the
guard takes fewer of them, and of a path whose backslashes are slashes.
`watch_agrees_iff` says on which paths that is one answer.
-/

namespace DevRepro.Project

open DevRepro.Python

/-! ## The table -/

inductive ContractKind where
  | policy
  | lockfile
  | manifest
  | toolchainPin
  | ci
  | container
  | envNames
  | agentManifest
  deriving DecidableEq

/-- Patterns of one kind. -/
def ofKind (kind : ContractKind) (patterns : List Str) : List (Str × ContractKind) :=
  patterns.map (·, kind)

/-- `CONTRACT_PATTERNS`. -/
def contractPatterns : List (Str × ContractKind) :=
  ofKind .policy [".devrepro.toml", "**/.devrepro.toml"] ++
  ofKind .lockfile ["**/package-lock.json", "**/pnpm-lock.yaml", "**/yarn.lock", "**/bun.lockb",
    "**/poetry.lock", "**/uv.lock", "**/Pipfile.lock", "**/Cargo.lock", "**/composer.lock",
    "**/Gemfile.lock", "**/go.sum"] ++
  ofKind .manifest ["**/pyproject.toml", "**/package.json", "**/go.mod", "**/Cargo.toml",
    "**/composer.json", "**/Gemfile", "**/pom.xml", "**/build.gradle", "**/build.gradle.kts",
    "**/*.csproj", "**/global.json", "**/requirements*.txt"] ++
  ofKind .toolchainPin ["**/.nvmrc", "**/.node-version", "**/.python-version", "**/.ruby-version",
    "**/.java-version", "**/.tool-versions", "**/mise.toml", "**/.mise.toml", "**/rust-toolchain",
    "**/rust-toolchain.toml"] ++
  ofKind .ci [".github/workflows/*.yml", ".github/workflows/*.yaml", ".gitlab-ci.yml",
    "azure-pipelines.yml", "Jenkinsfile"] ++
  ofKind .container ["**/Dockerfile", "**/Dockerfile.*", "**/docker-compose*.yml",
    "**/compose*.yml", "**/devcontainer.json"] ++
  ofKind .envNames ["**/.env.example", "**/.env.sample"] ++
  ofKind .agentManifest ["AGENTS.md", "CLAUDE.md", ".cursorrules"]

/-! ## The two matchers -/

/-- The normalisation of `classify_contract_path`. -/
def asSlashes (path : Str) : Str :=
  path.map fun c => if c = codePoint '\\' then codePoint '/' else c

def normalised (path : Str) : Str := removePrefix (asSlashes path) "./"

/-- Whether one pattern makes `classify_contract_path` return its kind. -/
def classifies (path pattern : Str) : Bool :=
  fnmatch path pattern ||
    (startsWith pattern "**/" && fnmatch (lastComponent path) (pattern.drop 3)) ||
    (decide (codePoint '/' ∉ pattern) && fnmatch (lastComponent path) pattern)

/-- `classify_contract_path`. -/
def classifyContractPath (path : Str) : Option ContractKind :=
  (contractPatterns.find? fun entry => classifies (normalised path) entry.1).map Prod.snd

/-- What `_matches_contract` tries for one pattern. -/
def watches (relative pattern : Str) : Bool :=
  fnmatch relative pattern || fnmatch relative (lit "**/" ++ pattern) ||
    (startsWith pattern "**/" && fnmatch relative (pattern.drop 3))

/-- `watch._matches_contract`. -/
def matchesContract (relative : Str) : Bool :=
  contractPatterns.any fun entry => watches relative entry.1

/-! ## What the table holds -/

/-- The patterns behind a `**/`. -/
def recursivePatterns : List Str :=
  contractPatterns.filterMap fun entry =>
    if startsWith entry.1 "**/" then some (entry.1.drop 3) else none

/-- The recursive patterns whose star stands behind the start of a name. -/
def spanningPatterns : List Str :=
  ["requirements*.txt", "Dockerfile.*", "docker-compose*.yml", "compose*.yml"]

def workflowPatterns : List Str := [".github/workflows/*.yml", ".github/workflows/*.yaml"]

/-- The names that are listed without a directory. -/
def bareNames : List Str :=
  [".devrepro.toml", ".gitlab-ci.yml", "azure-pipelines.yml", "Jenkinsfile", "AGENTS.md",
    "CLAUDE.md", ".cursorrules"]

/-- The names that a recursive pattern gives in full. -/
def recursiveNames : List Str :=
  recursivePatterns.filter fun q => decide (q ≠ lit "*.csproj" ∧ q ∉ spanningPatterns)

/-- The patterns that are not recursive. -/
theorem rooted_patterns :
    (contractPatterns.map Prod.fst).filter (fun p => !startsWith p "**/") =
      lit ".devrepro.toml" :: workflowPatterns ++ bareNames.tail := by
  decide +kernel

theorem startsWith_recursive {pattern : Str} (h : startsWith pattern "**/" = true) :
    pattern = lit "**/" ++ pattern.drop 3 := by
  obtain ⟨rest, rfl⟩ := List.isPrefixOf_iff_prefix.mp h
  rfl

/-- A pattern of the table is recursive, or a bare name, or one of workflows. -/
theorem mem_contractPatterns_iff {pattern : Str} :
    pattern ∈ contractPatterns.map Prod.fst ↔
      (∃ q ∈ recursivePatterns, pattern = lit "**/" ++ q) ∨ pattern ∈ bareNames ∨
        pattern ∈ workflowPatterns := by
  have hrooted : pattern ∈ (contractPatterns.map Prod.fst).filter
      (fun p => !startsWith p "**/") ↔ pattern ∈ bareNames ∨ pattern ∈ workflowPatterns := by
    obtain ⟨names, hnames⟩ : ∃ names, bareNames.tail = names := ⟨_, rfl⟩
    have hbare : bareNames = lit ".devrepro.toml" :: names := by
      rw [← hnames]
      rfl
    rw [rooted_patterns, hnames, hbare, List.cons_append, List.mem_cons, List.mem_append,
      List.mem_cons, or_assoc, @or_comm _ (pattern ∈ names)]
  constructor
  · intro h
    by_cases hstart : startsWith pattern "**/" = true
    · obtain ⟨entry, hentry, rfl⟩ := List.mem_map.mp h
      exact Or.inl ⟨entry.1.drop 3,
        List.mem_filterMap.mpr ⟨entry, hentry, if_pos hstart⟩, startsWith_recursive hstart⟩
    · exact Or.inr (hrooted.mp (List.mem_filter.mpr ⟨h, by simpa using hstart⟩))
  · rintro (⟨q, hq, rfl⟩ | h)
    · obtain ⟨entry, hentry, hstem⟩ := List.mem_filterMap.mp hq
      split_ifs at hstem with hstart
      cases hstem
      rw [← startsWith_recursive hstart]
      exact List.mem_map_of_mem hentry
    · exact (List.mem_filter.mp (hrooted.mpr h)).1

/-- A name without wildcards and separators. -/
def isPlainName (name : Str) : Bool :=
  name.all fun c =>
    !(c == codePoint '*' || c == codePoint '?' || c == codePoint '/' || c == codePoint '\\')

theorem isPlainName_iff {name : Str} :
    isPlainName name = true ↔ Plainly name ∧ codePoint '/' ∉ name ∧ codePoint '\\' ∉ name := by
  unfold isPlainName Plainly
  simp only [List.all_eq_true, Bool.not_eq_true', Bool.or_eq_false_iff, beq_eq_false_iff_ne]
  constructor
  · intro h
    exact ⟨fun c hc => ⟨(h c hc).1.1.1, (h c hc).1.1.2⟩, fun hc => (h _ hc).1.2 rfl,
      fun hc => (h _ hc).2 rfl⟩
  · rintro ⟨hplain, hslash, hback⟩ c hc
    exact ⟨⟨hplain c hc, fun heq => hslash (heq ▸ hc)⟩, fun heq => hback (heq ▸ hc)⟩

/-- What the patterns of the table look like, read off in one go. -/
theorem table_forms : bareNames.all isPlainName = true ∧ recursiveNames.all isPlainName = true ∧
    (∀ p ∈ workflowPatterns,
      codePoint '/' ∈ p ∧ codePoint '\\' ∉ p ∧ startsWith p "**/" = false) ∧
    ∀ q ∈ spanningPatterns,
      q ∈ recursivePatterns ∧ codePoint '\\' ∉ q ∧ codePoint '/' ∉ q := by
  decide +kernel

theorem bareNames_plain : bareNames.all isPlainName = true := table_forms.1

theorem recursiveNames_plain : recursiveNames.all isPlainName = true := table_forms.2.1

theorem csproj_plain : isPlainName ".csproj" = true := by decide

theorem workflow_forms : ∀ p ∈ workflowPatterns,
    codePoint '/' ∈ p ∧ codePoint '\\' ∉ p ∧ startsWith p "**/" = false := table_forms.2.2.1

theorem spanning_forms : ∀ q ∈ spanningPatterns,
    q ∈ recursivePatterns ∧ codePoint '\\' ∉ q ∧ codePoint '/' ∉ q := table_forms.2.2.2

/-- A recursive pattern is a name, or the one for projects, or it spans slashes. -/
theorem recursive_forms {q : Str} (hq : q ∈ recursivePatterns) :
    codePoint '\\' ∉ q ∧ (q ∈ recursiveNames ∨ q = lit "*.csproj" ∨ q ∈ spanningPatterns) := by
  by_cases hproj : q = lit "*.csproj"
  · refine ⟨?_, Or.inr (Or.inl hproj)⟩
    rw [hproj]
    decide
  · by_cases hspan : q ∈ spanningPatterns
    · exact ⟨(spanning_forms q hspan).2.1, Or.inr (Or.inr hspan)⟩
    · have hname : q ∈ recursiveNames :=
        List.mem_filter.mpr ⟨hq, decide_eq_true ⟨hproj, hspan⟩⟩
      exact ⟨(isPlainName_iff.mp (List.all_eq_true.mp recursiveNames_plain q hname)).2.2,
        Or.inl hname⟩

/-! ## What the matchers ask -/

/-- Some pattern of the table, without its `**/`, matches. -/
def Named (s : Str) : Prop :=
  (∃ q ∈ recursivePatterns, fnmatch s q = true) ∨ s ∈ bareNames ∨
    ∃ w ∈ workflowPatterns, fnmatch s w = true

/-- Some tail of the path that starts at a name is named by the table. -/
def Listed (path : Str) : Prop := ∃ s ∈ starts path, Named s

/-- What the guard asks of a normalised path: a recursive pattern behind a slash or
for the last name, a bare name as the last name, or workflows for the path
itself. -/
def Declared (path : Str) : Prop :=
  (∃ q ∈ recursivePatterns, (∃ s ∈ afterSlash path, fnmatch s q = true) ∨
    fnmatch (lastComponent path) q = true) ∨
  lastComponent path ∈ bareNames ∨ ∃ w ∈ workflowPatterns, fnmatch path w = true

theorem fnmatch_bare_iff {name : Str} {s : Str} (hname : name ∈ bareNames) :
    fnmatch s name = true ↔ s = name :=
  fnmatch_plain_iff (isPlainName_iff.mp (List.all_eq_true.mp bareNames_plain name hname)).1

/-- A recursive pattern holds behind a slash, and so do two recursions. -/
theorem fnmatch_rooted_iff {path pattern : Str} :
    (fnmatch path pattern || fnmatch path (lit "**/" ++ pattern)) = true ↔
      ∃ s ∈ starts path, fnmatch s pattern = true := by
  rw [Bool.or_eq_true, fnmatch_recursive_iff, starts]
  simp

theorem watches_recursive_iff {path q : Str} :
    watches path (lit "**/" ++ q) = true ↔ ∃ s ∈ starts path, fnmatch s q = true := by
  have hstart : startsWith (lit "**/" ++ q) "**/" = true :=
    List.isPrefixOf_iff_prefix.mpr ⟨q, rfl⟩
  have hdrop : (lit "**/" ++ q).drop 3 = q := rfl
  rw [watches, Bool.or_eq_true, fnmatch_rooted_iff, hstart, Bool.true_and, hdrop, starts]
  constructor
  · rintro (⟨s, hs, hmatch⟩ | hmatch)
    · obtain ⟨tail, htail, hq⟩ := fnmatch_recursive_iff.mp hmatch
      refine ⟨tail, List.mem_cons_of_mem _ ?_, hq⟩
      rw [mem_afterSlash_iff] at htail ⊢
      rcases mem_starts_iff.mp hs with rfl | hsuffix
      · exact htail
      · exact htail.trans ((List.suffix_cons _ _).trans hsuffix)
    · exact ⟨path, List.mem_cons_self, hmatch⟩
  · rintro ⟨s, hs, hq⟩
    rcases List.mem_cons.mp hs with rfl | hs
    · exact Or.inr hq
    · exact Or.inl ⟨path, List.mem_cons_self, fnmatch_recursive_iff.mpr ⟨s, hs, hq⟩⟩

theorem watches_rooted_iff {path pattern : Str} (h : startsWith pattern "**/" = false) :
    watches path pattern = true ↔ ∃ s ∈ starts path, fnmatch s pattern = true := by
  rw [watches, Bool.or_eq_true, fnmatch_rooted_iff, h, Bool.false_and]
  simp

theorem bareName_rooted {name : Str} (h : name ∈ bareNames) : startsWith name "**/" = false := by
  have hslash := (isPlainName_iff.mp (List.all_eq_true.mp bareNames_plain name h)).2.1
  rw [← Bool.not_eq_true]
  intro hstart
  rw [startsWith_recursive hstart] at hslash
  exact hslash (by simp [lit])

/-- The watcher takes a path that the table names from some name on. -/
theorem matchesContract_iff {path : Str} : matchesContract path = true ↔ Listed path := by
  have htable : matchesContract path = true ↔
      ∃ p ∈ contractPatterns.map Prod.fst, watches path p = true := by
    rw [matchesContract, List.any_eq_true]
    simp only [List.mem_map, exists_exists_and_eq_and]
  rw [htable]
  constructor
  · rintro ⟨p, hp, hwatch⟩
    rcases mem_contractPatterns_iff.mp hp with ⟨q, hq, rfl⟩ | hbare | hworkflow
    · obtain ⟨s, hs, hmatch⟩ := watches_recursive_iff.mp hwatch
      exact ⟨s, hs, Or.inl ⟨q, hq, hmatch⟩⟩
    · obtain ⟨s, hs, hmatch⟩ := (watches_rooted_iff (bareName_rooted hbare)).mp hwatch
      exact ⟨s, hs, Or.inr (Or.inl ((fnmatch_bare_iff hbare).mp hmatch ▸ hbare))⟩
    · obtain ⟨s, hs, hmatch⟩ := (watches_rooted_iff (workflow_forms p hworkflow).2.2).mp hwatch
      exact ⟨s, hs, Or.inr (Or.inr ⟨p, hworkflow, hmatch⟩)⟩
  · rintro ⟨s, hs, ⟨q, hq, hmatch⟩ | hbare | ⟨w, hw, hmatch⟩⟩
    · exact ⟨_, mem_contractPatterns_iff.mpr (Or.inl ⟨q, hq, rfl⟩),
        watches_recursive_iff.mpr ⟨s, hs, hmatch⟩⟩
    · exact ⟨s, mem_contractPatterns_iff.mpr (Or.inr (Or.inl hbare)),
        (watches_rooted_iff (bareName_rooted hbare)).mpr
          ⟨s, hs, (fnmatch_bare_iff hbare).mpr rfl⟩⟩
    · exact ⟨w, mem_contractPatterns_iff.mpr (Or.inr (Or.inr hw)),
        (watches_rooted_iff (workflow_forms w hw).2.2).mpr ⟨s, hs, hmatch⟩⟩

theorem classifies_recursive_iff {path q : Str} :
    classifies path (lit "**/" ++ q) = true ↔
      (∃ s ∈ afterSlash path, fnmatch s q = true) ∨ fnmatch (lastComponent path) q = true := by
  have hstart : startsWith (lit "**/" ++ q) "**/" = true :=
    List.isPrefixOf_iff_prefix.mpr ⟨q, rfl⟩
  have hdrop : (lit "**/" ++ q).drop 3 = q := rfl
  have hslash : codePoint '/' ∈ lit "**/" ++ q := by simp [lit]
  rw [classifies, Bool.or_eq_true, Bool.or_eq_true, fnmatch_recursive_iff, hstart, hdrop,
    Bool.true_and, decide_eq_false (not_not.mpr hslash), Bool.false_and]
  simp

theorem classifies_bare_iff {path name : Str} (h : name ∈ bareNames) :
    classifies path name = true ↔ lastComponent path = name := by
  have hslash := (isPlainName_iff.mp (List.all_eq_true.mp bareNames_plain name h)).2.1
  rw [classifies, bareName_rooted h, Bool.false_and, Bool.or_false, Bool.or_eq_true,
    decide_eq_true hslash, Bool.true_and, fnmatch_bare_iff h, fnmatch_bare_iff h]
  constructor
  · rintro (rfl | hlast)
    · exact lastComponent_of_no_slash hslash
    · exact hlast
  · exact Or.inr

theorem classifies_workflow_iff {path w : Str} (h : w ∈ workflowPatterns) :
    classifies path w = true ↔ fnmatch path w = true := by
  obtain ⟨hslash, -, hstart⟩ := workflow_forms w h
  rw [classifies, hstart, Bool.false_and, Bool.or_false,
    decide_eq_false (not_not.mpr hslash), Bool.false_and, Bool.or_false]

/-- The guard takes a path whose normalised form is declared. -/
theorem classifyContractPath_iff {path : Str} :
    classifyContractPath path ≠ none ↔ Declared (normalised path) := by
  have htable : classifyContractPath path ≠ none ↔
      ∃ p ∈ contractPatterns.map Prod.fst, classifies (normalised path) p = true := by
    rw [classifyContractPath, ne_eq, Option.map_eq_none_iff, ← ne_eq,
      ← Option.isSome_iff_ne_none, List.find?_isSome]
    simp only [List.mem_map, exists_exists_and_eq_and]
  rw [htable]
  constructor
  · rintro ⟨p, hp, hkind⟩
    rcases mem_contractPatterns_iff.mp hp with ⟨q, hq, rfl⟩ | hbare | hworkflow
    · exact Or.inl ⟨q, hq, classifies_recursive_iff.mp hkind⟩
    · exact Or.inr (Or.inl ((classifies_bare_iff hbare).mp hkind ▸ hbare))
    · exact Or.inr (Or.inr ⟨p, hworkflow, (classifies_workflow_iff hworkflow).mp hkind⟩)
  · rintro (⟨q, hq, hmatch⟩ | hbare | ⟨w, hw, hmatch⟩)
    · exact ⟨_, mem_contractPatterns_iff.mpr (Or.inl ⟨q, hq, rfl⟩),
        classifies_recursive_iff.mpr hmatch⟩
    · exact ⟨_, mem_contractPatterns_iff.mpr (Or.inr (Or.inl hbare)),
        (classifies_bare_iff hbare).mpr rfl⟩
    · exact ⟨w, mem_contractPatterns_iff.mpr (Or.inr (Or.inr hw)),
        (classifies_workflow_iff hw).mpr hmatch⟩

/-! ## Normalised paths -/

theorem fnmatch_asSlashes {s pattern : Str} (hback : codePoint '\\' ∉ pattern)
    (h : fnmatch s pattern = true) : fnmatch (asSlashes s) pattern = true := by
  refine fnmatch_map (fun p hp c hc => ?_) h
  subst hc
  refine if_neg ?_
  rintro rfl
  exact hback hp

theorem asSlashes_of_no_backslash {s : Str} (h : codePoint '\\' ∉ s) : asSlashes s = s := by
  unfold asSlashes
  refine (List.map_congr_left fun c hc => if_neg ?_).trans (List.map_id' s)
  rintro rfl
  exact h hc

theorem asSlashes_start {path s : Str} (h : s ∈ starts path) :
    asSlashes s ∈ starts (asSlashes path) := by
  rw [mem_starts_iff] at h ⊢
  rcases h with rfl | h
  · exact Or.inl rfl
  · have hmap := h.map fun c => if c = codePoint '\\' then codePoint '/' else c
    exact Or.inr hmap

/-- A `./` is dropped, or there is none. -/
theorem asSlashes_eq (path : Str) :
    asSlashes path = normalised path ∨ asSlashes path = lit "./" ++ normalised path := by
  unfold normalised removePrefix
  split_ifs with h
  · obtain ⟨rest, hrest⟩ := List.isPrefixOf_iff_prefix.mp h
    rw [← hrest]
    exact Or.inr rfl
  · exact Or.inl rfl

theorem normalised_start (path : Str) : normalised path ∈ starts (asSlashes path) := by
  rcases asSlashes_eq path with h | h
  · rw [h]
    exact List.mem_cons_self
  · rw [mem_starts_iff, h]
    exact Or.inr (List.suffix_cons _ _)

theorem lastComponent_normalised (path : Str) :
    lastComponent (normalised path) = lastComponent (asSlashes path) :=
  lastComponent_start (normalised_start path)

/-- A start of the path with its slashes is one of the normalised path, or the
path itself with its `./`. -/
theorem starts_normalised {path s : Str} (h : s ∈ starts (asSlashes path)) :
    s ∈ starts (normalised path) ∨ s = lit "./" ++ normalised path := by
  rcases asSlashes_eq path with heq | heq
  · rw [← heq]
    exact Or.inl h
  · rw [heq] at h
    rcases List.mem_cons.mp h with rfl | h
    · exact Or.inr rfl
    · exact Or.inl h

/-! ## Agreement -/

/-- The watcher alone takes the path: as a whole it has a slash and matches a
pattern whose star spans the slash, or it has workflows below another directory,
and nothing else declares it. -/
def Overreads (path : Str) : Prop :=
  ((codePoint '/' ∈ normalised path ∧ ∃ s ∈ starts path, asSlashes s = normalised path ∧
      ∃ q ∈ spanningPatterns, fnmatch s q = true) ∨
    ∃ s ∈ afterSlash path, ∃ w ∈ workflowPatterns, fnmatch s w = true) ∧
  ¬Declared (normalised path)

/-- The guard alone takes the path: with its backslashes as slashes it is
declared, and without that no start of it is named. -/
def Overlooks (path : Str) : Prop :=
  codePoint '\\' ∈ path ∧ Declared (normalised path) ∧ ¬Listed path

/-- No spanning pattern matches a text that starts with a dot. -/
theorem spanning_dot {q rest : Str} (hq : q ∈ spanningPatterns) :
    fnmatch (codePoint '.' :: rest) q = false := by
  rw [← Bool.not_eq_true]
  intro h
  have hhead : ∃ p pattern, q = p :: pattern ∧ p ≠ codePoint '*' ∧ p ≠ codePoint '?' ∧
      p ≠ codePoint '.' := by
    revert q
    intro q hq _
    rcases List.mem_cons.mp hq with rfl | hq
    · exact ⟨_, _, rfl, by decide, by decide, by decide⟩
    rcases List.mem_cons.mp hq with rfl | hq
    · exact ⟨_, _, rfl, by decide, by decide, by decide⟩
    rcases List.mem_cons.mp hq with rfl | hq
    · exact ⟨_, _, rfl, by decide, by decide, by decide⟩
    rw [List.mem_singleton.mp hq]
    exact ⟨_, _, rfl, by decide, by decide, by decide⟩
  obtain ⟨p, pattern, rfl, hstar, hany, hdot⟩ := hhead
  exact hdot (fnmatch_cons_plain hstar hany h).symm

/-- No workflow pattern matches a text that starts with `./`. -/
theorem workflow_dot_slash {w rest : Str} (hw : w ∈ workflowPatterns) :
    fnmatch (lit "./" ++ rest) w = false := by
  rw [← Bool.not_eq_true]
  intro h
  obtain ⟨pattern, rfl⟩ : ∃ pattern, w = codePoint '.' :: codePoint 'g' :: pattern := by
    rcases List.mem_cons.mp hw with rfl | hw
    · exact ⟨_, rfl⟩
    · rw [List.mem_singleton.mp hw]
      exact ⟨_, rfl⟩
  have hrest := ((fnmatch_cons_cons (by decide)).mp h).2
  exact absurd (fnmatch_cons_plain (by decide) (by decide) hrest) (by decide)

/-- What the watcher takes is declared, but for the two kinds of paths on which a
star or a recursion reaches too far. -/
theorem overreads_of_listed {path : Str} (h : Listed path)
    (hdecl : ¬Declared (normalised path)) : Overreads path := by
  refine ⟨?_, hdecl⟩
  obtain ⟨s, hs, ⟨q, hq, hmatch⟩ | hbare | ⟨w, hw, hmatch⟩⟩ := h
  · obtain ⟨hback, hform⟩ := recursive_forms hq
    have hs' := asSlashes_start hs
    have hmatch' := fnmatch_asSlashes hback hmatch
    have hlast : fnmatch (lastComponent (normalised path)) q ≠ true := fun hlast =>
      hdecl (Or.inl ⟨q, hq, Or.inr hlast⟩)
    rcases hform with hname | rfl | hspan
    · obtain ⟨hplain, hslash, -⟩ :=
        isPlainName_iff.mp (List.all_eq_true.mp recursiveNames_plain q hname)
      have heq := (fnmatch_plain_iff hplain).mp hmatch'
      rw [lastComponent_normalised, ← eq_lastComponent hs' (heq ▸ hslash)] at hlast
      exact absurd hmatch' hlast
    · -- a star at the start of a pattern reaches no further than the last name
      obtain ⟨tail, htail, hproj⟩ := fnmatch_star_iff.mp hmatch'
      obtain ⟨hplain, hslash, -⟩ := isPlainName_iff.mp csproj_plain
      rw [(fnmatch_plain_iff hplain).mp hproj] at htail
      have hending := suffix_lastComponent htail hslash
      rw [lastComponent_start hs', ← lastComponent_normalised] at hending
      exact absurd (fnmatch_star_iff.mpr ⟨_, hending, (fnmatch_plain_iff hplain).mpr rfl⟩) hlast
    · rcases starts_normalised hs' with hstart | hdot
      · rcases List.mem_cons.mp hstart with heq | hafter
        · by_cases hslash : codePoint '/' ∈ normalised path
          · exact Or.inl ⟨hslash, s, hs, heq, q, hspan, hmatch⟩
          · rw [lastComponent_of_no_slash hslash, ← heq] at hlast
            exact absurd hmatch' hlast
        · exact absurd (Or.inl ⟨q, hq, Or.inl ⟨_, hafter, hmatch'⟩⟩) hdecl
      · rw [hdot] at hmatch'
        exact absurd hmatch' (Bool.not_eq_true _ ▸ spanning_dot hspan)
  · obtain ⟨-, hslash, hback⟩ := isPlainName_iff.mp (List.all_eq_true.mp bareNames_plain s hbare)
    have hs' := asSlashes_start hs
    rw [asSlashes_of_no_backslash hback] at hs'
    have hlast := eq_lastComponent hs' hslash
    rw [← lastComponent_normalised] at hlast
    exact absurd (Or.inr (Or.inl (hlast ▸ hbare))) hdecl
  · rcases List.mem_cons.mp hs with rfl | hafter
    · have hmatch' := fnmatch_asSlashes (workflow_forms w hw).2.1 hmatch
      rcases asSlashes_eq s with heq | heq
      · rw [heq] at hmatch'
        exact absurd (Or.inr (Or.inr ⟨w, hw, hmatch'⟩)) hdecl
      · rw [heq, workflow_dot_slash hw] at hmatch'
        cases hmatch'
    · exact Or.inr ⟨s, hafter, w, hw, hmatch⟩

/-- Without backslashes, the starts of the normalised path are starts of the path. -/
theorem listed_of_declared {path : Str} (hback : codePoint '\\' ∉ path)
    (h : Declared (normalised path)) : Listed path := by
  have hstart : ∀ s ∈ starts (normalised path), s ∈ starts path := by
    intro s hs
    have hnorm := normalised_start path
    rw [asSlashes_of_no_backslash hback] at hnorm
    exact starts_trans hs hnorm
  rcases h with ⟨q, hq, ⟨s, hs, hmatch⟩ | hlast⟩ | hbare | ⟨w, hw, hmatch⟩
  · exact ⟨s, hstart s (List.mem_cons_of_mem _ hs), Or.inl ⟨q, hq, hmatch⟩⟩
  · exact ⟨_, hstart _ (lastComponent_mem_starts _), Or.inl ⟨q, hq, hlast⟩⟩
  · exact ⟨_, hstart _ (lastComponent_mem_starts _), Or.inr (Or.inl hbare)⟩
  · exact ⟨_, hstart _ List.mem_cons_self, Or.inr (Or.inr ⟨w, hw, hmatch⟩)⟩

theorem listed_of_overreads {path : Str} (h : Overreads path) : Listed path := by
  obtain ⟨⟨-, s, hs, -, q, hq, hmatch⟩ | ⟨s, hs, w, hw, hmatch⟩, -⟩ := h
  · exact ⟨s, hs, Or.inl ⟨q, (spanning_forms q hq).1, hmatch⟩⟩
  · exact ⟨s, List.mem_cons_of_mem _ hs, Or.inr (Or.inr ⟨w, hw, hmatch⟩)⟩

/-- The watcher and the guard agree on a path unless one of them reaches further:
the watcher over slashes, or the guard over backslashes. -/
theorem watch_agrees_iff (path : Str) :
    (matchesContract path = true ↔ classifyContractPath path ≠ none) ↔
      ¬Overreads path ∧ ¬Overlooks path := by
  rw [matchesContract_iff, classifyContractPath_iff]
  constructor
  · intro h
    exact ⟨fun hover => hover.2 (h.mp (listed_of_overreads hover)),
      fun hover => hover.2.2 (h.mpr hover.2.1)⟩
  · rintro ⟨hreads, hlooks⟩
    constructor
    · intro hlisted
      by_contra hdecl
      exact hreads (overreads_of_listed hlisted hdecl)
    · intro hdecl
      by_contra hlisted
      by_cases hback : codePoint '\\' ∈ path
      · exact hlooks ⟨hback, hdecl, hlisted⟩
      · exact hlisted (listed_of_declared hback hdecl)

/-- The star of `requirements*.txt` spans a directory for the watcher alone. -/
theorem watch_takes_requirements_directory :
    matchesContract "requirements/dev.txt" = true ∧
      classifyContractPath "requirements/dev.txt" = none := by
  decide +kernel

end DevRepro.Project
