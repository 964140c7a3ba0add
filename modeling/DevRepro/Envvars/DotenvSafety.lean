import DevRepro.Python.Digits
import DevRepro.Python.JsonDump
import DevRepro.Python.Words

/-!
# Dotenv files and `.gitignore`

`dotenv_safety_scan` of `envvars/analysis.py`.  A file counts as ignored when some
pattern starts with its name, so that the pattern of a longer name covers it, and a
pattern with a leading slash covers nothing (`not_covered_iff`).
-/

namespace DevRepro.Envvars

open DevRepro.Python

/-! ## The project -/

/-- What the scan sees of a project. -/
structure Project where
  /-- The names in the root. -/
  children : List Str
  /-- `(root / rel).is_file()`. -/
  isFile : Str → Bool
  /-- `read_text` of a file, where `none` stands for an `OSError`. -/
  read : Str → Option Str
  /-- A file in the root is one of its names. -/
  listed : ∀ name, isFile name = true → codePoint '/' ∉ name → name ∈ children
  plain : ∀ name ∈ children, codePoint '/' ∉ name

structure DotenvFinding where
  path : Str
  severity : Str
  detail : Str
  deriving DecidableEq

/-- `_PROJECT_ENV_SOURCES`. -/
def projectEnvSources : List Str :=
  [".env", ".env.local", ".env.example", "docker-compose.yml", "docker-compose.yaml",
    "compose.yaml", ".devcontainer/devcontainer.json", ".devrepro.toml"]

/-- `sorted(root.glob(".env*"))`. -/
def dotenvNames (project : Project) : List Str :=
  (project.children.filter fun name => startsWith name ".env").mergeSort strLe

/-- `_iter_env_files`, by the paths relative to the root. -/
def iterEnvFiles (project : Project) : List Str :=
  let sources := projectEnvSources.filter project.isFile
  sources ++ (dotenvNames project).filter fun name => !sources.contains name && project.isFile name

/-- `path.name`. -/
def fileName (rel : Str) : Str := (rel.reverse.takeWhile fun c => c ≠ codePoint '/').reverse

/-! ## Secrets -/

theorem smallLetter_lt {c : CodePoint} (h : 0x41 ≤ c.val ∧ c.val ≤ 0x5A) :
    c.val + 0x20 < 0x110000 := by
  omega

/-- The letter that a character is without its case. -/
def foldCase (c : CodePoint) : CodePoint :=
  if h : 0x41 ≤ c.val ∧ c.val ≤ 0x5A then ⟨c.val + 0x20, smallLetter_lt h⟩
  else if c.val = 0x17F then codePoint 's'
  else if c.val = 0x212A then codePoint 'k'
  else if c.val = 0x130 ∨ c.val = 0x131 then codePoint 'i'
  else c

/-- Two words with `_`, `-` or nothing between them. -/
def joinedWords (first second : Str) : List Str :=
  [first ++ lit "_" ++ second, first ++ lit "-" ++ second, first ++ second]

/-- The alternatives of `CREDENTIAL_NAME_PATTERN`, but for `_pat$`. -/
def credentialWords : List Str :=
  [lit "password", lit "passwd", lit "secret", lit "token"] ++ joinedWords "api" "key" ++
    joinedWords "private" "key" ++ joinedWords "access" "key" ++ [lit "credential"] ++
    joinedWords "session" "token" ++ joinedWords "session" "key" ++ joinedWords "session" "secret" ++
    joinedWords "auth" "token" ++ joinedWords "auth" "key"

/-- `CREDENTIAL_NAME_PATTERN.search(name)`, on a name without white space at its end. -/
def looksSecret (name : Str) : Bool :=
  let folded := name.map foldCase
  credentialWords.any (containsText folded) || (lit "_pat").isSuffixOf folded

def isUpper (c : CodePoint) : Bool := 0x41 ≤ c.val && c.val ≤ 0x5A
def isDigit (c : CodePoint) : Bool := 0x30 ≤ c.val && c.val ≤ 0x39
def isAsciiAlnum (c : CodePoint) : Bool := isUpper c || (0x61 ≤ c.val && c.val ≤ 0x7A) || isDigit c

/-- A start with at least `n` characters of a class behind it, somewhere in a text. -/
def hasShape (start : Str) (p : CodePoint → Bool) (n : Nat) (value : Str) : Bool :=
  value.tails.any fun s => startsWith s start && n ≤ ((s.drop start.length).takeWhile p).length

/-- Whether one of `_VALUE_SHAPES` is in a value. -/
def looksLive (value : Str) : Bool :=
  hasShape "ghp_" isAsciiAlnum 20 value || hasShape "sk-" isAsciiAlnum 20 value ||
    hasShape "AKIA" (fun c => isDigit c || isUpper c) 16 value ||
    [lit "xoxb-", lit "xoxa-", lit "xoxp-", lit "xoxr-", lit "xoxs-"].any fun start =>
      hasShape start (fun c => isAsciiAlnum c || c == codePoint '-') 10 value

/-- The names and values of a dotenv file. -/
def assignments (text : Str) : List (Str × Str) :=
  ((splitlines text).map strip).filterMap fun line =>
    if line = [] ∨ startsWith line "#" = true ∨ codePoint '=' ∉ line then none
    else some (strip (line.takeWhile fun c => c ≠ codePoint '='),
      (line.dropWhile fun c => c ≠ codePoint '=').tail)

/-- The severity of what is found in a file. -/
def contentSeverity (trackedRisk : Bool) : Str := if trackedRisk then "critical" else "warn"

/-- The findings about what is in a file. -/
def contentFindings (rel text : Str) (trackedRisk : Bool) : List DotenvFinding :=
  let secretNames := (assignments text).countP fun item => looksSecret item.1
  let shapeHits := (assignments text).countP fun item => looksLive item.2
  (if secretNames = 0 then []
    else [⟨rel, contentSeverity trackedRisk, lit "contains secret-looking variable NAMES (" ++
      natStr secretNames ++ lit "); values were not recorded"⟩]) ++
    if shapeHits = 0 then []
    else [⟨rel, contentSeverity trackedRisk, natStr shapeHits ++
      lit " value(s) match known credential formats; rotate if this file was ever committed"⟩]

/-! ## The scan -/

/-- The patterns of a `.gitignore`. -/
def ignoredPatterns (text : Str) : List Str :=
  ((splitlines text).filter fun line => strip line ≠ [] && !startsWith line "#").map strip

/-- `is_ignored`. -/
def isIgnored (patterns : List Str) (name : Str) : Bool :=
  patterns.any fun p =>
    stripEnd (fun c => c == codePoint '/') p == name || p == name || startsWith p name

/-- The patterns of the project. -/
def projectPatterns (project : Project) : List Str :=
  if project.isFile ".gitignore" then ((project.read ".gitignore").map ignoredPatterns).getD [] else []

def notCovered (rel : Str) : DotenvFinding :=
  ⟨rel, "critical", fileName rel ++ lit " exists but is NOT covered by .gitignore"⟩

def covered (rel : Str) : DotenvFinding :=
  ⟨rel, "info", fileName rel ++ lit " is gitignored (or an example template)"⟩

/-- The findings about one file. -/
def fileFindings (project : Project) (rel : Str) : List DotenvFinding :=
  let trackedRisk := !isIgnored (projectPatterns project) (fileName rel)
  (if trackedRisk && fileName rel != lit ".env.example" then notCovered rel else covered rel) ::
    ((project.read rel).map fun text => contentFindings rel text trackedRisk).getD []

/-- `dotenv_safety_scan`. -/
def dotenvSafetyScan (project : Project) : List DotenvFinding :=
  ((iterEnvFiles project).filter fun rel => startsWith (fileName rel) ".env").flatMap
    (fileFindings project)

/-! ## Patterns that are names -/

/-- A pattern that is the name of a file, with slashes at its ends or not. -/
structure LiteralPattern where
  leading : Bool
  name : Str
  trailing : Bool
  nonempty : name ≠ []
  plain : name.all (fun c => !(lit "/*?[\\").contains c) = true
  start : ∀ c ∈ name.head?, c ≠ codePoint '#' ∧ c ≠ codePoint '!' ∧ isSpace c = false
  ending : ∀ c ∈ name.getLast?, isSpace c = false

def LiteralPattern.text (p : LiteralPattern) : Str :=
  (if p.leading then lit "/" else []) ++ (p.name ++ if p.trailing then lit "/" else [])

/-- A line of a `.gitignore`. -/
inductive IgnoreLine where
  | pattern (p : LiteralPattern)
  | comment (text : Str)
  | blank (text : Str) (h : ∀ c ∈ text, isSpace c = true)

def IgnoreLine.text : IgnoreLine → Str
  | pattern p => p.text
  | comment text => codePoint '#' :: text
  | blank text _ => text

def IgnoreLine.pattern? : IgnoreLine → Option LiteralPattern
  | pattern p => some p
  | _ => none

/-- A `.gitignore` of literal patterns. -/
structure IgnoreFile where
  text : Str
  lines : List IgnoreLine
  reads : splitlines text = lines.map IgnoreLine.text

def IgnoreFile.patterns (file : IgnoreFile) : List LiteralPattern :=
  file.lines.filterMap IgnoreLine.pattern?

/-- The text of a pattern has no white space at its ends, and is no comment. -/
theorem LiteralPattern.text_ends (p : LiteralPattern) :
    (∀ c ∈ p.text.head?, c ≠ codePoint '#' ∧ isSpace c = false) ∧
      (∀ c ∈ p.text.getLast?, isSpace c = false) ∧ p.text ≠ [] := by
  have hslash : isSpace (codePoint '/') = false := by decide
  refine ⟨fun c hc => ?_, fun c hc => ?_, ?_⟩
  · rw [text] at hc
    cases hleading : p.leading with
    | true =>
      rw [hleading] at hc
      rw [← Option.some.inj hc]
      exact ⟨by decide, hslash⟩
    | false =>
      rw [hleading, if_neg Bool.false_ne_true, List.nil_append, List.head?_append_of_ne_nil _ p.nonempty] at hc
      exact ⟨(p.start c hc).1, (p.start c hc).2.2⟩
  · rw [text] at hc
    cases htrailing : p.trailing with
    | true =>
      rw [htrailing, if_pos rfl, ← List.append_assoc] at hc
      rw [← Option.some.inj (List.getLast?_concat.symm.trans hc)]
      exact hslash
    | false =>
      rw [htrailing, if_neg Bool.false_ne_true, List.append_nil,
        List.getLast?_append_of_ne_nil _ p.nonempty] at hc
      exact p.ending c hc
  · rw [text]
    intro hnil
    rw [List.append_eq_nil_iff, List.append_eq_nil_iff] at hnil
    exact p.nonempty hnil.2.1

theorem LiteralPattern.strip_text (p : LiteralPattern) : strip p.text = p.text := by
  obtain ⟨hhead, hlast, -⟩ := p.text_ends
  exact stripChars_eq_self (fun c hc => (hhead c hc).2) hlast

/-- The patterns are read as they are written. -/
theorem ignoredPatterns_text (file : IgnoreFile) :
    ignoredPatterns file.text = file.patterns.map LiteralPattern.text := by
  rw [ignoredPatterns, file.reads, IgnoreFile.patterns]
  induction file.lines with
  | nil => rfl
  | cons line lines ih =>
    cases line with
    | pattern p =>
      obtain ⟨hhead, -, hne⟩ := p.text_ends
      have hcomment : startsWith p.text "#" = false := by
        cases htext : p.text with
        | nil => exact absurd htext hne
        | cons c rest =>
          rw [htext] at hhead
          have hc := (hhead c rfl).1
          show (codePoint '#' == c && List.isPrefixOf [] rest) = false
          rw [beq_eq_false_iff_ne.mpr (Ne.symm hc), Bool.false_and]
      have hkeep : (decide (strip p.text ≠ []) && !startsWith p.text "#") = true := by
        rw [p.strip_text, hcomment, decide_eq_true hne]
        rfl
      rw [List.map_cons, List.filter_cons_of_pos (by exact hkeep), List.map_cons, ih]
      show strip p.text :: _ = p.text :: _
      rw [p.strip_text]
    | comment text =>
      have hcomment : startsWith (codePoint '#' :: text) "#" = true := by simp [startsWith, lit]
      rw [List.map_cons, List.filter_cons_of_neg (by simp [IgnoreLine.text, hcomment])]
      exact ih
    | blank text h =>
      rw [List.map_cons, List.filter_cons_of_neg (by simp [IgnoreLine.text, (strip_eq_nil_iff text).mpr h])]
      exact ih

/-- A pattern covers the names that it starts with. -/
theorem covers_iff {p : Str} {name : Str} :
    (stripEnd (fun c => c == codePoint '/') p == name || p == name || startsWith p name) = true ↔
      name <+: p := by
  rw [Bool.or_eq_true, Bool.or_eq_true, beq_iff_eq, beq_iff_eq, startsWith, List.isPrefixOf_iff_prefix]
  constructor
  · rintro ((rfl | rfl) | h)
    · exact stripEnd_isStart p
    · exact List.prefix_refl p
    · exact h
  · exact Or.inr

theorem prefix_text_iff {p : LiteralPattern} {name : Str} (hslash : codePoint '/' ∉ name)
    (hne : name ≠ []) : name <+: p.text ↔ p.leading = false ∧ name <+: p.name := by
  rw [LiteralPattern.text]
  cases p.leading with
  | true =>
    refine iff_of_false (fun h => ?_) fun h => Bool.noConfusion h.1
    obtain ⟨rest, hrest⟩ := h
    cases name with
    | nil => exact hne rfl
    | cons c tail => exact hslash (List.mem_cons.mpr (Or.inl (List.cons.inj hrest).1.symm))
  | false =>
    rw [if_neg Bool.false_ne_true, List.nil_append, and_iff_right rfl]
    constructor
    · intro h
      rcases List.prefix_or_prefix_of_prefix h (List.prefix_append p.name _) with hpre | ⟨rest, hrest⟩
      · exact hpre
      · rw [← hrest, List.prefix_append_right_inj] at h
        cases hrest' : rest with
        | nil =>
          rw [hrest', List.append_nil] at hrest
          exact hrest ▸ List.prefix_refl _
        | cons c tail =>
          have hc : c = codePoint '/' := by
            rw [hrest'] at h
            cases htrailing : p.trailing with
            | true =>
              rw [htrailing] at h
              obtain ⟨_, heq⟩ := h
              exact (List.cons.inj heq).1
            | false =>
              rw [htrailing] at h
              exact absurd (List.prefix_nil.mp h) (List.cons_ne_nil _ _)
          refine absurd ?_ hslash
          rw [← hrest, hrest', hc]
          exact List.mem_append_right _ List.mem_cons_self
    · exact fun h => h.trans (List.prefix_append _ _)

/-! ## What the scan reports -/

/-- A dotenv file in the root. -/
def EnvFile (project : Project) (name : Str) : Prop :=
  project.isFile name = true ∧ codePoint '/' ∉ name ∧ startsWith name ".env" = true

theorem fileName_eq {name : Str} (h : codePoint '/' ∉ name) : fileName name = name := by
  have hall : ∀ c ∈ name.reverse, decide (c ≠ codePoint '/') = true := by
    intro c hc
    rw [decide_eq_true_eq]
    rintro rfl
    exact h (List.mem_reverse.mp hc)
  rw [fileName, List.takeWhile_eq_self_iff.mpr hall, List.reverse_reverse]

theorem mem_dotenvNames {project : Project} {name : Str} :
    name ∈ dotenvNames project ↔ name ∈ project.children ∧ startsWith name ".env" = true := by
  rw [dotenvNames, List.mem_mergeSort, List.mem_filter]

/-- The files that are scanned are the dotenv files. -/
theorem mem_scanned {project : Project} {rel : Str} :
    rel ∈ (iterEnvFiles project).filter (fun rel => startsWith (fileName rel) ".env") ↔
      EnvFile project rel := by
  have hsources : (projectEnvSources.all fun rel =>
      !startsWith (fileName rel) ".env" || !rel.contains (codePoint '/')) = true := by decide +kernel
  rw [List.mem_filter, iterEnvFiles, List.mem_append, List.mem_filter, List.mem_filter, mem_dotenvNames,
    EnvFile]
  constructor
  · rintro ⟨⟨hsource, hfile⟩ | ⟨⟨hchild, hstart⟩, hfile⟩, hname⟩
    · have hplain := List.all_eq_true.mp hsources rel hsource
      rw [hname, Bool.not_true, Bool.false_or, Bool.not_eq_true', List.contains_eq_mem,
        decide_eq_false_iff_not] at hplain
      rw [fileName_eq hplain] at hname
      exact ⟨hfile, hplain, hname⟩
    · rw [Bool.and_eq_true] at hfile
      exact ⟨hfile.2, project.plain rel hchild, hstart⟩
  · rintro ⟨hfile, hplain, hstart⟩
    rw [fileName_eq hplain]
    refine ⟨?_, hstart⟩
    by_cases hsource : rel ∈ projectEnvSources
    · exact Or.inl ⟨hsource, hfile⟩
    · refine Or.inr ⟨⟨project.listed rel hfile hplain, hstart⟩, ?_⟩
      have hnot : rel ∉ projectEnvSources.filter project.isFile := fun hin =>
        hsource (List.mem_filter.mp hin).1
      rw [List.contains_eq_mem, decide_eq_false hnot, hfile]
      rfl

theorem path_of_mem {project : Project} {rel : Str} {f : DotenvFinding}
    (h : f ∈ fileFindings project rel) : f.path = rel := by
  rw [fileFindings] at h
  rcases List.mem_cons.mp h with rfl | h
  · split_ifs
    · rfl
    · rfl
  · cases hread : project.read rel with
    | none =>
      rw [hread] at h
      cases h
    | some text =>
      rw [hread] at h
      rcases List.mem_append.mp h with h | h
      · split_ifs at h
        · cases h
        · rw [List.mem_singleton.mp h]
      · split_ifs at h
        · cases h
        · rw [List.mem_singleton.mp h]

/-- A finding about the contents starts with a letter or a digit. -/
theorem contentFindings_head {rel text : Str} {risk : Bool} {f : DotenvFinding}
    (h : f ∈ contentFindings rel text risk) : ∀ c ∈ f.detail.head?, c ≠ codePoint '.' := by
  rw [contentFindings] at h
  rcases List.mem_append.mp h with h | h
  · split_ifs at h
    · cases h
    · rw [List.mem_singleton.mp h]
      intro c hc
      rw [← Option.some.inj hc]
      decide
  · split_ifs at h
    · cases h
    · rw [List.mem_singleton.mp h]
      intro c hc
      rw [List.head?_append_of_ne_nil _ (natStr_ne_nil _)] at hc
      rintro rfl
      exact absurd ((natStr_isNumber _).2 _ (List.mem_of_mem_head? hc)) (by decide)

theorem isIgnored_eq_false_iff {project : Project} {name : Str} :
    isIgnored (projectPatterns project) name = false ↔
      ∀ p ∈ projectPatterns project, ¬name <+: p := by
  rw [isIgnored, List.any_eq_false]
  exact forall₂_congr fun p _ => not_congr covers_iff

/-- The first finding of a file says whether it is covered; those about what the file holds start
with no dot. -/
theorem notCovered_mem_fileFindings {project : Project} {name : Str} (h : EnvFile project name) :
    notCovered name ∈ fileFindings project name ↔
      name ≠ lit ".env.example" ∧ ∀ p ∈ projectPatterns project, ¬name <+: p := by
  have hhead : ∃ c, c ∈ (notCovered name).detail.head? ∧ c = codePoint '.' := by
    obtain ⟨rest, hrest⟩ := List.isPrefixOf_iff_prefix.mp h.2.2
    rw [notCovered, fileName_eq h.2.1, ← hrest]
    exact ⟨_, rfl, rfl⟩
  rw [fileFindings, fileName_eq h.2.1, ← isIgnored_eq_false_iff, and_comm, List.mem_cons, or_iff_left]
  · rw [← Bool.not_eq_true', ← bne_iff_ne (b := lit ".env.example"), ← Bool.and_eq_true]
    constructor
    · intro heq
      by_contra hnot
      rw [if_neg hnot] at heq
      have hseverity : lit "critical" = lit "info" := congrArg DotenvFinding.severity heq
      exact absurd hseverity (by decide)
    · intro hrisk
      rw [if_pos hrisk]
  · intro hin
    cases hread : project.read name with
    | none =>
      rw [hread] at hin
      cases hin
    | some text =>
      rw [hread] at hin
      obtain ⟨c, hc, hdot⟩ := hhead
      exact contentFindings_head hin c hc hdot

/-- A file is reported as not covered when no pattern starts with its name. -/
theorem notCovered_mem_iff {project : Project} {name : Str} :
    notCovered name ∈ dotenvSafetyScan project ↔
      EnvFile project name ∧ name ≠ lit ".env.example" ∧
        ∀ p ∈ projectPatterns project, ¬name <+: p := by
  rw [dotenvSafetyScan, List.mem_flatMap]
  simp only [mem_scanned]
  constructor
  · rintro ⟨rel, hrel, hin⟩
    have hsame : name = rel := path_of_mem hin
    rw [← hsame] at hrel hin
    exact ⟨hrel, (notCovered_mem_fileFindings hrel).mp hin⟩
  · rintro ⟨henv, hrest⟩
    exact ⟨name, henv, (notCovered_mem_fileFindings henv).mpr hrest⟩

/-- The scan reports the dotenv files, but for the example, that no pattern names. -/
def ScanRight (project : Project) (patterns : List LiteralPattern) : Prop :=
  ∀ name, notCovered name ∈ dotenvSafetyScan project ↔
    EnvFile project name ∧ name ≠ lit ".env.example" ∧ ∀ p ∈ patterns, p.name ≠ name

/-- The scan is right exactly when, for each file, a pattern names it just when some pattern without
a leading slash starts with its name. -/
theorem not_covered_iff (project : Project) (file : IgnoreFile)
    (hfile : project.isFile ".gitignore" = true) (hread : project.read ".gitignore" = some file.text) :
    ScanRight project file.patterns ↔
      ∀ name, EnvFile project name → name ≠ lit ".env.example" →
        ((∃ p ∈ file.patterns, p.name = name) ↔
          ∃ p ∈ file.patterns, p.leading = false ∧ name <+: p.name) := by
  have hpatterns : projectPatterns project = file.patterns.map LiteralPattern.text := by
    rw [projectPatterns, if_pos hfile, hread, ← ignoredPatterns_text]
    rfl
  have hcovered : ∀ name, EnvFile project name →
      ((∀ p ∈ projectPatterns project, ¬name <+: p) ↔
        ¬∃ p ∈ file.patterns, p.leading = false ∧ name <+: p.name) := by
    intro name henv
    have hne : name ≠ [] := by
      rintro rfl
      exact absurd henv.2.2 (by decide)
    rw [hpatterns, List.forall_mem_map]
    simp only [prefix_text_iff henv.2.1 hne, not_exists, not_and]
  have hnamed : ∀ name, (∀ p ∈ file.patterns, p.name ≠ name) ↔ ¬∃ p ∈ file.patterns, p.name = name := by
    intro name
    simp only [not_exists, not_and, ne_eq]
  constructor
  · intro hright name henv hexample
    have hsame := hright name
    rw [notCovered_mem_iff, hnamed, and_congr_right_iff] at hsame
    have hboth := hsame henv
    rw [and_congr_right_iff] at hboth
    have hiff := hboth hexample
    rw [hcovered name henv, not_iff_not] at hiff
    exact hiff.symm
  · intro hiff name
    rw [notCovered_mem_iff, hnamed]
    refine and_congr_right fun henv => and_congr_right fun hexample => ?_
    rw [hcovered name henv, hiff name henv hexample]

/-! ## Examples -/

namespace Sample

/-- A pattern that is a plain name. -/
def envLocal : LiteralPattern where
  leading := false
  name := ".env.local"
  trailing := false
  nonempty := by decide
  plain := by decide
  start := by
    intro c hc
    cases hc
    decide
  ending := by
    intro c hc
    cases hc
    decide

def envLocalOnly : IgnoreFile where
  text := ".env.local\n"
  lines := [.pattern envLocal]
  reads := by decide +kernel

/-- A project with a `.env` file whose `.gitignore` names another one. -/
def envProject : Project where
  children := [".env", ".gitignore"]
  isFile := fun name => name == lit ".env" || name == lit ".gitignore"
  read := fun name => if name = lit ".gitignore" then some ".env.local\n" else some []
  listed := by
    intro name hname _
    rw [Bool.or_eq_true, beq_iff_eq, beq_iff_eq] at hname
    rcases hname with rfl | rfl
    · exact List.mem_cons_self
    · exact List.mem_cons_of_mem _ List.mem_cons_self
  plain := by
    rw [List.forall_mem_cons, List.forall_mem_singleton]
    exact ⟨by decide, by decide⟩

theorem envProject_gitignore : envProject.isFile ".gitignore" = true ∧
    envProject.read ".gitignore" = some envLocalOnly.text := ⟨by decide, rfl⟩

end Sample

theorem not_covered_iff_local : ScanRight Sample.envProject Sample.envLocalOnly.patterns ↔
    ∀ name, EnvFile Sample.envProject name → name ≠ lit ".env.example" →
      ((∃ p ∈ Sample.envLocalOnly.patterns, p.name = name) ↔
        ∃ p ∈ Sample.envLocalOnly.patterns, p.leading = false ∧ name <+: p.name) :=
  not_covered_iff Sample.envProject Sample.envLocalOnly Sample.envProject_gitignore.1
    Sample.envProject_gitignore.2

/-- The pattern of a longer name passes for one of `.env`. -/
theorem longer_name_covers : EnvFile Sample.envProject ".env" ∧
    (∀ p ∈ Sample.envLocalOnly.patterns, p.name ≠ lit ".env") ∧
    notCovered ".env" ∉ dotenvSafetyScan Sample.envProject := by
  refine ⟨⟨by decide, by decide, by decide⟩, ?_, fun hin => ?_⟩
  · intro p hp
    have hsame : p = Sample.envLocal := List.mem_singleton.mp hp
    rw [hsame]
    decide
  · have hnot := (notCovered_mem_iff.mp hin).2.2 (lit ".env.local")
    have hpatterns : projectPatterns Sample.envProject = [lit ".env.local"] := by decide +kernel
    rw [hpatterns] at hnot
    exact hnot List.mem_cons_self ⟨lit ".local", rfl⟩

end DevRepro.Envvars
