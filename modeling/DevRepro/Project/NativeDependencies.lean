import DevRepro.Lib.Lines
import DevRepro.Project.TomlReader
import DevRepro.Python.JsonDump
import DevRepro.Python.Words

/-!
# Native dependencies

`native_dependencies` of `project/frameworks.py`.  One pattern is searched in the text of
`requirements.txt` and of `pyproject.toml`: `searchName_iff` says what it finds in a text of lines,
and `mem_nativeDependencies` what the function reports.
-/

namespace DevRepro.Project

open DevRepro.Python DevRepro.Lib

/-! ## The table -/

/-- `NATIVE_BUILD_DEPENDENCIES`: a package, what the machine needs, and why it is not obvious. -/
def nativeBuildDependencies : List (Str × Str × Str) :=
  [("psycopg2", "a C compiler and libpq (pg_config on PATH)",
      lit ("`psycopg2-binary` is one character away and needs neither. A " ++
        "requirements file gives no hint which one you are looking at.")),
    ("mysqlclient", "a C compiler and the MySQL/MariaDB client library",
      lit ("The pure-Python alternatives are named nothing like it, so nobody " ++
        "notices this is the compiling one.")),
    ("sharp", "prebuilt binaries for this platform, or libvips and a compiler",
      lit ("Its prebuilt binaries carry a glibc floor, so an older distribution " ++
        "falls back to compiling libvips -- which is where a five-second " ++
        "install becomes a ten-minute one, or fails.")),
    ("node-gyp", "a C++ toolchain and a Python interpreter",
      lit ("It is almost never a direct dependency: it arrives underneath " ++
        "something else, and the failure names node-gyp rather than whatever " ++ "pulled it in.")),
    ("canvas", "Cairo, Pango and a C++ toolchain",
      "Prebuilt binaries cover common platforms only; anything else compiles."),
    ("better-sqlite3", "a C++ toolchain when no prebuilt binary matches",
      lit ("Prebuilds are per Node ABI, so a Node upgrade can turn a working " ++
        "install into a compiling one."))]

def nativeNames : List Str := nativeBuildDependencies.map Prod.fst

/-! ## The pattern -/

/-- `[<>=~!\[;]` -/
def endsName (c : CodePoint) : Bool := decide (c ∈ lit "<>=~![;")

/-- Behind the name: `\s*(?:[<>=~!\[;]|$)`, where `$` is the end of any line. -/
def nameEnds (rest : Str) : Bool :=
  (rest.takeWhile isSpace).contains (codePoint '\n') || (rest.dropWhile isSpace).head?.all endsName

/-- The pattern at a place where `^` matches; `\s*` takes newlines as well. -/
def matchesName (name s : Str) : Bool :=
  startsWith (s.dropWhile isSpace) name && nameEnds ((s.dropWhile isSpace).drop name.length)

/-- `re.search(rf"^\s*{re.escape(name)}\s*(?:[<>=~!\[;]|$)", text, re.MULTILINE)` -/
def searchName (name text : Str) : Bool :=
  (text :: startsBehind (codePoint '\n') text).any (matchesName name)

/-! ## The function -/

/-- A section of `package.json`, unless it cannot be merged: `package.get(key) or {}`. -/
def packageSection (package : List (Str × Json)) (key : Str) : Option (List (Str × Json)) :=
  match dictGet? package key with
  | none => some []
  | some (.obj fields) => some fields
  | some value => if value.truthy then none else some []

/-- One package that was not seen yet. -/
def noteNative (source name : Str) (found : List (Str × Str × Str × Str)) : List (Str × Str × Str × Str) :=
  match nativeBuildDependencies.find? fun entry => entry.1 = name with
  | none => found
  | some (_, needs, why) =>
    if name ∈ found.map Prod.fst then found else found ++ [(name, source, needs, why)]

/-- One loop over names. -/
def noteNames (source : Str) (taken : Str → Bool) (names : List Str)
    (found : List (Str × Str × Str × Str)) : List (Str × Str × Str × Str) :=
  names.foldl (fun found name => if taken name then noteNative source name found else found) found

/-- The loop over the table for one file, if it is there. -/
def noteFile (source : Str) (text : Option Str) (found : List (Str × Str × Str × Str)) :
    List (Str × Str × Str × Str) :=
  match text with
  | none => found
  | some text => noteNames source (fun name => searchName name text) nativeNames found

/-- `native_dependencies`, unless it raises: what `_read_json` makes of `package.json`, and the texts
of the other two files. -/
def nativeDependencies (package : List (Str × Json)) (requirements pyproject : Option Str) :
    Option (List (Str × Str × Str × Str)) := do
  let dependencies ← packageSection package "dependencies"
  let devDependencies ← packageSection package "devDependencies"
  let declared := ((dependencies ++ devDependencies).map Prod.fst).dedup.mergeSort strLe
  let found := noteNames "package.json" (fun _ => true) declared []
  let found := noteFile "requirements.txt" requirements found
  return noteFile "pyproject.toml" pyproject found

/-! ## What is reported -/

theorem map_fst_noteNative (source name : Str) (found : List (Str × Str × Str × Str)) :
    (noteNative source name found).map Prod.fst =
      if name ∈ nativeNames ∧ name ∉ found.map Prod.fst then found.map Prod.fst ++ [name]
      else found.map Prod.fst := by
  have hfind : (nativeBuildDependencies.find? fun entry => entry.1 = name).isSome = true ↔
      name ∈ nativeNames := by
    simp [nativeNames]
  rw [noteNative]
  cases h : nativeBuildDependencies.find? fun entry => entry.1 = name with
  | none =>
    rw [h] at hfind
    rw [if_neg fun hname => by simpa using hfind.mpr hname.1]
  | some entry =>
    rw [h] at hfind
    have hname : name ∈ nativeNames := hfind.mp rfl
    by_cases hseen : name ∈ found.map Prod.fst
    · rw [if_neg fun h => h.2 hseen]
      exact congrArg (List.map Prod.fst) (if_pos hseen)
    · rw [if_pos ⟨hname, hseen⟩]
      refine (congrArg (List.map Prod.fst) (if_neg hseen)).trans ?_
      rw [List.map_append]
      rfl

/-- A loop adds the packages of the table that it takes, each once. -/
theorem noteNames_spec (source : Str) (taken : Str → Bool) (names : List Str)
    (found : List (Str × Str × Str × Str)) (hnodup : (found.map Prod.fst).Nodup) :
    ((noteNames source taken names found).map Prod.fst).Nodup ∧
      ∀ n, n ∈ (noteNames source taken names found).map Prod.fst ↔
        n ∈ found.map Prod.fst ∨ n ∈ names ∧ taken n = true ∧ n ∈ nativeNames := by
  induction names generalizing found with
  | nil => exact ⟨hnodup, by simp [noteNames]⟩
  | cons name names ih =>
    rw [noteNames, List.foldl_cons]
    by_cases htaken : taken name = true
    · rw [if_pos htaken]
      have hkeys := map_fst_noteNative source name found
      have hnext : ((noteNative source name found).map Prod.fst).Nodup := by
        rw [hkeys]
        split_ifs with hnew
        · exact hnodup.append (List.nodup_singleton name) (List.disjoint_singleton.mpr hnew.2)
        · exact hnodup
      obtain ⟨hrest, hmem⟩ := ih _ hnext
      refine ⟨hrest, fun n => (hmem n).trans ?_⟩
      rw [hkeys, List.mem_cons]
      split_ifs with hnew
      · rw [List.mem_append, List.mem_singleton]
        grind
      · grind
    · rw [if_neg htaken]
      obtain ⟨hrest, hmem⟩ := ih _ hnodup
      refine ⟨hrest, fun n => (hmem n).trans ?_⟩
      rw [List.mem_cons]
      grind

theorem noteFile_spec (source : Str) (text : Option Str) (found : List (Str × Str × Str × Str))
    (hnodup : (found.map Prod.fst).Nodup) :
    ((noteFile source text found).map Prod.fst).Nodup ∧
      ∀ n, n ∈ (noteFile source text found).map Prod.fst ↔
        n ∈ found.map Prod.fst ∨ n ∈ nativeNames ∧ ∃ t ∈ text, searchName n t = true := by
  cases text with
  | none => exact ⟨hnodup, by simp [noteFile]⟩
  | some text =>
    obtain ⟨hrest, hmem⟩ := noteNames_spec source (fun name => searchName name text) nativeNames found hnodup
    refine ⟨hrest, fun n => (hmem n).trans ?_⟩
    simp only [Option.mem_def, Option.some.injEq, exists_eq_left']
    grind

/-- A package stands in a section of `package.json`. -/
def PackageDeclares (package : List (Str × Json)) (n : Str) : Prop :=
  ∃ key ∈ [lit "dependencies", lit "devDependencies"], ∃ fields,
    dictGet? package key = some (.obj fields) ∧ n ∈ fields.map Prod.fst

/-- Every section of `package.json` is an object, or counts as none. -/
def Mergeable (package : List (Str × Json)) : Prop :=
  ∀ key ∈ [lit "dependencies", lit "devDependencies"], ∀ value, dictGet? package key = some value →
    (∃ fields, value = .obj fields) ∨ value.truthy = false

theorem packageSection_spec {package : List (Str × Json)} {key : Str} :
    ((packageSection package key).isSome = true ↔ ∀ value, dictGet? package key = some value →
      (∃ fields, value = .obj fields) ∨ value.truthy = false) ∧
    ∀ fields, packageSection package key = some fields → ∀ n, n ∈ fields.map Prod.fst ↔
      ∃ given, dictGet? package key = some (.obj given) ∧ n ∈ given.map Prod.fst := by
  rw [packageSection]
  cases hget : dictGet? package key with
  | none => simp
  | some value =>
    cases value with
    | obj fields => simp
    | null => simp
    | bool b => simp
    | int k => simp
    | float x => simp
    | str s => simp
    | arr elems => simp

theorem nativeDependencies_isSome {package : List (Str × Json)} {requirements pyproject : Option Str} :
    (nativeDependencies package requirements pyproject).isSome = true ↔ Mergeable package := by
  have hsections : Mergeable package ↔ (packageSection package "dependencies").isSome = true ∧
      (packageSection package "devDependencies").isSome = true := by
    rw [Mergeable, packageSection_spec.1, packageSection_spec.1]
    simp only [List.forall_mem_cons, List.not_mem_nil, false_imp_iff, implies_true, and_true]
  rw [hsections, nativeDependencies]
  cases packageSection package "dependencies" with
  | none => simp
  | some dependencies =>
    cases packageSection package "devDependencies" with
    | none => simp
    | some devDependencies => simp

/-- What is reported: the packages of the table that stand in `package.json` or that the pattern
finds in a text, each once. -/
theorem nativeDependencies_spec {package : List (Str × Json)} {requirements pyproject : Option Str}
    {found : List (Str × Str × Str × Str)} (h : nativeDependencies package requirements pyproject = some found) :
    (found.map Prod.fst).Nodup ∧ ∀ n, n ∈ found.map Prod.fst ↔ n ∈ nativeNames ∧
      (PackageDeclares package n ∨ (∃ t ∈ requirements, searchName n t = true) ∨
        ∃ t ∈ pyproject, searchName n t = true) := by
  rw [nativeDependencies] at h
  cases hdep : packageSection package "dependencies" with
  | none =>
    rw [hdep] at h
    cases h
  | some dependencies =>
    cases hdev : packageSection package "devDependencies" with
    | none =>
      rw [hdep, hdev] at h
      cases h
    | some devDependencies =>
      rw [hdep, hdev] at h
      obtain rfl := Option.some.inj h
      obtain ⟨hfirst, hmemfirst⟩ := noteNames_spec "package.json" (fun _ => true)
        (((dependencies ++ devDependencies).map Prod.fst).dedup.mergeSort strLe) [] List.nodup_nil
      obtain ⟨hsecond, hmemsecond⟩ := noteFile_spec "requirements.txt" requirements _ hfirst
      obtain ⟨hthird, hmemthird⟩ := noteFile_spec "pyproject.toml" pyproject _ hsecond
      refine ⟨hthird, fun n => (hmemthird n).trans ?_⟩
      have hpackage : PackageDeclares package n ↔ n ∈ (dependencies ++ devDependencies).map Prod.fst := by
        rw [List.map_append, List.mem_append, packageSection_spec.2 _ hdep, packageSection_spec.2 _ hdev,
          PackageDeclares, List.exists_mem_cons_iff, List.exists_mem_cons_iff]
        simp
      rw [hmemsecond, hmemfirst, hpackage, List.mem_mergeSort, List.mem_dedup]
      simp only [List.map_nil, List.not_mem_nil, false_or, true_and]
      rw [and_or_left, and_or_left, or_assoc]
      exact or_congr_left and_comm

/-! ## Names -/

theorem endsName_iff {c : CodePoint} : endsName c = true ↔ c ∈ lit "<>=~![;" := decide_eq_true_iff

/-- A character of a bare key is neither a blank nor an operator. -/
theorem isBareKeyChar_plain {c : CodePoint} (h : isBareKeyChar c = true) :
    isSpace c = false ∧ endsName c = false := by
  have hval : (0x30 ≤ c.val ∧ c.val ≤ 0x39) ∨ (0x41 ≤ c.val ∧ c.val ≤ 0x5A) ∨
      (0x61 ≤ c.val ∧ c.val ≤ 0x7A) ∨ c.val = 0x2D ∨ c.val = 0x5F := by
    simp only [isBareKeyChar, Bool.or_eq_true, Bool.and_eq_true, decide_eq_true_eq, beq_iff_eq] at h
    rcases h with (((h | h) | h) | rfl) | rfl
    · exact Or.inl h
    · exact Or.inr (Or.inl h)
    · exact Or.inr (Or.inr (Or.inl h))
    · exact Or.inr (Or.inr (Or.inr (Or.inl rfl)))
    · exact Or.inr (Or.inr (Or.inr (Or.inr rfl)))
  constructor
  · rw [← Bool.not_eq_true]
    intro hspace
    simp only [isSpace, Bool.or_eq_true, Bool.and_eq_true, decide_eq_true_eq, beq_iff_eq] at hspace
    omega
  · rw [← Bool.not_eq_true, endsName_iff]
    intro hend
    have hvals : c.val ∈ (lit "<>=~![;").map Fin.val := List.mem_map_of_mem hend
    have hlist : (lit "<>=~![;").map Fin.val = [0x3C, 0x3E, 0x3D, 0x7E, 0x21, 0x5B, 0x3B] := by decide
    rw [hlist] at hvals
    simp only [List.mem_cons, List.not_mem_nil, or_false] at hvals
    omega

theorem nativeNames_bare : ∀ n ∈ nativeNames, BareKey n := by
  have htable : nativeNames.all (fun n => !n.isEmpty && n.all isBareKeyChar) = true := by decide +kernel
  intro n hn
  have hname := List.all_eq_true.mp htable n hn
  rw [Bool.and_eq_true, Bool.not_eq_true', List.isEmpty_eq_false_iff] at hname
  exact ⟨hname.1, List.all_eq_true.mp hname.2⟩

theorem not_mem_bare {n : Str} (hn : BareKey n) {d : CodePoint} (hd : isBareKeyChar d = false) : d ∉ n := by
  intro hmem
  rw [hn.2 d hmem] at hd
  cases hd

/-! ## The pattern at a place -/

theorem matchesName_blanks {w : Str} (hw : ∀ c ∈ w, isSpace c = true) (n s : Str) :
    matchesName n (w ++ s) = matchesName n s := by
  rw [matchesName, matchesName, List.dropWhile_append_of_pos hw]

/-- Where the text does not begin with the name, the pattern does not match. -/
theorem matchesName_of_not_start {n s : Str} {c : CodePoint} (hc : isSpace c = false)
    (h : startsWith (c :: s) n = false) : matchesName n (c :: s) = false := by
  rw [matchesName, List.dropWhile_cons_of_neg (by rw [hc]; decide), h, Bool.false_and]

theorem startsWith_append_stop {n : Str} {d : CodePoint} (hd : d ∉ n) (s t : Str) :
    startsWith (s ++ d :: t) n = startsWith s n := by
  rw [Bool.eq_iff_iff, startsWith, startsWith, List.isPrefixOf_iff_prefix, List.isPrefixOf_iff_prefix]
  refine ⟨fun h => ?_, fun h => h.trans (List.prefix_append _ _)⟩
  refine List.prefix_of_prefix_length_le h (List.prefix_append _ _) ?_
  by_contra hlength
  -- a longer name would hold the character behind `s`
  have hstart : s ++ [d] <+: n := by
    have hsplit : s ++ [d] <+: s ++ d :: t := ⟨t, by simp⟩
    refine List.prefix_of_prefix_length_le hsplit h ?_
    rw [List.length_append, List.length_singleton]
    omega
  exact hd (hstart.subset (List.mem_append_right _ (List.mem_singleton_self d)))

/-- What is behind a character that is not in the name does not matter for the name. -/
theorem matchesName_append_stop {n : Str} {d : CodePoint} (hd : d ∉ n) {s : Str}
    (hs : isSpace d = false ∨ s.dropWhile isSpace ≠ []) (t : Str) :
    matchesName n (s ++ d :: t) = (startsWith (s.dropWhile isSpace) n &&
      nameEnds ((s.dropWhile isSpace).drop n.length ++ d :: t)) := by
  have hdrop : (s ++ d :: t).dropWhile isSpace = s.dropWhile isSpace ++ d :: t := by
    rw [List.dropWhile_append]
    cases hrest : s.dropWhile isSpace with
    | nil =>
      have hspace : isSpace d = false := hs.resolve_right fun h => h hrest
      rw [List.isEmpty_nil, if_pos rfl, List.dropWhile_cons_of_neg (by rw [hspace]; decide)]
      rfl
    | cons c rest => rfl
  rw [matchesName, hdrop, startsWith_append_stop hd]
  cases hstart : startsWith (s.dropWhile isSpace) n with
  | false => rfl
  | true =>
    rw [startsWith, List.isPrefixOf_iff_prefix] at hstart
    rw [List.drop_append_of_le_length hstart.length_le]

theorem nameEnds_line {rest : Str} (h : codePoint '\n' ∉ rest) :
    nameEnds rest = (rest.dropWhile isSpace).head?.all endsName := by
  have hrun : (rest.takeWhile isSpace).contains (codePoint '\n') = false := by
    rw [List.contains_eq_mem, decide_eq_false_iff_not]
    exact fun hmem => h (List.takeWhile_subset _ hmem)
  rw [nameEnds, hrun, Bool.false_or]

/-- The end of a line ends a name like the end of the text. -/
theorem nameEnds_newline {rest : Str} (h : codePoint '\n' ∉ rest) (t : Str) :
    nameEnds (rest ++ codePoint '\n' :: t) = nameEnds rest := by
  have hspace : isSpace (codePoint '\n') = true := by decide
  rw [nameEnds_line h, nameEnds, List.takeWhile_append, List.dropWhile_append]
  cases hrest : rest.dropWhile isSpace with
  | nil =>
    have hall : rest.takeWhile isSpace = rest := by
      have happend := List.takeWhile_append_dropWhile (p := isSpace) (l := rest)
      rw [hrest, List.append_nil] at happend
      exact happend
    rw [hall, if_pos rfl, List.takeWhile_cons_of_pos hspace]
    simp
  | cons c tail =>
    have hshort : (rest.takeWhile isSpace).length ≠ rest.length := by
      intro hlength
      have happend := congrArg List.length (List.takeWhile_append_dropWhile (p := isSpace) (l := rest))
      rw [hrest, List.length_append, List.length_cons] at happend
      omega
    have hrun : (rest.takeWhile isSpace).contains (codePoint '\n') = false := by
      rw [List.contains_eq_mem, decide_eq_false_iff_not]
      exact fun hmem => h (List.takeWhile_subset _ hmem)
    rw [if_neg hshort, hrun]
    rfl

/-- What is behind a character that is no blank does not matter for the end of a name. -/
theorem nameEnds_stop {d : CodePoint} (hd : isSpace d = false) (rest t : Str) :
    nameEnds (rest ++ d :: t) = nameEnds (rest ++ [d]) := by
  have htake : ∀ t, (rest ++ d :: t).takeWhile isSpace = rest.takeWhile isSpace := by
    intro t
    rw [List.takeWhile_append, List.takeWhile_cons_of_neg (by rw [hd]; decide), List.append_nil]
    split_ifs with hlength
    · exact (( List.takeWhile_prefix isSpace).eq_of_length hlength).symm
    · rfl
  have hhead : ∀ t, ((rest ++ d :: t).dropWhile isSpace).head? = some ((rest.dropWhile isSpace).headD d) := by
    intro t
    rw [List.dropWhile_append]
    cases rest.dropWhile isSpace with
    | nil =>
      rw [List.isEmpty_nil, if_pos rfl, List.dropWhile_cons_of_neg (by rw [hd]; decide)]
      rfl
    | cons c tail => rfl
  rw [nameEnds, nameEnds, htake, htake, hhead, hhead]

/-! ## The search in a text -/

/-- The pattern matches at the start of a line, behind a newline of the text. -/
def Seen (n s : Str) : Prop := HoldsBehind (codePoint '\n') (fun u => matchesName n u = true) s

theorem seen_nil {n : Str} : ¬Seen n [] := not_holdsBehind_nil

theorem seen_newline {n s : Str} : Seen n (codePoint '\n' :: s) ↔ matchesName n s = true ∨ Seen n s :=
  holdsBehind_sep

theorem seen_cons {c : CodePoint} (hc : c ≠ codePoint '\n') {n s : Str} : Seen n (c :: s) ↔ Seen n s :=
  holdsBehind_cons hc

theorem seen_append_line {l : Str} (hl : codePoint '\n' ∉ l) {n s : Str} : Seen n (l ++ s) ↔ Seen n s :=
  holdsBehind_append_line hl

theorem searchName_iff_seen {n text : Str} : searchName n text = true ↔ Seen n (codePoint '\n' :: text) := by
  rw [seen_newline, searchName, List.any_cons, Bool.or_eq_true, List.any_eq_true]
  rfl

theorem matchesName_nil {n : Str} (hn : BareKey n) : matchesName n [] = false := by
  obtain ⟨c, rest, rfl⟩ := List.exists_cons_of_ne_nil hn.1
  rfl

theorem newline_not_bare : isBareKeyChar (codePoint '\n') = false := by decide

/-- A line that is not blank matches for what is in it; a blank one leaves it to the next. -/
theorem matchesName_newline {n : Str} (hn : BareKey n) {l : Str} (hl : codePoint '\n' ∉ l) (t : Str) :
    matchesName n (l ++ codePoint '\n' :: t) = true ↔
      matchesName n l = true ∨ l.dropWhile isSpace = [] ∧ matchesName n t = true := by
  by_cases hblank : l.dropWhile isSpace = []
  · have hall : ∀ c ∈ l ++ [codePoint '\n'], isSpace c = true := by
      intro c hc
      rcases List.mem_append.mp hc with hc | hc
      · exact List.dropWhile_eq_nil_iff.mp hblank c hc
      · rw [List.mem_singleton.mp hc]
        decide
    have hline : matchesName n l = false := by
      rw [← matchesName_nil hn, ← matchesName_blanks (List.dropWhile_eq_nil_iff.mp hblank) n [], List.append_nil]
    have hsplit : l ++ codePoint '\n' :: t = (l ++ [codePoint '\n']) ++ t := by simp
    rw [hsplit, matchesName_blanks hall, hline]
    simp [hblank]
  · have hdrop : codePoint '\n' ∉ (l.dropWhile isSpace).drop n.length := fun hmem =>
      hl (List.dropWhile_subset _ (List.drop_subset _ _ hmem))
    rw [matchesName_append_stop (not_mem_bare hn newline_not_bare) (Or.inr hblank), nameEnds_newline hdrop,
      ← matchesName]
    simp [hblank]

theorem matchesName_lineWise {n : Str} (hn : BareKey n) :
    LineWise (codePoint '\n') fun u => matchesName n u = true where
  stays hl hmatch := (matchesName_newline hn hl _).mpr (Or.inl hmatch)
  comes hl hmatch := ((matchesName_newline hn hl _).mp hmatch).imp_right And.right

theorem newline_join {texts : List Str} (h : texts ≠ []) :
    codePoint '\n' :: join "\n" texts = texts.flatMap fun text => codePoint '\n' :: text := by
  induction texts with
  | nil => exact absurd rfl h
  | cons text texts ih =>
    cases texts with
    | nil => simp [join]
    | cons next texts =>
      rw [join_cons_cons, List.flatMap_cons, ← ih (List.cons_ne_nil _ _), List.append_assoc]
      rfl

/-- The pattern is found in a text when a line of it matches. -/
theorem searchName_iff {n : Str} (hn : BareKey n) {text : Str} :
    searchName n text = true ↔ ∃ line ∈ text.splitOn (codePoint '\n'), matchesName n line = true := by
  have htext : join "\n" (text.splitOn (codePoint '\n')) = text := by
    rw [join_eq_intercalate]
    exact List.intercalate_splitOn (codePoint '\n')
  have hne : text.splitOn (codePoint '\n') ≠ [] := List.splitOn_ne_nil _ _
  have hlines : ∀ l ∈ text.splitOn (codePoint '\n'), codePoint '\n' ∉ l := fun l hl => not_mem_of_mem_splitOn hl
  have hseen := (matchesName_lineWise hn).holdsBehind_lines hlines
  rw [← newline_join hne, htext] at hseen
  exact searchName_iff_seen.trans hseen

/-! ## Requirement lines -/

def isRequirementChar (c : CodePoint) : Bool := isBareKeyChar c || c == codePoint '.'

/-- The name at the start of a requirement. -/
def requirementName (line : Str) : Str := (line.dropWhile isSpace).takeWhile isRequirementChar

/-- Nothing stands behind the name, or an operator, extras or a marker. -/
def Operated (line : Str) : Prop :=
  (((line.dropWhile isSpace).dropWhile isRequirementChar).dropWhile isSpace).head?.all endsName = true

theorem isRequirementChar_plain {c : CodePoint} (h : isSpace c = true ∨ endsName c = true) :
    isRequirementChar c = false := by
  rw [isRequirementChar, Bool.or_eq_false_iff]
  constructor
  · rw [← Bool.not_eq_true]
    intro hbare
    obtain ⟨hspace, hend⟩ := isBareKeyChar_plain hbare
    rw [hspace, hend] at h
    exact absurd h (by decide)
  · rw [beq_eq_false_iff_ne]
    rintro rfl
    exact absurd h (by decide)

theorem matchesName_line_iff {n : Str} (hn : BareKey n) {line : Str} (hline : codePoint '\n' ∉ line) :
    matchesName n line = true ↔ requirementName line = n ∧ Operated line := by
  have hchars : ∀ c ∈ n, isRequirementChar c = true := fun c hc => by
    rw [isRequirementChar, hn.2 c hc, Bool.true_or]
  rw [matchesName, requirementName, Operated, Bool.and_eq_true, startsWith, List.isPrefixOf_iff_prefix]
  generalize hword : line.dropWhile isSpace = word
  have hnewline : codePoint '\n' ∉ word := fun hmem => hline (List.dropWhile_subset _ (hword ▸ hmem))
  constructor
  · rintro ⟨⟨rest, rfl⟩, hends⟩
    rw [List.drop_left, nameEnds_line fun hmem => hnewline (List.mem_append_right _ hmem)] at hends
    have hstop : rest.takeWhile isRequirementChar = [] ∧ rest.dropWhile isRequirementChar = rest := by
      cases rest with
      | nil => exact ⟨rfl, rfl⟩
      | cons c rest =>
        have hc : isRequirementChar c = false := by
          refine isRequirementChar_plain ?_
          by_cases hspace : isSpace c = true
          · exact Or.inl hspace
          · rw [List.dropWhile_cons_of_neg hspace] at hends
            exact Or.inr (by simpa using hends)
        have hneg : ¬isRequirementChar c = true := by rw [hc]; decide
        exact ⟨List.takeWhile_cons_of_neg hneg, List.dropWhile_cons_of_neg hneg⟩
    rw [List.takeWhile_append_of_pos hchars, List.dropWhile_append_of_pos hchars, hstop.1, hstop.2]
    exact ⟨List.append_nil n, hends⟩
  · rintro ⟨hname, hends⟩
    have hsplit : n ++ word.dropWhile isRequirementChar = word := by
      rw [← hname]
      exact List.takeWhile_append_dropWhile
    refine ⟨⟨_, hsplit⟩, ?_⟩
    have hdrop : word.drop n.length = word.dropWhile isRequirementChar := by
      conv_lhs => rw [← hsplit]
      exact List.drop_left
    rw [hdrop, nameEnds_line fun hmem => hnewline (List.dropWhile_subset _ hmem)]
    exact hends

/-- In a requirements file the packages are found whose line has an operator, extras, a marker or
nothing behind the name. -/
theorem searchName_requirements {n : Str} (hn : BareKey n) {text : Str} :
    searchName n text = true ↔
      ∃ line ∈ text.splitOn (codePoint '\n'), requirementName line = n ∧ Operated line := by
  rw [searchName_iff hn]
  refine exists_congr fun line => and_congr_right fun hline => ?_
  exact matchesName_line_iff hn (not_mem_of_mem_splitOn hline)

end DevRepro.Project
