import DevRepro.Python.Words

/-!
# Paths of a platform

`split_path`, `parent_dir` and `normalize_path` of `platforms/base.py`, with what they use of
`posixpath` and `ntpath`.  The platform is an argument, and not that of the machine the
program runs on.
-/

namespace DevRepro.Platforms

open DevRepro.Python

/-- `platform == "windows"` -/
def isWindows (platform : Str) : Bool := decide (platform = "windows")

def pathSeparator (platform : Str) : CodePoint :=
  if isWindows platform then codePoint ';' else codePoint ':'

/-- `split_path`. -/
def splitPath (raw platform : Str) : List Str :=
  (raw.splitOn (pathSeparator platform)).filter fun p => decide (strip p ≠ [])

/-! ## Components -/

/-- One step of the loop of `normpath`; the components kept so far, the last one first. -/
def pushComponent (rooted : Bool) (kept : List Str) (comp : Str) : List Str :=
  if comp = [] ∨ comp = "." then kept
  else if comp ≠ ".." then comp :: kept
  else
    match kept with
    | [] => if rooted then [] else [comp]
    | last :: rest => if last = ".." then comp :: kept else rest

/-- The components that `normpath` keeps. -/
def components (rooted : Bool) (comps : List Str) : List Str :=
  (comps.foldl (pushComponent rooted) []).reverse

/-! ## `posixpath` -/

def posixSep : CodePoint := codePoint '/'

/-- `splitroot`: one slash, or exactly two. -/
def posixRoot (path : Str) : Str :=
  match path.takeWhile fun c => c = posixSep with
  | [] => []
  | [_, _] => "//"
  | _ => "/"

/-- `posixpath.normpath`. -/
def posixNormpath (path : Str) : Str :=
  let root := posixRoot path
  let text := root ++ join "/" (components (root ≠ []) ((path.drop root.length).splitOn posixSep))
  if text = [] then "." else text

/-- `posixpath.dirname`. -/
def posixDirname (path : Str) : Str :=
  let head := stripEnd (fun c => c ≠ posixSep) path
  if head.all fun c => c = posixSep then head else stripEnd (fun c => c = posixSep) head

/-! ## `ntpath` -/

def ntSep : CodePoint := codePoint '\\'

/-- `path.replace("/", "\\")` -/
def backslashed (path : Str) : Str := path.map fun c => if c = posixSep then ntSep else c

/-- `s.find(c, start)`. -/
def findFrom (c : CodePoint) (start : Nat) (s : Str) : Option Nat :=
  ((s.drop start).findIdx? fun d => d = c).map (start + ·)

/-- The marker of a server's share, in any case. -/
def isUncMarker (s : Str) : Bool :=
  decide (s.length = 8) && startsWith s "\\\\?\\" && decide (s.drop 7 = "\\") &&
    decide (s[4]? ∈ ["U", "u"].map fun c : Str => c.head?) &&
    decide (s[5]? ∈ ["N", "n"].map fun c : Str => c.head?) &&
    decide (s[6]? ∈ ["C", "c"].map fun c : Str => c.head?)

/-- `ntpath.splitroot`: the drive, the root and the rest. -/
def ntSplitRoot (path : Str) : Str × Str × Str :=
  let slashed := backslashed path
  if slashed[0]? = some ntSep then
    if slashed[1]? = some ntSep then
      let start := if isUncMarker (slashed.take 8) then 8 else 2
      match findFrom ntSep start slashed with
      | none => (path, [], [])
      | some index =>
        match findFrom ntSep (index + 1) slashed with
        | none => (path, [], [])
        | some share => (path.take share, (path.drop share).take 1, path.drop (share + 1))
    else ([], path.take 1, path.drop 1)
  else if slashed[1]? = some (codePoint ':') then
    if slashed[2]? = some ntSep then (path.take 2, (path.drop 2).take 1, path.drop 3)
    else (path.take 2, [], path.drop 2)
  else ([], [], path)

/-- `ntpath.normpath`. -/
def ntNormpath (path : Str) : Str :=
  let (drive, root, rest) := ntSplitRoot (backslashed path)
  let comps := components (root ≠ []) (rest.splitOn ntSep)
  if drive ++ root = [] ∧ comps = [] then "." else drive ++ root ++ join "\\" comps

def isNtSep (c : CodePoint) : Bool := decide (c = ntSep) || decide (c = posixSep)

/-- `ntpath.dirname`. -/
def ntDirname (path : Str) : Str :=
  let (drive, root, rest) := ntSplitRoot path
  drive ++ root ++ stripEnd isNtSep (stripEnd (fun c => !isNtSep c) rest)

/-! ## By platform -/

/-- `module.sep` -/
def moduleSep (platform : Str) : CodePoint := if isWindows platform then ntSep else posixSep

/-- `module.normpath` -/
def normpath (platform path : Str) : Str :=
  if isWindows platform then ntNormpath path else posixNormpath path

/-- `module.normcase`, given `str.lower`. -/
def normcase (lower : Str → Str) (platform path : Str) : Str :=
  if isWindows platform then lower (backslashed path) else path

/-- `normalize_path`. -/
def normalizePath (lower : Str → Str) (entry platform : Str) : Str :=
  normcase lower platform (normpath platform entry)

/-- `parent_dir`. -/
def parentDir (platform path : Str) : Str :=
  if isWindows platform then ntDirname path else posixDirname path

/-! ## Splitting -/

/-- An entry of a PATH is not blank and has no separator in it. -/
theorem mem_splitPath {raw platform entry : Str} (h : entry ∈ splitPath raw platform) :
    strip entry ≠ [] ∧ pathSeparator platform ∉ entry := by
  rw [splitPath, List.mem_filter, decide_eq_true_eq] at h
  exact ⟨h.2, not_mem_of_mem_splitOn h.1⟩

/-- Such entries are what a PATH made of them is split into. -/
theorem splitPath_join {platform : Str} {entries : List Str}
    (h : ∀ entry ∈ entries, strip entry ≠ [] ∧ pathSeparator platform ∉ entry) :
    splitPath (join [pathSeparator platform] entries) platform = entries := by
  cases entries with
  | nil => rfl
  | cons entry rest =>
    rw [splitPath, join_eq_intercalate,
      List.splitOn_intercalate _ (fun e he => (h e he).2) (List.cons_ne_nil entry rest)]
    exact List.filter_eq_self.mpr fun e he => decide_eq_true (h e he).1

end DevRepro.Platforms
