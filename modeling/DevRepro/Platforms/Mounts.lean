import DevRepro.Lib.MapM
import DevRepro.Platforms.Paths
import DevRepro.Python.Digits
import DevRepro.Python.Words

/-!
# Mount tables

`platforms/mounts.py`: the reader of `/proc/mounts` and the verdict on a path.  A `Mount` is an
entry of a mount table as the file shows it, with its blanks and backslashes written in octal,
and `parseProcMounts_procMounts` says what the reader makes of a table.
-/

namespace DevRepro.Platforms

open DevRepro.Python DevRepro.Lib

/-! ## The reader -/

/-- `\S+` at the start of a text, and what is behind it. -/
def wordAt (s : Str) : Option (Str × Str) :=
  let word := s.takeWhile fun c => !isSpace c
  if word = [] then none else some (word, s.dropWhile fun c => !isSpace c)

/-- What is behind `\s+` at the start of a text. -/
def behindBlanks (s : Str) : Option Str :=
  if s.takeWhile isSpace = [] then none else some (s.dropWhile isSpace)

/-- `_MOUNT_LINE`: the mount point and the type of a line. -/
def mountLine (line : Str) : Option (Str × Str) := do
  let (_, rest) ← wordAt line
  let rest ← behindBlanks rest
  let (point, rest) ← wordAt rest
  let rest ← behindBlanks rest
  let (fstype, rest) ← wordAt rest
  if rest = [] then none else some (point, fstype)

/-- `chr(int(digits, 8))`, for three digits that may be of any script. -/
def octalChar (x y z : Nat) : Option CodePoint :=
  if x < 8 ∧ y < 8 ∧ z < 8 then some (Fin.ofNat 0x110000 (x * 64 + y * 8 + z)) else none

/-- `re.sub(r"\\(\d{3})", …, point)`, unless `int` raises. -/
def unescape : Str → Option Str
  | [] => some []
  | c :: d :: e :: f :: rest =>
    match digitValue? d, digitValue? e, digitValue? f with
    | some x, some y, some z =>
      if c = codePoint '\\' then
        match octalChar x y z with
        | some decoded => (unescape rest).map (decoded :: ·)
        | none => none
      else (unescape (d :: e :: f :: rest)).map (c :: ·)
    | _, _, _ => (unescape (d :: e :: f :: rest)).map (c :: ·)
  | c :: rest => (unescape rest).map (c :: ·)

/-- The entry of a line. -/
def mountPair (line : Str × Str) : Option (Str × Str) := (unescape line.1).map fun point => (point, line.2)

/-- The order of the entries: the longest mount point first. -/
def longerFirst (a b : Str × Str) : Bool := decide (b.1.length ≤ a.1.length)

/-- `parse_proc_mounts`, unless it raises. -/
def parseProcMounts (text : Str) : Option (List (Str × Str)) :=
  (((splitlines text).filterMap mountLine).mapM mountPair).map fun pairs => pairs.mergeSort longerFirst

/-! ## The verdict -/

structure MountVerdict where
  kind : Str
  slow : Option Bool
  detail : Str
  remedy : Option Str
  deriving DecidableEq

/-- `SLOW_FILESYSTEMS` -/
def slowFilesystems : List Str :=
  ["9p", "drvfs", "cifs", "smbfs", "smb3", "nfs", "nfs4", "afpfs", "fuse.sshfs", "virtiofs"]

/-- The verdict on a path that is on a mount. -/
def mountVerdict (point fstype : Str) : MountVerdict :=
  if fstype ∈ slowFilesystems then
    ⟨lit "network:" ++ fstype, some true,
      lit "The project is on a " ++ fstype ++ lit " mount at " ++ point ++
        lit ". Per-operation latency, not throughput, is what a build spends its time on.",
      some (lit ("Build from a local disk. If the tree must live on the share, " ++
        "keep the dependency directory local -- most package managers " ++
        "accept a cache or store path outside the project."))⟩
  else
    ⟨lit "local:" ++ fstype, some false,
      lit "The project is on a local " ++ fstype ++ lit " filesystem.", none⟩

def unknownVerdict : MountVerdict :=
  ⟨"unknown", none, "Could not determine what filesystem the project is on.", none⟩

/-- `_windows_verdict`, with the verdict on every other path of Windows. -/
def windowsVerdict (path : Str) : MountVerdict :=
  if startsWith path "\\\\" ∨ startsWith path "//" then
    ⟨"network-share", some true,
      lit ("The project is on a UNC network path. Every file operation is a " ++
        "round trip, and a dependency install performs hundreds of thousands of them."),
      some "Work from a local disk and sync deliberately, rather than building over SMB."⟩
  else ⟨"local", some false, "The project is on a local Windows volume.", none⟩

/-- The drive of `^/mnt/[a-z]/`. -/
def wslDrive (path : Str) : Option CodePoint :=
  match path.drop 5 with
  | drive :: sep :: _ =>
    if startsWith path "/mnt/" ∧ codePoint 'a' ≤ drive ∧ drive ≤ codePoint 'z' ∧ sep = posixSep then
      some drive
    else none
  | _ => none

def wslVerdict (drive : CodePoint) : MountVerdict :=
  ⟨"wsl-windows-crossing", some true,
    lit "The project is under /mnt/" ++ [drive] ++
      lit (", so every file operation crosses " ++
        "from the Linux filesystem into the Windows one over 9p. For a tree " ++
        "with many small files this is the dominant cost of the build, and " ++
        "nothing else about the machine will look wrong."),
    some (lit ("Move the tree into the Linux filesystem -- somewhere under ~ -- and " ++
      "open it from VS Code with the WSL extension, which keeps the editor " ++
      "on the Windows side and the files on the Linux side."))⟩

/-- The path is the mount point, or goes on behind it with a slash. -/
def spells (path point : Str) : Bool :=
  decide (path = point) || startsWith path (stripEnd (fun c => c = posixSep) point ++ lit "/")

/-- `classify_path` -/
def classifyPath (path platform : Str) (isWsl : Bool) (mounts : List (Str × Str)) : MountVerdict :=
  let normalised := path.map fun c => if c = ntSep then posixSep else c
  if isWindows platform then windowsVerdict path
  else
    match if isWsl then wslDrive normalised else none with
    | some drive => wslVerdict drive
    | none =>
      match mounts.find? fun mount => spells normalised mount.1 with
      | some (point, fstype) => mountVerdict point fstype
      | none => unknownVerdict

/-! ## Tables -/

/-- `\ooo` -/
def octalEscape (c : CodePoint) : Str :=
  [codePoint '\\', digit (c.val / 64), digit (c.val / 8 % 8), digit (c.val % 8)]

/-- A text in octal: its blanks and backslashes are escaped, and other characters may be. -/
inductive Escapes : Str → Str → Prop where
  | nil : Escapes [] []
  | plain (c : CodePoint) (blank : isSpace c = false) (slash : c ≠ codePoint '\\') {raw s : Str}
      (rest : Escapes raw s) : Escapes (c :: raw) (c :: s)
  | octal (c : CodePoint) (byte : c.val < 512) {raw s : Str} (rest : Escapes raw s) :
      Escapes (octalEscape c ++ raw) (c :: s)

/-- A field of a line. -/
structure IsWord (s : Str) : Prop where
  ne_nil : s ≠ []
  no_blank : ∀ c ∈ s, isSpace c = false

/-- The names of an absolute path in its shortest spelling. -/
def pathOf (names : List Str) : Str := posixSep :: join "/" names

/-- An entry of a mount table. -/
structure Mount where
  source : Str
  names : List Str
  raw : Str
  fstype : Str
  options : Str
  named : ∀ name ∈ names, name ≠ [] ∧ posixSep ∉ name
  escaped : Escapes raw (pathOf names)
  source_word : IsWord source
  fstype_word : IsWord fstype
  options_line : Unbroken isLineBreak options

namespace Mount

def point (m : Mount) : Str := pathOf m.names

/-- The line of an entry; the numbers at its end are among the options. -/
def line (m : Mount) : Str :=
  m.source ++ codePoint ' ' :: (m.raw ++ codePoint ' ' :: (m.fstype ++ codePoint ' ' :: m.options))

end Mount

/-- The text of a mount table. -/
def procMounts (table : List Mount) : Str := unlines (codePoint '\n') (table.map Mount.line)

/-! ## Reading a table -/

theorem unescape_cons {c : CodePoint} (h : c ≠ codePoint '\\') (s : Str) :
    unescape (c :: s) = (unescape s).map (c :: ·) := by
  rcases s with _ | ⟨d, _ | ⟨e, _ | ⟨f, rest⟩⟩⟩
  · rfl
  · rfl
  · rfl
  · rw [unescape]
    split
    · rw [if_neg h]
    · rfl

theorem unescape_octalEscape {c : CodePoint} (h : c.val < 512) (s : Str) :
    unescape (octalEscape c ++ s) = (unescape s).map (c :: ·) := by
  have hhigh : c.val / 64 < 8 := by omega
  have hmiddle : c.val / 8 % 8 < 8 := Nat.mod_lt _ (by decide)
  have hlow : c.val % 8 < 8 := Nat.mod_lt _ (by decide)
  have hchar : octalChar (c.val / 64) (c.val / 8 % 8) (c.val % 8) = some c := by
    rw [octalChar, if_pos ⟨hhigh, hmiddle, hlow⟩]
    refine congrArg some (Fin.ext ?_)
    show (c.val / 64 * 64 + c.val / 8 % 8 * 8 + c.val % 8) % 0x110000 = c.val
    omega
  rw [octalEscape, List.cons_append, List.cons_append, List.cons_append, List.cons_append,
    List.nil_append, unescape, digitValue?_digit (by omega), digitValue?_digit (by omega),
    digitValue?_digit (by omega)]
  dsimp only
  rw [if_pos rfl, hchar]

theorem unescape_of_escapes {raw s : Str} (h : Escapes raw s) : unescape raw = some s := by
  induction h with
  | nil => rfl
  | plain c _ hslash _ ih => rw [unescape_cons hslash, ih, Option.map_some]
  | octal c hbyte _ ih => rw [unescape_octalEscape hbyte, ih, Option.map_some]

theorem octalEscape_no_blank (c : CodePoint) (h : c.val < 512) :
    ∀ d ∈ octalEscape c, isSpace d = false := by
  have hdigit : ∀ n < 8, isSpace (digit n) = false := by decide
  intro d hd
  simp only [octalEscape, List.mem_cons, List.not_mem_nil, or_false] at hd
  rcases hd with rfl | rfl | rfl | rfl
  · decide
  · exact hdigit _ (by omega)
  · exact hdigit _ (Nat.mod_lt _ (by decide))
  · exact hdigit _ (Nat.mod_lt _ (by decide))

/-- An escaped text has no blanks. -/
theorem Escapes.no_blank {raw s : Str} (h : Escapes raw s) : ∀ c ∈ raw, isSpace c = false := by
  induction h with
  | nil => simp
  | plain c hblank _ _ ih =>
    intro d hd
    rcases List.mem_cons.mp hd with rfl | hd
    · exact hblank
    · exact ih d hd
  | octal c hbyte _ ih =>
    intro d hd
    rcases List.mem_append.mp hd with hd | hd
    · exact octalEscape_no_blank c hbyte d hd
    · exact ih d hd

theorem Escapes.ne_nil {raw s : Str} (h : Escapes raw s) (hs : s ≠ []) : raw ≠ [] := by
  cases h with
  | nil => exact absurd rfl hs
  | plain => exact List.cons_ne_nil _ _
  | octal => exact List.cons_ne_nil _ _

theorem Mount.raw_word (m : Mount) : IsWord m.raw :=
  ⟨m.escaped.ne_nil (List.cons_ne_nil _ _), m.escaped.no_blank⟩

theorem wordAt_word {word : Str} (h : IsWord word) (rest : Str) :
    wordAt (word ++ codePoint ' ' :: rest) = some (word, codePoint ' ' :: rest) := by
  have hword : ∀ c ∈ word, (!isSpace c) = true := fun c hc => by rw [h.no_blank c hc]; rfl
  have hblank : isSpace (codePoint ' ') = true := by decide
  have htake : (word ++ codePoint ' ' :: rest).takeWhile (fun c => !isSpace c) = word := by
    rw [List.takeWhile_append_of_pos hword, List.takeWhile_cons, hblank]
    exact List.append_nil word
  have hdrop : (word ++ codePoint ' ' :: rest).dropWhile (fun c => !isSpace c) = codePoint ' ' :: rest := by
    rw [List.dropWhile_append_of_pos hword, List.dropWhile_cons, hblank]
    rfl
  rw [wordAt, htake, hdrop]
  exact if_neg h.ne_nil

theorem behindBlanks_word {word : Str} (h : IsWord word) (rest : Str) :
    behindBlanks (codePoint ' ' :: (word ++ rest)) = some (word ++ rest) := by
  obtain ⟨c, tail, rfl⟩ := List.exists_cons_of_ne_nil h.ne_nil
  have hc : ¬isSpace c = true := by rw [h.no_blank c List.mem_cons_self]; decide
  have hblank : isSpace (codePoint ' ') = true := by decide
  rw [behindBlanks, List.takeWhile_cons_of_pos hblank, if_neg (List.cons_ne_nil _ _),
    List.dropWhile_cons_of_pos hblank, List.cons_append, List.dropWhile_cons_of_neg hc]

theorem mountLine_line (m : Mount) : mountLine m.line = some (m.raw, m.fstype) := by
  simp only [mountLine, Mount.line, wordAt_word m.source_word, wordAt_word m.raw_word,
    wordAt_word m.fstype_word, behindBlanks_word m.raw_word, behindBlanks_word m.fstype_word,
    Option.bind_eq_bind, Option.bind_some]
  exact if_neg (List.cons_ne_nil _ _)

theorem IsWord.unbroken {word : Str} (h : IsWord word) : ∀ c ∈ word, isLineBreak c = false := by
  intro c hc
  rw [← Bool.not_eq_true]
  intro hbreak
  have hblank := isSpace_of_isLineBreak hbreak
  rw [h.no_blank c hc] at hblank
  cases hblank

theorem Mount.line_unbroken (m : Mount) : Unbroken isLineBreak m.line := by
  have hblank : isLineBreak (codePoint ' ') = false := by decide
  intro c hc
  simp only [Mount.line, List.mem_append, List.mem_cons] at hc
  rcases hc with hc | rfl | hc | rfl | hc | rfl | hc
  · exact m.source_word.unbroken c hc
  · exact hblank
  · exact m.raw_word.unbroken c hc
  · exact hblank
  · exact m.fstype_word.unbroken c hc
  · exact hblank
  · exact m.options_line c hc

/-- The entry that the reader takes from a line. -/
def Mount.pair (m : Mount) : Str × Str := (m.point, m.fstype)

/-- The reader takes the entries of a table as they are, and sorts them. -/
theorem parseProcMounts_procMounts (table : List Mount) :
    parseProcMounts (procMounts table) = some ((table.map Mount.pair).mergeSort longerFirst) := by
  have hlines : splitlines (procMounts table) = table.map Mount.line := by
    refine splitlines_unlines fun line hline => ?_
    obtain ⟨m, -, rfl⟩ := List.mem_map.mp hline
    exact m.line_unbroken
  have hpairs : ((table.map Mount.line).filterMap mountLine).mapM mountPair =
      some (table.map Mount.pair) := by
    have hread : (table.map Mount.line).filterMap mountLine = table.map fun m => (m.raw, m.fstype) := by
      rw [List.filterMap_map]
      simp [mountLine_line]
    rw [hread, mapM_eq_some, List.forall₂_map_left_iff, List.forall₂_map_right_iff, List.forall₂_same]
    intro m _
    rw [mountPair, unescape_of_escapes m.escaped]
    rfl
  rw [parseProcMounts, hlines, hpairs]
  rfl

end DevRepro.Platforms
