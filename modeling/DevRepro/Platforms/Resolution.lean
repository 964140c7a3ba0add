import DevRepro.Lib.Firsts
import DevRepro.Platforms.Paths
import DevRepro.Snapshots.Models

/-!
# Why an executable wins

`explain_resolution` of `platforms/base.py`.  The entry of the PATH that it names is the first
whose directory, with a separator, starts the path of the executable; the directory of the
executable is one of those, but so are the directories above it, and a root is not
(`explanation_right_iff`).
-/

namespace DevRepro.Platforms

open DevRepro.Python
open DevRepro.Snapshots (ToolInstallation)

/-- The machine that renders the explanation. -/
structure Renderer where
  /-- `_HOST_PLATFORM` -/
  hostPlatform : Str
  /-- `str(Path(path).resolve())`. -/
  resolve : Str → Str
  /-- `str.lower`. -/
  lower : Str → Str

variable (rt : Renderer)

/-! ## The entry -/

/-- The normalized path of the executable. -/
def exeNorm (platform exe : Str) : Str :=
  normcase rt.lower platform
    (if platform = rt.hostPlatform then rt.resolve exe else normpath platform exe)

/-- The test of an entry. -/
def startsAt (platform exeNorm directory : Str) : Bool :=
  let dirNorm := normcase rt.lower platform (normpath platform directory)
  startsWith exeNorm (dirNorm ++ [moduleSep platform]) || startsWith exeNorm (dirNorm ++ lit "/")

/-- The number of the entry that is named, if one is. -/
def winningEntry (rawPath platform exe : Str) : Option Nat :=
  (splitPath rawPath platform).findIdx? (startsAt rt platform (exeNorm rt platform exe))

/-! ## The explanation -/

/-- A field that is there and not empty. -/
def present (field : Option Str) : Option Str := field.filter fun s => s ≠ []

/-- `f"{value}"` of a field. -/
def fieldText (field : Option Str) : Str := field.getD "None"

inductive Line where
  | notFound (name : Str)
  | resolvesTo (name : Str) (exePath : Option Str)
  | version (text : Str)
  | source (installSource : Str)
  | wins (idx : Nat)
  | others (count : Nat)
  | other (exePath version : Option Str)

def Line.text : Line → Str
  | .notFound name => lit "'" ++ name ++ lit "' was not found on PATH."
  | .resolvesTo name exePath => lit "'" ++ name ++ lit "' resolves to: " ++ fieldText exePath
  | .version text => lit "  version: " ++ text
  | .source installSource => lit "  install source: " ++ installSource
  | .wins idx =>
    lit "  wins because its directory is entry #" ++ natStr idx ++
      lit " in PATH (earlier entries take precedence)."
  | .others count => lit "  " ++ natStr count ++ lit " other installation(s) are shadowed:"
  | .other exePath text =>
    lit "    - " ++ fieldText exePath ++ (present text).elim [] fun v => lit " (" ++ v ++ lit ")"

/-- The place of the installation that is taken for the active one. -/
def activePlace (found : List ToolInstallation) : Nat :=
  (found.findIdx? ToolInstallation.isActive).getD 0

/-- The lines about the active installation. -/
def activeLines (name : Str) (active : ToolInstallation) (rawPath platform : Str) : List Line :=
  [.resolvesTo name active.exePath] ++ (present active.version).toList.map .version ++
    (present active.installSource).toList.map .source ++
    ((present active.exePath).bind (winningEntry rt rawPath platform)).toList.map .wins

/-- The lines about the others. -/
def otherLines (others : List ToolInstallation) : List Line :=
  if others.isEmpty then []
  else .others others.length :: (others.take 5).map fun o => .other o.exePath o.version

/-- The lines of `explain_resolution`; the active installation is one object of the list, which its
place stands for. -/
def explanation (name : Str) (installs : List ToolInstallation) (rawPath platform : Str) : List Line :=
  let found := installs.filter fun i => i.name = name
  match found[activePlace found]? with
  | none => [.notFound name]
  | some active =>
    activeLines rt name active rawPath platform ++ otherLines (found.eraseIdx (activePlace found))

/-- `explain_resolution`. -/
def explainResolution (name : Str) (installs : List ToolInstallation) (rawPath platform : Str) : Str :=
  join "\n" ((explanation rt name installs rawPath platform).map Line.text)

/-! ## The right entry -/

/-- The normalized directory of the executable. -/
def exeDirectory (platform exe : Str) : Str := normalizePath rt.lower (parentDir platform exe) platform

/-- The first entry whose normalized directory is that of the executable. -/
def rightEntry (rawPath platform exe : Str) : Option Nat :=
  (splitPath rawPath platform).findIdx? fun entry =>
    normalizePath rt.lower entry platform = exeDirectory rt platform exe

/-- The active installation has the path. -/
def ActivePath (name : Str) (installs : List ToolInstallation) (exe : Str) : Prop :=
  let found := installs.filter fun i => i.name = name
  ∃ active, found[activePlace found]? = some active ∧ active.exePath = some exe ∧ exe ≠ []

/-- The entry that is named is the right one, and none is named when there is none. -/
def ExplanationRight (name : Str) (installs : List ToolInstallation) (rawPath platform exe : Str) :
    Prop :=
  ∀ idx, .wins idx ∈ explanation rt name installs rawPath platform ↔
    rightEntry rt rawPath platform exe = some idx

/-- A directory with a separator behind it starts a path. -/
def Encloses (platform directory path : Str) : Prop :=
  directory ++ [moduleSep platform] <+: path ∨ directory ++ lit "/" <+: path

/-- No entry in front of the first one for the executable's directory encloses the executable, and
that directory does, if it has an entry. -/
structure OwnEntryFirst (rawPath platform exe : Str) : Prop where
  before : ∀ entry ∈ (splitPath rawPath platform).takeWhile (fun entry =>
      normalizePath rt.lower entry platform ≠ exeDirectory rt platform exe),
    ¬Encloses platform (normalizePath rt.lower entry platform) (exeNorm rt platform exe)
  own : ∀ entry ∈ splitPath rawPath platform,
    normalizePath rt.lower entry platform = exeDirectory rt platform exe →
      Encloses platform (exeDirectory rt platform exe) (exeNorm rt platform exe)

variable {rt} {name rawPath platform exe : Str} {installs : List ToolInstallation}

theorem startsAt_iff {path directory : Str} :
    startsAt rt platform path directory = true ↔
      Encloses platform (normalizePath rt.lower directory platform) path := by
  rw [startsAt, Bool.or_eq_true, startsWith, startsWith, List.isPrefixOf_iff_prefix,
    List.isPrefixOf_iff_prefix]
  rfl

theorem mem_otherLines {others : List ToolInstallation} {idx : Nat} :
    Line.wins idx ∉ otherLines others := by
  rw [otherLines]
  split_ifs
  · exact List.not_mem_nil
  · rw [List.mem_cons, not_or]
    refine ⟨Line.noConfusion, fun hin => ?_⟩
    obtain ⟨o, -, heq⟩ := List.mem_map.mp hin
    cases heq

/-- The entry number that is stated is that of the search. -/
theorem wins_mem_iff (h : ActivePath name installs exe) {idx : Nat} :
    .wins idx ∈ explanation rt name installs rawPath platform ↔
      winningEntry rt rawPath platform exe = some idx := by
  obtain ⟨active, hactive, hexe, hne⟩ := h
  have hpresent : present active.exePath = some exe := by
    rw [hexe, present, Option.filter_some, decide_eq_true hne, if_pos rfl]
  rw [explanation, hactive]
  dsimp only
  rw [List.mem_append, or_iff_left mem_otherLines, activeLines, hpresent]
  simp

/-- The entry that is stated is the right one exactly when the own directory comes before those that
enclose it. -/
theorem explanation_right_iff (rt : Renderer) (name rawPath platform exe : Str)
    (installs : List ToolInstallation) (hactive : ActivePath name installs exe) :
    ExplanationRight rt name installs rawPath platform exe ↔ OwnEntryFirst rt rawPath platform exe := by
  have hplace : ExplanationRight rt name installs rawPath platform exe ↔
      winningEntry rt rawPath platform exe = rightEntry rt rawPath platform exe := by
    rw [Option.ext_iff]
    exact forall_congr' fun idx => by rw [wins_mem_iff hactive]
  have hnormed : ∀ first ∈ (splitPath rawPath platform).find? (fun entry =>
      normalizePath rt.lower entry platform = exeDirectory rt platform exe),
      normalizePath rt.lower first platform = exeDirectory rt platform exe := by
    intro first hfirst
    have htest := List.find?_some hfirst
    exact of_decide_eq_true htest
  rw [hplace, winningEntry, rightEntry, DevRepro.Lib.findIdx?_eq_iff]
  constructor
  · rintro ⟨hbefore, hown⟩
    constructor
    · intro entry hentry hencl
      have hfalse := hbefore entry (by simpa only [decide_not] using hentry)
      rw [startsAt_iff.mpr hencl] at hfalse
      cases hfalse
    · intro entry hentry hdir
      have hsome : ((splitPath rawPath platform).find? fun entry =>
          normalizePath rt.lower entry platform = exeDirectory rt platform exe).isSome = true :=
        List.find?_isSome.mpr ⟨entry, hentry, decide_eq_true hdir⟩
      obtain ⟨first, hfirst⟩ := Option.isSome_iff_exists.mp hsome
      have hnorm := hnormed first hfirst
      have hstart := startsAt_iff.mp (hown first hfirst)
      rwa [hnorm] at hstart
  · rintro ⟨hbefore, hown⟩
    constructor
    · intro entry hentry
      rw [← Bool.not_eq_true, startsAt_iff]
      exact hbefore entry (by simpa only [decide_not] using hentry)
    · intro first hfirst
      have hnorm := hnormed first hfirst
      rw [startsAt_iff, hnorm]
      exact hown first (List.mem_of_find?_eq_some hfirst) hnorm

/-! ## Examples -/

namespace Sample

/-- A machine without links. -/
def renderer : Renderer := ⟨"linux", posixNormpath, id⟩

def ls : ToolInstallation := ⟨"ls", none, some "/usr/bin/ls", none, true, none⟩

theorem ls_active : ActivePath "ls" [ls] "/usr/bin/ls" := ⟨ls, by decide, rfl, by decide⟩

end Sample

theorem explanation_right_iff_ls :
    ExplanationRight Sample.renderer "ls" [Sample.ls] "/usr/bin:/usr" "linux" "/usr/bin/ls" ↔
      OwnEntryFirst Sample.renderer "/usr/bin:/usr" "linux" "/usr/bin/ls" :=
  explanation_right_iff Sample.renderer "ls" "/usr/bin:/usr" "linux" "/usr/bin/ls" [Sample.ls]
    Sample.ls_active

/-- The directory above is named when it comes first. -/
theorem directory_above_wins :
    rightEntry Sample.renderer "/usr:/usr/bin" "linux" "/usr/bin/ls" = some 1 ∧
      .wins 0 ∈ explanation Sample.renderer "ls" [Sample.ls] "/usr:/usr/bin" "linux" ∧
      ¬ExplanationRight Sample.renderer "ls" [Sample.ls] "/usr:/usr/bin" "linux" "/usr/bin/ls" := by
  have hright : rightEntry Sample.renderer "/usr:/usr/bin" "linux" "/usr/bin/ls" = some 1 := by decide
  have hstated : .wins 0 ∈ explanation Sample.renderer "ls" [Sample.ls] "/usr:/usr/bin" "linux" :=
    (wins_mem_iff Sample.ls_active).mpr (by decide)
  refine ⟨hright, hstated, fun h => ?_⟩
  have hzero := (h 0).mp hstated
  rw [hright] at hzero
  cases hzero

end DevRepro.Platforms
