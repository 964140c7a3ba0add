import DevRepro.Lib.Dict
import DevRepro.Lib.Firsts
import DevRepro.Platforms.Paths
import DevRepro.Python.JsonDump
import DevRepro.Snapshots.Models

/-!
# The analysis of a PATH

`build_path_analysis` of `platforms/base.py`, and the loop of `PathProbe.run` of
`probes/path_env.py` that is the same but for how it normalizes.  The entries it calls
duplicates can be removed: whatever a name is found in stays what it is found in
(`duplicates_removable`).
-/

namespace DevRepro.Platforms

open DevRepro.Python
open DevRepro.Lib (Dict firsts isLater laters)
open DevRepro.Snapshots (PathEntry PathAnalysis)

/-! ## The machine -/

/-- What the system answers with when it does not answer. -/
structure OSError where
  message : Str

/-- `str(Path(path))`. -/
def pathText (path : Str) : Str :=
  let root := posixRoot path
  let comps := ((path.drop root.length).splitOn posixSep).filter fun comp => comp ≠ [] ∧ comp ≠ "."
  if root ++ join "/" comps = [] then "." else root ++ join "/" comps

/-- The machine the analysis runs on, a POSIX one. -/
structure Host (δ : Type) where
  /-- The directory under a path: `Path.is_dir()` tells whether there is one. -/
  directory : Str → Except OSError (Option δ)
  /-- The names that `Path.iterdir()` goes through. -/
  listing : δ → Except OSError (List Str)
  /-- A name is one component of a path. -/
  listing_plain : ∀ dir names, listing dir = .ok names → ∀ name ∈ names, posixSep ∉ name
  /-- `str.lower`. -/
  lower : Str → Str
  /-- `os.environ.get("PATHEXT", "")`. -/
  pathext : Str

variable {δ : Type} (host : Host δ)

namespace Host

/-- The directory that a PATH entry names. -/
def directoryOf (entry : Str) : Except OSError (Option δ) := host.directory (pathText entry)

/-- The names listed under a PATH entry; none where the system does not answer. -/
def children (entry : Str) : List Str :=
  match host.directoryOf entry with
  | .ok (some dir) =>
    match host.listing dir with
    | .ok names => names
    | .error _ => []
  | _ => []

end Host

/-- `str(child)` of a child of `Path(entry)`. -/
def childText (entry name : Str) : Str :=
  let base := pathText entry
  if base = "." then name
  else if base.getLast? = some posixSep then base ++ name
  else base ++ lit "/" ++ name

/-! ## Shadowed executables -/

/-- The extensions that do not count. -/
def executableExts (platform : Str) : List Str :=
  if isWindows platform then
    ((host.pathext.splitOn (codePoint ';')).filter fun e => strip e ≠ []).map fun e =>
      host.lower (strip e)
  else [[]]

/-- The name that a file is called by. -/
def stemOf (exts : List Str) (child : Str) : Str :=
  let name := host.lower child
  match exts.find? fun ext => ext ≠ [] && ext.isSuffixOf name with
  | some ext => name.take (name.length - ext.length)
  | none => name

/-- `by_name.setdefault(stem, []).append(str(child))` -/
def addName (byName : Dict Str (List Str)) (item : Str × Str) : Dict Str (List Str) :=
  byName.set item.1 ((byName.get? item.1).getD [] ++ [item.2])

/-- The files of all entries under the names they are called by. -/
def namedFiles (parts : List Str) (platform : Str) : List (Str × Str) :=
  parts.flatMap fun entry => (host.children entry).map fun child =>
    (stemOf host (executableExts host platform) child, childText entry child)

def shadowing : Str × List Str → Option (Str × Str × Str)
  | (name, winner :: rest) => rest.getLast?.map fun loser => (name, winner, loser)
  | (_, []) => none

/-- `_find_shadowed`. -/
def findShadowed (parts : List Str) (platform : Str) : List (Str × Str × Str) :=
  let byName := (namedFiles host parts platform).foldl addName Dict.empty
  (byName.items.mergeSort fun a b => strLe a.1 b.1).filterMap shadowing

/-! ## The analysis -/

/-- The lists that the loop over the entries fills. -/
structure Tally where
  entries : List PathEntry
  seen : List (Str × Nat)
  duplicates : List Str
  dead : List Str

/-- One round of the loop. -/
def classify (norm : Str → Str) (origin : Nat → Str) (tally : Tally) (item : Str × Nat) :
    Except OSError Tally := do
  let present := (← host.directoryOf item.1).isSome
  let entry : PathEntry := ⟨item.1, norm item.1, present, origin item.2, item.2⟩
  let known := decide (norm item.1 ∈ tally.seen.map Prod.fst)
  return {
    entries := tally.entries ++ [entry]
    seen := if known then tally.seen else tally.seen ++ [(norm item.1, item.2)]
    duplicates := tally.duplicates ++ if known then [item.1] else []
    dead := tally.dead ++ if present then [] else [item.1] }

def tallyEntries (norm : Str → Str) (origin : Nat → Str) (parts : List Str) : Except OSError Tally :=
  parts.zipIdx.foldlM (classify host norm origin) ⟨[], [], [], []⟩

/-- The entries whose normalized form has one of some marks. -/
def marked (marks : List Str) (entries : List PathEntry) : List Str :=
  (entries.filter fun e => marks.any (containsText (host.lower e.normalized))).map PathEntry.raw

def managerMarkers : List Str := [".pyenv", ".nvm", ".volta", ".fnm", "conda", "mise", "asdf", ".cargo"]

/-- `build_path_analysis`. -/
def buildPathAnalysis (rawPath platform : Str) (originFor : Option (Nat → Str)) :
    Except OSError PathAnalysis := do
  let parts := splitPath rawPath platform
  let tally ← tallyEntries host (fun entry => normalizePath host.lower entry platform)
    (originFor.getD fun _ => "unknown") parts
  return {
    entries := tally.entries
    duplicates := tally.duplicates
    deadEntries := tally.dead
    shadowedExecutables := findShadowed host parts platform
    storeAliases := if isWindows platform then marked host ["windowsapps"] tally.entries else []
    toolManagerInterference := marked host managerMarkers tally.entries
    profileInconsistencies := [] }

/-- `PathProbe._origin`. -/
def probeOrigin (platform : Str) (index : Nat) : Str :=
  if isWindows platform then "inherited" else if 0 < index then "profile" else "inherited"

def probeManagerMarkers : List Str :=
  [".pyenv", ".nvm", ".volta", ".fnm", "conda", "mise", "asdf", ".cargo/bin"]

/-- The analysis of `PathProbe.run`; `os.path` is that of the machine. -/
def probePathAnalysis (rawPath platform : Str) : Except OSError PathAnalysis := do
  let tally ← tallyEntries host posixNormpath (probeOrigin platform) (splitPath rawPath platform)
  return {
    entries := tally.entries
    duplicates := tally.duplicates
    deadEntries := tally.dead
    shadowedExecutables := []
    storeAliases := marked host (["WindowsApps", "Microsoft\\WindowsApps"].map host.lower) tally.entries
    toolManagerInterference := marked host probeManagerMarkers tally.entries
    profileInconsistencies := [] }

/-! ## The loop -/

variable {host} {norm : Str → Str} {origin : Nat → Str}

/-- What the loop has found of the entries it went through. -/
structure Tallied (norm : Str → Str) (parts : List Str) (tally : Tally) : Prop where
  seen : ∀ form, form ∈ tally.seen.map Prod.fst ↔ form ∈ parts.map norm
  duplicates : tally.duplicates = laters norm parts

theorem Tallied.step {parts : List Str} {tally next : Tally} {entry : Str} {index : Nat}
    (h : Tallied norm parts tally) (hstep : classify host norm origin tally (entry, index) = .ok next) :
    Tallied norm (parts ++ [entry]) next := by
  rw [classify] at hstep
  obtain ⟨found, -, hstep⟩ := bind_eq_ok.mp hstep
  cases hstep
  have hknown := h.seen (norm entry)
  constructor
  · intro form
    rw [List.map_append, List.mem_append, ← h.seen form, List.map_singleton, List.mem_singleton]
    by_cases hin : norm entry ∈ tally.seen.map Prod.fst
    · dsimp only
      rw [decide_eq_true hin, if_pos rfl]
      refine ⟨Or.inl, ?_⟩
      rintro (hform | rfl)
      · exact hform
      · exact hin
    · dsimp only
      rw [decide_eq_false hin, if_neg Bool.false_ne_true, List.map_append, List.mem_append,
        List.map_singleton, List.mem_singleton]
  · rw [DevRepro.Lib.laters_concat, ← h.duplicates]
    dsimp only
    by_cases hin : norm entry ∈ tally.seen.map Prod.fst
    · rw [decide_eq_true hin, if_pos rfl, if_pos (hknown.mp hin)]
    · rw [decide_eq_false hin, if_neg Bool.false_ne_true, if_neg fun hmem => hin (hknown.mpr hmem)]

/-- The loop ends with the duplicates, unless the system fails at an entry. -/
theorem tallyEntries_spec (host : Host δ) (norm : Str → Str) (origin : Nat → Str) (parts : List Str) :
    (∃ e, ∃ entry ∈ parts, host.directoryOf entry = .error e ∧
      tallyEntries host norm origin parts = .error e) ∨
    ∃ tally, tallyEntries host norm origin parts = .ok tally ∧ Tallied norm parts tally := by
  induction parts using List.reverseRecOn with
  | nil => exact Or.inr ⟨⟨[], [], [], []⟩, rfl, ⟨fun form => Iff.rfl, rfl⟩⟩
  | append_singleton parts entry ih =>
    have hlast : tallyEntries host norm origin (parts ++ [entry]) =
        tallyEntries host norm origin parts >>= fun tally =>
          classify host norm origin tally (entry, parts.length) := by
      rw [tallyEntries, List.zipIdx_append, List.foldlM_append, List.zipIdx_singleton, Nat.zero_add]
      refine congrArg _ (funext fun tally => ?_)
      rw [List.foldlM_cons]
      exact bind_pure _
    rw [hlast]
    rcases ih with ⟨e, failing, hin, hdir, hfail⟩ | ⟨tally, hok, htally⟩
    · rw [hfail]
      exact Or.inl ⟨e, failing, List.mem_append_left _ hin, hdir, rfl⟩
    · rw [hok]
      cases hstep : classify host norm origin tally (entry, parts.length) with
      | ok next => exact Or.inr ⟨next, hstep, htally.step hstep⟩
      | error e =>
        refine Or.inl ⟨e, entry, List.mem_append_right _ List.mem_cons_self, ?_, hstep⟩
        rw [classify] at hstep
        cases hdir : host.directoryOf entry with
        | error e' =>
          rw [hdir] at hstep
          cases hstep
          rfl
        | ok found =>
          rw [hdir] at hstep
          cases hstep

/-! ## Looking a name up -/

/-- What a name is found in when the directories are searched in turn. -/
def firstMatch {ν φ : Type} (contents : Str → ν → Option φ) (dirs : List Str) (name : ν) :
    Option (ν → Option φ) :=
  (dirs.map contents).find? fun content => (content name).isSome

/-- Two PATHs find every name in the same contents, as long as entries with one normalized form
have one. -/
def SameLookups (norm : Str → Str) (platform raw other : Str) : Prop :=
  ∀ (ν φ : Type) (contents : Str → ν → Option φ),
    (∀ a ∈ splitPath raw platform, ∀ b ∈ splitPath raw platform, norm a = norm b →
      contents a = contents b) →
    ∀ name, firstMatch contents (splitPath other platform) name =
      firstMatch contents (splitPath raw platform) name

/-- The PATH without the entries with the normalized form of an earlier one. -/
def withoutDuplicates (norm : Str → Str) (platform raw : Str) : Str :=
  let parts := splitPath raw platform
  join [pathSeparator platform] ((parts.zipIdx.filter fun item => !isLater norm parts item).map Prod.fst)

theorem withoutDuplicates_eq (norm : Str → Str) (platform raw : Str) :
    withoutDuplicates norm platform raw =
      join [pathSeparator platform] (firsts norm (splitPath raw platform)) := by
  rw [DevRepro.Lib.firsts_eq_filter]
  rfl

theorem splitPath_withoutDuplicates (norm : Str → Str) (platform raw : Str) :
    splitPath (withoutDuplicates norm platform raw) platform =
      firsts norm (splitPath raw platform) := by
  rw [withoutDuplicates_eq]
  refine splitPath_join fun entry hentry => @mem_splitPath raw _ _ ?_
  obtain ⟨before, after, heq, -⟩ := DevRepro.Lib.mem_firsts.mp hentry
  rw [heq]
  exact List.mem_append_right _ List.mem_cons_self

theorem sameLookups_withoutDuplicates (norm : Str → Str) (platform raw : Str) :
    SameLookups norm platform raw (withoutDuplicates norm platform raw) := by
  intro ν φ contents hcontents name
  rw [splitPath_withoutDuplicates]
  exact DevRepro.Lib.find?_map_firsts hcontents _

/-- The analysis names exactly the entries with the normalized form of an earlier one, and without
them every name is found in what it was found in. -/
theorem duplicates_removable (host : Host δ) (raw platform : Str) (originFor : Option (Nat → Str)) :
    (∃ e, ∃ entry ∈ splitPath raw platform, host.directoryOf entry = .error e ∧
      buildPathAnalysis host raw platform originFor = .error e) ∨
    ∃ analysis, buildPathAnalysis host raw platform originFor = .ok analysis ∧
      let norm := fun entry => normalizePath host.lower entry platform
      analysis.duplicates = laters norm (splitPath raw platform) ∧
        SameLookups norm platform raw (withoutDuplicates norm platform raw) := by
  have hrun := tallyEntries_spec host (fun entry => normalizePath host.lower entry platform)
    (originFor.getD fun _ => "unknown") (splitPath raw platform)
  rw [buildPathAnalysis]
  rcases hrun with ⟨e, entry, hin, hdir, hfail⟩ | ⟨tally, hok, htally⟩
  · rw [hfail]
    exact Or.inl ⟨e, entry, hin, hdir, rfl⟩
  · rw [hok]
    exact Or.inr ⟨_, rfl, htally.duplicates, sameLookups_withoutDuplicates _ platform raw⟩

end DevRepro.Platforms
