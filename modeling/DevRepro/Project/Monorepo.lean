import DevRepro.Core.Versioning
import DevRepro.Lib.Dict
import DevRepro.Lib.Firsts

/-!
# Conflicts of nested projects

`_detect_conflicts` and `_ranges_overlap` of `project/monorepo.py`.  What the manifests
declare is given.  Two ranges overlap when one of thirteen versions is in both, and
`realConflicts_iff` says for which repositories that is enough.
-/

namespace DevRepro.Project

open DevRepro.Python DevRepro.Lib DevRepro.Core

/-- A manifest: the directory that it is in, as a text from the root, and what
`_declared_versions` reads from it. -/
structure VersionManifest where
  directory : Str
  declared : Dict Str Str

structure NestedConflict where
  tool : Str
  parentPath : Str
  parentSpec : Str
  childPath : Str
  childSpec : Str
  detail : Str
  deriving DecidableEq

/-- `SpecSet.satisfied_by`. -/
def inRange (range : List (List (Op × Version))) (v : Version) : Bool :=
  range.any fun group => group.all (satisfiedBy v)

/-- `candidates` of `_ranges_overlap`. -/
def overlapCandidates : List Str :=
  ["0.0.1", "3.0.0", "6.0.0", "8.0.0", "10.0.0", "12.0.0", "14.0.0", "16.0.0", "18.0.0", "20.0.0",
    "21.0.0", "22.0.0", "24.0.0"]

/-- `_ranges_overlap`. -/
def rangesOverlap (limits : Limits) (a b : List (List (Op × Version))) : Bool :=
  overlapCandidates.any fun c =>
    match parseVersion limits c with
    | none => false
    | some v => inRange a v && inRange b v

/-- `by_tool[tool]`: the directory and the range of each declaration. -/
def entriesOf (manifests : List VersionManifest) (tool : Str) : List (Str × Str) :=
  manifests.filterMap fun m => (m.declared.get? tool).map fun spec => (m.directory, spec)

/-- The keys of `by_tool`. -/
def toolsOf (manifests : List VersionManifest) : List Str :=
  firsts id (manifests.flatMap fun m => m.declared.items.map Prod.fst)

/-- The pairs of a list, each in the order of the list. -/
def pairs {α : Type} : List α → List (α × α)
  | [] => []
  | a :: rest => rest.map (fun b => (a, b)) ++ pairs rest

/-- One directory is within the other. -/
def isNested (a b : Str) : Bool :=
  a == lit "." || b == lit "." || startsWith a (b ++ lit "/") || startsWith b (a ++ lit "/")

/-- The conflict of two declarations, with what it says. -/
def nestedConflict (tool : Str) (pair : (Str × Str) × Str × Str) (detail : Str) : NestedConflict :=
  ⟨tool, pair.1.1, pair.1.2, pair.2.1, pair.2.2, detail⟩

def uncomparable : Str := "version specs could not be compared automatically"

def unsatisfiable : Str := "no version satisfies both parent and child constraints"

variable (limits : Limits)

/-- The loop over the pairs, for one of them. -/
def conflictOf (tool : Str) (pair : (Str × Str) × Str × Str) : Option NestedConflict :=
  if isNested pair.1.1 pair.2.1 then
    match parseSpec limits pair.1.2, parseSpec limits pair.2.2 with
    | some a, some b =>
      if rangesOverlap limits a b then none else some (nestedConflict tool pair unsatisfiable)
    | _, _ => some (nestedConflict tool pair uncomparable)
  else none

/-- `_detect_conflicts`. -/
def detectConflicts (manifests : List VersionManifest) : List NestedConflict :=
  (toolsOf manifests).flatMap fun tool =>
    (pairs (entriesOf manifests tool)).filterMap (conflictOf limits tool)

/-! ## Real conflicts -/

/-- Some version is in both ranges. -/
def Meet (a b : List (List (Op × Version))) : Prop :=
  ∃ raw v, parseVersion limits raw = some v ∧ inRange a v = true ∧ inRange b v = true

/-- One of the sampled versions is in both ranges. -/
def MeetInSample (a b : List (List (Op × Version))) : Prop :=
  ∃ raw ∈ overlapCandidates, ∃ v, parseVersion limits raw = some v ∧ inRange a v = true ∧
    inRange b v = true

/-- Two nested projects declare these ranges for a tool. -/
structure BothDeclare (manifests : List VersionManifest) (tool : Str) (pair : (Str × Str) × Str × Str)
    (a b : List (List (Op × Version))) : Prop where
  listed : pair ∈ pairs (entriesOf manifests tool)
  nested : isNested pair.1.1 pair.2.1 = true
  parent : parseSpec limits pair.1.2 = some a
  child : parseSpec limits pair.2.2 = some b

/-- What is reported as having no version in common has none, and the other way round. -/
def RealConflicts (manifests : List VersionManifest) : Prop :=
  ∀ tool pair a b, BothDeclare limits manifests tool pair a b →
    (nestedConflict tool pair unsatisfiable ∈ detectConflicts limits manifests ↔ ¬Meet limits a b)

/-- Ranges of nested projects that meet anywhere meet in one of the sampled versions. -/
def SampleDecides (manifests : List VersionManifest) : Prop :=
  ∀ tool pair a b, BothDeclare limits manifests tool pair a b → Meet limits a b →
    MeetInSample limits a b

variable {limits} {manifests : List VersionManifest}

theorem rangesOverlap_iff {a b : List (List (Op × Version))} :
    rangesOverlap limits a b = true ↔ MeetInSample limits a b := by
  rw [rangesOverlap, List.any_eq_true]
  refine exists_congr fun raw => and_congr_right fun _ => ?_
  cases parseVersion limits raw with
  | none => simp
  | some v => simp

theorem MeetInSample.meet {a b : List (List (Op × Version))} (h : MeetInSample limits a b) :
    Meet limits a b := by
  obtain ⟨raw, -, v, hv, hboth⟩ := h
  exact ⟨raw, v, hv, hboth⟩

theorem mem_pairs_left {α : Type} {l : List α} {pair : α × α} (h : pair ∈ pairs l) : pair.1 ∈ l := by
  induction l with
  | nil => cases h
  | cons a rest ih =>
    rw [pairs, List.mem_append, List.mem_map] at h
    rcases h with ⟨b, -, rfl⟩ | h
    · exact List.mem_cons_self
    · exact List.mem_cons_of_mem _ (ih h)

/-- A tool that is declared somewhere is one of the tools. -/
theorem mem_toolsOf {tool : Str} {entry : Str × Str} (h : entry ∈ entriesOf manifests tool) :
    tool ∈ toolsOf manifests := by
  obtain ⟨m, hm, hentry⟩ := List.mem_filterMap.mp h
  obtain ⟨spec, hspec, -⟩ := Option.map_eq_some_iff.mp hentry
  have hkey : tool ∈ (toolsOf manifests).map id := by
    rw [toolsOf, keys_firsts, List.map_id, List.mem_flatMap]
    refine ⟨m, hm, ?_⟩
    rw [Dict.get?, Dict.find?, Option.map_eq_some_iff] at hspec
    obtain ⟨item, hitem, -⟩ := hspec
    have hname := List.find?_some hitem
    rw [decide_eq_true_iff] at hname
    exact hname ▸ List.mem_map_of_mem (List.mem_of_find?_eq_some hitem)
  rwa [List.map_id] at hkey

theorem conflictOf_eq_some {tool : Str} {pair : (Str × Str) × Str × Str} {conflict : NestedConflict}
    (h : conflictOf limits tool pair = some conflict) :
    ∃ detail, conflict = nestedConflict tool pair detail := by
  unfold conflictOf at h
  split_ifs at h
  split at h
  · split_ifs at h
    cases h
    exact ⟨_, rfl⟩
  · cases h
    exact ⟨_, rfl⟩

/-- A declared pair is reported when no sampled version is in both ranges. -/
theorem conflict_reported_iff {tool : Str} {pair : (Str × Str) × Str × Str}
    {a b : List (List (Op × Version))} (h : BothDeclare limits manifests tool pair a b) :
    nestedConflict tool pair unsatisfiable ∈ detectConflicts limits manifests ↔
      ¬MeetInSample limits a b := by
  have hconflict : conflictOf limits tool pair =
      if rangesOverlap limits a b then none else some (nestedConflict tool pair unsatisfiable) := by
    rw [conflictOf, if_pos h.nested, h.parent, h.child]
  rw [← rangesOverlap_iff]
  constructor
  · intro hmem hoverlap
    rw [if_pos hoverlap] at hconflict
    obtain ⟨other, -, hother⟩ := List.mem_flatMap.mp hmem
    obtain ⟨pair', -, hsome⟩ := List.mem_filterMap.mp hother
    -- the report names the tool, the directories and the ranges, and so the pair
    obtain ⟨detail, heq⟩ := conflictOf_eq_some hsome
    obtain ⟨⟨p1, p2⟩, p3, p4⟩ := pair
    obtain ⟨⟨q1, q2⟩, q3, q4⟩ := pair'
    injection heq with htool h1 h2 h3 h4 _
    subst htool h1 h2 h3 h4
    rw [hconflict] at hsome
    cases hsome
  · intro hdisjoint
    rw [if_neg hdisjoint] at hconflict
    exact List.mem_flatMap.mpr ⟨tool, mem_toolsOf (mem_pairs_left h.listed),
      List.mem_filterMap.mpr ⟨pair, h.listed, hconflict⟩⟩

variable (limits manifests) in
/-- The reported conflicts are the real ones exactly when the sample decides. -/
theorem realConflicts_iff : RealConflicts limits manifests ↔ SampleDecides limits manifests := by
  constructor
  · intro h tool pair a b hpair hmeet
    by_contra hnone
    exact (h tool pair a b hpair).mp ((conflict_reported_iff hpair).mpr hnone) hmeet
  · intro h tool pair a b hpair
    rw [conflict_reported_iff hpair]
    exact ⟨fun hnone hmeet => hnone (h tool pair a b hpair hmeet),
      fun hnone hsample => hnone hsample.meet⟩

/-- A manifest that asks for a range of Python. -/
def pythonManifest (directory spec : Str) : VersionManifest :=
  ⟨directory, Dict.empty.set "python" spec⟩

/-- A root and a package with the same range. -/
def sameRange : List VersionManifest :=
  [pythonManifest "." ">=3.11,<3.14", pythonManifest "packages/a" ">=3.11,<3.14"]

/-- Python 3.12 is in the range, and the root and the package are in conflict. -/
theorem sameRange_conflicts :
    satisfies ⟨1000, 4300⟩ "3.12" ">=3.11,<3.14" = some true ∧
      detectConflicts ⟨1000, 4300⟩ sameRange = [⟨"python", ".", ">=3.11,<3.14", "packages/a",
        ">=3.11,<3.14", unsatisfiable⟩] ∧ ¬RealConflicts ⟨1000, 4300⟩ sameRange := by
  obtain ⟨range, hrange⟩ : ∃ range, parseSpec ⟨1000, 4300⟩ ">=3.11,<3.14" = some range :=
    Option.isSome_iff_exists.mp (by decide +kernel)
  obtain ⟨v, hv⟩ : ∃ v, parseVersion ⟨1000, 4300⟩ "3.12" = some v :=
    Option.isSome_iff_exists.mp (by decide +kernel)
  have hin : ((parseSpec ⟨1000, 4300⟩ ">=3.11,<3.14").bind fun range =>
      (parseVersion ⟨1000, 4300⟩ "3.12").map (inRange range)) = some true := by decide +kernel
  rw [hrange, hv] at hin
  have hinside : inRange range v = true := Option.some.inj hin
  have hreport : detectConflicts ⟨1000, 4300⟩ sameRange = [⟨"python", ".", ">=3.11,<3.14",
      "packages/a", ">=3.11,<3.14", unsatisfiable⟩] := by decide +kernel
  refine ⟨by decide +kernel, hreport, fun h => ?_⟩
  have hdeclared : BothDeclare ⟨1000, 4300⟩ sameRange "python"
      ((".", ">=3.11,<3.14"), "packages/a", ">=3.11,<3.14") range range :=
    ⟨by decide +kernel, by decide, hrange, hrange⟩
  refine (h _ _ _ _ hdeclared).mp ?_ ⟨_, v, hv, hinside, hinside⟩
  rw [hreport]
  exact List.mem_singleton_self _

end DevRepro.Project
