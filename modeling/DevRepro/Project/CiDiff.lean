import DevRepro.Project.CiParsers
import DevRepro.Project.Monorepo
import DevRepro.Python.JsonDump

/-!
# The machine against CI

`local_vs_ci_diff` of `project/ci_parsers.py`.  The values of a matrix axis are alternatives,
and the comparison asks for all of them: `legMatches_iff` says for which axes and versions
that makes no difference.
-/

namespace DevRepro.Project

open DevRepro.Python DevRepro.Lib DevRepro.Core

/-! ## The rows -/

inductive CiStatus where
  | match
  | mismatch
  | unknownLocal
  | wildcard
  | ciAbsent
  deriving DecidableEq

structure CiRow where
  tool : Str
  ciSpec : Str
  sourceFile : Str
  localVersion : Str
  status : CiStatus
  detail : Str
  deriving DecidableEq

/-- `by_tool.get(tool, [])` -/
def declarationsOf (ci : List CiToolchain) (tool : Str) : List CiToolchain :=
  ci.filter fun t => decide (t.tool = tool)

/-- `d.spec in ("*", "")` -/
def isWildcard (spec : Str) : Bool := spec == lit "*" || spec == []

variable (limits : Limits)

/-- `all(parse_spec(d.spec).satisfied_by(lv) for d in pinned)`; `none` for an error on the
way. -/
def allSatisfied (lv : Version) : List CiToolchain → Option Bool
  | [] => some true
  | d :: rest =>
    match parseSpec limits d.spec with
    | none => none
    | some range => if inRange range lv then allSatisfied lv rest else some false

/-- Whether a version of the machine passes for the declarations of a tool. -/
def localOk (decls : List CiToolchain) (version : Str) : Bool :=
  let pinned := decls.filter fun d => !isWildcard d.spec
  match (parseVersion limits version).bind fun lv => allSatisfied limits lv pinned with
  | some ok => ok
  | none => decide (version ∈ decls.map CiToolchain.spec)

/-- `specs` -/
def specsText (decls : List CiToolchain) : Str :=
  let joined := join "; " (decls.map CiToolchain.spec)
  if joined = [] then lit "-" else joined

/-- The status of a tool, and what it says. -/
def ciVerdict (tool : Str) (decls : List CiToolchain) (version : Option Str) : CiStatus × Str :=
  let specs := specsText decls
  if decls = [] then (.ciAbsent, lit "declared locally but not pinned in CI")
  else if decls.any fun d => isWildcard d.spec then
    (.wildcard, lit "CI does not pin an exact/range version")
  else
    match version with
    | none =>
      (.unknownLocal, lit "CI requires " ++ specs ++ lit "; no local " ++ tool ++ lit " detected")
    | some version =>
      if localOk limits decls version then
        (.match, lit "local " ++ tool ++ lit " " ++ version ++ lit " satisfies CI (" ++ specs ++
          lit ")")
      else
        (.mismatch, lit "CI pins " ++ specs ++ lit " but local " ++ tool ++ lit " is " ++ version ++
          lit "; this explains CI-vs-machine behavior differences")

/-- The row of a tool. -/
def ciRow (ci : List CiToolchain) (versions : Dict Str Str) (tool : Str) : CiRow :=
  let decls := declarationsOf ci tool
  let verdict := ciVerdict limits tool decls (versions.get? tool)
  { tool := tool
    ciSpec := specsText decls
    sourceFile := (decls.head?.map CiToolchain.sourceFile).getD "-"
    localVersion := ((versions.get? tool).filter fun v => v ≠ []).getD "-"
    status := verdict.1
    detail := verdict.2 }

/-- `local_vs_ci_diff`. -/
def localVsCiDiff (ci : List CiToolchain) (versions : Dict Str Str) : List CiRow :=
  ((ci.map CiToolchain.tool ++ versions.items.map Prod.fst).dedup.mergeSort strLe).map
    (ciRow limits ci versions)

/-! ## One leg of a matrix -/

/-- What one templated declaration becomes: a declaration for each value of the axis. -/
def axisDeclarations (tool rel : Str) (platform : Option Str) (values : List Str) :
    List CiToolchain :=
  values.map fun value => ⟨tool, value, rel, platform⟩

/-- The values of an axis, pinned and readable, and a version of the machine that is
readable. -/
structure Legs (values : List Str) (version : Str) (lv : Version) : Prop where
  nonempty : values ≠ []
  pinned : ∀ value ∈ values, isWildcard value = false
  readable : ∀ value ∈ values, (parseSpec limits value).isSome = true
  version : parseVersion limits version = some lv

/-- A version satisfies a declared value. -/
def Satisfies (lv : Version) (value : Str) : Prop :=
  ∃ range, parseSpec limits value = some range ∧ inRange range lv = true

/-- The tool is reported as a match exactly when the version satisfies one of the values. -/
def LegMatches (ci : List CiToolchain) (versions : Dict Str Str) (tool : Str) (values : List Str)
    (lv : Version) : Prop :=
  (∃ row ∈ localVsCiDiff limits ci versions, row.tool = tool ∧ row.status = .match) ↔
    ∃ value ∈ values, Satisfies limits lv value

variable {limits}

theorem allSatisfied_iff {lv : Version} {decls : List CiToolchain}
    (h : ∀ d ∈ decls, (parseSpec limits d.spec).isSome = true) :
    ∃ ok, allSatisfied limits lv decls = some ok ∧
      (ok = true ↔ ∀ d ∈ decls, Satisfies limits lv d.spec) := by
  induction decls with
  | nil => exact ⟨true, rfl, by simp⟩
  | cons d rest ih =>
    obtain ⟨range, hrange⟩ := Option.isSome_iff_exists.mp (h d List.mem_cons_self)
    have hd : Satisfies limits lv d.spec ↔ inRange range lv = true := by
      rw [Satisfies, hrange]
      simp
    rw [allSatisfied, hrange]
    dsimp only
    by_cases hin : inRange range lv = true
    · obtain ⟨ok, hok, hall⟩ := ih fun e he => h e (List.mem_cons_of_mem _ he)
      rw [if_pos hin]
      refine ⟨ok, hok, ?_⟩
      rw [hall, List.forall_mem_cons, hd, and_iff_right hin]
    · rw [if_neg hin]
      refine ⟨false, rfl, iff_of_false Bool.false_ne_true fun hall => hin ?_⟩
      exact hd.mp (hall d List.mem_cons_self)

/-- The rows are those of the tools. -/
theorem mem_localVsCiDiff {ci : List CiToolchain} {versions : Dict Str Str} {row : CiRow} :
    row ∈ localVsCiDiff limits ci versions ↔
      ∃ tool, (tool ∈ ci.map CiToolchain.tool ∨ tool ∈ versions.items.map Prod.fst) ∧
        ciRow limits ci versions tool = row := by
  rw [localVsCiDiff, List.mem_map]
  simp only [List.mem_mergeSort, List.mem_dedup, List.mem_append]

/-- The declarations of an axis match when the version satisfies all of the values. -/
theorem ciRow_match_iff {ci : List CiToolchain} {versions : Dict Str Str} {tool rel version : Str}
    {platform : Option Str} {values : List Str} {lv : Version}
    (hlegs : Legs limits values version lv)
    (hci : declarationsOf ci tool = axisDeclarations tool rel platform values)
    (hversion : versions.get? tool = some version) :
    (ciRow limits ci versions tool).status = .match ↔
      ∀ value ∈ values, Satisfies limits lv value := by
  have hdecls : axisDeclarations tool rel platform values ≠ [] := by
    rw [axisDeclarations, ne_eq, List.map_eq_nil_iff]
    exact hlegs.nonempty
  have hpinned : ∀ d ∈ axisDeclarations tool rel platform values, isWildcard d.spec = false := by
    intro d hd
    obtain ⟨value, hvalue, rfl⟩ := List.mem_map.mp hd
    exact hlegs.pinned value hvalue
  have hwild : ((axisDeclarations tool rel platform values).any fun d => isWildcard d.spec) = false := by
    rw [List.any_eq_false]
    intro d hd
    rw [hpinned d hd]
    exact Bool.false_ne_true
  have hall : (axisDeclarations tool rel platform values).filter (fun d => !isWildcard d.spec) =
      axisDeclarations tool rel platform values := by
    rw [List.filter_eq_self]
    intro d hd
    rw [hpinned d hd]
    rfl
  obtain ⟨ok, hok, hiff⟩ := @allSatisfied_iff limits lv (axisDeclarations tool rel platform values)
    (by
      intro d hd
      obtain ⟨value, hvalue, rfl⟩ := List.mem_map.mp hd
      exact hlegs.readable value hvalue)
  have hlocal : localOk limits (axisDeclarations tool rel platform values) version = ok := by
    rw [localOk, hall, hlegs.version, Option.bind_some, hok]
  have hvalues : (∀ d ∈ axisDeclarations tool rel platform values, Satisfies limits lv d.spec) ↔
      ∀ value ∈ values, Satisfies limits lv value := by
    rw [axisDeclarations, List.forall_mem_map]
  rw [← hvalues, ← hiff, ciRow]
  dsimp only
  rw [hci, hversion, ciVerdict, if_neg hdecls,
    if_neg (by rw [hwild]; exact Bool.false_ne_true)]
  rw [hlocal]
  cases ok with
  | true => exact iff_of_true rfl rfl
  | false => exact iff_of_false (fun h => nomatch h) Bool.false_ne_true

/-- A version that satisfies one of the values is a match, and no other is, exactly when it
satisfies all of the values or none. -/
theorem legMatches_iff {ci : List CiToolchain} {versions : Dict Str Str} {tool rel version : Str}
    {platform : Option Str} {values : List Str} {lv : Version}
    (hlegs : Legs limits values version lv)
    (hci : declarationsOf ci tool = axisDeclarations tool rel platform values)
    (hversion : versions.get? tool = some version) :
    LegMatches limits ci versions tool values lv ↔
      (∀ value ∈ values, Satisfies limits lv value) ∨ ∀ value ∈ values, ¬Satisfies limits lv value := by
  have htool : tool ∈ ci.map CiToolchain.tool := by
    obtain ⟨value, rest, hcons⟩ := List.exists_cons_of_ne_nil hlegs.nonempty
    have hmem : (⟨tool, value, rel, platform⟩ : CiToolchain) ∈ declarationsOf ci tool := by
      rw [hci, hcons]
      exact List.mem_cons_self
    exact List.mem_map.mpr ⟨_, (List.mem_filter.mp hmem).1, rfl⟩
  have hrow : (∃ row ∈ localVsCiDiff limits ci versions, row.tool = tool ∧ row.status = .match) ↔
      (ciRow limits ci versions tool).status = .match := by
    constructor
    · rintro ⟨row, hrow, hname, hstatus⟩
      obtain ⟨other, -, rfl⟩ := mem_localVsCiDiff.mp hrow
      obtain rfl : other = tool := hname
      exact hstatus
    · intro hstatus
      exact ⟨_, mem_localVsCiDiff.mpr ⟨tool, Or.inl htool, rfl⟩, rfl, hstatus⟩
  rw [LegMatches, hrow, ciRow_match_iff hlegs hci hversion]
  constructor
  · intro h
    by_cases hsome : ∃ value ∈ values, Satisfies limits lv value
    · exact Or.inl (h.mpr hsome)
    · exact Or.inr fun value hvalue hsat => hsome ⟨value, hvalue, hsat⟩
  · rintro (hall | hnone)
    · obtain ⟨value, rest, hcons⟩ := List.exists_cons_of_ne_nil hlegs.nonempty
      have hmem : value ∈ values := hcons ▸ List.mem_cons_self
      exact iff_of_true hall ⟨value, hmem, hall value hmem⟩
    · obtain ⟨value, rest, hcons⟩ := List.exists_cons_of_ne_nil hlegs.nonempty
      have hmem : value ∈ values := hcons ▸ List.mem_cons_self
      refine iff_of_false (fun hall => hnone value hmem (hall value hmem)) ?_
      rintro ⟨other, hother, hsat⟩
      exact hnone other hother hsat

/-- A workflow that tests two versions of Python. -/
def twoLegs : List Str :=
  ["jobs:", "  test:", "    strategy:", "      matrix:", "        py: [3.11, 3.12]", "    steps:",
    "      - uses: actions/setup-python@v5", "        with:",
    "          python-version: $\x7b\x7b matrix.py \x7d\x7d"]

/-- What the workflow declares. -/
def twoLegsDeclared : List CiToolchain := axisDeclarations "python" "ci.yml" none ["3.11", "3.12"]

/-- A machine with one version of Python. -/
def pythonOnly (version : Str) : Dict Str Str := Dict.empty.set "python" version

theorem bothLegs_match :
    LegMatches ⟨1000, 4300⟩ twoLegsDeclared (pythonOnly "3.12.4") "python" ["3.11", "3.12"]
      ⟨[3, 12, 4], none⟩ := by
  have hlegs : Legs ⟨1000, 4300⟩ ["3.11", "3.12"] "3.12.4" ⟨[3, 12, 4], none⟩ :=
    ⟨List.cons_ne_nil _ _, by decide, by decide +kernel, by decide +kernel⟩
  refine (legMatches_iff hlegs rfl rfl).mpr (Or.inl ?_)
  have hin : (List.all [lit "3.11", lit "3.12"] fun value =>
      ((parseSpec ⟨1000, 4300⟩ value).map fun range => inRange range ⟨[3, 12, 4], none⟩) = some true) =
        true := by decide +kernel
  intro value hvalue
  have hsome := List.all_eq_true.mp hin value hvalue
  rw [decide_eq_true_iff, Option.map_eq_some_iff] at hsome
  exact hsome

/-- Python 3.11 runs the first leg, and the machine is reported as a mismatch. -/
theorem oneLeg_mismatch :
    parseGithubActions .standard "ci.yml" twoLegs = twoLegsDeclared ∧
      (localVsCiDiff ⟨1000, 4300⟩ twoLegsDeclared (pythonOnly "3.11.4")).map
        (fun row => (row.tool, row.status)) = [(lit "python", .mismatch)] ∧
      ¬LegMatches ⟨1000, 4300⟩ twoLegsDeclared (pythonOnly "3.11.4") "python" ["3.11", "3.12"]
        ⟨[3, 11, 4], none⟩ := by
  have hrows : (localVsCiDiff ⟨1000, 4300⟩ twoLegsDeclared (pythonOnly "3.11.4")).map
      (fun row => (row.tool, row.status)) = [(lit "python", .mismatch)] := by decide +kernel
  refine ⟨by decide +kernel, hrows, fun h => ?_⟩
  have hsatisfied : Satisfies ⟨1000, 4300⟩ ⟨[3, 11, 4], none⟩ "3.11" := by
    have hin : (parseSpec ⟨1000, 4300⟩ "3.11").map (fun range => inRange range ⟨[3, 11, 4], none⟩) =
        some true := by decide +kernel
    exact Option.map_eq_some_iff.mp hin
  obtain ⟨row, hrow, -, hstatus⟩ := h.mpr ⟨_, List.mem_cons_self, hsatisfied⟩
  have hmem := List.mem_map_of_mem (f := fun row : CiRow => (row.tool, row.status)) hrow
  rw [hrows, List.mem_singleton, hstatus] at hmem
  have heq : CiStatus.match = CiStatus.mismatch := congrArg Prod.snd hmem
  cases heq

end DevRepro.Project
