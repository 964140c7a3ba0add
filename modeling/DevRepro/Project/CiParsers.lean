import DevRepro.Agents.Commands
import DevRepro.Lib.Dict

/-!
# Workflow files

`_parse_github_actions` and `parse_workflow_matrices` of `project/ci_parsers.py`: two
scanners that go through the lines of a workflow and tell from the indentation where a block
ends.
-/

namespace DevRepro.Project

open DevRepro.Python DevRepro.Lib DevRepro.Agents

structure CiToolchain where
  tool : Str
  spec : Str
  sourceFile : Str
  platform : Option Str
  deriving DecidableEq

/-- `_TOOLS`. -/
def ciTools : List Str := texts ["python", "node", "go", "java", "dotnet", "ruby", "php"]

/-- `_SETUP_ACTIONS`. -/
def setupActions : List (Str × Str) :=
  [("actions/setup-python", "python"), ("actions/setup-node", "node"), ("actions/setup-go", "go"),
    ("actions/setup-java", "java"), ("actions/setup-dotnet", "dotnet"),
    ("actions/setup-ruby", "ruby"), ("actions/setup-php", "php")]

/-! ## Patterns -/

/-- An interpreter in which no letter and no digit is whitespace. -/
structure WordRuntime extends AgentRuntime where
  isAlnum_space : ∀ c, isAlnum c = true → isSpace c = false

/-- Letters and digits of ASCII, for evaluation. -/
def WordRuntime.standard : WordRuntime where
  toAgentRuntime := .standard
  isAlnum_space := by
    intro c hc
    simp only [AgentRuntime.standard, Bool.or_eq_true, Bool.and_eq_true, decide_eq_true_eq] at hc
    simp only [isSpace, Bool.or_eq_false_iff, Bool.and_eq_false_iff, decide_eq_false_iff_not,
      beq_eq_false_iff_ne]
    omega

/-- `len(line) - len(line.lstrip())` -/
def indentOf (line : Str) : Nat := (line.takeWhile isSpace).length

/-- `_unquote`. -/
def unquote (v : Str) : Str := strip (stripChars isQuote (strip v))

/-- Nothing, or a comment, is left behind whitespace: `\s*(?:#.*)?$`. -/
def endsHere (s : Str) : Bool :=
  match s.dropWhile isSpace with
  | [] => true
  | c :: _ => c == codePoint '#'

/-- The shortest start of a text that `\s*(?:#.*)?$` matches behind. -/
def untilComment : Str → Str
  | [] => []
  | c :: rest => if endsHere (c :: rest) then [] else c :: untilComment rest

/-- `\s*(.+?)\s*(?:#.*)?$`: the text before a comment. -/
def plainText (s : Str) : Option Str :=
  match s.dropWhile isSpace with
  | [] => none
  | c :: rest => some (c :: untilComment rest)

/-- What stands behind a dash and whitespace, if there is a dash: `-?\s*`. -/
def behindDash (s : Str) : Str :=
  let rest := if startsWith s "-" then s.drop 1 else s
  rest.dropWhile isSpace

section Scanners

variable (rt : AgentRuntime)

/-- A character of `[\w-]`. -/
def isWordDash (c : CodePoint) : Bool := rt.isAlnum c || c == codePoint '_' || c == codePoint '-'

/-- A character of `[\w.-]`. -/
def isNameChar (c : CodePoint) : Bool := isWordDash rt c || c == codePoint '.'

/-- `-?\s*uses:\s*([\w.-]+/[\w.-]+)`: the action of a line. -/
def usesAction (stripped : Str) : Option Str :=
  let body := behindDash stripped
  if startsWith body "uses:" then
    let ref := (body.drop 5).dropWhile isSpace
    let owner := ref.takeWhile (isNameChar rt)
    match ref.drop owner.length with
    | [] => none
    | c :: rest =>
      let name := rest.takeWhile (isNameChar rt)
      if owner ≠ [] ∧ c = codePoint '/' ∧ name ≠ [] then some (owner ++ c :: name) else none
  else none

/-- `([\w-]+)-version:\s*(.+?)\s*(?:#.*)?$`: the tool and the version of a line. -/
def versionInput (stripped : Str) : Option (Str × Str) :=
  let key := stripped.takeWhile (isWordDash rt)
  let ending := lit "-version"
  let tool := key.take (key.length - ending.length)
  if tool ≠ [] ∧ key = tool ++ ending ∧ startsWith (stripped.drop key.length) ":" then
    (plainText (stripped.drop (key.length + 1))).map fun text => (tool, text)
  else none

/-- A name of `[\w.-]+` before a colon, and what is behind the colon. -/
def keyAndRest (text : Str) : Option (Str × Str) :=
  let key := text.takeWhile (isNameChar rt)
  if key ≠ [] ∧ startsWith (text.drop key.length) ":" then some (key, text.drop (key.length + 1))
  else none

/-- The text before the last `]` that nothing or a comment stands behind:
`(.*)\]\s*(?:#.*)?$`. -/
def upToBracket : Str → Option Str
  | [] => none
  | c :: rest =>
    match upToBracket rest with
    | some text => some (c :: text)
    | none => if c = codePoint ']' ∧ endsHere rest then some [] else none

/-- `_FLOW_LIST`. -/
def flowList (text : Str) : Option (Str × Str) :=
  (keyAndRest rt text).bind fun (key, rest) =>
    match rest.dropWhile isSpace with
    | c :: inside => if c = codePoint '[' then (upToBracket inside).map fun t => (key, t) else none
    | [] => none

/-- `_BLOCK_KEY`. -/
def blockKey (text : Str) : Option Str :=
  (keyAndRest rt text).bind fun (key, rest) => if endsHere rest then some key else none

/-- `_BLOCK_ITEM`. -/
def blockItem (text : Str) : Option Str :=
  if startsWith text "-" then plainText (text.drop 1) else none

/-- `^-?\s*([\w.-]+):\s*(.+?)\s*(?:#.*)?$`: a pair of an `include` entry. -/
def includePair (text : Str) : Option (Str × Str) :=
  let direct := (keyAndRest rt text).bind fun (key, rest) =>
    (plainText rest).map fun value => (key, value)
  let behind := (keyAndRest rt (behindDash text)).bind fun (key, rest) =>
    (plainText rest).map fun value => (key, value)
  if startsWith text "-" then behind.or direct else direct

/-- `_MATRIX_META`. -/
def matrixMeta : List Str := texts ["include", "exclude", "fail-fast"]

/-- `"${{" in s` -/
def isTemplate (s : Str) : Bool := containsText s "$\x7b\x7b"

/-! ## Matrices -/

/-- The axes of a job. -/
abbrev Axes := Dict Str (List Str)

/-- The variables of `parse_workflow_matrices`. -/
structure MatrixScan where
  matrices : Dict Str Axes
  jobsIndent : Option Nat
  job : Option Str
  jobIndent : Nat
  matrixIndent : Option Nat
  axis : Option Str
  axisIndent : Nat
  inInclude : Bool

def MatrixScan.initial : MatrixScan := ⟨Dict.empty, none, none, 0, none, none, 0, false⟩

/-- A value that counts: `value and "${{" not in value` -/
def countsAsValue (value : Str) : Bool := value != [] && !isTemplate value

/-- `if value not in values: values.append(value)` -/
def appendNew (values : List Str) (value : Str) : List Str :=
  if value ∈ values then values else values ++ [value]

/-- A value for an axis, with an empty list for a new one. -/
def addValue (axes : Axes) (key value : Str) : Axes :=
  axes.set key (appendNew ((axes.get? key).getD []) value)

/-- `axes.setdefault(key, [])` -/
def withAxis (axes : Axes) (key : Str) : Axes :=
  if axes.contains key then axes else axes.set key []

/-- The axes of a job, with the variables that its matrix is read with. -/
structure AxesScan where
  axes : Axes
  axis : Option Str
  axisIndent : Nat
  inInclude : Bool

/-- A line within a `matrix:` block. -/
def axesLine (s : AxesScan) (indent : Nat) (text : Str) : AxesScan :=
  if text = lit "include:" ∨ text = lit "exclude:" then
    { s with inInclude := decide (text = lit "include:"), axis := none, axisIndent := indent }
  else if s.inInclude && decide (s.axisIndent < indent) then
    match includePair rt text with
    | some (key, raw) =>
      if key ∉ matrixMeta ∧ countsAsValue (unquote raw) then
        { s with axes := addValue s.axes key (unquote raw) }
      else s
    | none => s
  else
    let flow := (flowList rt text).filter fun item => decide (item.1 ∉ matrixMeta)
    let block := (blockKey rt text).filter fun key => decide (key ∉ matrixMeta)
    match flow, block with
    | some (key, inside), _ =>
      let values := ((inside.splitOn (codePoint ',')).map unquote).filter countsAsValue
      { s with axes := s.axes.set key values, axis := none }
    | none, some key =>
      { s with axes := withAxis s.axes key, axis := some key, axisIndent := indent }
    | none, none =>
      match s.axis with
      | some key =>
        if s.axisIndent < indent then
          match blockItem text with
          | some raw =>
            if countsAsValue (unquote raw) then
              { s with axes := addValue s.axes key (unquote raw) }
            else s
          | none => s
        else s
      | none => s

/-- `matrices.setdefault(job, {})`, with the variables. -/
def MatrixScan.axesScan (s : MatrixScan) (job : Str) : AxesScan :=
  ⟨(s.matrices.get? job).getD Dict.empty, s.axis, s.axisIndent, s.inInclude⟩

/-- A line within the `matrix:` block of a job. -/
def matrixLine (s : MatrixScan) (job : Str) (indent : Nat) (text : Str) : MatrixScan :=
  let read := axesLine rt (s.axesScan job) indent text
  { s with
    matrices := s.matrices.set job read.axes
    axis := read.axis
    axisIndent := read.axisIndent
    inInclude := read.inInclude }

/-- A line within a job. -/
def jobLine (s : MatrixScan) (job : Str) (indent : Nat) (text : Str) : MatrixScan :=
  match s.matrixIndent with
  | none =>
    if text = lit "matrix:" then
      { s with
        matrixIndent := some indent
        matrices := if s.matrices.contains job then s.matrices else s.matrices.set job Dict.empty }
    else s
  | some matrixIndent =>
    if indent ≤ matrixIndent then
      { s with matrixIndent := none, axis := none, inInclude := false }
    else matrixLine rt s job indent text

/-- A line within the `jobs:` block. -/
def jobsLine (s : MatrixScan) (jobsIndent indent : Nat) (text : Str) : MatrixScan :=
  if indent ≤ jobsIndent ∧ text ≠ lit "jobs:" then
    { s with jobsIndent := none, job := none, matrixIndent := none }
  else
    let header :=
      if s.job.isNone || decide (indent ≤ s.jobIndent) then
        (blockKey rt text).filter fun _ => decide (jobsIndent < indent)
      else none
    match header, s.job with
    | some name, _ =>
      { s with
        job := some name
        jobIndent := indent
        matrixIndent := none
        axis := none
        inInclude := false }
    | none, some job => jobLine rt s job indent text
    | none, none => s

/-- A line that is blank or a comment. -/
def isFiller (line : Str) : Bool := strip line == [] || startsWith (line.dropWhile isSpace) "#"

/-- The loop of `parse_workflow_matrices`. -/
def scanLine (s : MatrixScan) (line : Str) : MatrixScan :=
  if isFiller line then s
  else
    let indent := indentOf line
    let text := strip line
    match s.jobsIndent with
    | none => if text = lit "jobs:" then { s with jobsIndent := some indent } else s
    | some jobsIndent => jobsLine rt s jobsIndent indent text

/-- The axes that have values. -/
def nonemptyAxes (axes : Axes) : Axes :=
  ⟨axes.items.filter fun item => item.2 != [], axes.nodup.sublist (List.filter_sublist.map _)⟩

/-- `parse_workflow_matrices`. -/
def parseWorkflowMatrices (lines : List Str) : Dict Str Axes :=
  (lines.foldl (scanLine rt) .initial).matrices.mapValues nonemptyAxes

/-- The name behind `${{ matrix.`, when the reference is closed:
`\$\{\{\s*matrix\.([\w.-]+)\s*\}\}` at the start of a text. -/
def matrixRefHere (s : Str) : Option Str :=
  if startsWith s "$\x7b\x7b" then
    let body := (s.drop 3).dropWhile isSpace
    if startsWith body "matrix." then
      let name := (body.drop 7).takeWhile (isNameChar rt)
      let behind := ((body.drop 7).dropWhile (isNameChar rt)).dropWhile isSpace
      if name ≠ [] ∧ startsWith behind "\x7d\x7d" then some name else none
    else none
  else none

/-- `_resolve_matrix_ref`. -/
def resolveMatrixRef (spec : Str) (axes : Axes) : List Str :=
  match spec.tails.findSome? (matrixRefHere rt) with
  | none => []
  | some name => (axes.get? name).getD []

/-! ## Steps -/

/-- The axes of all jobs, merged. -/
def mergedAxes (matrices : Dict Str Axes) : Axes :=
  (matrices.items.flatMap fun job => job.2.items).foldl (fun axes item =>
    axes.set item.1 (item.2.foldl appendNew ((axes.get? item.1).getD []))) Dict.empty

/-- What the scanner of steps remembers: the action with its indentation, and the runner. -/
structure StepScan where
  action : Option (Str × Nat)
  runsOn : Option Str

/-- The versions that a version input stands for. -/
def inputSpecs (axes : Axes) (spec : Str) : List Str :=
  if isTemplate spec then
    match resolveMatrixRef rt spec axes with
    | [] => [lit "*"]
    | value :: others => value :: others
  else [spec]

/-- What a line under an action declares. -/
def inputToolchains (axes : Axes) (rel : Str) (runsOn : Option Str) (action stripped : Str) :
    List CiToolchain :=
  match (versionInput rt stripped).filter fun input => decide (input.1 ∈ ciTools) with
  | some (tool, raw) =>
    (inputSpecs rt axes (unquote raw)).map fun value => ⟨tool, value, rel, runsOn⟩
  | none =>
    match setupActions.find? fun entry => decide (entry.1 = action) with
    | some (_, tool) =>
      if startsWith stripped "version:" then
        let v := unquote (stripped.drop 8)
        if v ≠ [] then [⟨tool, v, rel, runsOn⟩] else []
      else []
    | none => []

/-- The runner that a line names. -/
def runnerOf (axes : Axes) (runsOn : Option Str) (stripped : Str) : Option Str :=
  if startsWith stripped "runs-on:" then
    match (stripped.drop 8).dropWhile isSpace with
    | [] => runsOn
    | c :: rest =>
      let raw := unquote (stripEnd isSpace (c :: rest))
      if isTemplate raw then
        match resolveMatrixRef rt raw axes with
        | [] => some raw
        | value :: others => some (join ", " (value :: others))
      else some raw
  else runsOn

/-- One line of the loop of `_parse_github_actions`: what it declares, and what is
remembered. -/
def stepLineOf (axes : Axes) (rel : Str) (s : StepScan) (line : Str) :
    List CiToolchain × StepScan :=
  let stripped := strip line
  let indent := indentOf line
  match usesAction rt stripped with
  | some action => ([], { s with action := some (action, indent) })
  | none =>
    let found :=
      match s.action with
      | some (action, actionIndent) =>
        if actionIndent < indent then inputToolchains rt axes rel s.runsOn action stripped else []
      | none => []
    let action := s.action.filter fun item => decide (item.2 < indent)
    (found, ⟨action, runnerOf rt axes s.runsOn stripped⟩)

/-- The loop of `_parse_github_actions`. -/
def scanSteps (axes : Axes) (rel : Str) : StepScan → List Str → List CiToolchain
  | _, [] => []
  | s, line :: rest =>
    (stepLineOf rt axes rel s line).1 ++ scanSteps axes rel (stepLineOf rt axes rel s line).2 rest

/-- `_parse_github_actions`, for the lines of a workflow. -/
def parseGithubActions (rel : Str) (lines : List Str) : List CiToolchain :=
  scanSteps rt (mergedAxes (parseWorkflowMatrices rt lines)) rel ⟨none, none⟩ lines

end Scanners

end DevRepro.Project
