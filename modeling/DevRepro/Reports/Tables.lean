import DevRepro.Diff.Engine
import DevRepro.Lib.Escapes
import DevRepro.Lib.Lines
import DevRepro.Privacy.Gate
import DevRepro.Reports.Annotations

/-!
# Markdown tables

`_cell`, `render_guard_comment` and `render_diff_markdown` of
`reports/renderers.py`, and the rule by which GitHub reads a table: a row is a
line, an unescaped pipe separates its cells, and the pipes at its ends may be left
out.

A cell holds a text or a code span.  In a text `\\` and `\|` stand for one
character, in a code span only `\|` does.  White space around a cell is not part of
it.
-/

namespace DevRepro.Reports

open DevRepro.Python DevRepro.Lib DevRepro.Privacy DevRepro.Diff
open DevRepro.Mcp (Finding)

/-! ## Rows -/

/-- The line breaks of a text as spaces. -/
def oneLine (s : Str) : Str :=
  replaceText "\r" " " (replaceText "\n" " " (replaceText "\r\n" " " s))

/-- `_cell`. -/
def cell (text : Str) : Str :=
  strip (oneLine (replaceText "|" "\\|" (replaceText "\\" "\\\\" text)))

/-- `| a | b |`. -/
def tableRow (cells : List Str) : Str :=
  lit "|" ++ cells.flatMap fun text => lit " " ++ (text ++ lit " |")

/-- `` `text` ``. -/
def codeSpan (text : Str) : Str := lit "`" ++ (text ++ lit "`")

/-! ## The guard comment -/

/-- A `ContractChange`, of any kind. -/
structure ContractChange where
  path : Str
  kind : Str

def guardCommentMarker : Str := "<!-- devrepro-doctor: environment-contract guard -->"

def changesHeader : Str := "| File | Kind |"

def changeRow (change : ContractChange) : Str := tableRow [codeSpan change.path, change.kind]

/-- `finding.remediation_hint or ...`. -/
def fixHint (finding : Finding) : Str :=
  match finding.remediationHint with
  | none | some [] => lit "See `devrepro explain " ++ finding.ruleId ++ lit "`."
  | some hint => hint

def blockingHeader : Str := "| Rule | What it means | Fix |"

def blockingRow (finding : Finding) : Str :=
  tableRow [codeSpan finding.ruleId, cell finding.summary, cell (fixHint finding)]

/-- `_guard_footer`. -/
def guardFooter (scope : Str) : Str :=
  lit "<sub>`devrepro guard --scope " ++ scope ++
    lit "` — read-only scan, no data left this machine. " ++
    lit "Run `devrepro doctor` locally for the full report.</sub>"

def guardVerdict (blocking : List Finding) (scanned : Bool) : Str :=
  if blocking ≠ [] then
    lit "### Environment contract: blocked by " ++ natStr blocking.length ++ lit " finding(s)"
  else if scanned = false then "### Environment contract: unchanged"
  else "### Environment contract: ok"

/-- The table of the changed files. -/
def changesPart (changes : List ContractChange) : List Str :=
  if changes = [] then []
  else
    [lit "<details><summary>", natStr changes.length ++ lit " contract file(s) changed",
      lit "</summary>", [], changesHeader, lit "|---|---|"] ++ changes.map changeRow ++
      [[], lit "</details>", []]

/-- The table of the findings that block. -/
def blockingPart (blocking : List Finding) : List Str :=
  if blocking = [] then
    ["Every rule the changed files could affect passes on this machine.", ""]
  else [blockingHeader, lit "|---|---|---|"] ++ blocking.map blockingRow ++ [[]]

/-- `render_guard_comment`. -/
def renderGuardComment (scope : Str) (changes : List ContractChange) (blocking : List Finding)
    (scanned : Bool) : Str :=
  let opening := [guardCommentMarker, [], guardVerdict blocking scanned, []]
  if scanned = false then
    join "\n" (opening ++
      [lit "No lockfile, manifest, toolchain pin, CI workflow, container definition or " ++
        lit "policy changed, so the machine was not re-checked.", [], guardFooter scope]) ++ lit "\n"
  else
    join "\n" (opening ++ changesPart changes ++ blockingPart blocking ++ [guardFooter scope]) ++
      lit "\n"

/-! ## The diff -/

/-- The value of a classification. -/
def classificationText : DiffClassification → Str
  | .same => "same"
  | .versionDrift => "version-drift"
  | .missing => "missing"
  | .extra => "extra"
  | .pathPrecedence => "path-precedence"
  | .platformExpected => "platform-expected"
  | .projectCritical => "project-critical"

/-- `value or '—'`. -/
def valueOrDash : Option Str → Str
  | none | some [] => "—"
  | some value => value

/-- `diff.counts()` with its items sorted. -/
def sortedCounts (diff : EnvironmentDiff) : List (Str × Nat) :=
  let names := diff.entries.map fun e => classificationText e.classification
  (names.dedup.mergeSort strLe).map fun name => (name, names.count name)

def diffHeader : Str := "| Component | Name | Classification | A | B | Critical |"

def diffRow (e : DiffEntry) : Str :=
  tableRow [e.component, e.name, classificationText e.classification, valueOrDash e.aValue,
    valueOrDash e.bValue, if e.projectCritical then "yes" else ""]

/-- The text of `render_diff_markdown`, as it is handed to the redaction. -/
def diffMarkdown (diff : EnvironmentDiff) : Str :=
  join "\n" ([lit "# Environment diff " ++ diff.aSnapshotId ++ lit " → " ++ diff.bSnapshotId, [],
    lit "Summary: " ++ join ", " ((sortedCounts diff).map fun item =>
      item.1 ++ lit "=" ++ natStr item.2), [], diffHeader, lit "|---|---|---|---|---|---|"] ++
    diff.entries.map diffRow)

/-- `render_diff_markdown`, with `assert_no_secrets` as a parameter. -/
def renderDiffMarkdown {normcase : Str → Str} (gate : PrivacyGate normcase)
    (assertNoSecrets : Str → Except Exc Unit) (diff : EnvironmentDiff) : Except Exc Str := do
  let text := gate.redact (diffMarkdown diff)
  assertNoSecrets text
  return text

/-! ## The reader -/

/-- The escapes of a text in a cell. -/
def cellEscapes : Escapes CodePoint where
  mark := codePoint '\\'
  table := [(codePoint '\\', "\\"), (codePoint '|', "|")]

/-- The escapes of a code span in a cell. -/
def pipeEscapes : Escapes CodePoint where
  mark := codePoint '\\'
  table := [(codePoint '|', "|")]

/-- Without a first cell that is blank. -/
def dropBlank : List Str → List Str
  | [] => []
  | first :: rest => if strip first = [] then rest else first :: rest

/-- The cells of a row. -/
def rowCells (row : Str) : List Str :=
  (dropBlank (dropBlank (pieces (codePoint '\\') (codePoint '|') row)).reverse).reverse

/-- The text of a cell that holds a text. -/
def cellText (cell : Str) : Str := cellEscapes.unescape (strip cell)

/-- The text of a cell that holds a code span. -/
def cellCode (cell : Str) : Option Str :=
  let inner := ((strip cell).drop 1).dropLast
  if strip cell = codeSpan inner ∧ codePoint '\x60' ∉ inner then
    some (pipeEscapes.unescape (strip inner))
  else none

/-- What a cell is meant to hold. -/
inductive Field where
  | text (value : Str)
  | code (value : Str)

/-- A cell holds a field, with its line breaks as spaces. -/
def Field.HeldBy : Field → Str → Prop
  | .text value, cell => cellText cell = strip (oneLine value)
  | .code value, cell => cellCode cell = some (strip (oneLine value))

/-- The lines of some rows are one row for each item, with a cell for each column of the
header that holds the field of the item. -/
def TableReads {ι : Type} (header : Str) (fields : ι → List Field) (items : List ι)
    (rows : List Str) : Prop :=
  List.Forall₂
    (fun item line => (rowCells line).length = (rowCells header).length ∧
      List.Forall₂ Field.HeldBy (fields item) (rowCells line))
    items (rows.flatMap (linesOf endsLine))

def changeFields (change : ContractChange) : List Field := [.code change.path, .text change.kind]

def blockingFields (finding : Finding) : List Field :=
  [.code finding.ruleId, .text finding.summary, .text (fixHint finding)]

def diffFields (e : DiffEntry) : List Field :=
  [.text e.component, .text e.name, .text (classificationText e.classification),
    .text (valueOrDash e.aValue), .text (valueOrDash e.bValue),
    .text (if e.projectCritical then "yes" else "")]

end DevRepro.Reports
