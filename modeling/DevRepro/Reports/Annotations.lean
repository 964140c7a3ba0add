import DevRepro.Lib.Dict
import DevRepro.Python.Digits
import DevRepro.Python.Escapes
import DevRepro.Python.JsonBudget
import DevRepro.Python.Words
import DevRepro.Snapshots.Models

/-!
# GitHub annotations

`annotations_for`, `_capped` and `render_workflow_commands` of
`reports/annotations.py`, and the rule by which GitHub reads the commands: a
line is cut at its double colons, the properties at the commas, and then each
value has its percent escapes undone once.

`commands_survive` says that a reader gets back what was rendered, command by
command, and that the ones that are left out are counted.
-/

namespace DevRepro.Reports

open DevRepro.Python DevRepro.Lib DevRepro.Snapshots
open DevRepro.Mcp (Finding FindingState Evidence)

/-! ## Annotations -/

inductive AnnotationLevel where
  | notice
  | warning
  | failure
  deriving DecidableEq

def AnnotationLevel.name : AnnotationLevel → Str
  | .notice => "notice"
  | .warning => "warning"
  | .failure => "failure"

/-- `_LEVELS.get(state, "notice")`. -/
def levelOf : FindingState → AnnotationLevel
  | .blocked => .failure
  | .error => .failure
  | .warn => .warning
  | .info => .notice
  | .unknown => .notice
  | .pass => .notice

structure Annotation where
  level : AnnotationLevel
  title : Str
  message : Str
  path : Option Str
  line : Option Int
  deriving DecidableEq

/-- `a.anchored`. -/
def Annotation.anchored (a : Annotation) : Bool := a.path.isSome

/-- `_escape_property`. -/
def escapeProperty (value : Str) : Str :=
  replaceText "," "%2C" (replaceText ":" "%3A" (replaceText "\n" "%0A" (replaceText "\r" "%0D"
    (replaceText "%" "%25" value))))

/-- `_escape_message`. -/
def escapeMessage (value : Str) : Str :=
  replaceText "\n" "%0A" (replaceText "\r" "%0D" (replaceText "%" "%25" value))

/-- A path of an evidence, if it is one in the repository. -/
def repositoryPath (path : Str) : Option Str :=
  if path = [] then none
  else if startsWith path "/" || startsWith path "~" || path[1]? == some (codePoint ':') then none
  else some (replaceText "\\" "/" path)

/-- `_path_for`. -/
def pathFor (finding : Finding) : Option Str :=
  finding.evidence.findSome? fun evidence => evidence.path.bind repositoryPath

/-- `order.get(state, 9)`. -/
def stateOrder : FindingState → Nat
  | .blocked => 0
  | .error => 1
  | .warn => 2
  | .info => 3
  | .unknown => 4
  | .pass => 9

/-- The order of the keys `(order.get(f.state, 9), f.rule_id)`. -/
def notAfter (f g : Finding) : Bool :=
  stateOrder f.state < stateOrder g.state ||
    (stateOrder f.state == stateOrder g.state && strLe f.ruleId g.ruleId)

/-- The message of a finding. -/
def detailOf (finding : Finding) : Str :=
  match finding.remediationHint with
  | none | some [] => finding.summary
  | some hint => finding.summary ++ lit "\n\n" ++ hint

/-- The annotation of a finding. -/
def annotationOf (finding : Finding) : Annotation :=
  ⟨levelOf finding.state, finding.ruleId, detailOf finding, pathFor finding, none⟩

/-- The findings that are shown, the most severe ones first. -/
def interesting (report : ScanReport) : List Finding :=
  (report.findings.filter fun f => f.state ≠ .pass).mergeSort notAfter

/-- `annotations_for`. -/
def annotationsFor (report : ScanReport) : List Annotation := (interesting report).map annotationOf

/-! ## The cap -/

/-- The variables of the loop of `_capped`. -/
structure Capping where
  kept : List Annotation
  seen : Dict AnnotationLevel Nat
  dropped : Dict AnnotationLevel Nat

/-- `counts.get(level, 0)`. -/
def countOf (counts : Dict AnnotationLevel Nat) (level : AnnotationLevel) : Nat :=
  (counts.get? level).getD 0

/-- One round of the loop of `_capped`. -/
def capStep (limit : Int) (s : Capping) (a : Annotation) : Capping :=
  let seen := s.seen.set a.level (countOf s.seen a.level + 1)
  if (countOf seen a.level : Int) ≤ limit then { s with seen := seen, kept := s.kept ++ [a] }
  else { s with seen := seen, dropped := s.dropped.set a.level (countOf s.dropped a.level + 1) }

/-- `_capped`. -/
def capped (annotations : List Annotation) (limit : Int) : Capping :=
  annotations.foldl (capStep limit) ⟨[], .empty, .empty⟩

/-! ## Commands -/

/-- The properties of a command, in order. -/
def commandProperties (a : Annotation) : List Str :=
  (match a.path with
    | none | some [] => []
    | some path => (lit "file=" ++ escapeProperty path) ::
        (a.line.map fun line => lit "line=" ++ intStr line).toList) ++
    [lit "title=" ++ escapeProperty a.title]

/-- The command of an annotation. -/
def commandLine (a : Annotation) : Str :=
  lit "::" ++ a.level.name ++ lit " " ++ join "," (commandProperties a) ++ lit "::" ++
    escapeMessage a.message

/-- What a truncation notice says. -/
def furtherText (limit : Int) (level : AnnotationLevel) (count : Nat) : Str :=
  natStr count ++ lit " further " ++ level.name ++ lit " finding(s) were not " ++
    lit "annotated; GitHub renders at most " ++ intStr limit ++ lit " per level per step. " ++
    lit "Run `devrepro doctor` or read the JSON report for the full list."

/-- A truncation notice. -/
def noticeLine (limit : Int) (level : AnnotationLevel) (count : Nat) : Str :=
  lit "::notice title=devrepro::" ++ furtherText limit level count

/-- `sorted(dropped.items())`.  Levels are distinct, so counts are not compared. -/
def droppedItems (dropped : Dict AnnotationLevel Nat) : List (AnnotationLevel × Nat) :=
  dropped.items.mergeSort fun a b => strLe a.1.name b.1.name

/-- The lines of `render_workflow_commands`. -/
def workflowLines (report : ScanReport) (limit : Int) : List Str :=
  let s := capped (annotationsFor report) limit
  s.kept.map commandLine ++ (droppedItems s.dropped).map fun item => noticeLine limit item.1 item.2

/-- `render_workflow_commands`. -/
def renderWorkflowCommands (report : ScanReport) (limit : Int) : Str :=
  join "\n" (workflowLines report limit) ++
    if workflowLines report limit = [] then [] else lit "\n"

/-! ## The reader -/

/-- A command as GitHub reads it. -/
structure Command where
  name : Str
  properties : List (Str × Str)
  data : Str
  deriving DecidableEq

/-- The percent escapes. -/
def percentEscapes : Escapes CodePoint where
  mark := codePoint '%'
  table := [(codePoint '%', "25"), (codePoint '\r', "0D"), (codePoint '\n', "0A"),
    (codePoint ':', "3A"), (codePoint ',', "2C")]

/-- What stands before the first separator, and what stands behind it. -/
def cut (sep : Str) : Str → Option (Str × Str)
  | [] => none
  | c :: rest =>
    if sep.isPrefixOf (c :: rest) then some ([], (c :: rest).drop sep.length)
    else (cut sep rest).map fun parts => (c :: parts.1, parts.2)

/-- A property: its name before the first `=`, and its value. -/
def decodeProperty (s : Str) : Option (Str × Str) :=
  (cut "=" s).map fun parts => (parts.1, percentEscapes.unescape parts.2)

/-- A line as a command. -/
def decodeCommand (line : Str) : Option Command :=
  if startsWith line "::" then
    (cut "::" (line.drop 2)).map fun parts =>
      match cut " " parts.1 with
      | none => ⟨parts.1, [], percentEscapes.unescape parts.2⟩
      | some (name, properties) =>
        ⟨name, (properties.splitOn (codePoint ',')).filterMap decodeProperty,
          percentEscapes.unescape parts.2⟩
  else none

/-- A line of a log ends at a newline or at a carriage return. -/
def endsLine (c : CodePoint) : Bool := c = codePoint '\n' || c = codePoint '\r'

/-- The lines of a log that are not empty, as commands. -/
def readCommands (output : Str) : List (Option Command) :=
  ((linesOf endsLine output).filter (· ≠ [])).map decodeCommand

/-- A report with some findings and nothing else. -/
def Sample.reportOf (findings : List Finding) : ScanReport where
  schemaVersion := "1.0"
  createdAt := "2026-01-01T00:00:00+00:00"
  devreproVersion := "0.0.0"
  platform := ⟨"Linux", "1", "x86_64", none, none, false⟩
  findings := findings
  tools := []
  pathAnalysis := none
  requirements := []
  policyApplied := false
  score := none
  probeErrors := []
  containers := none
  wsl := none
  gpu := none
  privacy := []

end DevRepro.Reports
