import DevRepro.Project.CiParsers
import DevRepro.Snapshots.Models

/-!
# The files of version managers

`.tool-versions` and `mise.toml`, as `_php_ruby_java_deps` of `project/detectors.py` reads
them and as `parse_tool_versions` and `parse_mise_toml_tools` of `envmanagers/diagnostics.py`
do, and what the lines look like of which both make the same.
-/

namespace DevRepro.Project

open DevRepro.Python DevRepro.Lib DevRepro.Agents DevRepro.Snapshots

/-! ## The detector -/

/-- `_req`, without the fields that most detectors leave out. -/
def req (ecosystem name spec : Str) (kind : RequirementKind) (source : Str) : ProjectRequirement :=
  ⟨ecosystem, name, if spec = [] then lit "*" else spec, kind, source, false, none⟩

/-- The tool and the version that the detector takes from a line of `.tool-versions`. -/
def toolVersionsLine (line : Str) : Option (Str × Str) :=
  match words line with
  | name :: version :: _ => some (name, version)
  | _ => none

/-- The requirements of `.tool-versions`. -/
def toolVersionsReqs (source text : Str) : List ProjectRequirement :=
  ((splitlines text).filterMap toolVersionsLine).map fun item =>
    req "generic" (lit "tool-versions:" ++ item.1) item.2 .tool source

def isDouble (c : CodePoint) : Bool := c == codePoint '"'

def isSingle (c : CodePoint) : Bool := c == codePoint '\''

/-- `\s*(.+)$`, at the end of a line: whitespace alone keeps its last character. -/
def restOfLine (s : Str) : Option Str :=
  match s.dropWhile isSpace with
  | [] => s.getLast?.map fun c => [c]
  | c :: rest => some (c :: rest)

section Mise

variable (rt : AgentRuntime)

/-- `^\s*([\w-]+)\s*=\s*(.+)$` -/
def miseAssignment (line : Str) : Option (Str × Str) :=
  let body := line.dropWhile isSpace
  let name := body.takeWhile (isWordDash rt)
  match name, (body.dropWhile (isWordDash rt)).dropWhile isSpace with
  | _ :: _, c :: rest =>
    if c = codePoint '=' then (restOfLine rest).map fun value => (name, value) else none
  | _, _ => none

/-- `value.strip('"').strip("'")`, or a star for nothing -/
def bareSpec (value : Str) : Str :=
  let spec := stripChars isSingle (stripChars isDouble value)
  if spec = [] then lit "*" else spec

/-- The requirements of `mise.toml`. -/
def miseReqs (source text : Str) : List ProjectRequirement :=
  ((splitlines text).filterMap (miseAssignment rt)).map fun item =>
    req "generic" (lit "mise:" ++ item.1) (stripChars isSingle (stripChars isDouble item.2)) .tool
      source

/-- The name and the spec of the requirement from a line of `mise.toml`. -/
def miseReqLine (line : Str) : Option (Str × Str) :=
  (miseAssignment rt line).map fun item => (item.1, bareSpec item.2)

end Mise

/-! ## The version managers -/

structure PinnedTool where
  name : Str
  version : Str
  source : Str
  deriving DecidableEq

/-- A pin for each version that is declared behind a name. -/
def pinsOf : List Str → List PinnedTool
  | [] => []
  | name :: versions => versions.map fun version => ⟨name, version, ".tool-versions"⟩

/-- The pins of a line of `.tool-versions`. -/
def toolPins (raw : Str) : List PinnedTool := pinsOf (words (strip (beforeText "#" raw)))

/-- `parse_tool_versions`. -/
def parseToolVersions (text : Str) : List PinnedTool := (splitlines text).flatMap toolPins

/-- `"([^"]+)"` at the start of a text. -/
def quotedStart : Str → Option Str
  | [] => none
  | c :: rest =>
    let inside := rest.takeWhile fun d => !isDouble d
    if c = codePoint '"' ∧ inside ≠ [] ∧ inside.length < rest.length then some inside else none

/-- `version\s*=\s*"([^"]+)"` at the start of a text. -/
def versionHere (s : Str) : Option Str :=
  if startsWith s "version" then
    match (s.drop 7).dropWhile isSpace with
    | [] => none
    | c :: rest => if c = codePoint '=' then quotedStart (rest.dropWhile isSpace) else none
  else none

/-- `^\{.*?version\s*=\s*"([^"]+)"` -/
def tableVersion : Str → Option Str
  | [] => none
  | c :: rest => if c = codePoint '\x7b' then rest.tails.findSome? versionHere else none

/-- The characters `[` and `]`. -/
def isSquare (c : CodePoint) : Bool := c == codePoint '[' || c == codePoint ']'

/-- The entry of a line of the `[tools]` table. -/
def toolEntry (line : Str) : Option (Str × Str) :=
  if codePoint '=' ∈ line then
    let name := line.takeWhile fun c => c != codePoint '='
    let value := strip ((line.dropWhile fun c => c != codePoint '=').drop 1)
    ((tableVersion value).or (quotedStart value)).map fun version =>
      (stripChars isSingle (stripChars isDouble (strip name)), version)
  else none

/-- One line of `parse_mise_toml_tools`: its entry, and whether the `[tools]` table is
open behind it. -/
def miseLine (inTools : Bool) (raw : Str) : Option (Str × Str) × Bool :=
  let line := strip raw
  if line = [] ∨ startsWith line "#" then (none, inTools)
  else if startsWith line "[" then (none, decide (strip (stripChars isSquare line) = lit "tools"))
  else (if inTools then toolEntry line else none, inTools)

/-- The lines of a text, each with whether the `[tools]` table is open before it. -/
def withTables : Bool → List Str → List (Bool × Str)
  | _, [] => []
  | inTools, line :: rest => (inTools, line) :: withTables (miseLine inTools line).2 rest

/-- `parse_mise_toml_tools`. -/
def parseMiseTomlTools (text : Str) : List PinnedTool :=
  ((withTables false (splitlines text)).filterMap fun entry => (miseLine entry.1 entry.2).1).map
    fun item => ⟨item.1, item.2, "mise.toml"⟩

/-! ## One way of reading -/

/-- Tool by tool, the requirements of `.tool-versions` are the pins. -/
def ToolVersionsAgree (source text : Str) : Prop :=
  ∀ name : Str,
    ((toolVersionsReqs source text).filter fun r =>
        decide (r.name = lit "tool-versions:" ++ name)).map ProjectRequirement.spec =
      ((parseToolVersions text).filter fun pin => decide (pin.name = name)).map PinnedTool.version

/-- A line of `.tool-versions` that names no tool with a version, or a tool with one version
and nothing but a comment behind it. -/
def PlainPin (line : Str) : Prop :=
  ∀ name version rest, words line = name :: version :: rest →
    codePoint '#' ∉ name ∧ codePoint '#' ∉ version ∧ ∀ third ∈ rest.head?, startsWith third "#" = true

/-- The requirements of `mise.toml` are the entries of its `[tools]` table, and each comes from
the line of its entry. -/
structure MiseAgree (rt : AgentRuntime) (text : Str) : Prop where
  entries : ∀ source, (miseReqs rt source text).map (fun r => (r.name, r.spec)) =
    (parseMiseTomlTools text).map fun pin => (lit "mise:" ++ pin.name, pin.version)
  lines : ∀ entry ∈ withTables false (splitlines text),
    miseReqLine rt entry.2 = (miseLine entry.1 entry.2).1

/-- A text in double quotes, with nothing but quotes behind it. -/
def PlainQuoted (value : Str) : Prop :=
  ∃ v behind, value = codePoint '"' :: (v ++ codePoint '"' :: behind) ∧ v ≠ [] ∧
    (∀ c ∈ v, isDouble c = false) ∧ (∀ c ∈ v.head?, isSingle c = false) ∧
      (∀ c ∈ v.getLast?, isSingle c = false) ∧ ∀ c ∈ behind, isDouble c = true

/-- A text that begins with one in double quotes. -/
def StartsQuoted (s : Str) : Prop :=
  ∃ v behind, s = codePoint '"' :: (v ++ codePoint '"' :: behind) ∧ v ≠ [] ∧ ∀ c ∈ v, isDouble c = false

/-- A value with a version: a text in double quotes, or a table with one behind `version =`. -/
def GivesVersion (value : Str) : Prop :=
  StartsQuoted value ∨ ∃ before gap blanks quoted,
    value = codePoint '\x7b' ::
        (before ++ (lit "version" ++ (gap ++ codePoint '=' :: (blanks ++ quoted)))) ∧
      (∀ c ∈ gap, isSpace c = true) ∧ (∀ c ∈ blanks, isSpace c = true) ∧ StartsQuoted quoted

/-- A line that is no comment and no header of a table, with a version behind its first `=`. -/
def GivesTool (line : Str) : Prop :=
  startsWith (strip line) "#" = false ∧ startsWith (strip line) "[" = false ∧ ∃ key value,
    strip line = key ++ codePoint '=' :: value ∧ codePoint '=' ∉ key ∧ GivesVersion (strip value)

/-- A bare key stands in the `[tools]` table and has a plain quoted value, and no other line of
the table gives a tool a version. -/
def PlainEntry (rt : AgentRuntime) (inTools : Bool) (line : Str) : Prop :=
  match miseAssignment rt line with
  | some (_, value) => inTools = true ∧ PlainQuoted value
  | none => ¬(inTools = true ∧ GivesTool line)

end DevRepro.Project
