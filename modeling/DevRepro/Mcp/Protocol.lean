import DevRepro.Mcp.Report

/-!
# The MCP server

`mcp/protocol.py`: the tool list, the checks of a tool call, the confinement
of its path argument, the report cache, and the dispatch of one JSON-RPC
request.

A request reads its surroundings through an `Env`: the clock, the file system
as `Path.resolve` sees it, the scanner, and the survey of the agent manifests.
Every request gets an `Env` of its own, so nothing is assumed to stay the same
between two of them.  The clock is a type with a subtraction and an order.

A request that fails raises either an `McpError` or some other exception.
`Failure` keeps the two apart, as the handlers do.
-/

namespace DevRepro.Mcp

open DevRepro.Python

/-! ## Paths -/

/-- A `PurePosixPath`: its root, which is empty for a relative path, and its
parts. -/
structure Path where
  root : Str
  parts : List Str
  deriving DecidableEq

namespace Path

/-- `Path(text)`.  Exactly two leading slashes are a root of their own. -/
def parse (text : Str) : Path :=
  let slash := codePoint '/'
  let slashes := (text.takeWhile (· = slash)).length
  ⟨if slashes = 0 then [] else if slashes = 2 then [slash, slash] else [slash],
    (text.splitOn slash).filter fun part => part ≠ [] ∧ part ≠ lit "."⟩

def isAbsolute (p : Path) : Bool := p.root ≠ []

/-- `base / other`. -/
def join (base other : Path) : Path :=
  if other.isAbsolute then other else ⟨base.root, base.parts ++ other.parts⟩

/-- `p.parents`, the nearest first. -/
def parents (p : Path) : List Path :=
  (List.range p.parts.length).reverse.map fun n => ⟨p.root, p.parts.take n⟩

end Path

/-! ## Surroundings -/

/-- What `agent_readiness` reads from a directory: the names of the manifests,
the checked commands with status and detail, and the CI commands that no
manifest declares. -/
structure AgentSurvey where
  manifests : List Str
  commands : List (Str × Str × Str)
  ciGates : List Str

/-- What one request reads from outside. -/
structure Env (Time : Type) where
  now : Time
  resolve : Path → Except Exc Path
  scan : Path → Except Exc ScanReport
  survey : Path → Except Exc AgentSurvey

/-- The installed package. -/
structure Package where
  runtime : Runtime
  version : Str
  catalog : Catalog

/-- What the server was started with. -/
structure ServerConfig where
  root : Path

/-! ## Errors -/

/-- A JSON-RPC error, carried to the client as one. -/
structure McpError where
  code : Int
  message : Str
  data : Json

def parseError : Int := -32700
def invalidRequest : Int := -32600
def methodNotFound : Int := -32601
def invalidParams : Int := -32602
def confinementError : Int := -32000

/-- What a handler raises. -/
inductive Failure where
  | mcp (error : McpError)
  | py (exc : Exc)

/-! ## The report cache -/

/-- The last scan, and when it was taken. -/
structure ReportCache (Time : Type) where
  cacheSeconds : Time
  report : Option ScanReport
  takenAt : Option Time
  scans : Nat

section Cache

variable {Time : Type} [Sub Time] [LT Time] [DecidableLT Time]

/-- A cache before its first scan. -/
def ReportCache.empty (cacheSeconds : Time) : ReportCache Time := ⟨cacheSeconds, none, none, 0⟩

/-- Whether the cached report is young enough at a clock reading. -/
def ReportCache.freshEnough (cache : ReportCache Time) (now : Time) : Bool :=
  match cache.report, cache.takenAt with
  | some _, some takenAt => now - takenAt < cache.cacheSeconds
  | _, _ => false

/-- `ReportCache.get`: the report, and whether this call produced a fresh one. -/
def ReportCache.get (cache : ReportCache Time) (env : Env Time) (root : Path) (refresh : Bool) :
    Except Exc (ScanReport × Bool) × ReportCache Time :=
  match (if cache.freshEnough env.now && !refresh then cache.report else none) with
  | some report => (.ok (report, false), cache)
  | none =>
    match env.scan root with
    | .error exc => (.error exc, cache)
    | .ok report =>
      (.ok (report, true),
        { cache with report := some report, takenAt := some env.now, scans := cache.scans + 1 })

end Cache

/-! ## Tools -/

/-- The JSON Schema types of `_JSON_TYPES`. -/
inductive JsonType where
  | string
  | boolean
  | number
  | integer
  | object
  | array
  deriving DecidableEq

def JsonType.name : JsonType → Str
  | string => "string"
  | boolean => "boolean"
  | number => "number"
  | integer => "integer"
  | object => "object"
  | array => "array"

/-- `isinstance(value, _JSON_TYPES[type])`.  A `bool` is an `int`. -/
def JsonType.isInstance : JsonType → Json → Bool
  | string, .str _ => true
  | boolean, .bool _ => true
  | number, .int _ | number, .float _ | number, .bool _ => true
  | integer, .int _ | integer, .bool _ => true
  | object, .obj _ => true
  | array, .arr _ => true
  | _, _ => false

structure Property where
  type : JsonType
  description : Option Str

def Property.asDict (p : Property) : Json :=
  .obj (("type", .str p.type.name) ::
    match p.description with
    | some text => [("description", .str text)]
    | none => [])

/-- An `inputSchema`. -/
structure InputSchema where
  properties : List (Str × Property)
  required : Option (List Str)
  additionalProperties : Bool

def InputSchema.asDict (schema : InputSchema) : Json :=
  let required : List (Str × Json) :=
    match schema.required with
    | some keys => [("required", strs keys)]
    | none => []
  let closed : List (Str × Json) := [("additionalProperties", .bool schema.additionalProperties)]
  .obj (("type", .str "object") ::
    ("properties", .obj (schema.properties.map fun item => (item.1, item.2.asDict))) ::
    (required ++ closed))

structure ToolDefinition where
  name : Str
  description : Str
  inputSchema : InputSchema

def ToolDefinition.asDict (tool : ToolDefinition) : Json :=
  .obj [("name", .str tool.name), ("description", .str tool.description),
    ("inputSchema", tool.inputSchema.asDict)]

/-- The schema that the tools about a directory share. -/
def projectArg : InputSchema where
  properties :=
    [("project", ⟨.string, some "Directory within the configured root. Defaults to the root."⟩),
      ("refresh", ⟨.boolean, some "Re-scan instead of using the cached report."⟩)]
  required := none
  additionalProperties := false

/-- `tool_definitions()`. -/
def toolDefinitions : List ToolDefinition :=
  [⟨"doctor",
      lit "What is wrong with this machine, with evidence for each finding. " ++
        lit "Read-only: it inspects the machine and changes nothing.",
      projectArg⟩,
    ⟨"check",
      lit "Does this machine meet the project's declared requirements in " ++
        lit ".devrepro.toml? Returns a verdict and the findings behind it.",
      projectArg⟩,
    ⟨"info", "What toolchains are installed here, and at which versions.", projectArg⟩,
    ⟨"which",
      lit "Which binary a given command actually resolves to, every other " ++
        lit "candidate on PATH, and why that one wins.",
      ⟨[("tool", ⟨.string, some "Command name, e.g. python."⟩), ("refresh", ⟨.boolean, none⟩)],
        some ["tool"], false⟩⟩,
    ⟨"explain",
      lit "What a rule id means, why it matters, and how to fix it. Use this " ++
        lit "when a finding's id needs expanding for a human.",
      ⟨[("rule_id", ⟨.string, none⟩)], some ["rule_id"], false⟩⟩,
    ⟨"agent_readiness",
      lit "Whether an automated contributor can work in this repository: do " ++
        lit "the commands its AGENTS.md declares resolve here, does the manifest " ++
        lit "match what CI enforces, and what could a session reach from here.",
      projectArg⟩]

/-- `REFUSED_TOOLS`: the commands that are not exposed, and why. -/
def refusedTools : List (Str × Str) :=
  [("fix",
      lit "`fix` executes remediations behind an explicit `--yes`, and that gate " ++
        lit "exists so a person agrees before anything above LOW risk is applied. A " ++
        lit "tool call has no person in it: the model decides to make it. Exposing " ++
        lit "this would move the confirmation from a human to a model, which is " ++
        lit "the thing the gate was built to prevent."),
    ("serve", "Starts a long-lived HTTP server; a tool call must not leave a process behind."),
    ("server-backup", "Moves data on disk."),
    ("server-restore", "Moves data on disk."),
    ("init", "Writes files into the repository."),
    ("generate", "Writes files into the repository.")]

/-- `sorted(texts)`. -/
def sortStrs (texts : List Str) : List Str :=
  (sortByKey (texts.map fun text => (text, ()))).map Prod.fst

section Calls

variable {Time : Type} [Sub Time] [LT Time] [DecidableLT Time]
variable (package : Package) (config : ServerConfig) (env : Env Time)

/-- The `TypeError`-like answer to one argument, if its type is wrong. -/
def wrongType (schema : InputSchema) (item : Str × Json) : Option McpError :=
  match (schema.properties.find? fun declared => declared.1 = item.1) with
  | none => none
  | some (_, ⟨expected, _⟩) =>
    let isBool := JsonType.boolean.isInstance item.2
    if isBool ≠ decide (expected = .boolean) ∨ ¬expected.isInstance item.2 then
      some ⟨invalidParams,
        package.runtime.strRepr item.1 ++ lit " must be a " ++ expected.name ++ lit ", got " ++
          item.2.typeName, .null⟩
    else none

/-- `validate_arguments`: the error that a tool call meets first, if any. -/
def validateArguments (schema : InputSchema) (arguments : List (Str × Json)) : Option McpError :=
  let declared := schema.properties.map Prod.fst
  let unknown := sortStrs ((arguments.map Prod.fst).filter (· ∉ declared))
  if ¬schema.additionalProperties ∧ unknown ≠ [] then
    let accepted := sortStrs declared
    let names := if accepted = [] then lit "no arguments" else join ", " accepted
    some ⟨invalidParams, lit "unknown argument(s): " ++ join ", " unknown,
      .obj [("accepted", strs accepted),
        ("hint", .str (lit "This tool takes " ++ names ++ lit "."))]⟩
  else
    match (schema.required.getD []).find? (· ∉ arguments.map Prod.fst) with
    | some key => some ⟨invalidParams, package.runtime.strRepr key ++ lit " is required", .null⟩
    | none => arguments.findSome? (wrongType package schema)

/-- `resolve_within`. -/
def resolveWithin (candidate : Option Str) : Except Failure Path :=
  match env.resolve config.root with
  | .error exc => .error (.py exc)
  | .ok base =>
    match candidate with
    | none | some [] => .ok base
    | some text =>
      match env.resolve (base.join (.parse text)) with
      | .error exc => .error (.py exc)
      | .ok target =>
        if target ≠ base ∧ base ∉ target.parents then
          .error (.mcp ⟨confinementError,
            lit "path " ++ package.runtime.strRepr text ++ lit " is outside the configured root",
            .obj [("hint", .str
              (lit "The server was started with a root and every path is resolved " ++
                lit "against it. Restart it with a different --root to inspect elsewhere."))]⟩)
        else .ok target

/-- `_content`: an MCP tool result. -/
def content (payload : Json) : Except Failure Json :=
  match dumps package.runtime (.indented 2) payload with
  | .error exc => .error (.py exc)
  | .ok text =>
    .ok (.obj [("content", .arr [.obj [("type", .str "text"), ("text", .str text)]]),
      ("structuredContent", payload), ("isError", .bool false)])

/-- `str(arguments.get(key) or "")`. -/
def textArgument (arguments : List (Str × Json)) (key : Str) : Except Exc Str :=
  (((dictGet? arguments key).getD .null).orElse (.str [])).toStr package.runtime

/-- `arguments.get("project")`, which is a string once the call is validated. -/
def projectOf (arguments : List (Str × Json)) : Option Str :=
  match dictGet? arguments "project" with
  | some (.str text) => some text
  | _ => none

/-- `bool(arguments.get("refresh", False))`. -/
def refreshOf (arguments : List (Str × Json)) : Bool :=
  ((dictGet? arguments "refresh").getD (.bool false)).truthy

/-- The tools of a report as `info` lists them. -/
def infoTools (report : ScanReport) : Json :=
  .arr ((report.tools.filter ToolInstallation.isActive).map fun t =>
    .obj [("name", .str t.name), ("version", optStr t.version), ("active", .bool t.isActive)])

/-- The fields that `which` adds for a command name. -/
def whichFields (report : ScanReport) (wanted : Str) : List (Str × Json) :=
  let candidates := report.tools.filter fun t => t.name = wanted
  let resolved : Option Str :=
    match candidates.find? ToolInstallation.isActive with
    | some t => t.exePath
    | none => candidates.head?.bind ToolInstallation.exePath
  [("tool", .str wanted), ("resolves_to", optStr resolved),
    ("candidates", .arr (candidates.map fun t =>
      .obj [("path", optStr t.exePath), ("version", optStr t.version),
        ("active", .bool t.isActive), ("install_source", optStr t.installSource)]))]

/-- The fields that `agent_readiness` adds for a directory. -/
def agentFields (survey : AgentSurvey) : List (Str × Json) :=
  [("manifests", strs survey.manifests),
    ("commands", .arr (survey.commands.map fun c =>
      .obj [("command", .str c.1), ("status", .str c.2.1), ("detail", .str c.2.2)])),
    ("ci_gates_not_declared", strs survey.ciGates)]

/-- The fields that a tool adds to the verdict. -/
def toolFields (name : Str) (arguments : List (Str × Json)) (project : Path)
    (report : ScanReport) : Except Failure (List (Str × Json)) :=
  if name = lit "doctor" then
    .ok [("findings", .arr (report.findings.map Finding.modelDump)),
      ("score", (report.score.map ReproducibilityScore.modelDump).getD .null)]
  else if name = lit "check" then
    let actionable := report.findings.filter fun f => f.state ≠ .pass ∧ f.state ≠ .info
    .ok [("findings", .arr (actionable.map Finding.modelDump)),
      ("policy_applied", .bool report.policyApplied)]
  else if name = lit "info" then
    .ok [("platform", report.platform.modelDump), ("tools", infoTools report)]
  else if name = lit "which" then
    match textArgument package arguments "tool" with
    | .error exc => .error (.py exc)
    | .ok text =>
      let wanted := strip text
      if wanted = [] then .error (.mcp ⟨invalidParams, "`tool` is required", .null⟩)
      else .ok (whichFields report wanted)
  else if name = lit "agent_readiness" then
    match env.survey project with
    | .error exc => .error (.py exc)
    | .ok survey => .ok (agentFields survey)
  else .ok []

/-- The answer of a tool from a report. -/
def answer (name : Str) (arguments : List (Str × Json)) (project : Path)
    (report : ScanReport) (wasFresh : Bool) : Except Failure Json :=
  let base : List (Str × Json) :=
    [("verdict", .str (verdictOf report).1), ("exit_code", .int (verdictOf report).2),
      ("from_cache", .bool !wasFresh), ("scanned_at", .str report.createdAt)]
  match toolFields package env name arguments project report with
  | .error failure => .error failure
  | .ok fields => content package (.obj (base ++ fields))

/-- The answer of `explain`. -/
def explain (arguments : List (Str × Json)) : Except Failure Json :=
  match textArgument package arguments "rule_id" with
  | .error exc => .error (.py exc)
  | .ok ruleId =>
    match explainRule package.catalog ruleId with
    | none =>
      .error (.mcp ⟨invalidParams, lit "no such rule id: " ++ package.runtime.strRepr ruleId, .null⟩)
    | some doc =>
      content package (.obj [("verdict", .str "READY"), ("exit_code", .int 0), ("rule", doc.asDict)])

/-- The checks of `_call_tool` before any tool runs. -/
def refusal (name : Str) (arguments : List (Str × Json)) : Option McpError :=
  match refusedTools.find? fun refused => refused.1 = name with
  | some (_, reason) =>
    some ⟨invalidParams, name ++ lit " is deliberately not exposed", .obj [("reason", .str reason)]⟩
  | none =>
    match toolDefinitions.find? fun tool => tool.name = name with
    | none => some ⟨methodNotFound, lit "unknown tool " ++ package.runtime.strRepr name, .null⟩
    | some definition => validateArguments package definition.inputSchema arguments

/-- `_call_tool`. -/
def callTool (name : Str) (arguments : List (Str × Json)) (cache : ReportCache Time) :
    Except Failure Json × ReportCache Time :=
  match refusal package name arguments with
  | some error => (.error (.mcp error), cache)
  | none =>
    if name = lit "explain" then (explain package arguments, cache)
    else
      match resolveWithin package config env (projectOf arguments) with
      | .error failure => (.error failure, cache)
      | .ok project =>
        match cache.get env project (refreshOf arguments) with
        | (.error exc, cache) => (.error (.py exc), cache)
        | (.ok (report, wasFresh), cache) =>
          (answer package env name arguments project report wasFresh, cache)

/-! ## Dispatch -/

/-- The answer to `initialize`. -/
def serverInfo : Json :=
  .obj [("protocolVersion", .str "2024-11-05"),
    ("capabilities", .obj [("tools", .obj [("listChanged", .bool false)])]),
    ("serverInfo", .obj [("name", .str "devrepro-doctor"), ("version", .str package.version)]),
    ("instructions", .str
      (lit "Read-only diagnostics for the machine this server runs on. Every " ++
        lit "result carries an explicit `verdict` field; there is no exit code " ++
        lit "to read. Reports are cached for a few minutes -- pass " ++
        lit "`refresh: true` when you need a fresh scan. Paths are confined to " ++
        lit "the root the server was started with."))]

/-- The answer to `tools/call`. -/
def toolsCall (params : Json) (cache : ReportCache Time) :
    Except Failure Json × ReportCache Time :=
  match params.get? "name" with
  | .error exc => (.error (.py exc), cache)
  | .ok found =>
    match ((found.getD .null).orElse (.str [])).toStr package.runtime with
    | .error exc => (.error (.py exc), cache)
    | .ok name =>
      match params.get? "arguments" with
      | .error exc => (.error (.py exc), cache)
      | .ok found =>
        match (found.getD .null).orElse (.obj []) with
        | .obj arguments => callTool package config env name arguments cache
        | _ => (.error (.mcp ⟨invalidParams, "`arguments` must be an object", .null⟩), cache)

/-- `_dispatch`. -/
def dispatch (method : Str) (params : Json) (cache : ReportCache Time) :
    Except Failure Json × ReportCache Time :=
  if method = lit "initialize" then (.ok (serverInfo package), cache)
  else if method = lit "notifications/initialized" ∨ method = lit "initialized" then
    (.ok (.obj []), cache)
  else if method = lit "ping" then (.ok (.obj []), cache)
  else if method = lit "tools/list" then
    (.ok (.obj [("tools", .arr (toolDefinitions.map ToolDefinition.asDict))]), cache)
  else if method = lit "tools/call" then toolsCall package config env params cache
  else
    (.error (.mcp ⟨methodNotFound, lit "unknown method " ++ package.runtime.strRepr method, .null⟩),
      cache)

/-- The `try` block of `handle_request`. -/
def perform (fields : List (Str × Json)) (cache : ReportCache Time) :
    Except Failure Json × ReportCache Time :=
  match ((dictGet? fields "method").getD .null).toStr package.runtime with
  | .error exc => (.error (.py exc), cache)
  | .ok method =>
    dispatch package config env method
      (((dictGet? fields "params").getD .null).orElse (.obj [])) cache

/-- The `error` member of a response. -/
def McpError.asDict (error : McpError) : Json :=
  .obj [("code", .int error.code), ("message", .str error.message), ("data", error.data)]

/-- A response that carries an error. -/
def errorResponse (id error : Json) : Json :=
  .obj [("jsonrpc", .str "2.0"), ("id", id), ("error", error)]

/-- A response that carries a result. -/
def resultResponse (id result : Json) : Json :=
  .obj [("jsonrpc", .str "2.0"), ("id", id), ("result", result)]

/-- Whether a value is a JSON-RPC 2.0 request object, with its items. -/
def rpcFields? : Json → Option (List (Str × Json))
  | .obj fields =>
    match dictGet? fields "jsonrpc" with
    | some (.str version) => if version = lit "2.0" then some fields else none
    | _ => none
  | _ => none

/-- `handle_request`: the response, which a notification has none of. -/
def handleRequest (request : Json) (cache : ReportCache Time) :
    Except Failure (Option Json) × ReportCache Time :=
  match rpcFields? request with
  | none => (.error (.mcp ⟨invalidRequest, "not a JSON-RPC 2.0 request", .null⟩), cache)
  | some fields =>
    match perform package config env fields cache, dictGet? fields "id" with
    | (.error (.py exc), cache), _ => (.error (.py exc), cache)
    | (_, cache), none => (.ok none, cache)
    | (.error (.mcp error), cache), some id => (.ok (some (errorResponse id error.asDict)), cache)
    | (.ok result, cache), some id => (.ok (some (resultResponse id result)), cache)

end Calls

/-! ## A sample server -/

namespace Sample

/-- A package with an empty rule catalogue. -/
def package : Package := ⟨.standard, "0.0.0", ⟨[], []⟩⟩

/-- A server for `/work`. -/
def config : ServerConfig := ⟨.parse "/work"⟩

/-- The report of a directory of which nothing is known but the time. -/
def report : ScanReport := ⟨"2026-01-01T00:00:00+00:00", ⟨"Linux", "1", "x86_64", none, none, false⟩,
  [], [], false, none⟩

/-- A machine without symbolic links, where every scan succeeds. -/
def env (now : Int) : Env Int where
  now := now
  resolve := .ok
  scan := fun _ => .ok report
  survey := fun _ => .ok ⟨[], [], []⟩

end Sample

end DevRepro.Mcp
