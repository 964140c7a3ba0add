import DevRepro.Lib.Machine
import DevRepro.Mcp.Crash

/-!
# The stdio transport

`mcp/stdio.py`: `serve_stdio` reads one line after the other, parses it, hands
the value to `handle_request`, and writes the response as one line.

`expected` is what JSON-RPC asks of a server for one line, and `Answers` says
that a turn of the loop wrote that.  The loop gets it right for a line that is
`Served`, and for no other: `serveStdio_answers_iff`.

Three things stand between the loop and the standard.  A line that exhausts a
budget of `json.loads` ends the session, because only `JSONDecodeError` is
caught.  An id that `json.dumps` cannot write ends it too.  And a notification
that crashes is answered, because the handler of `Exception` does not look for
the id.
-/

namespace DevRepro.Mcp

open DevRepro.Python DevRepro.Python.Scan DevRepro.Lib

/-! ## The loop -/

/-- A line of the input, with the surroundings while it is handled. -/
structure Line (Time : Type) where
  text : Str
  env : Env Time

/-- `request.get("id") if isinstance(request, dict) else None`. -/
def requestId : Json → Json
  | .obj fields => (dictGet? fields "id").getD .null
  | _ => .null

/-- The error of a line that is not JSON. -/
def parseFailure (exc : Exc) : Json :=
  .obj [("code", .int parseError), ("message", .str (lit "invalid JSON: " ++ exc.text))]

/-- The error of a request that crashed. -/
def internalError (exc : Exc) : Json :=
  .obj [("code", .int (-32603)),
    ("message", .str (lit "internal error: " ++ exc.type.name ++ lit ": " ++ exc.text))]

section

variable {Time : Type} (package : Package) (config : ServerConfig)

/-- `_write`: the line that is written. -/
def wire (payload : Json) : Except Exc Str :=
  match dumps package.runtime .plain payload with
  | .error exc => .error exc
  | .ok text => .ok (text ++ [codePoint '\n'])

/-- A response that is written, if there is one. -/
def send : Option Json → Except Exc (List Str)
  | none => .ok []
  | some response =>
    match wire package response with
    | .error exc => .error exc
    | .ok line => .ok [line]

variable [Sub Time] [LT Time] [DecidableLT Time]

/-- The response to a value, with the handlers around `handle_request`. -/
def respond (env : Env Time) (request : Json) (cache : ReportCache Time) :
    Option Json × ReportCache Time :=
  match handleRequest package config env request cache with
  | (.ok response, cache) => (response, cache)
  | (.error (.mcp error), cache) =>
    (some (errorResponse (requestId request) error.asDict), cache)
  | (.error (.py exc), cache) =>
    (some (errorResponse (requestId request) (internalError exc)), cache)

/-- One turn of the loop: the lines that it writes, or the exception that
leaves `serve_stdio`. -/
def serveLine (cache : ReportCache Time) (line : Line Time) :
    ReportCache Time × Except Exc (List Str) :=
  let text := strip line.text
  if text = [] then (cache, .ok [])
  else
    match loads package.runtime.limits text with
    | .error exc =>
      if exc.type = .jsonDecodeError then
        (cache, send package (some (errorResponse .null (parseFailure exc))))
      else (cache, .error exc)
    | .ok request =>
      let (response, cache) := respond package config line.env request cache
      (cache, send package response)

/-- The loop from a state of the cache on: what it writes, and how it ends. -/
def serveLines (cache : ReportCache Time) : List (Line Time) → List Str × Except Exc Int
  | [] => ([], .ok 0)
  | line :: rest =>
    match serveLine package config cache line with
    | (_, .error exc) => ([], .error exc)
    | (cache, .ok written) =>
      let (later, result) := serveLines cache rest
      (written ++ later, result)

/-- `serve_stdio`, for a root that is resolved. -/
def serveStdio (root : Path) (cacheSeconds : Time) (lines : List (Line Time)) :
    List Str × Except Exc Int :=
  serveLines package ⟨root⟩ (.empty cacheSeconds) lines

end

/-! ## What JSON-RPC asks for -/

/-- What a server has to write for one line. -/
inductive Expected where
  | nothing
  | response (id : Json)
  | nullError
  | someError

/-- A response with its id for a request, nothing for a notification, and an
error for any other value. -/
def expectedFor (value : Json) : Expected :=
  match rpcFields? value with
  | none => .someError
  | some fields =>
    match dictGet? fields "id" with
    | none => .nothing
    | some id => .response id

/-- Nothing for a blank line, and an error without an id for a text that is not
JSON. -/
def expected (line : Str) : Expected :=
  if strip line = [] then .nothing
  else
    match jsonOf (strip line) with
    | .error _ => .nullError
    | .ok value => expectedFor value

/-- How many lines that is. -/
def Expected.count : Expected → Nat
  | nothing => 0
  | response _ | nullError | someError => 1

/-- A response as a line. -/
def lineOf (package : Package) (response : Json) : Str :=
  dumpText package.runtime .plain 0 response ++ [codePoint '\n']

/-- The lines written are the ones expected. -/
def Answers (package : Package) : Expected → List Str → Prop
  | .nothing, written => written = []
  | .response id, written =>
    (∃ result, written = [lineOf package (resultResponse id result)]) ∨
      ∃ error, written = [lineOf package (errorResponse id error)]
  | .nullError, written => ∃ error, written = [lineOf package (errorResponse .null error)]
  | .someError, written => ∃ id error, written = [lineOf package (errorResponse id error)]

/-- A session answers its lines when it reads all of them, returns 0, and
writes for each line, in order, what is expected. -/
def AnswersAll (package : Package) (lines : List Str) (outcome : List Str × Except Exc Int) : Prop :=
  ∃ written : List (List Str), outcome = (written.flatten, .ok 0) ∧
    List.Forall₂ (fun line => Answers package (expected line)) lines written

theorem answers_length {package : Package} {e : Expected} {written : List Str}
    (h : Answers package e written) : written.length = e.count := by
  cases e with
  | nothing =>
    rw [show written = [] from h]
    rfl
  | response id =>
    rcases h with ⟨_, rfl⟩ | ⟨_, rfl⟩
    · rfl
    · rfl
  | nullError =>
    rcases h with ⟨_, rfl⟩
    rfl
  | someError =>
    rcases h with ⟨_, _, rfl⟩
    rfl

/-! ## Responses are written -/

section

variable {package : Package}

/-- A response is written when its id and its content are. -/
theorem dumpError_reply {id value : Json} {member : Str}
    (hvalue : value.Shallow (ShortInt package) 8) :
    dumpError package.runtime .plain 0 (.obj [("jsonrpc", .str "2.0"), ("id", id), (member, value)]) =
        none ↔
      dumpError package.runtime .plain 1 id = none := by
  have hroom := package.runtime.dumpsDepth_ge DumpStyle.plain.indent
  have hdump : dumpError package.runtime .plain 1 value = none :=
    dumpError_of_shallow hvalue (by omega)
  have hpos : 0 < package.runtime.dumpsDepth DumpStyle.plain.indent := by omega
  rw [dumpError_obj_eq_none]
  simp [hdump, hpos, dumpError]

theorem send_none : send package none = .ok [] := rfl

theorem send_some_eq_ok {response : Json} {written : List Str} :
    send package (some response) = .ok written ↔
      dumpError package.runtime .plain 0 response = none ∧ written = [lineOf package response] := by
  rw [send, wire]
  cases hdumps : dumps package.runtime .plain response with
  | error exc =>
    constructor
    · intro h
      cases h
    · intro h
      rw [dumps_of_no_error h.1] at hdumps
      cases hdumps
  | ok text =>
    have htext := dumps_ok hdumps
    have hline : text ++ [codePoint '\n'] = lineOf package response := by
      rw [htext.2]
      rfl
    simp only [hline, Except.ok.injEq]
    exact ⟨fun h => ⟨htext.1, h.symm⟩, fun h => h.2.symm⟩

theorem shallow_parseFailure (exc : Exc) : (parseFailure exc).Shallow (ShortInt package) 8 := by
  have hcode : ShortInt package parseError := shortInt_of_length (by decide)
  simp [parseFailure, hcode]

theorem shallow_internalError (exc : Exc) : (internalError exc).Shallow (ShortInt package) 8 := by
  have hcode : ShortInt package (-32603) := shortInt_of_length (by decide)
  simp [internalError, hcode]

end

/-! ## One line -/

section

variable {Time : Type} [Sub Time] [LT Time] [DecidableLT Time]
variable {package : Package} {config : ServerConfig}

theorem rpcFields?_eq_some {request : Json} {fields : List (Str × Json)}
    (h : rpcFields? request = some fields) : request = .obj fields := by
  cases request with
  | obj items =>
    simp only [rpcFields?] at h
    split at h
    · split_ifs at h
      cases h
      rfl
    · cases h
  | null | bool | int | float | str | arr => cases h

theorem respond_other {env : Env Time} {request : Json} {cache : ReportCache Time}
    (h : rpcFields? request = none) :
    (respond package config env request cache).1 =
      some (errorResponse (requestId request)
        (McpError.asDict ⟨invalidRequest, "not a JSON-RPC 2.0 request", .null⟩)) := by
  rw [respond, handleRequest, h]

/-- A notification is answered only when it crashes. -/
theorem respond_notification {env : Env Time} {request : Json} {fields : List (Str × Json)}
    {cache : ReportCache Time} (h : rpcFields? request = some fields)
    (hid : dictGet? fields "id" = none) :
    (Quiet package config env fields cache → (respond package config env request cache).1 = none) ∧
    (¬Quiet package config env fields cache → ∃ exc,
      (respond package config env request cache).1 =
        some (errorResponse .null (internalError exc))) := by
  have hrequest : requestId request = .null := by
    rw [rpcFields?_eq_some h, requestId, hid]
    rfl
  rw [← perform_handled_iff]
  rcases hperform : perform package config env fields cache with ⟨outcome, after⟩
  rcases outcome with (error | exc) | result
  · simp [respond, handleRequest, h, hid, hperform]
  · exact ⟨by simp, fun _ => ⟨exc, by simp [respond, handleRequest, h, hperform, hrequest]⟩⟩
  · simp [respond, handleRequest, h, hid, hperform]

/-- A request is answered under its id. -/
theorem respond_request {env : Env Time} {request id : Json} {fields : List (Str × Json)}
    {cache : ReportCache Time} (h : rpcFields? request = some fields)
    (hid : dictGet? fields "id" = some id) :
    (∃ result, result.Shallow (ShortInt package) 8 ∧
      (respond package config env request cache).1 = some (resultResponse id result)) ∨
    ∃ error, error.Shallow (ShortInt package) 8 ∧
      (respond package config env request cache).1 = some (errorResponse id error) := by
  have hrequest : requestId request = id := by
    rw [rpcFields?_eq_some h, requestId, hid]
    rfl
  have hwritable := @perform_writable _ package config env _ _ _ fields cache
  rcases hperform : perform package config env fields cache with ⟨outcome, after⟩
  rw [hperform] at hwritable
  rcases outcome with (error | exc) | result
  · exact Or.inr ⟨error.asDict, hwritable, by simp [respond, handleRequest, h, hid, hperform]⟩
  · exact Or.inr ⟨internalError exc, shallow_internalError exc,
      by simp [respond, handleRequest, h, hperform, hrequest]⟩
  · exact Or.inl ⟨result, hwritable, by simp [respond, handleRequest, h, hid, hperform]⟩

variable (package config) in
/-- The loop can serve a value: its id can be written, and if it is a
notification then it does not crash. -/
def ServedValue (env : Env Time) (cache : ReportCache Time) (request : Json) : Prop :=
  dumpError package.runtime .plain 1 (requestId request) = none ∧
    ∀ fields, rpcFields? request = some fields → dictGet? fields "id" = none →
      Quiet package config env fields cache

variable (package config) in
/-- The loop can serve a line: it stays within the budgets of `json.loads`, and
its value can be served. -/
def Served (cache : ReportCache Time) (line : Line Time) : Prop :=
  strip line.text ≠ [] →
    (∀ exc, loads package.runtime.limits (strip line.text) = .error exc → ¬IsBudgetError exc) ∧
    ∀ request, loads package.runtime.limits (strip line.text) = .ok request →
      ServedValue package config line.env cache request

/-- What is written is what is expected. -/
def Right (package : Package) (e : Expected) (outcome : Except Exc (List Str)) : Prop :=
  ∃ written, outcome = .ok written ∧ Answers package e written

/-- Nothing is written because the session ends, or a line too many is. -/
def Wrong (e : Expected) (outcome : Except Exc (List Str)) : Prop :=
  ∀ written, outcome = .ok written → e.count < written.length

/-- A response with the right id is right if the id can be written, and ends
the session if not. -/
theorem send_cases {id value : Json} {member : Str} {e : Expected}
    (hvalue : value.Shallow (ShortInt package) 8)
    (hanswers : Answers package e
      [lineOf package (.obj [("jsonrpc", .str "2.0"), ("id", id), (member, value)])]) :
    (dumpError package.runtime .plain 1 id = none ∧ Right package e
      (send package (some (.obj [("jsonrpc", .str "2.0"), ("id", id), (member, value)])))) ∨
    (dumpError package.runtime .plain 1 id ≠ none ∧ Wrong e
      (send package (some (.obj [("jsonrpc", .str "2.0"), ("id", id), (member, value)])))) := by
  by_cases hid : dumpError package.runtime .plain 1 id = none
  · exact Or.inl ⟨hid, _, send_some_eq_ok.mpr ⟨(dumpError_reply hvalue).mpr hid, rfl⟩, hanswers⟩
  · refine Or.inr ⟨hid, fun written hwritten => ?_⟩
    exact absurd ((dumpError_reply hvalue).mp (send_some_eq_ok.mp hwritten).1) hid

/-- A value is answered right if it is served, and wrong if not. -/
theorem respond_cases (env : Env Time) (cache : ReportCache Time) (request : Json) :
    (ServedValue package config env cache request ∧ Right package (expectedFor request)
      (send package (respond package config env request cache).1)) ∨
    (¬ServedValue package config env cache request ∧ Wrong (expectedFor request)
      (send package (respond package config env request cache).1)) := by
  cases hrpc : rpcFields? request with
  | none =>
    have hexpected : expectedFor request = .someError := by rw [expectedFor, hrpc]
    rw [respond_other hrpc, hexpected]
    rcases @send_cases package (requestId request) _ _ .someError
      (@writable_mcp _ invalidRequest (by decide) (lit "not a JSON-RPC 2.0 request") .null
        (by simp)) ⟨_, _, rfl⟩ with ⟨hid, hright⟩ | ⟨hid, hwrong⟩
    · exact Or.inl ⟨⟨hid, by simp [hrpc]⟩, hright⟩
    · exact Or.inr ⟨fun h => hid h.1, hwrong⟩
  | some fields =>
    have hsame : ∀ fields', rpcFields? request = some fields' → fields' = fields := by
      intro fields' hfields'
      rw [hrpc, Option.some.injEq] at hfields'
      exact hfields'.symm
    cases hid : dictGet? fields "id" with
    | none =>
      have hexpected : expectedFor request = .nothing := by simp only [expectedFor, hrpc, hid]
      have hnull : requestId request = .null := by
        rw [rpcFields?_eq_some hrpc, requestId, hid]
        rfl
      rw [hexpected]
      by_cases hquiet : Quiet package config env fields cache
      · refine Or.inl ⟨⟨by rw [hnull]; rfl, fun fields' hfields' _ => hsame fields' hfields' ▸ hquiet⟩,
          [], ?_, rfl⟩
        rw [(respond_notification hrpc hid).1 hquiet]
        exact send_none
      · refine Or.inr ⟨fun h => hquiet (h.2 fields hrpc hid), fun written hwritten => ?_⟩
        rcases (respond_notification hrpc hid).2 hquiet with ⟨exc, hexc⟩
        rw [hexc] at hwritten
        rw [(send_some_eq_ok.mp hwritten).2]
        exact Nat.zero_lt_one
    | some id =>
      have hexpected : expectedFor request = .response id := by simp only [expectedFor, hrpc, hid]
      have hserved : ServedValue package config env cache request ↔
          dumpError package.runtime .plain 1 id = none := by
        rw [ServedValue, show requestId request = id by
          rw [rpcFields?_eq_some hrpc, requestId, hid]
          rfl]
        refine ⟨fun h => h.1, fun h => ⟨h, fun fields' hfields' hnone => ?_⟩⟩
        rw [hsame fields' hfields', hid] at hnone
        cases hnone
      rw [hexpected, hserved]
      rcases @respond_request _ _ _ _ _ config env _ _ _ cache hrpc hid with
        ⟨result, hshallow, hrespond⟩ | ⟨error, hshallow, hrespond⟩
      · rw [hrespond]
        exact send_cases hshallow (Or.inl ⟨result, rfl⟩)
      · rw [hrespond]
        exact send_cases hshallow (Or.inr ⟨error, rfl⟩)

/-- What a turn of the loop does for one line. -/
theorem serveLine_cases (cache : ReportCache Time) (line : Line Time) :
    (Served package config cache line ∧
      Right package (expected line.text) (serveLine package config cache line).2) ∨
    (¬Served package config cache line ∧
      Wrong (expected line.text) (serveLine package config cache line).2) := by
  by_cases hblank : strip line.text = []
  · refine Or.inl ⟨fun h => absurd hblank h, [], ?_, ?_⟩
    · rw [serveLine, if_pos hblank]
    · rw [expected, if_pos hblank]
      rfl
  rcases loads_eq_jsonOf package.runtime.limits (strip line.text) with hsame | ⟨exc, hexc, hbudget⟩
  · cases hloads : loads package.runtime.limits (strip line.text) with
    | error exc =>
      rw [hloads] at hsame
      have htype : exc.type = .jsonDecodeError := jsonOf_error hsame.symm
      have hserve : (serveLine package config cache line).2 =
          send package (some (errorResponse .null (parseFailure exc))) := by
        simp only [serveLine, if_neg hblank, hloads, if_pos htype]
      have hexpected : expected line.text = .nullError := by
        simp only [expected, if_neg hblank, ← hsame]
      rw [hserve, hexpected]
      rcases @send_cases package _ _ _ .nullError (shallow_parseFailure exc) ⟨_, rfl⟩ with
        ⟨_, hright⟩ | ⟨hnot, _⟩
      · refine Or.inl ⟨fun _ => ⟨fun other hother => ?_, fun request hrequest => ?_⟩, hright⟩
        · rw [hloads, Except.error.injEq] at hother
          exact fun h => isBudgetError_not_decode h (hother ▸ htype)
        · rw [hloads] at hrequest
          cases hrequest
      · exact absurd rfl hnot
    | ok request =>
      rw [hloads] at hsame
      have hserve : (serveLine package config cache line).2 =
          send package (respond package config line.env request cache).1 := by
        simp only [serveLine, if_neg hblank, hloads]
      have hexpected : expected line.text = expectedFor request := by
        simp only [expected, if_neg hblank, ← hsame]
      have hserved : Served package config cache line ↔
          ServedValue package config line.env cache request := by
        simp [Served, hblank, hloads]
      rw [hserve, hexpected, hserved]
      exact respond_cases line.env cache request
  · refine Or.inr ⟨fun h => (h hblank).1 exc hexc hbudget, fun written hwritten => ?_⟩
    simp only [serveLine, if_neg hblank, hexc, if_neg (isBudgetError_not_decode hbudget)] at hwritten
    cases hwritten

/-! ## The session -/

/-- The number of lines that JSON-RPC asks for. -/
def expectedCount (lines : List Str) : Nat := (lines.map fun line => (expected line).count).sum

omit [Sub Time] [LT Time] [DecidableLT Time] in
theorem expectedCount_eq {lines : List Str} {written : List (List Str)}
    (h : List.Forall₂ (fun line => Answers package (expected line)) lines written) :
    expectedCount lines = written.flatten.length := by
  rw [expectedCount, List.length_flatten]
  induction h with
  | nil => rfl
  | cons hanswers _ ih => simp only [List.map_cons, List.sum_cons, ih, answers_length hanswers]

/-- A session whose lines are all served answers all of them. -/
theorem serveLines_of_served {cache : ReportCache Time} {lines : List (Line Time)}
    (h : ∀ e ∈ Machine.trace (serveLine package config) cache lines,
      Served package config e.before e.input) :
    AnswersAll package (lines.map Line.text) (serveLines package config cache lines) := by
  induction lines generalizing cache with
  | nil => exact ⟨[], rfl, List.Forall₂.nil⟩
  | cons line rest ih =>
    rw [Machine.trace, List.forall_mem_cons] at h
    rcases @serveLine_cases _ _ _ _ package config cache line with
      ⟨_, written, hok, hanswers⟩ | ⟨hnot, _⟩
    · rcases ih h.2 with ⟨later, hlater, hforall⟩
      refine ⟨written :: later, ?_, List.Forall₂.cons hanswers hforall⟩
      rcases hserve : serveLine package config cache line with ⟨after, outcome⟩
      rw [hserve] at hok hlater
      have houtcome : outcome = .ok written := hok
      rw [houtcome] at hserve
      simp only [serveLines, hserve, hlater, List.flatten_cons]
    · exact absurd h.1 hnot

/-- A session that returns 0 writes at least the lines that are expected, and
more than that when a line is not served. -/
theorem expectedCount_le {cache : ReportCache Time} {lines : List (Line Time)}
    (h : (serveLines package config cache lines).2 = .ok 0) :
    expectedCount (lines.map Line.text) ≤ (serveLines package config cache lines).1.length ∧
      ((serveLines package config cache lines).1.length ≤ expectedCount (lines.map Line.text) →
        ∀ e ∈ Machine.trace (serveLine package config) cache lines,
          Served package config e.before e.input) := by
  induction lines generalizing cache with
  | nil => exact ⟨Nat.le_refl 0, fun _ e he => by cases he⟩
  | cons line rest ih =>
    rcases hserve : serveLine package config cache line with ⟨after, outcome⟩
    have hcases := @serveLine_cases _ _ _ _ package config cache line
    rw [hserve] at hcases
    cases outcome with
    | error exc =>
      rw [serveLines, hserve] at h
      cases h
    | ok written =>
      have hlines : serveLines package config cache (line :: rest) =
          (written ++ (serveLines package config after rest).1,
            (serveLines package config after rest).2) := by
        rw [serveLines, hserve]
      rw [hlines] at h
      rcases ih h with ⟨hle, hserved⟩
      have hcount : expectedCount ((line :: rest).map Line.text) =
          (expected line.text).count + expectedCount (rest.map Line.text) := by
        simp [expectedCount]
      have hlength : (serveLines package config cache (line :: rest)).1.length =
          written.length + (serveLines package config after rest).1.length := by
        rw [hlines, List.length_append]
      rw [hcount, hlength, Machine.trace, List.forall_mem_cons, hserve]
      rcases hcases with ⟨hgood, written', hwritten', hanswers⟩ | ⟨_, hwrong⟩
      · rw [Except.ok.injEq] at hwritten'
        have hwritten := answers_length hanswers
        rw [← hwritten'] at hwritten
        exact ⟨by omega, fun hlt => ⟨hgood, hserved (by omega)⟩⟩
      · have hmore := hwrong written rfl
        exact ⟨by omega, fun hlt => by omega⟩

/-- `serve_stdio` answers every line of its input as JSON-RPC asks, and returns
0, if and only if every line can be served. -/
theorem serveStdio_answers_iff (root : Path) (cacheSeconds : Time) (lines : List (Line Time)) :
    AnswersAll package (lines.map Line.text) (serveStdio package root cacheSeconds lines) ↔
      ∀ e ∈ Machine.trace (serveLine package ⟨root⟩) (.empty cacheSeconds) lines,
        Served package ⟨root⟩ e.before e.input := by
  constructor
  · intro ⟨written, houtcome, hforall⟩
    rw [serveStdio] at houtcome
    refine (expectedCount_le (by rw [houtcome])).2 ?_
    rw [houtcome, expectedCount_eq hforall]
  · exact serveLines_of_served

/-! ## Lines that are not served -/

end

namespace Sample

/-- `tools/call` as a notification, with parameters that are not an object. -/
def badNotification : Line Int :=
  ⟨"\x7b\"jsonrpc\": \"2.0\", \"method\": \"tools/call\", \"params\": 1\x7d", env 0⟩

end Sample

/-- A notification that crashes is answered. -/
theorem notification_answered :
    ¬∀ lines : List (Line Int), AnswersAll Sample.package (lines.map Line.text)
      (serveStdio Sample.package (.parse "/work") 300 lines) := by
  intro h
  rcases h [Sample.badNotification] with ⟨written, houtcome, hforall⟩
  have hone : (serveStdio Sample.package (.parse "/work") 300 [Sample.badNotification]).1.length = 1 := by
    decide +kernel
  have hnone : expectedCount ([Sample.badNotification].map Line.text) = 0 := by decide +kernel
  rw [expectedCount_eq hforall] at hnone
  rw [houtcome, hnone] at hone
  exact absurd hone (by decide)

end DevRepro.Mcp
