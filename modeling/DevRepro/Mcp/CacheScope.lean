import DevRepro.Lib.Machine
import DevRepro.Mcp.Protocol

/-!
# Which scan answers a tool call

`ReportCache` keeps one report and does not keep the directory that the report
is about.  `Session` adds what the code forgets: the log of the scans that
ran, the newest first.  A session takes the code's own steps, and
`Session.Faithful` says that the cache holds the report of the newest scan.

`InScope` is what a caller relies on: the scan behind an answer was of the
directory that the call named, and it was taken by this very call or less than
`cache_seconds` ago.  The age is always right.  The directory is right as long
as a call that finds the cache fresh names the directory of the newest scan
(`report_from_asked_directory`), and `answered_from_other_directory` is a
session of two calls in which it is wrong.
-/

namespace DevRepro.Mcp

open DevRepro.Python DevRepro.Lib

/-- A `tools/call` request, with its surroundings. -/
structure Call (Time : Type) where
  name : Str
  arguments : List (Str × Json)
  env : Env Time

/-- A scan that ran: the directory, the clock reading of the call that ran it,
and the report. -/
structure Scan (Time : Type) where
  directory : Path
  takenAt : Time
  report : ScanReport

/-- A server between two calls: the cache, and the scans that ran so far. -/
structure Session (Time : Type) where
  cache : ReportCache Time
  log : List (Scan Time)

/-- A report that was used to answer a call: the directory that the call asked
for, its clock reading, whether it ran a scan, and the scan that the report
comes from. -/
structure Use (Time : Type) where
  asked : Path
  now : Time
  wasFresh : Bool
  report : ScanReport
  scan : Scan Time

section

variable {Time : Type} [LinearOrder Time] [Sub Time]
variable (package : Package) (config : ServerConfig)

/-- The directory and the refresh flag with which a call consults the cache.
A call that is refused or answered from the rule catalogue does not. -/
def consults (call : Call Time) : Option (Path × Bool) :=
  if refusal package call.name call.arguments = none ∧ call.name ≠ lit "explain" then
    match resolveWithin package config call.env (projectOf call.arguments) with
    | .ok project => some (project, refreshOf call.arguments)
    | .error _ => none
  else none

/-- One call to a server, with the scan behind its answer. -/
def Session.serve (session : Session Time) (call : Call Time) : Session Time × Option (Use Time) :=
  match consults package config call with
  | none => (session, none)
  | some (project, refresh) =>
    match session.cache.get call.env project refresh with
    | (.error _, cache) => ({ session with cache := cache }, none)
    | (.ok (report, wasFresh), cache) =>
      let log := if wasFresh then ⟨project, call.env.now, report⟩ :: session.log else session.log
      (⟨cache, log⟩, log.head?.map fun scan => ⟨project, call.env.now, wasFresh, report, scan⟩)

/-- A server before its first call. -/
def Session.start (cacheSeconds : Time) : Session Time := ⟨.empty cacheSeconds, []⟩

/-! ## The session takes the code's steps -/

variable {package config}

/-- A call that consults the cache is answered from what `ReportCache.get`
returns, and every other call leaves the cache alone. -/
theorem callTool_eq (call : Call Time) (cache : ReportCache Time) :
    callTool package config call.env call.name call.arguments cache =
      match consults package config call with
      | none => ((callTool package config call.env call.name call.arguments cache).1, cache)
      | some (project, refresh) =>
        match cache.get call.env project refresh with
        | (.error exc, cache) => (.error (.py exc), cache)
        | (.ok (report, wasFresh), cache) =>
          (answer package call.env call.name call.arguments project report wasFresh, cache) := by
  rw [consults, callTool]
  cases hrefusal : refusal package call.name call.arguments with
  | some error => simp
  | none =>
    by_cases hexplain : call.name = lit "explain"
    · simp [hexplain]
    · cases hproject : resolveWithin package config call.env (projectOf call.arguments) with
      | error failure => simp [hexplain]
      | ok project =>
        rcases hget : cache.get call.env project (refreshOf call.arguments) with ⟨result, after⟩
        cases result with
        | error exc => simp [hexplain, hget]
        | ok found => simp [hexplain, hget]

/-- The answer of a call that used a report is made from that report. -/
theorem serve_answer {session : Session Time} {call : Call Time} {use : Use Time}
    (h : (session.serve package config call).2 = some use) :
    (callTool package config call.env call.name call.arguments session.cache).1 =
      answer package call.env call.name call.arguments use.asked use.report use.wasFresh := by
  rw [Session.serve] at h
  rw [callTool_eq]
  split at h
  · cases h
  · split at h
    · cases h
    · rw [Option.map_eq_some_iff] at h
      rcases h with ⟨scan, _, rfl⟩
      simp only [*]

/-! ## The cache holds the newest scan -/

theorem freshEnough_iff {cache : ReportCache Time} {now : Time} :
    cache.freshEnough now = true ↔ ∃ report takenAt, cache.report = some report ∧
      cache.takenAt = some takenAt ∧ now - takenAt < cache.cacheSeconds := by
  rw [ReportCache.freshEnough]
  split
  · rename_i report takenAt hreport htaken
    simp [hreport, htaken]
  · rename_i hnone
    constructor
    · intro h
      cases h
    · intro ⟨report, takenAt, hreport, htaken, _⟩
      exact absurd htaken (hnone report takenAt hreport)

/-- `ReportCache.get` reuses a report that is fresh enough unless a refresh is
asked for. -/
theorem get_of_reused {cache : ReportCache Time} {env : Env Time} {root : Path} {report : ScanReport}
    (hfresh : cache.freshEnough env.now = true) (hreport : cache.report = some report) :
    cache.get env root false = (.ok (report, false), cache) := by
  simp [ReportCache.get, hfresh, hreport]

/-- Otherwise it scans the directory that it is given. -/
theorem get_of_due {cache : ReportCache Time} {env : Env Time} {root : Path} {refresh : Bool}
    (hdue : cache.freshEnough env.now = true → refresh = true) :
    cache.get env root refresh =
      match env.scan root with
      | .error exc => (.error exc, cache)
      | .ok report =>
        (.ok (report, true),
          { cache with report := some report, takenAt := some env.now, scans := cache.scans + 1 }) := by
  have hnot : (cache.freshEnough env.now && !refresh) = false := by
    cases hfresh : cache.freshEnough env.now with
    | false => rfl
    | true => simp [hdue hfresh]
  rw [ReportCache.get, hnot]
  rfl

/-- The cache holds the report of the newest scan, with its time, and counts
the scans. -/
structure Session.Faithful (cacheSeconds : Time) (session : Session Time) : Prop where
  cacheSeconds_eq : session.cache.cacheSeconds = cacheSeconds
  report_eq : session.cache.report = session.log.head?.map Scan.report
  takenAt_eq : session.cache.takenAt = session.log.head?.map Scan.takenAt
  scans_eq : session.cache.scans = session.log.length

omit [LinearOrder Time] [Sub Time] in
theorem Session.Faithful.start (cacheSeconds : Time) :
    (Session.start cacheSeconds).Faithful cacheSeconds :=
  ⟨rfl, rfl, rfl, rfl⟩

/-- What one call does to a faithful session: it leaves it alone, it reuses
the newest scan, or it runs a scan of the directory that it asks for. -/
theorem Session.Faithful.serve_cases {cacheSeconds : Time} {session : Session Time}
    (h : session.Faithful cacheSeconds) (call : Call Time) :
    (session.serve package config call = (session, none) ∧
      ∀ project refresh, consults package config call = some (project, refresh) →
        session.cache.freshEnough call.env.now = true → refresh = true) ∨
    (∃ project scan, consults package config call = some (project, false) ∧
      session.cache.freshEnough call.env.now = true ∧ session.log.head? = some scan ∧
      session.serve package config call =
        (session, some ⟨project, call.env.now, false, scan.report, scan⟩)) ∨
    (∃ project refresh report, consults package config call = some (project, refresh) ∧
      (session.cache.freshEnough call.env.now = true → refresh = true) ∧
      call.env.scan project = .ok report ∧
      session.serve package config call =
        (⟨{ session.cache with
            report := some report, takenAt := some call.env.now, scans := session.cache.scans + 1 },
            ⟨project, call.env.now, report⟩ :: session.log⟩,
          some ⟨project, call.env.now, true, report, ⟨project, call.env.now, report⟩⟩)) := by
  cases hconsults : consults package config call with
  | none =>
    refine Or.inl ⟨by rw [Session.serve, hconsults], fun project refresh hsome => ?_⟩
    cases hsome
  | some asked =>
    rcases asked with ⟨project, refresh⟩
    by_cases hdue : session.cache.freshEnough call.env.now = true → refresh = true
    · have hget := @get_of_due _ _ _ _ _ project _ hdue
      cases hscan : call.env.scan project with
      | error exc =>
        rw [hscan] at hget
        refine Or.inl ⟨by rw [Session.serve, hconsults]; simp only [hget], ?_⟩
        intro project' refresh' hsome
        cases hsome
        exact hdue
      | ok report =>
        rw [hscan] at hget
        refine Or.inr (Or.inr ⟨project, refresh, report, rfl, hdue, hscan, ?_⟩)
        rw [Session.serve, hconsults]
        simp [hget]
    · have hboth : session.cache.freshEnough call.env.now = true ∧ refresh = false := by
        simpa using hdue
      rcases hboth with ⟨hfresh, rfl⟩
      rcases freshEnough_iff.mp hfresh with ⟨report, takenAt, hreport, _, _⟩
      have hhead := h.report_eq
      rw [hreport, eq_comm, Option.map_eq_some_iff] at hhead
      rcases hhead with ⟨scan, hscan, rfl⟩
      refine Or.inr (Or.inl ⟨project, scan, rfl, hfresh, hscan, ?_⟩)
      rw [Session.serve, hconsults]
      simp [get_of_reused hfresh hreport, hscan]

/-- Every call keeps the session faithful. -/
theorem Session.Faithful.serve {cacheSeconds : Time} {session : Session Time}
    (h : session.Faithful cacheSeconds) (call : Call Time) :
    (session.serve package config call).1.Faithful cacheSeconds := by
  rcases @Session.Faithful.serve_cases _ _ _ package config _ _ h call with
    ⟨heq, _⟩ | ⟨_, _, _, _, _, heq⟩ | ⟨project, refresh, report, _, _, _, heq⟩
  · rw [heq]
    exact h
  · rw [heq]
    exact h
  · rw [heq]
    refine ⟨h.cacheSeconds_eq, rfl, rfl, ?_⟩
    show session.cache.scans + 1 = _
    rw [h.scans_eq, List.length_cons]

/-! ## Scope -/

/-- The scan behind a report was of the directory that the call asked for, and
was taken by that very call or less than `cacheSeconds` before it. -/
def InScope (cacheSeconds : Time) (use : Use Time) : Prop :=
  use.scan.directory = use.asked ∧ use.scan.report = use.report ∧ use.scan.takenAt ≤ use.now ∧
    (use.wasFresh = true ∧ use.scan.takenAt = use.now ∨
      use.now - use.scan.takenAt < cacheSeconds)

variable (package config) in
/-- A call that finds the cache fresh, and does not ask for a refresh, asks for
the directory of the newest scan. -/
def AsksForNewest (session : Session Time) (call : Call Time) : Prop :=
  ∀ project, consults package config call = some (project, false) →
    session.cache.freshEnough call.env.now = true →
    session.log.head?.map Scan.directory = some project

/-- The clock has not gone back since the scans of a session. -/
def Session.ClockReads (session : Session Time) (call : Call Time) : Prop :=
  ∀ scan ∈ session.log, scan.takenAt ≤ call.env.now

/-- One call is answered in scope exactly when it asks for the directory of
the newest scan. -/
theorem Session.Faithful.inScope_iff {cacheSeconds : Time} {session : Session Time}
    (h : session.Faithful cacheSeconds) {call : Call Time} (hclock : session.ClockReads call) :
    (∀ use, (session.serve package config call).2 = some use → InScope cacheSeconds use) ↔
      AsksForNewest package config session call := by
  rcases @Session.Faithful.serve_cases _ _ _ package config _ _ h call with
    ⟨heq, hdue⟩ | ⟨project, scan, hconsults, hfresh, hhead, heq⟩ |
    ⟨project, refresh, report, hconsults, hdue, _, heq⟩
  · rw [heq]
    refine ⟨fun _ project hconsults hfresh => ?_, fun _ use huse => by cases huse⟩
    exact absurd (hdue project false hconsults hfresh) (by decide)
  · rw [heq]
    have hage : call.env.now - scan.takenAt < cacheSeconds := by
      rcases freshEnough_iff.mp hfresh with ⟨_, takenAt, _, htaken, hlt⟩
      rw [h.takenAt_eq, hhead, Option.map_some, Option.some.injEq] at htaken
      rwa [htaken, ← h.cacheSeconds_eq]
    have hmem : scan ∈ session.log := List.mem_of_mem_head? hhead
    constructor
    · intro hscope project' hconsults' _
      rw [hconsults, Option.some.injEq, Prod.mk.injEq] at hconsults'
      rw [hhead, Option.map_some, (hscope _ rfl).1, hconsults'.1]
    · intro hasks use huse
      cases huse
      have hdirectory := hasks project hconsults hfresh
      rw [hhead, Option.map_some, Option.some.injEq] at hdirectory
      exact ⟨hdirectory, rfl, hclock scan hmem, Or.inr hage⟩
  · rw [heq]
    constructor
    · intro _ project' hconsults' hfresh
      rw [hconsults, Option.some.injEq, Prod.mk.injEq] at hconsults'
      exact absurd (hdue hfresh) (by rw [hconsults'.2]; decide)
    · intro _ use huse
      cases huse
      exact ⟨rfl, rfl, le_rfl, Or.inl ⟨rfl, rfl⟩⟩

/-! ## Runs -/

theorem faithful_keeps (cacheSeconds : Time) :
    Machine.Keeps (Session.serve package config) Session.ClockReads
      (Session.Faithful cacheSeconds) :=
  fun _ call h _ => h.serve call

/-- A clock that never goes back is never behind a scan. -/
theorem clockReads_of_pairwise {cacheSeconds : Time} {session : Session Time}
    (h : session.Faithful cacheSeconds) {calls : List (Call Time)}
    (hclock : (calls.map fun call => call.env.now).Pairwise (· ≤ ·))
    (hlog : ∀ call ∈ calls, session.ClockReads call) :
    Machine.Admits (Session.serve package config) Session.ClockReads session calls := by
  induction calls generalizing session with
  | nil => exact trivial
  | cons call calls ih =>
    rw [List.map_cons, List.pairwise_cons] at hclock
    refine ⟨hlog call List.mem_cons_self, ih (h.serve call) hclock.2 ?_⟩
    intro later hlater
    have hold := hlog later (List.mem_cons_of_mem _ hlater)
    have hnow : call.env.now ≤ later.env.now := hclock.1 _ (List.mem_map.mpr ⟨later, hlater, rfl⟩)
    rcases @Session.Faithful.serve_cases _ _ _ package config _ _ h call with
      ⟨heq, _⟩ | ⟨_, _, _, _, _, heq⟩ | ⟨_, _, _, _, _, _, heq⟩
    · rw [heq]
      exact hold
    · rw [heq]
      exact hold
    · rw [heq]
      intro scan hscan
      rcases List.mem_cons.mp hscan with rfl | hscan
      · exact hnow
      · exact hold scan hscan

/-- In every session whose clock does not go back, every report that answers a
call comes from a recent scan of the directory that the call asked for, if and
only if every call that finds the cache fresh asks for the directory of the
newest scan. -/
theorem report_from_asked_directory (cacheSeconds : Time) (calls : List (Call Time))
    (hclock : (calls.map fun call => call.env.now).Pairwise (· ≤ ·)) :
    (∀ e ∈ Machine.trace (Session.serve package config) (.start cacheSeconds) calls,
      ∀ use, e.output = some use → InScope cacheSeconds use) ↔
    ∀ e ∈ Machine.trace (Session.serve package config) (.start cacheSeconds) calls,
      AsksForNewest package config e.before e.input := by
  have hstart := Session.Faithful.start cacheSeconds
  refine (faithful_keeps cacheSeconds).forall_trace_iff
    (P := fun e => ∀ use, e.output = some use → InScope cacheSeconds use)
    (Q := fun e => AsksForNewest package config e.before e.input) ?_ hstart
    (clockReads_of_pairwise hstart hclock ?_)
  · intro session call hfaithful hreads
    exact hfaithful.inScope_iff hreads
  · intro call _ scan hscan
    cases hscan

end

/-! ## A session with two projects -/

namespace Sample

/-- `doctor` for a directory below the root. -/
def doctor (project : Str) (now : Int) : Call Int := ⟨"doctor", [("project", .str project)], env now⟩

/-- The directory that each call asked for, and the one that it was answered
from. -/
def directories (calls : List (Call Int)) : List (Option (Path × Path)) :=
  (Machine.trace (Session.serve package config) (.start 300) calls).map fun e =>
    e.output.map fun use => (use.asked, use.scan.directory)

end Sample

theorem report_from_asked_directory_sample :
    (∀ e ∈ Machine.trace (Session.serve Sample.package Sample.config) (.start 300)
        [Sample.doctor "a" 0, Sample.doctor "a" 1],
      ∀ use, e.output = some use → InScope 300 use) ↔
    ∀ e ∈ Machine.trace (Session.serve Sample.package Sample.config) (.start 300)
        [Sample.doctor "a" 0, Sample.doctor "a" 1],
      AsksForNewest Sample.package Sample.config e.before e.input :=
  report_from_asked_directory 300 _ (by decide)

/-- Two calls within the cache window, for two directories: the second one is
answered from the scan of the first directory. -/
theorem answered_from_other_directory :
    ¬∀ calls : List (Call Int), (calls.map fun call => call.env.now).Pairwise (· ≤ ·) →
      ∀ e ∈ Machine.trace (Session.serve Sample.package Sample.config) (.start 300) calls,
        ∀ use, e.output = some use → InScope 300 use := by
  intro h
  have hscope := h [Sample.doctor "a" 0, Sample.doctor "b" 1] (by decide)
  have hsame : ∀ pair ∈ Sample.directories [Sample.doctor "a" 0, Sample.doctor "b" 1],
      ∀ asked directory, pair = some (asked, directory) → directory = asked := by
    intro pair hpair asked directory heq
    rcases List.mem_map.mp hpair with ⟨e, he, hmap⟩
    rw [heq, Option.map_eq_some_iff] at hmap
    rcases hmap with ⟨use, huse, hdirs⟩
    rw [Prod.mk.injEq] at hdirs
    rw [← hdirs.1, ← hdirs.2]
    exact (hscope e he use huse).1
  have hsecond : some (Path.parse "/work/b", Path.parse "/work/a") ∈
      Sample.directories [Sample.doctor "a" 0, Sample.doctor "b" 1] := by decide +kernel
  exact absurd (hsame _ hsecond _ _ rfl) (by decide)

end DevRepro.Mcp
