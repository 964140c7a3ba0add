import DevRepro.Lib.Dict
import DevRepro.Lib.MapM
import DevRepro.Mcp.Report

/-!
# The probe engine

`ProbeEngine` of `probes/base.py`.  A probe is what its two methods do, and the exceptions
are those of Python: turning one into a text may raise as well.  The checks of pydantic on
the texts of a model are a parameter.

A failure is caught inside the worker, which makes a finding of it, or around the future,
which makes none.  `isolated_iff` says which probes leave a trace of every failure.
-/

namespace DevRepro.Probes

open DevRepro.Python DevRepro.Lib
open DevRepro.Mcp (Finding FindingState Evidence)

/-! ## Probes -/

/-- An exception, with what `str()` makes of it: its text, or another exception. -/
inductive Raised where
  | plain (typeName text : Str)
  | unprintable (typeName : Str) (raised : Raised)

namespace Raised

def typeName : Raised → Str
  | plain typeName _ => typeName
  | unprintable typeName _ => typeName

/-- `str(exc)`. -/
def str : Raised → Except Raised Str
  | plain _ text => .ok text
  | unprintable _ raised => .error raised

end Raised

structure ProbeResult where
  probeId : Str
  findings : List Finding
  data : List (Str × Json)
  error : Option Str

/-- What a method returns in place of a result. -/
inductive Returned where
  | result (r : ProbeResult)
  | other

/-- A probe: its id, and what `supported()` and `run()` do. -/
structure Probe where
  id : Str
  supported : Except Raised Bool
  run : Except Raised Returned

/-! ## The engine -/

variable (validate : List Str → Except Raised Unit)

/-- `f"probe/{probe.id}/failed"`. -/
def failedRule (probe : Probe) : Str := lit "probe/" ++ probe.id ++ lit "/failed"

def failedSummary (probe : Probe) : Str :=
  lit "Probe '" ++ probe.id ++ lit "' failed internally; results may be incomplete."

def raisedExcerpt (exc : Raised) (text : Str) : Str :=
  lit "probe raised " ++ exc.typeName ++ lit ": " ++ text

/-- The result of a probe whose `run` raised, once its texts are checked. -/
def failedResult (probe : Probe) (exc : Raised) (text : Str) : ProbeResult :=
  ⟨probe.id,
    [⟨failedRule probe, .unknown, failedSummary probe,
      [⟨"system", none, none, some (raisedExcerpt exc text), true⟩], none, none, none, none, [],
      some probe.id⟩],
    [], some text⟩

/-- `_run_one`. -/
def runOne (probe : Probe) : Except Raised ProbeResult := do
  let supported ← probe.supported
  if !supported then return ⟨probe.id, [], [], some "unsupported on this platform"⟩
  else
    match probe.run with
    | .error exc => do
      let text ← exc.str
      validate ["system", raisedExcerpt exc text]
      validate [failedRule probe, failedSummary probe, probe.id]
      return failedResult probe exc text
    | .ok .other =>
      .error (.plain "ProbeError" (lit "probe " ++ probe.id ++ lit " returned invalid result type"))
    | .ok (.result r) => return r

/-- The result of a future that raised. -/
def engineFailure (probe : Probe) (exc : Raised) : Except Raised ProbeResult :=
  exc.str.map fun text =>
    ⟨probe.id, [], [], some (lit "engine-level failure: " ++ exc.typeName ++ lit ": " ++ text)⟩

/-- What `run_all` stores for a probe. -/
def outcome (probe : Probe) : Except Raised ProbeResult :=
  match runOne validate probe with
  | .ok r => .ok r
  | .error exc => engineFailure probe exc

/-- `run_all`. -/
def runAll (probes : List Probe) : Except Raised (Dict Str ProbeResult) :=
  probes.foldlM (fun results probe => (outcome validate probe).map (results.set probe.id)) .empty

/-! ## What is promised -/

/-- The probe failed in another way than being unsupported. -/
def Probe.Failed (probe : Probe) : Prop :=
  probe.supported ≠ .ok false ∧ ¬(probe.supported = .ok true ∧ ∃ r, probe.run = .ok (.result r))

/-- A result that tells of a failure. -/
structure ProbeResult.Traces (r : ProbeResult) : Prop where
  error : r.error ≠ none
  finding : ∃ f ∈ r.findings, f.state = .unknown ∧ f.evidence ≠ []

/-- The entry of one probe. -/
structure Entry (probe : Probe) (entry : ProbeResult) : Prop where
  kept : ∀ r, probe.supported = .ok true → probe.run = .ok (.result r) → entry = r
  traced : probe.Failed → entry.Traces
  alone : ∃ results, runAll validate [probe] = .ok results ∧ results.items = [(probe.id, entry)]

/-- Every probe has one entry, which keeps its result or traces its failure, and is the one
that it has alone. -/
def Isolated (probes : List Probe) : Prop :=
  ∃ results, runAll validate probes = .ok results ∧
    results.items.map Prod.fst = probes.map Probe.id ∧
    ∀ probe ∈ probes, ∃ entry, results.get? probe.id = some entry ∧ Entry validate probe entry

/-- `supported()` returns, `run()` returns a result or raises, and what it raises has a text
that a finding can carry. -/
structure WellBehaved (probe : Probe) : Prop where
  supported : ∃ b, probe.supported = .ok b
  returned : probe.supported = .ok true → probe.run ≠ .ok .other
  raised : probe.supported = .ok true → ∀ exc, probe.run = .error exc → ∃ text, exc.str = .ok text ∧
    validate ["system", raisedExcerpt exc text] = .ok () ∧
    validate [failedRule probe, failedSummary probe, probe.id] = .ok ()

/-! ## One probe -/

variable {validate} {probe : Probe}

/-- The ways that a supported probe or an unsupported one can take. -/
theorem runOne_unsupported (h : probe.supported = .ok false) :
    runOne validate probe = .ok ⟨probe.id, [], [], some "unsupported on this platform"⟩ := by
  rw [runOne, h]
  rfl

theorem runOne_result {r : ProbeResult} (h : probe.supported = .ok true)
    (hrun : probe.run = .ok (.result r)) : runOne validate probe = .ok r := by
  rw [runOne, h, hrun]
  rfl

theorem runOne_raised {exc : Raised} {text : Str} (h : probe.supported = .ok true)
    (hrun : probe.run = .error exc) (htext : exc.str = .ok text)
    (hevidence : validate ["system", raisedExcerpt exc text] = .ok ())
    (hfinding : validate [failedRule probe, failedSummary probe, probe.id] = .ok ()) :
    runOne validate probe = .ok (failedResult probe exc text) := by
  rw [runOne, h, hrun]
  show (exc.str.bind fun _ => _) = _
  rw [htext]
  show (validate _).bind _ = _
  rw [hevidence]
  show (validate _).bind _ = _
  rw [hfinding]
  rfl

/-- A well-behaved probe is one whose worker returns. -/
theorem runOne_returns_iff : (∃ r, runOne validate probe = .ok r) ↔ WellBehaved validate probe := by
  constructor
  · rintro ⟨r, h⟩
    obtain ⟨supported, hsupported, h⟩ := bind_eq_ok.mp h
    refine ⟨⟨supported, hsupported⟩, fun htrue hother => ?_, fun htrue exc hexc => ?_⟩
    · rw [hsupported] at htrue
      cases htrue
      rw [hother] at h
      cases h
    · rw [hsupported] at htrue
      cases htrue
      rw [hexc] at h
      obtain ⟨text, htext, h⟩ := bind_eq_ok.mp h
      obtain ⟨⟨⟩, hevidence, h⟩ := bind_eq_ok.mp h
      obtain ⟨⟨⟩, hfinding, -⟩ := bind_eq_ok.mp h
      exact ⟨text, htext, hevidence, hfinding⟩
  · rintro ⟨⟨supported, hsupported⟩, hother, hraised⟩
    cases supported with
    | false => exact ⟨_, runOne_unsupported hsupported⟩
    | true =>
      cases hrun : probe.run with
      | error exc =>
        obtain ⟨text, htext, hevidence, hfinding⟩ := hraised hsupported exc hrun
        exact ⟨_, runOne_raised hsupported hrun htext hevidence hfinding⟩
      | ok returned =>
        cases returned with
        | result r => exact ⟨r, runOne_result hsupported hrun⟩
        | other => exact absurd hrun (hother hsupported)

/-- The failure of a probe whose worker raises is in no finding. -/
theorem outcome_of_error {exc : Raised} {entry : ProbeResult}
    (h : runOne validate probe = .error exc) (houtcome : outcome validate probe = .ok entry) :
    entry.findings = [] := by
  rw [outcome, h] at houtcome
  change engineFailure probe exc = .ok entry at houtcome
  rw [engineFailure] at houtcome
  cases htext : exc.str with
  | error raised =>
    rw [htext] at houtcome
    cases houtcome
  | ok text =>
    rw [htext] at houtcome
    cases houtcome
    rfl

/-- A probe that does not behave well has failed. -/
theorem failed_of_not_wellBehaved (h : ¬WellBehaved validate probe) : probe.Failed := by
  rw [← runOne_returns_iff] at h
  constructor
  · exact fun hsupported => h ⟨_, runOne_unsupported hsupported⟩
  · rintro ⟨hsupported, r, hrun⟩
    exact h ⟨r, runOne_result hsupported hrun⟩

/-- The entry of a probe keeps its result and traces its failure exactly when the probe
behaves well. -/
theorem outcome_iff {entry : ProbeResult} (h : outcome validate probe = .ok entry) :
    (∀ r, probe.supported = .ok true → probe.run = .ok (.result r) → entry = r) ∧
      (probe.Failed → entry.Traces) ↔ WellBehaved validate probe := by
  constructor
  · rintro ⟨-, htraces⟩
    by_contra hbad
    have htrace := htraces (failed_of_not_wellBehaved hbad)
    cases hone : runOne validate probe with
    | ok r => exact hbad (runOne_returns_iff.mp ⟨r, hone⟩)
    | error exc =>
      obtain ⟨f, hf, -⟩ := htrace.finding
      rw [outcome_of_error hone h] at hf
      cases hf
  · rintro ⟨⟨supported, hsupported⟩, hother, hraised⟩
    constructor
    · intro r htrue hrun
      rw [outcome, runOne_result htrue hrun] at h
      cases h
      rfl
    · intro hfailed
      cases supported with
      | false => exact absurd hsupported hfailed.1
      | true =>
        cases hrun : probe.run with
        | error exc =>
          obtain ⟨text, htext, hevidence, hfinding⟩ := hraised hsupported exc hrun
          rw [outcome, runOne_raised hsupported hrun htext hevidence hfinding] at h
          cases h
          exact ⟨Option.some_ne_none text, _, List.mem_singleton_self _, rfl, List.cons_ne_nil _ _⟩
        | ok returned =>
          cases returned with
          | result r => exact absurd ⟨hsupported, r, hrun⟩ hfailed.2
          | other => exact absurd hrun (hother hsupported)

/-! ## All probes -/

variable {probes : List Probe}

/-- An entry of the results, for a probe. -/
def Stored (validate : List Str → Except Raised Unit) (probe : Probe) (item : Str × ProbeResult) :
    Prop :=
  item.1 = probe.id ∧ outcome validate probe = .ok item.2

/-- Probes with new ids add their entries behind those that are there. -/
theorem foldlM_outcome {before results : Dict Str ProbeResult}
    (hids : (before.items.map Prod.fst ++ probes.map Probe.id).Nodup) :
    probes.foldlM (fun results probe => (outcome validate probe).map (results.set probe.id)) before =
        .ok results ↔
      ∃ entries, List.Forall₂ (Stored validate) probes entries ∧
        results.items = before.items ++ entries := by
  induction probes generalizing before with
  | nil =>
    simp only [List.forall₂_nil_left_iff, exists_eq_left, List.append_nil]
    constructor
    · intro h
      cases h
      rfl
    · intro h
      obtain ⟨items, hnodup⟩ := results
      obtain rfl : items = before.items := h
      rfl
  | cons probe probes ih =>
    rw [List.map_cons] at hids
    have hnew : probe.id ∉ before.items.map Prod.fst := fun hmem =>
      (List.nodup_append.mp hids).2.2 _ hmem _ List.mem_cons_self rfl
    rw [List.foldlM_cons, bind_eq_ok]
    simp only [List.forall₂_cons_left_iff]
    have hafter : ∀ entry, (before.set probe.id entry).items = before.items ++ [(probe.id, entry)] :=
      fun entry => Dict.put_of_not_mem entry hnew
    have hrest : ∀ entry, ((before.set probe.id entry).items.map Prod.fst ++
        probes.map Probe.id).Nodup := by
      intro entry
      rw [hafter, List.map_append, List.append_assoc]
      exact hids
    constructor
    · rintro ⟨after, hafter', h⟩
      cases hentry : outcome validate probe with
      | error exc =>
        rw [hentry] at hafter'
        cases hafter'
      | ok entry =>
        rw [hentry] at hafter'
        cases hafter'
        obtain ⟨entries, hentries, hitems⟩ := (ih (hrest entry)).mp h
        refine ⟨(probe.id, entry) :: entries, ⟨_, _, ⟨rfl, hentry⟩, hentries, rfl⟩, ?_⟩
        rw [hitems, hafter, List.append_assoc, List.singleton_append]
    · rintro ⟨_, ⟨⟨id, entry⟩, entries, ⟨rfl, hentry⟩, hentries, rfl⟩, hitems⟩
      refine ⟨before.set probe.id entry, ?_, (ih (hrest entry)).mpr ⟨entries, hentries, ?_⟩⟩
      · rw [hentry]
        rfl
      · rw [hitems, hafter, List.append_assoc, List.singleton_append]

/-- With distinct ids, `run_all` stores the outcome of each probe, in order. -/
theorem runAll_ok_iff {results : Dict Str ProbeResult} (hids : (probes.map Probe.id).Nodup) :
    runAll validate probes = .ok results ↔ List.Forall₂ (Stored validate) probes results.items := by
  rw [runAll, foldlM_outcome (by simpa [Dict.empty] using hids)]
  simp [Dict.empty]

/-- The outcome of one probe is the one that it has alone. -/
theorem runAll_alone {entry : ProbeResult} (h : outcome validate probe = .ok entry) :
    ∃ results, runAll validate [probe] = .ok results ∧ results.items = [(probe.id, entry)] := by
  have hnodup : ([(probe.id, entry)].map Prod.fst).Nodup := List.nodup_singleton _
  have hids : ([probe].map Probe.id).Nodup := List.nodup_singleton _
  refine ⟨⟨[(probe.id, entry)], hnodup⟩, (runAll_ok_iff hids).mpr ?_, rfl⟩
  exact .cons ⟨rfl, h⟩ .nil

/-- With distinct ids, the failures of probes leave a trace exactly when every probe behaves
well. -/
theorem isolated_iff (validate : List Str → Except Raised Unit) (probes : List Probe)
    (hids : (probes.map Probe.id).Nodup) :
    Isolated validate probes ↔ ∀ probe ∈ probes, WellBehaved validate probe := by
  constructor
  · rintro ⟨results, -, -, hentries⟩ probe hprobe
    obtain ⟨entry, -, hkept, htraced, alone, halone, hitems⟩ := hentries probe hprobe
    have hids' : ([probe].map Probe.id).Nodup := List.nodup_singleton _
    have hstored := (runAll_ok_iff hids').mp halone
    rw [hitems] at hstored
    cases hstored with
    | cons hstored _ => exact (outcome_iff hstored.2).mp ⟨hkept, htraced⟩
  · intro hwell
    have houtcomes : ∀ probe ∈ probes, ∃ item, Stored validate probe item := by
      intro probe hprobe
      obtain ⟨r, hr⟩ := runOne_returns_iff.mpr (hwell probe hprobe)
      exact ⟨(probe.id, r), rfl, by rw [outcome, hr]⟩
    obtain ⟨entries, hentries⟩ := exists_forall₂ houtcomes
    have hkeys : entries.map Prod.fst = probes.map Probe.id := by
      clear hwell houtcomes hids
      induction hentries with
      | nil => rfl
      | cons hstored _ ih => rw [List.map_cons, List.map_cons, ih, hstored.1]
    have hnodup : (entries.map Prod.fst).Nodup := hkeys ▸ hids
    refine ⟨⟨entries, hnodup⟩, (runAll_ok_iff hids).mpr hentries, hkeys, fun probe hprobe => ?_⟩
    have hflip : List.Forall₂ (fun item probe => Stored validate probe item) entries probes :=
      hentries.flip
    obtain ⟨item, hitem, hid, hstored⟩ := exists_of_forall₂ hflip hprobe
    have hget : (⟨entries, hnodup⟩ : Dict Str ProbeResult).get? item.1 = some item.2 :=
      Dict.get?_of_mem hitem
    rw [hid] at hget
    obtain ⟨hkept, htraced⟩ := (outcome_iff hstored).mpr (hwell probe hprobe)
    exact ⟨item.2, hget, hkept, htraced, runAll_alone hstored⟩

/-- A plugin whose `supported()` raises. -/
def brokenProbe : Probe := ⟨"plugin", .error (.plain "OSError" "no such device"), .ok .other⟩

/-- Its entry has an error and no finding. -/
theorem failure_without_finding : ¬Isolated (fun _ => .ok ()) [brokenProbe] := by
  rintro ⟨results, hrun, -, hentries⟩
  obtain ⟨entry, hget, hentry⟩ := hentries brokenProbe (List.mem_singleton_self _)
  cases hrun
  cases hget
  obtain ⟨f, hf, -⟩ := (hentry.traced ⟨by simp [brokenProbe], by simp [brokenProbe]⟩).finding
  cases hf

/-- A probe that returns, one that raises and one for another platform. -/
theorem isolated_iff_three :
    Isolated (fun _ => .ok ())
      [⟨"git", .ok true, .ok (.result ⟨"git", [], [], none⟩)⟩,
        ⟨"docker", .ok true, .error (.plain "ValueError" "bad output")⟩,
        ⟨"wsl", .ok false, .ok .other⟩] := by
  refine (isolated_iff (fun _ => .ok ()) _ (by decide)).mpr ?_
  simp only [List.forall_mem_cons, List.not_mem_nil, false_imp_iff, implies_true, and_true]
  refine ⟨⟨⟨true, rfl⟩, by simp, by simp⟩, ⟨⟨true, rfl⟩, by simp, ?_⟩, ⟨⟨false, rfl⟩, by simp, by simp⟩⟩
  rintro - exc hexc
  cases hexc
  exact ⟨_, rfl, rfl, rfl⟩

end DevRepro.Probes
