import DevRepro.Python.Stamp
import DevRepro.Server.Analytics
import DevRepro.Server.Publish

/-!
# Fleet analytics over published snapshots

`onboarding_stats` of `server/analytics.py`, and what `snapshot_facts`, it and the
simulation do on the databases that publications lead to.

An agent publishes any JSON object.  Most of what can be wrong in one is
guarded, but `tools` may be a value that no loop goes through, and a time of
creation without an offset has no difference to the time of an enrolment.
`Harmless` says that a payload has neither, and `analytics_survive` that all
analytics return when every published payload is harmless.
-/

namespace DevRepro.Server

open DevRepro.Python DevRepro.Lib DevRepro.Lib.Machine

/-! ## The statistics -/

variable (rt : Runtime) (dates : FromIsoformat)

/-- `value.replace("Z", "+00:00")`. -/
def replaceZulu (s : Str) : Str :=
  s.flatMap fun c => if c = codePoint 'Z' then lit "+00:00" else [c]

/-- `_parse`. -/
def parseStamp (value : Json) : Option Stamp :=
  match value with
  | .str s => if s = [] then none else dates.read (replaceZulu s)
  | _ => none

/-- One snapshot of the loop that finds the first READY of each machine. -/
def addReady (first : Nat → Option Stamp) (fact : SnapshotFact) :
    Except Exc (Nat → Option Stamp) :=
  if upper fact.verdict ≠ "READY" then .ok first
  else
    match parseStamp dates fact.createdAt with
    | none => .ok first
    | some stamp =>
      match first fact.machineId with
      | none => .ok (Function.update first fact.machineId (some stamp))
      | some existing =>
        (stamp.lt existing).map fun earlier =>
          if earlier then Function.update first fact.machineId (some stamp) else first

/-- One machine: the durations in microseconds, and how many never were READY. -/
def addDuration (first : Nat → Option Stamp) (state : List Int × Nat) (machine : Nat × Str) :
    Except Exc (List Int × Nat) :=
  match parseStamp dates (.str machine.2) with
  | none => .ok state
  | some enrolled =>
    match first machine.1 with
    | none => .ok (state.1, state.2 + 1)
    | some ready =>
      (ready.sub enrolled).map fun duration =>
        if 0 ≤ duration then (state.1 ++ [duration], state.2) else state

/-- `_percentile`, for the fraction `num / den`. -/
def percentile (values : List Int) (num den : Nat) : Int :=
  let ordered := values.mergeSort fun a b => decide (a ≤ b)
  let rank := (num * ordered.length + den - 1) / den
  ordered.getD (min (ordered.length - 1) (rank - 1)) 0

/-- Durations are in microseconds; the source reports them in hours. -/
structure OnboardingStats where
  cohort : Nat
  median : Option Int
  p90 : Option Int
  neverReady : Nat
  withheldBecause : Option Str
  deriving DecidableEq

/-- `MINIMUM_COHORT`. -/
def minimumCohort : Nat := 5

/-- The reason that a small cohort is given. -/
def withheldText (cohort : Nat) : Str :=
  natStr cohort ++ lit " machine(s) have reached READY; no distribution is reported below " ++
    natStr minimumCohort ++ lit ", because one over a handful identifies individuals."

/-- `onboarding_stats`. -/
def onboardingStats (machines : List (Nat × Str)) (facts : List SnapshotFact) :
    Except Exc OnboardingStats := do
  let first ← facts.foldlM (addReady dates) fun _ => none
  let (durations, never) ← machines.foldlM (addDuration dates first) ([], 0)
  if durations.length < minimumCohort then
    return ⟨durations.length, none, none, never, some (withheldText durations.length)⟩
  else
    return ⟨durations.length, some (percentile durations 1 2), some (percentile durations 9 10),
      never, none⟩

/-- `enrolment_rows`. -/
def ServerDB.enrolmentRows (db : ServerDB) (orgId : Int) : List (Nat × Str) :=
  (machinesOf db orgId).map fun m => (m.id, m.enrolledAt)

/-- The endpoint `onboarding`, for the rows of the query. -/
def fleetOnboarding (db : ServerDB) (orgId : Int) (rows : List SnapshotRow) :
    Except Exc OnboardingStats := do
  let facts ← snapshotFacts rt rows
  onboardingStats dates (db.enrolmentRows orgId) facts

/-! ## Payloads that do no harm -/

/-- The analytics of an organization return, for the rows of the query. -/
structure AnalyticsReturn (db : ServerDB) (orgId : Int) (rows : List SnapshotRow) : Prop where
  facts : ∃ facts, snapshotFacts rt rows = .ok facts
  stats : ∃ stats, fleetOnboarding rt dates db orgId rows = .ok stats
  simulation : ∀ required, ∃ simulation, simulate rt required rows = .ok simulation

/-- The values that a `for` loop goes through. -/
def Iterable : Json → Prop
  | .arr _ | .obj _ | .str _ => True
  | _ => False

/-- A payload that the analytics read without a failure. -/
structure Harmless (payload : List (Str × Json)) : Prop where
  tools : (field payload "tools").truthy = true → Iterable (field payload "tools")
  versions : ∀ elems, field payload "tools" = .arr elems → ∀ tool, .obj tool ∈ elems →
    (field tool "is_active").truthy = true → ∀ name, field tool "name" = .str name →
      (field tool "version").truthy = true → ∃ version, (field tool "version").toStr rt = .ok version
  states : ∀ findings, field payload "findings" = .arr findings → ∀ finding, .obj finding ∈ findings →
    ∃ state, ((dictGet? finding "state").getD (.str [])).toStr rt = .ok state
  created : ∀ verdict, verdictFromPayload rt payload = .ok verdict → upper verdict = "READY" →
    ∀ stamp, parseStamp dates (field payload "created_at") = some stamp → stamp.Aware

/-- A text that is skipped, or that holds a payload that does no harm. -/
def Tame (text : Str) : Prop :=
  match loads rt.limits text with
  | .error exc => exc.type.isValueError = true
  | .ok (.obj payload) => Harmless rt dates payload
  | .ok _ => True

/-! ## Publications -/

/-- A request to publish, with the times and the deliveries that it meets. -/
structure Publication where
  body : Json
  now : CalendarTime
  deliver : WebhookRow → Option Exc

variable (sha256 : Str → Str)

/-- A publication on the database. -/
def publicationStep (db : ServerDB) (p : Publication) : ServerDB × Except Exc Response :=
  let run := publishSnapshot rt sha256 p.deliver db p.body p.now.1
  (run.db, run.answer)

/-- The text that is stored for a snapshot is tame. -/
def PublishesTame (p : Publication) : Prop :=
  ∀ fields snap text, p.body = .obj fields → dictGet? fields "snapshot" = some (.obj snap) →
    privacyState rt snap = .ok "sanitized" → dumps rt .plain (.obj snap) = .ok text →
      Tame rt dates text

/-- A server with machines that enrolled, and no snapshot. -/
structure FreshFleet (db : ServerDB) : Prop where
  machines : ∀ m ∈ db.fleet.machines.rows, ∃ t : CalendarTime, m.enrolledAt = t.1.isoformat
  snapshots : db.snapshots.rows = []

/-- What publications of tame texts keep. -/
structure Analysable (db : ServerDB) : Prop where
  machines : ∀ m ∈ db.fleet.machines.rows, ∃ t : CalendarTime, m.enrolledAt = t.1.isoformat
  payloads : ∀ s ∈ db.snapshots.rows, Tame rt dates s.payload
  received : ∀ s ∈ db.snapshots.rows, ∃ t : CalendarTime, s.receivedAt = t.1.isoformat

variable {rt dates sha256}

/-! ## Loops -/

/-- A loop whose steps neither fail nor leave an invariant ends in the invariant. -/
theorem foldlM_keeps {α β : Type} {f : β → α → Except Exc β} {I : β → Prop} {l : List α}
    (hstep : ∀ s x, I s → x ∈ l → ∃ s', f s x = .ok s' ∧ I s') {s : β} (hs : I s) :
    ∃ s', l.foldlM f s = .ok s' ∧ I s' := by
  induction l generalizing s with
  | nil => exact ⟨s, rfl, hs⟩
  | cons x rest ih =>
    rcases hstep s x hs List.mem_cons_self with ⟨next, hnext, hinv⟩
    rw [List.foldlM_cons, hnext]
    exact ih (fun s y h hy => hstep s y h (List.mem_cons_of_mem _ hy)) hinv

/-! ## Stamps of the server -/

theorem replaceZulu_eq_self {s : Str} (h : codePoint 'Z' ∉ s) : replaceZulu s = s := by
  induction s with
  | nil => rfl
  | cons c rest ih =>
    rw [List.mem_cons, not_or] at h
    have hne : ¬c = codePoint 'Z' := fun heq => h.1 heq.symm
    rw [replaceZulu, List.flatMap_cons, if_neg hne, List.singleton_append]
    exact congrArg (List.cons c) (ih h.2)

/-- A time that the server wrote is read as an aware time. -/
theorem parseStamp_isoformat (t : CalendarTime) :
    parseStamp dates (.str t.1.isoformat) = some t.1.stamp := by
  rw [parseStamp, if_neg (isoformat_ne_nil t.1), replaceZulu_eq_self (isoformat_no_zulu t.1)]
  exact dates.read_isoformat t.1 t.2

theorem stamp_aware (t : DateTime) : t.stamp.Aware := Option.some_ne_none 0

/-! ## Facts of a tame text -/

theorem addTool_ok {tool : Json} (tools : List (Str × Str))
    (h : ∀ fields, tool = .obj fields → (field fields "is_active").truthy = true →
      ∀ name, field fields "name" = .str name → (field fields "version").truthy = true →
        ∃ version, (field fields "version").toStr rt = .ok version) :
    ∃ after, addTool rt tools tool = .ok after := by
  cases tool with
  | obj fields =>
    rw [addTool]
    by_cases hactive : (field fields "is_active").truthy = false
    · rw [if_pos hactive]
      exact ⟨_, rfl⟩
    · rw [if_neg hactive]
      rw [Bool.not_eq_false] at hactive
      cases hname : field fields "name" with
      | str name =>
        dsimp only
        split_ifs with hversion
        · rcases h fields rfl hactive name hname hversion.1 with ⟨version, htext⟩
          rw [htext]
          exact ⟨_, rfl⟩
        · exact ⟨_, rfl⟩
      | _ => exact ⟨_, rfl⟩
  | _ => exact ⟨_, rfl⟩

theorem activeTools_ok {payload : List (Str × Json)} (h : Harmless rt dates payload) :
    ∃ tools, activeTools rt payload = .ok tools := by
  have hloop : ∀ elems : List Json, (∀ tool, Json.obj tool ∈ elems →
      (field tool "is_active").truthy = true → ∀ name, field tool "name" = .str name →
        (field tool "version").truthy = true →
          ∃ version, (field tool "version").toStr rt = .ok version) →
      ∃ tools, elems.foldlM (addTool rt) [] = .ok tools := by
    intro elems helems
    have hfold := @foldlM_keeps _ _ (addTool rt) (fun _ => True) elems
      (fun tools tool _ htool => by
        rcases addTool_ok tools (fun fields heq => helems fields (heq ▸ htool)) with ⟨after, hafter⟩
        exact ⟨after, hafter, trivial⟩) [] trivial
    rcases hfold with ⟨tools, htools, _⟩
    exact ⟨tools, htools⟩
  have hiterable := h.tools
  have hversions := h.versions
  rw [activeTools, Json.orElse]
  split_ifs with htruthy
  · have hin := hiterable htruthy
    cases htools : field payload "tools" with
    | arr elems => exact hloop elems (hversions elems htools)
    | obj fields =>
      apply hloop
      intro tool htool
      simp at htool
    | str s =>
      apply hloop
      intro tool htool
      simp at htool
    | _ =>
      rw [htools] at hin
      exact absurd hin id
  · exact ⟨[], rfl⟩

theorem findingStates_ok {findings : List Json}
    (h : ∀ finding, .obj finding ∈ findings →
      ∃ state, ((dictGet? finding "state").getD (.str [])).toStr rt = .ok state) :
    ∃ states, findingStates rt findings = .ok states := by
  induction findings with
  | nil => exact ⟨[], rfl⟩
  | cons finding rest ih =>
    rcases ih fun other hother => h other (List.mem_cons_of_mem _ hother) with ⟨states, hstates⟩
    cases finding with
    | obj fields =>
      rcases h fields List.mem_cons_self with ⟨state, hstate⟩
      rw [findingStates, hstate, hstates]
      exact ⟨_, rfl⟩
    | _ => exact ⟨states, hstates⟩

theorem verdictFromPayload_ok {payload : List (Str × Json)} (h : Harmless rt dates payload) :
    ∃ verdict, verdictFromPayload rt payload = .ok verdict := by
  have hstates := h.states
  rw [verdictFromPayload]
  cases hfindings : field payload "findings" with
  | arr findings =>
    rcases findingStates_ok (hstates findings hfindings) with ⟨states, hok⟩
    dsimp only
    rw [hok]
    dsimp only [bind, Except.bind]
    split_ifs
    · exact ⟨_, rfl⟩
    · exact ⟨_, rfl⟩
    · exact ⟨_, rfl⟩
  | _ => exact ⟨_, rfl⟩

/-- A fact whose time may be compared when it is READY. -/
def Comparable (dates : FromIsoformat) (fact : SnapshotFact) : Prop :=
  upper fact.verdict = "READY" → ∀ stamp, parseStamp dates fact.createdAt = some stamp → stamp.Aware

/-- A tame row gives no fact or one that may be compared. -/
theorem snapshotFact_tame {row : SnapshotRow} (htame : Tame rt dates row.payload)
    (hreceived : ∃ t : CalendarTime, row.receivedAt = t.1.isoformat) :
    ∃ fact, snapshotFact rt row = .ok fact ∧ ∀ f ∈ fact, Comparable dates f := by
  rw [Tame] at htame
  rw [snapshotFact]
  cases hload : loads rt.limits row.payload with
  | error exc =>
    rw [hload] at htame
    dsimp only at htame ⊢
    rw [if_pos htame]
    exact ⟨none, rfl, fun f hf => absurd hf (Option.not_mem_none f)⟩
  | ok value =>
    rw [hload] at htame
    cases value with
    | obj payload =>
      dsimp only at htame ⊢
      rcases activeTools_ok htame with ⟨tools, htools⟩
      rcases verdictFromPayload_ok htame with ⟨verdict, hverdict⟩
      rw [htools, hverdict]
      refine ⟨_, rfl, fun f hf => ?_⟩
      rw [Option.mem_def, Option.some.injEq] at hf
      rw [← hf]
      intro hready stamp hstamp
      dsimp only [Json.orElse] at hstamp
      split_ifs at hstamp with hcreated
      · exact htame.created verdict hverdict hready stamp hstamp
      · rcases hreceived with ⟨t, ht⟩
        rw [ht, parseStamp_isoformat, Option.some.injEq] at hstamp
        rw [← hstamp]
        exact stamp_aware t.1
    | _ => exact ⟨none, rfl, fun f hf => absurd hf (Option.not_mem_none f)⟩

theorem snapshotFacts_tame {rows : List SnapshotRow}
    (h : ∀ row ∈ rows, ∃ fact, snapshotFact rt row = .ok fact ∧ ∀ f ∈ fact, Comparable dates f) :
    ∃ facts, snapshotFacts rt rows = .ok facts ∧ ∀ f ∈ facts, Comparable dates f := by
  refine ⟨rows.filterMap (factOf rt), snapshotFacts_eq_ok.mpr ⟨fun row hrow => ?_, rfl⟩,
    fun f hf => ?_⟩
  · rcases h row hrow with ⟨fact, hfact, _⟩
    exact ⟨fact, hfact⟩
  · rcases List.mem_filterMap.mp hf with ⟨row, hrow, hfact⟩
    rcases h row hrow with ⟨fact, hok, hcomparable⟩
    rw [factOf_eq_some.mp hfact, Except.ok.injEq] at hok
    exact hcomparable f hok.symm

/-! ## Statistics of comparable facts -/

/-- Stamps that are all aware. -/
def AllAware (first : Nat → Option Stamp) : Prop := ∀ id stamp, first id = some stamp → stamp.Aware

theorem allAware_update {first : Nat → Option Stamp} (h : AllAware first) (id : Nat) {stamp : Stamp}
    (hstamp : stamp.Aware) : AllAware (Function.update first id (some stamp)) := by
  intro other found hfound
  by_cases heq : other = id
  · rw [heq, Function.update_self, Option.some.injEq] at hfound
    rw [← hfound]
    exact hstamp
  · rw [Function.update_of_ne heq] at hfound
    exact h other found hfound

theorem addReady_ok {first : Nat → Option Stamp} {fact : SnapshotFact} (h : AllAware first)
    (hfact : Comparable dates fact) :
    ∃ after, addReady dates first fact = .ok after ∧ AllAware after := by
  rw [addReady]
  by_cases hready : upper fact.verdict = "READY"
  · rw [if_neg (not_not.mpr hready)]
    cases hstamp : parseStamp dates fact.createdAt with
    | none => exact ⟨first, rfl, h⟩
    | some stamp =>
      have haware := hfact hready stamp hstamp
      dsimp only
      cases hexisting : first fact.machineId with
      | none => exact ⟨_, rfl, allAware_update h _ haware⟩
      | some existing =>
        rcases Stamp.lt_aware haware (h _ existing hexisting) with ⟨earlier, hlt⟩
        dsimp only
        rw [hlt]
        refine ⟨_, rfl, ?_⟩
        dsimp only
        split_ifs
        · exact allAware_update h _ haware
        · exact h
  · rw [if_pos hready]
    exact ⟨first, rfl, h⟩

theorem addDuration_ok {first : Nat → Option Stamp} (h : AllAware first) (state : List Int × Nat)
    (id : Nat) (t : CalendarTime) :
    ∃ after, addDuration dates first state (id, t.1.isoformat) = .ok after := by
  rw [addDuration, parseStamp_isoformat]
  dsimp only
  cases hready : first id with
  | none => exact ⟨_, rfl⟩
  | some ready =>
    rcases Stamp.sub_aware (h id ready hready) (stamp_aware t.1) with ⟨duration, hsub⟩
    dsimp only
    rw [hsub]
    exact ⟨_, rfl⟩

/-- The statistics of comparable facts, for machines that the server enrolled. -/
theorem onboardingStats_ok {machines : List (Nat × Str)} {facts : List SnapshotFact}
    (hmachines : ∀ m ∈ machines, ∃ t : CalendarTime, m.2 = t.1.isoformat)
    (hfacts : ∀ f ∈ facts, Comparable dates f) :
    ∃ stats, onboardingStats dates machines facts = .ok stats := by
  have hready : ∃ first, facts.foldlM (addReady dates) (fun _ => none) = .ok first ∧
      AllAware first :=
    foldlM_keeps (fun first fact h hfact => addReady_ok h (hfacts fact hfact))
      (fun _ _ h => absurd h (Option.some_ne_none _).symm)
  rcases hready with ⟨first, hfirst, haware⟩
  have hdurations : ∃ state, machines.foldlM (addDuration dates first) ([], 0) = .ok state ∧ True := by
    apply foldlM_keeps ?_ trivial
    intro state machine _ hmachine
    rcases hmachines machine hmachine with ⟨t, ht⟩
    rcases addDuration_ok haware state machine.1 t with ⟨after, hafter⟩
    rw [← ht] at hafter
    exact ⟨after, hafter, trivial⟩
  rcases hdurations with ⟨state, hstate, _⟩
  rw [onboardingStats, hfirst]
  dsimp only [bind, Except.bind]
  rw [hstate]
  dsimp only
  split_ifs
  · exact ⟨_, rfl⟩
  · exact ⟨_, rfl⟩

/-- The analytics return on a database that publications of tame texts lead to. -/
theorem Analysable.analyticsReturn {db : ServerDB} (h : Analysable rt dates db) {orgId : Int}
    {rows : List SnapshotRow} (hselects : Selects db orgId rows) : AnalyticsReturn rt dates db orgId rows := by
  have hrows : ∀ row ∈ rows, ∃ fact, snapshotFact rt row = .ok fact ∧
      ∀ f ∈ fact, Comparable dates f := by
    intro row hrow
    have hin := (List.mem_filter.mp (hselects.subset hrow)).1
    exact snapshotFact_tame (h.payloads row hin) (h.received row hin)
  have hmachines : ∀ m ∈ db.enrolmentRows orgId, ∃ t : CalendarTime, m.2 = t.1.isoformat := by
    intro m hm
    rcases List.mem_map.mp hm with ⟨row, hrow, rfl⟩
    exact h.machines row (List.mem_filter.mp hrow).1
  rcases snapshotFacts_tame hrows with ⟨facts, hfacts, hcomparable⟩
  rcases onboardingStats_ok hmachines hcomparable with ⟨stats, hstats⟩
  refine ⟨⟨facts, hfacts⟩, ⟨stats, ?_⟩, fun required => ?_⟩
  · rw [fleetOnboarding, hfacts]
    exact hstats
  · rw [simulate, hfacts]
    exact ⟨_, rfl⟩

/-! ## What a publication stores -/

/-- A row that a publication may store. -/
def StoredBy (rt : Runtime) (body : Json) (now : DateTime) (s : SnapshotRow) : Prop :=
  s.receivedAt = now.isoformat ∧ ∃ fields snap, body = .obj fields ∧
    dictGet? fields "snapshot" = some (.obj snap) ∧ privacyState rt snap = .ok "sanitized" ∧
      dumps rt .plain (.obj snap) = .ok s.payload

theorem storeSnapshot_payload (t : Table SnapshotRow) (machineId : Nat) (snap : List (Str × Json))
    (now : DateTime) :
    Adds (fun s : SnapshotRow => s.receivedAt = now.isoformat ∧
        dumps rt .plain (.obj snap) = .ok s.payload) t.rows
      (storeSnapshot rt sha256 t machineId snap now).1.rows := by
  rw [storeSnapshot]
  cases hparts : snapshotParts rt snap with
  | error exc => exact adds_none _
  | ok parts =>
    cases hblock : insertSnapshot rt t machineId parts.2 (sha256 parts.1) snap now with
    | error exc =>
      simp only [hblock, tx]
      exact adds_none _
    | ok result =>
      simp only [hblock, tx]
      rcases result with ⟨after, stored⟩
      rw [insertSnapshot, bind_eq_ok] at hblock
      rcases hblock with ⟨payload, hpayload, hblock⟩
      rw [bindText_then] at hblock
      by_cases hdup : ∃ row ∈ t.rows, row.machineId = machineId ∧ row.snapshotId = parts.2
      · rw [if_pos hdup, pure_eq_ok, Prod.mk.injEq] at hblock
        rw [← hblock.2.1]
        exact adds_none _
      · rw [if_neg hdup, pure_eq_ok, Prod.mk.injEq] at hblock
        rw [← hblock.2.1]
        exact adds_one _ ⟨rfl, hpayload⟩

/-- What a publication adds to the snapshots. -/
theorem publishSnapshot_adds (deliver : WebhookRow → Option Exc) (db : ServerDB) (body : Json)
    (now : DateTime) :
    Adds (StoredBy rt body now) db.snapshots.rows
      (publishSnapshot rt sha256 deliver db body now).db.snapshots.rows := by
  cases body with
  | obj fields =>
    rw [publishSnapshot]
    cases hkey : publishKey rt fields with
    | error exc => exact adds_none _
    | ok machineKey =>
      dsimp only
      split_ifs with hempty
      · exact adds_none _
      · cases hbind : bindText machineKey with
        | error exc => exact adds_none _
        | ok _ =>
          cases hrow : machineWith db.fleet machineKey with
          | none => exact adds_none _
          | some row =>
            dsimp only
            cases hsnapshot : dictGet? fields "snapshot" with
            | none => exact adds_none _
            | some snapshot =>
              cases snapshot with
              | obj snap =>
                rw [publishTo]
                cases hprivacy : privacyState rt snap with
                | error exc => exact adds_none _
                | ok privacy =>
                  dsimp only
                  split_ifs with hstate
                  · exact adds_none _
                  · rw [not_not] at hstate
                    have hstored := @storeSnapshot_payload rt sha256 db.snapshots row.id snap now
                    have hadds : Adds (StoredBy rt (.obj fields) now) db.snapshots.rows
                        (storeSnapshot rt sha256 db.snapshots row.id snap now).1.rows := by
                      rcases hstored with ⟨new, hrows, hnew⟩
                      refine ⟨new, hrows, fun s hs => ⟨(hnew s hs).1, fields, snap, rfl, hsnapshot, ?_,
                        (hnew s hs).2⟩⟩
                      rw [hprivacy, hstate]
                    rcases hstore : storeSnapshot rt sha256 db.snapshots row.id snap now with
                      ⟨after, result⟩
                    rw [hstore] at hadds
                    cases result with
                    | error exc => exact hadds
                    | ok stored =>
                      have hannounced := @announce_announced rt deliver
                        { db with snapshots := after } row machineKey snap stored now
                      dsimp only
                      rw [hannounced.snapshots]
                      exact hadds
              | _ => exact adds_none _
  | _ => exact adds_none _

/-! ## Runs of publications -/

theorem analysable_step (sha256 : Str → Str) :
    Keeps (publicationStep rt sha256) (fun _ p => PublishesTame rt dates p) (Analysable rt dates) := by
  intro db p h htame
  have hfleet : (publishSnapshot rt sha256 p.deliver db p.body p.now.1).db.fleet = db.fleet :=
    (publish_cases db p.body p.now.1).1
  rcases @publishSnapshot_adds rt sha256 p.deliver db p.body p.now.1 with ⟨new, hrows, hnew⟩
  constructor
  · show ∀ m ∈ (publishSnapshot rt sha256 p.deliver db p.body p.now.1).db.fleet.machines.rows, _
    rw [hfleet]
    exact h.machines
  · show ∀ s ∈ (publishSnapshot rt sha256 p.deliver db p.body p.now.1).db.snapshots.rows, _
    rw [hrows, List.forall_mem_append]
    refine ⟨h.payloads, fun s hs => ?_⟩
    rcases (hnew s hs).2 with ⟨fields, snap, hbody, hsnapshot, hprivacy, hdump⟩
    exact htame fields snap s.payload hbody hsnapshot hprivacy hdump
  · show ∀ s ∈ (publishSnapshot rt sha256 p.deliver db p.body p.now.1).db.snapshots.rows, _
    rw [hrows, List.forall_mem_append]
    exact ⟨h.received, fun s hs => ⟨p.now, (hnew s hs).1⟩⟩

theorem admits_of_tame {publications : List Publication}
    (h : ∀ p ∈ publications, PublishesTame rt dates p) (db : ServerDB) :
    Admits (publicationStep rt sha256) (fun _ p => PublishesTame rt dates p) db publications := by
  induction publications generalizing db with
  | nil => exact trivial
  | cons p rest ih =>
    exact ⟨h p List.mem_cons_self, ih (fun q hq => h q (List.mem_cons_of_mem _ hq)) _⟩

/-- The analytics return after publications of tame texts, for every organization. -/
theorem analytics_survive (rt : Runtime) (dates : FromIsoformat) (sha256 : Str → Str)
    {db : ServerDB} (hfresh : FreshFleet db) {publications : List Publication}
    (htame : ∀ p ∈ publications, PublishesTame rt dates p) (orgId : Int) (rows : List SnapshotRow)
    (hselects : Selects (final (publicationStep rt sha256) db publications) orgId rows) :
    AnalyticsReturn rt dates (final (publicationStep rt sha256) db publications) orgId rows := by
  have hstart : Analysable rt dates db := by
    refine ⟨hfresh.machines, ?_, ?_⟩
    · rw [hfresh.snapshots]
      exact fun s hs => absurd hs List.not_mem_nil
    · rw [hfresh.snapshots]
      exact fun s hs => absurd hs List.not_mem_nil
  have hfinal := (analysable_step sha256).final hstart (admits_of_tame htame db)
  exact hfinal.analyticsReturn hselects

/-! ## A time without an offset -/

namespace Sample

/-- A snapshot without findings. -/
def readySnapshot (createdAt : Str) : List (Str × Json) :=
  [("snapshot_id", .str "s"), ("created_at", .str createdAt), ("findings", .arr [])]

/-- The machine `a` publishes it. -/
def readyPublication (createdAt : Str) : Publication :=
  ⟨.obj [("machine_key", .str "a"), ("snapshot", .obj (readySnapshot createdAt))],
    ⟨newYear, by decide⟩, fun _ => none⟩

/-- The digests of the two snapshots. -/
def snapshotDigest (text : Str) : Str :=
  if text = lit "\x7b\"created_at\": \"2026-01-02T00:00:00\", \"findings\": [], \"snapshot_id\": \"s\"\x7d" then
    "1b3e27aeb5226c8597e57d91eb6f25f1b325c8b458e786189a71d65a4afe9ca7"
  else "cb3d223aaf866812fd57c0790939e08005747a02f1167090df6653c6ab160df6"

/-- The server after the publication. -/
def published (createdAt : Str) : ServerDB :=
  final (publicationStep .standard snapshotDigest) silentMachine [readyPublication createdAt]

theorem silentMachine_fresh : FreshFleet silentMachine := by
  refine ⟨fun m hm => ?_, rfl⟩
  rw [List.mem_singleton.mp hm]
  exact ⟨⟨newYear, by decide⟩, rfl⟩

/-- The query on a server with one snapshot. -/
theorem selects_single {db : ServerDB} {row : SnapshotRow} (hrows : snapshotsOf db 1 = [row]) :
    Selects db 1 [row] := by
  refine ⟨[row], ?_, List.pairwise_singleton _ _, rfl⟩
  rw [hrows]

theorem published_selects (createdAt : Str) (hcount : (snapshotsOf (published createdAt) 1).length = 1) :
    Selects (published createdAt) 1 (snapshotsOf (published createdAt) 1) := by
  rcases List.length_eq_one_iff.mp hcount with ⟨row, hrow⟩
  rw [hrow]
  exact selects_single hrow

end Sample

/-- A snapshot without an offset in its time is accepted, and the statistics raise. -/
theorem naive_time_disables_analytics :
    FreshFleet silentMachine ∧
      ¬∀ rows, Selects (Sample.published "2026-01-02T00:00:00") 1 rows →
        AnalyticsReturn .standard .basic (Sample.published "2026-01-02T00:00:00") 1 rows := by
  refine ⟨Sample.silentMachine_fresh, fun h => ?_⟩
  have hfails : (fleetOnboarding .standard .basic (Sample.published "2026-01-02T00:00:00") 1
      (snapshotsOf (Sample.published "2026-01-02T00:00:00") 1)).toOption = none := by
    decide +kernel
  rcases (h _ (Sample.published_selects _ (by decide +kernel))).stats with ⟨stats, hstats⟩
  rw [hstats] at hfails
  cases hfails

/-- The same snapshot with an offset. -/
theorem analytics_survive_sample :
    AnalyticsReturn .standard .basic (Sample.published "2026-01-02T00:00:00+00:00") 1
      (snapshotsOf (Sample.published "2026-01-02T00:00:00+00:00") 1) := by
  refine analytics_survive .standard .basic Sample.snapshotDigest Sample.silentMachine_fresh ?_ 1 _
    (Sample.published_selects _ (by decide +kernel))
  intro p hp fields snap text hbody hsnapshot _ hdump
  rw [List.mem_singleton.mp hp] at hbody
  cases hbody
  have hsnap : snap = Sample.readySnapshot "2026-01-02T00:00:00+00:00" := by
    cases hsnapshot
    rfl
  have hload : loads Runtime.standard.limits text =
      .ok (.obj (Sample.readySnapshot "2026-01-02T00:00:00+00:00")) := by
    rw [(dumps_ok hdump).2, hsnap]
    exact loads_dumpText _ _ (readable_of_check (by decide +kernel))
  rw [Tame, hload]
  constructor
  · exact fun h => absurd h (by decide +kernel)
  · intro elems helems
    have hnone : field (Sample.readySnapshot "2026-01-02T00:00:00+00:00") "tools" = .null := by rfl
    rw [hnone] at helems
    cases helems
  · intro findings hfindings finding hfinding
    have hnil : findings = [] := by
      cases hfindings
      rfl
    rw [hnil] at hfinding
    exact absurd hfinding List.not_mem_nil
  · intro verdict _ _ stamp hstamp
    have hread : parseStamp .basic (field (Sample.readySnapshot "2026-01-02T00:00:00+00:00")
        "created_at") = some ⟨ordinal 2026 1 2 * 86400000000, some 0⟩ := by
      decide +kernel
    rw [hread, Option.some.injEq] at hstamp
    rw [← hstamp]
    exact Option.some_ne_none 0

end DevRepro.Server
