import DevRepro.Core.Versioning
import DevRepro.Server.Db

/-!
# Fleet analytics

`snapshot_facts` of `server/db.py`, and the simulation of a policy of
`server/analytics.py` and `server/api.py`.

The simulation works on the snapshots that a query returns: those of the
machines of an organization, the newest first, at most 5000 of them.  Where two
snapshots came at the same time their order is up to the database, so `Selects`
allows every order that `ORDER BY` allows.
-/

namespace DevRepro.Server

open DevRepro.Python DevRepro.Lib DevRepro.Core

/-! ## Facts of a snapshot -/

/-- What `snapshot_facts` tells about a snapshot. -/
structure SnapshotFact where
  machineId : Nat
  createdAt : Json
  verdict : Str
  tools : List (Str × Str)

variable (rt : Runtime)

/-- The elements that a `for` loop goes through. -/
def iterate (value : Json) : Except Exc (List Json) :=
  match value with
  | .arr elems => .ok elems
  | .obj fields => .ok (fields.map fun item => .str item.1)
  | .str s => .ok (s.map fun c => .str [c])
  | _ => .error ⟨.typeError, lit "'" ++ value.typeName ++ lit "' object is not iterable"⟩

/-- `payload.get(key)`. -/
def field (payload : List (Str × Json)) (key : Str) : Json := (dictGet? payload key).getD .null

/-- `tools[name] = version` -/
def setTool (name version : Str) : List (Str × Str) → List (Str × Str)
  | [] => [(name, version)]
  | (other, old) :: rest =>
    if other = name then (name, version) :: rest else (other, old) :: setTool name version rest

/-- `tools.get(name)`. -/
def getTool (tools : List (Str × Str)) (name : Str) : Option Str :=
  (tools.find? fun item => item.1 = name).map Prod.snd

/-- One tool of a payload. -/
def addTool (tools : List (Str × Str)) (tool : Json) : Except Exc (List (Str × Str)) :=
  match tool with
  | .obj fields =>
    if (field fields "is_active").truthy = false then .ok tools
    else
      match field fields "name" with
      | .str name =>
        if (field fields "version").truthy = true ∧ (getTool tools name).getD [] = [] then
          ((field fields "version").toStr rt).map fun version => setTool name version tools
        else .ok tools
      | _ => .ok tools
  | _ => .ok tools

/-- The active versions of a payload. -/
def activeTools (payload : List (Str × Json)) : Except Exc (List (Str × Str)) := do
  let tools ← iterate ((field payload "tools").orElse (.arr []))
  tools.foldlM (addTool rt) []

/-- `s.upper()`, as far as a text of capital letters goes: no other character than
the small letter becomes one of `ABCDEKLNORUW`. -/
def upper (s : Str) : Str :=
  s.map fun c => if codePoint 'a' ≤ c ∧ c ≤ codePoint 'z' then
    ⟨c.val - 32, Nat.lt_of_le_of_lt (Nat.sub_le _ _) c.isLt⟩ else c

/-- The states of the findings of a payload. -/
def findingStates : List Json → Except Exc (List Str)
  | [] => .ok []
  | .obj fields :: rest => do
    let state ← ((dictGet? fields "state").getD (.str [])).toStr rt
    let states ← findingStates rest
    return upper state :: states
  | _ :: rest => findingStates rest

/-- `_verdict_from_payload`. -/
def verdictFromPayload (payload : List (Str × Json)) : Except Exc Str :=
  match field payload "findings" with
  | .arr findings => do
    let states ← findingStates rt findings
    if states.any fun state => state = lit "BLOCKED" || state = lit "ERROR" then return "BLOCKED"
    else if states.any fun state => state = lit "WARN" || state = lit "UNKNOWN" then
      return "READY_WITH_WARNINGS"
    else return "READY"
  | _ => .ok "UNKNOWN"

/-- The fact of a row, or nothing for a payload that is skipped. -/
def snapshotFact (row : SnapshotRow) : Except Exc (Option SnapshotFact) :=
  match loads rt.limits row.payload with
  | .error exc => if exc.type.isValueError then .ok none else .error exc
  | .ok (.obj payload) => do
    let tools ← activeTools rt payload
    let verdict ← verdictFromPayload rt payload
    return some ⟨row.machineId, (field payload "created_at").orElse (.str row.receivedAt), verdict,
      tools⟩
  | .ok _ => .ok none

/-- `snapshot_facts`, for the rows of its query. -/
def snapshotFacts : List SnapshotRow → Except Exc (List SnapshotFact)
  | [] => .ok []
  | row :: rest => do
    let fact ← snapshotFact rt row
    let facts ← snapshotFacts rest
    return fact.toList ++ facts

/-- The machines of an organization. -/
def machinesOf (db : ServerDB) (orgId : Int) : List MachineRow :=
  db.fleet.machines.rows.filter fun m => m.orgId = orgId

/-- The snapshots of the machines of an organization. -/
def snapshotsOf (db : ServerDB) (orgId : Int) : List SnapshotRow :=
  db.snapshots.rows.filter fun s => s.machineId ∈ (machinesOf db orgId).map MachineRow.id

/-- Snapshots with the newest first. -/
def NewestFirst (rows : List SnapshotRow) : Prop :=
  rows.Pairwise fun a b => strLe b.receivedAt a.receivedAt = true

/-- The rows that the query of `snapshot_facts` may return. -/
def Selects (db : ServerDB) (orgId : Int) (rows : List SnapshotRow) : Prop :=
  ∃ ordered, ordered.Perm (snapshotsOf db orgId) ∧ NewestFirst ordered ∧ rows = ordered.take 5000

/-! ## The simulation -/

structure PolicySimulation where
  evaluated : Nat
  newlyFailing : Nat
  causes : List (Str × Nat)
  unevaluated : Nat

/-- `causes[key] = causes.get(key, 0) + 1`. -/
def countCause (key : Str) : List (Str × Nat) → List (Str × Nat)
  | [] => [(key, 1)]
  | (other, n) :: rest => if other = key then (other, n + 1) :: rest else (other, n) :: countCause key rest

/-- One requirement for the tools of a machine: the causes, and whether it broke. -/
def checkRequirement (tools : List (Str × Str)) (state : List (Str × Nat) × Bool)
    (requirement : Str × Str) : List (Str × Nat) × Bool :=
  match getTool tools requirement.1 with
  | none => (countCause (requirement.1 ++ lit " (absent)") state.1, true)
  | some version =>
    match satisfies rt.limits version requirement.2 with
    | some false => (countCause (requirement.1 ++ lit " " ++ requirement.2) state.1, true)
    | _ => state

/-- One machine of a simulation. -/
def simulateMachine (required : List (Str × Str)) (simulation : PolicySimulation)
    (fact : SnapshotFact) : PolicySimulation :=
  if fact.tools = [] then { simulation with unevaluated := simulation.unevaluated + 1 }
  else
    let checked := required.foldl (checkRequirement rt fact.tools) (simulation.causes, false)
    { simulation with
      evaluated := simulation.evaluated + 1
      causes := checked.1
      newlyFailing := simulation.newlyFailing + if checked.2 then 1 else 0 }

/-- `simulate_policy`, for the sorted requirements of a policy. -/
def simulatePolicy (required : List (Str × Str)) (facts : List SnapshotFact) : PolicySimulation :=
  facts.foldl (simulateMachine rt required) ⟨0, 0, [], 0⟩

/-- One fact of the loop that keeps the first one of each machine. -/
def addLatest (latest : List SnapshotFact) (fact : SnapshotFact) : List SnapshotFact :=
  if fact.machineId ∈ latest.map SnapshotFact.machineId then latest else latest ++ [fact]

/-- The first fact of each machine. -/
def latestFacts (facts : List SnapshotFact) : List SnapshotFact := facts.foldl addLatest []

/-- The endpoint `simulate`, for a policy that is valid and the rows of the query. -/
def simulate (required : List (Str × Str)) (rows : List SnapshotRow) :
    Except Exc PolicySimulation := do
  let facts ← snapshotFacts rt rows
  return simulatePolicy rt required (latestFacts facts)

/-! ## What the simulation promises -/

/-- A machine that counts was judged on the newest snapshot that it sent. -/
def JudgedOnNewest (db : ServerDB) (orgId : Int) (fact : SnapshotFact) : Prop :=
  ∃ row ∈ snapshotsOf db orgId, snapshotFact rt row = .ok (some fact) ∧
    ∀ other ∈ snapshotsOf db orgId, other.machineId = row.machineId →
      strLe other.receivedAt row.receivedAt = true

/-- The simulation accounts for every machine, and judges it on its newest snapshot. -/
def FullDenominator (db : ServerDB) (orgId : Int) (required : List (Str × Str))
    (rows : List SnapshotRow) : Prop :=
  ∃ facts, snapshotFacts rt rows = .ok facts ∧
    (simulatePolicy rt required (latestFacts facts)).evaluated +
        (simulatePolicy rt required (latestFacts facts)).unevaluated =
      (machinesOf db orgId).length ∧
    ∀ fact ∈ latestFacts facts, fact.tools ≠ [] → JudgedOnNewest rt db orgId fact

/-- A snapshot that is not skipped. -/
def Legible (row : SnapshotRow) : Prop := ∃ fact, snapshotFact rt row = .ok (some fact)

/-- Every machine has a snapshot among the rows that can be read, no row makes the server
fail, and the rows that are skipped are not newer than the one that a machine is judged
on. -/
structure Covered (db : ServerDB) (orgId : Int) (rows : List SnapshotRow) : Prop where
  harmless : ∀ row ∈ rows, ∃ fact, snapshotFact rt row = .ok fact
  reported : ∀ m ∈ machinesOf db orgId, ∃ row ∈ rows, row.machineId = m.id ∧ Legible rt row
  fresh : ∀ earlier row later fact, rows = earlier ++ row :: later →
    snapshotFact rt row = .ok (some fact) → fact.tools ≠ [] →
    (∀ r ∈ earlier, r.machineId = row.machineId → ¬Legible rt r) →
      ∀ r ∈ earlier, r.machineId = row.machineId → strLe r.receivedAt row.receivedAt = true

variable {rt}

/-! ## Dictionaries -/

theorem getTool_setTool (tools : List (Str × Str)) (name version other : Str) :
    getTool (setTool name version tools) other =
      if other = name then some version else getTool tools other := by
  induction tools with
  | nil =>
    by_cases heq : other = name
    · simp [setTool, getTool, heq]
    · simp [setTool, getTool, heq, Ne.symm heq]
  | cons item rest ih =>
    rcases item with ⟨key, old⟩
    have hcons : ∀ (k v : Str) (l : List (Str × Str)),
        getTool ((k, v) :: l) other = if k = other then some v else getTool l other := by
      intro k v l
      by_cases hk : k = other
      · simp [getTool, hk]
      · simp [getTool, hk]
    rw [setTool]
    by_cases hkey : key = name
    · rw [if_pos hkey, hcons, hcons, hkey]
      by_cases heq : other = name
      · rw [if_pos heq.symm, if_pos heq]
      · rw [if_neg (Ne.symm heq), if_neg heq, if_neg (Ne.symm heq)]
    · rw [if_neg hkey, hcons, hcons, ih]
      by_cases heq : other = name
      · rw [if_pos heq, heq, if_neg hkey, if_pos rfl]
      · rw [if_neg heq, if_neg heq]

/-! ## Facts and rows -/

/-- The fact of a row that does not make the server fail. -/
def factOf (rt : Runtime) (row : SnapshotRow) : Option SnapshotFact :=
  match snapshotFact rt row with
  | .ok fact => fact
  | .error _ => none

theorem factOf_eq_some {row : SnapshotRow} {fact : SnapshotFact} :
    factOf rt row = some fact ↔ snapshotFact rt row = .ok (some fact) := by
  rw [factOf]
  cases snapshotFact rt row with
  | error exc => simp
  | ok found => simp

theorem legible_iff {row : SnapshotRow} : Legible rt row ↔ factOf rt row ≠ none := by
  rw [Legible, Option.ne_none_iff_exists']
  exact exists_congr fun fact => factOf_eq_some.symm

theorem snapshotFacts_eq_ok {rows : List SnapshotRow} {facts : List SnapshotFact} :
    snapshotFacts rt rows = .ok facts ↔
      (∀ row ∈ rows, ∃ fact, snapshotFact rt row = .ok fact) ∧ rows.filterMap (factOf rt) = facts := by
  induction rows generalizing facts with
  | nil => simp [snapshotFacts]
  | cons row rest ih =>
    rw [snapshotFacts, bind_eq_ok, List.forall_mem_cons]
    constructor
    · intro ⟨fact, hfact, h⟩
      rw [bind_eq_ok] at h
      rcases h with ⟨behind, hbehind, h⟩
      rw [pure_eq_ok] at h
      rcases ih.mp hbehind with ⟨hall, hrest⟩
      refine ⟨⟨⟨fact, hfact⟩, hall⟩, ?_⟩
      rw [← h, ← hrest, List.filterMap_cons, factOf, hfact]
      cases fact with
      | none => rfl
      | some fact => rfl
    · intro ⟨⟨⟨fact, hfact⟩, hall⟩, h⟩
      refine ⟨fact, hfact, ?_⟩
      rw [bind_eq_ok]
      refine ⟨rest.filterMap (factOf rt), ih.mpr ⟨hall, rfl⟩, ?_⟩
      rw [pure_eq_ok, ← h, List.filterMap_cons, factOf, hfact]
      cases fact with
      | none => rfl
      | some fact => rfl

/-- A fact has the machine of its row. -/
theorem machineId_of_snapshotFact {row : SnapshotRow} {fact : SnapshotFact}
    (h : snapshotFact rt row = .ok (some fact)) : fact.machineId = row.machineId := by
  rw [snapshotFact] at h
  cases hload : loads rt.limits row.payload with
  | error exc =>
    rw [hload] at h
    dsimp only at h
    split_ifs at h
    cases h
  | ok payload =>
    rw [hload] at h
    cases payload with
    | obj fields =>
      dsimp only at h
      rw [bind_eq_ok] at h
      rcases h with ⟨tools, _, h⟩
      rw [bind_eq_ok] at h
      rcases h with ⟨verdict, _, h⟩
      rw [pure_eq_ok, Option.some.injEq] at h
      rw [← h]
    | _ => cases h

/-! ## The first fact of each machine -/

theorem latestFacts_snoc (facts : List SnapshotFact) (fact : SnapshotFact) :
    latestFacts (facts ++ [fact]) = addLatest (latestFacts facts) fact := by
  rw [latestFacts, List.foldl_append]
  rfl

theorem latestFacts_machines (facts : List SnapshotFact) (id : Nat) :
    id ∈ (latestFacts facts).map SnapshotFact.machineId ↔
      id ∈ facts.map SnapshotFact.machineId := by
  induction facts using List.reverseRecOn with
  | nil => rfl
  | append_singleton facts fact ih =>
    rw [latestFacts_snoc, addLatest, List.map_append, List.mem_append]
    split_ifs with hknown
    · constructor
      · exact fun h => Or.inl (ih.mp h)
      · intro h
        rcases h with hold | hnew
        · exact ih.mpr hold
        · rw [List.map_singleton, List.mem_singleton] at hnew
          rw [hnew]
          exact hknown
    · rw [List.map_append, List.mem_append, ih]

theorem latestFacts_nodup (facts : List SnapshotFact) :
    ((latestFacts facts).map SnapshotFact.machineId).Nodup := by
  induction facts using List.reverseRecOn with
  | nil => exact List.nodup_nil
  | append_singleton facts fact ih =>
    rw [latestFacts_snoc, addLatest]
    split_ifs with hknown
    · exact ih
    · rw [List.map_append, List.nodup_append]
      refine ⟨ih, List.nodup_singleton _, fun a ha b hb heq => ?_⟩
      rw [List.map_singleton, List.mem_singleton] at hb
      rw [heq, hb] at ha
      exact hknown ha

/-- The facts that stay are those before which there is none of their machine. -/
theorem mem_latestFacts {facts : List SnapshotFact} {fact : SnapshotFact} :
    fact ∈ latestFacts facts ↔ ∃ earlier later, facts = earlier ++ fact :: later ∧
      ∀ other ∈ earlier, other.machineId ≠ fact.machineId := by
  constructor
  · induction facts using List.reverseRecOn with
    | nil => exact fun h => absurd h List.not_mem_nil
    | append_singleton facts last ih =>
      intro h
      have hsplit : fact ∈ latestFacts facts → ∃ earlier later,
          facts ++ [last] = earlier ++ fact :: later ∧
            ∀ other ∈ earlier, other.machineId ≠ fact.machineId := by
        intro hold
        rcases ih hold with ⟨earlier, later, hfacts, hearlier⟩
        refine ⟨earlier, later ++ [last], ?_, hearlier⟩
        rw [hfacts, List.append_assoc, List.cons_append]
      rw [latestFacts_snoc, addLatest] at h
      split_ifs at h with hknown
      · exact hsplit h
      · rcases List.mem_append.mp h with hold | hnew
        · exact hsplit hold
        · rw [List.mem_singleton] at hnew
          refine ⟨facts, [], by rw [hnew], fun other hother heq => hknown ?_⟩
          rw [latestFacts_machines, ← hnew, ← heq]
          exact List.mem_map_of_mem hother
  · intro ⟨earlier, later, hfacts, hearlier⟩
    have hin : fact.machineId ∉ (latestFacts earlier).map SnapshotFact.machineId := by
      rw [latestFacts_machines]
      intro hmem
      rcases List.mem_map.mp hmem with ⟨other, hother, heq⟩
      exact hearlier other hother heq
    have hkeep : ∀ rest kept, fact ∈ kept → fact ∈ List.foldl addLatest kept rest := by
      intro rest
      induction rest with
      | nil => exact fun kept h => h
      | cons next rest ih =>
        intro kept h
        apply ih
        rw [addLatest]
        split_ifs
        · exact h
        · exact List.mem_append_left _ h
    rw [hfacts, latestFacts, List.foldl_append, List.foldl_cons]
    apply hkeep
    show fact ∈ addLatest (latestFacts earlier) fact
    rw [addLatest, if_neg hin]
    exact List.mem_append_right _ List.mem_cons_self

/-! ## Counts -/

/-- A simulation counts every fact once. -/
theorem simulatePolicy_count (required : List (Str × Str)) (facts : List SnapshotFact) :
    (simulatePolicy rt required facts).evaluated + (simulatePolicy rt required facts).unevaluated =
      facts.length := by
  induction facts using List.reverseRecOn with
  | nil => rfl
  | append_singleton facts fact ih =>
    rw [simulatePolicy, List.foldl_append, List.length_append, ← ih]
    show (simulateMachine rt required (simulatePolicy rt required facts) fact).evaluated +
      (simulateMachine rt required (simulatePolicy rt required facts) fact).unevaluated = _
    rw [simulateMachine, List.length_singleton]
    split_ifs
    · exact (Nat.add_assoc _ _ _).symm
    · show (simulatePolicy rt required facts).evaluated + 1 +
        (simulatePolicy rt required facts).unevaluated = _
      omega

/-- Distinct elements of a list are as many as the list when they are all of it. -/
theorem length_eq_iff_subset {ids all : List Nat} (hids : ids.Nodup) (hall : all.Nodup)
    (hsub : ids ⊆ all) : ids.length = all.length ↔ all ⊆ ids := by
  constructor
  · intro hlength
    have hperm : ids.Perm all :=
      (List.subperm_of_subset hids hsub).perm_of_length_le hlength.ge
    exact hperm.symm.subset
  · intro hback
    exact le_antisymm (List.subperm_of_subset hids hsub).length_le
      (List.subperm_of_subset hall hback).length_le

theorem strLe_refl (s : Str) : strLe s s = true := by
  induction s with
  | nil => rfl
  | cons c rest ih => simp [strLe, ih]

theorem strLe_trans {s t u : Str} (hst : strLe s t = true) (htu : strLe t u = true) :
    strLe s u = true := by
  induction s generalizing t u with
  | nil => simp [strLe]
  | cons c s ih =>
    cases t with
    | nil => simp [strLe] at hst
    | cons d t =>
      cases u with
      | nil => simp [strLe] at htu
      | cons e u =>
        simp only [strLe, Bool.or_eq_true, Bool.and_eq_true, decide_eq_true_eq] at hst htu ⊢
        rcases hst with hlt | ⟨rfl, hst⟩
        · rcases htu with hlt' | ⟨rfl, _⟩
          · exact Or.inl (hlt.trans hlt')
          · exact Or.inl hlt
        · rcases htu with hlt' | ⟨rfl, htu⟩
          · exact Or.inl hlt'
          · exact Or.inr ⟨rfl, ih hst htu⟩

/-! ## The query -/

theorem Selects.subset {db : ServerDB} {orgId : Int} {rows : List SnapshotRow}
    (h : Selects db orgId rows) : rows ⊆ snapshotsOf db orgId := by
  rcases h with ⟨ordered, hperm, _, rfl⟩
  intro row hrow
  exact hperm.subset (List.mem_of_mem_take hrow)

/-- A snapshot of the organization that is not newer than a row, unless it comes before it. -/
theorem Selects.older {db : ServerDB} {orgId : Int} {rows : List SnapshotRow}
    (h : Selects db orgId rows) {earlier later : List SnapshotRow} {row : SnapshotRow}
    (hrows : rows = earlier ++ row :: later) {other : SnapshotRow}
    (hother : other ∈ snapshotsOf db orgId) :
    other ∈ earlier ∨ strLe other.receivedAt row.receivedAt = true := by
  rcases h with ⟨ordered, hperm, hsorted, htake⟩
  have hall : ordered = earlier ++ row :: (later ++ ordered.drop 5000) := by
    have hsplit := List.take_append_drop 5000 ordered
    rw [← htake, hrows, List.append_assoc, List.cons_append] at hsplit
    exact hsplit.symm
  have hmem := hperm.symm.subset hother
  rw [hall] at hmem
  rcases List.mem_append.mp hmem with hearlier | hbehind
  · exact Or.inl hearlier
  · right
    rcases List.mem_cons.mp hbehind with rfl | hbehind
    · exact strLe_refl _
    · rw [hall, NewestFirst, List.pairwise_append, List.pairwise_cons] at hsorted
      exact hsorted.2.1.1 other hbehind

/-- The row that a machine is judged on: the first one that can be read. -/
theorem latest_row {rows : List SnapshotRow} {fact : SnapshotFact}
    (h : fact ∈ latestFacts (rows.filterMap (factOf rt))) :
    ∃ earlier row later, rows = earlier ++ row :: later ∧ snapshotFact rt row = .ok (some fact) ∧
      ∀ r ∈ earlier, r.machineId = row.machineId → ¬Legible rt r := by
  rcases mem_latestFacts.mp h with ⟨before, behind, hfacts, hbefore⟩
  rw [List.filterMap_eq_append_iff] at hfacts
  rcases hfacts with ⟨first, second, hrows, hfirst, hsecond⟩
  rw [List.filterMap_eq_cons_iff] at hsecond
  rcases hsecond with ⟨skipped, row, later, hsplit, hskipped, hfact, _⟩
  have hrow := factOf_eq_some.mp hfact
  refine ⟨first ++ skipped, row, later, ?_, hrow, fun r hr hsame hread => ?_⟩
  · rw [hrows, hsplit, List.append_assoc]
  · rcases List.mem_append.mp hr with hin | hin
    · rcases hread with ⟨other, hother⟩
      have hmem : other ∈ before := by
        rw [← hfirst]
        exact List.mem_filterMap.mpr ⟨r, hin, factOf_eq_some.mpr hother⟩
      apply hbefore other hmem
      rw [machineId_of_snapshotFact hother, hsame, machineId_of_snapshotFact hrow]
    · exact legible_iff.mp hread (hskipped r hin)

/-- The first row of a machine that can be read is the one that it is judged on. -/
theorem latest_of_row {rows earlier later : List SnapshotRow} {row : SnapshotRow}
    {fact : SnapshotFact} (hrows : rows = earlier ++ row :: later)
    (hfact : snapshotFact rt row = .ok (some fact))
    (hearlier : ∀ r ∈ earlier, r.machineId = row.machineId → ¬Legible rt r) :
    fact ∈ latestFacts (rows.filterMap (factOf rt)) := by
  apply mem_latestFacts.mpr
  refine ⟨earlier.filterMap (factOf rt), later.filterMap (factOf rt), ?_, fun other hother heq => ?_⟩
  · rw [hrows, List.filterMap_append, List.filterMap_cons, factOf_eq_some.mpr hfact]
  · rcases List.mem_filterMap.mp hother with ⟨r, hr, hother⟩
    have hread := factOf_eq_some.mp hother
    apply hearlier r hr
    · rw [← machineId_of_snapshotFact hread, heq, machineId_of_snapshotFact hfact]
    · exact ⟨other, hread⟩

/-- The counted machines are all machines exactly when every machine has a row that can
be read. -/
theorem counts_all_iff {db : ServerDB} (hvalid : db.fleet.Valid) {orgId : Int}
    {rows : List SnapshotRow} (hselects : Selects db orgId rows) :
    (latestFacts (rows.filterMap (factOf rt))).length = (machinesOf db orgId).length ↔
      ∀ m ∈ machinesOf db orgId, ∃ row ∈ rows, row.machineId = m.id ∧ Legible rt row := by
  have hmachines : ((machinesOf db orgId).map MachineRow.id).Nodup :=
    hvalid.machines_keyed.distinct.sublist (List.filter_sublist.map MachineRow.id)
  have hmem : ∀ id, id ∈ (latestFacts (rows.filterMap (factOf rt))).map SnapshotFact.machineId ↔
      ∃ row ∈ rows, row.machineId = id ∧ Legible rt row := by
    intro id
    rw [latestFacts_machines]
    constructor
    · intro h
      rcases List.mem_map.mp h with ⟨fact, hfact, hid⟩
      rcases List.mem_filterMap.mp hfact with ⟨row, hrow, hread⟩
      have hok := factOf_eq_some.mp hread
      exact ⟨row, hrow, by rw [← machineId_of_snapshotFact hok, hid], fact, hok⟩
    · intro ⟨row, hrow, hid, fact, hok⟩
      apply List.mem_map.mpr
      refine ⟨fact, List.mem_filterMap.mpr ⟨row, hrow, factOf_eq_some.mpr hok⟩, ?_⟩
      rw [machineId_of_snapshotFact hok, hid]
  have hsub : (latestFacts (rows.filterMap (factOf rt))).map SnapshotFact.machineId ⊆
      (machinesOf db orgId).map MachineRow.id := by
    intro id hid
    rcases (hmem id).mp hid with ⟨row, hrow, hrowid, _⟩
    have hin := hselects.subset hrow
    rw [snapshotsOf, List.mem_filter, decide_eq_true_iff, hrowid] at hin
    exact hin.2
  have hlength := length_eq_iff_subset (latestFacts_nodup _) hmachines hsub
  rw [List.length_map, List.length_map] at hlength
  rw [hlength]
  constructor
  · intro h m hm
    exact (hmem m.id).mp (h (List.mem_map_of_mem hm))
  · intro h id hid
    rcases List.mem_map.mp hid with ⟨m, hm, rfl⟩
    exact (hmem m.id).mpr (h m hm)

/-- The simulation accounts for every machine on its newest snapshot exactly when the
rows of the query cover the machines. -/
theorem full_denominator_iff (rt : Runtime) {db : ServerDB} (hvalid : db.fleet.Valid)
    {orgId : Int} {rows : List SnapshotRow} (hselects : Selects db orgId rows)
    (required : List (Str × Str)) :
    FullDenominator rt db orgId required rows ↔ Covered rt db orgId rows := by
  constructor
  · intro ⟨facts, hfacts, hcount, hjudged⟩
    rcases snapshotFacts_eq_ok.mp hfacts with ⟨hall, rfl⟩
    rw [simulatePolicy_count] at hcount
    refine ⟨hall, (counts_all_iff hvalid hselects).mp hcount, ?_⟩
    intro earlier row later fact hrows hfact htools hearlier r hr hsame
    have hlatest := latest_of_row hrows hfact hearlier
    rcases hjudged fact hlatest htools with ⟨judged, hin, hjudgedfact, hnewest⟩
    have hmachine : judged.machineId = row.machineId := by
      rw [← machineId_of_snapshotFact hjudgedfact, machineId_of_snapshotFact hfact]
    have hrin : r ∈ snapshotsOf db orgId := by
      apply hselects.subset
      rw [hrows]
      exact List.mem_append_left _ hr
    have hle := hnewest r hrin (hsame.trans hmachine.symm)
    -- The row that the fact comes from is no earlier one, so it is not newer than `row`.
    rcases hselects.older hrows hin with hbefore | hnotnewer
    · exact absurd ⟨fact, hjudgedfact⟩ (hearlier judged hbefore hmachine)
    · exact strLe_trans hle hnotnewer
  · intro hcovered
    refine ⟨rows.filterMap (factOf rt), snapshotFacts_eq_ok.mpr ⟨hcovered.harmless, rfl⟩, ?_, ?_⟩
    · rw [simulatePolicy_count]
      exact (counts_all_iff hvalid hselects).mpr hcovered.reported
    · intro fact hfact htools
      rcases latest_row hfact with ⟨earlier, row, later, hrows, hrow, hearlier⟩
      have hin : row ∈ snapshotsOf db orgId := by
        apply hselects.subset
        rw [hrows]
        exact List.mem_append_right _ List.mem_cons_self
      refine ⟨row, hin, hrow, fun other hother hsame => ?_⟩
      rcases hselects.older hrows hother with hbefore | hnotnewer
      · exact hcovered.fresh earlier row later fact hrows hrow htools hearlier other hbefore hsame
      · exact hnotnewer

/-! ## A machine that never reported -/

/-- An organization with one machine and no snapshot. -/
def silentMachine : ServerDB :=
  ⟨⟨.empty, ⟨[newMachine 1 "a" newYear 1], 1⟩⟩, .empty, .empty, .empty⟩

theorem silentMachine_valid : silentMachine.fleet.Valid := by
  constructor
  · exact keyed_empty
  · exact List.nodup_nil
  · exact ⟨List.nodup_singleton _, by decide⟩
  · exact List.nodup_singleton _

theorem silentMachine_selects : Selects silentMachine 1 [] :=
  ⟨[], List.Perm.refl _, List.Pairwise.nil, rfl⟩

/-- The simulation counts no machine where one is enrolled. -/
theorem silent_machine_dropped :
    silentMachine.fleet.Valid ∧ Selects silentMachine 1 [] ∧
      ¬FullDenominator .standard silentMachine 1 [] [] := by
  refine ⟨silentMachine_valid, silentMachine_selects, fun ⟨facts, hfacts, hcount, _⟩ => ?_⟩
  cases hfacts
  exact absurd hcount (by decide)

/-- The rule for this organization. -/
theorem full_denominator_iff_silent :
    FullDenominator .standard silentMachine 1 [] [] ↔ Covered .standard silentMachine 1 [] :=
  full_denominator_iff .standard silentMachine_valid silentMachine_selects []

end DevRepro.Server
