import DevRepro.Diff.Tools
import DevRepro.Server.Analytics
import DevRepro.Snapshots.Models

/-!
# Drift timelines

`drift/timeline.py`: the changes between consecutive snapshots.

`timeline_replays` says that the events tell the whole history: the events up to
a snapshot, applied one after the other to nothing, give the tools and the
containers of that snapshot, every event starts from what is there, and none
changes nothing.
-/

namespace DevRepro.Drift

open DevRepro.Python DevRepro.Server DevRepro.Snapshots

inductive Component where
  | tool
  | container
  deriving DecidableEq

inductive ChangeKind where
  | added
  | removed
  | versionChanged
  | stateChanged
  deriving DecidableEq

structure DriftEvent where
  atIndex : Nat
  component : Component
  name : Str
  kind : ChangeKind
  before : Option Str
  after : Option Str
  deriving DecidableEq

structure DriftTimeline where
  events : List DriftEvent
  snapshotIds : List Str

/-! ## The timeline -/

variable (rt : Runtime)

/-- One entry of the loop of `_tool_map`. -/
def mapTool (out : List (Str × Str)) (tool : Json) : Except Exc (List (Str × Str)) :=
  match tool with
  | .obj fields =>
    if (field fields "name").truthy = false then .ok out
    else do
      let name ← (field fields "name").toStr rt
      let version ← ((field fields "version").orElse (.str "?")).toStr rt
      return setTool name version out
  | _ => .ok out

/-- `_tool_map`. -/
def toolMap (snapshot : List (Str × Json)) : Except Exc (List (Str × Str)) := do
  let tools ← iterate ((field snapshot "tools").orElse (.arr []))
  tools.foldlM (mapTool rt) []

/-- `_container_state`. -/
def containerState (snapshot : List (Str × Json)) : Except Exc (List (Str × Str)) :=
  match (field snapshot "containers").orElse (.obj []) with
  | .obj c => do
    let cli ← ((field c "docker_cli_version").orElse (.str "-")).toStr rt
    let podman ← ((field c "podman_version").orElse (.str "-")).toStr rt
    return [("docker-daemon", if (field c "docker_daemon_ok").truthy then "ok" else "down"),
      ("docker-cli", cli), ("podman", podman)]
  | _ => .ok []

/-- `sorted(set(prev) | set(cur))`. -/
def unionKeys (prev cur : List (Str × Str)) : List Str :=
  ((prev.map Prod.fst ++ cur.map Prod.fst).dedup).mergeSort strLe

/-- The event of a tool, by its versions before and after. -/
def toolChange (i : Nat) (name : Str) : Option Str → Option Str → Option DriftEvent
  | none, some a => some ⟨i, .tool, name, .added, none, some a⟩
  | some b, none => some ⟨i, .tool, name, .removed, some b, none⟩
  | some b, some a =>
    if a ≠ b then some ⟨i, .tool, name, .versionChanged, some b, some a⟩ else none
  | none, none => none

/-- The event of a container setting. -/
def containerChange (i : Nat) (name : Str) (b a : Option Str) : Option DriftEvent :=
  if b ≠ a ∧ (b ≠ none ∨ a ≠ none) then some ⟨i, .container, name, .stateChanged, b, a⟩ else none

/-- The events of one of the two loops over names. -/
def changes (change : Str → Option Str → Option Str → Option DriftEvent)
    (prev cur : List (Str × Str)) : List DriftEvent :=
  (unionKeys prev cur).filterMap fun name => change name (getTool prev name) (getTool cur name)

/-- The tools and the containers of a snapshot. -/
structure SnapshotState where
  tools : List (Str × Str)
  containers : List (Str × Str)

/-- What the loop over the snapshots reads of one. -/
def snapshotState (snapshot : List (Str × Json)) : Except Exc SnapshotState := do
  let tools ← toolMap rt snapshot
  let containers ← containerState rt snapshot
  return ⟨tools, containers⟩

/-- The events of a snapshot. -/
def eventsAt (i : Nat) (prev cur : SnapshotState) : List DriftEvent :=
  changes (toolChange i) prev.tools cur.tools ++
    changes (containerChange i) prev.containers cur.containers

/-- The events of the snapshots from an index on. -/
def eventsFrom (i : Nat) (prev : SnapshotState) : List SnapshotState → List DriftEvent
  | [] => []
  | cur :: rest => eventsAt i prev cur ++ eventsFrom (i + 1) cur rest

/-- The id of the snapshot at an index. -/
def snapshotId (item : List (Str × Json) × Nat) : Except Exc Str :=
  ((dictGet? item.1 "snapshot_id").getD
    ((dictGet? item.1 "created_at").getD (.str (lit "#" ++ natStr item.2)))).toStr rt

/-- `build_timeline`. -/
def buildTimeline (snapshots : List (List (Str × Json))) : Except Exc DriftTimeline := do
  let ids ← snapshots.zipIdx.mapM (snapshotId rt)
  let states ← snapshots.mapM (snapshotState rt)
  return ⟨eventsFrom 0 ⟨[], []⟩ states, ids⟩

/-! ## Replay -/

/-- The tools and containers that a replay has reached. -/
abbrev Replayed := Component → Str → Option Str

/-- What an event leaves under its name. -/
def DriftEvent.leaves (e : DriftEvent) : Option Str :=
  match e.kind with
  | .added | .versionChanged | .stateChanged => e.after
  | .removed => none

/-- Apply an event. -/
def applyEvent (r : Replayed) (e : DriftEvent) : Replayed :=
  Function.update r e.component (Function.update (r e.component) e.name e.leaves)

/-- Apply events to empty maps. -/
def replay (events : List DriftEvent) : Replayed := events.foldl applyEvent fun _ _ => none

/-- The maps of a snapshot. -/
def SnapshotState.maps (s : SnapshotState) : Replayed
  | .tool => getTool s.tools
  | .container => getTool s.containers

/-! ## One name -/

/-- What an event of a name says, when there is one. -/
structure Tells (i : Nat) (component : Component) (name : Str) (b a : Option Str)
    (e : DriftEvent) : Prop where
  at_index : e.atIndex = i
  component : e.component = component
  name : e.name = name
  before : e.before = b
  after : e.after = a
  leaves : e.leaves = a

/-- A change of one name is an event that tells it, and there is none without a change. -/
structure Change (i : Nat) (component : Component)
    (change : Str → Option Str → Option Str → Option DriftEvent) : Prop where
  tells : ∀ name b a e, change name b a = some e → Tells i component name b a e
  complete : ∀ name b a, change name b a = none ↔ b = a

theorem toolChange_change (i : Nat) : Change i .tool (toolChange i) := by
  constructor
  · intro name b a e h
    cases b with
    | none =>
      cases a with
      | none => cases h
      | some a => cases h; exact ⟨rfl, rfl, rfl, rfl, rfl, rfl⟩
    | some b =>
      cases a with
      | none => cases h; exact ⟨rfl, rfl, rfl, rfl, rfl, rfl⟩
      | some a =>
        rw [toolChange] at h
        split_ifs at h
        cases h
        exact ⟨rfl, rfl, rfl, rfl, rfl, rfl⟩
  · intro name b a
    cases b with
    | none =>
      cases a with
      | none => simp [toolChange]
      | some a => simp [toolChange]
    | some b =>
      cases a with
      | none => simp [toolChange]
      | some a =>
        rw [toolChange]
        by_cases h : a = b
        · simp [h]
        · simp [h, Ne.symm h]

theorem containerChange_change (i : Nat) : Change i .container (containerChange i) := by
  constructor
  · intro name b a e h
    rw [containerChange] at h
    split_ifs at h
    cases h
    exact ⟨rfl, rfl, rfl, rfl, rfl, rfl⟩
  · intro name b a
    rw [containerChange]
    by_cases h : b = a
    · simp [h]
    · have hsome : b ≠ none ∨ a ≠ none := by
        by_contra hnone
        rw [not_or, not_not, not_not] at hnone
        exact h (hnone.1.trans hnone.2.symm)
      simp [h, hsome]

/-! ## One snapshot -/

theorem getTool_eq_none {items : List (Str × Str)} {name : Str} (h : name ∉ items.map Prod.fst) :
    getTool items name = none := by
  rw [getTool, Option.map_eq_none_iff, List.find?_eq_none]
  intro item hitem hname
  exact h (List.mem_map.mpr ⟨item, hitem, of_decide_eq_true hname⟩)

theorem mem_unionKeys {prev cur : List (Str × Str)} {name : Str} :
    name ∈ unionKeys prev cur ↔ name ∈ prev.map Prod.fst ∨ name ∈ cur.map Prod.fst := by
  rw [unionKeys, List.mem_mergeSort, List.mem_dedup, List.mem_append]

theorem unionKeys_nodup (prev cur : List (Str × Str)) : (unionKeys prev cur).Nodup := by
  rw [unionKeys, (List.mergeSort_perm _ _).nodup_iff]
  exact List.nodup_dedup _

theorem applyEvent_tells {i : Nat} {component : Component} {name : Str} {b a : Option Str}
    {e : DriftEvent} (h : Tells i component name b a e) (r : Replayed) :
    applyEvent r e = Function.update r component (Function.update (r component) name a) := by
  rw [applyEvent, h.component, h.name, h.leaves]

/-- Events that a replay may go through: each one starts from what is there, and changes it. -/
def Sound : Replayed → List DriftEvent → Prop
  | _, [] => True
  | r, e :: rest => r e.component e.name = e.before ∧ e.before ≠ e.after ∧ Sound (applyEvent r e) rest

theorem Sound.append {r : Replayed} {xs ys : List DriftEvent} (hx : Sound r xs)
    (hy : Sound (xs.foldl applyEvent r) ys) : Sound r (xs ++ ys) := by
  induction xs generalizing r with
  | nil => exact hy
  | cons e rest ih => exact ⟨hx.1, hx.2.1, ih hx.2.2 hy⟩

/-- The events of a list of distinct names, on a replay that has the old values of them:
they lead to the new values, and leave the rest alone. -/
theorem names_replay {i : Nat} {component : Component}
    {change : Str → Option Str → Option Str → Option DriftEvent}
    (hchange : Change i component change) (old new : Str → Option Str) {names : List Str}
    (hnodup : names.Nodup) {r : Replayed} (hold : ∀ name ∈ names, r component name = old name) :
    Sound r (names.filterMap fun name => change name (old name) (new name)) ∧
      ∀ c name, ((names.filterMap fun name => change name (old name) (new name)).foldl applyEvent r)
        c name = if c = component ∧ name ∈ names then new name else r c name := by
  induction names generalizing r with
  | nil => exact ⟨trivial, fun c name => by simp⟩
  | cons first rest ih =>
    rw [List.nodup_cons] at hnodup
    have hfirst := hold first List.mem_cons_self
    rw [List.filterMap_cons]
    cases hevent : change first (old first) (new first) with
    | none =>
      have hsame := (hchange.complete first (old first) (new first)).mp hevent
      rcases ih hnodup.2 (fun name hname => hold name (List.mem_cons_of_mem _ hname)) with
        ⟨hsound, hreplay⟩
      refine ⟨hsound, fun c name => ?_⟩
      dsimp only
      rw [hreplay]
      by_cases hc : c = component
      · by_cases hname : name = first
        · rw [hname, hc, if_neg (fun h => hnodup.1 h.2), if_pos ⟨rfl, List.mem_cons_self⟩, hfirst,
            hsame]
        · simp [hc, hname]
      · simp [hc]
    | some e =>
      have htells := hchange.tells first (old first) (new first) e hevent
      have hne : old first ≠ new first := by
        intro heq
        rw [(hchange.complete first (old first) (new first)).mpr heq] at hevent
        cases hevent
      have happly := applyEvent_tells htells r
      have hrest : ∀ name ∈ rest, applyEvent r e component name = old name := by
        intro name hname
        have hother : name ≠ first := fun heq => hnodup.1 (heq ▸ hname)
        rw [happly, Function.update_self, Function.update_of_ne hother]
        exact hold name (List.mem_cons_of_mem _ hname)
      rcases ih hnodup.2 hrest with ⟨hsound, hreplay⟩
      refine ⟨⟨?_, ?_, hsound⟩, fun c name => ?_⟩
      · rw [htells.component, htells.name, htells.before, hfirst]
      · rw [htells.before, htells.after]
        exact hne
      · dsimp only
        rw [List.foldl_cons, hreplay, happly]
        by_cases hc : c = component
        · rw [hc, Function.update_self]
          by_cases hname : name = first
          · rw [hname, if_neg (fun h => hnodup.1 h.2), if_pos ⟨rfl, List.mem_cons_self⟩,
              Function.update_self]
          · rw [Function.update_of_ne hname]
            simp [hname]
        · rw [Function.update_of_ne hc]
          simp [hc]

theorem changes_replay {i : Nat} {component : Component}
    {change : Str → Option Str → Option Str → Option DriftEvent}
    (hchange : Change i component change) {prev : List (Str × Str)} (cur : List (Str × Str))
    {r : Replayed} (hprev : r component = getTool prev) :
    Sound r (changes change prev cur) ∧
      (changes change prev cur).foldl applyEvent r = Function.update r component (getTool cur) := by
  have h := names_replay hchange (getTool prev) (getTool cur) (unionKeys_nodup prev cur) (r := r)
    (fun name _ => congrFun hprev name)
  refine ⟨h.1, funext fun c => funext fun name => ?_⟩
  have happlied := h.2 c name
  rw [changes, happlied]
  by_cases hc : c = component
  · rw [hc, Function.update_self]
    by_cases hname : name ∈ unionKeys prev cur
    · rw [if_pos ⟨rfl, hname⟩]
    · rw [if_neg (fun h => hname h.2), hprev]
      rw [mem_unionKeys, not_or] at hname
      rw [getTool_eq_none hname.1, getTool_eq_none hname.2]
  · rw [if_neg (fun h => hc h.1), Function.update_of_ne hc]

/-- The events of a snapshot lead from the maps of the one before to its own. -/
theorem eventsAt_replay (i : Nat) (prev cur : SnapshotState) :
    Sound prev.maps (eventsAt i prev cur) ∧
      (eventsAt i prev cur).foldl applyEvent prev.maps = cur.maps := by
  have tools_before : prev.maps .tool = getTool prev.tools := rfl
  have containers_before : Function.update prev.maps .tool (getTool cur.tools) .container =
    getTool prev.containers := rfl
  have htools := changes_replay (toolChange_change i) cur.tools tools_before
  have hcontainers := changes_replay (containerChange_change i) cur.containers containers_before
  rw [eventsAt, List.foldl_append, htools.2]
  refine ⟨htools.1.append ?_, ?_⟩
  · rw [htools.2]
    exact hcontainers.1
  · rw [hcontainers.2]
    funext c
    cases c with
    | tool => rfl
    | container => rfl

/-! ## All snapshots -/

theorem atIndex_changes {i : Nat} {component : Component}
    {change : Str → Option Str → Option Str → Option DriftEvent}
    (hchange : Change i component change) {prev cur : List (Str × Str)} :
    ∀ e ∈ changes change prev cur, e.atIndex = i := by
  intro e he
  rcases List.mem_filterMap.mp he with ⟨name, _, hevent⟩
  exact (hchange.tells _ _ _ e hevent).at_index

theorem atIndex_eventsAt {i : Nat} {prev cur : SnapshotState} :
    ∀ e ∈ eventsAt i prev cur, e.atIndex = i := by
  rw [eventsAt, List.forall_mem_append]
  exact ⟨atIndex_changes (toolChange_change i), atIndex_changes (containerChange_change i)⟩

theorem atIndex_eventsFrom {i : Nat} {prev : SnapshotState} {states : List SnapshotState} :
    ∀ e ∈ eventsFrom i prev states, i ≤ e.atIndex := by
  induction states generalizing i prev with
  | nil => exact fun e he => absurd he List.not_mem_nil
  | cons cur rest ih =>
    rw [eventsFrom, List.forall_mem_append]
    refine ⟨fun e he => (atIndex_eventsAt e he).ge, fun e he => ?_⟩
    exact (Nat.le_succ i).trans (ih e he)

/-- The events from an index on are sound, and those up to a snapshot lead to it. -/
theorem eventsFrom_replay (i : Nat) (prev : SnapshotState) (states : List SnapshotState) :
    Sound prev.maps (eventsFrom i prev states) ∧ ∀ n state, states[n]? = some state →
      ((eventsFrom i prev states).filter fun e => e.atIndex ≤ i + n).foldl applyEvent prev.maps =
        state.maps := by
  induction states generalizing i prev with
  | nil => exact ⟨trivial, fun n state h => by simp at h⟩
  | cons cur rest ih =>
    have hstep := eventsAt_replay i prev cur
    rcases ih (i + 1) cur with ⟨hsound, hreplay⟩
    rw [eventsFrom]
    refine ⟨hstep.1.append (by rw [hstep.2]; exact hsound), fun n state hstate => ?_⟩
    have hall : (eventsAt i prev cur).filter (fun e => decide (e.atIndex ≤ i + n)) =
        eventsAt i prev cur := by
      rw [List.filter_eq_self]
      intro e he
      rw [atIndex_eventsAt e he, decide_eq_true_iff]
      omega
    rw [List.filter_append, hall, List.foldl_append, hstep.2]
    cases n with
    | zero =>
      have hnone : (eventsFrom (i + 1) cur rest).filter (fun e => decide (e.atIndex ≤ i + 0)) = [] := by
        rw [List.filter_eq_nil_iff]
        intro e he
        have hle := atIndex_eventsFrom e he
        rw [decide_eq_true_iff]
        omega
      rw [hnone]
      rw [List.getElem?_cons_zero, Option.some.injEq] at hstate
      rw [← hstate]
      rfl
    | succ n =>
      rw [List.getElem?_cons_succ] at hstate
      have hshift : i + (n + 1) = i + 1 + n := by omega
      rw [hshift]
      exact hreplay n state hstate

theorem mapM_getElem? {α β : Type} {f : α → Except Exc β} {l : List α} {ys : List β}
    (h : l.mapM f = .ok ys) {n : Nat} {x : α} (hx : l[n]? = some x) :
    ∃ y, ys[n]? = some y ∧ f x = .ok y := by
  induction l generalizing ys n with
  | nil => simp at hx
  | cons first rest ih =>
    rw [List.mapM_cons, bind_eq_ok] at h
    rcases h with ⟨y, hy, h⟩
    rw [bind_eq_ok] at h
    rcases h with ⟨behind, hbehind, h⟩
    rw [pure_eq_ok] at h
    rw [← h]
    cases n with
    | zero =>
      rw [List.getElem?_cons_zero, Option.some.injEq] at hx
      exact ⟨y, rfl, by rw [← hx, hy]⟩
    | succ n => exact ih hbehind hx

theorem mapM_ok {α β : Type} {f : α → Except Exc β} {l : List α}
    (h : ∀ x ∈ l, ∃ y, f x = .ok y) : ∃ ys, l.mapM f = .ok ys := by
  induction l with
  | nil => exact ⟨[], rfl⟩
  | cons first rest ih =>
    rcases h first List.mem_cons_self with ⟨y, hy⟩
    rcases ih (fun x hx => h x (List.mem_cons_of_mem _ hx)) with ⟨ys, hys⟩
    refine ⟨y :: ys, ?_⟩
    rw [List.mapM_cons, hy, hys]
    rfl

theorem Sound.split {r : Replayed} {events done rest : List DriftEvent} {e : DriftEvent}
    (h : Sound r events) (hevents : events = done ++ e :: rest) :
    done.foldl applyEvent r e.component e.name = e.before ∧ e.before ≠ e.after := by
  induction done generalizing r events with
  | nil =>
    rw [hevents] at h
    exact ⟨h.1, h.2.1⟩
  | cons first done ih =>
    rw [hevents] at h
    exact ih h.2.2 rfl

/-! ## Snapshots that were saved -/

theorem toolMap_items (s : Snapshot) : ∃ tools, toolMap rt s.items = .ok tools := by
  have hfield : field s.items "tools" = .arr (s.tools.map ToolInstallation.modelDump) := rfl
  have hmap : ∀ out (t : ToolInstallation), ∃ after, mapTool rt out t.modelDump = .ok after := by
    intro out t
    rw [ToolInstallation.modelDump, mapTool]
    split_ifs
    · exact ⟨_, rfl⟩
    · have hname : field [("name", .str t.name), ("version", Mcp.optStr t.version),
          ("exe_path", Mcp.optStr t.exePath), ("install_source", Mcp.optStr t.installSource),
          ("is_active", .bool t.isActive), ("precedence", optInt t.precedence)] "name" =
            .str t.name := rfl
      have hversion : field [("name", .str t.name), ("version", Mcp.optStr t.version),
          ("exe_path", Mcp.optStr t.exePath), ("install_source", Mcp.optStr t.installSource),
          ("is_active", .bool t.isActive), ("precedence", optInt t.precedence)] "version" =
            Mcp.optStr t.version := rfl
      rw [hname, hversion]
      cases t.version with
      | none => exact ⟨_, rfl⟩
      | some version =>
        cases version with
        | nil => exact ⟨_, rfl⟩
        | cons c rest => exact ⟨_, rfl⟩
  have hfold : ∀ (tools : List ToolInstallation) out,
      ∃ after, (tools.map ToolInstallation.modelDump).foldlM (mapTool rt) out = .ok after := by
    intro tools
    induction tools with
    | nil => exact fun out => ⟨out, rfl⟩
    | cons t rest ih =>
      intro out
      rcases hmap out t with ⟨next, hnext⟩
      rcases ih next with ⟨after, hafter⟩
      refine ⟨after, ?_⟩
      rw [List.map_cons, List.foldlM_cons, hnext]
      exact hafter
  rw [toolMap, hfield, Json.orElse]
  split_ifs
  · exact hfold s.tools []
  · exact ⟨[], rfl⟩

theorem containerState_items (s : Snapshot) : ∃ state, containerState rt s.items = .ok state := by
  have htext : ∀ value : Option Str, ∃ text, ((Mcp.optStr value).orElse (.str "-")).toStr rt = .ok text := by
    intro value
    cases value with
    | none => exact ⟨_, rfl⟩
    | some text =>
      cases text with
      | nil => exact ⟨_, rfl⟩
      | cons c rest => exact ⟨_, rfl⟩
  have hfield : field s.items "containers" = optDump ContainerState.modelDump s.containers := rfl
  rw [containerState, hfield]
  cases s.containers with
  | none => exact ⟨_, rfl⟩
  | some c =>
    rcases htext c.dockerCliVersion with ⟨cli, hcli⟩
    rcases htext c.podmanVersion with ⟨podman, hpodman⟩
    refine ⟨[("docker-daemon", if c.dockerDaemonOk then "ok" else "down"), ("docker-cli", cli),
      ("podman", podman)], ?_⟩
    show (do
      let cli ← ((Mcp.optStr c.dockerCliVersion).orElse (.str "-")).toStr rt
      let podman ← ((Mcp.optStr c.podmanVersion).orElse (.str "-")).toStr rt
      return [(lit "docker-daemon", if (Json.bool c.dockerDaemonOk).truthy then lit "ok" else lit "down"),
        (lit "docker-cli", cli), (lit "podman", podman)] : Except Exc (List (Str × Str))) = _
    rw [hcli, hpodman]
    rfl

theorem snapshotState_items (s : Snapshot) : ∃ state, snapshotState rt s.items = .ok state := by
  rcases toolMap_items rt s with ⟨tools, htools⟩
  rcases containerState_items rt s with ⟨containers, hcontainers⟩
  rw [snapshotState, htools, hcontainers]
  exact ⟨_, rfl⟩

/-- The timeline of snapshots that were saved. -/
theorem buildTimeline_items (snapshots : List Snapshot) :
    ∃ timeline, buildTimeline rt (snapshots.map Snapshot.items) = .ok timeline := by
  have hids : ∃ ids, (snapshots.map Snapshot.items).zipIdx.mapM (snapshotId rt) = .ok ids := by
    apply mapM_ok
    intro item hitem
    have hmem := List.fst_mem_of_mem_zipIdx hitem
    rcases List.mem_map.mp hmem with ⟨s, _, hs⟩
    rw [snapshotId, ← hs]
    exact ⟨s.createdAt, rfl⟩
  have hstates : ∃ states, (snapshots.map Snapshot.items).mapM (snapshotState rt) = .ok states := by
    apply mapM_ok
    intro item hitem
    rcases List.mem_map.mp hitem with ⟨s, _, rfl⟩
    exact snapshotState_items rt s
  rcases hids with ⟨ids, hids⟩
  rcases hstates with ⟨states, hstates⟩
  rw [buildTimeline, hids, hstates]
  exact ⟨_, rfl⟩

/-! ## Replay of a timeline -/

/-- A timeline tells the whole history of some snapshots. -/
structure Replays (rt : Runtime) (snapshots : List (List (Str × Json))) (timeline : DriftTimeline) :
    Prop where
  reaches : ∀ n snapshot, snapshots[n]? = some snapshot → ∃ state,
    snapshotState rt snapshot = .ok state ∧
      replay (timeline.events.filter fun e => e.atIndex ≤ n) = state.maps
  starts : ∀ done e rest, timeline.events = done ++ e :: rest →
    replay done e.component e.name = e.before
  changes : ∀ e ∈ timeline.events, e.before ≠ e.after

/-- A timeline tells the whole history of its snapshots, and there is one for all snapshots
that were saved. -/
theorem timeline_replays (rt : Runtime) (snapshots : List (List (Str × Json))) :
    (∀ timeline, buildTimeline rt snapshots = .ok timeline → Replays rt snapshots timeline) ∧
      ∀ saved : List Snapshot, snapshots = saved.map Snapshot.items →
        ∃ timeline, buildTimeline rt snapshots = .ok timeline := by
  constructor
  · intro timeline h
    rw [buildTimeline, bind_eq_ok] at h
    rcases h with ⟨ids, _, h⟩
    rw [bind_eq_ok] at h
    rcases h with ⟨states, hstates, h⟩
    rw [pure_eq_ok] at h
    have hempty : (SnapshotState.maps ⟨[], []⟩) = fun _ _ => none := by
      funext c name
      cases c with
      | tool => rfl
      | container => rfl
    have hreplay := eventsFrom_replay 0 ⟨[], []⟩ states
    rw [hempty] at hreplay
    rw [← h]
    refine ⟨fun n snapshot hsnapshot => ?_, fun done e rest hevents => ?_, fun e he => ?_⟩
    · rcases mapM_getElem? hstates hsnapshot with ⟨state, hstate, hok⟩
      refine ⟨state, hok, ?_⟩
      have hreached := hreplay.2 n state hstate
      rw [Nat.zero_add] at hreached
      exact hreached
    · exact (hreplay.1.split hevents).1
    · rcases List.append_of_mem he with ⟨done, rest, hevents⟩
      exact (hreplay.1.split hevents).2
  · intro saved hsaved
    rw [hsaved]
    exact buildTimeline_items rt saved

/-- Two snapshots of a machine, before and after an upgrade of Python. -/
def upgrade : List Snapshot :=
  [snapshotFromReport "2026-01-01T00:00:00Z" (Diff.Sample.reportOf (Diff.Sample.pythons "3.12.4")),
    snapshotFromReport "2026-01-02T00:00:00Z" (Diff.Sample.reportOf (Diff.Sample.pythons "3.13.0"))]

/-- The timeline of an upgrade. -/
theorem timeline_replays_upgrade : ∃ timeline,
    buildTimeline .standard (upgrade.map Snapshot.items) = .ok timeline ∧
      Replays .standard (upgrade.map Snapshot.items) timeline := by
  rcases (timeline_replays .standard (upgrade.map Snapshot.items)).2 upgrade rfl with ⟨timeline, h⟩
  exact ⟨timeline, h, (timeline_replays .standard _).1 timeline h⟩

end DevRepro.Drift
