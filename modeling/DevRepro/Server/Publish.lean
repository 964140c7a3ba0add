import DevRepro.Server.Enroll

/-!
# The publication endpoint

`publish_snapshot` of `server/api.py` and `store_snapshot` of `server/db.py`.
The endpoint looks the machine up by its key alone and takes the first row,
while keys are unique within one organization only.

`publications_land` says that a publication lands on the machine of its sender
when no earlier row has the key of that machine, and `misplaced_publication`
that it does not otherwise.
-/

namespace DevRepro.Server

open DevRepro.Python DevRepro.Lib DevRepro.Lib.Machine

/-! ## The endpoint -/

variable (rt : Runtime) (sha256 : Str → Str)

/-- The id that `store_snapshot` files a snapshot under. -/
def filedId (snap : List (Str × Json)) : Except Exc Str :=
  (((dictGet? snap "snapshot_id").getD .null).orElse
    (((dictGet? snap "id").getD .null).orElse (.str []))).toStr rt

/-- The block of `store_snapshot`.  The violated constraint is the only
`IntegrityError`, which is caught. -/
def insertSnapshot (t : Table SnapshotRow) (machineId : Nat) (snapshotId checksum : Str)
    (snap : List (Str × Json)) (now : DateTime) : Except Exc (Table SnapshotRow × Bool) := do
  let payload ← dumps rt .plain (.obj snap)
  bindText snapshotId
  if ∃ row ∈ t.rows, row.machineId = machineId ∧ row.snapshotId = snapshotId then return (t, false)
  else return (t.insert fun id =>
    ⟨id, machineId, snapshotId, payload, checksum, now.isoformat⟩, true)

/-- The text and the id of a snapshot that is stored. -/
def snapshotParts (snap : List (Str × Json)) : Except Exc (Str × Str) := do
  let raw ← dumps rt .sorted (.obj snap)
  let snapshotId ← filedId rt snap
  if snapshotId = [] then .error ⟨.valueError, "snapshot payload missing snapshot_id"⟩
  else return (raw, snapshotId)

/-- `store_snapshot`. -/
def storeSnapshot (t : Table SnapshotRow) (machineId : Nat) (snap : List (Str × Json))
    (now : DateTime) : Table SnapshotRow × Except Exc Bool :=
  match snapshotParts rt snap with
  | .error exc => (t, .error exc)
  | .ok (raw, snapshotId) =>
    tx t (insertSnapshot rt t machineId snapshotId (sha256 raw) snap now)

/-- Whether a webhook listens to an event. -/
def WebhookRow.hears (event : Str) (hook : WebhookRow) : Bool :=
  hook.events.any fun
    | .str s => s = event || s = lit "*"
    | _ => false

/-- `webhooks_for`. -/
def webhooksFor (t : Table WebhookRow) (orgId : Int) (event : Str) : List WebhookRow :=
  t.rows.filter fun hook => hook.orgId = orgId ∧ hook.active = true ∧ hook.hears event = true

/-- Webhooks that fire one after the other, until a delivery raises. -/
def fireWebhooks (deliver : WebhookRow → Option Exc) :
    List WebhookRow → List WebhookRow × Except Exc Unit
  | [] => ([], .ok ())
  | hook :: rest =>
    match deliver hook with
    | some exc => ([hook], .error exc)
    | none =>
      let run := fireWebhooks deliver rest
      (hook :: run.1, run.2)

/-- A request that ran: what it left, the webhooks that fired, and its answer. -/
structure PublishRun where
  db : ServerDB
  fired : List WebhookRow
  answer : Except Exc Response

/-- The key that a body presents. -/
def publishKey (fields : List (Str × Json)) : Except Exc Str := do
  let text ← ((dictGet? fields "machine_key").getD (.str [])).toStr rt
  return strip text

/-- The privacy state of a snapshot. -/
def privacyState (snap : List (Str × Json)) : Except Exc Str :=
  (((dictGet? snap "privacy_state").getD .null).orElse
    (((dictGet? snap "privacy").getD .null).orElse (.str "sanitized"))).toStr rt

variable (deliver : WebhookRow → Option Exc)

/-- The part of `publish_snapshot` behind the storage. -/
def announce (db : ServerDB) (row : MachineRow) (machineKey : Str) (snap : List (Str × Json))
    (stored : Bool) (now : DateTime) : PublishRun :=
  match ((dictGet? snap "snapshot_id").getD .null).toStr rt with
  | .error exc => ⟨db, [], .error exc⟩
  | .ok target =>
    match audit rt db row.orgId (lit "machine:" ++ machineKey) "snapshot.publish" target
        [("stored", .bool stored)] now with
    | (db, .error exc) => ⟨db, [], .error exc⟩
    | (db, .ok ()) =>
      let run := fireWebhooks deliver (webhooksFor db.webhooks row.orgId "snapshot.published")
      ⟨db, run.1, run.2.map fun _ => jsonify (.obj [("stored", .bool stored)])⟩

/-- The part of `publish_snapshot` behind the lookup of the machine. -/
def publishTo (db : ServerDB) (row : MachineRow) (machineKey : Str) (snapshot : Option Json)
    (now : DateTime) : PublishRun :=
  match snapshot with
  | some (.obj snap) =>
    match privacyState rt snap with
    | .error exc => ⟨db, [], .error exc⟩
    | .ok privacy =>
      if privacy ≠ "sanitized" then
        ⟨db, [], .ok (err 422 "only sanitized snapshots may be published to the fleet")⟩
      else
        match storeSnapshot rt sha256 db.snapshots row.id snap now with
        | (snapshots, .error exc) => ⟨{ db with snapshots := snapshots }, [], .error exc⟩
        | (snapshots, .ok stored) =>
          announce rt deliver { db with snapshots := snapshots } row machineKey snap stored now
  | _ => ⟨db, [], .ok (err 400 "snapshot object required")⟩

/-- The row that a machine is looked up by. -/
def machineWith (fleet : Fleet) (machineKey : Str) : Option MachineRow :=
  fleet.machines.rows.find? fun row => row.machineKey = machineKey

/-- `publish_snapshot`, at the time `now`. -/
def publishSnapshot (db : ServerDB) (body : Json) (now : DateTime) : PublishRun :=
  match body with
  | .obj fields =>
    match publishKey rt fields with
    | .error exc => ⟨db, [], .error exc⟩
    | .ok machineKey =>
      if machineKey = [] then ⟨db, [], .ok (err 400 "machine_key required")⟩
      else
        match bindText machineKey with
        | .error exc => ⟨db, [], .error exc⟩
        | .ok () =>
          match machineWith db.fleet machineKey with
          | none => ⟨db, [], .ok (err 403 "unknown machine; enroll first")⟩
          | some row =>
            publishTo rt sha256 deliver db row machineKey (dictGet? fields "snapshot") now
  | _ => ⟨db, [], .ok (err 400 "JSON body required")⟩

/-! ## Where a publication lands -/

/-- The machine key of a request. -/
def Presents (body : Json) (machineKey : Str) : Prop :=
  ∃ fields, body = .obj fields ∧ publishKey rt fields = .ok machineKey

/-- The id of the snapshot of a request. -/
def Files (body : Json) (snapshotId : Str) : Prop :=
  ∃ fields snap, body = .obj fields ∧ dictGet? fields "snapshot" = some (.obj snap) ∧
    filedId rt snap = .ok snapshotId

/-- Rows that a step adds to a list. -/
def Adds {α : Type} (P : α → Prop) (before after : List α) : Prop :=
  ∃ new, after = before ++ new ∧ ∀ x ∈ new, P x

/-- A publication that lands on the machine `m`. -/
structure Lands (m : MachineRow) (before : ServerDB) (body : Json) (run : PublishRun) : Prop where
  snapshots : Adds (fun s : SnapshotRow => s.machineId = m.id) before.snapshots.rows
    run.db.snapshots.rows
  stored : Answered run.answer → ∃ s ∈ run.db.snapshots.rows, s.machineId = m.id ∧
    Files rt body s.snapshotId
  events : Adds (fun event : AuditRow => event.orgId = m.orgId) before.auditEvents.rows
    run.db.auditEvents.rows
  logged : Answered run.answer → run.db.auditEvents.rows ≠ before.auditEvents.rows
  hooks : ∀ hook ∈ run.fired, hook.orgId = m.orgId

/-- No row before the one of a machine has its key. -/
def FirstWithKey (fleet : Fleet) (m : MachineRow) : Prop :=
  ∃ earlier later, fleet.machines.rows = earlier ++ m :: later ∧
    ∀ other ∈ earlier, other.machineKey ≠ m.machineKey

variable {rt sha256 deliver}

theorem machineWith_first {fleet : Fleet} {m : MachineRow} (h : FirstWithKey fleet m) :
    machineWith fleet m.machineKey = some m := by
  rcases h with ⟨earlier, later, hrows, hearlier⟩
  have hnone : (earlier.find? fun row => decide (row.machineKey = m.machineKey)) = none := by
    rw [List.find?_eq_none]
    intro other hother hkey
    exact hearlier other hother (of_decide_eq_true hkey)
  rw [machineWith, hrows, List.find?_append, hnone, Option.none_or]
  exact List.find?_cons_of_pos (decide_eq_true rfl)

/-- A machine that is looked up is the first one with its key. -/
theorem first_of_machineWith {fleet : Fleet} {machineKey : Str} {row : MachineRow}
    (h : machineWith fleet machineKey = some row) :
    row.machineKey = machineKey ∧ FirstWithKey fleet row := by
  rw [machineWith, List.find?_eq_some_iff_append] at h
  rcases h with ⟨hkey, earlier, later, hrows, hearlier⟩
  have hsame : row.machineKey = machineKey := of_decide_eq_true hkey
  refine ⟨hsame, earlier, later, hrows, fun other hother heq => ?_⟩
  have hnot := hearlier other hother
  rw [heq, hsame] at hnot
  simp at hnot

theorem mem_of_first {fleet : Fleet} {m : MachineRow} (h : FirstWithKey fleet m) :
    m ∈ fleet.machines.rows := by
  rcases h with ⟨earlier, later, hrows, _⟩
  rw [hrows]
  exact List.mem_append_right _ List.mem_cons_self

/-! ## The steps of a publication -/

theorem adds_none {α : Type} {P : α → Prop} (l : List α) : Adds P l l :=
  ⟨[], (List.append_nil l).symm, fun _ hx => absurd hx List.not_mem_nil⟩

theorem adds_one {α : Type} {P : α → Prop} (l : List α) {x : α} (h : P x) :
    Adds P l (l ++ [x]) :=
  ⟨[x], rfl, fun y hy => by rw [List.mem_singleton.mp hy]; exact h⟩

theorem insertSnapshot_adds {t after : Table SnapshotRow} {machineId : Nat}
    {snapshotId checksum : Str} {snap : List (Str × Json)} {now : DateTime} {stored : Bool}
    (h : insertSnapshot rt t machineId snapshotId checksum snap now = .ok (after, stored)) :
    Adds (fun s : SnapshotRow => s.machineId = machineId) t.rows after.rows ∧
      ∃ s ∈ after.rows, s.machineId = machineId ∧ s.snapshotId = snapshotId := by
  rw [insertSnapshot, bind_eq_ok] at h
  rcases h with ⟨payload, _, h⟩
  rw [bindText_then] at h
  by_cases hdup : ∃ row ∈ t.rows, row.machineId = machineId ∧ row.snapshotId = snapshotId
  · rw [if_pos hdup, pure_eq_ok, Prod.mk.injEq] at h
    rw [← h.2.1]
    exact ⟨adds_none _, hdup⟩
  · rw [if_neg hdup, pure_eq_ok, Prod.mk.injEq] at h
    rw [← h.2.1]
    exact ⟨adds_one _ rfl, _, List.mem_append_right _ List.mem_cons_self, rfl, rfl⟩

theorem storeSnapshot_adds (t : Table SnapshotRow) (machineId : Nat) (snap : List (Str × Json))
    (now : DateTime) :
    Adds (fun s : SnapshotRow => s.machineId = machineId) t.rows
      (storeSnapshot rt sha256 t machineId snap now).1.rows := by
  rw [storeSnapshot]
  cases hparts : snapshotParts rt snap with
  | error exc => exact adds_none _
  | ok parts =>
    cases hblock : insertSnapshot rt t machineId parts.2 (sha256 parts.1) snap now with
    | error exc =>
      simp only [hblock, tx]
      exact adds_none _
    | ok result =>
      simp only [hblock, tx]
      exact (insertSnapshot_adds hblock).1

/-- A snapshot that was stored, now or before, is a row of its machine. -/
theorem storeSnapshot_ok {t after : Table SnapshotRow} {machineId : Nat}
    {snap : List (Str × Json)} {now : DateTime} {stored : Bool}
    (h : storeSnapshot rt sha256 t machineId snap now = (after, .ok stored)) :
    ∃ s ∈ after.rows, s.machineId = machineId ∧ filedId rt snap = .ok s.snapshotId := by
  rw [storeSnapshot] at h
  cases hparts : snapshotParts rt snap with
  | error exc =>
    rw [hparts] at h
    cases h
  | ok parts =>
    rw [hparts] at h
    cases hblock : insertSnapshot rt t machineId parts.2 (sha256 parts.1) snap now with
    | error exc =>
      simp only [hblock, tx] at h
      cases h
    | ok result =>
      simp only [hblock, tx] at h
      cases h
      rcases (insertSnapshot_adds hblock).2 with ⟨s, hs, hmachine, hid⟩
      refine ⟨s, hs, hmachine, ?_⟩
      rw [snapshotParts, bind_eq_ok] at hparts
      rcases hparts with ⟨raw, _, hparts⟩
      rw [bind_eq_ok] at hparts
      rcases hparts with ⟨filed, hfiled, hparts⟩
      rw [refused_unless] at hparts
      rw [hid, hfiled, ← hparts.2]

theorem audit_adds (db : ServerDB) (orgId : Int) (actor action target : Str)
    (detail : List (Str × Json)) (now : DateTime) :
    Adds (fun event : AuditRow => event.orgId = orgId) db.auditEvents.rows
      (audit rt db orgId actor action target detail now).1.auditEvents.rows := by
  rw [audit]
  cases hblock : insertAudit rt db.auditEvents orgId actor action target detail now with
  | error exc => exact adds_none _
  | ok result =>
    rcases result with ⟨events, ⟨⟩⟩
    rcases insertAudit_eq_ok.mp hblock with ⟨text, _, _, _, _, _, hafter⟩
    simp only [tx]
    rw [← hafter]
    exact adds_one _ rfl

theorem audit_logged {db after : ServerDB} {orgId : Int} {actor action target : Str}
    {detail : List (Str × Json)} {now : DateTime}
    (h : audit rt db orgId actor action target detail now = (after, .ok ())) :
    ∃ event, after.auditEvents.rows = db.auditEvents.rows ++ [event] ∧ event.orgId = orgId := by
  rw [audit] at h
  cases hblock : insertAudit rt db.auditEvents orgId actor action target detail now with
  | error exc =>
    simp only [hblock, tx] at h
    cases h
  | ok result =>
    rcases result with ⟨events, ⟨⟩⟩
    rcases insertAudit_eq_ok.mp hblock with ⟨text, _, _, _, _, _, hafter⟩
    simp only [hblock, tx] at h
    cases h
    rw [← hafter]
    exact ⟨_, rfl, rfl⟩

theorem fireWebhooks_subset (hooks : List WebhookRow) :
    (fireWebhooks deliver hooks).1 ⊆ hooks := by
  induction hooks with
  | nil => exact List.Subset.refl _
  | cons hook rest ih =>
    rw [fireWebhooks]
    cases deliver hook with
    | some exc => exact List.cons_subset_cons hook (List.nil_subset rest)
    | none => exact List.cons_subset_cons hook ih

/-! ## Publications on one row -/

/-- What `announce` does, for the row of a machine. -/
structure Announced (row : MachineRow) (db : ServerDB) (run : PublishRun) : Prop where
  fleet : run.db.fleet = db.fleet
  snapshots : run.db.snapshots = db.snapshots
  events : Adds (fun event : AuditRow => event.orgId = row.orgId) db.auditEvents.rows
    run.db.auditEvents.rows
  logged : Answered run.answer → run.db.auditEvents.rows ≠ db.auditEvents.rows
  hooks : ∀ hook ∈ run.fired, hook.orgId = row.orgId

theorem announce_announced (db : ServerDB) (row : MachineRow) (machineKey : Str)
    (snap : List (Str × Json)) (stored : Bool) (now : DateTime) :
    Announced row db (announce rt deliver db row machineKey snap stored now) := by
  rw [announce]
  cases htarget : ((dictGet? snap "snapshot_id").getD .null).toStr rt with
  | error exc =>
    exact ⟨rfl, rfl, adds_none _, fun h => absurd h (not_answered_error exc),
      fun hook hhook => absurd hhook List.not_mem_nil⟩
  | ok target =>
    have hadds := @audit_adds rt db row.orgId (lit "machine:" ++ machineKey) "snapshot.publish"
      target [("stored", .bool stored)] now
    have hkeep := @audit_db rt db row.orgId (lit "machine:" ++ machineKey) "snapshot.publish"
      target [("stored", .bool stored)] now
    rcases haudit : audit rt db row.orgId (lit "machine:" ++ machineKey) "snapshot.publish"
      target [("stored", .bool stored)] now with ⟨after, result⟩
    rw [haudit] at hadds hkeep
    cases result with
    | error exc =>
      simp only [haudit]
      exact ⟨hkeep.1, hkeep.2, hadds, fun h => absurd h (not_answered_error exc),
        fun hook hhook => absurd hhook List.not_mem_nil⟩
    | ok _ =>
      simp only [haudit]
      rcases audit_logged haudit with ⟨event, hrows, _⟩
      refine ⟨hkeep.1, hkeep.2, hadds, fun _ => ?_, fun hook hhook => ?_⟩
      · rw [hrows]
        simp
      · have hin := fireWebhooks_subset _ hhook
        rw [webhooksFor, List.mem_filter, decide_eq_true_iff] at hin
        exact hin.2.1

/-- A request that writes nothing. -/
structure Quiet (db : ServerDB) (run : PublishRun) : Prop where
  db : run.db = db
  fired : run.fired = []
  answer : ¬Answered run.answer

theorem quiet_error (db : ServerDB) (exc : Exc) : Quiet db ⟨db, [], .error exc⟩ :=
  ⟨rfl, rfl, not_answered_error exc⟩

theorem quiet_err (db : ServerDB) {status : Nat} {message : Str} (h : status ≠ 200) :
    Quiet db ⟨db, [], .ok (err status message)⟩ :=
  ⟨rfl, rfl, not_answered_err h⟩

/-- A request that writes nothing lands anywhere. -/
theorem Quiet.lands {db : ServerDB} {run : PublishRun} (h : Quiet db run) (m : MachineRow)
    (body : Json) : Lands rt m db body run := by
  constructor
  · rw [h.db]
    exact adds_none _
  · exact fun hanswer => absurd hanswer h.answer
  · rw [h.db]
    exact adds_none _
  · exact fun hanswer => absurd hanswer h.answer
  · rw [h.fired]
    exact fun hook hhook => absurd hhook List.not_mem_nil

theorem publishTo_lands (db : ServerDB) (row : MachineRow) (machineKey : Str)
    (fields : List (Str × Json)) (now : DateTime) :
    (publishTo rt sha256 deliver db row machineKey (dictGet? fields "snapshot") now).db.fleet =
        db.fleet ∧
      Lands rt row db (.obj fields)
        (publishTo rt sha256 deliver db row machineKey (dictGet? fields "snapshot") now) := by
  have hquiet : ∀ run, Quiet db run → run.db.fleet = db.fleet ∧ Lands rt row db (.obj fields) run := by
    intro run h
    refine ⟨?_, h.lands row _⟩
    rw [h.db]
  cases hsnapshot : dictGet? fields "snapshot" with
  | none => exact hquiet _ (quiet_err db (by decide))
  | some snapshot =>
    cases snapshot with
    | obj snap =>
      rw [publishTo]
      cases hprivacy : privacyState rt snap with
      | error exc => exact hquiet _ (quiet_error db exc)
      | ok privacy =>
        by_cases hstate : privacy ≠ lit "sanitized"
        · dsimp only
          rw [if_pos hstate]
          exact hquiet _ (quiet_err db (by decide))
        · dsimp only
          rw [if_neg hstate]
          have hadds := @storeSnapshot_adds rt sha256 db.snapshots row.id snap now
          rcases hstore : storeSnapshot rt sha256 db.snapshots row.id snap now with ⟨after, result⟩
          rw [hstore] at hadds
          cases result with
          | error exc =>
            refine ⟨rfl, hadds, fun h => absurd h (not_answered_error exc), adds_none _,
              fun h => absurd h (not_answered_error exc), fun hook hhook => ?_⟩
            exact absurd hhook List.not_mem_nil
          | ok stored =>
            have hannounced := @announce_announced rt deliver { db with snapshots := after } row
              machineKey snap stored now
            refine ⟨hannounced.fleet, ?_, fun _ => ?_, hannounced.events, hannounced.logged,
              hannounced.hooks⟩
            · rw [hannounced.snapshots]
              exact hadds
            · rw [hannounced.snapshots]
              rcases storeSnapshot_ok hstore with ⟨s, hs, hmachine, hid⟩
              exact ⟨s, hs, hmachine, fields, snap, rfl, hsnapshot, hid⟩
    | _ => exact hquiet _ (@quiet_err db 400 "snapshot object required" (by decide))

/-- A publication writes nothing, or lands on the first row with its key. -/
theorem publish_cases (db : ServerDB) (body : Json) (now : DateTime) :
    (publishSnapshot rt sha256 deliver db body now).db.fleet = db.fleet ∧
      (Quiet db (publishSnapshot rt sha256 deliver db body now) ∨
        ∃ machineKey row, Presents rt body machineKey ∧ machineWith db.fleet machineKey = some row ∧
          Lands rt row db body (publishSnapshot rt sha256 deliver db body now)) := by
  have hquiet : ∀ run, Quiet db run → run.db.fleet = db.fleet ∧
      (Quiet db run ∨ ∃ machineKey row, Presents rt body machineKey ∧
        machineWith db.fleet machineKey = some row ∧ Lands rt row db body run) := by
    intro run h
    refine ⟨?_, Or.inl h⟩
    rw [h.db]
  cases body with
  | obj fields =>
    rw [publishSnapshot]
    cases hkey : publishKey rt fields with
    | error exc => exact hquiet _ (quiet_error db exc)
    | ok machineKey =>
      by_cases hempty : machineKey = []
      · dsimp only
        rw [if_pos hempty]
        exact hquiet _ (quiet_err db (by decide))
      · dsimp only
        rw [if_neg hempty]
        cases hbind : bindText machineKey with
        | error exc => exact hquiet _ (quiet_error db exc)
        | ok _ =>
          cases hrow : machineWith db.fleet machineKey with
          | none => exact hquiet _ (quiet_err db (by decide))
          | some row =>
            have hlands := @publishTo_lands rt sha256 deliver db row machineKey fields now
            exact ⟨hlands.1, Or.inr ⟨machineKey, row, ⟨fields, rfl, hkey⟩, hrow, hlands.2⟩⟩
  | _ => exact hquiet _ (@quiet_err db 400 "JSON body required" (by decide))

theorem presents_unique {body : Json} {machineKey other : Str} (h : Presents rt body machineKey)
    (hother : Presents rt body other) : machineKey = other := by
  rcases h with ⟨fields, rfl, hkey⟩
  rcases hother with ⟨same, hsame, hkey'⟩
  cases hsame
  rw [hkey, Except.ok.injEq] at hkey'
  exact hkey'

/-- A publication lands on its machine when no earlier row has the key. -/
theorem publish_lands {db : ServerDB} {m : MachineRow} (hfirst : FirstWithKey db.fleet m)
    {body : Json} (hkey : Presents rt body m.machineKey) (now : DateTime) :
    Lands rt m db body (publishSnapshot rt sha256 deliver db body now) := by
  rcases (publish_cases db body now).2 with hquiet | ⟨machineKey, row, hpresents, hrow, hlands⟩
  · exact hquiet.lands m body
  · rw [← presents_unique hkey hpresents, machineWith_first hfirst, Option.some.injEq] at hrow
    rw [hrow]
    exact hlands

/-- An answered publication does not land on its machine when an earlier row has the key. -/
theorem misplaced_publication {db : ServerDB} (hvalid : db.Valid) {m : MachineRow}
    (hm : m ∈ db.fleet.machines.rows) (hfirst : ¬FirstWithKey db.fleet m) {body : Json}
    (hkey : Presents rt body m.machineKey) (now : DateTime)
    (hanswer : Answered (publishSnapshot rt sha256 deliver db body now).answer) :
    ¬Lands rt m db body (publishSnapshot rt sha256 deliver db body now) := by
  intro hlands
  rcases (publish_cases db body now).2 with hquiet | ⟨machineKey, row, hpresents, hrow, hlands'⟩
  · exact hquiet.answer hanswer
  · rcases hlands'.events with ⟨new, hrows, hnew⟩
    rcases hlands.events with ⟨same, hsame, hall⟩
    have hnonempty : new ≠ [] := by
      intro hnil
      apply hlands'.logged hanswer
      rw [hrows, hnil, List.append_nil]
    rcases List.exists_mem_of_ne_nil new hnonempty with ⟨event, hevent⟩
    have hboth : event.orgId = row.orgId ∧ event.orgId = m.orgId := by
      refine ⟨hnew event hevent, hall event ?_⟩
      rw [hrows] at hsame
      rw [← List.append_cancel_left hsame]
      exact hevent
    have hfound := first_of_machineWith hrow
    have hsamekey : row.machineKey = m.machineKey :=
      hfound.1.trans (presents_unique hpresents hkey)
    have heq : row = m := by
      apply List.inj_on_of_nodup_map hvalid.fleet.machines_unique (mem_of_first hfound.2) hm
      rw [hsamekey, ← hboth.1, hboth.2]
    rw [heq] at hfound
    exact hfirst hfound.2

/-! ## Runs -/

/-- A request of an agent.  `orgId` is the organization in which the machine that sends
the publication is enrolled; the body does not tell it. -/
inductive AgentRequest where
  | enroll (body : Json) (now : DateTime)
  | publish (orgId : Int) (body : Json) (now : DateTime)

variable (rt sha256 deliver) in
/-- One request: the database behind it, and the publication when it is one. -/
def agentStep (db : ServerDB) : AgentRequest → ServerDB × Option PublishRun
  | .enroll body now => ((enroll rt sha256 db body now).db, none)
  | .publish _ body now =>
    let run := publishSnapshot rt sha256 deliver db body now
    (run.db, some run)

/-- A run of requests. -/
abbrev AgentTrace := List (Entry ServerDB AgentRequest (Option PublishRun))

variable (rt sha256 deliver) in
/-- What happens on a list of requests. -/
def agentTrace (db : ServerDB) (requests : List AgentRequest) : AgentTrace :=
  trace (agentStep rt sha256 deliver) db requests

variable (rt) in
/-- A publication lands on the machine that sends it. -/
def LandsRight (e : Entry ServerDB AgentRequest (Option PublishRun)) : Prop :=
  match e.input, e.output with
  | .publish orgId body _, some run =>
    ∀ m ∈ e.before.fleet.machines.rows, m.orgId = orgId → Presents rt body m.machineKey →
      Lands rt m e.before body run
  | _, _ => True

variable (rt) in
/-- Whether a request is safe: no row before the one of the machine that sends it has
the key of that machine. -/
def KeyIsFirst (db : ServerDB) : AgentRequest → Prop
  | .enroll _ _ => True
  | .publish orgId body _ =>
    ∀ m ∈ db.fleet.machines.rows, m.orgId = orgId → Presents rt body m.machineKey →
      FirstWithKey db.fleet m

/-- A safe request lands right. -/
theorem landsRight_of_keyIsFirst {db : ServerDB} {request : AgentRequest}
    (h : KeyIsFirst rt db request) : LandsRight rt (entry (agentStep rt sha256 deliver) db request) := by
  cases request with
  | enroll body now => exact trivial
  | publish orgId body now =>
    intro m hm horg hkey
    exact publish_lands (h m hm horg hkey) hkey now

/-- An answered publication lands right exactly when it is safe. -/
theorem landsRight_iff {db : ServerDB} (hvalid : db.Valid) {orgId : Int} {body : Json}
    {now : DateTime} (hanswer : Answered (publishSnapshot rt sha256 deliver db body now).answer) :
    LandsRight rt (entry (agentStep rt sha256 deliver) db (.publish orgId body now)) ↔
      KeyIsFirst rt db (.publish orgId body now) := by
  constructor
  · intro hlands m hm horg hkey
    by_contra hfirst
    exact misplaced_publication hvalid hm hfirst hkey now hanswer (hlands m hm horg hkey)
  · exact fun h => landsRight_of_keyIsFirst h

theorem agent_valid {db : ServerDB} (hvalid : db.Valid) (request : AgentRequest) :
    (agentStep rt sha256 deliver db request).1.Valid := by
  cases request with
  | enroll body now => exact enroll_valid hvalid (body, now)
  | publish orgId body now =>
    have hfleet : (publishSnapshot rt sha256 deliver db body now).db.fleet = db.fleet :=
      (publish_cases db body now).1
    constructor
    · show (publishSnapshot rt sha256 deliver db body now).db.fleet.Valid
      rw [hfleet]
      exact hvalid.fleet
    · show ∀ row ∈ (publishSnapshot rt sha256 deliver db body now).db.fleet.tokens.rows, _
      rw [hfleet]
      exact hvalid.fits

/-- A publication that is answered. -/
def Published (e : Entry ServerDB AgentRequest (Option PublishRun)) : Prop :=
  ∃ run, e.output = some run ∧ Answered run.answer

/-- The publications of a run land on the machines that send them exactly when each of
them comes from a machine with a key that no earlier row has. -/
theorem publications_land_iff (rt : Runtime) (sha256 : Str → Str)
    (deliver : WebhookRow → Option Exc) {db : ServerDB} (hvalid : db.Valid)
    (requests : List AgentRequest) :
    (∀ e ∈ agentTrace rt sha256 deliver db requests, Published e → LandsRight rt e) ↔
      ∀ e ∈ agentTrace rt sha256 deliver db requests, Published e →
        KeyIsFirst rt e.before e.input := by
  have hkeeps : Keeps (agentStep rt sha256 deliver) (fun _ _ => True) ServerDB.Valid :=
    fun s request hs _ => agent_valid hs request
  apply hkeeps.forall_trace_iff (P := fun e => Published e → LandsRight rt e)
    (Q := fun e => Published e → KeyIsFirst rt e.before e.input) ?_ hvalid
      (admits_of_forall (fun _ _ => trivial) db requests)
  intro s request hs _
  apply imp_congr_right
  intro hpublished
  cases request with
  | enroll body now => exact Iff.rfl
  | publish orgId body now =>
    rcases hpublished with ⟨run, hrun, hanswer⟩
    cases hrun
    exact landsRight_iff hs hanswer

/-! ## Two organizations with one key -/

namespace Sample

def tok2Hash : Str := "8690c3af015e6294ff67fcfd334f181a4704b579e9b2bce79ec9716ac62da2d6"

/-- The digest of the two tokens. -/
def digest (text : Str) : Str := if text = lit "tok" then tokHash else tok2Hash

/-- A server with a token for each of two organizations. -/
def twoTokens : ServerDB :=
  ⟨⟨⟨[ciToken, ⟨2, 2, tok2Hash, "ci", none, none, newYear.isoformat, none⟩], 2⟩, .empty⟩, .empty,
    .empty, .empty⟩

theorem twoTokens_valid : twoTokens.Valid := by
  constructor
  · constructor
    · exact ⟨by decide, by decide⟩
    · decide +kernel
    · exact keyed_empty
    · exact List.nodup_nil
  · decide

/-- A machine that is enrolled under the key `a`. -/
def enrollRequest (token : Str) : AgentRequest :=
  .enroll (.obj [("enrollment_token", .str token), ("machine_key", .str "a")]) newYear

/-- The second organization publishes a snapshot under the key. -/
def publishBody : Json :=
  .obj [("machine_key", .str "a"), ("snapshot", .obj [("snapshot_id", .str "s")])]

/-- Both organizations enroll a machine under the key. -/
def shared : ServerDB :=
  final (agentStep .standard digest fun _ => none) twoTokens [enrollRequest "tok", enrollRequest "tok2"]

/-- The publication of the second organization. -/
def sharedRun : PublishRun := publishSnapshot .standard digest (fun _ => none) shared publishBody newYear

end Sample

/-- The publication of the second organization is logged for the first one. -/
theorem publication_in_other_organization :
    Sample.twoTokens.Valid ∧ ¬∀ e ∈ agentTrace .standard Sample.digest (fun _ => none)
      Sample.twoTokens [Sample.enrollRequest "tok", Sample.enrollRequest "tok2",
        .publish 2 Sample.publishBody newYear], Published e → LandsRight .standard e := by
  refine ⟨Sample.twoTokens_valid, fun h => ?_⟩
  have hstatus : Sample.sharedRun.answer.toOption.map Response.status = some 200 := by
    decide +kernel
  have hlogged : Sample.sharedRun.db.auditEvents.rows.map AuditRow.orgId =
      Sample.shared.auditEvents.rows.map AuditRow.orgId ++ [1] := by
    decide +kernel
  have hmachine : ∃ m ∈ Sample.shared.fleet.machines.rows, m.orgId = 2 ∧ m.machineKey = lit "a" := by
    decide +kernel
  have hanswer : Answered Sample.sharedRun.answer := by
    cases hrun : Sample.sharedRun.answer with
    | error exc =>
      rw [hrun] at hstatus
      cases hstatus
    | ok r =>
      rw [hrun] at hstatus
      exact ⟨r, rfl, Option.some.inj hstatus⟩
  have hlands := h ⟨Sample.shared, .publish 2 Sample.publishBody newYear, some Sample.sharedRun,
    Sample.sharedRun.db⟩ (List.mem_cons_of_mem _ (List.mem_cons_of_mem _ List.mem_cons_self))
      ⟨_, rfl, hanswer⟩
  rcases hmachine with ⟨m, hm, horg, hkey⟩
  have hpresents : Presents .standard Sample.publishBody m.machineKey := by
    rw [hkey]
    exact ⟨_, rfl, rfl⟩
  rcases (hlands m hm horg hpresents).events with ⟨new, hrows, hnew⟩
  rw [hrows, List.map_append] at hlogged
  have hone : new.map AuditRow.orgId = [1] := List.append_cancel_left hlogged
  have hmem : (1 : Int) ∈ new.map AuditRow.orgId := by
    rw [hone]
    exact List.mem_cons_self
  rcases List.mem_map.mp hmem with ⟨event, hevent, heq⟩
  rw [hnew event hevent, horg] at heq
  exact absurd heq (by decide)

/-- One organization and no publication of another. -/
theorem publications_land_iff_sample :
    (∀ e ∈ agentTrace .standard Sample.digest (fun _ => none) Sample.twoTokens
        [Sample.enrollRequest "tok", .publish 1 Sample.publishBody newYear],
      Published e → LandsRight .standard e) ↔
    ∀ e ∈ agentTrace .standard Sample.digest (fun _ => none) Sample.twoTokens
        [Sample.enrollRequest "tok", .publish 1 Sample.publishBody newYear],
      Published e → KeyIsFirst .standard e.before e.input :=
  publications_land_iff .standard Sample.digest (fun _ => none) Sample.twoTokens_valid _

end DevRepro.Server
