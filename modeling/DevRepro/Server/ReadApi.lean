import DevRepro.Server.WriteIsolation

/-!
# The endpoints that read

The endpoints of `server/api.py` that answer an account from the database and
change nothing.  The aggregation of `onboarding_stats` is a parameter: an
answer is some function of the enrolments and of the facts that it is given.
-/

namespace DevRepro.Server

open DevRepro.Python DevRepro.Lib

variable (rt : Runtime)

/-- An answer that only depends on the database. -/
abbrev Answer := Except Exc Response

/-- `require_role` in front of an endpoint that reads. -/
def requireRead (ident : Identity) (minRole : Role) (answer : Answer) : Answer :=
  if ident.role.rank < minRole.rank then .ok (err 403 (lit "requires role " ++ minRole.name))
  else answer

/-- A column that may be empty. -/
def optionJson : Option Str → Json
  | none => .null
  | some s => .str s

/-! ## Machines and snapshots -/

/-- `ORDER BY last_seen_at DESC`: the machines that were never seen come last. -/
def seenAfter (a b : MachineRow) : Bool :=
  match a.lastSeenAt, b.lastSeenAt with
  | _, none => true
  | none, some _ => false
  | some s, some t => strLe t s

/-- The name of the project that a machine is joined with. -/
def projectName (db : TenantDB) (m : MachineRow) : Option Str :=
  match m.projectId with
  | none => none
  | some projectId =>
    (db.projects.rows.find? fun p => (p.id : Int) = projectId).map ProjectRow.name

/-- A machine in the answer of `list_machines`. -/
def machineJson (db : TenantDB) (m : MachineRow) : Json :=
  .obj [("id", .int m.id), ("machine_key", .str m.machineKey), ("os_name", .str m.osName),
    ("arch", .str m.arch), ("label", .str m.label), ("last_seen_at", optionJson m.lastSeenAt),
    ("project", optionJson (projectName db m))]

/-- The endpoint `list_machines`. -/
def listMachines (db : TenantDB) (orgId : Int) : Answer := do
  bindInt orgId
  return jsonify (.arr (((machinesOf db.toServerDB orgId).mergeSort seenAfter).map (machineJson db)))

/-- The snapshots of an organization, the newest first. -/
def newestSnapshots (db : TenantDB) (orgId : Int) (limit : Nat) : List SnapshotRow :=
  ((snapshotsOf db.toServerDB orgId).mergeSort fun a b => strLe b.receivedAt a.receivedAt).take limit

/-- A snapshot in the answer of `list_snapshots`. -/
def snapshotJson (machines : List MachineRow) (s : SnapshotRow) : Json :=
  let m := machines.find? fun m => m.id = s.machineId
  .obj [("snapshot_id", .str s.snapshotId), ("received_at", .str s.receivedAt),
    ("checksum", .str s.checksum), ("machine_key", optionJson (m.map MachineRow.machineKey)),
    ("os_name", optionJson (m.map MachineRow.osName)), ("arch", optionJson (m.map MachineRow.arch))]

/-- The endpoint `list_snapshots`. -/
def listSnapshots (db : TenantDB) (orgId : Int) : Answer := do
  bindInt orgId
  return jsonify (.arr ((newestSnapshots db orgId 100).map
    (snapshotJson (machinesOf db.toServerDB orgId))))

/-! ## Projects -/

/-- `latest_baseline`. -/
def latestBaseline (db : TenantDB) (projectId : Nat) : Except Exc (Option Json) := do
  bindInt projectId
  match ((db.baselines.rows.filter fun row => row.projectId = (projectId : Int)).mergeSort
      fun a b => strLe b.createdAt a.createdAt).head? with
  | none => return none
  | some row =>
    let baseline ← loads rt.limits row.payload
    return some baseline

/-- A value that is found, or 404. -/
def foundOr (message : Str) (found : Option Json) : Response :=
  match found with
  | none => err 404 message
  | some value => if value.truthy then jsonify value else err 404 message

/-- The endpoint `get_baseline`. -/
def getBaseline (db : TenantDB) (projectId : Nat) : Answer :=
  (latestBaseline rt db projectId).map (foundOr "no baseline")

/-- The endpoint `list_members`. -/
def listMembers (db : TenantDB) (projectId : Nat) : Answer :=
  (projectMembers db projectId).map (membersAnswer projectId)

/-! ## Policies, events and analytics -/

/-- The endpoint `get_policy`. -/
def getPolicy (db : TenantDB) (orgId : Int) (name : Str) : Answer :=
  (activePolicy rt db.policies orgId name).map (foundOr "no active policy")

/-- An event in the answer of `audit_log`. -/
def eventJson (e : AuditRow) : Except Exc Json := do
  let detail ← loads rt.limits e.detail
  return .obj [("actor", .str e.actor), ("action", .str e.action), ("target", .str e.target),
    ("detail", detail), ("occurred_at", .str e.occurredAt)]

/-- The endpoint `audit_log`. -/
def auditLog (db : TenantDB) (orgId : Int) : Answer := do
  bindInt orgId
  let events := ((db.auditEvents.rows.filter fun e => e.orgId = orgId).mergeSort
    fun a b => b.seq ≤ a.seq).take 200
  let answer ← events.mapM (eventJson rt)
  return jsonify (.arr answer)

/-- `enrolment_rows`. -/
def enrolmentRows (db : TenantDB) (orgId : Int) : List (Nat × Str) :=
  (machinesOf db.toServerDB orgId).map fun m => (m.id, m.enrolledAt)

variable (stats : List (Nat × Str) → List SnapshotFact → Answer)

/-- The endpoint `onboarding`. -/
def onboarding (db : TenantDB) (orgId : Int) : Answer := do
  bindInt orgId
  let facts ← snapshotFacts rt (newestSnapshots db orgId 5000)
  stats (enrolmentRows db orgId) facts

/-- A read request.  Numbers in a path are natural numbers. -/
inductive ReadRequest where
  | machines
  | snapshots
  | baseline (projectId : Nat)
  | members (projectId : Nat)
  | onboarding
  | policy (name : Str)
  | audit

/-- What an account is answered. -/
def respond (ident : Identity) (db : TenantDB) : ReadRequest → Answer
  | .machines => requireRead ident .viewer (listMachines db ident.orgId)
  | .snapshots => requireRead ident .viewer (listSnapshots db ident.orgId)
  | .baseline projectId => requireRead ident .viewer (getBaseline rt db projectId)
  | .members projectId => requireRead ident .viewer (listMembers db projectId)
  | .onboarding => requireRead ident .viewer (onboarding rt stats db ident.orgId)
  | .policy name => requireRead ident .viewer (getPolicy rt db ident.orgId name)
  | .audit => requireRead ident .admin (auditLog rt db ident.orgId)

end DevRepro.Server
