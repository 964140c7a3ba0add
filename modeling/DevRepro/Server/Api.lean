import DevRepro.Lib.Machine
import DevRepro.Server.Analytics
import DevRepro.Server.Exceptions
import DevRepro.Server.Policies

/-!
# The endpoints that write

The endpoints of `server/api.py` that a service account calls to change
something, with the methods of `server/db.py` behind them.  `Identity` is what
`require_role` found out about the account.
-/

namespace DevRepro.Server

open DevRepro.Python DevRepro.Lib

/-! ## The tables -/

structure UserRow where
  id : Nat
  email : Str
  deriving DecidableEq

structure ProjectRow where
  id : Nat
  orgId : Int
  name : Str
  deriving DecidableEq

structure BaselineRow where
  id : Nat
  projectId : Int
  baselineId : Str
  payload : Str
  approvedBy : Option Nat
  createdAt : Str
  deriving DecidableEq

structure MemberRow where
  id : Nat
  projectId : Int
  userEmail : Str
  role : Str
  createdAt : Str
  deriving DecidableEq

structure RetentionRow where
  orgId : Int
  snapshotDays : Int
  auditDays : Int
  deriving DecidableEq

/-- All tables that the endpoints read or write. -/
structure TenantDB extends ServerDB where
  users : Table UserRow
  projects : Table ProjectRow
  baselines : Table BaselineRow
  members : Table MemberRow
  policies : Table PolicyRow
  exceptions : Table ExceptionRow
  retention : List RetentionRow

/-! ## Accounts -/

inductive Role where
  | viewer
  | maintainer
  | admin
  | agent
  deriving DecidableEq

/-- `ROLE_RANK.get(role, 0)`. -/
def Role.rank : Role → Nat
  | .viewer => 1
  | .maintainer => 2
  | .admin => 3
  | .agent => 0

def Role.name : Role → Str
  | .viewer => "viewer"
  | .maintainer => "maintainer"
  | .admin => "admin"
  | .agent => "agent"

/-- `g.identity`. -/
structure Identity where
  orgId : Int
  name : Str
  role : Role

/-- What a handler does. -/
abbrev Handler := Action TenantDB Exc

/-- `require_role`, behind the authentication. -/
def requireRole (ident : Identity) (minRole : Role) (handler : Handler Response) :
    Handler Response :=
  if ident.role.rank < minRole.rank then return err 403 (lit "requires role " ++ minRole.name)
  else handler

variable (rt : Runtime)

/-- `request.get_json(silent=True) or {}`. -/
def bodyOf (body : Json) : Json := body.orElse (.obj [])

/-- `str(body.get(key, default))`. -/
def textOf (body : Json) (key default : Str) : Except Exc Str := do
  (← (bodyOf body).getD key (.str default)).toStr rt

/-- `int(body.get(key, default))`. -/
def numberOf (body : Json) (key : Str) (default : Int) : Except Exc Int := do
  (← (bodyOf body).getD key (.int default)).toInt rt

/-- `audit`, for the account of a request. -/
def auditFor (ident : Identity) (action target : Str) (detail : List (Str × Json))
    (now : DateTime) : Handler Unit := fun db =>
  let run := audit rt db.toServerDB ident.orgId ident.name action target detail now
  ({ db with toServerDB := run.1 }, run.2)

/-! ## Projects -/

/-- `project_members`. -/
def projectMembers (db : TenantDB) (projectId : Int) : Except Exc (List (Str × Str)) := do
  bindInt projectId
  return ((db.members.rows.filter fun row => row.projectId = projectId).mergeSort
    fun a b => strLe a.userEmail b.userEmail).map fun row => (row.userEmail, row.role)

/-- `may_administer_project`. -/
def mayAdministerProject (db : TenantDB) (projectId : Int) (email : Str) (role : Role) :
    Except Exc Bool :=
  if role = .admin then .ok true
  else do
    let members ← projectMembers db projectId
    return members.isEmpty || members.any fun member =>
      member.1 = email && (member.2 = lit "admin" || member.2 = lit "maintainer")

/-- The id of a baseline. -/
def baselineIdOf (baseline : List (Str × Json)) : Except Exc Str :=
  ((field baseline "baseline_id").orElse (.str [])).toStr rt

/-- The block of `approve_baseline`: a row with the same project and id is replaced. -/
def replaceBaseline (db : TenantDB) (projectId : Int) (baseline : List (Str × Json))
    (approver : Str) (now : DateTime) : Except Exc (TenantDB × Str) := do
  let baselineId ← baselineIdOf rt baseline
  bindText approver
  let user := db.users.rows.find? fun row => row.email = approver
  let payload ← dumps rt .plain (.obj baseline)
  bindInt projectId
  bindText baselineId
  let kept := db.baselines.delete fun row =>
    row.projectId = projectId ∧ row.baselineId = baselineId
  return ({ db with baselines := kept.insert fun id =>
    ⟨id, projectId, baselineId, payload, user.map UserRow.id, now.isoformat⟩ }, baselineId)

/-- The endpoint `approve_baseline`. -/
def approveBaseline (ident : Identity) (body : Json) (now : DateTime) : Handler Response :=
  requireRole ident .maintainer do
    let projectId ← .lift (numberOf rt body "project_id" 0)
    let baseline ← .lift ((bodyOf body).get? "baseline")
    match baseline with
    | some (.obj fields) =>
      if projectId = 0 then return err 400 "project_id and baseline required"
      else
        let allowed ← .query fun db => mayAdministerProject db projectId ident.name ident.role
        if allowed = false then
          auditFor rt ident "baseline.approve.denied" (intStr projectId) [] now
          return err 403 "not a maintainer of this project"
        else
          let baselineId ← .of fun db =>
            tx db (replaceBaseline rt db projectId fields ident.name now)
          auditFor rt ident "baseline.approve" baselineId [] now
          return jsonify (.obj [("baseline_id", .str baselineId)])
    | _ => return err 400 "project_id and baseline required"

/-- The block of `add_project_member`: a row with the same project and address is replaced. -/
def replaceMember (db : TenantDB) (projectId : Int) (email role : Str) (now : DateTime) :
    Except Exc (TenantDB × Unit) := do
  bindInt projectId
  bindText email
  bindText role
  let kept := db.members.delete fun row => row.projectId = projectId ∧ row.userEmail = email
  return ({ db with members := kept.insert fun id =>
    ⟨id, projectId, email, role, now.isoformat⟩ }, ())

/-- The members of a project as an answer. -/
def membersAnswer (projectId : Int) (members : List (Str × Str)) : Response :=
  jsonify (.obj [("project_id", .int projectId), ("members", .arr (members.map fun member =>
    .obj [("email", .str member.1), ("role", .str member.2)]))])

def memberRoles : List Str := ["admin", "maintainer", "member", "viewer"]

/-- The endpoint `add_member`. -/
def addMember (ident : Identity) (projectId : Nat) (body : Json) (now : DateTime) :
    Handler Response :=
  requireRole ident .admin do
    let email ← .lift (textOf rt body "email" [])
    let role ← .lift (textOf rt body "role" [])
    if strip email = [] ∨ strip role ∉ memberRoles then
      return err 400 "email and a known role required"
    else
      .of fun db => tx db (replaceMember db projectId (strip email) (strip role) now)
      auditFor rt ident "project.member.add" (natStr projectId) [] now
      let members ← .query fun db => projectMembers db projectId
      return membersAnswer projectId members

/-! ## Policies and exceptions -/

/-- The endpoint `put_policy`. -/
def putPolicy (ident : Identity) (name : Str) (body : Json) (now : DateTime) : Handler Response :=
  requireRole ident .admin do
    match body with
    | .obj document =>
      let policyId ← .of fun db =>
        let run := setPolicy rt db.policies ident.orgId name document now
        ({ db with policies := run.1 }, run.2)
      auditFor rt ident "policy.set" name [] now
      return jsonify (.obj [("policy_id", .int policyId)])
    | _ => return err 400 "policy document must be a JSON object"

/-- The endpoint `request_exception`. -/
def postException (ident : Identity) (body : Json) (now : DateTime) : Handler Response :=
  requireRole ident .maintainer do
    let ruleId ← .lift (textOf rt body "rule_id" [])
    let justification ← .lift (textOf rt body "justification" [])
    let days ← .lift (numberOf rt body "days" 30)
    if ruleId = [] ∨ justification.length < 10 then
      return err 400 "rule_id and justification (>=10 chars) required"
    else
      let exceptionId ← .of fun db =>
        let run := requestException db.exceptions ident.orgId ruleId justification ident.name
          (min (max days 1) 365) now
        ({ db with exceptions := run.1 }, run.2)
      auditFor rt ident "exception.request" ruleId [] now
      return ⟨201, .obj [("exception_id", .int exceptionId)]⟩

/-- `bool(body.get("approve"))`. -/
def approves (body : Json) : Except Exc Bool := do
  let approve ← (bodyOf body).get? "approve"
  return (approve.getD .null).truthy

/-- The endpoint `review_exception`. -/
def postReview (ident : Identity) (exceptionId : Nat) (body : Json) (now : DateTime) :
    Handler Response :=
  requireRole ident .admin do
    let approve ← .lift (approves body)
    let ok ← .of fun db =>
      let run := reviewException db.exceptions exceptionId ident.name approve
      ({ db with exceptions := run.1 }, run.2)
    if ok = false then return err 409 "not pending or already reviewed"
    else
      auditFor rt ident "exception.review" (natStr exceptionId) [("approved", .bool approve)] now
      return jsonify (.obj [("status", .str (if approve then "approved" else "rejected"))])

/-! ## Retention -/

/-- The block of `set_retention`: the row of the organization is replaced. -/
def replaceRetention (db : TenantDB) (orgId snapshotDays auditDays : Int) :
    Except Exc (TenantDB × Unit) := do
  bindInt orgId
  bindInt snapshotDays
  bindInt auditDays
  return ({ db with retention := (db.retention.filter fun row => row.orgId ≠ orgId) ++
    [⟨orgId, snapshotDays, auditDays⟩] }, ())

/-- The endpoint `put_retention`. -/
def putRetention (ident : Identity) (body : Json) (now : DateTime) : Handler Response :=
  requireRole ident .admin do
    let snapshotDays ← .lift (numberOf rt body "snapshot_days" 90)
    let auditDays ← .lift (numberOf rt body "audit_days" 365)
    .of fun db => tx db (replaceRetention db ident.orgId snapshotDays auditDays)
    auditFor rt ident "retention.set" "org" [] now
    return jsonify (.obj [("ok", .bool true)])

/-- The block of `apply_retention`. -/
def deleteExpired (db : TenantDB) (orgId : Int) (now : DateTime) :
    Except Exc (TenantDB × (Nat × Nat)) := do
  bindInt orgId
  let row := db.retention.find? fun row => row.orgId = orgId
  let snapshotCutoff ← now.addDays (-(row.map RetentionRow.snapshotDays).getD 90)
  let auditCutoff ← now.addDays (-(row.map RetentionRow.auditDays).getD 365)
  let oldSnapshot := fun s : SnapshotRow => strLt s.receivedAt snapshotCutoff.isoformat &&
    decide (s.machineId ∈ (machinesOf db.toServerDB orgId).map MachineRow.id)
  let oldEvent := fun e : AuditRow =>
    decide (e.orgId = orgId) && strLt e.occurredAt auditCutoff.isoformat
  return ({ db with
    snapshots := db.snapshots.delete oldSnapshot
    auditEvents := db.auditEvents.delete oldEvent },
    (db.snapshots.rows.countP oldSnapshot, db.auditEvents.rows.countP oldEvent))

/-- The endpoint `apply_retention`. -/
def applyRetention (ident : Identity) (now : DateTime) : Handler Response :=
  requireRole ident .admin do
    let deleted ← .of fun db => tx db (deleteExpired db ident.orgId now)
    let result : List (Str × Json) :=
      [("snapshots_deleted", .int deleted.1), ("audit_deleted", .int deleted.2)]
    auditFor rt ident "retention.apply" "org" result now
    return jsonify (.obj result)

/-! ## Webhooks -/

/-- The block of `add_webhook`. -/
def insertWebhook (t : Table WebhookRow) (orgId : Int) (url secret : Str) (events : List Json) :
    Except Exc (Table WebhookRow × Nat) := do
  let _ ← dumps rt .plain (.arr events)
  bindInt orgId
  bindText url
  bindText secret
  return (t.insert fun id => ⟨id, orgId, url, secret, events, true⟩, t.seq + 1)

/-- The endpoint `add_webhook`, with the secret that it draws. -/
def addWebhook (ident : Identity) (secret : Str) (body : Json) (now : DateTime) :
    Handler Response :=
  requireRole ident .admin do
    let url ← .lift (textOf rt body "url" [])
    let events ← .lift (do iterate (← (bodyOf body).getD "events" (.arr [.str "*"])))
    if (lit "https://").isPrefixOf url ∨ (lit "http://localhost").isPrefixOf url then
      let webhookId ← .of fun db =>
        let run := tx db.webhooks (insertWebhook rt db.webhooks ident.orgId url secret events)
        ({ db with webhooks := run.1 }, run.2)
      auditFor rt ident "webhook.add" url [] now
      return ⟨201, .obj [("id", .int webhookId), ("secret", .str secret)]⟩
    else return err 400 "webhook URL must be https (or localhost for dev)"

/-! ## Requests -/

/-- A request to an endpoint that writes.  Numbers in a path are natural numbers. -/
inductive WriteRequest where
  | approveBaseline (body : Json)
  | addMember (projectId : Nat) (body : Json)
  | putPolicy (name : Str) (body : Json)
  | requestException (body : Json)
  | reviewException (exceptionId : Nat) (body : Json)
  | putRetention (body : Json)
  | applyRetention
  | addWebhook (secret : Str) (body : Json)

/-- What a request of an account does, at the time `now`. -/
def handle (ident : Identity) (now : DateTime) : WriteRequest → Handler Response
  | .approveBaseline body => approveBaseline rt ident body now
  | .addMember projectId body => addMember rt ident projectId body now
  | .putPolicy name body => putPolicy rt ident name body now
  | .requestException body => postException rt ident body now
  | .reviewException exceptionId body => postReview rt ident exceptionId body now
  | .putRetention body => putRetention rt ident body now
  | .applyRetention => applyRetention rt ident now
  | .addWebhook secret body => addWebhook rt ident secret body now

end DevRepro.Server
