import DevRepro.Server.Enrollment

/-!
# The database of the server

The tables that enrollment, publication and the fleet analytics use, and the
methods of `ServerDB` on them.
-/

namespace DevRepro.Server

open DevRepro.Python DevRepro.Lib

/-! ## The tables -/

structure SnapshotRow where
  id : Nat
  machineId : Nat
  snapshotId : Str
  payload : Str
  checksum : Str
  receivedAt : Str
  deriving DecidableEq

structure AuditRow where
  seq : Nat
  orgId : Int
  actor : Str
  action : Str
  target : Str
  detail : Str
  occurredAt : Str
  deriving DecidableEq

/-- The events are the list that the column holds as JSON. -/
structure WebhookRow where
  id : Nat
  orgId : Int
  url : Str
  secret : Str
  events : List Json
  active : Bool

structure ServerDB where
  fleet : Fleet
  snapshots : Table SnapshotRow
  auditEvents : Table AuditRow
  webhooks : Table WebhookRow

/-- An answer of the server. -/
structure Response where
  status : Nat
  body : Json

/-- `_err`. -/
def err (status : Nat) (message : Str) : Response := ⟨status, .obj [("error", .str message)]⟩

/-- `jsonify`. -/
def jsonify (body : Json) : Response := ⟨200, body⟩

variable (rt : Runtime)

/-! ## Machines -/

/-- The block of `register_machine`. -/
def upsertMachine (fleet : Fleet) (orgId : Int) (machineKey osName arch : Str) (now : DateTime) :
    Except Exc (Fleet × Nat) := do
  bindInt orgId
  bindText machineKey
  bindText osName
  bindText arch
  match fleet.machines.rows.find? fun row => row.orgId = orgId ∧ row.machineKey = machineKey with
  | some row =>
    let machines := fleet.machines.update (fun other => other.id = row.id) fun other =>
      { other with osName := osName, arch := arch, lastSeenAt := some now.isoformat }
    return (⟨fleet.tokens, machines⟩, row.id)
  | none =>
    let machines := fleet.machines.insert fun id =>
      ⟨id, orgId, none, machineKey, osName, arch, "", now.isoformat, some now.isoformat⟩
    return (⟨fleet.tokens, machines⟩, machines.seq)

/-- `register_machine`. -/
def registerMachine (fleet : Fleet) (orgId : Int) (machineKey osName arch : Str)
    (now : DateTime) : Fleet × Except Exc Nat :=
  tx fleet (upsertMachine fleet orgId machineKey osName arch now)

/-- `_org_for_machine`. -/
def orgForMachine (fleet : Fleet) (machineId : Nat) : Int :=
  match fleet.machines.rows.find? fun row => row.id = machineId with
  | some row => row.orgId
  | none => 0

/-! ## The audit log -/

/-- The block of `audit`. -/
def insertAudit (t : Table AuditRow) (orgId : Int) (actor action target : Str)
    (detail : List (Str × Json)) (now : DateTime) : Except Exc (Table AuditRow × Unit) := do
  let text ← dumps rt .plain (.obj detail)
  bindInt orgId
  bindText actor
  bindText action
  bindText target
  return (t.insert fun seq => ⟨seq, orgId, actor, action, target, text, now.isoformat⟩, ())

/-- `audit`. -/
def audit (db : ServerDB) (orgId : Int) (actor action target : Str) (detail : List (Str × Json))
    (now : DateTime) : ServerDB × Except Exc Unit :=
  let run := tx db.auditEvents (insertAudit rt db.auditEvents orgId actor action target detail now)
  ({ db with auditEvents := run.1 }, run.2)

variable {rt}

/-! ## What the methods do -/

theorem insertAudit_eq_ok {t after : Table AuditRow} {orgId : Int} {actor action target : Str}
    {detail : List (Str × Json)} {now : DateTime} :
    insertAudit rt t orgId actor action target detail now = .ok (after, ()) ↔
      ∃ text, dumps rt .plain (.obj detail) = .ok text ∧ InInt64 orgId ∧ Encodable actor ∧
        Encodable action ∧ Encodable target ∧ t.insert (fun seq =>
          ⟨seq, orgId, actor, action, target, text, now.isoformat⟩) = after := by
  rw [insertAudit, bind_eq_ok]
  refine exists_congr fun text => and_congr_right fun _ => ?_
  rw [bindInt_then, bindText_then, bindText_then, bindText_then, pure_eq_ok, Prod.mk.injEq,
    and_iff_left rfl]

/-- An event without details is always written when its texts have an encoding. -/
theorem audit_plain (db : ServerDB) {orgId : Int} {actor action target : Str} (now : DateTime)
    (horg : InInt64 orgId) (hactor : Encodable actor) (haction : Encodable action)
    (htarget : Encodable target) :
    ∃ after, audit rt db orgId actor action target [] now = (after, .ok ()) ∧
      after.fleet = db.fleet := by
  have hdump : dumpError rt .plain 0 (DumpStyle.plain.order (.obj [])) = none := by
    apply dumpError_obj_eq_none.mpr
    refine ⟨?_, fun item hitem => absurd hitem List.not_mem_nil⟩
    have hroom := rt.dumpsDepth_ge DumpStyle.plain.indent
    omega
  have hblock : ∃ events, insertAudit rt db.auditEvents orgId actor action target [] now =
      .ok (events, ()) :=
    ⟨_, insertAudit_eq_ok.mpr
      ⟨_, dumps_of_no_error hdump, horg, hactor, haction, htarget, rfl⟩⟩
  rcases hblock with ⟨events, hblock⟩
  rw [audit, hblock]
  exact ⟨_, rfl, rfl⟩

/-- An event of the log has the organization that it was written for. -/
theorem audit_db (db : ServerDB) (orgId : Int) (actor action target : Str)
    (detail : List (Str × Json)) (now : DateTime) :
    (audit rt db orgId actor action target detail now).1.fleet = db.fleet ∧
      (audit rt db orgId actor action target detail now).1.snapshots = db.snapshots := ⟨rfl, rfl⟩

end DevRepro.Server
