import DevRepro.Python.Calendar
import DevRepro.Server.WriteIsolation

/-!
# Retention

`set_retention`, `apply_retention` and the endpoints that call them.  A setting
is any pair of numbers that fits in a column, and the cutoffs are times: they
exist exactly when the days stay in the range of `datetime`, and then the rows
that go are the ones that are older (`retention_exact_iff`).

The tables are searched by the texts of the times.  `stored_texts_in_time_order`
says that redemptions, exceptions and retention decide by the times themselves.
-/

namespace DevRepro.Server

open DevRepro.Python DevRepro.Lib

/-! ## Settings -/

/-- The days that an organization keeps its snapshots. -/
def snapshotDays (db : TenantDB) (orgId : Int) : Int :=
  ((db.retention.find? fun row => row.orgId = orgId).map RetentionRow.snapshotDays).getD 90

/-- The days that an organization keeps its audit log. -/
def auditDays (db : TenantDB) (orgId : Int) : Int :=
  ((db.retention.find? fun row => row.orgId = orgId).map RetentionRow.auditDays).getD 365

/-! ## Rows that are older -/

/-- A time that lies more than some days before another. -/
def OlderThan (days : Int) (t now : CalendarTime) : Prop :=
  t.val.stamp.wall + days * dayMicroseconds < now.val.stamp.wall

/-- The rows that `apply_retention` deleted are the ones of the organization that were too
old.  A row that has no time in it is not spoken of. -/
structure ExpiredDeleted (db after : TenantDB) (orgId : Int) (now : CalendarTime)
    (deleted : Nat × Nat) : Prop where
  /-- Nothing else changes. -/
  others : after = { db with snapshots := after.snapshots, auditEvents := after.auditEvents }
  snapshots : ∃ old : SnapshotRow → Bool, after.snapshots = db.snapshots.delete old ∧
    deleted.1 = db.snapshots.rows.countP old ∧
    (∀ row, old row = true → ownsMachine db orgId row.machineId = true) ∧
    ∀ row (t : CalendarTime), row.receivedAt = t.val.isoformat →
      (old row = true ↔ ownsMachine db orgId row.machineId = true ∧
        OlderThan (snapshotDays db orgId) t now)
  auditEvents : ∃ old : AuditRow → Bool, after.auditEvents = db.auditEvents.delete old ∧
    deleted.2 = db.auditEvents.rows.countP old ∧ (∀ row, old row = true → row.orgId = orgId) ∧
    ∀ row (t : CalendarTime), row.occurredAt = t.val.isoformat →
      (old row = true ↔ row.orgId = orgId ∧ OlderThan (auditDays db orgId) t now)

/-- `apply_retention` succeeds, and deletes what is expired. -/
def RetentionExact (db : TenantDB) (orgId : Int) (now : CalendarTime) : Prop :=
  ∃ after deleted, tx db (deleteExpired db orgId now.val) = (after, .ok deleted) ∧
    ExpiredDeleted db after orgId now deleted

theorem isoformat_lt_iff_wall (t u : CalendarTime) :
    strLt t.val.isoformat u.val.isoformat = true ↔ t.val.stamp.wall < u.val.stamp.wall :=
  (isoformat_lt_iff t.val u.val).trans (before_iff_wall t u)

/-- A time whose text comes before the cutoff is too old. -/
theorem isoformat_lt_cutoff {t now cutoff : CalendarTime} {days : Int}
    (hcutoff : cutoff.val.stamp.wall = now.val.stamp.wall + -days * dayMicroseconds) :
    strLt t.val.isoformat cutoff.val.isoformat = true ↔ OlderThan days t now := by
  rw [isoformat_lt_iff_wall, hcutoff, OlderThan, neg_mul, ← sub_eq_add_neg, lt_sub_iff_add_lt]

theorem deleteExpired_eq_ok {db after : TenantDB} {orgId : Int} {now : DateTime}
    {deleted : Nat × Nat} :
    deleteExpired db orgId now = .ok (after, deleted) ↔
      InInt64 orgId ∧ ∃ snapshotCutoff, now.addDays (-snapshotDays db orgId) = .ok snapshotCutoff ∧
        ∃ auditCutoff, now.addDays (-auditDays db orgId) = .ok auditCutoff ∧
          { db with
            snapshots := db.snapshots.delete fun s =>
              strLt s.receivedAt snapshotCutoff.isoformat && ownsMachine db orgId s.machineId
            auditEvents := db.auditEvents.delete fun e =>
              decide (e.orgId = orgId) && strLt e.occurredAt auditCutoff.isoformat } = after ∧
          (db.snapshots.rows.countP fun s =>
              strLt s.receivedAt snapshotCutoff.isoformat && ownsMachine db orgId s.machineId,
            db.auditEvents.rows.countP fun e =>
              decide (e.orgId = orgId) && strLt e.occurredAt auditCutoff.isoformat) = deleted := by
  rw [deleteExpired, bindInt_then, bind_eq_ok]
  refine and_congr_right fun _ => exists_congr fun snapshotCutoff => and_congr_right fun _ => ?_
  rw [bind_eq_ok]
  refine exists_congr fun auditCutoff => and_congr_right fun _ => ?_
  rw [pure_eq_ok, Prod.mk.injEq]
  rfl

/-- What `apply_retention` deletes when it succeeds. -/
theorem expired_deleted {db after : TenantDB} {orgId : Int} {now : CalendarTime}
    {deleted : Nat × Nat} (h : deleteExpired db orgId now.val = .ok (after, deleted)) :
    ExpiredDeleted db after orgId now deleted := by
  rcases deleteExpired_eq_ok.mp h with ⟨_, snapshotCutoff, hsnapshot, auditCutoff, haudit, rfl, rfl⟩
  constructor
  · rfl
  · refine ⟨_, rfl, rfl, fun row hold => ?_, fun row t ht => ?_⟩
    · exact (Bool.and_eq_true_iff.mp hold).2
    · rcases addDays_spec now (-snapshotDays db orgId) with ⟨_, cutoff, hcutoff, hwall⟩ | ⟨_, herror⟩
      · rw [hsnapshot, Except.ok.injEq] at hcutoff
        rw [hcutoff, ht, Bool.and_eq_true, isoformat_lt_cutoff hwall]
        exact and_comm
      · rw [hsnapshot] at herror
        cases herror
  · refine ⟨_, rfl, rfl, fun row hold => ?_, fun row t ht => ?_⟩
    · exact of_decide_eq_true (Bool.and_eq_true_iff.mp hold).1
    · rcases addDays_spec now (-auditDays db orgId) with ⟨_, cutoff, hcutoff, hwall⟩ | ⟨_, herror⟩
      · rw [haudit, Except.ok.injEq] at hcutoff
        rw [hcutoff, ht, Bool.and_eq_true, isoformat_lt_cutoff hwall, decide_eq_true_iff]
      · rw [haudit] at herror
        cases herror

/-- A time that days were added to had them in range. -/
theorem dayInRange_of_ok {t : CalendarTime} {days : Int} {u : DateTime}
    (h : t.val.addDays days = .ok u) : t.val.DayInRange days := by
  rcases addDays_spec t days with ⟨hin, _⟩ | ⟨_, herror⟩
  · exact hin
  · rw [h] at herror
    cases herror

/-- Retention that succeeds has both cutoffs in range. -/
theorem RetentionExact.inRange {db : TenantDB} {orgId : Int} {now : CalendarTime}
    (h : RetentionExact db orgId now) :
    now.val.DayInRange (-snapshotDays db orgId) ∧ now.val.DayInRange (-auditDays db orgId) := by
  rcases h with ⟨after, deleted, htx, _⟩
  have hok : (tx db (deleteExpired db orgId now.val)).2 = .ok deleted := by rw [htx]
  rcases tx_eq_ok.mp hok with ⟨_, hblock⟩
  rcases deleteExpired_eq_ok.mp hblock with ⟨_, _, hsnapshot, _, haudit, _⟩
  exact ⟨dayInRange_of_ok hsnapshot, dayInRange_of_ok haudit⟩

/-- Retention is exact when both cutoffs are times. -/
theorem retention_exact_iff (db : TenantDB) {orgId : Int} (horg : InInt64 orgId)
    (now : CalendarTime) :
    RetentionExact db orgId now ↔
      now.val.DayInRange (-snapshotDays db orgId) ∧ now.val.DayInRange (-auditDays db orgId) := by
  constructor
  · exact RetentionExact.inRange
  · intro ⟨hsnapshot, haudit⟩
    rcases addDays_spec now (-snapshotDays db orgId) with ⟨_, cutoff, hcutoff, _⟩ | ⟨hout, _⟩
    · rcases addDays_spec now (-auditDays db orgId) with ⟨_, limit, hlimit, _⟩ | ⟨hout, _⟩
      · have hblock := deleteExpired_eq_ok.mpr ⟨horg, _, hcutoff, _, hlimit, rfl, rfl⟩
        refine ⟨_, _, ?_, expired_deleted hblock⟩
        rw [hblock, tx]
      · exact absurd haudit hout
    · exact absurd hsnapshot hout

/-! ## Stored times -/

/-- A text stands for its time wherever the server compares texts. -/
structure TextsInTimeOrder (sha256 : Str → Str) : Prop where
  earlier : ∀ t u : CalendarTime, strLt t.val.isoformat u.val.isoformat = true ↔
    t.val.stamp.wall < u.val.stamp.wall
  same : ∀ t u : CalendarTime, t.val.isoformat = u.val.isoformat ↔ t = u
  /-- A token is refused when its time has come before now. -/
  redeemed : ∀ (fleet : Fleet) (token : Str) (row : TokenRow) (expires now : CalendarTime),
    Encodable token → fleet.tokens.rows.find? (unusedToken (sha256 token)) = some row →
    row.expiresAt = some expires.val.isoformat →
      redeemSelect sha256 fleet token now.val =
        .ok (if expires.val.stamp.wall < now.val.stamp.wall then none else some row)
  /-- An approved exception is active as long as its time is after now. -/
  active : ∀ (t : Table ExceptionRow) (orgId : Int) (now : CalendarTime), InInt64 orgId →
    ∃ live : ExceptionRow → Bool, activeExceptions t orgId now.val =
        .ok ((t.rows.filter live).map fun row => (row.ruleId, row.expiresAt)) ∧
      (∀ row, row.expiresAt = none →
        (live row = true ↔ row.orgId = orgId ∧ row.status = .approved)) ∧
      ∀ row (expires : CalendarTime), row.expiresAt = some expires.val.isoformat →
        (live row = true ↔ row.orgId = orgId ∧ row.status = .approved ∧
          now.val.stamp.wall < expires.val.stamp.wall)
  /-- What is deleted is older than its setting says. -/
  deleted : ∀ (db after : TenantDB) (orgId : Int) (now : CalendarTime) (counts : Nat × Nat),
    deleteExpired db orgId now.val = .ok (after, counts) →
      ExpiredDeleted db after orgId now counts

/-- A token with a time has expired when the time has come before now. -/
theorem expired_iff {row : TokenRow} {expires now : CalendarTime}
    (h : row.expiresAt = some expires.val.isoformat) :
    row.Expired now.val ↔ expires.val.stamp.wall < now.val.stamp.wall := by
  rw [← isoformat_lt_iff_wall, TokenRow.Expired, h]
  constructor
  · rintro ⟨text, htext, _, hlt⟩
    rwa [← Option.some.inj (Option.mem_def.mp htext)] at hlt
  · intro hlt
    exact ⟨_, rfl, isoformat_ne_nil _, hlt⟩

/-- Text order is time order, in all three places. -/
theorem stored_texts_in_time_order (sha256 : Str → Str) : TextsInTimeOrder sha256 := by
  constructor
  · exact isoformat_lt_iff_wall
  · intro t u
    constructor
    · intro h
      exact Subtype.ext (isoformat_injective h)
    · intro h
      rw [h]
  · intro fleet token row expires now htoken hfind hexpires
    have hselect : redeemSelect sha256 fleet token now.val =
        if row.Expired now.val then .ok none else .ok (some row) := by
      rw [redeemSelect, hashToken, if_pos htoken]
      simp only [bind, Except.bind, hfind]
      rfl
    rw [hselect]
    simp only [expired_iff hexpires]
    split_ifs
    · rfl
    · rfl
  · intro t orgId now horg
    rw [activeExceptions, bindInt_pass horg]
    refine ⟨_, rfl, fun row hnone => ?_, fun row expires hexpires => ?_⟩
    · rw [decide_eq_true_iff, hnone]
      exact and_congr_right fun _ => and_iff_left rfl
    · rw [decide_eq_true_iff, hexpires, Option.all_some, isoformat_lt_iff_wall]
  · intro db after orgId now counts
    exact expired_deleted

namespace Sample

theorem newYear_inCalendar : newYear.date.InCalendar := by decide

/-- The first second of 2026. -/
def today : CalendarTime := ⟨newYear, newYear_inCalendar⟩

/-- A setting of a million days. -/
def millionDays : Json := .obj [("snapshot_days", .int 1000000)]

/-- The state after an account set it. -/
def longRetention : TenantDB × Except Exc Response :=
  putRetention .standard otherAdmin millionDays newYear pendingException

end Sample

/-- A setting that is accepted, and raises when it is applied. -/
theorem accepted_setting_raises :
    Sample.longRetention.2.map Response.status = .ok 200 ∧
      ¬RetentionExact Sample.longRetention.1 Sample.otherAdmin.orgId Sample.today := by
  have hdays : Sample.longRetention.2.map Response.status = .ok 200 ∧
      snapshotDays Sample.longRetention.1 1 = 1000000 := by decide
  refine ⟨hdays.1, fun hexact => ?_⟩
  have hrange := hexact.inRange.1
  rw [show Sample.otherAdmin.orgId = 1 from rfl, hdays.2] at hrange
  exact absurd hrange (by decide)

/-- The default setting. -/
theorem retention_exact_iff_default :
    RetentionExact Sample.pendingException 1 Sample.today ↔
      newYear.DayInRange (-snapshotDays Sample.pendingException 1) ∧
        newYear.DayInRange (-auditDays Sample.pendingException 1) :=
  retention_exact_iff Sample.pendingException (by decide) Sample.today

end DevRepro.Server
