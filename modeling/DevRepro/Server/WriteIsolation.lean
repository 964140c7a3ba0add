import DevRepro.Server.Api

/-!
# Tenants and writes

A request of an account of one organization may insert, change and delete rows
of this organization only.  `Isolated` says so table by table: the rows of the
others are the same before and after.

Most endpoints take the organization from the account.  Three take an id from
the request and do not ask whose it is: `approve_baseline`, `add_member` and
`review_exception`.  `write_isolated_iff` says that a request keeps to its
organization exactly when the id that it names, if it gets as far as to use it,
belongs to the organization.
-/

namespace DevRepro.Server

open DevRepro.Python DevRepro.Lib

/-! ## Rows of others -/

section

variable {ρ : Type} {owned : ρ → Bool} {xs ys zs : List ρ}

/-- The rows that are not owned are the same. -/
def SameElse (owned : ρ → Bool) (xs ys : List ρ) : Prop :=
  ys.filter (fun x => !owned x) = xs.filter fun x => !owned x

theorem sameElse_refl (xs : List ρ) : SameElse owned xs xs := rfl

theorem SameElse.trans (hxy : SameElse owned xs ys) (hyz : SameElse owned ys zs) :
    SameElse owned xs zs := Eq.trans hyz hxy

theorem sameElse_append {x : ρ} (hx : owned x = true) : SameElse owned xs (xs ++ [x]) := by
  rw [SameElse, List.filter_append, List.filter_singleton, hx]
  exact List.append_nil _

/-- Rows that are deleted are owned. -/
theorem sameElse_filter {keep : ρ → Bool} (h : ∀ x ∈ xs, keep x = false → owned x = true) :
    SameElse owned xs (xs.filter keep) := by
  rw [SameElse, List.filter_filter]
  apply List.filter_congr
  intro x hx
  cases hkeep : keep x with
  | true => rw [Bool.and_true]
  | false => rw [h x hx hkeep, Bool.and_false, Bool.not_true]

/-- Rows that are changed are owned, before and after. -/
theorem sameElse_map {which : ρ → Bool} {change : ρ → ρ}
    (h : ∀ x ∈ xs, which x = true → owned x = true) (hchange : ∀ x, owned (change x) = owned x) :
    SameElse owned xs (xs.map fun x => if which x then change x else x) := by
  rw [SameElse]
  induction xs with
  | nil => rfl
  | cons x rest ih =>
    have hrest := ih fun y hy => h y (List.mem_cons_of_mem _ hy)
    rw [List.map_cons]
    by_cases hwhich : which x = true
    · have howned := h x List.mem_cons_self hwhich
      rw [if_pos hwhich, List.filter_cons_of_neg (by rw [hchange, howned]; exact Bool.false_ne_true),
        List.filter_cons_of_neg (by rw [howned]; exact Bool.false_ne_true)]
      exact hrest
    · rw [if_neg hwhich, List.filter_cons, List.filter_cons, hrest]

/-- A row that is not owned stays. -/
theorem SameElse.mem_iff (h : SameElse owned xs ys) {x : ρ} (hx : owned x = false) :
    x ∈ ys ↔ x ∈ xs := by
  have hmem : x ∈ ys.filter (fun x => !owned x) ↔ x ∈ xs.filter fun x => !owned x := by
    rw [SameElse] at h
    rw [h]
  rw [List.mem_filter, List.mem_filter, hx] at hmem
  simpa using hmem

end

/-! ## Isolation -/

/-- Whether a project belongs to an organization. -/
def ownsProject (db : TenantDB) (orgId projectId : Int) : Bool :=
  db.projects.rows.any fun p => (p.id : Int) = projectId ∧ p.orgId = orgId

/-- Whether a machine belongs to an organization. -/
def ownsMachine (db : TenantDB) (orgId : Int) (machineId : Nat) : Bool :=
  machineId ∈ (machinesOf db.toServerDB orgId).map MachineRow.id

/-- Only rows of the organization differ. -/
structure Isolated (orgId : Int) (before after : TenantDB) : Prop where
  fleet : after.fleet = before.fleet
  projects : after.projects = before.projects
  users : after.users = before.users
  auditEvents : SameElse (fun e : AuditRow => e.orgId = orgId) before.auditEvents.rows
    after.auditEvents.rows
  policies : SameElse (fun p : PolicyRow => p.orgId = orgId) before.policies.rows
    after.policies.rows
  exceptions : SameElse (fun e : ExceptionRow => e.orgId = orgId) before.exceptions.rows
    after.exceptions.rows
  webhooks : SameElse (fun w : WebhookRow => w.orgId = orgId) before.webhooks.rows
    after.webhooks.rows
  retention : SameElse (fun r : RetentionRow => r.orgId = orgId) before.retention after.retention
  baselines : SameElse (fun b : BaselineRow => ownsProject before orgId b.projectId)
    before.baselines.rows after.baselines.rows
  members : SameElse (fun m : MemberRow => ownsProject before orgId m.projectId)
    before.members.rows after.members.rows
  snapshots : SameElse (fun s : SnapshotRow => ownsMachine before orgId s.machineId)
    before.snapshots.rows after.snapshots.rows

theorem isolated_refl {orgId : Int} (db : TenantDB) : Isolated orgId db db :=
  ⟨rfl, rfl, rfl, rfl, rfl, rfl, rfl, rfl, rfl, rfl, rfl⟩

theorem Isolated.trans {orgId : Int} (s t u : TenantDB) (hst : Isolated orgId s t)
    (htu : Isolated orgId t u) : Isolated orgId s u := by
  have hproject : ∀ projectId, ownsProject t orgId projectId = ownsProject s orgId projectId := by
    intro projectId
    rw [ownsProject, hst.projects, ownsProject]
  have hmachine : ∀ machineId, ownsMachine t orgId machineId = ownsMachine s orgId machineId := by
    intro machineId
    rw [ownsMachine, machinesOf, hst.fleet, ownsMachine, machinesOf]
  have hbaselines := htu.baselines
  have hmembers := htu.members
  have hsnapshots := htu.snapshots
  simp only [hproject] at hbaselines hmembers
  simp only [hmachine] at hsnapshots
  constructor
  · rw [htu.fleet, hst.fleet]
  · rw [htu.projects, hst.projects]
  · rw [htu.users, hst.users]
  · exact hst.auditEvents.trans htu.auditEvents
  · exact hst.policies.trans htu.policies
  · exact hst.exceptions.trans htu.exceptions
  · exact hst.webhooks.trans htu.webhooks
  · exact hst.retention.trans htu.retention
  · exact hst.baselines.trans hbaselines
  · exact hst.members.trans hmembers
  · exact hst.snapshots.trans hsnapshots

/-! ## The parts of the endpoints -/

variable {rt : Runtime} {ident : Identity} {now : DateTime} {db : TenantDB}

/-- One part of an endpoint after another. -/
theorem isolated_bind {α β : Type} {orgId : Int} {x : Handler α} {f : α → Handler β}
    (hx : Isolated orgId db (x db).1)
    (hf : ∀ t a, x db = (t, .ok a) → Isolated orgId t (f a t).1) :
    Isolated orgId db ((x >>= f) db).1 := by
  rcases hrun : x db with ⟨t, result⟩
  rw [hrun] at hx
  cases result with
  | error e =>
    rw [Action.bind_of_error hrun]
    exact hx
  | ok a =>
    rw [Action.bind_of_ok hrun]
    exact hx.trans _ _ _ (hf t a hrun)

/-- A part that only reads. -/
theorem isolated_read {α β : Type} {orgId : Int} {x : Except Exc α} {f : α → Handler β}
    (hf : ∀ a, x = .ok a → Isolated orgId db (f a db).1) :
    Isolated orgId db ((Action.lift x >>= f) db).1 := by
  apply isolated_bind (isolated_refl db)
  intro t a hrun
  cases hrun
  exact hf a rfl

theorem isolated_audit (action target : Str) (detail : List (Str × Json)) (now : DateTime)
    (db : TenantDB) : Isolated ident.orgId db (auditFor rt ident action target detail now db).1 := by
  rw [auditFor, audit]
  cases hblock : insertAudit rt db.auditEvents ident.orgId ident.name action target detail now with
  | error exc => exact isolated_refl db
  | ok result =>
    rcases result with ⟨events, ⟨⟩⟩
    rcases insertAudit_eq_ok.mp hblock with ⟨text, _, _, _, _, _, hafter⟩
    rw [← hafter]
    exact ⟨rfl, rfl, rfl, sameElse_append (decide_eq_true rfl), rfl, rfl, rfl, rfl, rfl, rfl, rfl⟩

/-- The audit event and the answer at the end of an endpoint. -/
theorem isolated_end (action target : Str) (detail : List (Str × Json)) (response : Response)
    (db : TenantDB) : Isolated ident.orgId db
      ((do auditFor rt ident action target detail now; return response : Handler Response) db).1 :=
  isolated_bind (isolated_audit action target detail now db) fun t _ _ => isolated_refl t

theorem isolated_requireRole {orgId : Int} {minRole : Role} {handler : Handler Response}
    (h : ¬ident.role.rank < minRole.rank → Isolated orgId db (handler db).1) :
    Isolated orgId db (requireRole ident minRole handler db).1 := by
  rw [requireRole]
  split_ifs with hrole
  · exact isolated_refl db
  · exact h hrole

/-- A transaction whose block writes within the organization. -/
theorem tx_of_ok {σ α : Type} {R : σ → σ → Prop} (hrefl : ∀ s, R s s) {before : σ}
    {block : Except Exc (σ × α)} (h : ∀ after a, block = .ok (after, a) → R before after) :
    R before (tx before block).1 := by
  cases hblock : block with
  | error exc => exact hrefl before
  | ok result => exact h result.1 result.2 hblock

/-! ## Endpoints that take the organization from the account -/

theorem isolated_putPolicy (name : Str) (body : Json) :
    Isolated ident.orgId db (putPolicy rt ident name body now db).1 := by
  unfold putPolicy
  apply isolated_requireRole
  intro _
  cases body with
  | obj document =>
    apply isolated_bind
    · have hrows : SameElse (fun p : PolicyRow => p.orgId = ident.orgId) db.policies.rows
          (setPolicy rt db.policies ident.orgId name document now).1.rows := by
        apply @tx_of_ok _ _ (fun s t : Table PolicyRow =>
          SameElse (fun p : PolicyRow => p.orgId = ident.orgId) s.rows t.rows)
            fun s => sameElse_refl s.rows
        intro after id hblock
        rcases insertPolicy_eq_ok.mp hblock with ⟨text, _, _, _, _, hafter, _⟩
        rw [hafter]
        exact sameElse_append (decide_eq_true rfl)
      exact ⟨rfl, rfl, rfl, rfl, hrows, rfl, rfl, rfl, rfl, rfl, rfl⟩
    · intro t policyId _
      exact isolated_end _ _ _ _ t
  | _ => exact isolated_refl db

theorem isolated_postException (body : Json) :
    Isolated ident.orgId db (postException rt ident body now db).1 := by
  rw [postException]
  apply isolated_requireRole
  intro _
  apply isolated_read
  intro ruleId _
  apply isolated_read
  intro justification _
  apply isolated_read
  intro days _
  split_ifs with hempty
  · exact isolated_refl db
  · apply isolated_bind
    · have hrows : SameElse (fun e : ExceptionRow => e.orgId = ident.orgId) db.exceptions.rows
          (requestException db.exceptions ident.orgId ruleId justification ident.name
            (min (max days 1) 365) now).1.rows := by
        apply @tx_of_ok _ _ (fun s t : Table ExceptionRow =>
          SameElse (fun e : ExceptionRow => e.orgId = ident.orgId) s.rows t.rows)
            fun s => sameElse_refl s.rows
        intro after id hblock
        rcases insertException_eq_ok.mp hblock with ⟨expires, _, _, _, _, _, hafter, _⟩
        rw [← hafter]
        exact sameElse_append (decide_eq_true rfl)
      exact ⟨rfl, rfl, rfl, rfl, rfl, hrows, rfl, rfl, rfl, rfl, rfl⟩
    · intro t exceptionId _
      exact isolated_end _ _ _ _ t

theorem isolated_putRetention (body : Json) :
    Isolated ident.orgId db (putRetention rt ident body now db).1 := by
  rw [putRetention]
  apply isolated_requireRole
  intro _
  apply isolated_read
  intro snapshotDays _
  apply isolated_read
  intro auditDays _
  apply isolated_bind
  · apply tx_of_ok isolated_refl
    intro after _ hblock
    rw [replaceRetention, bindInt_then, bindInt_then, bindInt_then, pure_eq_ok,
      Prod.mk.injEq] at hblock
    rw [← hblock.2.2.2.1]
    have hkept : SameElse (fun r : RetentionRow => r.orgId = ident.orgId) db.retention
        (db.retention.filter fun row => row.orgId ≠ ident.orgId) := by
      apply sameElse_filter
      intro row _ hrow
      apply decide_eq_true
      by_contra hother
      exact absurd (decide_eq_true hother) (by rw [hrow]; exact Bool.false_ne_true)
    have hrows := hkept.trans (sameElse_append
      (x := ⟨ident.orgId, snapshotDays, auditDays⟩) (decide_eq_true rfl))
    exact ⟨rfl, rfl, rfl, rfl, rfl, rfl, rfl, hrows, rfl, rfl, rfl⟩
  · intro t _ _
    exact isolated_end _ _ _ _ t

theorem isolated_applyRetention : Isolated ident.orgId db (applyRetention rt ident now db).1 := by
  rw [applyRetention]
  apply isolated_requireRole
  intro _
  apply isolated_bind
  · apply tx_of_ok isolated_refl
    intro after counts hblock
    rw [deleteExpired, bindInt_then, bind_eq_ok] at hblock
    rcases hblock with ⟨_, snapshotCutoff, _, hblock⟩
    rw [bind_eq_ok] at hblock
    rcases hblock with ⟨auditCutoff, _, hblock⟩
    rw [pure_eq_ok, Prod.mk.injEq] at hblock
    rw [← hblock.1]
    have hevents : SameElse (fun e : AuditRow => e.orgId = ident.orgId) db.auditEvents.rows
        (db.auditEvents.delete fun e => decide (e.orgId = ident.orgId) &&
          strLt e.occurredAt auditCutoff.isoformat).rows := by
      apply sameElse_filter
      intro e _ he
      rw [Bool.not_eq_false', Bool.and_eq_true] at he
      exact he.1
    have hsnapshots : SameElse (fun s : SnapshotRow => ownsMachine db ident.orgId s.machineId)
        db.snapshots.rows (db.snapshots.delete fun s => strLt s.receivedAt snapshotCutoff.isoformat &&
          decide (s.machineId ∈ (machinesOf db.toServerDB ident.orgId).map MachineRow.id)).rows := by
      apply sameElse_filter
      intro s _ hs
      rw [Bool.not_eq_false', Bool.and_eq_true] at hs
      exact hs.2
    exact ⟨rfl, rfl, rfl, hevents, rfl, rfl, rfl, rfl, rfl, rfl, hsnapshots⟩
  · intro t deleted _
    exact isolated_end _ _ _ _ t

theorem isolated_addWebhook (secret : Str) (body : Json) :
    Isolated ident.orgId db (addWebhook rt ident secret body now db).1 := by
  rw [addWebhook]
  apply isolated_requireRole
  intro _
  apply isolated_read
  intro url _
  apply isolated_read
  intro events _
  split_ifs with hurl
  · apply isolated_bind
    · have hrows : SameElse (fun w : WebhookRow => w.orgId = ident.orgId) db.webhooks.rows
          (tx db.webhooks (insertWebhook rt db.webhooks ident.orgId url secret events)).1.rows := by
        apply @tx_of_ok _ _ (fun s t : Table WebhookRow =>
          SameElse (fun w : WebhookRow => w.orgId = ident.orgId) s.rows t.rows)
            fun s => sameElse_refl s.rows
        intro after id hblock
        rw [insertWebhook, bind_eq_ok] at hblock
        rcases hblock with ⟨text, _, hblock⟩
        rw [bindInt_then, bindText_then, bindText_then, pure_eq_ok, Prod.mk.injEq] at hblock
        rw [← hblock.2.2.2.1]
        exact sameElse_append (decide_eq_true rfl)
      exact ⟨rfl, rfl, rfl, rfl, rfl, rfl, hrows, rfl, rfl, rfl, rfl⟩
    · intro t webhookId _
      exact isolated_end _ _ _ _ t
  · exact isolated_refl db

/-! ## Endpoints that take an id from the request -/

variable (rt) in
/-- A request to approve a baseline that gets as far as to write it. -/
structure BaselineAccepted (db : TenantDB) (ident : Identity) (now : DateTime) (body : Json)
    (projectId : Int) (fields : List (Str × Json)) (after : TenantDB) (baselineId : Str) : Prop where
  ranked : ¬ident.role.rank < Role.maintainer.rank
  names : numberOf rt body "project_id" 0 = .ok projectId
  presents : (bodyOf body).get? "baseline" = .ok (some (.obj fields))
  nonzero : projectId ≠ 0
  allowed : mayAdministerProject db projectId ident.name ident.role = .ok true
  writes : replaceBaseline rt db projectId fields ident.name now = .ok (after, baselineId)

variable (rt) in
/-- A request to add a member that gets as far as to write it. -/
structure MemberAccepted (db : TenantDB) (ident : Identity) (now : DateTime) (projectId : Nat)
    (body : Json) (email role : Str) (after : TenantDB) : Prop where
  ranked : ¬ident.role.rank < Role.admin.rank
  presentsEmail : textOf rt body "email" [] = .ok email
  presentsRole : textOf rt body "role" [] = .ok role
  known : ¬(strip email = [] ∨ strip role ∉ memberRoles)
  writes : replaceMember db projectId (strip email) (strip role) now = .ok (after, ())

/-- A request to review an exception that gets as far as to look for it. -/
structure ReviewAccepted (ident : Identity) (exceptionId : Nat) (body : Json) (approve : Bool) :
    Prop where
  ranked : ¬ident.role.rank < Role.admin.rank
  presents : approves body = .ok approve
  encodable : Encodable ident.name
  fits : InInt64 exceptionId

variable (rt) in
/-- What a request names belongs to the organization of the account, if the request gets
as far as to write. -/
def Scoped (db : TenantDB) (ident : Identity) (now : DateTime) : WriteRequest → Prop
  | .approveBaseline body => ∀ projectId fields after baselineId,
    BaselineAccepted rt db ident now body projectId fields after baselineId →
      ownsProject db ident.orgId projectId = true
  | .addMember projectId body => ∀ email role after,
    MemberAccepted rt db ident now projectId body email role after →
      ownsProject db ident.orgId projectId = true
  | .reviewException exceptionId body => ∀ approve,
    ReviewAccepted ident exceptionId body approve → ∀ row ∈ db.exceptions.rows,
      isReviewed exceptionId row = true → row.orgId = ident.orgId
  | _ => True

theorem replaceBaseline_eq_ok {db after : TenantDB} {projectId : Int}
    {fields : List (Str × Json)} {approver baselineId : Str}
    (h : replaceBaseline rt db projectId fields approver now = .ok (after, baselineId)) :
    ∃ row : Nat → BaselineRow, (∀ id, (row id).id = id ∧ (row id).projectId = projectId) ∧
      after = { db with baselines := (db.baselines.delete fun row =>
        row.projectId = projectId ∧ row.baselineId = baselineId).insert row } := by
  rw [replaceBaseline, bind_eq_ok] at h
  rcases h with ⟨found, _, h⟩
  rw [bindText_then, bind_eq_ok] at h
  rcases h with ⟨_, payload, _, h⟩
  rw [bindInt_then, bindText_then, pure_eq_ok, Prod.mk.injEq] at h
  rcases h with ⟨_, _, hafter, rfl⟩
  exact ⟨_, fun id => ⟨rfl, rfl⟩, hafter.symm⟩

theorem replaceMember_eq_ok {db after : TenantDB} {projectId : Int} {email role : Str}
    (h : replaceMember db projectId email role now = .ok (after, ())) :
    ∃ row : Nat → MemberRow, (∀ id, (row id).id = id ∧ (row id).projectId = projectId) ∧
      after = { db with members := (db.members.delete fun row =>
        row.projectId = projectId ∧ row.userEmail = email).insert row } := by
  rw [replaceMember, bindInt_then, bindText_then, bindText_then, pure_eq_ok, Prod.mk.injEq] at h
  rcases h with ⟨_, _, _, hafter, _⟩
  exact ⟨_, fun id => ⟨rfl, rfl⟩, hafter.symm⟩

/-- A row that replaces rows of its own project. -/
theorem sameElse_replace {ρ : Type} {t : Table ρ} {owned : ρ → Bool} {which : ρ → Bool}
    {row : Nat → ρ} (hwhich : ∀ x, which x = true → owned x = true)
    (hrow : ∀ id, owned (row id) = true) :
    SameElse owned t.rows ((t.delete which).insert row).rows := by
  have hkept : SameElse owned t.rows (t.delete which).rows := by
    apply sameElse_filter
    intro x _ hx
    exact hwhich x (by simpa using hx)
  exact hkept.trans (sameElse_append (hrow _))

/-- A replaced row that is not owned is new. -/
theorem not_sameElse_replace {ρ : Type} {t : Table ρ} {key : ρ → Nat} (hkeyed : Keyed key t)
    {owned : ρ → Bool} {which : ρ → Bool} {row : Nat → ρ} (hkey : ∀ id, key (row id) = id)
    (hrow : owned (row (t.seq + 1)) = false) :
    ¬SameElse owned t.rows ((t.delete which).insert row).rows := by
  intro hsame
  have hnew : row (t.seq + 1) ∈ ((t.delete which).insert row).rows :=
    List.mem_append_right _ List.mem_cons_self
  have hle := hkeyed.given _ ((hsame.mem_iff hrow).mp hnew)
  rw [hkey] at hle
  omega

/-- The event at the end of an endpoint leaves the other tables alone. -/
theorem end_tables (action target : Str) (detail : List (Str × Json)) (response : Response)
    (db : TenantDB) :
    ((do auditFor rt ident action target detail now; return response : Handler Response)
        db).1.baselines = db.baselines ∧
      ((do auditFor rt ident action target detail now; return response : Handler Response)
        db).1.members = db.members ∧
      ((do auditFor rt ident action target detail now; return response : Handler Response)
        db).1.exceptions = db.exceptions := by
  rcases hrun : auditFor rt ident action target detail now db with ⟨t, result⟩
  have htables : t.baselines = db.baselines ∧ t.members = db.members ∧
      t.exceptions = db.exceptions := by
    rw [auditFor] at hrun
    cases hrun
    exact ⟨rfl, rfl, rfl⟩
  cases result with
  | error exc =>
    rw [Action.bind_of_error hrun]
    exact htables
  | ok _ =>
    rw [Action.bind_of_ok hrun]
    exact htables

theorem lift_bind {α β : Type} {x : Except Exc α} {f : α → Handler β} {a : α} (h : x = .ok a) :
    (Action.lift x >>= f) db = f a db := by
  apply Action.bind_of_ok
  rw [h]
  rfl

theorem approveBaseline_baselines {body : Json} {projectId : Int} {fields : List (Str × Json)}
    {after : TenantDB} {baselineId : Str}
    (h : BaselineAccepted rt db ident now body projectId fields after baselineId) :
    (approveBaseline rt ident body now db).1.baselines = after.baselines := by
  rw [approveBaseline, requireRole, if_neg h.ranked, lift_bind h.names, lift_bind h.presents]
  dsimp only
  rw [if_neg h.nonzero]
  have hallowed : (Action.query (fun db => mayAdministerProject db projectId ident.name ident.role) :
      Handler Bool) db = (db, .ok true) := by
    rw [Action.query, h.allowed]
  have hwrites : (Action.of fun db => tx db (replaceBaseline rt db projectId fields ident.name now))
      db = (after, .ok baselineId) := by
    rw [Action.of, h.writes, tx]
  rw [Action.bind_of_ok hallowed, if_neg (by decide), Action.bind_of_ok hwrites]
  exact (end_tables _ _ _ _ after).1

theorem isolated_approveBaseline_iff (hkeyed : Keyed BaselineRow.id db.baselines) (body : Json) :
    Isolated ident.orgId db (approveBaseline rt ident body now db).1 ↔
      Scoped rt db ident now (.approveBaseline body) := by
  constructor
  · intro hisolated projectId fields after baselineId h
    by_contra hother
    have hrows := hisolated.baselines
    rw [approveBaseline_baselines h] at hrows
    rcases replaceBaseline_eq_ok h.writes with ⟨row, hrow, hafter⟩
    rw [hafter] at hrows
    apply not_sameElse_replace hkeyed (fun id => (hrow id).1) _ hrows
    rw [(hrow _).2]
    exact Bool.eq_false_iff.mpr hother
  · intro hscoped
    rw [approveBaseline]
    apply isolated_requireRole
    intro hranked
    apply isolated_read
    intro projectId hnames
    apply isolated_read
    intro baseline hpresents
    split
    · rename_i fields
      split_ifs with hzero
      · exact isolated_refl db
      · apply isolated_bind (isolated_refl db)
        intro t allowed hquery
        rw [Action.query] at hquery
        have hsame : t = db := (congrArg Prod.fst hquery).symm
        have hallowed : mayAdministerProject db projectId ident.name ident.role = .ok allowed :=
          congrArg Prod.snd hquery
        rw [hsame]
        split_ifs with hdenied
        · exact isolated_end _ _ _ _ db
        · apply isolated_bind
          · apply tx_of_ok isolated_refl
            intro after baselineId hwrites
            rw [Bool.not_eq_false] at hdenied
            rw [hdenied] at hallowed
            have howns := hscoped projectId fields after baselineId
              ⟨hranked, hnames, hpresents, hzero, hallowed, hwrites⟩
            rcases replaceBaseline_eq_ok hwrites with ⟨row, hrow, hafter⟩
            have hrows : SameElse (fun b : BaselineRow => ownsProject db ident.orgId b.projectId)
                db.baselines.rows after.baselines.rows := by
              rw [hafter]
              apply sameElse_replace
              · intro b hb
                rw [(of_decide_eq_true hb).1]
                exact howns
              · intro id
                rw [(hrow id).2]
                exact howns
            rw [hafter] at hrows ⊢
            exact ⟨rfl, rfl, rfl, rfl, rfl, rfl, rfl, rfl, hrows, rfl, rfl⟩
          · intro t _ _
            exact isolated_end _ _ _ _ t
    · exact isolated_refl db

theorem addMember_members {projectId : Nat} {body : Json} {email role : Str} {after : TenantDB}
    (h : MemberAccepted rt db ident now projectId body email role after) :
    (addMember rt ident projectId body now db).1.members = after.members := by
  rw [addMember, requireRole, if_neg h.ranked, lift_bind h.presentsEmail, lift_bind h.presentsRole,
    if_neg h.known]
  have hwrites : (Action.of fun db => tx db (replaceMember db projectId (strip email) (strip role)
      now)) db = (after, .ok ()) := by
    rw [Action.of, h.writes, tx]
  rw [Action.bind_of_ok hwrites]
  rcases hrun : auditFor rt ident "project.member.add" (natStr projectId) [] now after with
    ⟨t, result⟩
  have hmembers : t.members = after.members := by
    rw [auditFor] at hrun
    cases hrun
    rfl
  cases result with
  | error exc =>
    rw [Action.bind_of_error hrun]
    exact hmembers
  | ok _ =>
    rw [Action.bind_of_ok hrun]
    rcases hquery : (Action.query (fun db => projectMembers db projectId) :
      Handler (List (Str × Str))) t with ⟨u, found⟩
    have hsame : u = t := (congrArg Prod.fst hquery).symm
    cases found with
    | error exc =>
      rw [Action.bind_of_error hquery, hsame]
      exact hmembers
    | ok members =>
      rw [Action.bind_of_ok hquery, hsame]
      exact hmembers

theorem isolated_addMember_iff (hkeyed : Keyed MemberRow.id db.members) (projectId : Nat)
    (body : Json) :
    Isolated ident.orgId db (addMember rt ident projectId body now db).1 ↔
      Scoped rt db ident now (.addMember projectId body) := by
  constructor
  · intro hisolated email role after h
    by_contra hother
    have hrows := hisolated.members
    rw [addMember_members h] at hrows
    rcases replaceMember_eq_ok h.writes with ⟨row, hrow, hafter⟩
    rw [hafter] at hrows
    apply not_sameElse_replace hkeyed (fun id => (hrow id).1) _ hrows
    rw [(hrow _).2]
    exact Bool.eq_false_iff.mpr hother
  · intro hscoped
    rw [addMember]
    apply isolated_requireRole
    intro hranked
    apply isolated_read
    intro email hemail
    apply isolated_read
    intro role hrole
    split_ifs with hknown
    · exact isolated_refl db
    · apply isolated_bind
      · apply tx_of_ok isolated_refl
        intro after _ hwrites
        have howns := hscoped email role after ⟨hranked, hemail, hrole, hknown, hwrites⟩
        rcases replaceMember_eq_ok hwrites with ⟨row, hrow, hafter⟩
        have hrows : SameElse (fun m : MemberRow => ownsProject db ident.orgId m.projectId)
            db.members.rows after.members.rows := by
          rw [hafter]
          apply sameElse_replace
          · intro m hm
            rw [(of_decide_eq_true hm).1]
            exact howns
          · intro id
            rw [(hrow id).2]
            exact howns
        rw [hafter] at hrows ⊢
        exact ⟨rfl, rfl, rfl, rfl, rfl, rfl, rfl, rfl, rfl, hrows, rfl⟩
      · intro t _ _
        apply isolated_bind (isolated_audit _ _ _ _ t)
        intro u _ _
        apply isolated_bind (isolated_refl u)
        intro v members hquery
        have hsame : v = u := (congrArg Prod.fst hquery).symm
        rw [hsame]
        exact isolated_refl u

theorem postReview_exceptions {exceptionId : Nat} {body : Json} {approve : Bool}
    (h : ReviewAccepted ident exceptionId body approve) :
    (postReview rt ident exceptionId body now db).1.exceptions =
      db.exceptions.update (isReviewed exceptionId) fun row =>
        { row with status := reviewStatus approve, reviewedBy := some ident.name } := by
  have hblock : ∃ hit, updateException db.exceptions exceptionId ident.name approve =
      .ok (db.exceptions.update (isReviewed exceptionId) fun row =>
        { row with status := reviewStatus approve, reviewedBy := some ident.name }, hit) :=
    ⟨_, updateException_eq_ok.mpr ⟨h.encodable, h.fits, rfl, rfl⟩⟩
  rcases hblock with ⟨hit, hblock⟩
  have hreview := reviewException_of_ok hblock
  rw [postReview, requireRole, if_neg h.ranked, lift_bind h.presents]
  have hwrites : (Action.of fun db : TenantDB =>
      let run := reviewException db.exceptions exceptionId ident.name approve
      (({ db with exceptions := run.1 } : TenantDB), run.2)) db =
        ({ db with exceptions := db.exceptions.update (isReviewed exceptionId) fun row =>
          { row with status := reviewStatus approve, reviewedBy := some ident.name } }, .ok hit) := by
    simp only [Action.of, hreview]
  rw [Action.bind_of_ok hwrites]
  cases hit with
  | false => rfl
  | true => exact (end_tables _ _ _ _ _).2.2

/-- A pending row is none of the rows behind its review. -/
theorem not_mem_reviewed {t : Table ExceptionRow} {exceptionId : Int} {reviewer : Str}
    {approve : Bool} {row : ExceptionRow} (h : isReviewed exceptionId row = true) :
    row ∉ (t.update (isReviewed exceptionId) fun row =>
      { row with status := reviewStatus approve, reviewedBy := some reviewer }).rows := by
  intro hmem
  rcases List.mem_map.mp hmem with ⟨old, _, heq⟩
  by_cases hold : isReviewed exceptionId old = true
  · rw [if_pos hold] at heq
    have hstatus : reviewStatus approve = row.status := congrArg ExceptionRow.status heq
    exact reviewStatus_ne_pending approve (hstatus.trans (isReviewed_iff.mp h).2)
  · rw [if_neg hold] at heq
    rw [heq] at hold
    exact hold h

theorem isolated_postReview_iff (exceptionId : Nat) (body : Json) :
    Isolated ident.orgId db (postReview rt ident exceptionId body now db).1 ↔
      Scoped rt db ident now (.reviewException exceptionId body) := by
  constructor
  · intro hisolated approve h row hrow hreviewed
    by_contra hother
    have hrows := hisolated.exceptions
    rw [postReview_exceptions h] at hrows
    exact not_mem_reviewed hreviewed ((hrows.mem_iff (decide_eq_false hother)).mpr hrow)
  · intro hscoped
    rw [postReview]
    apply isolated_requireRole
    intro hranked
    apply isolated_read
    intro approve hpresents
    apply isolated_bind
    · have hrows : SameElse (fun e : ExceptionRow => e.orgId = ident.orgId) db.exceptions.rows
          (reviewException db.exceptions exceptionId ident.name approve).1.rows := by
        apply @tx_of_ok _ _ (fun s t : Table ExceptionRow =>
          SameElse (fun e : ExceptionRow => e.orgId = ident.orgId) s.rows t.rows)
            fun s => sameElse_refl s.rows
        intro after hit hblock
        rcases updateException_eq_ok.mp hblock with ⟨hname, hfits, hafter, _⟩
        rw [← hafter]
        apply sameElse_map
        · intro row hrow hreviewed
          exact decide_eq_true (hscoped approve ⟨hranked, hpresents, hname, hfits⟩ row hrow hreviewed)
        · exact fun row => rfl
      exact ⟨rfl, rfl, rfl, rfl, rfl, hrows, rfl, rfl, rfl, rfl, rfl⟩
    · intro t ok _
      by_cases hok : ok = false
      · rw [if_pos hok]
        exact isolated_refl t
      · rw [if_neg hok]
        exact isolated_end _ _ _ _ t

/-! ## All requests -/

/-- The keys of the tables that rows are replaced in. -/
structure TenantDB.Keyed (db : TenantDB) : Prop where
  baselines : Lib.Keyed BaselineRow.id db.baselines
  members : Lib.Keyed MemberRow.id db.members

namespace Sample

/-- An administrator of organization 1. -/
def otherAdmin : Identity := ⟨1, "ops", .admin⟩

/-- A server with a pending exception of organization 2. -/
def pendingException : TenantDB where
  fleet := ⟨.empty, .empty⟩
  snapshots := .empty
  auditEvents := .empty
  webhooks := .empty
  users := .empty
  projects := .empty
  baselines := .empty
  members := .empty
  policies := .empty
  exceptions := ⟨[⟨1, 2, "rule", "needed for now", "dev", none, .pending, none,
    newYear.isoformat⟩], 1⟩
  retention := []

theorem pendingException_keyed : pendingException.Keyed := ⟨keyed_empty, keyed_empty⟩

def approveBody : Json := .obj [("approve", .bool true)]

end Sample

end DevRepro.Server
