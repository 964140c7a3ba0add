import DevRepro.Server.ReadApi

/-!
# Tenants and reads

An account of an organization must not learn from an answer what the rows of
others are.  `Agree` says that two databases have the same rows of an
organization, and `Blind` that a request is answered alike in all databases
that agree with a given one.

`read_isolated_iff` says which requests are blind.  Those that start from the
organization of the account are; those that start from a project id are exactly
when the project belongs to the organization, and the list of machines is when
no machine points to a project of another organization.
-/

namespace DevRepro.Server

open DevRepro.Python DevRepro.Lib

/-! ## Databases that agree -/

/-- The constraint on projects. -/
def TenantDB.ProjectsKeyed (db : TenantDB) : Prop := Lib.Keyed ProjectRow.id db.projects

/-- The rows of an organization are the same. -/
structure Agree (orgId : Int) (s t : TenantDB) : Prop where
  machines : machinesOf t.toServerDB orgId = machinesOf s.toServerDB orgId
  snapshots : snapshotsOf t.toServerDB orgId = snapshotsOf s.toServerDB orgId
  projects : (t.projects.rows.filter fun p => p.orgId = orgId) =
    s.projects.rows.filter fun p => p.orgId = orgId
  baselines : (t.baselines.rows.filter fun b => ownsProject t orgId b.projectId) =
    s.baselines.rows.filter fun b => ownsProject s orgId b.projectId
  members : (t.members.rows.filter fun m => ownsProject t orgId m.projectId) =
    s.members.rows.filter fun m => ownsProject s orgId m.projectId
  auditEvents : (t.auditEvents.rows.filter fun e => e.orgId = orgId) =
    s.auditEvents.rows.filter fun e => e.orgId = orgId
  policies : (t.policies.rows.filter fun p => p.orgId = orgId) =
    s.policies.rows.filter fun p => p.orgId = orgId
  exceptions : (t.exceptions.rows.filter fun e => e.orgId = orgId) =
    s.exceptions.rows.filter fun e => e.orgId = orgId
  webhooks : (t.webhooks.rows.filter fun w => w.orgId = orgId) =
    s.webhooks.rows.filter fun w => w.orgId = orgId
  retention : (t.retention.filter fun r => r.orgId = orgId) =
    s.retention.filter fun r => r.orgId = orgId

variable (rt : Runtime) (stats : List (Nat × Str) → List SnapshotFact → Answer)

/-- A request is answered alike in all databases that agree with a database. -/
def Blind (ident : Identity) (db : TenantDB) (request : ReadRequest) : Prop :=
  ∀ other : TenantDB, other.ProjectsKeyed → Agree ident.orgId db other →
    respond rt stats ident other request = respond rt stats ident db request

/-- What a request leads to belongs to the organization, if the request gets as far as
to look. -/
def ReadScoped (ident : Identity) (db : TenantDB) : ReadRequest → Prop
  | .machines => ¬ident.role.rank < Role.viewer.rank → InInt64 ident.orgId →
    ∀ m ∈ machinesOf db.toServerDB ident.orgId, ∀ projectId : Nat, m.projectId = some (projectId : Int) →
      ownsProject db ident.orgId projectId = true
  | .baseline projectId => ¬ident.role.rank < Role.viewer.rank → InInt64 projectId →
    ownsProject db ident.orgId projectId = true
  | .members projectId => ¬ident.role.rank < Role.viewer.rank → InInt64 projectId →
    ownsProject db ident.orgId projectId = true
  | _ => True

variable {rt stats} {ident : Identity} {s t : TenantDB} {orgId : Int}

/-! ## Functions of the rows of an organization -/

/-- A stricter filter of rows that agree. -/
theorem filter_and_of_agree {ρ : Type} {xs ys : List ρ} {owned more : ρ → Bool}
    (h : ys.filter owned = xs.filter owned) :
    (ys.filter fun x => owned x && more x) = xs.filter fun x => owned x && more x := by
  have hsplit : ∀ zs : List ρ, (zs.filter fun x => owned x && more x) =
      (zs.filter owned).filter more := by
    intro zs
    rw [List.filter_filter]
    apply List.filter_congr
    intro x _
    rw [Bool.and_comm]
  rw [hsplit, hsplit, h]

theorem ownsProject_iff {db : TenantDB} {projectId : Int} :
    ownsProject db orgId projectId = true ↔
      ∃ p ∈ db.projects.rows, (p.id : Int) = projectId ∧ p.orgId = orgId := by
  rw [ownsProject, List.any_eq_true]
  simp only [decide_eq_true_eq]

theorem ownsProject_congr (h : (t.projects.rows.filter fun p => p.orgId = orgId) =
    s.projects.rows.filter fun p => p.orgId = orgId) (projectId : Int) :
    ownsProject t orgId projectId = ownsProject s orgId projectId := by
  have hany : ∀ db : TenantDB, ownsProject db orgId projectId =
      (db.projects.rows.filter fun p => p.orgId = orgId).any fun p => (p.id : Int) = projectId := by
    intro db
    rw [ownsProject, List.any_filter]
    congr 1
    funext p
    rw [Bool.decide_and, Bool.and_comm]
  rw [hany, hany, h]

theorem Agree.ownsProject_eq (h : Agree orgId s t) (projectId : Int) :
    ownsProject t orgId projectId = ownsProject s orgId projectId :=
  ownsProject_congr h.projects projectId

theorem Agree.snapshots_eq (h : Agree orgId s t) (limit : Nat) :
    newestSnapshots t orgId limit = newestSnapshots s orgId limit := by
  rw [newestSnapshots, newestSnapshots, h.snapshots]

theorem Agree.listSnapshots_eq (h : Agree orgId s t) :
    listSnapshots t orgId = listSnapshots s orgId := by
  rw [listSnapshots, listSnapshots, h.snapshots_eq, h.machines]

theorem Agree.onboarding_eq (h : Agree orgId s t) :
    onboarding rt stats t orgId = onboarding rt stats s orgId := by
  rw [onboarding, onboarding, h.snapshots_eq, enrolmentRows, enrolmentRows, h.machines]

theorem Agree.auditLog_eq (h : Agree orgId s t) : auditLog rt t orgId = auditLog rt s orgId := by
  rw [auditLog, auditLog, h.auditEvents]

theorem Agree.getPolicy_eq (h : Agree orgId s t) (name : Str) :
    getPolicy rt t orgId name = getPolicy rt s orgId name := by
  have hselect : selectPolicy t.policies orgId name = selectPolicy s.policies orgId name := by
    rw [selectPolicy, selectPolicy]
    simp only [Bool.decide_and]
    rw [filter_and_of_agree h.policies]
  rw [getPolicy, getPolicy, activePolicy, activePolicy, hselect]

/-- The rows of a project of the organization. -/
theorem filter_project_of_agree {ρ : Type} {xs ys : List ρ} {project : ρ → Int} {projectId : Int}
    (h : Agree orgId s t) (howns : ownsProject s orgId projectId = true)
    (hrows : (ys.filter fun x => ownsProject t orgId (project x)) =
      xs.filter fun x => ownsProject s orgId (project x)) :
    (ys.filter fun x => project x = projectId) = xs.filter fun x => project x = projectId := by
  have hsplit : ∀ db : TenantDB, ownsProject db orgId projectId = true → ∀ zs : List ρ,
      (zs.filter fun x => project x = projectId) =
        (zs.filter fun x => ownsProject db orgId (project x)).filter fun x =>
          project x = projectId := by
    intro db hdb zs
    rw [List.filter_filter]
    apply List.filter_congr
    intro x _
    by_cases hx : project x = projectId
    · rw [hx, hdb, Bool.and_true]
    · rw [decide_eq_false hx, Bool.false_and]
  rw [hsplit t ((h.ownsProject_eq projectId).trans howns) ys, hrows, ← hsplit s howns xs]

theorem Agree.getBaseline_eq (h : Agree orgId s t) {projectId : Nat}
    (howns : ownsProject s orgId projectId = true) :
    getBaseline rt t projectId = getBaseline rt s projectId := by
  rw [getBaseline, getBaseline, latestBaseline, latestBaseline,
    filter_project_of_agree h howns h.baselines]

theorem Agree.listMembers_eq (h : Agree orgId s t) {projectId : Nat}
    (howns : ownsProject s orgId projectId = true) :
    listMembers t projectId = listMembers s projectId := by
  rw [listMembers, listMembers, projectMembers, projectMembers,
    filter_project_of_agree h howns h.members]

/-- A project of the organization is found by its id. -/
theorem Agree.projectName_eq (h : Agree orgId s t) (hs : s.ProjectsKeyed) (ht : t.ProjectsKeyed)
    {m : MachineRow} (hm : ∀ projectId : Nat, m.projectId = some (projectId : Int) →
      ownsProject s orgId projectId = true) : projectName t m = projectName s m := by
  rw [projectName, projectName]
  cases hproject : m.projectId with
  | none => rfl
  | some projectId =>
    have hfind : ∀ db : TenantDB, db.ProjectsKeyed → ∀ p ∈ db.projects.rows, (p.id : Int) = projectId →
        (db.projects.rows.find? fun p => (p.id : Int) = projectId) = some p := by
      intro db hkeyed p hp hid
      cases hfound : db.projects.rows.find? fun p => (p.id : Int) = projectId with
      | none =>
        rw [List.find?_eq_none] at hfound
        exact absurd (decide_eq_true hid) (hfound p hp)
      | some q =>
        have hq : (q.id : Int) = projectId := by
          have hfoundq := List.find?_some hfound
          exact of_decide_eq_true hfoundq
        have hsame : q.id = p.id := by omega
        rw [hkeyed.row_unique (List.mem_of_find?_eq_some hfound) hp hsame]
    by_cases hnat : 0 ≤ projectId
    · have howns := hm projectId.toNat (by rw [hproject, Int.toNat_of_nonneg hnat])
      rw [Int.toNat_of_nonneg hnat] at howns
      rcases ownsProject_iff.mp howns with ⟨p, hp, hid, horg⟩
      have hpt : p ∈ t.projects.rows := by
        have hmem : p ∈ t.projects.rows.filter fun p => p.orgId = orgId := by
          rw [h.projects]
          exact List.mem_filter.mpr ⟨hp, decide_eq_true horg⟩
        exact List.mem_of_mem_filter hmem
      dsimp only
      rw [hfind s hs p hp hid, hfind t ht p hpt hid]
    · have hnone : ∀ db : TenantDB, (db.projects.rows.find? fun p => (p.id : Int) = projectId) =
          none := by
        intro db
        rw [List.find?_eq_none]
        intro p _ hid
        have heq : (p.id : Int) = projectId := of_decide_eq_true hid
        omega
      dsimp only
      rw [hnone, hnone]

theorem Agree.listMachines_eq (h : Agree orgId s t) (hs : s.ProjectsKeyed) (ht : t.ProjectsKeyed)
    (hm : ∀ m ∈ machinesOf s.toServerDB orgId, ∀ projectId : Nat, m.projectId = some (projectId : Int) →
      ownsProject s orgId projectId = true) : listMachines t orgId = listMachines s orgId := by
  have hjson : ((machinesOf s.toServerDB orgId).mergeSort seenAfter).map (machineJson t) =
      ((machinesOf s.toServerDB orgId).mergeSort seenAfter).map (machineJson s) := by
    apply List.map_congr_left
    intro m hmem
    rw [machineJson, machineJson, h.projectName_eq hs ht (hm m (List.mem_mergeSort.mp hmem))]
  rw [listMachines, listMachines, h.machines, hjson]

/-- A request that is scoped is blind. -/
theorem blind_of_readScoped (hs : s.ProjectsKeyed) {request : ReadRequest}
    (hscoped : ReadScoped ident s request) : Blind rt stats ident s request := by
  intro t ht h
  have hrole : ∀ (minRole : Role) (x y : Answer), (¬ident.role.rank < minRole.rank → x = y) →
      requireRead ident minRole x = requireRead ident minRole y := by
    intro minRole x y hxy
    rw [requireRead, requireRead]
    split_ifs with hrank
    · rfl
    · exact hxy hrank
  have hbind : ∀ (n : Int) (x y : Unit → Answer), (InInt64 n → x () = y ()) →
      (bindInt n >>= x) = (bindInt n >>= y) := by
    intro n x y hxy
    by_cases hn : InInt64 n
    · rw [bindInt_pass hn, bindInt_pass hn, hxy hn]
    · rcases bindInt_error hn with ⟨exc, hexc⟩
      rw [hexc]
      rfl
  cases request with
  | machines =>
    apply hrole
    intro hrank
    by_cases horg : InInt64 ident.orgId
    · exact h.listMachines_eq hs ht (hscoped hrank horg)
    · exact hbind ident.orgId _ _ fun hin => absurd hin horg
  | snapshots => exact hrole _ _ _ fun _ => h.listSnapshots_eq
  | baseline projectId =>
    apply hrole
    intro hrank
    by_cases hin : InInt64 projectId
    · exact h.getBaseline_eq (hscoped hrank hin)
    · rcases bindInt_error hin with ⟨exc, hexc⟩
      rw [getBaseline, getBaseline, latestBaseline, latestBaseline, hexc]
      rfl
  | members projectId =>
    apply hrole
    intro hrank
    by_cases hin : InInt64 projectId
    · exact h.listMembers_eq (hscoped hrank hin)
    · rcases bindInt_error hin with ⟨exc, hexc⟩
      rw [listMembers, listMembers, projectMembers, projectMembers, hexc]
      rfl
  | onboarding => exact hrole _ _ _ fun _ => h.onboarding_eq
  | policy name => exact hrole _ _ _ fun _ => h.getPolicy_eq name
  | audit => exact hrole _ _ _ fun _ => h.auditLog_eq

/-! ## Requests that are not scoped -/

/-- Rows of the organization, and some of another one. -/
theorem filter_kept {ρ : Type} {owned : ρ → Bool} {xs new : List ρ}
    (hnew : ∀ x ∈ new, owned x = false) :
    (xs.filter owned ++ new).filter owned = xs.filter owned := by
  have hnone : new.filter owned = [] := by
    rw [List.filter_eq_nil_iff]
    intro x hx
    rw [hnew x hx]
    exact Bool.false_ne_true
  rw [List.filter_append, List.filter_filter, hnone, List.append_nil]
  simp only [Bool.and_self]

/-- The database with other baselines of foreign projects. -/
def withBaselines (s : TenantDB) (orgId : Int) (new : List BaselineRow) : TenantDB :=
  { s with baselines :=
    ⟨(s.baselines.rows.filter fun b => ownsProject s orgId b.projectId) ++ new, s.baselines.seq⟩ }

/-- The database with other members of foreign projects. -/
def withMembers (s : TenantDB) (orgId : Int) (new : List MemberRow) : TenantDB :=
  { s with members :=
    ⟨(s.members.rows.filter fun m => ownsProject s orgId m.projectId) ++ new, s.members.seq⟩ }

/-- The database with other foreign projects. -/
def withProjects (s : TenantDB) (orgId : Int) (new : List ProjectRow) (seq : Nat) : TenantDB :=
  { s with projects := ⟨(s.projects.rows.filter fun p => p.orgId = orgId) ++ new, seq⟩ }

theorem agree_withBaselines {new : List BaselineRow}
    (hnew : ∀ b ∈ new, ownsProject s orgId b.projectId = false) :
    Agree orgId s (withBaselines s orgId new) :=
  ⟨rfl, rfl, rfl, filter_kept hnew, rfl, rfl, rfl, rfl, rfl, rfl⟩

theorem agree_withMembers {new : List MemberRow}
    (hnew : ∀ m ∈ new, ownsProject s orgId m.projectId = false) :
    Agree orgId s (withMembers s orgId new) :=
  ⟨rfl, rfl, rfl, rfl, filter_kept hnew, rfl, rfl, rfl, rfl, rfl⟩

theorem agree_withProjects {new : List ProjectRow} {seq : Nat}
    (hnew : ∀ p ∈ new, p.orgId ≠ orgId) : Agree orgId s (withProjects s orgId new seq) := by
  have hprojects : ((withProjects s orgId new seq).projects.rows.filter fun p => p.orgId = orgId) =
      s.projects.rows.filter fun p => p.orgId = orgId :=
    filter_kept fun p hp => decide_eq_false (hnew p hp)
  have howns := fun projectId => ownsProject_congr hprojects projectId
  refine ⟨rfl, rfl, hprojects, ?_, ?_, rfl, rfl, rfl, rfl, rfl⟩
  · exact List.filter_congr fun b _ => howns b.projectId
  · exact List.filter_congr fun m _ => howns m.projectId

/-- The rows of a foreign project are the new ones. -/
theorem filter_foreign {ρ : Type} {xs new : List ρ} {project : ρ → Int} {projectId : Int}
    (hother : ownsProject s orgId projectId = false) (hnew : ∀ x ∈ new, project x = projectId) :
    (((xs.filter fun x => ownsProject s orgId (project x)) ++ new).filter fun x =>
      project x = projectId) = new := by
  have hnone : ((xs.filter fun x => ownsProject s orgId (project x)).filter fun x =>
      project x = projectId) = [] := by
    rw [List.filter_eq_nil_iff]
    intro x hx hid
    have howns := (List.mem_filter.mp hx).2
    rw [of_decide_eq_true hid, hother] at howns
    exact Bool.false_ne_true howns
  have hall : (new.filter fun x => project x = projectId) = new :=
    List.filter_eq_self.mpr fun x hx => decide_eq_true (hnew x hx)
  rw [List.filter_append, hnone, hall, List.nil_append]

theorem respond_allowed {minRole : Role} {answer : Answer} (h : ¬ident.role.rank < minRole.rank) :
    requireRead ident minRole answer = answer := if_neg h

/-- Two databases that agree with a third are answered alike. -/
theorem Blind.same {request : ReadRequest} {u : TenantDB} (h : Blind rt stats ident s request)
    (ht : t.ProjectsKeyed) (hst : Agree ident.orgId s t) (hu : u.ProjectsKeyed)
    (hsu : Agree ident.orgId s u) :
    respond rt stats ident t request = respond rt stats ident u request :=
  (h t ht hst).trans (h u hu hsu).symm

theorem owned_of_blind_baseline (hs : s.ProjectsKeyed) {projectId : Nat}
    (h : Blind rt stats ident s (.baseline projectId)) (hrank : ¬ident.role.rank < Role.viewer.rank)
    (hin : InInt64 projectId) : ownsProject s ident.orgId projectId = true := by
  by_contra hother
  rw [Bool.not_eq_true] at hother
  let row : BaselineRow := ⟨1, projectId, [], dumpText rt .plain 0 (.bool true), none, []⟩
  have hsame := h.same (t := withBaselines s ident.orgId []) (u := withBaselines s ident.orgId [row])
    hs (agree_withBaselines fun b hb => absurd hb List.not_mem_nil) hs
      (agree_withBaselines fun b hb => by rw [List.mem_singleton.mp hb]; exact hother)
  have hload : loads rt.limits row.payload = .ok (.bool true) :=
    loads_dumpText rt .plain (.bool 0 true)
  have hnone : latestBaseline rt (withBaselines s ident.orgId []) projectId = .ok none := by
    rw [latestBaseline, bindInt_pass hin, withBaselines,
      filter_foreign hother fun b hb => absurd hb List.not_mem_nil, List.mergeSort_nil]
    rfl
  have hone : latestBaseline rt (withBaselines s ident.orgId [row]) projectId =
      .ok (some (.bool true)) := by
    rw [latestBaseline, bindInt_pass hin, withBaselines,
      filter_foreign hother fun b hb => by rw [List.mem_singleton.mp hb], List.mergeSort_singleton]
    simp only [List.head?_cons, hload]
    rfl
  have hanswer : ∀ new found, latestBaseline rt (withBaselines s ident.orgId new) projectId = .ok found →
      respond rt stats ident (withBaselines s ident.orgId new) (.baseline projectId) =
        .ok (foundOr "no baseline" found) := by
    intro new found hfound
    show requireRead ident .viewer (getBaseline rt (withBaselines s ident.orgId new) projectId) = _
    rw [respond_allowed hrank, getBaseline, hfound]
    rfl
  rw [hanswer _ _ hnone, hanswer _ _ hone] at hsame
  have hstatus : (404 : Nat) = 200 := congrArg Response.status (Except.ok.inj hsame)
  exact absurd hstatus (by decide)

theorem owned_of_blind_members (hs : s.ProjectsKeyed) {projectId : Nat}
    (h : Blind rt stats ident s (.members projectId)) (hrank : ¬ident.role.rank < Role.viewer.rank)
    (hin : InInt64 projectId) : ownsProject s ident.orgId projectId = true := by
  by_contra hother
  rw [Bool.not_eq_true] at hother
  let row : MemberRow := ⟨1, projectId, [], [], []⟩
  have hsame := h.same (t := withMembers s ident.orgId []) (u := withMembers s ident.orgId [row])
    hs (agree_withMembers fun m hm => absurd hm List.not_mem_nil) hs
      (agree_withMembers fun m hm => by rw [List.mem_singleton.mp hm]; exact hother)
  have hanswer : ∀ new : List MemberRow, (∀ m ∈ new, m.projectId = (projectId : Int)) →
      respond rt stats ident (withMembers s ident.orgId new) (.members projectId) =
        .ok (membersAnswer projectId ((new.mergeSort fun a b =>
          strLe a.userEmail b.userEmail).map fun row => (row.userEmail, row.role))) := by
    intro new hnew
    show requireRead ident .viewer (listMembers (withMembers s ident.orgId new) projectId) = _
    rw [respond_allowed hrank, listMembers, projectMembers, bindInt_pass hin, withMembers,
      filter_foreign hother hnew]
    rfl
  rw [hanswer [] (fun m hm => absurd hm List.not_mem_nil),
    hanswer [row] (fun m hm => by rw [List.mem_singleton.mp hm])] at hsame
  simp [membersAnswer, jsonify] at hsame

/-- Machines that are listed alike are joined with projects of one name. -/
theorem projectName_eq_of_listMachines (horg : InInt64 orgId)
    (hmachines : machinesOf t.toServerDB orgId = machinesOf s.toServerDB orgId)
    (h : listMachines t orgId = listMachines s orgId) {m : MachineRow}
    (hm : m ∈ machinesOf s.toServerDB orgId) :
    optionJson (projectName t m) = optionJson (projectName s m) := by
  rw [listMachines, listMachines, bindInt_pass horg, bindInt_pass horg, hmachines] at h
  have hbody := congrArg Response.body (Except.ok.inj h)
  have hmaps : ((machinesOf s.toServerDB orgId).mergeSort seenAfter).map (machineJson t) =
      ((machinesOf s.toServerDB orgId).mergeSort seenAfter).map (machineJson s) :=
    Json.arr.inj hbody
  have hone := List.map_inj_left.mp hmaps m (List.mem_mergeSort.mpr hm)
  simp only [machineJson, Json.obj.injEq, List.cons.injEq, Prod.mk.injEq, and_true, true_and]
    at hone
  exact hone

theorem owned_of_blind_machines (hs : s.ProjectsKeyed)
    (h : Blind rt stats ident s .machines) (hrank : ¬ident.role.rank < Role.viewer.rank)
    (horg : InInt64 ident.orgId) {m : MachineRow} (hm : m ∈ machinesOf s.toServerDB ident.orgId)
    {projectId : Nat} (hproject : m.projectId = some (projectId : Int)) :
    ownsProject s ident.orgId projectId = true := by
  by_contra hother
  let row : ProjectRow := ⟨projectId, ident.orgId + 1, []⟩
  let seq := max s.projects.seq projectId
  have hkept : ∀ p ∈ s.projects.rows.filter fun p => p.orgId = ident.orgId, p.id ≠ projectId := by
    intro p hp hid
    rw [List.mem_filter, decide_eq_true_iff] at hp
    apply hother
    rw [ownsProject_iff]
    exact ⟨p, hp.1, by rw [hid], hp.2⟩
  have hkeyed : ∀ new : List ProjectRow, new = [] ∨ new = [row] →
      (withProjects s ident.orgId new seq).ProjectsKeyed := by
    intro new hnew
    have hold : ((s.projects.rows.filter fun p => p.orgId = ident.orgId).map ProjectRow.id).Nodup :=
      hs.distinct.sublist (List.filter_sublist.map ProjectRow.id)
    have hle : ∀ p ∈ s.projects.rows.filter fun p => p.orgId = ident.orgId, p.id ≤ seq :=
      fun p hp => (hs.given p (List.mem_of_mem_filter hp)).trans (le_max_left _ _)
    rcases hnew with rfl | rfl
    · constructor
      · rw [withProjects, List.append_nil]
        exact hold
      · rw [withProjects, List.append_nil]
        exact hle
    · constructor
      · rw [withProjects, List.map_append, List.nodup_append]
        refine ⟨hold, List.nodup_singleton _, fun a ha b hb heq => ?_⟩
        rcases List.mem_map.mp ha with ⟨p, hp, rfl⟩
        rw [List.map_singleton, List.mem_singleton] at hb
        exact hkept p hp (heq.trans hb)
      · intro p hp
        rcases List.mem_append.mp hp with hin | hin
        · exact hle p hin
        · rw [List.mem_singleton.mp hin]
          exact le_max_right _ _
  have hagree : ∀ new : List ProjectRow, new = [] ∨ new = [row] →
      Agree ident.orgId s (withProjects s ident.orgId new seq) := by
    intro new hnew
    apply agree_withProjects
    intro p hp
    rcases hnew with rfl | rfl
    · exact absurd hp List.not_mem_nil
    · rw [List.mem_singleton.mp hp]
      show ident.orgId + 1 ≠ ident.orgId
      omega
  have hsame := h.same (hkeyed [] (Or.inl rfl)) (hagree [] (Or.inl rfl))
    (hkeyed [row] (Or.inr rfl)) (hagree [row] (Or.inr rfl))
  have hlists : listMachines (withProjects s ident.orgId [] seq) ident.orgId =
      listMachines (withProjects s ident.orgId [row] seq) ident.orgId := by
    have hread := hsame
    rw [respond, respond, respond_allowed hrank, respond_allowed hrank] at hread
    exact hread
  have hmachines : machinesOf (withProjects s ident.orgId [] seq).toServerDB ident.orgId =
      machinesOf (withProjects s ident.orgId [row] seq).toServerDB ident.orgId := rfl
  have hname := projectName_eq_of_listMachines horg hmachines hlists hm
  have hnone : ((s.projects.rows.filter fun p => p.orgId = ident.orgId).find? fun p =>
      (p.id : Int) = projectId) = none := by
    rw [List.find?_eq_none]
    intro p hp hid
    have heq : (p.id : Int) = projectId := of_decide_eq_true hid
    exact hkept p hp (by omega)
  have hfirst : projectName (withProjects s ident.orgId [] seq) m = none := by
    rw [projectName, hproject, withProjects]
    dsimp only
    rw [List.append_nil, hnone]
    rfl
  have hsecond : projectName (withProjects s ident.orgId [row] seq) m = some [] := by
    rw [projectName, hproject, withProjects]
    dsimp only
    have hfound : ([row].find? fun p => (p.id : Int) = projectId) = some row :=
      List.find?_cons_of_pos (decide_eq_true rfl)
    rw [List.find?_append, hnone, Option.none_or, hfound]
    rfl
  rw [hfirst, hsecond] at hname
  cases hname

/-- A request is answered alike in all databases with the rows of its organization,
exactly when what it leads to belongs to the organization. -/
theorem read_isolated_iff (rt : Runtime) (stats : List (Nat × Str) → List SnapshotFact → Answer)
    (ident : Identity) {db : TenantDB} (hdb : db.ProjectsKeyed) (request : ReadRequest) :
    Blind rt stats ident db request ↔ ReadScoped ident db request := by
  constructor
  · intro h
    cases request with
    | machines =>
      intro hrank horg m hm projectId hproject
      exact owned_of_blind_machines hdb h hrank horg hm hproject
    | baseline projectId => exact fun hrank hin => owned_of_blind_baseline hdb h hrank hin
    | members projectId => exact fun hrank hin => owned_of_blind_members hdb h hrank hin
    | _ => exact trivial
  · exact fun hscoped => blind_of_readScoped hdb hscoped

/-! ## The members of another project -/

namespace Sample

/-- A viewer of organization 1. -/
def otherViewer : Identity := ⟨1, "auditor", .viewer⟩

/-- A server with a project of organization 2. -/
def foreignProject : TenantDB :=
  { pendingException with projects := ⟨[⟨1, 2, "payments"⟩], 1⟩ }

theorem foreignProject_keyed : foreignProject.ProjectsKeyed :=
  ⟨List.nodup_singleton _, by decide⟩

/-- The same server with a member of the project. -/
def foreignMember : TenantDB :=
  { foreignProject with members := ⟨[⟨1, 1, "dev@example", "maintainer", newYear.isoformat⟩], 1⟩ }

theorem foreignMember_agrees : Agree 1 foreignProject foreignMember :=
  ⟨rfl, rfl, rfl, rfl, rfl, rfl, rfl, rfl, rfl, rfl⟩

def noStats : List (Nat × Str) → List SnapshotFact → Answer := fun _ _ => .ok (jsonify .null)

end Sample

/-- A viewer of one organization sees the members of a project of another. -/
theorem members_across_organizations :
    Sample.foreignProject.ProjectsKeyed ∧ Sample.foreignMember.ProjectsKeyed ∧
      Agree Sample.otherViewer.orgId Sample.foreignProject Sample.foreignMember ∧
      respond .standard Sample.noStats Sample.otherViewer Sample.foreignProject (.members 1) ≠
        respond .standard Sample.noStats Sample.otherViewer Sample.foreignMember (.members 1) := by
  refine ⟨Sample.foreignProject_keyed, Sample.foreignProject_keyed, Sample.foreignMember_agrees,
    fun hsame => ?_⟩
  have hanswer : ∀ db : TenantDB, respond .standard Sample.noStats Sample.otherViewer db
      (.members 1) = .ok (membersAnswer 1 (((db.members.rows.filter fun row =>
        row.projectId = 1).mergeSort fun a b => strLe a.userEmail b.userEmail).map fun row =>
          (row.userEmail, row.role))) := by
    intro db
    rw [respond, respond_allowed (by decide), listMembers, projectMembers,
      bindInt_pass (by decide)]
    rfl
  rw [hanswer, hanswer] at hsame
  simp [membersAnswer, jsonify, Sample.foreignProject, Sample.foreignMember,
    Sample.pendingException, Table.empty] at hsame

/-- The rule for the snapshots of organization 1. -/
theorem read_isolated_iff_snapshots :
    Blind .standard Sample.noStats Sample.otherViewer Sample.foreignProject .snapshots ↔
      ReadScoped Sample.otherViewer Sample.foreignProject .snapshots :=
  read_isolated_iff .standard Sample.noStats Sample.otherViewer Sample.foreignProject_keyed _

end DevRepro.Server
