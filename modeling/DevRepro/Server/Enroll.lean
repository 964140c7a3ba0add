import DevRepro.Server.Db

/-!
# The enrollment endpoint

`enroll` of `server/api.py`.  The request redeems its token in one transaction,
and registers the machine in a second one.  The first takes the organization
from the token and the second from the body, and between them the organization
of the body is converted to a number.

`enrollment_confined_iff` says when the requests of a run stay within the
organizations of their tokens and change nothing unless they answer 200.
-/

namespace DevRepro.Server

open DevRepro.Python DevRepro.Lib DevRepro.Lib.Machine

/-! ## The endpoint -/

variable (rt : Runtime) (sha256 : Str → Str)

/-- What a request presents. -/
structure EnrollFields where
  token : Str
  machineKey : Str
  osName : Str
  arch : Str
  org : Json

/-- The fields of a body, which is `null` when the request holds no JSON. -/
def enrollFields (body : Json) : Except Exc EnrollFields := do
  let body := body.orElse (.obj [])
  let token ← (← body.getD "enrollment_token" (.str [])).toStr rt
  let machineKey ← (← body.getD "machine_key" (.str [])).toStr rt
  let osName ← (← body.getD "os_name" (.str "unknown")).toStr rt
  let arch ← (← body.getD "arch" (.str "unknown")).toStr rt
  let org ← body.getD "org_id" (.int 0)
  return ⟨token, strip machineKey, osName, arch, org⟩

/-- A request that ran: what it left, the machines that it inserted or updated,
and its answer, which is an exception when the server answers 500. -/
structure EnrollRun where
  db : ServerDB
  touched : List Nat
  answer : Except Exc Response

/-- The organization that a redeemed machine is registered for. -/
def registeredOrg (fleet : Fleet) (machineId : Nat) (org : Int) : Int :=
  if org ≠ 0 then org else orgForMachine fleet machineId

/-- The part of `enroll` behind the redemption. -/
def enrollRedeemed (db : ServerDB) (fields : EnrollFields) (machineId : Nat) (now : DateTime) :
    EnrollRun :=
  match fields.org.toInt rt with
  | .error exc => ⟨db, [machineId], .error exc⟩
  | .ok org =>
    match registerMachine db.fleet (registeredOrg db.fleet machineId org) fields.machineKey
        fields.osName fields.arch now with
    | (_, .error exc) => ⟨db, [machineId], .error exc⟩
    | (fleet, .ok registered) =>
      match audit rt { db with fleet := fleet } (orgForMachine fleet machineId)
          (lit "machine:" ++ fields.machineKey) "machine.enroll" (natStr machineId) [] now with
      | (db, .error exc) => ⟨db, [machineId, registered], .error exc⟩
      | (db, .ok ()) =>
        ⟨db, [machineId, registered], .ok (jsonify (.obj [("machine_id", .int machineId)]))⟩

/-- The part of `enroll` behind the fields. -/
def enrollWith (db : ServerDB) (fields : EnrollFields) (now : DateTime) : EnrollRun :=
  if fields.token = [] ∨ fields.machineKey = [] then
    ⟨db, [], .ok (err 400 "enrollment_token and machine_key required")⟩
  else
    match redeemEnrollmentToken sha256 db.fleet fields.token fields.machineKey now with
    | (fleet, .error exc) => ⟨{ db with fleet := fleet }, [], .error exc⟩
    | (fleet, .ok none) =>
      ⟨{ db with fleet := fleet }, [], .ok (err 403 "invalid, used or expired enrollment token")⟩
    | (fleet, .ok (some machineId)) =>
      enrollRedeemed rt { db with fleet := fleet } fields machineId now

/-- `enroll`, at the time `now`. -/
def enroll (db : ServerDB) (body : Json) (now : DateTime) : EnrollRun :=
  match enrollFields rt body with
  | .error exc => ⟨db, [], .error exc⟩
  | .ok fields => enrollWith rt sha256 db fields now

/-! ## Runs -/

/-- What comes out of a request besides the database. -/
abbrev EnrollOutput := List Nat × Except Exc Response

def enrollStep (db : ServerDB) (request : Json × DateTime) : ServerDB × EnrollOutput :=
  let run := enroll rt sha256 db request.1 request.2
  (run.db, run.touched, run.answer)

/-- A run of requests. -/
abbrev EnrollTrace := List (Entry ServerDB (Json × DateTime) EnrollOutput)

/-- What happens on a list of requests. -/
def enrollTrace (db : ServerDB) (requests : List (Json × DateTime)) : EnrollTrace :=
  trace (enrollStep rt sha256) db requests

/-- An answer with status 200. -/
def Answered (answer : Except Exc Response) : Prop := ∃ r, answer = .ok r ∧ r.status = 200

/-- The hash of the token that a request presents. -/
def presented (body : Json) : Option Str :=
  match enrollFields rt body with
  | .error _ => none
  | .ok fields => some (sha256 fields.token)

/-- A request that stays within the organization of its token, and changes neither a
machine nor a token unless it answers 200. -/
structure Confined (e : Entry ServerDB (Json × DateTime) EnrollOutput) : Prop where
  owned : ∀ id ∈ e.output.1, ∃ row ∈ e.before.fleet.tokens.rows,
    presented rt sha256 e.input.1 = some row.tokenHash ∧
      ∀ m ∈ e.after.fleet.machines.rows, m.id = id → m.orgId = row.orgId
  unchanged : ¬Answered e.output.2 → e.after.fleet = e.before.fleet

/-- What a run of enrollments keeps to. -/
structure EnrollmentConfined (run : EnrollTrace) : Prop where
  confined : ∀ e ∈ run, Confined rt sha256 e
  /-- One token is used for one machine. -/
  single : ∀ e ∈ run, ∀ other ∈ run,
    presented rt sha256 e.input.1 = presented rt sha256 other.input.1 →
      ∀ i ∈ e.output.1, ∀ j ∈ other.output.1, i = j

/-- A request that redeems the token `row`. -/
structure Redeems (db : ServerDB) (request : Json × DateTime) (fields : EnrollFields)
    (row : TokenRow) : Prop where
  read : enrollFields rt request.1 = .ok fields
  token : fields.token ≠ []
  machineKey : fields.machineKey ≠ []
  found : redeemSelect sha256 db.fleet fields.token request.2 = .ok (some row)
  insertable : db.fleet.Insertable row.orgId fields.machineKey

/-- A body that goes with the token `row`. -/
structure Agrees (fields : EnrollFields) (row : TokenRow) : Prop where
  org : ∃ org, fields.org.toInt rt = .ok org ∧ (org = 0 ∨ org = row.orgId)
  osName : Encodable fields.osName
  arch : Encodable fields.arch

/-- Whether a request is safe: when it redeems a token, its body goes with the token. -/
def EnrollSafe (db : ServerDB) (request : Json × DateTime) : Prop :=
  ∀ fields row, Redeems rt sha256 db request fields row → Agrees rt fields row

variable {rt sha256}

/-! ## The cases of a request -/

/-- The database behind the redemption of a request. -/
def ServerDB.redeemed (db : ServerDB) (row : TokenRow) (machineKey : Str) (now : DateTime) :
    ServerDB :=
  { db with fleet := db.fleet.redeemed row machineKey now }

theorem redeem_missed {fleet : Fleet} {token machineKey : Str} {now : DateTime}
    (h : redeemSelect sha256 fleet token now = .ok none) :
    redeemEnrollmentToken sha256 fleet token machineKey now = (fleet, .ok none) := by
  rw [redeemEnrollmentToken, h]

theorem redeem_raised {fleet : Fleet} {token machineKey : Str} {now : DateTime} {exc : Exc}
    (h : redeemSelect sha256 fleet token now = .error exc) :
    redeemEnrollmentToken sha256 fleet token machineKey now = (fleet, .error exc) := by
  rw [redeemEnrollmentToken, h]

theorem redeem_committed {fleet after : Fleet} {token machineKey : Str} {now : DateTime}
    {row : TokenRow} {result : Except Exc Nat}
    (h : redeemSelect sha256 fleet token now = .ok (some row))
    (hcommit : redeemCommit fleet row machineKey now = (after, result)) :
    redeemEnrollmentToken sha256 fleet token machineKey now = (after, result.map some) := by
  rw [redeemEnrollmentToken, h]
  simp only [hcommit]

theorem enroll_redeems {db : ServerDB} {request : Json × DateTime} {fields : EnrollFields}
    {row : TokenRow} (h : Redeems rt sha256 db request fields row) :
    enroll rt sha256 db request.1 request.2 =
      enrollRedeemed rt (db.redeemed row fields.machineKey request.2) fields
        (db.fleet.machines.seq + 1) request.2 := by
  have hpresent : ¬(fields.token = [] ∨ fields.machineKey = []) := by
    intro hempty
    exact hempty.elim h.token h.machineKey
  rw [enroll, h.read]
  show enrollWith rt sha256 db fields request.2 = _
  rw [enrollWith, if_neg hpresent, redeem_committed h.found (redeemCommit_ok h.insertable)]
  rfl

theorem not_answered_err {status : Nat} {message : Str} (h : status ≠ 200) :
    ¬Answered (.ok (err status message)) := by
  intro ⟨r, hr, h200⟩
  cases hr
  exact h h200

theorem not_answered_error (exc : Exc) : ¬Answered (.error exc) := by
  intro ⟨r, hr, _⟩
  cases hr

/-- A request that redeems no token leaves everything as it was. -/
theorem enroll_refused {db : ServerDB} {request : Json × DateTime}
    (h : ∀ fields row, ¬Redeems rt sha256 db request fields row) :
    ∃ answer, enroll rt sha256 db request.1 request.2 = ⟨db, [], answer⟩ ∧ ¬Answered answer := by
  cases hfields : enrollFields rt request.1 with
  | error exc =>
    rw [enroll, hfields]
    exact ⟨_, rfl, not_answered_error exc⟩
  | ok fields =>
    have hrun : enroll rt sha256 db request.1 request.2 =
        enrollWith rt sha256 db fields request.2 := by
      rw [enroll, hfields]
    rw [hrun, enrollWith]
    by_cases hempty : fields.token = [] ∨ fields.machineKey = []
    · rw [if_pos hempty]
      exact ⟨_, rfl, not_answered_err (by decide)⟩
    · rw [if_neg hempty]
      cases hselect : redeemSelect sha256 db.fleet fields.token request.2 with
      | error exc =>
        rw [redeem_raised hselect]
        exact ⟨_, rfl, not_answered_error exc⟩
      | ok found =>
        cases found with
        | none =>
          rw [redeem_missed hselect]
          exact ⟨_, rfl, not_answered_err (by decide)⟩
        | some row =>
          have hnot : ¬db.fleet.Insertable row.orgId fields.machineKey := by
            intro hinsertable
            rw [not_or] at hempty
            exact h fields row ⟨hfields, hempty.1, hempty.2, hselect, hinsertable⟩
          rcases @redeemCommit_error _ _ _ request.2 hnot with ⟨exc, hcommit⟩
          rw [redeem_committed hselect hcommit]
          exact ⟨_, rfl, not_answered_error exc⟩

/-! ## Valid databases -/

/-- The constraints of the tables.  An organization is a number that fits in a column. -/
structure ServerDB.Valid (db : ServerDB) : Prop where
  fleet : db.fleet.Valid
  fits : ∀ row ∈ db.fleet.tokens.rows, InInt64 row.orgId

/-- A change of machines that keeps what identifies them. -/
theorem Fleet.Valid.update_machines {fleet : Fleet} (h : fleet.Valid) {which : MachineRow → Bool}
    {change : MachineRow → MachineRow} (hchange : ∀ row, (change row).id = row.id ∧
      (change row).orgId = row.orgId ∧ (change row).machineKey = row.machineKey) :
    Fleet.Valid ⟨fleet.tokens, fleet.machines.update which change⟩ := by
  have hsame : (fun row : MachineRow => (row.orgId, row.machineKey)) ∘
      (fun row => if which row then change row else row) =
        fun row => (row.orgId, row.machineKey) := by
    funext row
    rw [Function.comp_apply]
    split_ifs
    · rw [(hchange row).2.1, (hchange row).2.2]
    · rfl
  constructor
  · exact h.tokens_keyed
  · exact h.tokens_unique
  · exact h.machines_keyed.update fun row => (hchange row).1
  · rw [Table.update, List.map_map, hsame]
    exact h.machines_unique

/-- A new machine with a key that is free. -/
theorem Fleet.Valid.insert_machine {fleet : Fleet} (h : fleet.Valid) {row : Nat → MachineRow}
    (hid : ∀ id, (row id).id = id)
    (hfree : ∀ id, ¬fleet.Taken (row id).orgId (row id).machineKey) :
    Fleet.Valid ⟨fleet.tokens, fleet.machines.insert row⟩ := by
  constructor
  · exact h.tokens_keyed
  · exact h.tokens_unique
  · exact h.machines_keyed.insert (hid _)
  · rw [Table.insert, List.map_append, List.nodup_append]
    refine ⟨h.machines_unique, List.nodup_singleton _, fun a ha b hb heq => ?_⟩
    rcases List.mem_map.mp ha with ⟨old, hold, rfl⟩
    rw [List.map_singleton, List.mem_singleton] at hb
    have hsame := heq.trans hb
    rw [Prod.mk.injEq] at hsame
    exact hfree _ ⟨old, hold, hsame.1, hsame.2⟩

/-- A token that is marked as used. -/
theorem Fleet.Valid.update_tokens {fleet : Fleet} (h : fleet.Valid) {which : TokenRow → Bool}
    {change : TokenRow → TokenRow}
    (hchange : ∀ row, (change row).id = row.id ∧ (change row).tokenHash = row.tokenHash) :
    Fleet.Valid ⟨fleet.tokens.update which change, fleet.machines⟩ := by
  have hsame : TokenRow.tokenHash ∘ (fun row => if which row then change row else row) =
      TokenRow.tokenHash := by
    funext row
    rw [Function.comp_apply]
    split_ifs
    · exact (hchange row).2
    · rfl
  constructor
  · exact h.tokens_keyed.update fun row => (hchange row).1
  · rw [Table.update, List.map_map, hsame]
    exact h.tokens_unique
  · exact h.machines_keyed
  · exact h.machines_unique

theorem Fleet.Valid.redeemed {fleet : Fleet} (h : fleet.Valid) {row : TokenRow} {machineKey : Str}
    (hfree : ¬fleet.Taken row.orgId machineKey) (now : DateTime) :
    (fleet.redeemed row machineKey now).Valid := by
  have hmachines := @Fleet.Valid.insert_machine _ h (newMachine row.orgId machineKey now)
    (fun id => rfl) fun id => hfree
  exact hmachines.update_tokens fun row => ⟨rfl, rfl⟩

/-- The machine of a redemption is the only one with its id. -/
theorem Fleet.Valid.redeemed_machine {fleet : Fleet} (h : fleet.Valid) {row : TokenRow}
    {machineKey : Str} {now : DateTime} {m : MachineRow}
    (hm : m ∈ (fleet.redeemed row machineKey now).machines.rows)
    (hid : m.id = fleet.machines.seq + 1) :
    m = newMachine row.orgId machineKey now (fleet.machines.seq + 1) := by
  rcases List.mem_append.mp hm with hold | hnew
  · have hle := h.machines_keyed.given m hold
    omega
  · exact List.mem_singleton.mp hnew

theorem orgForMachine_eq {fleet : Fleet} {id : Nat} {orgId : Int}
    (hall : ∀ m ∈ fleet.machines.rows, m.id = id → m.orgId = orgId)
    (hex : ∃ m ∈ fleet.machines.rows, m.id = id) : orgForMachine fleet id = orgId := by
  rw [orgForMachine]
  cases hfind : fleet.machines.rows.find? fun row => row.id = id with
  | none =>
    rw [List.find?_eq_none] at hfind
    rcases hex with ⟨m, hm, hid⟩
    exact absurd (decide_eq_true hid) (hfind m hm)
  | some m =>
    have hid : m.id = id := by
      have hfound := List.find?_some hfind
      exact of_decide_eq_true hfound
    exact hall m (List.mem_of_find?_eq_some hfind) hid

/-- The tokens behind a redemption are used where they were used before, and the one
that was redeemed is used. -/
theorem redeemed_tokens {fleet : Fleet} {row : TokenRow} {machineKey : Str} {now : DateTime}
    {marked : TokenRow} (h : marked ∈ (fleet.redeemed row machineKey now).tokens.rows) :
    ∃ old ∈ fleet.tokens.rows, marked.tokenHash = old.tokenHash ∧ marked.orgId = old.orgId ∧
      (old.usedByMachine ≠ none → marked.usedByMachine ≠ none) ∧
      (old.id = row.id → marked.usedByMachine ≠ none) := by
  rcases List.mem_map.mp h with ⟨old, hold, rfl⟩
  refine ⟨old, hold, ?_⟩
  by_cases hid : old.id = row.id
  · rw [if_pos (decide_eq_true hid)]
    exact ⟨rfl, rfl, fun _ => Option.some_ne_none _, fun _ => Option.some_ne_none _⟩
  · rw [if_neg (by rw [decide_eq_true_iff]; exact hid)]
    exact ⟨rfl, rfl, id, fun hsame => absurd hsame hid⟩

/-! ## The registration -/

theorem upsertMachine_ok {fleet after : Fleet} {orgId : Int} {machineKey osName arch : Str}
    {now : DateTime} {id : Nat}
    (h : upsertMachine fleet orgId machineKey osName arch now = .ok (after, id)) :
    Encodable osName ∧ Encodable arch ∧ after.tokens = fleet.tokens ∧
      (fleet.Valid → after.Valid) ∧ ∃ m ∈ after.machines.rows, m.id = id ∧ m.orgId = orgId := by
  rw [upsertMachine, bindInt_then, bindText_then, bindText_then, bindText_then] at h
  rcases h with ⟨_, _, hos, harch, h⟩
  refine ⟨hos, harch, ?_⟩
  cases hfind : fleet.machines.rows.find? fun row =>
      row.orgId = orgId ∧ row.machineKey = machineKey with
  | none =>
    rw [hfind] at h
    cases h
    have hfree : ¬fleet.Taken orgId machineKey := by
      intro ⟨row, hrow, hboth⟩
      rw [List.find?_eq_none] at hfind
      exact hfind row hrow (decide_eq_true hboth)
    refine ⟨rfl, fun hvalid => ?_, _, List.mem_append_right _ List.mem_cons_self, rfl, rfl⟩
    exact hvalid.insert_machine (fun id => rfl) fun id => hfree
  | some row =>
    rw [hfind] at h
    cases h
    have horg : row.orgId = orgId := by
      have hfound := List.find?_some hfind
      exact (of_decide_eq_true hfound).1
    refine ⟨rfl, fun hvalid => ?_, ?_⟩
    · exact hvalid.update_machines fun other => ⟨rfl, rfl, rfl⟩
    · refine ⟨_, List.mem_map_of_mem (List.mem_of_find?_eq_some hfind), ?_⟩
      rw [if_pos (decide_eq_true rfl)]
      exact ⟨rfl, horg⟩

theorem registerMachine_ok {fleet after : Fleet} {orgId : Int} {machineKey osName arch : Str}
    {now : DateTime} {id : Nat}
    (h : registerMachine fleet orgId machineKey osName arch now = (after, .ok id)) :
    Encodable osName ∧ Encodable arch ∧ after.tokens = fleet.tokens ∧
      (fleet.Valid → after.Valid) ∧ ∃ m ∈ after.machines.rows, m.id = id ∧ m.orgId = orgId := by
  rw [registerMachine] at h
  cases hblock : upsertMachine fleet orgId machineKey osName arch now with
  | error exc =>
    rw [hblock, tx] at h
    cases h
  | ok result =>
    rw [hblock, tx] at h
    cases h
    exact upsertMachine_ok hblock

/-- What comes behind the redemption of a request. -/
theorem enrollRedeemed_cases (db : ServerDB) (fields : EnrollFields) (machineId : Nat)
    (now : DateTime) :
    (∃ exc, enrollRedeemed rt db fields machineId now = ⟨db, [machineId], .error exc⟩) ∨
    ∃ org fleet registered, fields.org.toInt rt = .ok org ∧
      registerMachine db.fleet (registeredOrg db.fleet machineId org) fields.machineKey
        fields.osName fields.arch now = (fleet, .ok registered) ∧
      (enrollRedeemed rt db fields machineId now).db.fleet = fleet ∧
      (enrollRedeemed rt db fields machineId now).touched = [machineId, registered] := by
  cases horg : fields.org.toInt rt with
  | error exc =>
    left
    refine ⟨exc, ?_⟩
    rw [enrollRedeemed, horg]
  | ok org =>
    rcases hregister : registerMachine db.fleet (registeredOrg db.fleet machineId org)
      fields.machineKey fields.osName fields.arch now with ⟨fleet, result⟩
    cases result with
    | error exc =>
      left
      refine ⟨exc, ?_⟩
      rw [enrollRedeemed, horg]
      simp only [hregister]
    | ok registered =>
      right
      refine ⟨org, fleet, registered, rfl, hregister, ?_⟩
      rcases haudit : audit rt { db with fleet := fleet } (orgForMachine fleet machineId)
        (lit "machine:" ++ fields.machineKey) "machine.enroll" (natStr machineId) [] now
          with ⟨after, result⟩
      have hafter : after.fleet = fleet := by
        have hkeep := (@audit_db rt { db with fleet := fleet }
          (orgForMachine fleet machineId) (lit "machine:" ++ fields.machineKey) "machine.enroll"
            (natStr machineId) [] now).1
        rw [haudit] at hkeep
        exact hkeep
      rw [enrollRedeemed, horg]
      simp only [hregister, haudit]
      cases result with
      | error exc => exact ⟨hafter, rfl⟩
      | ok _ => exact ⟨hafter, rfl⟩

/-! ## A request that goes with its token -/

section

variable {fleet : Fleet} {row : TokenRow} {machineKey osName arch : Str} {now : DateTime}

theorem orgForMachine_redeemed (h : fleet.Valid) :
    orgForMachine (fleet.redeemed row machineKey now) (fleet.machines.seq + 1) = row.orgId := by
  apply orgForMachine_eq
  · intro m hm hid
    rw [h.redeemed_machine hm hid]
    rfl
  · exact ⟨_, List.mem_append_right _ List.mem_cons_self, rfl⟩

theorem registerMachine_redeemed (h : fleet.Valid) (hfree : ¬fleet.Taken row.orgId machineKey)
    (horg : InInt64 row.orgId) (hkey : Encodable machineKey) (hos : Encodable osName)
    (harch : Encodable arch) :
    ∃ after, registerMachine (fleet.redeemed row machineKey now) row.orgId machineKey osName arch
        now = (after, .ok (fleet.machines.seq + 1)) ∧
      orgForMachine after (fleet.machines.seq + 1) = row.orgId ∧
      ∀ m ∈ after.machines.rows, m.id = fleet.machines.seq + 1 → m.orgId = row.orgId := by
  have hfind : ((fleet.redeemed row machineKey now).machines.rows.find? fun other =>
      other.orgId = row.orgId ∧ other.machineKey = machineKey) =
        some (newMachine row.orgId machineKey now (fleet.machines.seq + 1)) := by
    have hnone : (fleet.machines.rows.find? fun other =>
        other.orgId = row.orgId ∧ other.machineKey = machineKey) = none := by
      rw [List.find?_eq_none]
      intro other hother hboth
      exact hfree ⟨other, hother, of_decide_eq_true hboth⟩
    rw [Fleet.redeemed, Table.insert, List.find?_append, hnone, Option.none_or]
    exact List.find?_cons_of_pos (decide_eq_true ⟨rfl, rfl⟩)
  rw [registerMachine, upsertMachine, bindInt_pass horg, bindText_pass hkey, bindText_pass hos,
    bindText_pass harch, hfind]
  have howned : ∀ change : MachineRow → MachineRow,
      (∀ m, (change m).id = m.id ∧ (change m).orgId = m.orgId) →
      ∀ m ∈ ((fleet.redeemed row machineKey now).machines.update
        (fun other => other.id = fleet.machines.seq + 1) change).rows,
          m.id = fleet.machines.seq + 1 → m.orgId = row.orgId := by
    intro change hchange m hm hid
    rcases List.mem_map.mp hm with ⟨old, hold, rfl⟩
    have hsame : (if decide (old.id = fleet.machines.seq + 1) = true then change old else old).id =
        old.id ∧ (if decide (old.id = fleet.machines.seq + 1) = true then change old
          else old).orgId = old.orgId := by
      split_ifs
      · exact hchange old
      · exact ⟨rfl, rfl⟩
    rw [hsame.2, h.redeemed_machine hold (hsame.1.symm.trans hid)]
    rfl
  refine ⟨_, rfl, ?_, ?_⟩
  · apply orgForMachine_eq
    · exact howned _ fun m => ⟨rfl, rfl⟩
    · refine ⟨_, List.mem_map_of_mem (List.mem_append_right _ List.mem_cons_self), ?_⟩
      rw [if_pos (decide_eq_true rfl)]
      rfl
  · exact howned _ fun m => ⟨rfl, rfl⟩

end

/-- A request whose body goes with its token answers 200, and touches the machine of
the token only. -/
theorem enroll_agrees {db : ServerDB} (hvalid : db.Valid) {request : Json × DateTime}
    {fields : EnrollFields} {row : TokenRow} (h : Redeems rt sha256 db request fields row)
    (hagrees : Agrees rt fields row) :
    (enroll rt sha256 db request.1 request.2).touched =
        [db.fleet.machines.seq + 1, db.fleet.machines.seq + 1] ∧
      Answered (enroll rt sha256 db request.1 request.2).answer ∧
      ∀ m ∈ (enroll rt sha256 db request.1 request.2).db.fleet.machines.rows,
        m.id = db.fleet.machines.seq + 1 → m.orgId = row.orgId := by
  rcases hagrees.org with ⟨org, horg, hsame⟩
  have hfound := redeemSelect_found h.found
  have hfits : InInt64 row.orgId := hvalid.fits row hfound.1
  have hregistered : registeredOrg (db.redeemed row fields.machineKey request.2).fleet
      (db.fleet.machines.seq + 1) org = row.orgId := by
    rw [registeredOrg]
    split_ifs with hzero
    · exact hsame.resolve_left hzero
    · exact orgForMachine_redeemed hvalid.fleet
  rcases @registerMachine_redeemed _ _ _ _ _ request.2 hvalid.fleet h.insertable.2 hfits
    h.insertable.1 hagrees.osName hagrees.arch with ⟨after, hregister, hfor, howned⟩
  have hactor : Encodable (lit "machine:" ++ fields.machineKey) :=
    encodable_append (by decide +kernel) h.insertable.1
  have haction : Encodable "machine.enroll" := by decide +kernel
  rcases @audit_plain rt { db.redeemed row fields.machineKey request.2 with fleet := after } _ _ _ _
    request.2 hfits hactor haction (encodable_natStr (db.fleet.machines.seq + 1))
      with ⟨logged, haudit, hfleet⟩
  have hrun : enrollRedeemed rt (db.redeemed row fields.machineKey request.2) fields
      (db.fleet.machines.seq + 1) request.2 =
        ⟨logged, [db.fleet.machines.seq + 1, db.fleet.machines.seq + 1],
          .ok (jsonify (.obj [("machine_id", .int (db.fleet.machines.seq + 1 : Nat))]))⟩ := by
    rw [enrollRedeemed, horg]
    simp only [hregistered]
    rw [ServerDB.redeemed] at haudit ⊢
    simp only [hregister, hfor, haudit]
  rw [enroll_redeems h, hrun]
  refine ⟨rfl, ⟨_, rfl, rfl⟩, ?_⟩
  rw [hfleet]
  exact howned

/-! ## One request -/

/-- The entry of a request. -/
abbrev enrollEntry (rt : Runtime) (sha256 : Str → Str) (db : ServerDB)
    (request : Json × DateTime) : Entry ServerDB (Json × DateTime) EnrollOutput :=
  entry (enrollStep rt sha256) db request

theorem presented_of_redeems {db : ServerDB} {request : Json × DateTime} {fields : EnrollFields}
    {row : TokenRow} (h : Redeems rt sha256 db request fields row) :
    presented rt sha256 request.1 = some row.tokenHash := by
  rw [presented, h.read]
  exact congrArg some (redeemSelect_found h.found).2.1.symm

/-- The database behind a request that redeems its token. -/
theorem enroll_db {db : ServerDB} (hvalid : db.Valid) {request : Json × DateTime}
    {fields : EnrollFields} {row : TokenRow} (h : Redeems rt sha256 db request fields row) :
    (enroll rt sha256 db request.1 request.2).db.fleet.tokens =
        (db.fleet.redeemed row fields.machineKey request.2).tokens ∧
      (enroll rt sha256 db request.1 request.2).db.fleet.Valid := by
  have hredeemed : (db.redeemed row fields.machineKey request.2).fleet.Valid :=
    hvalid.fleet.redeemed h.insertable.2 request.2
  rw [enroll_redeems h]
  rcases @enrollRedeemed_cases rt (db.redeemed row fields.machineKey request.2) fields
    (db.fleet.machines.seq + 1) request.2 with ⟨exc, hrun⟩ | ⟨_, _, _, _, hregister, hfleet, _⟩
  · rw [hrun]
    exact ⟨rfl, hredeemed⟩
  · rw [hfleet]
    have hok := registerMachine_ok hregister
    exact ⟨hok.2.2.1, hok.2.2.2.1 hredeemed⟩

theorem enroll_valid {db : ServerDB} (hvalid : db.Valid) (request : Json × DateTime) :
    (enrollStep rt sha256 db request).1.Valid := by
  by_cases hredeems : ∃ fields row, Redeems rt sha256 db request fields row
  · rcases hredeems with ⟨fields, row, h⟩
    have hdb := enroll_db hvalid h
    refine ⟨hdb.2, fun marked hmarked => ?_⟩
    rw [enrollStep, hdb.1] at hmarked
    rcases redeemed_tokens hmarked with ⟨old, hold, _, horg, _⟩
    rw [horg]
    exact hvalid.fits old hold
  · have hnone : ∀ fields row, ¬Redeems rt sha256 db request fields row :=
      fun fields row h => hredeems ⟨fields, row, h⟩
    rcases enroll_refused hnone with ⟨answer, hrun, _⟩
    rw [enrollStep, hrun]
    exact hvalid

/-- A request is confined exactly when it is safe. -/
theorem confined_iff {db : ServerDB} (hvalid : db.Valid) (request : Json × DateTime) :
    Confined rt sha256 (enrollEntry rt sha256 db request) ↔
      EnrollSafe rt sha256 db request := by
  constructor
  · intro hconfined fields row h
    have howned : ∀ id ∈ (enroll rt sha256 db request.1 request.2).touched,
        ∃ other ∈ db.fleet.tokens.rows, presented rt sha256 request.1 = some other.tokenHash ∧
          ∀ m ∈ (enroll rt sha256 db request.1 request.2).db.fleet.machines.rows,
            m.id = id → m.orgId = other.orgId := hconfined.owned
    have hunchanged : ¬Answered (enroll rt sha256 db request.1 request.2).answer →
        (enroll rt sha256 db request.1 request.2).db.fleet = db.fleet := hconfined.unchanged
    rw [enroll_redeems h] at howned hunchanged
    rcases @enrollRedeemed_cases rt (db.redeemed row fields.machineKey request.2) fields
      (db.fleet.machines.seq + 1) request.2 with
        ⟨exc, hrun⟩ | ⟨org, fleet, registered, horg, hregister, hfleet, htouched⟩
    · rw [hrun] at hunchanged
      have hsame := hunchanged (not_answered_error exc)
      have hseq : (db.redeemed row fields.machineKey request.2).fleet.machines.seq =
          db.fleet.machines.seq := congrArg (fun fleet => fleet.machines.seq) hsame
      exact absurd hseq (Nat.succ_ne_self _)
    · rcases registerMachine_ok hregister with ⟨hos, harch, _, _, m, hm, hid, hmorg⟩
      refine ⟨⟨org, horg, ?_⟩, hos, harch⟩
      by_contra hother
      rw [not_or] at hother
      rw [htouched, hfleet] at howned
      rcases howned registered (by simp) with ⟨other, hin, hpresented, hall⟩
      have hsame : other = row := by
        rw [presented_of_redeems h, Option.some.injEq] at hpresented
        exact List.inj_on_of_nodup_map hvalid.fleet.tokens_unique hin
          (redeemSelect_found h.found).1 hpresented.symm
      rw [registeredOrg, if_pos hother.1] at hmorg
      apply hother.2
      rw [← hmorg, hall m hm hid, hsame]
  · intro hsafe
    by_cases hredeems : ∃ fields row, Redeems rt sha256 db request fields row
    · rcases hredeems with ⟨fields, row, h⟩
      rcases enroll_agrees hvalid h (hsafe fields row h) with ⟨htouched, hanswered, howned⟩
      constructor
      · intro id hid
        have hmem : id ∈ (enroll rt sha256 db request.1 request.2).touched := hid
        rw [htouched] at hmem
        have heq : id = db.fleet.machines.seq + 1 := by simpa using hmem
        rw [heq]
        exact ⟨row, (redeemSelect_found h.found).1, presented_of_redeems h, howned⟩
      · intro hnot
        exact absurd hanswered hnot
    · have hnone : ∀ fields row, ¬Redeems rt sha256 db request fields row :=
        fun fields row h => hredeems ⟨fields, row, h⟩
      rcases enroll_refused hnone with ⟨answer, hrun, _⟩
      constructor
      · intro id hid
        have hmem : id ∈ (enroll rt sha256 db request.1 request.2).touched := hid
        rw [hrun] at hmem
        exact absurd hmem List.not_mem_nil
      · intro _
        show (enroll rt sha256 db request.1 request.2).db.fleet = db.fleet
        rw [hrun]

/-! ## Runs -/

/-- What holds behind the requests of a run: a token that a machine was touched for is
used, so no later request redeems it. -/
structure Enrolled (rt : Runtime) (sha256 : Str → Str) (done : EnrollTrace) (db : ServerDB) :
    Prop where
  valid : db.Valid
  spent : ∀ e ∈ done, ∀ i ∈ e.output.1, ∀ row ∈ db.fleet.tokens.rows,
    presented rt sha256 e.input.1 = some row.tokenHash → row.usedByMachine ≠ none
  single : (∀ e ∈ done, EnrollSafe rt sha256 e.before e.input) →
    ∀ e ∈ done, ∀ other ∈ done,
      presented rt sha256 e.input.1 = presented rt sha256 other.input.1 →
        ∀ i ∈ e.output.1, ∀ j ∈ other.output.1, i = j

theorem Enrolled.refused {done : EnrollTrace} {db : ServerDB}
    (h : Enrolled rt sha256 done db) {request : Json × DateTime} {answer : Except Exc Response} :
    Enrolled rt sha256 (done ++ [⟨db, request, ([], answer), db⟩]) db := by
  constructor
  · exact h.valid
  · intro e he i hi
    rcases List.mem_append.mp he with hold | hnew
    · exact h.spent e hold i hi
    · rw [List.mem_singleton.mp hnew] at hi
      exact absurd hi List.not_mem_nil
  · intro hsafe e he other hother hsame i hi j hj
    rcases List.mem_append.mp he with hold | hnew
    · rcases List.mem_append.mp hother with hold' | hnew'
      · exact h.single (fun e he => hsafe e (List.mem_append_left _ he)) e hold other hold' hsame
          i hi j hj
      · rw [List.mem_singleton.mp hnew'] at hj
        exact absurd hj List.not_mem_nil
    · rw [List.mem_singleton.mp hnew] at hi
      exact absurd hi List.not_mem_nil

/-- No earlier request touched a machine for a token that is redeemed now. -/
theorem Enrolled.fresh {done : EnrollTrace} {db : ServerDB} (h : Enrolled rt sha256 done db)
    {request : Json × DateTime} {fields : EnrollFields} {row : TokenRow}
    (hredeems : Redeems rt sha256 db request fields row) {e : Entry ServerDB _ EnrollOutput}
    (he : e ∈ done) (hsame : presented rt sha256 e.input.1 = presented rt sha256 request.1) :
    e.output.1 = [] := by
  have hfound := redeemSelect_found hredeems.found
  rw [List.eq_nil_iff_forall_not_mem]
  intro i hi
  apply h.spent e he i hi row hfound.1
  · rw [hsame]
    exact presented_of_redeems hredeems
  · exact hfound.2.2

theorem Enrolled.redeems {done : EnrollTrace} {db : ServerDB} (h : Enrolled rt sha256 done db)
    {request : Json × DateTime} {fields : EnrollFields} {row : TokenRow}
    (hredeems : Redeems rt sha256 db request fields row) :
    Enrolled rt sha256 (done ++ [enrollEntry rt sha256 db request])
      (enrollStep rt sha256 db request).1 := by
  have hdb := enroll_db h.valid hredeems
  have hfound := redeemSelect_found hredeems.found
  constructor
  · exact enroll_valid h.valid request
  · intro e he i hi marked hmarked hpresented
    rw [enrollStep, hdb.1] at hmarked
    rcases redeemed_tokens hmarked with ⟨old, hold, hhash, _, hkeeps, hmarks⟩
    rcases List.mem_append.mp he with hbefore | hnew
    · rw [hhash] at hpresented
      exact hkeeps (h.spent e hbefore i hi old hold hpresented)
    · rw [List.mem_singleton.mp hnew] at hpresented
      have hsame : row.tokenHash = marked.tokenHash :=
        Option.some.inj ((presented_of_redeems hredeems).symm.trans hpresented)
      apply hmarks
      rw [List.inj_on_of_nodup_map h.valid.fleet.tokens_unique hold hfound.1
        (hhash.symm.trans hsame.symm)]
  · intro hsafe e he other hother hsame i hi j hj
    rcases List.mem_append.mp he with hold | hnew
    · rcases List.mem_append.mp hother with hold' | hnew'
      · exact h.single (fun e he => hsafe e (List.mem_append_left _ he)) e hold other hold' hsame
          i hi j hj
      · rw [List.mem_singleton.mp hnew'] at hsame
        rw [h.fresh hredeems hold hsame] at hi
        exact absurd hi List.not_mem_nil
    · rcases List.mem_append.mp hother with hold' | hnew'
      · rw [List.mem_singleton.mp hnew] at hsame
        rw [h.fresh hredeems hold' hsame.symm] at hj
        exact absurd hj List.not_mem_nil
      · have hstep : EnrollSafe rt sha256 db request :=
          hsafe (enrollEntry rt sha256 db request) (List.mem_append_right _ List.mem_cons_self)
        have htouched : (enroll rt sha256 db request.1 request.2).touched = _ :=
          (enroll_agrees h.valid hredeems (hstep fields row hredeems)).1
        rw [List.mem_singleton.mp hnew] at hi
        rw [List.mem_singleton.mp hnew'] at hj
        have hi' : i ∈ (enroll rt sha256 db request.1 request.2).touched := hi
        have hj' : j ∈ (enroll rt sha256 db request.1 request.2).touched := hj
        rw [htouched] at hi' hj'
        have hieq : i = db.fleet.machines.seq + 1 := by simpa using hi'
        have hjeq : j = db.fleet.machines.seq + 1 := by simpa using hj'
        rw [hieq, hjeq]

theorem enrolled_run {db : ServerDB} (hvalid : db.Valid) (requests : List (Json × DateTime)) :
    Enrolled rt sha256 (enrollTrace rt sha256 db requests)
      (final (enrollStep rt sha256) db requests) := by
  apply trace_induction (R := Enrolled rt sha256)
  · exact ⟨hvalid, fun e he => absurd he List.not_mem_nil, fun _ e he => absurd he List.not_mem_nil⟩
  · intro done t request h
    by_cases hredeems : ∃ fields row, Redeems rt sha256 t request fields row
    · rcases hredeems with ⟨fields, row, hrow⟩
      exact h.redeems hrow
    · have hnone : ∀ fields row, ¬Redeems rt sha256 t request fields row :=
        fun fields row hrow => hredeems ⟨fields, row, hrow⟩
      rcases enroll_refused hnone with ⟨answer, hrun, _⟩
      rw [entry, enrollStep, hrun]
      exact h.refused

/-- The server of organization 1. -/
def oneServer : ServerDB := ⟨oneToken, .empty, .empty, .empty⟩

theorem oneServer_valid : oneServer.Valid := ⟨oneToken_valid, by decide⟩

/-- A body that presents the token for a machine, with an organization. -/
def enrollBody (org : Json) : Json :=
  .obj [("enrollment_token", .str "tok"), ("machine_key", .str "a"), ("org_id", org)]

theorem enrollBody_fields (org : Json) :
    enrollFields .standard (enrollBody org) = .ok ⟨"tok", "a", "unknown", "unknown", org⟩ := rfl

theorem enrollBody_redeems (org : Json) :
    Redeems .standard (fun _ => tokHash) oneServer (enrollBody org, newYear)
      ⟨"tok", "a", "unknown", "unknown", org⟩
        ciToken := by
  have htoken : lit "tok" ≠ [] := by decide
  have hkey : lit "a" ≠ [] := by decide
  have hencodable : Encodable "tok" := by decide +kernel
  have hlive : ¬ciToken.Expired newYear := by decide +kernel
  have hinsertable : oneToken.Insertable ciToken.orgId "a" := by decide +kernel
  have hfind : oneToken.tokens.rows.find? (unusedToken tokHash) = some ciToken := by decide +kernel
  exact ⟨enrollBody_fields org, htoken, hkey,
    redeemSelect_eq_some.mpr ⟨hencodable, hfind, hlive⟩, hinsertable⟩

end DevRepro.Server
