import DevRepro.Server.Sql

/-!
# Enrollment tokens and machines

The tables `enrollment_tokens` and `machines` of `server/db.py`, and the methods
that redeem a token and register a machine.

`redeem_enrollment_token` reads the token on the connection itself and writes in
a transaction of its own, so it is two steps: `redeemSelect` and `redeemCommit`.
-/

namespace DevRepro.Server

open DevRepro.Python DevRepro.Lib

/-! ## The tables -/

structure TokenRow where
  id : Nat
  orgId : Int
  tokenHash : Str
  label : Str
  expiresAt : Option Str
  usedByMachine : Option Nat
  createdAt : Str
  revokedAt : Option Str
  deriving DecidableEq

structure MachineRow where
  id : Nat
  orgId : Int
  projectId : Option Int
  machineKey : Str
  osName : Str
  arch : Str
  label : Str
  enrolledAt : Str
  lastSeenAt : Option Str
  deriving DecidableEq

/-- The tokens and the machines of a server. -/
structure Fleet where
  tokens : Table TokenRow
  machines : Table MachineRow

/-- The constraints of the two tables. -/
structure Fleet.Valid (fleet : Fleet) : Prop where
  tokens_keyed : Keyed TokenRow.id fleet.tokens
  tokens_unique : (fleet.tokens.rows.map TokenRow.tokenHash).Nodup
  machines_keyed : Keyed MachineRow.id fleet.machines
  machines_unique : (fleet.machines.rows.map fun row => (row.orgId, row.machineKey)).Nodup

/-! ## Redemption -/

variable (sha256 : Str → Str)

/-- `hash_token`. -/
def hashToken (token : Str) : Except Exc Str :=
  if Encodable token then .ok (sha256 token)
  else .error ⟨.unicodeEncodeError, "surrogates not allowed"⟩

/-- The row that a token is redeemed by. -/
def unusedToken (hash : Str) (row : TokenRow) : Bool :=
  row.tokenHash = hash ∧ row.revokedAt = none ∧ row.usedByMachine = none

/-- A token that is not redeemed any more at a time. -/
def TokenRow.Expired (row : TokenRow) (now : DateTime) : Prop :=
  ∃ expires ∈ row.expiresAt, expires ≠ [] ∧ strLt expires now.isoformat = true

instance (row : TokenRow) (now : DateTime) : Decidable (row.Expired now) :=
  match h : row.expiresAt with
  | none => isFalse (by simp [TokenRow.Expired, h])
  | some expires =>
    decidable_of_iff (expires ≠ [] ∧ strLt expires now.isoformat = true)
      (by simp [TokenRow.Expired, h])

/-- The part of `redeem_enrollment_token` before its transaction. -/
def redeemSelect (fleet : Fleet) (token : Str) (now : DateTime) : Except Exc (Option TokenRow) := do
  let hash ← hashToken sha256 token
  match fleet.tokens.rows.find? (unusedToken hash) with
  | none => return none
  | some row => if row.Expired now then return none else return some row

/-- A machine key that an organization has already. -/
def Fleet.Taken (fleet : Fleet) (orgId : Int) (machineKey : Str) : Prop :=
  ∃ row ∈ fleet.machines.rows, row.orgId = orgId ∧ row.machineKey = machineKey

instance (fleet : Fleet) (orgId : Int) (machineKey : Str) :
    Decidable (fleet.Taken orgId machineKey) :=
  inferInstanceAs (Decidable (∃ row ∈ fleet.machines.rows, _ ∧ _))

def machineConflict : Exc := integrityError "machines.org_id, machines.machine_key"

/-- The machine that a redemption inserts. -/
def newMachine (orgId : Int) (machineKey : Str) (now : DateTime) (id : Nat) : MachineRow :=
  ⟨id, orgId, none, machineKey, "unknown", "unknown", "", now.isoformat, none⟩

/-- The block of `redeem_enrollment_token`, for the row that it read. -/
def insertRedeemed (fleet : Fleet) (row : TokenRow) (machineKey : Str) (now : DateTime) :
    Except Exc (Fleet × Nat) := do
  bindText machineKey
  if fleet.Taken row.orgId machineKey then .error machineConflict
  else
    let machines := fleet.machines.insert (newMachine row.orgId machineKey now)
    let tokens := fleet.tokens.update (fun other => other.id = row.id) fun other =>
      { other with usedByMachine := some machines.seq }
    return (⟨tokens, machines⟩, machines.seq)

/-- The transaction of `redeem_enrollment_token`. -/
def redeemCommit (fleet : Fleet) (row : TokenRow) (machineKey : Str) (now : DateTime) :
    Fleet × Except Exc Nat :=
  tx fleet (insertRedeemed fleet row machineKey now)

/-- `redeem_enrollment_token`, when nothing comes between its two parts. -/
def redeemEnrollmentToken (fleet : Fleet) (token machineKey : Str) (now : DateTime) :
    Fleet × Except Exc (Option Nat) :=
  match redeemSelect sha256 fleet token now with
  | .error exc => (fleet, .error exc)
  | .ok none => (fleet, .ok none)
  | .ok (some row) =>
    let run := redeemCommit fleet row machineKey now
    (run.1, run.2.map some)

variable {sha256}

/-! ## What a redemption does -/

theorem redeemSelect_eq_some {fleet : Fleet} {token : Str} {now : DateTime} {row : TokenRow} :
    redeemSelect sha256 fleet token now = .ok (some row) ↔
      Encodable token ∧ fleet.tokens.rows.find? (unusedToken (sha256 token)) = some row ∧
        ¬row.Expired now := by
  rw [redeemSelect, hashToken]
  by_cases htoken : Encodable token
  · rw [if_pos htoken]
    show (match fleet.tokens.rows.find? (unusedToken (sha256 token)) with
      | none => Except.ok none
      | some row => if row.Expired now then .ok none else .ok (some row)) = _ ↔ _
    cases hfind : fleet.tokens.rows.find? (unusedToken (sha256 token)) with
    | none => simp
    | some found =>
      by_cases hexpired : found.Expired now
      · simp only [if_pos hexpired]
        constructor
        · intro h
          cases h
        · intro ⟨_, hsame, hlive⟩
          rw [← Option.some.inj hsame] at hlive
          exact absurd hexpired hlive
      · simp only [if_neg hexpired]
        constructor
        · intro h
          cases h
          exact ⟨htoken, rfl, hexpired⟩
        · intro ⟨_, hsame, _⟩
          rw [hsame]
  · rw [if_neg htoken]
    constructor
    · intro h
      cases h
    · intro h
      exact absurd h.1 htoken

theorem unusedToken_iff {hash : Str} {row : TokenRow} : unusedToken hash row = true ↔
    row.tokenHash = hash ∧ row.revokedAt = none ∧ row.usedByMachine = none :=
  decide_eq_true_iff

/-- A token that was read is a row that was not used. -/
theorem redeemSelect_found {fleet : Fleet} {token : Str} {now : DateTime} {row : TokenRow}
    (h : redeemSelect sha256 fleet token now = .ok (some row)) :
    row ∈ fleet.tokens.rows ∧ row.tokenHash = sha256 token ∧ row.usedByMachine = none := by
  rcases redeemSelect_eq_some.mp h with ⟨_, hfind, _⟩
  have hunused := unusedToken_iff.mp (List.find?_some hfind)
  exact ⟨List.mem_of_find?_eq_some hfind, hunused.1, hunused.2.2⟩

/-- The fleet behind a redemption that goes through. -/
def Fleet.redeemed (fleet : Fleet) (row : TokenRow) (machineKey : Str) (now : DateTime) : Fleet where
  tokens := fleet.tokens.update (fun other => other.id = row.id) fun other =>
    { other with usedByMachine := some (fleet.machines.seq + 1) }
  machines := fleet.machines.insert (newMachine row.orgId machineKey now)

/-- A machine that a redemption can insert. -/
def Fleet.Insertable (fleet : Fleet) (orgId : Int) (machineKey : Str) : Prop :=
  Encodable machineKey ∧ ¬fleet.Taken orgId machineKey

instance (fleet : Fleet) (orgId : Int) (machineKey : Str) :
    Decidable (fleet.Insertable orgId machineKey) :=
  inferInstanceAs (Decidable (_ ∧ ¬_))

theorem redeemCommit_ok {fleet : Fleet} {row : TokenRow} {machineKey : Str} {now : DateTime}
    (h : fleet.Insertable row.orgId machineKey) :
    redeemCommit fleet row machineKey now =
      (fleet.redeemed row machineKey now, .ok (fleet.machines.seq + 1)) := by
  rw [redeemCommit, insertRedeemed, bindText_pass h.1, if_neg h.2]
  rfl

theorem redeemCommit_error {fleet : Fleet} {row : TokenRow} {machineKey : Str} {now : DateTime}
    (h : ¬fleet.Insertable row.orgId machineKey) :
    ∃ exc, redeemCommit fleet row machineKey now = (fleet, .error exc) := by
  by_cases hkey : Encodable machineKey
  · have htaken : fleet.Taken row.orgId machineKey := by
      by_contra hfree
      exact h ⟨hkey, hfree⟩
    rw [redeemCommit, insertRedeemed, bindText_pass hkey, if_pos htaken]
    exact ⟨_, rfl⟩
  · rcases bindText_error hkey with ⟨exc, hbind⟩
    rw [redeemCommit, insertRedeemed, hbind]
    exact ⟨exc, rfl⟩

/-! ## A fleet to try -/

/-- The first second of 2026. -/
def newYear : DateTime := DateTime.newYear

def tokHash : Str := "1a7674eb4ee78df7e1ac439a93c3fa8e3c945784d4dec9fd8e3011738b2f1d62"

def ciToken : TokenRow := ⟨1, 1, tokHash, "ci", none, none, newYear.isoformat, none⟩

/-- A fleet with one token and no machine. -/
def oneToken : Fleet := ⟨⟨[ciToken], 1⟩, .empty⟩

theorem oneToken_valid : oneToken.Valid := by
  constructor
  · exact ⟨List.nodup_singleton _, by decide⟩
  · exact List.nodup_singleton _
  · exact keyed_empty
  · exact List.nodup_nil

end DevRepro.Server
