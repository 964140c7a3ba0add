import DevRepro.Server.Enrollment

/-!
# Redemptions that interleave

Any number of redemptions of one token run at the same time, each on a
connection of its own.  A redemption takes two steps, the read of the token and
the transaction, and a schedule says in which order the redemptions take them.

The transaction marks the token by its key and does not ask again whether it is
unused.  So the token is redeemed at most once exactly when every transaction
that can insert its machine starts while the token is unused
(`redeemed_once_iff`).  Two reads before the first transaction are enough to
break it.
-/

namespace DevRepro.Server

open DevRepro.Python DevRepro.Lib DevRepro.Lib.Machine

/-! ## Schedules -/

/-- How far a redemption is. -/
inductive RedeemPhase where
  | idle
  | selected (row : TokenRow)
  | finished

/-- The fleet, and the redemptions that are under way. -/
structure RedeemState (ι : Type) where
  fleet : Fleet
  phase : ι → RedeemPhase

/-- What a redemption returned or raised. -/
abbrev RedeemAnswer := Except Exc (Option Nat)

variable {ι : Type}

/-- The state before any redemption. -/
def redeemStart (fleet : Fleet) : RedeemState ι := ⟨fleet, fun _ => .idle⟩

section

variable [DecidableEq ι]

/-- The state with the phase of one redemption. -/
def RedeemState.enter (s : RedeemState ι) (i : ι) (phase : RedeemPhase) : RedeemState ι :=
  { s with phase := fun j => if j = i then phase else s.phase j }

variable (sha256 : Str → Str) (token : Str) (keys : ι → Str)

/-- The next step of a redemption, and its answer when it ends with the step. -/
def redeemStep (s : RedeemState ι) (turn : ι × DateTime) : RedeemState ι × Option RedeemAnswer :=
  match s.phase turn.1 with
  | .idle =>
    match redeemSelect sha256 s.fleet token turn.2 with
    | .error exc => (s.enter turn.1 .finished, some (.error exc))
    | .ok none => (s.enter turn.1 .finished, some (.ok none))
    | .ok (some row) => (s.enter turn.1 (.selected row), none)
  | .selected row =>
    let run := redeemCommit s.fleet row (keys turn.1) turn.2
    ({ s with fleet := run.1 }.enter turn.1 .finished, some (run.2.map some))
  | .finished => (s, none)

/-- A schedule that ran. -/
abbrev RedeemRun (ι : Type) := List (Entry (RedeemState ι) (ι × DateTime) (Option RedeemAnswer))

/-- What happens on a schedule. -/
def redeemTrace (fleet : Fleet) (schedule : List (ι × DateTime)) : RedeemRun ι :=
  trace (redeemStep sha256 token keys) (redeemStart fleet) schedule

/-- The fleet behind a schedule. -/
def redeemFinal (fleet : Fleet) (schedule : List (ι × DateTime)) : Fleet :=
  (final (redeemStep sha256 token keys) (redeemStart fleet) schedule).fleet

end

/-- An answer with the id of a machine. -/
def isMachineId : Option RedeemAnswer → Bool
  | some (.ok (some _)) => true
  | _ => false

/-- The number of redemptions that returned the id of a machine. -/
def redeemedCount (run : RedeemRun ι) : Nat := run.countP fun e => isMachineId e.output

variable (sha256 : Str → Str) (token : Str) (keys : ι → Str)

/-- At most one redemption returns the id of a machine, and at most one machine is new. -/
def RedeemedOnce [DecidableEq ι] (fleet : Fleet) (schedule : List (ι × DateTime)) : Prop :=
  redeemedCount (redeemTrace sha256 token keys fleet schedule) ≤ 1 ∧
    (redeemFinal sha256 token keys fleet schedule).machines.rows.length ≤
      fleet.machines.rows.length + 1

/-- A token that no machine used yet. -/
def Fleet.Unused (fleet : Fleet) (row : TokenRow) : Prop :=
  ∀ other ∈ fleet.tokens.rows, other.id = row.id → other.usedByMachine = none

/-- Whether a step is safe: a transaction that can insert its machine starts while the
token that it read is unused. -/
def UnusedAtCommit (keys : ι → Str) (s : RedeemState ι) (turn : ι × DateTime) : Prop :=
  ∀ row, s.phase turn.1 = .selected row → s.fleet.Insertable row.orgId (keys turn.1) →
    s.fleet.Unused row

/-! ## The invariant -/

variable {sha256 token keys}

/-- The tokens of a fleet, apart from their uses. -/
def SameTokens (fleet other : Fleet) : Prop :=
  ∃ f : TokenRow → TokenRow, other.tokens.rows = fleet.tokens.rows.map f ∧
    ∀ row, (f row).id = row.id ∧ (f row).tokenHash = row.tokenHash

/-- What holds behind a part of a schedule.  As long as no redemption went through, the
fleet is the one of the start; after that no read finds the token any more. -/
structure Redeeming (sha256 : Str → Str) (token : Str) (keys : ι → Str) (fleet : Fleet)
    (done : RedeemRun ι) (s : RedeemState ι) : Prop where
  tokens : SameTokens fleet s.fleet
  selected : ∀ i row, s.phase i = .selected row →
    row ∈ fleet.tokens.rows ∧ row.tokenHash = sha256 token ∧ row.usedByMachine = none
  untouched : redeemedCount done = 0 → s.fleet = fleet
  used : redeemedCount done ≠ 0 →
    ∀ row ∈ s.fleet.tokens.rows, row.tokenHash = sha256 token → row.usedByMachine ≠ none
  machines : s.fleet.machines.rows.length = fleet.machines.rows.length + redeemedCount done
  safe : (∀ e ∈ done, UnusedAtCommit keys e.before e.input) ↔ redeemedCount done ≤ 1

theorem redeemedCount_snoc (run : RedeemRun ι)
    (e : Entry (RedeemState ι) (ι × DateTime) (Option RedeemAnswer)) :
    redeemedCount (run ++ [e]) =
      redeemedCount run + if isMachineId e.output = true then 1 else 0 := by
  rw [redeemedCount, redeemedCount, List.countP_append, List.countP_singleton]

theorem forall_mem_snoc {α : Type} {P : α → Prop} {l : List α} {x : α} :
    (∀ y ∈ l ++ [x], P y) ↔ (∀ y ∈ l, P y) ∧ P x := by
  simp only [List.mem_append, List.mem_singleton, or_imp, forall_and, forall_eq]

/-- A read that finds the token comes before any redemption went through. -/
theorem Redeeming.found {fleet : Fleet} {done : RedeemRun ι} {s : RedeemState ι}
    (h : Redeeming sha256 token keys fleet done s) {now : DateTime} {row : TokenRow}
    (hselect : redeemSelect sha256 s.fleet token now = .ok (some row)) :
    row ∈ fleet.tokens.rows ∧ row.tokenHash = sha256 token ∧ row.usedByMachine = none := by
  have hfound := redeemSelect_found hselect
  have hzero : redeemedCount done = 0 := by
    by_contra hsome
    exact h.used hsome row hfound.1 hfound.2.1 hfound.2.2
  rw [h.untouched hzero] at hfound
  exact hfound

/-- The token is unused exactly as long as no redemption went through. -/
theorem Redeeming.unused_iff {fleet : Fleet} {done : RedeemRun ι} {s : RedeemState ι}
    (h : Redeeming sha256 token keys fleet done s) (hvalid : fleet.Valid) {row : TokenRow}
    (hrow : row ∈ fleet.tokens.rows) (hhash : row.tokenHash = sha256 token)
    (hfree : row.usedByMachine = none) :
    s.fleet.Unused row ↔ redeemedCount done = 0 := by
  constructor
  · intro hunused
    by_contra hsome
    rcases h.tokens with ⟨f, hrows, hsame⟩
    have hin : f row ∈ s.fleet.tokens.rows := by
      rw [hrows]
      exact List.mem_map_of_mem hrow
    apply h.used hsome (f row) hin ((hsame row).2.trans hhash)
    exact hunused (f row) hin (hsame row).1
  · intro hzero other hother hid
    rw [h.untouched hzero] at hother
    rw [hvalid.tokens_keyed.row_unique hother hrow hid]
    exact hfree

theorem sameTokens_redeemed {fleet other : Fleet} (h : SameTokens fleet other) (row : TokenRow)
    (machineKey : Str) (now : DateTime) :
    SameTokens fleet (other.redeemed row machineKey now) := by
  rcases h with ⟨f, hrows, hsame⟩
  let mark : TokenRow → TokenRow := fun r =>
    if r.id = row.id then { r with usedByMachine := some (other.machines.seq + 1) } else r
  refine ⟨mark ∘ f, ?_, fun r => ?_⟩
  · rw [Fleet.redeemed, Table.update, hrows, List.map_map]
    apply List.map_congr_left
    intro r _
    simp only [mark, Function.comp_apply, decide_eq_true_eq]
  · have hmark : ∀ r : TokenRow, (mark r).id = r.id ∧ (mark r).tokenHash = r.tokenHash := by
      intro r
      simp only [mark]
      split_ifs
      · exact ⟨rfl, rfl⟩
      · exact ⟨rfl, rfl⟩
    exact ⟨(hmark (f r)).1.trans (hsame r).1, (hmark (f r)).2.trans (hsame r).2⟩

/-- A redemption that did not read the token can do no harm. -/
theorem unusedAtCommit_of_ne {s : RedeemState ι} {turn : ι × DateTime} (h : ∀ row, s.phase turn.1 ≠ .selected row) :
    UnusedAtCommit keys s turn :=
  fun row hselected => absurd hselected (h row)

section

variable [DecidableEq ι]

/-- A step without a new machine. -/
theorem Redeeming.quiet {fleet : Fleet} {done : RedeemRun ι} {s : RedeemState ι}
    (h : Redeeming sha256 token keys fleet done s) {turn : ι × DateTime}
    {answer : Option RedeemAnswer} {phase : RedeemPhase}
    (hanswer : isMachineId answer = false) (hsafe : UnusedAtCommit keys s turn)
    (hphase : ∀ row, phase = .selected row →
      row ∈ fleet.tokens.rows ∧ row.tokenHash = sha256 token ∧ row.usedByMachine = none) :
    Redeeming sha256 token keys fleet
      (done ++ [⟨s, turn, answer, s.enter turn.1 phase⟩]) (s.enter turn.1 phase) := by
  have hcount : redeemedCount (done ++ [⟨s, turn, answer, s.enter turn.1 phase⟩]) =
      redeemedCount done := by
    rw [redeemedCount_snoc, hanswer, if_neg Bool.false_ne_true, Nat.add_zero]
  constructor
  · exact h.tokens
  · intro i row hselected
    rw [RedeemState.enter] at hselected
    by_cases hi : i = turn.1
    · exact hphase row (by simpa only [if_pos hi] using hselected)
    · exact h.selected i row (by simpa only [if_neg hi] using hselected)
  · rw [hcount]
    exact h.untouched
  · rw [hcount]
    exact h.used
  · rw [hcount]
    exact h.machines
  · rw [hcount, forall_mem_snoc, ← h.safe]
    exact and_iff_left hsafe

/-- A transaction that inserts its machine. -/
theorem Redeeming.committed {fleet : Fleet} {done : RedeemRun ι} {s : RedeemState ι}
    (h : Redeeming sha256 token keys fleet done s) (hvalid : fleet.Valid) {turn : ι × DateTime}
    {row : TokenRow} {id : Nat} (hselected : s.phase turn.1 = .selected row)
    (hinsertable : s.fleet.Insertable row.orgId (keys turn.1)) :
    Redeeming sha256 token keys fleet
      (done ++ [⟨s, turn, some (.ok (some id)),
        { s with fleet := s.fleet.redeemed row (keys turn.1) turn.2 }.enter turn.1 .finished⟩])
      ({ s with fleet := s.fleet.redeemed row (keys turn.1) turn.2 }.enter turn.1 .finished) := by
  have hfound := h.selected turn.1 row hselected
  have hcount : redeemedCount (done ++ [⟨s, turn, some (.ok (some id)),
      { s with fleet := s.fleet.redeemed row (keys turn.1) turn.2 }.enter turn.1 .finished⟩]) =
        redeemedCount done + 1 := by
    rw [redeemedCount_snoc]
    rfl
  have hsafe : UnusedAtCommit keys s turn ↔ redeemedCount done = 0 := by
    rw [← h.unused_iff hvalid hfound.1 hfound.2.1 hfound.2.2]
    constructor
    · intro hstep
      exact hstep row hselected hinsertable
    · intro hunused other hother _
      rw [hselected] at hother
      cases hother
      exact hunused
  constructor
  · exact sameTokens_redeemed h.tokens row (keys turn.1) turn.2
  · intro i other hother
    rw [RedeemState.enter] at hother
    by_cases hi : i = turn.1
    · simp only [if_pos hi] at hother
      cases hother
    · exact h.selected i other (by simpa only [if_neg hi] using hother)
  · rw [hcount]
    intro hzero
    omega
  · intro _ other hother hhash
    rcases List.mem_map.mp hother with ⟨old, hold, rfl⟩
    have hid : old.id = row.id := by
      rcases h.tokens with ⟨f, hrows, hsame⟩
      rw [hrows] at hold
      rcases List.mem_map.mp hold with ⟨first, hfirst, rfl⟩
      have hfirsthash : first.tokenHash = row.tokenHash := by
        rw [hfound.2.1, ← hhash, ← (hsame first).2]
        split_ifs
        · rfl
        · rfl
      have hrow : first = row :=
        List.inj_on_of_nodup_map hvalid.tokens_unique hfirst hfound.1 hfirsthash
      rw [(hsame first).1, hrow]
    rw [if_pos (decide_eq_true hid)]
    exact Option.some_ne_none _
  · rw [hcount, RedeemState.enter, Fleet.redeemed, Table.insert, List.length_append, h.machines]
    exact Nat.add_assoc _ _ _
  · rw [hcount, forall_mem_snoc, h.safe, hsafe]
    omega

/-! ## The steps of a redemption -/

variable {s : RedeemState ι} {turn : ι × DateTime}

theorem redeemStep_raise {exc : Exc} (hphase : s.phase turn.1 = .idle)
    (hselect : redeemSelect sha256 s.fleet token turn.2 = .error exc) :
    redeemStep sha256 token keys s turn = (s.enter turn.1 .finished, some (.error exc)) := by
  rw [redeemStep, hselect, hphase]

theorem redeemStep_miss (hphase : s.phase turn.1 = .idle)
    (hselect : redeemSelect sha256 s.fleet token turn.2 = .ok none) :
    redeemStep sha256 token keys s turn = (s.enter turn.1 .finished, some (.ok none)) := by
  rw [redeemStep, hselect, hphase]

theorem redeemStep_found {row : TokenRow} (hphase : s.phase turn.1 = .idle)
    (hselect : redeemSelect sha256 s.fleet token turn.2 = .ok (some row)) :
    redeemStep sha256 token keys s turn = (s.enter turn.1 (.selected row), none) := by
  rw [redeemStep, hselect, hphase]

theorem redeemStep_commit {row : TokenRow} {fleet : Fleet} {result : Except Exc Nat}
    (hphase : s.phase turn.1 = .selected row)
    (hcommit : redeemCommit s.fleet row (keys turn.1) turn.2 = (fleet, result)) :
    redeemStep sha256 token keys s turn =
      ({ s with fleet := fleet }.enter turn.1 .finished, some (result.map some)) := by
  simp only [redeemStep, hphase, hcommit]

theorem redeemStep_over (hphase : s.phase turn.1 = .finished) :
    redeemStep sha256 token keys s turn = (s.enter turn.1 .finished, none) := by
  have henter : s.enter turn.1 .finished = s := by
    rw [RedeemState.enter]
    have hsame : (fun j => if j = turn.1 then RedeemPhase.finished else s.phase j) = s.phase := by
      funext j
      by_cases hj : j = turn.1
      · rw [if_pos hj, hj, hphase]
      · rw [if_neg hj]
    rw [hsame]
  rw [henter]
  simp only [redeemStep, hphase]

theorem redeeming_step {fleet : Fleet} (hvalid : fleet.Valid) (done : RedeemRun ι)
    (s : RedeemState ι) (turn : ι × DateTime) (h : Redeeming sha256 token keys fleet done s) :
    Redeeming sha256 token keys fleet (done ++ [entry (redeemStep sha256 token keys) s turn])
      (redeemStep sha256 token keys s turn).1 := by
  rw [entry]
  cases hphase : s.phase turn.1 with
  | idle =>
    have hsafe : UnusedAtCommit keys s turn := by
      apply unusedAtCommit_of_ne
      intro row
      rw [hphase]
      exact RedeemPhase.noConfusion
    cases hselect : redeemSelect sha256 s.fleet token turn.2 with
    | error exc =>
      rw [redeemStep_raise hphase hselect]
      exact h.quiet rfl hsafe (fun row hrow => nomatch hrow)
    | ok found =>
      cases found with
      | none =>
        rw [redeemStep_miss hphase hselect]
        exact h.quiet rfl hsafe (fun row hrow => nomatch hrow)
      | some row =>
        rw [redeemStep_found hphase hselect]
        apply h.quiet rfl hsafe
        intro other hother
        cases hother
        exact h.found hselect
  | selected row =>
    by_cases hinsertable : s.fleet.Insertable row.orgId (keys turn.1)
    · rw [redeemStep_commit hphase (redeemCommit_ok hinsertable)]
      exact h.committed hvalid hphase hinsertable
    · rcases @redeemCommit_error _ _ _ turn.2 hinsertable with ⟨exc, hcommit⟩
      rw [redeemStep_commit hphase hcommit]
      apply h.quiet rfl
      · intro other hother hfree
        rw [hphase] at hother
        cases hother
        exact absurd hfree hinsertable
      · intro other hother
        cases hother
  | finished =>
    rw [redeemStep_over hphase]
    apply h.quiet rfl
    · apply unusedAtCommit_of_ne
      intro row
      rw [hphase]
      exact RedeemPhase.noConfusion
    · intro row hrow
      cases hrow

theorem redeeming_run {fleet : Fleet} (hvalid : fleet.Valid) (schedule : List (ι × DateTime)) :
    Redeeming sha256 token keys fleet (redeemTrace sha256 token keys fleet schedule)
      (final (redeemStep sha256 token keys) (redeemStart fleet) schedule) := by
  apply trace_induction (R := Redeeming sha256 token keys fleet)
  · constructor
    · exact ⟨id, (List.map_id _).symm, fun row => ⟨rfl, rfl⟩⟩
    · intro i row hselected
      cases hselected
    · exact fun _ => rfl
    · exact fun hsome => absurd rfl hsome
    · rfl
    · exact ⟨fun _ => Nat.zero_le 1, fun _ e he => absurd he List.not_mem_nil⟩
  · exact redeeming_step hvalid

/-- A token is redeemed at most once exactly when every transaction that can insert its
machine starts while the token is unused. -/
theorem redeemed_once_iff (sha256 : Str → Str) (token : Str) (keys : ι → Str) {fleet : Fleet}
    (hvalid : fleet.Valid) (schedule : List (ι × DateTime)) :
    RedeemedOnce sha256 token keys fleet schedule ↔
      ∀ e ∈ redeemTrace sha256 token keys fleet schedule, UnusedAtCommit keys e.before e.input := by
  have h := @redeeming_run _ sha256 token keys _ _ hvalid schedule
  rw [h.safe, RedeemedOnce]
  constructor
  · exact fun hboth => hboth.1
  · intro hcount
    refine ⟨hcount, ?_⟩
    rw [redeemFinal, h.machines]
    omega

end

/-! ## Two reads before a transaction -/

/-- Two machines. -/
def twoKeys (second : Bool) : Str := if second then "b" else "a"

/-- Both redemptions read the token before either of them writes, and both write. -/
theorem token_redeemed_twice :
    oneToken.Valid ∧ Function.Injective twoKeys ∧
      ¬RedeemedOnce (fun _ => tokHash) "tok" twoKeys oneToken
        [(false, newYear), (true, newYear), (false, newYear), (true, newYear)] := by
  refine ⟨oneToken_valid, by decide, fun honce => ?_⟩
  have hcount : redeemedCount (redeemTrace (fun _ => tokHash) "tok" twoKeys oneToken
      [(false, newYear), (true, newYear), (false, newYear), (true, newYear)]) = 2 := by
    decide +kernel
  have hle := honce.1
  omega

/-- One redemption after the other. -/
theorem redeemed_once_iff_sequence :
    RedeemedOnce (fun _ => tokHash) "tok" twoKeys oneToken
        [(false, newYear), (false, newYear), (true, newYear), (true, newYear)] ↔
      ∀ e ∈ redeemTrace (fun _ => tokHash) "tok" twoKeys oneToken
        [(false, newYear), (false, newYear), (true, newYear), (true, newYear)],
          UnusedAtCommit twoKeys e.before e.input :=
  redeemed_once_iff (fun _ => tokHash) "tok" twoKeys oneToken_valid _

end DevRepro.Server
