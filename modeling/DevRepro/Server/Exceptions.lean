import DevRepro.Server.Sql

/-!
# Exceptions and their review

`request_exception`, `review_exception` and `active_exceptions` of
`server/db.py`.  A review is an update of one row under the condition that it is
still pending, and the count of rows that it changed is its answer.

The abstract view of a run is its history: the exceptions that were requested,
and the reviews that were answered with `True`.  `Reflects` says that the table
is what the history makes of it, and `review_state_machine` reads the claims
about reviews off the history.
-/

namespace DevRepro.Server

open DevRepro.Python DevRepro.Lib DevRepro.Lib.Machine

/-! ## The table -/

inductive ExceptionStatus where
  | pending
  | approved
  | rejected
  | expired
  deriving DecidableEq

structure ExceptionRow where
  id : Nat
  orgId : Int
  ruleId : Str
  justification : Str
  requestedBy : Str
  reviewedBy : Option Str
  status : ExceptionStatus
  expiresAt : Option Str
  createdAt : Str

/-- The block of `request_exception`. -/
def insertException (t : Table ExceptionRow) (orgId : Int) (ruleId justification requester : Str)
    (days : Int) (now : DateTime) : Except Exc (Table ExceptionRow × Nat) := do
  let expires ← now.addDays days
  bindInt orgId
  bindText ruleId
  bindText justification
  bindText requester
  return (t.insert fun id => ⟨id, orgId, ruleId, justification, requester, none, .pending,
    some expires.isoformat, now.isoformat⟩, t.seq + 1)

/-- `request_exception`, at the time `now`. -/
def requestException (t : Table ExceptionRow) (orgId : Int)
    (ruleId justification requester : Str) (days : Int) (now : DateTime) :
    Table ExceptionRow × Except Exc Nat :=
  tx t (insertException t orgId ruleId justification requester days now)

/-- The status that a review gives. -/
def reviewStatus (approve : Bool) : ExceptionStatus := if approve then .approved else .rejected

/-- The rows that a review changes. -/
def isReviewed (exceptionId : Int) (row : ExceptionRow) : Bool :=
  (row.id : Int) = exceptionId ∧ row.status = .pending

/-- The block of `review_exception`. -/
def updateException (t : Table ExceptionRow) (exceptionId : Int) (reviewer : Str)
    (approve : Bool) : Except Exc (Table ExceptionRow × Bool) := do
  bindText reviewer
  bindInt exceptionId
  return (t.update (isReviewed exceptionId) fun row =>
      { row with status := reviewStatus approve, reviewedBy := some reviewer },
    t.rows.countP (isReviewed exceptionId) != 0)

/-- `review_exception`. -/
def reviewException (t : Table ExceptionRow) (exceptionId : Int) (reviewer : Str)
    (approve : Bool) : Table ExceptionRow × Except Exc Bool :=
  tx t (updateException t exceptionId reviewer approve)

/-- `active_exceptions`, at the time `now`: the rule and the expiry of each. -/
def activeExceptions (t : Table ExceptionRow) (orgId : Int) (now : DateTime) :
    Except Exc (List (Str × Option Str)) := do
  bindInt orgId
  return (t.rows.filter fun row => row.orgId = orgId ∧ row.status = .approved ∧
    row.expiresAt.all fun expires => strLt now.isoformat expires).map
      fun row => (row.ruleId, row.expiresAt)

/-! ## Runs -/

inductive ReviewCall where
  | request (orgId : Int) (ruleId justification requester : Str) (days : Int) (now : DateTime)
  | review (exceptionId : Int) (reviewer : Str) (approve : Bool)

inductive ReviewAnswer where
  | requested (result : Except Exc Nat)
  | reviewed (result : Except Exc Bool)

def reviewStep (t : Table ExceptionRow) : ReviewCall → Table ExceptionRow × ReviewAnswer
  | .request orgId ruleId justification requester days now =>
    let run := requestException t orgId ruleId justification requester days now
    (run.1, .requested run.2)
  | .review exceptionId reviewer approve =>
    let run := reviewException t exceptionId reviewer approve
    (run.1, .reviewed run.2)

/-- The table after some calls. -/
def exceptionsAfter (calls : List ReviewCall) : Table ExceptionRow := final reviewStep .empty calls

/-- What happened in some calls. -/
abbrev History := List (Entry (Table ExceptionRow) ReviewCall ReviewAnswer)

/-- The history of some calls. -/
def historyOf (calls : List ReviewCall) : History := trace reviewStep .empty calls

/-- An exception that was requested. -/
structure Requested where
  id : Nat
  orgId : Int
  ruleId : Str
  justification : Str
  requester : Str
  expires : DateTime
  now : DateTime

/-- A review that was answered with `True`. -/
structure Reviewed where
  id : Int
  reviewer : Str
  approve : Bool

def requestOf (e : Entry (Table ExceptionRow) ReviewCall ReviewAnswer) : Option Requested :=
  match e.input, e.output with
  | .request orgId ruleId justification requester days now, .requested (.ok id) =>
    match now.addDays days with
    | .ok expires => some ⟨id, orgId, ruleId, justification, requester, expires, now⟩
    | .error _ => none
  | _, _ => none

def reviewOf (e : Entry (Table ExceptionRow) ReviewCall ReviewAnswer) : Option Reviewed :=
  match e.input, e.output with
  | .review exceptionId reviewer approve, .reviewed (.ok true) =>
    some ⟨exceptionId, reviewer, approve⟩
  | _, _ => none

/-- The exceptions that were requested, in order. -/
def requests (history : History) : List Requested := history.filterMap requestOf

/-- The successful reviews, in order. -/
def reviews (history : History) : List Reviewed := history.filterMap reviewOf

/-- The successful review of an exception. -/
def reviewFor (done : List Reviewed) (id : Nat) : Option Reviewed :=
  done.find? fun review => review.id = (id : Int)

/-- The row that an exception has after some reviews. -/
def rowOf (done : List Reviewed) (r : Requested) : ExceptionRow where
  id := r.id
  orgId := r.orgId
  ruleId := r.ruleId
  justification := r.justification
  requestedBy := r.requester
  reviewedBy := (reviewFor done r.id).map Reviewed.reviewer
  status :=
    match reviewFor done r.id with
    | none => .pending
    | some review => reviewStatus review.approve
  expiresAt := some r.expires.isoformat
  createdAt := r.now.isoformat

/-- The table is what the history makes of it. -/
structure Reflects (history : History) (t : Table ExceptionRow) : Prop where
  rows : t.rows = (requests history).map (rowOf (reviews history))
  keyed : Keyed ExceptionRow.id t
  once : ((reviews history).map Reviewed.id).Nodup
  known : ∀ review ∈ reviews history, ∃ r ∈ requests history, review.id = (r.id : Int)

/-! ## Steps and their histories -/

theorem requests_snoc (history : History) (e : Entry (Table ExceptionRow) ReviewCall ReviewAnswer) :
    requests (history ++ [e]) = requests history ++ (requestOf e).toList := by
  rw [requests, List.filterMap_append]
  cases h : requestOf e with
  | none => simp [requests, h]
  | some r => simp [requests, h]

theorem reviews_snoc (history : History) (e : Entry (Table ExceptionRow) ReviewCall ReviewAnswer) :
    reviews (history ++ [e]) = reviews history ++ (reviewOf e).toList := by
  rw [reviews, List.filterMap_append]
  cases h : reviewOf e with
  | none => simp [reviews, h]
  | some r => simp [reviews, h]

/-- A step that adds nothing to the history keeps the table. -/
theorem Reflects.silent {history : History} {t : Table ExceptionRow}
    {e : Entry (Table ExceptionRow) ReviewCall ReviewAnswer} (h : Reflects history t)
    (hrequest : requestOf e = none) (hreview : reviewOf e = none) :
    Reflects (history ++ [e]) t := by
  have hrequests : requests (history ++ [e]) = requests history := by
    rw [requests_snoc, hrequest, Option.toList_none, List.append_nil]
  have hreviews : reviews (history ++ [e]) = reviews history := by
    rw [reviews_snoc, hreview, Option.toList_none, List.append_nil]
  constructor
  · rw [hrequests, hreviews]
    exact h.rows
  · exact h.keyed
  · rw [hreviews]
    exact h.once
  · rw [hrequests, hreviews]
    exact h.known

theorem insertException_eq_ok {t after : Table ExceptionRow} {orgId : Int}
    {ruleId justification requester : Str} {days : Int} {now : DateTime} {id : Nat} :
    insertException t orgId ruleId justification requester days now = .ok (after, id) ↔
      ∃ expires, now.addDays days = .ok expires ∧ InInt64 orgId ∧ Encodable ruleId ∧
        Encodable justification ∧ Encodable requester ∧
        t.insert (fun id => ⟨id, orgId, ruleId, justification, requester, none, .pending,
          some expires.isoformat, now.isoformat⟩) = after ∧ t.seq + 1 = id := by
  rw [insertException, bind_eq_ok]
  refine exists_congr fun expires => and_congr_right fun _ => ?_
  rw [bindInt_then, bindText_then, bindText_then, bindText_then, pure_eq_ok, Prod.mk.injEq]

/-- The exceptions of a table have keys that were given out. -/
theorem Reflects.id_le {history : History} {t : Table ExceptionRow} (h : Reflects history t)
    {r : Requested} (hr : r ∈ requests history) : r.id ≤ t.seq := by
  apply h.keyed.given (rowOf (reviews history) r)
  rw [h.rows]
  exact List.mem_map_of_mem hr

/-- No review is for an exception that was not requested. -/
theorem Reflects.no_review {history : History} {t : Table ExceptionRow} (h : Reflects history t) :
    reviewFor (reviews history) (t.seq + 1) = none := by
  rw [reviewFor, List.find?_eq_none]
  intro review hreview hid
  rcases h.known review hreview with ⟨r, hr, heq⟩
  have hle := h.id_le hr
  have hsame : review.id = ((t.seq + 1 : Nat) : Int) := by simpa using hid
  omega

theorem reflects_request {history : History} {t : Table ExceptionRow} (h : Reflects history t)
    (orgId : Int) (ruleId justification requester : Str) (days : Int) (now : DateTime) :
    Reflects (history ++ [entry reviewStep t (.request orgId ruleId justification requester days now)])
      (requestException t orgId ruleId justification requester days now).1 := by
  cases hblock : insertException t orgId ruleId justification requester days now with
  | error exc =>
    have hafter : (requestException t orgId ruleId justification requester days now).1 = t := by
      rw [requestException, hblock]
      rfl
    rw [hafter]
    apply h.silent
    · simp only [requestOf, entry, reviewStep, requestException, hblock, tx]
    · simp only [reviewOf, entry, reviewStep]
  | ok result =>
    rcases insertException_eq_ok.mp hblock with ⟨expires, hexpires, _, _, _, _, hafter, hid⟩
    have hrun : requestException t orgId ruleId justification requester days now =
        (result.1, .ok result.2) := by
      rw [requestException, hblock]
      rfl
    have hrequest : requestOf (entry reviewStep t
        (.request orgId ruleId justification requester days now)) =
          some ⟨t.seq + 1, orgId, ruleId, justification, requester, expires, now⟩ := by
      simp only [requestOf, entry, reviewStep, hrun, hexpires, hid]
    have hreview : reviewOf (entry reviewStep t
        (.request orgId ruleId justification requester days now)) = none := by
      simp only [reviewOf, entry, reviewStep]
    rw [hrun]
    constructor
    · rw [← hafter, requests_snoc, reviews_snoc, hrequest, hreview, Option.toList_some,
        Option.toList_none, List.append_nil, List.map_append, ← h.rows, Table.insert, List.map_singleton,
        rowOf, h.no_review]
      rfl
    · rw [← hafter]
      exact h.keyed.insert rfl
    · rw [reviews_snoc, hreview, Option.toList_none, List.append_nil]
      exact h.once
    · intro review hmem
      rw [reviews_snoc, hreview, Option.toList_none, List.append_nil] at hmem
      rcases h.known review hmem with ⟨r, hr, heq⟩
      rw [requests_snoc]
      exact ⟨r, List.mem_append_left _ hr, heq⟩

theorem updateException_eq_ok {t after : Table ExceptionRow} {exceptionId : Int} {reviewer : Str}
    {approve hit : Bool} :
    updateException t exceptionId reviewer approve = .ok (after, hit) ↔
      Encodable reviewer ∧ InInt64 exceptionId ∧
        t.update (isReviewed exceptionId) (fun row =>
          { row with status := reviewStatus approve, reviewedBy := some reviewer }) = after ∧
        (t.rows.countP (isReviewed exceptionId) != 0) = hit := by
  rw [updateException, bindText_then, bindInt_then, pure_eq_ok, Prod.mk.injEq]

/-- An update of no row changes nothing. -/
theorem update_none {t : Table ExceptionRow} {which : ExceptionRow → Bool}
    (h : t.rows.countP which = 0) (change : ExceptionRow → ExceptionRow) :
    t.update which change = t := by
  have hrows : (t.rows.map fun row => if which row then change row else row) = t.rows := by
    rw [List.countP_eq_zero] at h
    refine (List.map_congr_left fun row hrow => ?_).trans (List.map_id t.rows)
    exact if_neg (h row hrow)
  rw [Table.update, hrows]

theorem reviewFor_snoc_self {done : List Reviewed} {review : Reviewed} {id : Nat}
    (hnone : reviewFor done id = none) (hid : review.id = (id : Int)) :
    reviewFor (done ++ [review]) id = some review := by
  rw [reviewFor] at hnone
  rw [reviewFor, List.find?_append, hnone]
  simp [hid]

theorem reviewFor_snoc_of_ne {done : List Reviewed} {review : Reviewed} {id : Nat}
    (hid : review.id ≠ (id : Int)) : reviewFor (done ++ [review]) id = reviewFor done id := by
  rw [reviewFor, List.find?_append, List.find?_cons_of_neg (by simpa using hid), List.find?_nil,
    Option.or_none]
  rfl

/-- A row is pending when its exception has no review yet. -/
theorem rowOf_pending {done : List Reviewed} {r : Requested} :
    (rowOf done r).status = .pending ↔ reviewFor done r.id = none := by
  rw [rowOf]
  cases reviewFor done r.id with
  | none => simp
  | some review =>
    cases happrove : review.approve with
    | true => simp [reviewStatus, happrove]
    | false => simp [reviewStatus, happrove]

/-- The row of an exception after its review. -/
theorem rowOf_reviewed {done : List Reviewed} {r : Requested} {review : Reviewed}
    (hnone : reviewFor done r.id = none) (hid : review.id = (r.id : Int)) :
    rowOf (done ++ [review]) r =
      { rowOf done r with status := reviewStatus review.approve, reviewedBy := some review.reviewer } := by
  simp only [rowOf, reviewFor_snoc_self hnone hid, Option.map_some]

theorem isReviewed_iff {exceptionId : Int} {row : ExceptionRow} :
    isReviewed exceptionId row = true ↔ (row.id : Int) = exceptionId ∧ row.status = .pending :=
  decide_eq_true_iff

theorem rowOf_snoc_of_ne {done : List Reviewed} {review : Reviewed} {r : Requested}
    (hid : review.id ≠ (r.id : Int)) : rowOf (done ++ [review]) r = rowOf done r := by
  rw [rowOf, rowOf, reviewFor_snoc_of_ne hid]

/-- The rows of a table after a review of an exception that had none. -/
theorem map_update_rowOf {done : List Reviewed} {asked : List Requested} {review : Reviewed}
    (hfresh : ∀ r ∈ asked, review.id = (r.id : Int) → reviewFor done r.id = none) :
    (asked.map (rowOf done)).map (fun row => if isReviewed review.id row then
        { row with status := reviewStatus review.approve, reviewedBy := some review.reviewer }
      else row) = asked.map (rowOf (done ++ [review])) := by
  rw [List.map_map]
  apply List.map_congr_left
  intro r hr
  rw [Function.comp_apply]
  by_cases hid : review.id = (r.id : Int)
  · have hnone := hfresh r hr hid
    have hchange : isReviewed review.id (rowOf done r) = true :=
      isReviewed_iff.mpr ⟨hid.symm, rowOf_pending.mpr hnone⟩
    rw [if_pos hchange, rowOf_reviewed hnone hid]
  · have hkeep : ¬isReviewed review.id (rowOf done r) = true :=
      fun hboth => hid (isReviewed_iff.mp hboth).1.symm
    rw [if_neg hkeep, rowOf_snoc_of_ne hid]

/-- A review of an exception that is still pending. -/
theorem Reflects.hit {history : History} {t : Table ExceptionRow}
    {e : Entry (Table ExceptionRow) ReviewCall ReviewAnswer} (h : Reflects history t)
    {review : Reviewed} (hrequest : requestOf e = none) (hreview : reviewOf e = some review)
    (hcount : t.rows.countP (isReviewed review.id) ≠ 0) :
    Reflects (history ++ [e]) (t.update (isReviewed review.id) fun row =>
      { row with status := reviewStatus review.approve, reviewedBy := some review.reviewer }) := by
  -- The exception that the review is for has none yet.
  rcases List.countP_pos_iff.mp (Nat.pos_of_ne_zero hcount) with ⟨row, hrow, hpending⟩
  rw [h.rows] at hrow
  rcases List.mem_map.mp hrow with ⟨r, hr, rfl⟩
  have hfound : (r.id : Int) = review.id ∧ (rowOf (reviews history) r).status = .pending :=
    isReviewed_iff.mp hpending
  have hnone : reviewFor (reviews history) r.id = none := rowOf_pending.mp hfound.2
  have hrequests : requests (history ++ [e]) = requests history := by
    rw [requests_snoc, hrequest, Option.toList_none, List.append_nil]
  have hreviews : reviews (history ++ [e]) = reviews history ++ [review] := by
    rw [reviews_snoc, hreview, Option.toList_some]
  constructor
  · rw [hrequests, hreviews, Table.update, h.rows]
    apply map_update_rowOf
    intro other _ hid
    have hsame : other.id = r.id := by
      have hboth : (other.id : Int) = r.id := hid.symm.trans hfound.1.symm
      omega
    rw [hsame]
    exact hnone
  · exact h.keyed.update fun row => rfl
  · rw [hreviews, List.map_append, List.nodup_append]
    refine ⟨h.once, List.nodup_singleton _, fun a ha b hb heq => ?_⟩
    rcases List.mem_map.mp ha with ⟨old, hmem, rfl⟩
    rw [List.map_singleton, List.mem_singleton] at hb
    rw [reviewFor, List.find?_eq_none] at hnone
    apply hnone old hmem
    exact decide_eq_true (heq.trans (hb.trans hfound.1.symm))
  · intro other hmem
    rw [hreviews] at hmem
    rw [hrequests]
    rcases List.mem_append.mp hmem with hold | hnew
    · exact h.known other hold
    · rw [List.mem_singleton.mp hnew]
      exact ⟨r, hr, hfound.1.symm⟩

theorem reviewException_of_error {t : Table ExceptionRow} {exceptionId : Int} {reviewer : Str}
    {approve : Bool} {exc : Exc}
    (h : updateException t exceptionId reviewer approve = .error exc) :
    reviewException t exceptionId reviewer approve = (t, .error exc) := by
  rw [reviewException, h, tx]

theorem reviewException_of_ok {t : Table ExceptionRow} {exceptionId : Int} {reviewer : Str}
    {approve hit : Bool} {after : Table ExceptionRow}
    (h : updateException t exceptionId reviewer approve = .ok (after, hit)) :
    reviewException t exceptionId reviewer approve = (after, .ok hit) := by
  rw [reviewException, h, tx]

theorem reviewStep_review (t : Table ExceptionRow) (exceptionId : Int) (reviewer : Str)
    (approve : Bool) : reviewStep t (.review exceptionId reviewer approve) =
      ((reviewException t exceptionId reviewer approve).1,
        .reviewed (reviewException t exceptionId reviewer approve).2) := by
  rw [reviewStep]

theorem fst_of_eq_mk {α β γ : Type} {p : α × β} {run : α × γ} {answer : γ → β}
    (h : p = (run.1, answer run.2)) : p.1 = run.1 := by
  rw [h]

theorem reviewStep_review_table (t : Table ExceptionRow) (exceptionId : Int) (reviewer : Str)
    (approve : Bool) : (reviewStep t (.review exceptionId reviewer approve)).1 =
      (reviewException t exceptionId reviewer approve).1 :=
  fst_of_eq_mk (reviewStep_review t exceptionId reviewer approve)

/-- The history of a review. -/
theorem reviewOf_entry {t after : Table ExceptionRow} {exceptionId : Int} {reviewer : Str}
    {approve : Bool} {result : Except Exc Bool}
    (hrun : reviewException t exceptionId reviewer approve = (after, result)) :
    reviewOf (entry reviewStep t (.review exceptionId reviewer approve)) =
      match result with
      | .ok true => some ⟨exceptionId, reviewer, approve⟩
      | _ => none := by
  have hstep : reviewStep t (.review exceptionId reviewer approve) = (after, .reviewed result) := by
    rw [reviewStep_review, hrun]
  rw [entry, hstep]
  cases result with
  | error exc => rfl
  | ok hit =>
    cases hit with
    | false => rfl
    | true => rfl

theorem reflects_review {history : History} {t : Table ExceptionRow} (h : Reflects history t)
    (exceptionId : Int) (reviewer : Str) (approve : Bool) :
    Reflects (history ++ [entry reviewStep t (.review exceptionId reviewer approve)])
      (reviewException t exceptionId reviewer approve).1 := by
  have hrequest : requestOf (entry reviewStep t (.review exceptionId reviewer approve)) = none := by
    simp only [requestOf, entry, reviewStep]
  cases hblock : updateException t exceptionId reviewer approve with
  | error exc =>
    have hrun := reviewException_of_error hblock
    rw [hrun]
    exact h.silent hrequest (reviewOf_entry hrun)
  | ok result =>
    rcases result with ⟨after, hit⟩
    have hrun := reviewException_of_ok hblock
    have hreview := reviewOf_entry hrun
    rcases updateException_eq_ok.mp hblock with ⟨_, _, hafter, hhit⟩
    rw [hrun, ← hafter]
    cases hit with
    | false =>
      have hcount : t.rows.countP (isReviewed exceptionId) = 0 := bne_eq_false_iff_eq.mp hhit
      rw [update_none hcount]
      exact h.silent hrequest hreview
    | true => exact h.hit hrequest hreview (bne_iff_ne.mp hhit)

/-- The table always is what the history makes of it. -/
theorem reflects_run (calls : List ReviewCall) : Reflects (historyOf calls) (exceptionsAfter calls) := by
  apply trace_induction (R := Reflects)
  · have hreviews : reviews [] = [] := rfl
    refine ⟨rfl, keyed_empty, ?_, fun review hmem => ?_⟩
    · rw [hreviews]
      exact List.nodup_nil
    · rw [hreviews] at hmem
      exact absurd hmem List.not_mem_nil
  · intro history t call h
    cases call with
    | request orgId ruleId justification requester days now =>
      exact reflects_request h orgId ruleId justification requester days now
    | review exceptionId reviewer approve =>
      rw [reviewStep_review_table]
      exact reflects_review h exceptionId reviewer approve

/-! ## The review of an exception -/

theorem id_of_reviewFor {done : List Reviewed} {id : Nat} {review : Reviewed}
    (hfind : reviewFor done id = some review) : review.id = (id : Int) := by
  rw [reviewFor] at hfind
  have hid := List.find?_some hfind
  exact of_decide_eq_true hid

/-- The only review of an exception is the one that is found. -/
theorem reviewFor_eq_some {done : List Reviewed} (honce : (done.map Reviewed.id).Nodup)
    {review : Reviewed} (hmem : review ∈ done) {id : Nat} (hid : review.id = (id : Int)) :
    reviewFor done id = some review := by
  cases hfind : reviewFor done id with
  | none =>
    rw [reviewFor, List.find?_eq_none] at hfind
    exact absurd (decide_eq_true hid) (hfind review hmem)
  | some other =>
    have hother := id_of_reviewFor hfind
    have hin : other ∈ done := List.mem_of_find?_eq_some hfind
    rw [List.inj_on_of_nodup_map honce hin hmem (hother.trans hid.symm)]

theorem reviewFor_some_iff {done : List Reviewed} (honce : (done.map Reviewed.id).Nodup) {id : Nat}
    {review : Reviewed} :
    reviewFor done id = some review ↔ review ∈ done ∧ review.id = (id : Int) := by
  constructor
  · intro hfind
    exact ⟨List.mem_of_find?_eq_some hfind, id_of_reviewFor hfind⟩
  · intro ⟨hmem, hid⟩
    exact reviewFor_eq_some honce hmem hid

theorem reviewStatus_approved {approve : Bool} :
    reviewStatus approve = .approved ↔ approve = true := by
  cases approve <;> decide

theorem rowOf_approved {done : List Reviewed} (honce : (done.map Reviewed.id).Nodup)
    {r : Requested} : (rowOf done r).status = .approved ↔
      ∃ review ∈ done, review.id = (r.id : Int) ∧ review.approve = true := by
  constructor
  · intro hstatus
    rw [rowOf] at hstatus
    cases hfind : reviewFor done r.id with
    | none =>
      rw [hfind] at hstatus
      cases hstatus
    | some review =>
      rw [hfind] at hstatus
      have hfound := (reviewFor_some_iff honce).mp hfind
      exact ⟨review, hfound.1, hfound.2, reviewStatus_approved.mp hstatus⟩
  · intro ⟨review, hmem, hid, happrove⟩
    rw [rowOf, reviewFor_eq_some honce hmem hid]
    exact reviewStatus_approved.mpr happrove

/-- An exception of an organization that was approved and is not over at a time. -/
def IsActive (done : List Reviewed) (orgId : Int) (now : DateTime) (r : Requested) : Prop :=
  r.orgId = orgId ∧ (∃ review ∈ done, review.id = (r.id : Int) ∧ review.approve = true) ∧
    now.Before r.expires

instance (done : List Reviewed) (orgId : Int) (now : DateTime) :
    DecidablePred (IsActive done orgId now) := fun _ =>
  inferInstanceAs (Decidable (_ ∧ (∃ review ∈ done, _ ∧ _) ∧ _))

/-- `active_exceptions` gives the exceptions that the history makes active. -/
theorem Reflects.active {history : History} {t : Table ExceptionRow} (h : Reflects history t)
    {orgId : Int} (horg : InInt64 orgId) (now : DateTime) :
    activeExceptions t orgId now =
      .ok (((requests history).filter (IsActive (reviews history) orgId now)).map
        fun r => (r.ruleId, some r.expires.isoformat)) := by
  rw [activeExceptions, bindInt_pass horg, h.rows, List.filter_map, List.map_map]
  have hrows : (requests history).filter ((fun row : ExceptionRow => decide (row.orgId = orgId ∧
      row.status = .approved ∧ row.expiresAt.all fun expires => strLt now.isoformat expires)) ∘
        rowOf (reviews history)) = (requests history).filter (IsActive (reviews history) orgId now) := by
    apply List.filter_congr
    intro r _
    rw [Function.comp_apply]
    apply decide_eq_decide.mpr
    rw [rowOf_approved h.once, IsActive, ← isoformat_lt_iff]
    rfl
  rw [hrows]
  rfl

/-- A row after a review that was answered with `True`. -/
def ExceptionRow.reviewed (row : ExceptionRow) (reviewer : Str) (approve : Bool) : ExceptionRow :=
  { row with status := reviewStatus approve, reviewedBy := some reviewer }

/-- What a review does to a pending exception. -/
def Changes (exceptionId : Int) (reviewer : Str) (approve : Bool)
    (before after : Table ExceptionRow) : Prop :=
  ∃ row ∈ before.rows, (row.id : Int) = exceptionId ∧ row.status = .pending ∧
    row.reviewed reviewer approve ∈ after.rows

theorem reviewStatus_ne_pending (approve : Bool) : reviewStatus approve ≠ .pending := by
  cases approve <;> decide

/-- A review changes a pending exception or nothing, and it says which. -/
theorem review_answer {t : Table ExceptionRow} (hkeyed : Keyed ExceptionRow.id t)
    (exceptionId : Int) (reviewer : Str) (approve : Bool) :
    ((reviewException t exceptionId reviewer approve).2 = .ok true ↔
      Changes exceptionId reviewer approve t (reviewException t exceptionId reviewer approve).1) ∧
    ((reviewException t exceptionId reviewer approve).2 ≠ .ok true →
      (reviewException t exceptionId reviewer approve).1 = t) := by
  have hsame : ¬Changes exceptionId reviewer approve t t := by
    intro ⟨row, hrow, _, hpending, hafter⟩
    have heq : row.reviewed reviewer approve = row := hkeyed.row_unique hafter hrow rfl
    have hstatus : reviewStatus approve = row.status := congrArg ExceptionRow.status heq
    exact reviewStatus_ne_pending approve (hstatus.trans hpending)
  cases hblock : updateException t exceptionId reviewer approve with
  | error exc =>
    rw [reviewException_of_error hblock]
    exact ⟨⟨fun h => (nomatch h), fun h => absurd h hsame⟩, fun _ => rfl⟩
  | ok result =>
    rcases result with ⟨after, hit⟩
    rw [reviewException_of_ok hblock]
    rcases updateException_eq_ok.mp hblock with ⟨_, _, hafter, hhit⟩
    cases hit with
    | false =>
      have hcount : t.rows.countP (isReviewed exceptionId) = 0 := bne_eq_false_iff_eq.mp hhit
      have hkeep : after = t := by
        rw [← hafter]
        exact update_none hcount _
      rw [hkeep]
      exact ⟨⟨fun h => (nomatch h), fun h => absurd h hsame⟩, fun _ => rfl⟩
    | true =>
      have hcount : t.rows.countP (isReviewed exceptionId) ≠ 0 := bne_iff_ne.mp hhit
      rcases List.countP_pos_iff.mp (Nat.pos_of_ne_zero hcount) with ⟨row, hrow, hpending⟩
      have hfound := isReviewed_iff.mp hpending
      refine ⟨⟨fun _ => ⟨row, hrow, hfound.1, hfound.2, ?_⟩, fun _ => rfl⟩, fun h => absurd rfl h⟩
      rw [← hafter]
      apply List.mem_map.mpr
      exact ⟨row, hrow, if_pos hpending⟩

theorem historyOf_append (done rest : List ReviewCall) :
    historyOf (done ++ rest) = historyOf done ++ trace reviewStep (exceptionsAfter done) rest :=
  trace_append _ _ _

theorem reviews_subset (done rest : List ReviewCall) :
    reviews (historyOf done) ⊆ reviews (historyOf (done ++ rest)) := by
  intro review hmem
  rw [historyOf_append, reviews, List.filterMap_append]
  exact List.mem_append_left _ hmem

theorem requests_subset (done rest : List ReviewCall) :
    requests (historyOf done) ⊆ requests (historyOf (done ++ rest)) := by
  intro r hmem
  rw [historyOf_append, requests, List.filterMap_append]
  exact List.mem_append_left _ hmem

/-- A review settles the row of its exception for all later calls. -/
theorem reviewed_row_stays (done rest : List ReviewCall) {review : Reviewed}
    (hreview : review ∈ reviews (historyOf done)) :
    ∃ row ∈ (exceptionsAfter done).rows, (row.id : Int) = review.id ∧
      row.status = reviewStatus review.approve ∧ row.reviewedBy = some review.reviewer ∧
      ∀ later, later ∈ (exceptionsAfter (done ++ rest)).rows ∧ (later.id : Int) = review.id ↔
        later = row := by
  have hearly := reflects_run done
  have hlate := reflects_run (done ++ rest)
  rcases hearly.known review hreview with ⟨r, hr, hid⟩
  have hfind := reviewFor_eq_some hearly.once hreview hid
  have hfind' := reviewFor_eq_some hlate.once (reviews_subset done rest hreview) hid
  have hrow : rowOf (reviews (historyOf (done ++ rest))) r = rowOf (reviews (historyOf done)) r := by
    rw [rowOf, rowOf, hfind, hfind']
  have hin : rowOf (reviews (historyOf done)) r ∈ (exceptionsAfter (done ++ rest)).rows := by
    rw [← hrow, hlate.rows]
    exact List.mem_map_of_mem (requests_subset done rest hr)
  refine ⟨rowOf (reviews (historyOf done)) r, ?_, hid.symm, ?_, ?_, fun later => ?_⟩
  · rw [hearly.rows]
    exact List.mem_map_of_mem hr
  · rw [rowOf, hfind]
  · rw [rowOf, hfind]
    rfl
  · constructor
    · intro ⟨hmem, hsame⟩
      apply hlate.keyed.row_unique hmem hin
      have heq : (later.id : Int) = r.id := hsame.trans hid
      show later.id = r.id
      omega
    · intro heq
      rw [heq]
      exact ⟨hin, hid.symm⟩

/-- The review of exceptions over a whole run. -/
structure ReviewedOnce (calls : List ReviewCall) : Prop where
  /-- An exception has one successful review at most. -/
  once : ((reviews (historyOf calls)).map Reviewed.id).Nodup
  /-- The answer of a review is `True` exactly when it changes a pending exception,
  and any other review changes nothing. -/
  answers : ∀ done rest exceptionId reviewer approve,
    calls = done ++ .review exceptionId reviewer approve :: rest →
      ((reviewException (exceptionsAfter done) exceptionId reviewer approve).2 = .ok true ↔
        Changes exceptionId reviewer approve (exceptionsAfter done)
          (reviewException (exceptionsAfter done) exceptionId reviewer approve).1) ∧
      ((reviewException (exceptionsAfter done) exceptionId reviewer approve).2 ≠ .ok true →
        (reviewException (exceptionsAfter done) exceptionId reviewer approve).1 =
          exceptionsAfter done)
  /-- The row of an exception never changes after its review. -/
  frozen : ∀ done rest, calls = done ++ rest → ∀ review ∈ reviews (historyOf done),
    ∃ row ∈ (exceptionsAfter done).rows, (row.id : Int) = review.id ∧
      row.status = reviewStatus review.approve ∧ row.reviewedBy = some review.reviewer ∧
      ∀ later, later ∈ (exceptionsAfter calls).rows ∧ (later.id : Int) = review.id ↔ later = row
  /-- Two requests are two exceptions. -/
  distinct : ((requests (historyOf calls)).map Requested.id).Nodup
  /-- Every active exception gives one row, and nothing else does. -/
  active : ∀ orgId now, InInt64 orgId → activeExceptions (exceptionsAfter calls) orgId now =
    .ok (((requests (historyOf calls)).filter
      (IsActive (reviews (historyOf calls)) orgId now)).map
        fun r => (r.ruleId, some r.expires.isoformat))

theorem review_state_machine (calls : List ReviewCall) : ReviewedOnce calls := by
  have h := reflects_run calls
  constructor
  · exact h.once
  · intro done rest exceptionId reviewer approve _
    exact review_answer (reflects_run done).keyed exceptionId reviewer approve
  · intro done rest hcalls review hreview
    rw [hcalls]
    exact reviewed_row_stays done rest hreview
  · have hdistinct := h.keyed.distinct
    rw [h.rows, List.map_map] at hdistinct
    exact hdistinct
  · intro orgId now horg
    exact h.active horg now

end DevRepro.Server
