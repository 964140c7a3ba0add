import DevRepro.Server.Sql

/-!
# Policies

`set_policy` and `active_policy` of `server/db.py`.  The reader takes the
greatest version of the active rows of a name, but the writer inserts every
document as version 1, and the table allows one row for each organization and
name.  So the second write of a name does not supersede the first: it violates
the constraint.

`last_write_wins_iff` says that a sequence of writes behaves as the last write
of each name exactly when no name is written twice.
-/

namespace DevRepro.Server

open DevRepro.Python DevRepro.Lib DevRepro.Lib.Machine

/-! ## The table -/

structure PolicyRow where
  id : Nat
  orgId : Int
  name : Str
  document : Str
  version : Nat
  active : Bool
  createdAt : Str

variable (rt : Runtime)

/-- The block of `set_policy`. -/
def insertPolicy (t : Table PolicyRow) (orgId : Int) (name : Str) (document : List (Str × Json))
    (now : DateTime) : Except Exc (Table PolicyRow × Nat) := do
  let text ← dumps rt .plain (.obj document)
  bindInt orgId
  bindText name
  if ∃ row ∈ t.rows, row.orgId = orgId ∧ row.name = name then
    .error (integrityError "policies.org_id, policies.name")
  else return (t.insert fun id => ⟨id, orgId, name, text, 1, true, now.isoformat⟩, t.seq + 1)

/-- `set_policy`, at the time `now`: the table behind the call, and what it
returns or raises. -/
def setPolicy (t : Table PolicyRow) (orgId : Int) (name : Str) (document : List (Str × Json))
    (now : DateTime) : Table PolicyRow × Except Exc Nat :=
  tx t (insertPolicy rt t orgId name document now)

/-- The row that `active_policy` selects. -/
def selectPolicy (t : Table PolicyRow) (orgId : Int) (name : Str) : Option PolicyRow :=
  ((t.rows.filter fun row => row.orgId = orgId ∧ row.name = name ∧ row.active = true).mergeSort
    fun a b => b.version ≤ a.version).head?

/-- `active_policy`. -/
def activePolicy (t : Table PolicyRow) (orgId : Int) (name : Str) : Except Exc (Option Json) := do
  bindInt orgId
  bindText name
  match selectPolicy t orgId name with
  | none => return none
  | some row =>
    let document ← loads rt.limits row.document
    return some document

/-! ## Runs of writes -/

/-- One call of `set_policy`. -/
structure PolicyWrite where
  orgId : Int
  name : Str
  document : List (Str × Json)
  now : DateTime

/-- What a policy is looked up by. -/
def PolicyWrite.key (w : PolicyWrite) : Int × Str := (w.orgId, w.name)

def policyStep (t : Table PolicyRow) (w : PolicyWrite) : Table PolicyRow × Except Exc Nat :=
  setPolicy rt t w.orgId w.name w.document w.now

/-- The table after some writes. -/
def policies (writes : List PolicyWrite) : Table PolicyRow := final (policyStep rt) .empty writes

/-- The document of the last write for an organization and a name. -/
def latest (writes : List PolicyWrite) (orgId : Int) (name : Str) : Option (List (Str × Json)) :=
  ((writes.filter fun w => w.key = (orgId, name)).getLast?).map PolicyWrite.document

/-- Every write succeeds, and at every moment every organization and name has
the document of its last write. -/
def LastWriteWins (writes : List PolicyWrite) : Prop :=
  (∀ e ∈ trace (policyStep rt) .empty writes, ∃ id, e.output = .ok id) ∧
    ∀ done rest, writes = done ++ rest → ∀ orgId name, InInt64 orgId → Encodable name →
      activePolicy rt (policies rt done) orgId name = .ok ((latest done orgId name).map Json.obj)

/-- A document that `json.dumps` writes and `json.loads` reads back. -/
def Survives (document : List (Str × Json)) : Prop :=
  ∃ text, dumps rt .plain (.obj document) = .ok text ∧ loads rt.limits text = .ok (.obj document)

/-- No name is written twice, and every write can be stored. -/
structure WritesOnce (writes : List PolicyWrite) : Prop where
  once : (writes.map PolicyWrite.key).Nodup
  storable : ∀ w ∈ writes, InInt64 w.orgId ∧ Encodable w.name ∧ Survives rt w.document

/-! ## What a write does -/

variable {rt : Runtime}

/-- The row that a write leaves. -/
structure RowOf (rt : Runtime) (w : PolicyWrite) (row : PolicyRow) : Prop where
  orgId : row.orgId = w.orgId
  name : row.name = w.name
  active : row.active = true
  document : dumps rt .plain (.obj w.document) = .ok row.document

theorem insertPolicy_eq_ok {t after : Table PolicyRow} {orgId : Int} {name : Str}
    {document : List (Str × Json)} {now : DateTime} {id : Nat} :
    insertPolicy rt t orgId name document now = .ok (after, id) ↔
      ∃ text, dumps rt .plain (.obj document) = .ok text ∧ InInt64 orgId ∧ Encodable name ∧
        (∀ row ∈ t.rows, ¬(row.orgId = orgId ∧ row.name = name)) ∧
        after = t.insert (fun id => ⟨id, orgId, name, text, 1, true, now.isoformat⟩) ∧
        id = t.seq + 1 := by
  rw [insertPolicy, bind_eq_ok]
  refine exists_congr fun text => and_congr_right fun _ => ?_
  rw [bindInt_then, bindText_then, refused_unless, Prod.mk.injEq]
  simp only [not_exists, not_and, eq_comm (a := after), eq_comm (a := id)]

/-- When a write succeeds. -/
theorem policyStep_ok_iff {t : Table PolicyRow} {w : PolicyWrite} :
    (∃ id, (policyStep rt t w).2 = .ok id) ↔
      (∃ text, dumps rt .plain (.obj w.document) = .ok text) ∧ InInt64 w.orgId ∧
        Encodable w.name ∧ ∀ row ∈ t.rows, ¬(row.orgId = w.orgId ∧ row.name = w.name) := by
  simp only [policyStep, setPolicy, tx_eq_ok, insertPolicy_eq_ok]
  constructor
  · intro ⟨_, _, text, htext, horg, hname, hno, _, _⟩
    exact ⟨⟨text, htext⟩, horg, hname, hno⟩
  · intro ⟨⟨text, htext⟩, horg, hname, hno⟩
    exact ⟨_, _, text, htext, horg, hname, hno, rfl, rfl⟩

/-- A write that succeeds appends its row. -/
theorem policyStep_rows {t : Table PolicyRow} {w : PolicyWrite}
    (h : ∃ id, (policyStep rt t w).2 = .ok id) :
    ∃ row, RowOf rt w row ∧ (policyStep rt t w).1.rows = t.rows ++ [row] := by
  rcases h with ⟨id, hid⟩
  rcases tx_eq_ok.mp hid with ⟨after, hblock⟩
  rcases insertPolicy_eq_ok.mp hblock with ⟨text, htext, _, _, _, hafter, _⟩
  refine ⟨⟨t.seq + 1, w.orgId, w.name, text, 1, true, w.now.isoformat⟩, ⟨rfl, rfl, rfl, htext⟩, ?_⟩
  rw [policyStep, setPolicy, hblock, hafter]
  rfl

/-! ## What a run leaves -/

/-- Every write of a run succeeds. -/
def Succeeds (rt : Runtime) (writes : List PolicyWrite) : Prop :=
  ∀ e ∈ trace (policyStep rt) .empty writes, ∃ id, e.output = .ok id

theorem succeeds_snoc {done : List PolicyWrite} {w : PolicyWrite} :
    Succeeds rt (done ++ [w]) ↔
      Succeeds rt done ∧ ∃ id, (policyStep rt (policies rt done) w).2 = .ok id := by
  rw [Succeeds, trace_append, List.forall_mem_append]
  simp [trace, entry, Succeeds, policies]

theorem policies_snoc (done : List PolicyWrite) (w : PolicyWrite) :
    policies rt (done ++ [w]) = (policyStep rt (policies rt done) w).1 := by
  rw [policies, final_append]
  rfl

/-- The rows after a run without failures are the rows of its writes. -/
theorem policies_rows {writes : List PolicyWrite} (h : Succeeds rt writes) :
    List.Forall₂ (RowOf rt) writes (policies rt writes).rows := by
  induction writes using List.reverseRecOn with
  | nil => exact List.Forall₂.nil
  | append_singleton done w ih =>
    rcases succeeds_snoc.mp h with ⟨hdone, hlast⟩
    rcases policyStep_rows hlast with ⟨row, hrow, hrows⟩
    rw [policies_snoc, hrows]
    exact List.rel_append (ih hdone) (List.Forall₂.cons hrow List.Forall₂.nil)

/-- The rows of writes have a key when one of the writes has it. -/
theorem exists_row_iff {writes : List PolicyWrite} {rows : List PolicyRow}
    (h : List.Forall₂ (RowOf rt) writes rows) {orgId : Int} {name : Str} :
    (∃ row ∈ rows, row.orgId = orgId ∧ row.name = name) ↔
      (orgId, name) ∈ writes.map PolicyWrite.key := by
  induction h with
  | nil => simp
  | cons hrow _ ih =>
    rw [List.exists_mem_cons_iff, ih, List.map_cons, List.mem_cons, hrow.orgId, hrow.name,
      PolicyWrite.key, Prod.mk.injEq]
    constructor
    · intro hcase
      exact hcase.imp_left fun hkey => ⟨hkey.1.symm, hkey.2.symm⟩
    · intro hcase
      exact hcase.imp_left fun hkey => ⟨hkey.1.symm, hkey.2.symm⟩

/-- A run succeeds when its writes can be stored and have distinct keys. -/
theorem succeeds_iff {writes : List PolicyWrite} :
    Succeeds rt writes ↔ (writes.map PolicyWrite.key).Nodup ∧ ∀ w ∈ writes,
      (∃ text, dumps rt .plain (.obj w.document) = .ok text) ∧ InInt64 w.orgId ∧
        Encodable w.name := by
  induction writes using List.reverseRecOn with
  | nil => simp [Succeeds, trace]
  | append_singleton done w ih =>
    have hdone : Succeeds rt done → ((∀ row ∈ (policies rt done).rows,
        ¬(row.orgId = w.orgId ∧ row.name = w.name)) ↔ w.key ∉ done.map PolicyWrite.key) := by
      intro hsucceeds
      have hexists := @exists_row_iff _ _ _ (policies_rows hsucceeds) w.orgId w.name
      rw [show w.key = (w.orgId, w.name) from rfl, ← hexists]
      simp
    rw [succeeds_snoc, policyStep_ok_iff, List.map_append, List.nodup_append, List.forall_mem_append]
    constructor
    · rintro ⟨hsucceeds, htext, horg, hname, hno⟩
      have hold := ih.mp hsucceeds
      refine ⟨⟨hold.1, by simp, ?_⟩, hold.2, by simp [htext, horg, hname]⟩
      intro key hkey other hother heq
      rw [List.map_singleton, List.mem_singleton] at hother
      rw [heq, hother] at hkey
      exact (hdone hsucceeds).mp hno hkey
    · rintro ⟨⟨hnodup, -, hdisjoint⟩, hold, hnew⟩
      have hsucceeds := ih.mpr ⟨hnodup, hold⟩
      rcases hnew w List.mem_cons_self with ⟨htext, horg, hname⟩
      refine ⟨hsucceeds, htext, horg, hname, (hdone hsucceeds).mpr fun hmem => ?_⟩
      exact hdisjoint _ hmem _ (by simp) rfl

/-! ## What the reader returns -/

/-- The rows of writes that match a key are those of the writes with the key. -/
theorem matching_rows {writes : List PolicyWrite} {rows : List PolicyRow}
    (h : List.Forall₂ (RowOf rt) writes rows) (orgId : Int) (name : Str) :
    List.Forall₂ (RowOf rt) (writes.filter fun w => w.key = (orgId, name))
      (rows.filter fun row => row.orgId = orgId ∧ row.name = name ∧ row.active = true) := by
  induction h with
  | nil => exact List.Forall₂.nil
  | @cons w row _ _ hrow _ ih =>
    by_cases hkey : w.key = (orgId, name)
    · have hmatch : row.orgId = orgId ∧ row.name = name ∧ row.active = true := by
        rw [PolicyWrite.key, Prod.mk.injEq] at hkey
        exact ⟨hrow.orgId.trans hkey.1, hrow.name.trans hkey.2, hrow.active⟩
      rw [List.filter_cons_of_pos (by simpa using hkey), List.filter_cons_of_pos (by simpa using hmatch)]
      exact List.Forall₂.cons hrow ih
    · have hmatch : ¬(row.orgId = orgId ∧ row.name = name ∧ row.active = true) := by
        intro hmatch
        apply hkey
        rw [PolicyWrite.key, Prod.mk.injEq]
        exact ⟨hrow.orgId.symm.trans hmatch.1, hrow.name.symm.trans hmatch.2.1⟩
      rw [List.filter_cons_of_neg (by simpa using hkey), List.filter_cons_of_neg (by simpa using hmatch)]
      exact ih

/-- At most one of the writes has a key. -/
theorem matching_writes {writes : List PolicyWrite} (h : (writes.map PolicyWrite.key).Nodup)
    (key : Int × Str) : (writes.filter fun w => w.key = key).length ≤ 1 := by
  have hcount := List.nodup_iff_count_le_one.mp h key
  rw [List.count_eq_countP, List.countP_map, List.countP_eq_length_filter] at hcount
  simpa [Function.comp_def, beq_eq_decide] using hcount

/-- The answer of the reader after a run: what `json.loads` makes of the text of
the one write that the key has. -/
theorem activePolicy_after {writes : List PolicyWrite} (h : Succeeds rt writes) {orgId : Int}
    {name : Str} (horg : InInt64 orgId) (hname : Encodable name) :
    latest writes orgId name = none ∧ activePolicy rt (policies rt writes) orgId name = .ok none ∨
      ∃ w ∈ writes, w.key = (orgId, name) ∧ latest writes orgId name = some w.document ∧
        ∃ text, dumps rt .plain (.obj w.document) = .ok text ∧
          activePolicy rt (policies rt writes) orgId name = (loads rt.limits text).map some := by
  have hrows := matching_rows (policies_rows h) orgId name
  have hone := matching_writes (succeeds_iff.mp h).1 (orgId, name)
  have hsub : ∀ w ∈ writes.filter fun w => w.key = (orgId, name),
      w ∈ writes ∧ w.key = (orgId, name) := by
    intro w hw
    simpa using List.mem_filter.mp hw
  have hread : activePolicy rt (policies rt writes) orgId name =
      match selectPolicy (policies rt writes) orgId name with
      | none => .ok none
      | some row => (loads rt.limits row.document).map some := by
    rw [activePolicy, bindInt_pass horg, bindText_pass hname]
    cases selectPolicy (policies rt writes) orgId name with
    | none => rfl
    | some row =>
      cases hload : loads rt.limits row.document with
      | error exc =>
        simp only [hload]
        rfl
      | ok document =>
        simp only [hload]
        rfl
  rw [hread, latest, selectPolicy]
  cases hfound : writes.filter fun w => w.key = (orgId, name) with
  | nil =>
    rw [hfound, List.forall₂_nil_left_iff] at hrows
    rw [hrows]
    exact Or.inl ⟨rfl, by simp⟩
  | cons w rest =>
    rw [hfound] at hone hrows hsub
    have hrest : rest = [] := by
      rw [List.length_cons] at hone
      exact List.eq_nil_of_length_eq_zero (by omega)
    rw [hrest] at hrows ⊢
    rcases List.forall₂_cons_left_iff.mp hrows with ⟨row, none, hrow, hnone, hfilter⟩
    rw [List.forall₂_nil_left_iff] at hnone
    rw [hfilter, hnone]
    rcases hsub w List.mem_cons_self with ⟨hmem, hkey⟩
    exact Or.inr ⟨w, hmem, hkey, rfl, row.document, hrow.document, by simp⟩

/-! ## Last write wins -/

theorem latest_snoc (done : List PolicyWrite) (w : PolicyWrite) :
    latest (done ++ [w]) w.orgId w.name = some w.document := by
  have hself : w.key = (w.orgId, w.name) := rfl
  rw [latest, List.filter_append, List.filter_cons_of_pos (by simpa using hself)]
  simp

/-- A run of writes has the last-write-wins behaviour exactly when no name of an
organization is written twice and every write can be stored. -/
theorem last_write_wins_iff (rt : Runtime) (writes : List PolicyWrite) :
    LastWriteWins rt writes ↔ WritesOnce rt writes := by
  constructor
  · intro ⟨hsucceeds, hlatest⟩
    have hwrites := succeeds_iff.mp hsucceeds
    refine ⟨hwrites.1, fun w hw => ?_⟩
    rcases hwrites.2 w hw with ⟨⟨text, htext⟩, horg, hname⟩
    refine ⟨horg, hname, text, htext, ?_⟩
    rcases List.append_of_mem hw with ⟨done, rest, hsplit⟩
    have hsplit' : writes = (done ++ [w]) ++ rest := by
      rw [hsplit, List.append_assoc, List.singleton_append]
    have hdone : Succeeds rt (done ++ [w]) := by
      intro e he
      apply hsucceeds
      rw [hsplit', trace_append]
      exact List.mem_append_left _ he
    have hread := hlatest (done ++ [w]) rest hsplit' w.orgId w.name horg hname
    rcases activePolicy_after hdone horg hname with ⟨hnone, _⟩ | ⟨other, _, _, hsome, found, hfound, hactive⟩
    · rw [latest_snoc] at hnone
      cases hnone
    · rw [hactive, hsome, Option.map_some] at hread
      rw [latest_snoc, Option.some.injEq] at hsome
      rw [← hsome, htext, Except.ok.injEq] at hfound
      rw [← hfound, ← hsome] at hread
      cases hload : loads rt.limits text with
      | error exc =>
        rw [hload] at hread
        cases hread
      | ok document =>
        rw [hload] at hread
        cases hread
        rfl
  · intro honce
    have hsucceeds : Succeeds rt writes := by
      refine succeeds_iff.mpr ⟨honce.once, fun w hw => ?_⟩
      rcases honce.storable w hw with ⟨horg, hname, text, htext, _⟩
      exact ⟨⟨text, htext⟩, horg, hname⟩
    refine ⟨hsucceeds, fun done rest hsplit orgId name horg hname => ?_⟩
    have hdone : Succeeds rt done := by
      intro e he
      apply hsucceeds
      rw [hsplit, trace_append]
      exact List.mem_append_left _ he
    rcases activePolicy_after hdone horg hname with ⟨hnone, hread⟩ | ⟨w, hw, _, hsome, text, htext, hread⟩
    · rw [hnone, hread]
      rfl
    · have hmem : w ∈ writes := by
        rw [hsplit]
        exact List.mem_append_left _ hw
      rcases (honce.storable w hmem).2.2 with ⟨other, hother, hload⟩
      rw [htext, Except.ok.injEq] at hother
      rw [hread, hsome, hother, hload]
      rfl

namespace Sample

/-- A policy with an empty document. -/
def policyWrite : PolicyWrite := ⟨1, "default", [], DateTime.newYearNoon⟩

end Sample

/-- The second write of a name fails. -/
theorem second_write_fails : ¬∀ writes : List PolicyWrite, LastWriteWins .standard writes := by
  intro h
  have hsucceeds : Succeeds .standard [Sample.policyWrite, Sample.policyWrite] :=
    (h [Sample.policyWrite, Sample.policyWrite]).1
  have honce := (succeeds_iff.mp hsucceeds).1
  simp at honce

end DevRepro.Server
