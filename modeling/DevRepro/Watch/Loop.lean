import DevRepro.Lib.Changes
import DevRepro.Lib.Dict
import DevRepro.Lib.Machine
import DevRepro.Python.JsonDump

/-!
# The watch loop

`Change`, `_diff`, `_merge` and `watch` of `watch.py`.  A `Poll` is one round of the loop:
the fingerprint that it finds, and what the clock says where it asks.

The loop is a machine.  `Tracks` ties what is pending to the fingerprints since the last
report, path by path: a path is pending as added, removed or modified when one of these
happened to it on the way.  `Tracks.round` is its step lemma.
-/

namespace DevRepro.Watch

open DevRepro.Python DevRepro.Lib DevRepro.Lib.Changes DevRepro.Lib.Machine

/-- A digest for every watched file. -/
abbrev Fingerprint := Dict Str Str

/-- `Change`. -/
structure Change where
  added : List Str
  removed : List Str
  modified : List Str

/-- `sorted(set(names))` -/
def sortedSet (names : List Str) : List Str := names.dedup.mergeSort strLe

/-- The paths of a fingerprint. -/
def paths (f : Fingerprint) : List Str := f.items.map Prod.fst

/-- `bool(change)` -/
def Change.truthy (c : Change) : Bool := !(c.added.isEmpty && c.removed.isEmpty && c.modified.isEmpty)

/-- `_diff`. -/
def diff (before after : Fingerprint) : Change where
  added := sortedSet ((paths after).filter fun path => !before.contains path)
  removed := sortedSet ((paths before).filter fun path => !after.contains path)
  modified := sortedSet ((paths before).filter fun path =>
    after.contains path && decide (before.get? path ≠ after.get? path))

/-- `_merge`. -/
def merge (first second : Change) : Change where
  added := sortedSet (first.added ++ second.added)
  removed := sortedSet (first.removed ++ second.removed)
  modified := sortedSet (first.modified ++ second.modified)

/-- One round of the loop: the fingerprint, and the answer of `clock()`. -/
structure Poll (τ : Type) where
  current : Fingerprint
  now : τ

/-- The variables of the loop. -/
structure State (τ : Type) where
  baseline : Fingerprint
  pending : Option Change
  settledAt : τ
  fired : ℕ

section Code

variable {τ : Type} [Add τ] [LE τ] [DecidableLE τ] (quietPeriod : τ)

/-- A round of the loop, and the change that `on_change` is called with. -/
def step (s : State τ) (poll : Poll τ) : State τ × Option Change :=
  let change := diff s.baseline poll.current
  if change.truthy then
    ({ s with
        baseline := poll.current
        pending := some (match s.pending with
          | none => change
          | some pending => merge pending change)
        settledAt := poll.now + quietPeriod }, none)
  else
    match s.pending with
    | some pending =>
      if s.settledAt ≤ poll.now then
        ({ s with pending := none, fired := s.fired + 1 }, some pending)
      else (s, none)
    | none => (s, none)

/-- The variables before the first round. -/
def State.start [Zero τ] (baseline : Fingerprint) : State τ := ⟨baseline, none, 0, 0⟩

/-- `watch`, over the polls up to `max_polls`. -/
def watch [Zero τ] (baseline : Fingerprint) (polls : List (Poll τ)) : ℕ :=
  (final (step quietPeriod) (.start baseline) polls).fired

end Code

/-! ## Fingerprints -/

/-- Two fingerprints are equal as dictionaries. -/
def Same (f g : Fingerprint) : Prop := ∀ path, f.get? path = g.get? path

variable {f g : Fingerprint} {path : Str}

theorem Same.refl (f : Fingerprint) : Same f f := fun _ => rfl

theorem Same.symm (h : Same f g) : Same g f := fun path => (h path).symm

theorem Same.trans {other : Fingerprint} (h : Same f g) (h' : Same g other) : Same f other :=
  fun path => (h path).trans (h' path)

theorem mem_sortedSet {names : List Str} : path ∈ sortedSet names ↔ path ∈ names := by
  rw [sortedSet, List.mem_mergeSort, List.mem_dedup]

theorem mem_paths : path ∈ paths f ↔ f.get? path ≠ none := by
  rw [paths, List.mem_map, Option.ne_none_iff_exists']
  constructor
  · rintro ⟨item, hitem, rfl⟩
    exact ⟨item.2, Dict.mem_items_iff.mp hitem⟩
  · rintro ⟨digest, hdigest⟩
    exact ⟨(path, digest), Dict.mem_items_iff.mpr hdigest, rfl⟩

theorem contains_iff : f.contains path = true ↔ f.get? path ≠ none := by
  rw [Dict.contains, Option.isSome_iff_ne_none]

/-- A path is in a change as one of the three. -/
structure Names (c : Change) (path : Str) (appears vanishes differs : Prop) : Prop where
  added : path ∈ c.added ↔ appears
  removed : path ∈ c.removed ↔ vanishes
  modified : path ∈ c.modified ↔ differs

theorem names_diff : Names (diff f g) path (Appears (f.get? path) (g.get? path))
    (Vanishes (f.get? path) (g.get? path)) (Differs (f.get? path) (g.get? path)) := by
  constructor
  · rw [diff, mem_sortedSet, List.mem_filter, mem_paths, Bool.not_eq_true', ← Bool.not_eq_true,
      contains_iff, not_not]
    exact and_comm
  · rw [diff, mem_sortedSet, List.mem_filter, mem_paths, Bool.not_eq_true', ← Bool.not_eq_true,
      contains_iff, not_not]
    rfl
  · rw [diff, mem_sortedSet, List.mem_filter, mem_paths, Bool.and_eq_true, contains_iff,
      decide_eq_true_eq]
    rfl

theorem truthy_iff {c : Change} :
    c.truthy = true ↔ ∃ path, path ∈ c.added ∨ path ∈ c.removed ∨ path ∈ c.modified := by
  unfold Change.truthy
  rw [Bool.not_eq_true', Bool.and_eq_false_iff, Bool.and_eq_false_iff]
  simp only [List.isEmpty_eq_false_iff_exists_mem, ← exists_or]
  exact exists_congr fun _ => or_assoc

/-- A change is empty exactly between equal fingerprints. -/
theorem diff_truthy_iff : (diff f g).truthy = true ↔ ¬Same f g := by
  rw [truthy_iff, Same, not_forall]
  refine exists_congr fun path => ?_
  rw [names_diff.added, names_diff.removed, names_diff.modified, ← ne_iff]

theorem names_merge {first second : Change} {a v d a' v' d' : Prop} (h : Names first path a v d)
    (h' : Names second path a' v' d') : Names (merge first second) path (a ∨ a') (v ∨ v') (d ∨ d') := by
  constructor
  · rw [merge, mem_sortedSet, List.mem_append, h.added, h'.added]
  · rw [merge, mem_sortedSet, List.mem_append, h.removed, h'.removed]
  · rw [merge, mem_sortedSet, List.mem_append, h.modified, h'.modified]

/-! ## A round -/

section Rounds

variable {τ : Type} [Add τ] [LE τ] [DecidableLE τ] {quietPeriod : τ} {s : State τ} {poll : Poll τ}

/-- What is pending after a movement. -/
def State.pendingWith (s : State τ) (change : Change) : Change :=
  match s.pending with
  | none => change
  | some pending => merge pending change

theorem step_moved (h : ¬Same s.baseline poll.current) :
    step quietPeriod s poll =
      (⟨poll.current, some (s.pendingWith (diff s.baseline poll.current)), poll.now + quietPeriod,
        s.fired⟩, none) := by
  rw [step, if_pos (diff_truthy_iff.mpr h)]
  rfl

theorem step_fires {pending : Change} (h : Same s.baseline poll.current)
    (hpending : s.pending = some pending) (hsettled : s.settledAt ≤ poll.now) :
    step quietPeriod s poll = ({ s with pending := none, fired := s.fired + 1 }, some pending) := by
  have hstill : ¬(diff s.baseline poll.current).truthy = true := fun htruthy =>
    diff_truthy_iff.mp htruthy h
  rw [step, if_neg hstill, hpending]
  dsimp only
  rw [if_pos hsettled]

theorem step_waits (h : Same s.baseline poll.current)
    (hwait : ∀ pending, s.pending = some pending → ¬s.settledAt ≤ poll.now) :
    step quietPeriod s poll = (s, none) := by
  have hstill : ¬(diff s.baseline poll.current).truthy = true := fun htruthy =>
    diff_truthy_iff.mp htruthy h
  rw [step, if_neg hstill]
  cases hpending : s.pending with
  | none => rfl
  | some pending =>
    dsimp only
    rw [if_neg (hwait pending hpending)]

/-- All that a round can do. -/
theorem step_cases (quietPeriod : τ) (s : State τ) (poll : Poll τ) :
    (¬Same s.baseline poll.current ∧ step quietPeriod s poll =
      (⟨poll.current, some (s.pendingWith (diff s.baseline poll.current)), poll.now + quietPeriod,
        s.fired⟩, none)) ∨
    (Same s.baseline poll.current ∧ ∃ pending, s.pending = some pending ∧ s.settledAt ≤ poll.now ∧
      step quietPeriod s poll = ({ s with pending := none, fired := s.fired + 1 }, some pending)) ∨
    (Same s.baseline poll.current ∧ step quietPeriod s poll = (s, none)) := by
  by_cases hsame : Same s.baseline poll.current
  · refine Or.inr ?_
    by_cases hfires : ∃ pending, s.pending = some pending ∧ s.settledAt ≤ poll.now
    · obtain ⟨pending, hpending, hsettled⟩ := hfires
      exact Or.inl ⟨hsame, pending, hpending, hsettled, step_fires hsame hpending hsettled⟩
    · refine Or.inr ⟨hsame, step_waits hsame fun pending hpending hsettled => ?_⟩
      exact hfires ⟨pending, hpending, hsettled⟩
  · exact Or.inl ⟨hsame, step_moved hsame⟩

/-- `fired` counts the calls. -/
theorem step_fired (quietPeriod : τ) (s : State τ) (poll : Poll τ) :
    (step quietPeriod s poll).1.fired =
      s.fired + if (step quietPeriod s poll).2.isSome then 1 else 0 := by
  rcases step_cases quietPeriod s poll with ⟨-, hstep⟩ | ⟨-, pending, -, -, hstep⟩ | ⟨-, hstep⟩
  all_goals rw [hstep]; rfl

end Rounds

/-! ## What is pending -/

section Runs

variable {τ : Type}

/-- The fingerprint of the last poll, or of the start. -/
def lastSeen (start : Fingerprint) (polls : List (Poll τ)) : Fingerprint :=
  (polls.getLast?.map Poll.current).getD start

theorem lastSeen_append (start : Fingerprint) (polls : List (Poll τ)) (poll : Poll τ) :
    lastSeen start (polls ++ [poll]) = poll.current := by
  rw [lastSeen, List.getLast?_append]
  rfl

/-- The fingerprints from the one of the previous call on, or from the start. -/
def since (start : Fingerprint) (done : List (Entry (State τ) (Poll τ) (Option Change))) :
    List Fingerprint :=
  done.foldl (fun seen e =>
    if e.output.isSome then [e.input.current] else seen ++ [e.input.current]) [start]

theorem since_append (start : Fingerprint)
    (done : List (Entry (State τ) (Poll τ) (Option Change))) (e : Entry (State τ) (Poll τ) (Option Change)) :
    since start (done ++ [e]) =
      if e.output.isSome then [e.input.current] else since start done ++ [e.input.current] := by
  rw [since, List.foldl_append]
  rfl

/-- What a path was in some fingerprints. -/
def sights (seen : List Fingerprint) (path : Str) : List (Option Str) := seen.map (·.get? path)

theorem sights_append (seen : List Fingerprint) (f : Fingerprint) (path : Str) :
    sights (seen ++ [f]) path = sights seen path ++ [f.get? path] := List.map_append

/-- The baseline is the last fingerprint, and a path is pending for what happened to it since
the previous call. -/
structure Tracks (start : Fingerprint) (done : List (Entry (State τ) (Poll τ) (Option Change)))
    (s : State τ) : Prop where
  baseline : ∀ path, (sights (since start done) path).getLast? = some (s.baseline.get? path)
  names : ∀ path, Names (s.pending.getD ⟨[], [], []⟩) path
    (Happens Appears (sights (since start done) path))
    (Happens Vanishes (sights (since start done) path))
    (Happens Differs (sights (since start done) path))

theorem names_nothing {a v d : Prop} (ha : ¬a) (hv : ¬v) (hd : ¬d) :
    Names ⟨[], [], []⟩ path a v d :=
  ⟨iff_of_false List.not_mem_nil ha, iff_of_false List.not_mem_nil hv,
    iff_of_false List.not_mem_nil hd⟩

theorem Names.congr {c : Change} {a v d a' v' d' : Prop} (h : Names c path a v d) (ha : a' ↔ a)
    (hv : v' ↔ v) (hd : d' ↔ d) : Names c path a' v' d' :=
  ⟨h.added.trans ha.symm, h.removed.trans hv.symm, h.modified.trans hd.symm⟩

theorem names_pendingWith {s : State τ} {change : Change} {a v d a' v' d' : Prop}
    (h : Names (s.pending.getD ⟨[], [], []⟩) path a v d) (h' : Names change path a' v' d') :
    Names (s.pendingWith change) path (a ∨ a') (v ∨ v') (d ∨ d') := by
  unfold State.pendingWith
  cases hpending : s.pending with
  | some pending =>
    rw [hpending] at h
    exact names_merge h h'
  | none =>
    rw [hpending] at h
    have ha : ¬a := fun ha => List.not_mem_nil (h.added.mpr ha)
    have hv : ¬v := fun hv => List.not_mem_nil (h.removed.mpr hv)
    have hd : ¬d := fun hd => List.not_mem_nil (h.modified.mpr hd)
    exact h'.congr (or_iff_right ha) (or_iff_right hv) (or_iff_right hd)

theorem tracks_start [Zero τ] (start : Fingerprint) : Tracks (τ := τ) start [] (.start start) where
  baseline := fun _ => rfl
  names := fun _ => names_nothing not_happens_singleton not_happens_singleton not_happens_singleton

variable [Add τ] [LE τ] [DecidableLE τ] {quietPeriod : τ}

/-- Every round keeps `Tracks`. -/
theorem Tracks.round {start : Fingerprint} {done : List (Entry (State τ) (Poll τ) (Option Change))}
    {s : State τ} (h : Tracks start done s) (poll : Poll τ) :
    Tracks start (done ++ [entry (step quietPeriod) s poll]) (step quietPeriod s poll).1 := by
  rcases step_cases quietPeriod s poll with ⟨-, hstep⟩ | ⟨hsame, pending, -, -, hstep⟩ |
    ⟨hsame, hstep⟩
  · have hsince : since start (done ++ [entry (step quietPeriod) s poll]) =
        since start done ++ [poll.current] := by
      rw [since_append, entry, hstep]
      rfl
    rw [hstep]
    refine ⟨fun path => ?_, fun path => ?_⟩
    · rw [hsince, sights_append, List.getLast?_append]
      rfl
    · rw [hsince, sights_append]
      exact (names_pendingWith (h.names path) names_diff).congr (happens_append (h.baseline path))
        (happens_append (h.baseline path)) (happens_append (h.baseline path))
  · have hsince : since start (done ++ [entry (step quietPeriod) s poll]) = [poll.current] := by
      rw [since_append, entry, hstep]
      rfl
    rw [hstep]
    refine ⟨fun path => ?_, fun path => ?_⟩
    · rw [hsince, hsame path]
      rfl
    · rw [hsince]
      exact names_nothing not_happens_singleton not_happens_singleton not_happens_singleton
  · have hsince : since start (done ++ [entry (step quietPeriod) s poll]) =
        since start done ++ [poll.current] := by
      rw [since_append, entry, hstep]
      rfl
    have hstill : ∀ (R : Option Str → Option Str → Prop), (∀ a, ¬R a a) → ∀ path,
        (Happens R (sights (since start done) path ++ [poll.current.get? path]) ↔
          Happens R (sights (since start done) path)) := by
      intro R hirrefl path
      rw [happens_append (h.baseline path), hsame path, or_iff_left (hirrefl _)]
    rw [hstep]
    refine ⟨fun path => ?_, fun path => ?_⟩
    · rw [hsince, sights_append, List.getLast?_append, hsame path]
      rfl
    · rw [hsince, sights_append]
      exact (h.names path).congr (hstill Appears (fun _ h => h.2 h.1) path)
        (hstill Vanishes (fun _ h => h.1 h.2) path) (hstill Differs (fun _ h => h.2.2 rfl) path)

/-- Without something pending and without a movement there is no call. -/
theorem no_call {s : State τ} (hpending : s.pending = none) {later : List (Poll τ)}
    (hlater : ∀ p ∈ later, Same s.baseline p.current) :
    ∀ e ∈ trace (step quietPeriod) s later, e.output = none := by
  induction later with
  | nil => exact fun e he => absurd he List.not_mem_nil
  | cons poll later ih =>
    obtain ⟨hsame, hlater⟩ := List.forall_mem_cons.mp hlater
    have hstep : step quietPeriod s poll = (s, none) :=
      step_waits hsame fun pending h => by rw [hpending] at h; cases h
    intro e he
    rw [trace, hstep] at he
    rcases List.mem_cons.mp he with rfl | he
    · rw [entry, hstep]
    · exact ih hlater e he

end Runs

end DevRepro.Watch
