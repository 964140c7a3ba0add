import DevRepro.Lib.Sorting
import DevRepro.Python.Text
import Mathlib.Algebra.Order.Field.Basic
import Mathlib.Tactic.Linarith

/-!
# The snapshot monitor

`drift/monitor.py` and the `monitor` command.  A call compares the clock with the newest
snapshot of the history directory, and takes one where that is old.  Times are numbers of an
ordered field, in seconds.

Snapshots that the monitor takes stand an interval apart while the clock does not go back, so
it stays within its budget: `monitor_budget`.  A file from the future ends that: `monitor_behind`.
-/

namespace DevRepro.Drift

open DevRepro.Python DevRepro.Lib

variable {K : Type}

/-- A file of the history directory. -/
structure HistoryEntry (K : Type) where
  name : Str
  isFile : Bool
  mtime : K

/-- The number formats of the reasons: `:.1f`, `:g` and `round(x, 2)`. -/
structure Formats (K : Type) where
  fixed : K → Str
  general : K → Str
  round : K → K

structure MonitorDecision (K : Type) where
  snapshot : Bool
  reason : Str
  hoursSinceLast : Option K

/-- The modification times that count; `suffix` is `.json`. -/
def stamps (suffix : Str) (dir : List (HistoryEntry K)) : List K :=
  (dir.filter fun e => decide (suffix <:+ e.name) && e.isFile && e.name != lit "chain.jsonl").map
    HistoryEntry.mtime

/-- A call of `monitor`: the flag, the clock, and the name and the time that a snapshot gets. -/
structure MonitorCall (K : Type) where
  snapshot : Bool
  now : K
  name : Str
  stored : K

/-- `HistoryStore.save`: a file of the same name is replaced. -/
def saveSnapshot (dir : List (HistoryEntry K)) (c : MonitorCall K) : List (HistoryEntry K) :=
  dir.filter (fun e => e.name != c.name) ++ [⟨c.name, true, c.stored⟩]

/-- `SNAPSHOT_SUFFIX` -/
def snapshotSuffix : Str := ".devrepro-snapshot.json"

/-! ## The directory -/

theorem snapshotSuffix_counts {name : Str} (h : snapshotSuffix <:+ name) :
    lit ".json" <:+ name ∧ name ≠ lit "chain.jsonl" := by
  refine ⟨List.IsSuffix.trans (by decide) h, ?_⟩
  rintro rfl
  exact absurd h (by decide)

theorem stored_mem_stamps {dir : List (HistoryEntry K)} {c : MonitorCall K} (h : snapshotSuffix <:+ c.name) :
    c.stored ∈ stamps ".json" (saveSnapshot dir c) := by
  obtain ⟨hsuffix, hname⟩ := snapshotSuffix_counts h
  rw [stamps, saveSnapshot, List.filter_append, List.map_append, List.mem_append]
  refine .inr (List.mem_map.mpr ⟨⟨c.name, true, c.stored⟩, List.mem_filter.mpr ⟨List.mem_singleton_self _, ?_⟩, rfl⟩)
  simp [hsuffix, hname]

/-- A stamp behind a save is an old one or the new one. -/
theorem mem_stamps_saveSnapshot {dir : List (HistoryEntry K)} {c : MonitorCall K} {stamp : K}
    (h : stamp ∈ stamps ".json" (saveSnapshot dir c)) : stamp ∈ stamps ".json" dir ∨ stamp = c.stored := by
  obtain ⟨e, he, rfl⟩ := List.mem_map.mp h
  obtain ⟨hmem, hcounts⟩ := List.mem_filter.mp he
  rcases List.mem_append.mp hmem with hold | hnew
  · exact .inl (List.mem_map.mpr ⟨e, List.mem_filter.mpr ⟨(List.mem_filter.mp hold).1, hcounts⟩, rfl⟩)
  · rw [List.mem_singleton.mp hnew]
    exact .inr rfl

/-! ## Calls -/

variable [Field K] [LinearOrder K]

/-- `should_snapshot`, for a directory that can be listed. -/
def shouldSnapshot (fmt : Formats K) (intervalHours now : K) (stamps : List K) : MonitorDecision K :=
  match stamps.max? with
  | none => ⟨true, lit "No snapshot has ever been stored. The first one is the one that " ++
      lit "makes every later diff possible, and nobody takes it on a Tuesday.", none⟩
  | some latest =>
    let hours := (now - latest) / 3600
    if hours < 0 then
      ⟨true, lit "The newest snapshot is dated in the future, so this machine's clock " ++
        lit "has moved backwards. Taking one now rather than waiting for the " ++
        lit "clock to catch up.", some (fmt.round hours)⟩
    else if intervalHours ≤ hours then
      ⟨true, fmt.fixed hours ++ lit " hours since the last snapshot (interval " ++
        fmt.general intervalHours ++ lit "h).", some (fmt.round hours)⟩
    else
      ⟨false, lit "Last snapshot was " ++ fmt.fixed hours ++ lit " hours ago, inside the " ++
        fmt.general intervalHours ++ lit "h interval. Nothing to do.", some (fmt.round hours)⟩

section

variable (fmt : Formats K) (intervalHours : K)

/-- The call takes a snapshot. -/
def takes (dir : List (HistoryEntry K)) (c : MonitorCall K) : Bool :=
  (shouldSnapshot fmt intervalHours c.now (stamps ".json" dir)).snapshot && c.snapshot

/-- The directory after a call. -/
def afterCall (dir : List (HistoryEntry K)) (c : MonitorCall K) : List (HistoryEntry K) :=
  if takes fmt intervalHours dir c then saveSnapshot dir c else dir

/-- The directory after a list of calls. -/
def afterCalls (dir : List (HistoryEntry K)) (calls : List (MonitorCall K)) : List (HistoryEntry K) :=
  calls.foldl (afterCall fmt intervalHours) dir

/-- The calls that take a snapshot. -/
def taken : List (HistoryEntry K) → List (MonitorCall K) → List (MonitorCall K)
  | _, [] => []
  | dir, c :: rest =>
    if takes fmt intervalHours dir c then c :: taken (saveSnapshot dir c) rest else taken dir rest

end

/-- A run goes on in the directory that the calls before it have left. -/
theorem taken_append (fmt : Formats K) (intervalHours : K) (calls more : List (MonitorCall K)) :
    ∀ dir, taken fmt intervalHours dir (calls ++ more) =
      taken fmt intervalHours dir calls ++ taken fmt intervalHours (afterCalls fmt intervalHours dir calls) more := by
  induction calls with
  | nil => exact fun _ => rfl
  | cons c rest ih =>
    intro dir
    rw [List.cons_append, taken, taken, ih, ih, afterCalls, afterCalls, afterCalls, List.foldl_cons, afterCall]
    split_ifs <;> rfl

variable {fmt : Formats K} {intervalHours : K}

/-! ## Decisions -/

variable [IsStrictOrderedRing K]

/-- No snapshot is taken exactly when the newest is not in the future and younger than the
interval. -/
theorem shouldSnapshot_eq_false_iff {l : List K} {now : K} :
    (shouldSnapshot fmt intervalHours now l).snapshot = false ↔
      ∃ latest, l.max? = some latest ∧ latest ≤ now ∧ now < latest + intervalHours * 3600 := by
  have hpos : (0 : K) < 3600 := by norm_num
  rw [shouldSnapshot]
  cases hlatest : l.max? with
  | none => simp
  | some latest =>
    have hneg : (now - latest) / 3600 < 0 ↔ now < latest := by
      rw [div_neg_iff]
      constructor
      · rintro (⟨-, h⟩ | ⟨h, -⟩)
        · exact absurd h (not_lt.mpr hpos.le)
        · linarith
      · exact fun h => .inr ⟨by linarith, hpos⟩
    have hold : intervalHours ≤ (now - latest) / 3600 ↔ latest + intervalHours * 3600 ≤ now := by
      rw [le_div_iff₀ hpos]
      constructor <;> intro h <;> linarith
    simp only [hneg, hold]
    split_ifs with hfuture hdue
    · simp [hfuture]
    · simp [hdue]
    · simp [not_lt.mp hfuture, not_le.mp hdue]

/-! ## The budget -/

/-- The clock does not go back from a time on: a snapshot is stored after its call has read the
clock, and before the next call does. -/
def Ticks : K → List (MonitorCall K) → Prop
  | _, [] => True
  | time, c :: rest => time ≤ c.now ∧ c.now ≤ c.stored ∧ Ticks c.stored rest

/-- Names as `HistoryStore.save` makes them. -/
def Named (calls : List (MonitorCall K)) : Prop := ∀ c ∈ calls, snapshotSuffix <:+ c.name

omit [IsStrictOrderedRing K] in
theorem taken_subset {dir : List (HistoryEntry K)} {calls : List (MonitorCall K)} :
    taken fmt intervalHours dir calls ⊆ calls := by
  induction calls generalizing dir with
  | nil => exact List.Subset.refl _
  | cons c rest ih =>
    rw [taken]
    split_ifs
    · exact List.cons_subset_cons c ih
    · exact List.subset_cons_of_subset c ih

omit [Field K] [IsStrictOrderedRing K] in
theorem stamps_saveSnapshot_le {dir : List (HistoryEntry K)} {c : MonitorCall K}
    (h : ∀ stamp ∈ stamps ".json" dir, stamp ≤ c.stored) :
    ∀ stamp ∈ stamps ".json" (saveSnapshot dir c), stamp ≤ c.stored := by
  intro stamp hstamp
  rcases mem_stamps_saveSnapshot hstamp with hold | rfl
  · exact h stamp hold
  · exact le_refl _

/-- A call takes a snapshot when an interval has gone since every stamp. -/
theorem stamp_add_le_of_takes {dir : List (HistoryEntry K)} {c : MonitorCall K} {stamp : K}
    (hpast : ∀ stamp ∈ stamps ".json" dir, stamp ≤ c.now) (hstamp : stamp ∈ stamps ".json" dir)
    (htakes : takes fmt intervalHours dir c = true) : stamp + intervalHours * 3600 ≤ c.now := by
  by_contra hyoung
  rw [takes, Bool.and_eq_true] at htakes
  have hfalse : (shouldSnapshot fmt intervalHours c.now (stamps ".json" dir)).snapshot = false := by
    rw [shouldSnapshot_eq_false_iff]
    cases hlatest : (stamps ".json" dir).max? with
    | none =>
      rw [List.max?_eq_none_iff.mp hlatest] at hstamp
      cases hstamp
    | some latest =>
      obtain ⟨hmem, hmax⟩ := List.max?_eq_some_iff.mp hlatest
      exact ⟨latest, rfl, hpast latest hmem, by
        have hle := hmax stamp hstamp
        linarith⟩
  rw [hfalse] at htakes
  cases htakes.1

/-- A snapshot is taken an interval after every stamp of the directory. -/
theorem stamp_add_le_of_taken {dir : List (HistoryEntry K)} {calls : List (MonitorCall K)} {time : K}
    (hpast : ∀ stamp ∈ stamps ".json" dir, stamp ≤ time) (hticks : Ticks time calls) (hnamed : Named calls) :
    ∀ stamp ∈ stamps ".json" dir, ∀ c ∈ taken fmt intervalHours dir calls,
      stamp + intervalHours * 3600 ≤ c.now := by
  induction calls generalizing dir time with
  | nil => exact fun _ _ _ hc => absurd hc List.not_mem_nil
  | cons c rest ih =>
    obtain ⟨hnow, hstored, hticks⟩ := hticks
    obtain ⟨hname, hnamed⟩ := List.forall_mem_cons.mp hnamed
    have hold : ∀ stamp ∈ stamps ".json" dir, stamp ≤ c.stored :=
      fun stamp hstamp => (hpast stamp hstamp).trans (hnow.trans hstored)
    intro stamp hstamp later hlater
    rw [taken] at hlater
    split_ifs at hlater with htakes
    · rcases List.mem_cons.mp hlater with rfl | hlater
      · exact stamp_add_le_of_takes (fun s hs => (hpast s hs).trans hnow) hstamp htakes
      · have hnew := ih (stamps_saveSnapshot_le hold) hticks hnamed c.stored (stored_mem_stamps hname) later
          hlater
        have hle := hold stamp hstamp
        linarith
    · exact ih hold hticks hnamed stamp hstamp later hlater

/-- Two snapshots of the monitor stand an interval apart. -/
theorem taken_pairwise (fmt : Formats K) (intervalHours : K) {dir : List (HistoryEntry K)}
    {calls : List (MonitorCall K)} {time : K} (hpast : ∀ stamp ∈ stamps ".json" dir, stamp ≤ time)
    (hticks : Ticks time calls) (hnamed : Named calls) :
    (taken fmt intervalHours dir calls).Pairwise fun a b => a.stored + intervalHours * 3600 ≤ b.now := by
  induction calls generalizing dir time with
  | nil => exact List.Pairwise.nil
  | cons c rest ih =>
    obtain ⟨hnow, hstored, hticks⟩ := hticks
    obtain ⟨hname, hnamed⟩ := List.forall_mem_cons.mp hnamed
    have hold : ∀ stamp ∈ stamps ".json" dir, stamp ≤ c.stored :=
      fun stamp hstamp => (hpast stamp hstamp).trans (hnow.trans hstored)
    rw [taken]
    split_ifs
    · have hnew := stamps_saveSnapshot_le hold
      exact List.pairwise_cons.mpr ⟨fun later hlater =>
        stamp_add_le_of_taken hnew hticks hnamed c.stored (stored_mem_stamps hname) later hlater,
        ih hnew hticks hnamed⟩
    · exact ih hold hticks hnamed

omit [Field K] [IsStrictOrderedRing K] in
theorem Ticks.le_stored {time : K} {calls : List (MonitorCall K)} (h : Ticks time calls) :
    ∀ c ∈ calls, time ≤ c.now ∧ c.now ≤ c.stored := by
  induction calls generalizing time with
  | nil => exact fun c hc => absurd hc List.not_mem_nil
  | cons c rest ih =>
    refine List.forall_mem_cons.mpr ⟨⟨h.1, h.2.1⟩, fun later hlater => ?_⟩
    obtain ⟨hfrom, hstored⟩ := ih h.2.2 later hlater
    exact ⟨h.1.trans (h.2.1.trans hfrom), hstored⟩

/-- Calls that stand apart fit into a time as often as their distance does. -/
theorem length_mul_le {distance : K} (hdistance : 0 ≤ distance) {l : List (MonitorCall K)}
    (hapart : l.Pairwise fun a b => a.stored + distance ≤ b.now) {first last : K} (hlast : first ≤ last)
    (h : ∀ c ∈ l, first ≤ c.now ∧ c.now ≤ c.stored ∧ c.now ≤ last) :
    l.length * distance ≤ last - first + distance := by
  induction l generalizing first with
  | nil =>
    rw [List.length_nil, Nat.cast_zero, zero_mul]
    linarith
  | cons c rest ih =>
    obtain ⟨hc, hrest⟩ := List.forall_mem_cons.mp h
    obtain ⟨hbehind, hapart⟩ := List.pairwise_cons.mp hapart
    rw [List.length_cons, Nat.cast_succ]
    rcases List.eq_nil_or_concat rest with rfl | ⟨front, final, rfl⟩
    · rw [List.length_nil, Nat.cast_zero]
      linarith
    · -- the others start a distance behind the first one
      have hlater : ∀ b ∈ front.concat final, c.now + distance ≤ b.now ∧ b.now ≤ b.stored ∧ b.now ≤ last := by
        intro b hb
        have hdue := hbehind b hb
        exact ⟨by linarith, (hrest b hb).2⟩
      have hfinal := hlater final (by simp)
      have hbound := ih hapart (by linarith) hlater
      linarith

/-- While the clock does not go back, the snapshots of the monitor stand an interval apart, and
no more are taken than intervals fit into the time, and one. -/
theorem monitor_budget (fmt : Formats K) {intervalHours : K} (hinterval : 0 ≤ intervalHours)
    {dir : List (HistoryEntry K)} {calls : List (MonitorCall K)} {time last : K}
    (hpast : ∀ stamp ∈ stamps ".json" dir, stamp ≤ time) (hticks : Ticks time calls) (hnamed : Named calls)
    (htime : time ≤ last) (hlast : ∀ c ∈ calls, c.now ≤ last) :
    (taken fmt intervalHours dir calls).Pairwise (fun a b => a.stored + intervalHours * 3600 ≤ b.now) ∧
      (taken fmt intervalHours dir calls).length * (intervalHours * 3600) ≤
        last - time + intervalHours * 3600 := by
  have hapart := taken_pairwise fmt intervalHours hpast hticks hnamed
  refine ⟨hapart, length_mul_le (by positivity) hapart htime fun c hc => ?_⟩
  have hcall := taken_subset hc
  obtain ⟨hfrom, hstored⟩ := hticks.le_stored c hcall
  exact ⟨hfrom, hstored, hlast c hcall⟩

/-- The formats of one hour and of a day. -/
def sampleFormats : Formats ℚ := ⟨fun _ => "1.0", fun _ => "24", id⟩

def sampleName : Str := "20260102T030405Z-abc.devrepro-snapshot.json"

/-- Two calls an hour apart, from an empty directory. -/
theorem monitor_budget_hourly :
    ((taken sampleFormats 24 [] [⟨true, 0, sampleName, 0⟩, ⟨true, 3600, sampleName, 3600⟩]).length : ℚ) *
      (24 * 3600) ≤ 3600 - 0 + 24 * 3600 := by
  have hnamed : Named [(⟨true, 0, sampleName, 0⟩ : MonitorCall ℚ), ⟨true, 3600, sampleName, 3600⟩] := by
    intro c hc
    rcases List.mem_pair.mp hc with rfl | rfl <;> exact (by decide : snapshotSuffix <:+ sampleName)
  have hlast : ∀ c ∈ [(⟨true, 0, sampleName, 0⟩ : MonitorCall ℚ), ⟨true, 3600, sampleName, 3600⟩],
      c.now ≤ 3600 := by
    intro c hc
    rcases List.mem_pair.mp hc with rfl | rfl <;> norm_num
  have hticks : Ticks (0 : ℚ) [⟨true, 0, sampleName, 0⟩, ⟨true, 3600, sampleName, 3600⟩] :=
    ⟨le_refl 0, le_refl 0, by norm_num, le_refl _, trivial⟩
  exact (monitor_budget sampleFormats (by norm_num) (fun _ h => absurd h List.not_mem_nil) hticks hnamed
    (by norm_num) hlast).2

/-! ## Any clock -/

/-- While the clock is behind a file of the directory, every call takes a snapshot that may. -/
theorem monitor_behind (fmt : Formats K) (intervalHours : K) {dir : List (HistoryEntry K)} {e : HistoryEntry K}
    (he : e ∈ dir) (hfile : e.isFile = true) (hname : snapshotSuffix <:+ e.name) {calls : List (MonitorCall K)}
    (hbehind : ∀ c ∈ calls, c.now < e.mtime ∧ c.name ≠ e.name) :
    taken fmt intervalHours dir calls = calls.filter MonitorCall.snapshot := by
  induction calls generalizing dir with
  | nil => rfl
  | cons c rest ih =>
    obtain ⟨⟨hnow, hother⟩, hrest⟩ := List.forall_mem_cons.mp hbehind
    obtain ⟨hsuffix, hchain⟩ := snapshotSuffix_counts hname
    have hstamp : e.mtime ∈ stamps ".json" dir :=
      List.mem_map.mpr ⟨e, List.mem_filter.mpr ⟨he, by simp [hsuffix, hfile, hchain]⟩, rfl⟩
    have hdecision : (shouldSnapshot fmt intervalHours c.now (stamps ".json" dir)).snapshot = true := by
      rw [← Bool.not_eq_false, shouldSnapshot_eq_false_iff]
      rintro ⟨latest, hlatest, hle, -⟩
      exact absurd ((List.max?_eq_some_iff.mp hlatest).2 _ hstamp) (not_le.mpr (hle.trans_lt hnow))
    have hkept : e ∈ saveSnapshot dir c :=
      List.mem_append_left _ (List.mem_filter.mpr ⟨he, bne_iff_ne.mpr hother.symm⟩)
    rw [taken, takes, hdecision, Bool.true_and]
    by_cases hflag : c.snapshot = true
    · rw [if_pos hflag, List.filter_cons_of_pos hflag, ih hkept hrest]
    · rw [if_neg hflag, List.filter_cons_of_neg hflag, ih he hrest]

/-- A file from a day ahead, and a call now. -/
theorem monitor_behind_day :
    taken sampleFormats 24 [⟨"20260103T030405Z-abc.devrepro-snapshot.json", true, 86400⟩]
      [⟨true, 0, sampleName, 0⟩] = [⟨true, 0, sampleName, 0⟩] := by
  refine monitor_behind sampleFormats 24 (List.mem_singleton_self _) rfl (by decide) fun c hc => ?_
  rw [List.mem_singleton.mp hc]
  exact ⟨by norm_num, by decide⟩

end DevRepro.Drift
