import DevRepro.Lib.Minimal
import DevRepro.Python.Json
import DevRepro.Reproduce.Bisect

/-!
# Minimisation of environments

`minimise_dimensions` of `reproduce/bisect.py`: delta debugging.

A round asks for each part of the current set, then for each complement of one.  The loop
ends when the parts are single dimensions and no question of the round fails, which makes
its set 1-minimal: `minimise_minimal`.  The budget is looked at between rounds only:
`withinBudget_iff` says when that is enough.
-/

namespace DevRepro.Reproduce

open DevRepro.Python DevRepro.Lib

variable {σ : Type} (fails : Verdict σ)

/-! ## A round -/

/-- `if candidate and ask(candidate)`, for each candidate in turn: the first that fails. -/
def firstFailing : List (List Dimension) → Session σ → Session σ × Option (List Dimension)
  | [], s => (s, none)
  | candidate :: candidates, s =>
    if candidate = [] then firstFailing candidates s
    else
      let (s, failed) := ask fails candidate s
      if failed then (s, some candidate) else firstFailing candidates s

/-- `chunks` -/
def chunksOf (current : List Dimension) (granularity : Nat) : List (List Dimension) :=
  slices (max 1 (current.length / granularity)) current

/-- `[d for d in current if d not in chunk]`, for each chunk. -/
def complementsOf (current : List Dimension) (granularity : Nat) : List (List Dimension) :=
  (chunksOf current granularity).map fun chunk => current.filter (· ∉ chunk)

/-- One turn of the loop: the set and the granularity that it goes on with, unless it ends. -/
def reduceRound (current : List Dimension) (granularity : Nat) (s : Session σ) :
    Session σ × Option (List Dimension × Nat) :=
  match firstFailing fails (chunksOf current granularity) s with
  | (s, some chunk) => (s, some (chunk, 2))
  | (s, none) =>
    match firstFailing fails (complementsOf current granularity) s with
    | (s, some complement) => (s, some (complement, max 2 (granularity - 1)))
    | (s, none) =>
      if current.length ≤ granularity then (s, none)
      else (s, some (current, min current.length (granularity * 2)))

variable {fails}

theorem firstFailing_some {candidates : List (List Dimension)} {s s' : Session σ}
    {c : List Dimension} (h : firstFailing fails candidates s = (s', some c)) :
    c ∈ candidates ∧ c ≠ [] ∧ ∃ caller, (fails caller c).2 = true := by
  induction candidates generalizing s with
  | nil => cases h
  | cons candidate candidates ih =>
    rw [firstFailing] at h
    split_ifs at h with hnil
    · obtain ⟨hmem, hc⟩ := ih h
      exact ⟨List.mem_cons_of_mem _ hmem, hc⟩
    · dsimp only at h
      split_ifs at h with hfailed
      · cases h
        exact ⟨List.mem_cons_self, hnil, s.caller, hfailed⟩
      · obtain ⟨hmem, hc⟩ := ih h
        exact ⟨List.mem_cons_of_mem _ hmem, hc⟩

theorem chunk_size_pos (current : List Dimension) (granularity : Nat) :
    0 < max 1 (current.length / granularity) := by
  omega

/-- A chunk is a smaller part of the current set. -/
theorem chunk_shorter {current chunk : List Dimension} {granularity : Nat} (hg : 2 ≤ granularity)
    (hlong : 1 < current.length) (h : chunk ∈ chunksOf current granularity) :
    chunk.length < current.length := by
  have hle := length_slice_le (chunk_size_pos current granularity) h
  have hdiv : current.length / granularity ≤ current.length / 2 :=
    Nat.div_le_div_left hg (by decide)
  omega

/-- So is the complement of a chunk. -/
theorem complement_shorter {current complement : List Dimension} {granularity : Nat}
    (h : complement ∈ complementsOf current granularity) : complement.length < current.length := by
  obtain ⟨chunk, hchunk, rfl⟩ := List.mem_map.mp h
  have hsize := chunk_size_pos current granularity
  obtain ⟨d, hd⟩ := List.exists_mem_of_ne_nil chunk (slice_ne_nil hsize hchunk)
  have hmem := (slice_sublist hsize hchunk).subset hd
  refine lt_of_le_of_ne (List.length_filter_le _ _) fun heq => ?_
  have hall := List.length_filter_eq_length_iff.mp heq d hmem
  simp [hd] at hall

/-- A round goes on with a smaller set, or with finer chunks of the same one. -/
theorem reduceRound_some {current next : List Dimension} {granularity finer : Nat}
    {s s' : Session σ} (hg : 2 ≤ granularity) (hlong : 1 < current.length)
    (h : reduceRound fails current granularity s = (s', some (next, finer))) :
    2 ≤ finer ∧ (next.length < current.length ∨
      next = current ∧ granularity < finer ∧ finer ≤ current.length) := by
  unfold reduceRound at h
  split at h
  · rename_i chunk hfirst
    cases h
    exact ⟨Nat.le_refl 2, Or.inl (chunk_shorter hg hlong (firstFailing_some hfirst).1)⟩
  · split at h
    · rename_i complement hfirst
      cases h
      exact ⟨Nat.le_max_left _ _, Or.inl (complement_shorter (firstFailing_some hfirst).1)⟩
    · split_ifs at h with hend
      · cases h
      · simp only [Prod.mk.injEq, Option.some.injEq] at h
        obtain ⟨-, rfl, rfl⟩ := h
        exact ⟨by omega, Or.inr ⟨rfl, by omega, Nat.min_le_left _ _⟩⟩

/-! ## The loop -/

structure MinimisationResult where
  minimal : List Dimension
  verdicts : Nat
  trail : List (List Str × Bool)
  inconclusiveBecause : Option Str

variable (fails)

/-- The reason of a search that stops for its budget. -/
def stoppedAfter (maxVerdicts : Nat) : Str :=
  lit "Stopped after " ++ natStr maxVerdicts ++
    lit (" verdicts. The set below still " ++
      "reproduces the failure but may not be minimal -- each verdict " ++
      "costs a human applying a change and running a build, so the " ++
      "search is bounded rather than exhaustive.")

/-- The loop of `minimise_dimensions`, with a granularity of two or more. -/
def minimiseFrom (maxVerdicts : Nat) (current : List Dimension) (granularity : Nat)
    (hg : 2 ≤ granularity) (s : Session σ) : MinimisationResult :=
  if hlong : 1 < current.length then
    if maxVerdicts ≤ s.verdicts then
      ⟨current, s.verdicts, s.trail, some (stoppedAfter maxVerdicts)⟩
    else
      match hround : reduceRound fails current granularity s with
      | (s, none) => ⟨current, s.verdicts, s.trail, none⟩
      | (s, some (next, finer)) =>
        minimiseFrom maxVerdicts next finer (reduceRound_some hg hlong hround).1 s
  else ⟨current, s.verdicts, s.trail, none⟩
termination_by (current.length, current.length - granularity)
decreasing_by
  rcases (reduceRound_some hg hlong hround).2 with hlt | ⟨rfl, hfiner, hle⟩
  · exact Prod.Lex.left _ _ hlt
  · exact Prod.Lex.right _ (by omega)

/-- `minimise_dimensions`. -/
def minimiseDimensions (maxVerdicts : Nat) (dimensions : List Dimension) (caller : σ) :
    MinimisationResult :=
  if dimensions = [] then ⟨[], 0, [], some sameDimensions⟩
  else
    let (s, fullFails) := ask fails dimensions (Session.start caller)
    if !fullFails then
      ⟨[], s.verdicts, s.trail, some
        (lit ("Applying every difference does not reproduce the failure, so there " ++
          "is nothing here to minimise."))⟩
    else minimiseFrom fails maxVerdicts dimensions 2 (Nat.le_refl 2) s

/-! ## Turns of the loop -/

variable {fails} {maxVerdicts : Nat} {current : List Dimension} {granularity : Nat}
  {hg : 2 ≤ granularity} {s : Session σ}

theorem minimiseFrom_single (h : ¬1 < current.length) :
    minimiseFrom fails maxVerdicts current granularity hg s =
      ⟨current, s.verdicts, s.trail, none⟩ := by
  rw [minimiseFrom, dif_neg h]

theorem minimiseFrom_stop (hlong : 1 < current.length) (hstop : maxVerdicts ≤ s.verdicts) :
    minimiseFrom fails maxVerdicts current granularity hg s =
      ⟨current, s.verdicts, s.trail, some (stoppedAfter maxVerdicts)⟩ := by
  rw [minimiseFrom, dif_pos hlong, if_pos hstop]

theorem minimiseFrom_end {s' : Session σ} (hlong : 1 < current.length)
    (hgo : ¬maxVerdicts ≤ s.verdicts) (hround : reduceRound fails current granularity s = (s', none)) :
    minimiseFrom fails maxVerdicts current granularity hg s =
      ⟨current, s'.verdicts, s'.trail, none⟩ := by
  rw [minimiseFrom, dif_pos hlong, if_neg hgo]
  split
  · rename_i heq
    rw [hround] at heq
    cases heq
    rfl
  · rename_i heq
    rw [hround] at heq
    cases heq

theorem minimiseFrom_next {next : List Dimension} {finer : Nat} {s' : Session σ}
    (hlong : 1 < current.length) (hgo : ¬maxVerdicts ≤ s.verdicts)
    (hround : reduceRound fails current granularity s = (s', some (next, finer))) :
    minimiseFrom fails maxVerdicts current granularity hg s =
      minimiseFrom fails maxVerdicts next finer (reduceRound_some hg hlong hround).1 s' := by
  rw [minimiseFrom, dif_pos hlong, if_neg hgo]
  split
  · rename_i heq
    rw [hround] at heq
    cases heq
  · rename_i heq
    rw [hround] at heq
    cases heq
    rfl

/-! ## Minimal sets -/

theorem firstFailing_none {candidates : List (List Dimension)} {s s' : Session σ}
    (h : firstFailing fails candidates s = (s', none)) :
    ∀ c ∈ candidates, c ≠ [] → ∃ caller, (fails caller c).2 = false := by
  induction candidates generalizing s with
  | nil => exact fun c hc => absurd hc List.not_mem_nil
  | cons candidate candidates ih =>
    rw [firstFailing] at h
    intro c hc hne
    split_ifs at h with hnil
    · rcases List.mem_cons.mp hc with rfl | hc
      · exact absurd hnil hne
      · exact ih h c hc hne
    · dsimp only at h
      split_ifs at h with hfailed
      · cases h
      · rcases List.mem_cons.mp hc with rfl | hc
        · exact ⟨s.caller, eq_false_of_ne_true hfailed⟩
        · exact ih h c hc hne

/-- What a round goes on with is a part of its set, and if it is another one it fails. -/
theorem reduceRound_part {current next : List Dimension} {granularity finer : Nat}
    {s s' : Session σ} (h : reduceRound fails current granularity s = (s', some (next, finer))) :
    next.Sublist current ∧ (next = current ∨ next ≠ [] ∧ ∃ caller, (fails caller next).2 = true) := by
  unfold reduceRound at h
  split at h
  · rename_i chunk hfirst
    cases h
    obtain ⟨hmem, hfails⟩ := firstFailing_some hfirst
    exact ⟨slice_sublist (chunk_size_pos current granularity) hmem, Or.inr hfails⟩
  · split at h
    · rename_i complement hfirst
      cases h
      obtain ⟨hmem, hfails⟩ := firstFailing_some hfirst
      obtain ⟨chunk, -, rfl⟩ := List.mem_map.mp hmem
      exact ⟨List.filter_sublist, Or.inr hfails⟩
    · split_ifs at h with hend
      · cases h
      · cases h
        exact ⟨List.Sublist.refl _, Or.inl rfl⟩

/-- Where the loop ends, no dimension can be left out. -/
theorem reduceRound_none {s' : Session σ}
    (hlong : 1 < current.length) (hnodup : current.Nodup)
    (h : reduceRound fails current granularity s = (s', none)) :
    ∀ d ∈ current, ∃ caller, (fails caller (current.filter (· ≠ d))).2 = false := by
  have hround : current.length ≤ granularity ∧ ∀ c ∈ complementsOf current granularity, c ≠ [] →
      ∃ caller, (fails caller c).2 = false := by
    unfold reduceRound at h
    split at h
    · cases h
    · split at h
      · cases h
      · rename_i hnone
        split_ifs at h with hend
        · exact ⟨hend, firstFailing_none hnone⟩
        · cases h
  obtain ⟨hfine, hcomplements⟩ := hround
  intro d hd
  have hsize : max 1 (current.length / granularity) = 1 := by
    have hdiv : current.length / granularity ≤ 1 := Nat.div_le_of_le_mul (by omega)
    omega
  have hchunk : [d] ∈ chunksOf current granularity := by
    rw [chunksOf, hsize]
    exact mem_slices_one hd
  have hcomplement : current.filter (· ≠ d) ∈ complementsOf current granularity := by
    refine List.mem_map.mpr ⟨[d], hchunk, ?_⟩
    exact List.filter_congr fun c _ => by simp
  refine hcomplements _ hcomplement fun hempty => ?_
  -- Two dimensions of the set are distinct, so the complement holds the other one.
  obtain ⟨e, he, hne⟩ : ∃ e ∈ current, e ≠ d := by
    match current, hlong, hnodup with
    | a :: b :: rest, _, hnodup =>
      have hab : a ≠ b := fun heq => (List.nodup_cons.mp hnodup).1 (heq ▸ List.mem_cons_self)
      by_cases ha : a = d
      · exact ⟨b, by simp, fun hb => hab (ha.trans hb.symm)⟩
      · exact ⟨a, List.mem_cons_self, ha⟩
  have hmem : e ∈ current.filter (· ≠ d) := List.mem_filter.mpr ⟨he, by simpa using hne⟩
  rw [hempty] at hmem
  cases hmem

/-- The loop keeps a failing part of its set, and leaves a 1-minimal one. -/
theorem minimiseFrom_spec {f : List Dimension → Bool}
    (hsteady : ∀ caller candidate, (fails caller candidate).2 = f candidate) (hempty : f [] = false)
    (maxVerdicts : Nat) (current : List Dimension) (granularity : Nat) (hg : 2 ≤ granularity)
    (s : Session σ) (hnodup : current.Nodup) (hcurrent : f current = true)
    (hdone : (minimiseFrom fails maxVerdicts current granularity hg s).inconclusiveBecause = none) :
    (minimiseFrom fails maxVerdicts current granularity hg s).minimal.Sublist current ∧
      OneMinimal f (minimiseFrom fails maxVerdicts current granularity hg s).minimal := by
  fun_induction minimiseFrom fails maxVerdicts current granularity hg s with
  | case1 current granularity hg s hlong hstop => cases hdone
  | case2 current granularity hg s hlong hgo s' hround =>
    refine ⟨List.Sublist.refl _, hcurrent, fun d hd => ?_⟩
    obtain ⟨caller, hpass⟩ := reduceRound_none hlong hnodup hround d hd
    rw [← hpass, hsteady]
  | case3 current granularity hg s hlong hgo s' next finer hround ih =>
    obtain ⟨hpart, hnext⟩ := reduceRound_part hround
    have hfails : f next = true := by
      rcases hnext with rfl | ⟨-, caller, hfails⟩
      · exact hcurrent
      · rw [← hfails, hsteady]
    obtain ⟨hsub, hmin⟩ := ih (hnodup.sublist hpart) hfails hdone
    exact ⟨hsub.trans hpart, hmin⟩
  | case4 current granularity hg s hshort =>
    refine ⟨List.Sublist.refl _, ?_⟩
    match current, hcurrent, hshort with
    | [], hcurrent, _ =>
      rw [hempty] at hcurrent
      cases hcurrent
    | [d], hcurrent, _ => exact oneMinimal_singleton hcurrent hempty
    | _ :: _ :: _, _, hshort => simp at hshort

/-- A conclusive search finds a failing part of the dimensions, in their order, that no
dimension can be left out of.  Where some dimensions together are the cause it finds them. -/
theorem minimise_minimal (fails : Verdict σ) (f : List Dimension → Bool)
    (hsteady : ∀ caller candidate, (fails caller candidate).2 = f candidate) (hempty : f [] = false)
    (maxVerdicts : Nat) (dimensions : List Dimension) (hnodup : dimensions.Nodup) (caller : σ)
    (hdone : (minimiseDimensions fails maxVerdicts dimensions caller).inconclusiveBecause = none) :
    OneMinimal f (minimiseDimensions fails maxVerdicts dimensions caller).minimal ∧
      (minimiseDimensions fails maxVerdicts dimensions caller).minimal.Sublist dimensions ∧
      ∀ cause, cause.Sublist dimensions → cause ≠ [] →
        (∀ candidate, candidate.Sublist dimensions → (f candidate = true ↔ cause ⊆ candidate)) →
          (minimiseDimensions fails maxVerdicts dimensions caller).minimal = cause := by
  have hspec : (minimiseDimensions fails maxVerdicts dimensions caller).minimal.Sublist dimensions ∧
      OneMinimal f (minimiseDimensions fails maxVerdicts dimensions caller).minimal := by
    unfold minimiseDimensions at hdone ⊢
    by_cases hne : dimensions = []
    · rw [if_pos hne] at hdone
      cases hdone
    · rw [if_neg hne] at hdone ⊢
      have hasked : (ask fails dimensions (Session.start caller)).2 = f dimensions := hsteady _ _
      by_cases hfull : f dimensions = true
      · rw [hfull] at hasked
        simp only [hasked, Bool.not_true, Bool.false_eq_true, if_false] at hdone ⊢
        exact minimiseFrom_spec hsteady hempty _ _ _ _ _ hnodup hfull hdone
      · rw [eq_false_of_ne_true hfull] at hasked
        simp only [hasked, Bool.not_false, if_true] at hdone
        cases hdone
  exact ⟨hspec.2, hspec.1, fun cause hcause _ hsupersets =>
    hspec.2.eq_of_supersets hnodup hspec.1 hcause hsupersets⟩

def localeDimension : Dimension := ⟨"locale", some "C", some "tr_TR"⟩

def pathDimension : Dimension := ⟨"path", none, some "/opt/bin"⟩

/-- The failure that takes both dimensions. -/
def bothFail (candidate : List Dimension) : Bool :=
  decide (localeDimension ∈ candidate) && decide (pathDimension ∈ candidate)

/-- The two of them. -/
def twoDimensions : List Dimension := [localeDimension, pathDimension]

/-- The questions about the two dimensions: the set is minimal as it stands. -/
theorem bothFail_search {maxVerdicts : Nat} (h : 1 < maxVerdicts) :
    (minimiseDimensions (steady bothFail) maxVerdicts twoDimensions ()).verdicts = 5 ∧
      (minimiseDimensions (steady bothFail) maxVerdicts twoDimensions ()).inconclusiveBecause =
        none := by
  have hround : reduceRound (steady bothFail) twoDimensions 2
      (ask (steady bothFail) twoDimensions (Session.start ())).1 =
        ((reduceRound (steady bothFail) twoDimensions 2
          (ask (steady bothFail) twoDimensions (Session.start ())).1).1, none) := rfl
  have hend : minimiseFrom (steady bothFail) maxVerdicts twoDimensions 2 (Nat.le_refl 2)
      (ask (steady bothFail) twoDimensions (Session.start ())).1 = _ :=
    minimiseFrom_end (by decide) (Nat.not_le.mpr h) hround
  have hfull : (ask (steady bothFail) twoDimensions (Session.start ())).2 = true := rfl
  have hne : twoDimensions ≠ [] := List.cons_ne_nil _ _
  rw [minimiseDimensions, if_neg hne]
  simp only [hfull, Bool.not_true, Bool.false_eq_true, if_false, hend]
  exact ⟨rfl, trivial⟩

theorem minimise_minimal_both :
    (minimiseDimensions (steady bothFail) 200 twoDimensions ()).minimal = twoDimensions := by
  have h := minimise_minimal (steady bothFail) bothFail (fun _ _ => rfl) rfl 200 twoDimensions
    (by decide) () (bothFail_search (by decide)).2
  refine h.2.2 _ (List.Sublist.refl _) (List.cons_ne_nil _ _) fun candidate _ => ?_
  simp [bothFail, twoDimensions]

/-! ## The budget -/

variable (fails)

/-- How many verdicts a search without a budget has asked for, at the start of each round
and at the end. -/
def roundCounts (current : List Dimension) (granularity : Nat) (hg : 2 ≤ granularity)
    (s : Session σ) : List Nat :=
  if hlong : 1 < current.length then
    match hround : reduceRound fails current granularity s with
    | (s', none) => [s.verdicts, s'.verdicts]
    | (s', some (next, finer)) =>
      s.verdicts :: roundCounts next finer (reduceRound_some hg hlong hround).1 s'
  else [s.verdicts]
termination_by (current.length, current.length - granularity)
decreasing_by
  rcases (reduceRound_some hg hlong hround).2 with hlt | ⟨rfl, hfiner, hle⟩
  · exact Prod.Lex.left _ _ hlt
  · exact Prod.Lex.right _ (by omega)

/-- The counts of a whole search without a budget. -/
def questionCounts (dimensions : List Dimension) (caller : σ) : List Nat :=
  if dimensions = [] then [0]
  else
    let (s, fullFails) := ask fails dimensions (Session.start caller)
    if !fullFails then [s.verdicts] else roundCounts fails dimensions 2 (Nat.le_refl 2) s

variable {fails}

theorem firstFailing_verdicts (fails : Verdict σ) (candidates : List (List Dimension)) (s : Session σ) :
    s.verdicts ≤ (firstFailing fails candidates s).1.verdicts := by
  induction candidates generalizing s with
  | nil => exact Nat.le_refl _
  | cons candidate candidates ih =>
    rw [firstFailing]
    split_ifs with hnil
    · exact ih s
    · dsimp only
      have hask : (ask fails candidate s).1.verdicts = s.verdicts + 1 := rfl
      split_ifs with hfailed
      · exact Nat.le_of_lt (hask ▸ Nat.lt_succ_self _)
      · have hrest := ih (ask fails candidate s).1
        omega

theorem reduceRound_verdicts (fails : Verdict σ) (current : List Dimension) (granularity : Nat) (s : Session σ) :
    s.verdicts ≤ (reduceRound fails current granularity s).1.verdicts := by
  have hchunks := firstFailing_verdicts fails (chunksOf current granularity) s
  unfold reduceRound
  split
  · rename_i s₁ chunk hfirst
    rw [hfirst] at hchunks
    exact hchunks
  · rename_i s₁ hfirst
    rw [hfirst] at hchunks
    have hcomplements := firstFailing_verdicts fails (complementsOf current granularity) s₁
    split
    · rename_i s₂ complement hsecond
      rw [hsecond] at hcomplements
      exact hchunks.trans hcomplements
    · rename_i s₂ hsecond
      rw [hsecond] at hcomplements
      split_ifs
      · exact hchunks.trans hcomplements
      · exact hchunks.trans hcomplements

/-- A search asks for no fewer verdicts than it starts with. -/
theorem minimiseFrom_verdicts :
    s.verdicts ≤ (minimiseFrom fails maxVerdicts current granularity hg s).verdicts := by
  fun_induction minimiseFrom fails maxVerdicts current granularity hg s with
  | case1 current granularity hg s hlong hstop => exact Nat.le_refl _
  | case2 current granularity hg s hlong hgo s' hround =>
    have hverdicts := reduceRound_verdicts fails current granularity s
    rw [hround] at hverdicts
    exact hverdicts
  | case3 current granularity hg s hlong hgo s' next finer hround ih =>
    have hverdicts := reduceRound_verdicts fails current granularity s
    rw [hround] at hverdicts
    exact hverdicts.trans ih
  | case4 current granularity hg s hshort => exact Nat.le_refl _

theorem roundCounts_bounds (fails : Verdict σ) (current : List Dimension) (granularity : Nat)
    (hg : 2 ≤ granularity) (s : Session σ) : s.verdicts ∈ roundCounts fails current granularity hg s ∧
      ∀ n ∈ roundCounts fails current granularity hg s, s.verdicts ≤ n := by
  fun_induction roundCounts fails current granularity hg s with
  | case1 current granularity hg s hlong s' hround =>
    have hverdicts := reduceRound_verdicts fails current granularity s
    rw [hround] at hverdicts
    refine ⟨List.mem_cons_self, fun n hn => ?_⟩
    rcases List.mem_cons.mp hn with rfl | hn
    · exact Nat.le_refl _
    · rw [List.mem_singleton.mp hn]
      exact hverdicts
  | case2 current granularity hg s hlong s' next finer hround ih =>
    have hverdicts := reduceRound_verdicts fails current granularity s
    rw [hround] at hverdicts
    refine ⟨List.mem_cons_self, fun n hn => ?_⟩
    rcases List.mem_cons.mp hn with rfl | hn
    · exact Nat.le_refl _
    · exact hverdicts.trans (ih.2 n hn)
  | case3 current granularity hg s hshort => simp

/-- From a count within the budget, the search stays in it when it looks at the budget just
there, or never comes to be above it. -/
theorem minimiseFrom_budget (maxVerdicts : Nat) (current : List Dimension) (granularity : Nat)
    (hg : 2 ≤ granularity) (s : Session σ) (hs : s.verdicts ≤ maxVerdicts) :
    (minimiseFrom fails maxVerdicts current granularity hg s).verdicts ≤ maxVerdicts ↔
      maxVerdicts ∈ roundCounts fails current granularity hg s ∨
        ∀ n ∈ roundCounts fails current granularity hg s, n ≤ maxVerdicts := by
  fun_induction roundCounts fails current granularity hg s with
  | case1 current granularity hg s hlong s' hround =>
    by_cases hstop : maxVerdicts ≤ s.verdicts
    · rw [minimiseFrom_stop hlong hstop]
      have heq : maxVerdicts = s.verdicts := Nat.le_antisymm hstop hs
      simp [heq]
    · rw [minimiseFrom_end hlong hstop hround]
      have hne : maxVerdicts ≠ s.verdicts := by omega
      simp only [List.mem_cons, List.not_mem_nil, or_false, hne, false_or, forall_eq_or_imp, hs,
        true_and, forall_eq]
      constructor
      · exact Or.inr
      · rintro (heq | hle)
        · exact Nat.le_of_eq heq.symm
        · exact hle
  | case2 current granularity hg s hlong s' next finer hround ih =>
    by_cases hstop : maxVerdicts ≤ s.verdicts
    · rw [minimiseFrom_stop hlong hstop]
      have heq : maxVerdicts = s.verdicts := Nat.le_antisymm hstop hs
      simp [heq]
    · rw [minimiseFrom_next hlong hstop hround]
      have hne : maxVerdicts ≠ s.verdicts := by omega
      have hcounts : (maxVerdicts ∈ s.verdicts :: roundCounts fails next finer
          (reduceRound_some hg hlong hround).1 s' ∨ ∀ n ∈ s.verdicts :: roundCounts fails next finer
            (reduceRound_some hg hlong hround).1 s', n ≤ maxVerdicts) ↔
          maxVerdicts ∈ roundCounts fails next finer (reduceRound_some hg hlong hround).1 s' ∨
            ∀ n ∈ roundCounts fails next finer (reduceRound_some hg hlong hround).1 s',
              n ≤ maxVerdicts := by
        rw [List.mem_cons, List.forall_mem_cons, and_iff_right hs, or_iff_right hne]
      rw [hcounts]
      by_cases hs' : s'.verdicts ≤ maxVerdicts
      · exact ih hs'
      · -- The round went over the budget.
        obtain ⟨hmem, hbound⟩ :=
          roundCounts_bounds fails next finer (reduceRound_some hg hlong hround).1 s'
        have hover : s'.verdicts ≤ (minimiseFrom fails maxVerdicts next finer
          (reduceRound_some hg hlong hround).1 s').verdicts := minimiseFrom_verdicts
        constructor
        · intro hle
          omega
        · rintro (hmax | hall)
          · exact absurd (hbound _ hmax) hs'
          · exact absurd (hall _ hmem) hs'
  | case3 current granularity hg s hshort =>
    rw [minimiseFrom_single hshort]
    simp [hs]

/-- A search stays within its budget when, without one, it would stop to look at exactly that
count, or would ask for no more. -/
theorem withinBudget_iff (fails : Verdict σ) (maxVerdicts : Nat) (hmax : 1 ≤ maxVerdicts)
    (dimensions : List Dimension) (caller : σ) :
    (minimiseDimensions fails maxVerdicts dimensions caller).verdicts ≤ maxVerdicts ↔
      maxVerdicts ∈ questionCounts fails dimensions caller ∨
        ∀ n ∈ questionCounts fails dimensions caller, n ≤ maxVerdicts := by
  unfold minimiseDimensions questionCounts
  by_cases hne : dimensions = []
  · simp [hne]
  · have hone : (ask fails dimensions (Session.start caller)).1.verdicts = 1 := rfl
    rw [if_neg hne, if_neg hne]
    dsimp only
    split_ifs with hfull
    · simp [hone, hmax]
    · exact minimiseFrom_budget _ _ _ _ _ (hone ▸ hmax)

/-- A budget of two verdicts, and five questions. -/
theorem budget_exceeded :
    ¬(minimiseDimensions (steady bothFail) 2 twoDimensions ()).verdicts ≤ 2 := by
  rw [(bothFail_search (by decide)).1]
  decide

theorem withinBudget_five :
    5 ∈ questionCounts (steady bothFail) twoDimensions () ∨
      ∀ n ∈ questionCounts (steady bothFail) twoDimensions (), n ≤ 5 := by
  refine (withinBudget_iff (steady bothFail) 5 (by decide) twoDimensions ()).mp ?_
  rw [(bothFail_search (by decide)).1]

end DevRepro.Reproduce
