import DevRepro.Lib.Minimal
import DevRepro.Reproduce.Minimise

/-!
# The rounds of a minimisation

The loop of `minimise_dimensions` without its budget, as the turns that it takes.  A round
goes on with a smaller set or with finer chunks, so the loop ends after at most as many
rounds as the square of the number of dimensions and that number once more:
`minimise_ends`.
-/

namespace DevRepro.Reproduce

open DevRepro.Python DevRepro.Lib

variable {σ : Type} (fails : Verdict σ)

/-! ## Rounds -/

/-- The variables of the loop. -/
structure Loop (σ : Type) where
  current : List Dimension
  granularity : Nat
  session : Session σ
  fine : 2 ≤ granularity

/-- One turn of the loop, or its end. -/
def nextRound (l : Loop σ) : MinimisationResult ⊕ Loop σ :=
  if hlong : 1 < l.current.length then
    match hround : reduceRound fails l.current l.granularity l.session with
    | (s, none) => .inl ⟨l.current, s.verdicts, s.trail, none⟩
    | (s, some (next, finer)) => .inr ⟨next, finer, s, (reduceRound_some l.fine hlong hround).1⟩
  else .inl ⟨l.current, l.session.verdicts, l.session.trail, none⟩

/-- The result where all differences together pass. -/
def nothingToMinimise (s : Session σ) : MinimisationResult :=
  ⟨[], s.verdicts, s.trail, some
    (lit ("Applying every difference does not reproduce the failure, so there " ++
      "is nothing here to minimise."))⟩

theorem halves_fine : 2 ≤ 2 := Nat.le_refl 2

/-- `minimise_dimensions`, for so many rounds and without a budget. -/
def minimiseRounds (n : Nat) (dimensions : List Dimension) (caller : σ) :
    MinimisationResult ⊕ Loop σ :=
  if dimensions = [] then .inl ⟨[], 0, [], some sameDimensions⟩
  else
    let (s, fullFails) := ask fails dimensions (Session.start caller)
    if !fullFails then .inl (nothingToMinimise s)
    else turnsFor (nextRound fails) n ⟨dimensions, 2, s, halves_fine⟩

variable {fails}

/-- What a turn does: the set is a single dimension, or the round ends the loop, or it
leaves the next state. -/
theorem nextRound_cases (fails : Verdict σ) (l : Loop σ) :
    (¬1 < l.current.length ∧
      nextRound fails l = .inl ⟨l.current, l.session.verdicts, l.session.trail, none⟩) ∨
    (1 < l.current.length ∧ ∃ s, reduceRound fails l.current l.granularity l.session = (s, none) ∧
      nextRound fails l = .inl ⟨l.current, s.verdicts, s.trail, none⟩) ∨
    (1 < l.current.length ∧ ∃ l', reduceRound fails l.current l.granularity l.session =
      (l'.session, some (l'.current, l'.granularity)) ∧ nextRound fails l = .inr l') := by
  by_cases hlong : 1 < l.current.length
  · refine Or.inr ?_
    unfold nextRound
    rw [dif_pos hlong]
    split
    · rename_i s hround
      exact Or.inl ⟨hlong, s, hround, rfl⟩
    · rename_i s next finer hround
      exact Or.inr ⟨hlong, _, hround, rfl⟩
  · refine Or.inl ⟨hlong, ?_⟩
    rw [nextRound, dif_neg hlong]

/-! ## The measure -/

/-- Smaller sets count for more than finer chunks. -/
def Loop.measure (l : Loop σ) : Nat :=
  l.current.length * l.current.length + (l.current.length - l.granularity)

theorem measure_smaller {n m : Nat} (h : m < n) : m * m + m < n * n := by
  have hsquare : (m + 1) * (m + 1) ≤ n * n := Nat.mul_le_mul h h
  have hexpand : (m + 1) * (m + 1) = m * m + m + m + 1 := by ring
  omega

/-- A round that does not end the loop makes the measure smaller. -/
theorem nextRound_measure {l l' : Loop σ} (h : nextRound fails l = .inr l') :
    l'.measure < l.measure := by
  rcases nextRound_cases fails l with
    ⟨-, hend⟩ | ⟨-, s, -, hend⟩ | ⟨hlong, next, hround, hnext⟩
  · rw [hend] at h
    cases h
  · rw [hend] at h
    cases h
  · rw [hnext] at h
    cases h
    obtain ⟨hfine, hshorter | ⟨hsame, hfiner, hle⟩⟩ := reduceRound_some l.fine hlong hround
    · have hsquare := measure_smaller hshorter
      unfold Loop.measure
      omega
    · unfold Loop.measure
      rw [hsame]
      omega

/-! ## The end -/

/-- A loop that ends in a result ends in it under every larger budget. -/
theorem minimiseFrom_of_turnsFor {n maxVerdicts : Nat} {l : Loop σ} {r : MinimisationResult}
    (h : turnsFor (nextRound fails) n l = .inl r) :
    l.session.verdicts ≤ r.verdicts ∧ (r.verdicts < maxVerdicts →
      minimiseFrom fails maxVerdicts l.current l.granularity l.fine l.session = r) := by
  induction n generalizing l with
  | zero => cases h
  | succ n ih =>
    have hmore := reduceRound_verdicts fails l.current l.granularity l.session
    rcases nextRound_cases fails l with
      ⟨hshort, hend⟩ | ⟨hlong, s, hround, hend⟩ | ⟨hlong, next, hround, hnext⟩
    · rw [turnsFor_end hend] at h
      cases h
      exact ⟨Nat.le_refl _, fun _ => minimiseFrom_single hshort⟩
    · rw [turnsFor_end hend] at h
      cases h
      rw [hround] at hmore
      exact ⟨hmore, fun hbudget =>
        minimiseFrom_end hlong (Nat.not_le.mpr (hmore.trans_lt hbudget)) hround⟩
    · rw [turnsFor_next hnext] at h
      rw [hround] at hmore
      obtain ⟨hverdicts, hresult⟩ := ih h
      have hstart : l.session.verdicts ≤ r.verdicts := hmore.trans hverdicts
      refine ⟨hstart, fun hbudget => ?_⟩
      rw [minimiseFrom_next hlong (Nat.not_le.mpr (hstart.trans_lt hbudget)) hround]
      exact hresult hbudget

/-- Without a budget the loop ends, whatever the verdicts are, and what it ends in is what
`minimise_dimensions` returns under every budget that is not used up. -/
theorem minimise_ends (fails : Verdict σ) (dimensions : List Dimension) (caller : σ) :
    ∃ n ≤ dimensions.length * dimensions.length + dimensions.length, ∃ r,
      minimiseRounds fails n dimensions caller = .inl r ∧
        ∀ maxVerdicts, r.verdicts < maxVerdicts →
          minimiseDimensions fails maxVerdicts dimensions caller = r := by
  by_cases hne : dimensions = []
  · refine ⟨0, Nat.zero_le _, ⟨[], 0, [], some sameDimensions⟩, ?_, fun maxVerdicts _ => ?_⟩
    · rw [minimiseRounds, if_pos hne]
    · rw [minimiseDimensions, if_pos hne]
  · cases hasked : ask fails dimensions (Session.start caller) with
    | mk s fullFails =>
      cases fullFails with
      | false =>
        refine ⟨0, Nat.zero_le _, nothingToMinimise s, ?_, fun maxVerdicts _ => ?_⟩
        · rw [minimiseRounds, if_neg hne, hasked]
          rfl
        · rw [minimiseDimensions, if_neg hne, hasked]
          rfl
      | true =>
        let start : Loop σ := ⟨dimensions, 2, s, halves_fine⟩
        obtain ⟨n, hn, r, hr⟩ := exists_end Loop.measure (fun _ _ => nextRound_measure) start
        have hpos : 0 < dimensions.length := List.length_pos_iff.mpr hne
        have hbound : start.measure + 1 ≤ dimensions.length * dimensions.length + dimensions.length := by
          show dimensions.length * dimensions.length + (dimensions.length - 2) + 1 ≤ _
          omega
        refine ⟨n, hn.trans hbound, r, ?_, fun maxVerdicts hbudget => ?_⟩
        · rw [minimiseRounds, if_neg hne, hasked]
          exact hr
        · rw [minimiseDimensions, if_neg hne, hasked]
          exact (minimiseFrom_of_turnsFor hr).2 hbudget

end DevRepro.Reproduce
