import DevRepro.Reproduce.Minimise

/-!
# The two searches

`bisect` offers `bisect_dimensions` and `minimise_dimensions` for the same question.  The
first one checks that the baseline passes, the second one does not: `searchesAgree_iff`.
-/

namespace DevRepro.Reproduce

open DevRepro.Python DevRepro.Lib

variable (f : List Dimension → Bool) (maxVerdicts : Nat) (dimensions : List Dimension)

/-- What one search says is borne out by the other. -/
structure SearchesAgree : Prop where
  inconclusive : (bisectDimensions (steady f) dimensions ()).inconclusiveBecause ≠ none →
    (minimiseDimensions (steady f) maxVerdicts dimensions ()).inconclusiveBecause ≠ none ∧
      (minimiseDimensions (steady f) maxVerdicts dimensions ()).minimal = []
  culprit : (bisectDimensions (steady f) dimensions ()).inconclusiveBecause = none →
    (minimiseDimensions (steady f) maxVerdicts dimensions ()).inconclusiveBecause = none →
      Increasing f dimensions →
        ∃ d m, (bisectDimensions (steady f) dimensions ()).culprit = some d ∧
          m.Sublist dimensions ∧ MinimalList f m ∧ m.getLast? = some d

variable {f maxVerdicts dimensions}

/-- The loop never comes to an empty set. -/
theorem minimiseFrom_ne_nil {σ : Type} {fails : Verdict σ} (current : List Dimension)
    (granularity : Nat) (hg : 2 ≤ granularity) (s : Session σ) (hne : current ≠ []) :
    (minimiseFrom fails maxVerdicts current granularity hg s).minimal ≠ [] := by
  fun_induction minimiseFrom fails maxVerdicts current granularity hg s with
  | case1 current granularity hg s hlong hstop => exact hne
  | case2 current granularity hg s hlong hgo s' hround => exact hne
  | case3 current granularity hg s hlong hgo s' next finer hround ih =>
    rcases (reduceRound_part hround).2 with rfl | ⟨hnext, -⟩
    · exact ih hne
    · exact ih hnext
  | case4 current granularity hg s hshort => exact hne

/-- Where everything together fails, a set is named. -/
theorem minimise_names (hne : dimensions ≠ []) (hfull : f dimensions = true) :
    (minimiseDimensions (steady f) maxVerdicts dimensions ()).minimal ≠ [] := by
  have hasked : (ask (steady f) dimensions (Session.start ())).2 = true := hfull
  rw [minimiseDimensions, if_neg hne]
  simp only [hasked, Bool.not_true, Bool.false_eq_true, if_false]
  exact minimiseFrom_ne_nil _ _ _ _ hne

/-- Where nothing differs, or everything together passes, no set is named. -/
theorem minimise_unnamed (h : dimensions = [] ∨ f dimensions = false) :
    (minimiseDimensions (steady f) maxVerdicts dimensions ()).inconclusiveBecause ≠ none ∧
      (minimiseDimensions (steady f) maxVerdicts dimensions ()).minimal = [] := by
  rw [minimiseDimensions]
  by_cases hne : dimensions = []
  · rw [if_pos hne]
    exact ⟨by simp, rfl⟩
  · have hasked : (ask (steady f) dimensions (Session.start ())).2 = false := h.resolve_left hne
    rw [if_neg hne]
    simp [hasked]

/-- The checks of a bisection, for a verdict function without a state. -/
theorem bisect_conclusive_iff :
    (bisectDimensions (steady f) dimensions ()).inconclusiveBecause = none ↔
      dimensions ≠ [] ∧ f [] = false ∧ f dimensions = true := by
  have hbaseline : (ask (steady f) [] (Session.start ())).2 = f [] := rfl
  have hfull : (ask (steady f) dimensions (ask (steady f) [] (Session.start ())).1).2 =
      f dimensions := rfl
  constructor
  · intro h
    by_contra hchecks
    refine (bisectDimensions_unchecked ?_).2 h
    rw [hbaseline, hfull]
    by_contra hpassed
    rw [not_or, not_or, Bool.not_eq_true, Bool.not_eq_false] at hpassed
    exact hchecks hpassed
  · rintro ⟨hne, hempty, hall⟩
    obtain ⟨i, d, s, -, hnone, -⟩ :=
      bisect_boundary hne (hbaseline.trans hempty) (hfull.trans hall)
    exact hnone

/-- The searches agree, unless the baseline fails and everything together fails as well. -/
theorem searchesAgree_iff (f : List Dimension → Bool) (maxVerdicts : Nat)
    (dimensions : List Dimension) :
    SearchesAgree f maxVerdicts dimensions ↔
      ¬(dimensions ≠ [] ∧ f [] = true ∧ f dimensions = true) := by
  constructor
  · rintro h ⟨hne, hempty, hfull⟩
    have hinconclusive : (bisectDimensions (steady f) dimensions ()).inconclusiveBecause ≠ none := by
      intro hnone
      rw [(bisect_conclusive_iff.mp hnone).2.1] at hempty
      cases hempty
    exact minimise_names hne hfull (h.inconclusive hinconclusive).2
  · intro h
    refine ⟨fun hinconclusive => minimise_unnamed ?_, fun hconclusive _ hmono => ?_⟩
    · by_cases hne : dimensions = []
      · exact Or.inl hne
      · refine Or.inr (eq_false_of_ne_true fun hfull => ?_)
        by_cases hempty : f [] = true
        · exact h ⟨hne, hempty, hfull⟩
        · exact hinconclusive (bisect_conclusive_iff.mpr ⟨hne, eq_false_of_ne_true hempty, hfull⟩)
    · obtain ⟨hne, hempty, hfull⟩ := bisect_conclusive_iff.mp hconclusive
      obtain ⟨i, d, s, hculprit, -, hi, hboundary, -, -⟩ :=
        @bisect_boundary Unit (steady f) dimensions () hne hempty hfull
      obtain ⟨_, hpass⟩ := hboundary.passing.given
      obtain ⟨_, hfail⟩ := hboundary.failing.given
      obtain ⟨hlt, rfl⟩ := List.getElem?_eq_some_iff.mp hi
      obtain ⟨m, hm, hmin, hlast⟩ := exists_minimal_ending hmono hlt hpass hfail
      exact ⟨_, m, hculprit, hm, hmin, hlast⟩

/-- A build that never worked: one search says so, the other names a dimension. -/
theorem neverWorked_named : ¬SearchesAgree (fun _ => true) 200 [localeDimension] := by
  intro h
  have hinconclusive : (bisectDimensions (steady fun _ => true) [localeDimension]
      ()).inconclusiveBecause ≠ none := by
    intro hnone
    have hempty := (bisect_conclusive_iff.mp hnone).2.1
    cases hempty
  exact minimise_names (List.cons_ne_nil _ _) rfl (h.inconclusive hinconclusive).2

end DevRepro.Reproduce
