import DevRepro.Python.Text
import Mathlib.Data.Nat.Log

/-!
# Bisection of environments

`bisect_dimensions` of `reproduce/bisect.py`.

The verdicts come from outside: a person or a command.  A verdict function may keep a
state of its own, so its answers need not be consistent.  `bisect_sound` says what the
answers prove all the same.
-/

namespace DevRepro.Reproduce

open DevRepro.Python

/-! ## Questions -/

/-- One difference between the working and broken environments. -/
structure Dimension where
  name : Str
  workingValue : Option Str
  brokenValue : Option Str
  deriving DecidableEq

/-- `Verdict`: the answer is true when the candidate still fails. -/
abbrev Verdict (σ : Type) := σ → List Dimension → σ × Bool

/-- The verdict function that keeps no state. -/
def steady (fails : List Dimension → Bool) : Verdict Unit := fun _ candidate => ((), fails candidate)

/-- The variables that `ask` writes to, and the state of the verdict function. -/
structure Session (σ : Type) where
  caller : σ
  verdicts : Nat
  trail : List (List Str × Bool)

def Session.start {σ : Type} (caller : σ) : Session σ := ⟨caller, 0, []⟩

/-- `tuple(d.name for d in candidate)` -/
def names (candidate : List Dimension) : List Str := candidate.map Dimension.name

variable {σ : Type} (fails : Verdict σ)

def ask (candidate : List Dimension) (s : Session σ) : Session σ × Bool :=
  let answer := fails s.caller candidate
  (⟨answer.1, s.verdicts + 1, s.trail ++ [(names candidate, answer.2)]⟩, answer.2)

/-! ## The search -/

structure BisectResult where
  culprit : Option Dimension
  verdicts : Nat
  trail : List (List Str × Bool)
  inconclusiveBecause : Option Str

/-- The loop of `bisect_dimensions`. -/
def narrow (lower remaining : List Dimension) (s : Session σ) : Session σ × List Dimension :=
  if 1 < remaining.length then
    let half := remaining.length / 2
    let (s, failed) := ask fails (lower ++ remaining.take half) s
    if failed then narrow lower (remaining.take half) s
    else narrow (lower ++ remaining.take half) (remaining.drop half) s
  else (s, remaining)
termination_by remaining.length
decreasing_by
  · rw [List.length_take]
    omega
  · rw [List.length_drop]
    omega

def sameDimensions : Str := "The two environments do not differ in any dimension."

/-- `bisect_dimensions`. -/
def bisectDimensions (dimensions : List Dimension) (caller : σ) : BisectResult :=
  if dimensions = [] then ⟨none, 0, [], some sameDimensions⟩
  else
    let (s, baselineFails) := ask fails [] (Session.start caller)
    if baselineFails then
      ⟨none, s.verdicts, s.trail, some
        (lit ("The baseline already fails with nothing applied. The 'working' " ++
          "environment does not work either, so the cause is outside this " ++
          "diff and every further verdict would be noise."))⟩
    else
      let (s, fullFails) := ask fails dimensions s
      if !fullFails then
        ⟨none, s.verdicts, s.trail, some
          (lit ("Applying every difference does not reproduce the failure. Whatever " ++
            "causes it is not in this diff -- state on disk, a service, a remote " ++
            "change -- and bisecting further would converge on whichever " ++
            "dimension happened to come last."))⟩
      else
        let (s, remaining) := narrow fails [] dimensions s
        ⟨remaining.head?, s.verdicts, s.trail, none⟩

/-! ## What was asked -/

/-- The candidate was put to the verdict function, and this was its answer. -/
structure Answered (s : Session σ) (candidate : List Dimension) (answer : Bool) : Prop where
  recorded : (names candidate, answer) ∈ s.trail
  given : ∃ caller, (fails caller candidate).2 = answer

variable {fails}

theorem answered_ask (candidate : List Dimension) (s : Session σ) :
    Answered fails (ask fails candidate s).1 candidate (ask fails candidate s).2 :=
  ⟨List.mem_append_right _ (List.mem_singleton.mpr rfl), s.caller, rfl⟩

theorem Answered.ask {s : Session σ} {candidate : List Dimension} {answer : Bool}
    (h : Answered fails s candidate answer) (next : List Dimension) :
    Answered fails (Reproduce.ask fails next s).1 candidate answer :=
  ⟨List.mem_append_left _ h.recorded, h.given⟩

/-! ## Soundness and cost -/

/-- The boundary that a search has found: the first dimensions pass, and with one more they
fail. -/
structure Boundary (fails : Verdict σ) (s : Session σ) (dimensions : List Dimension) (i : Nat) :
    Prop where
  passing : Answered fails s (dimensions.take i) false
  failing : Answered fails s (dimensions.take (i + 1)) true

/-- A half takes one question less. -/
theorem clog_half {n m : Nat} (hn : 1 < n) (hm : m ≤ n - n / 2) : 1 + Nat.clog 2 m ≤ Nat.clog 2 n := by
  have hhalf : m ≤ (n + 2 - 1) / 2 := by omega
  rw [Nat.clog_of_two_le (by decide) hn, Nat.add_comm]
  exact Nat.add_le_add_right (Nat.clog_mono_right 2 hhalf) 1

/-- The loop keeps that the lower part passes and fails together with the remaining one. -/
theorem narrow_spec {dimensions : List Dimension} (lower remaining : List Dimension) (s : Session σ)
    (rest : List Dimension) (hdims : dimensions = lower ++ remaining ++ rest) (hne : remaining ≠ [])
    (hlower : Answered fails s lower false) (hwhole : Answered fails s (lower ++ remaining) true) :
    ∃ i d, (narrow fails lower remaining s).2 = [d] ∧ dimensions[i]? = some d ∧
      Boundary fails (narrow fails lower remaining s).1 dimensions i ∧
      (narrow fails lower remaining s).1.verdicts ≤ s.verdicts + Nat.clog 2 remaining.length := by
  fun_induction narrow fails lower remaining s generalizing rest with
  | case1 lower remaining s hlong half next hfailed ih =>
    -- The first half fails: what is behind it joins the rest.
    have hnext : (ask fails (lower ++ remaining.take half) s).1 = next := by rw [hfailed]
    have hlower' : Answered fails next lower false := hnext ▸ hlower.ask _
    have hwhole' : Answered fails next (lower ++ remaining.take half) true := by
      have h : Answered fails _ _ _ := answered_ask (lower ++ remaining.take half) s
      rw [hfailed] at h
      exact h
    have hdims' : dimensions = lower ++ remaining.take half ++ (remaining.drop half ++ rest) := by
      rw [hdims, List.append_assoc, List.append_assoc, ← List.append_assoc (remaining.take half),
        List.take_append_drop]
    have hlength : (remaining.take half).length = half := by
      rw [List.length_take]
      omega
    have hne' : remaining.take half ≠ [] := List.ne_nil_of_length_pos (by omega)
    obtain ⟨i, d, hd, hi, hboundary, hcost⟩ := ih _ hdims' hne' hlower' hwhole'
    rw [hlength] at hcost
    refine ⟨i, d, hd, hi, hboundary, hcost.trans ?_⟩
    have hverdicts : next.verdicts = s.verdicts + 1 := by rw [← hnext]; rfl
    have hclog := clog_half hlong (show half ≤ remaining.length - remaining.length / 2 by omega)
    omega
  | case2 lower remaining s hlong half next failed hask hpassed ih =>
    -- The first half passes: it joins the lower part, and the whole stays the same.
    have hnext : (ask fails (lower ++ remaining.take half) s).1 = next := by rw [hask]
    have hlower' : Answered fails next (lower ++ remaining.take half) false := by
      have h : Answered fails _ _ _ := answered_ask (lower ++ remaining.take half) s
      rw [hask, eq_false_of_ne_true hpassed] at h
      exact h
    have hsplit : lower ++ remaining.take half ++ remaining.drop half = lower ++ remaining := by
      rw [List.append_assoc, List.take_append_drop]
    have hwhole' : Answered fails next (lower ++ remaining.take half ++ remaining.drop half) true := by
      rw [hsplit, ← hnext]
      exact hwhole.ask _
    have hdims' : dimensions = lower ++ remaining.take half ++ remaining.drop half ++ rest := by
      rw [hsplit, hdims]
    have hlength : (remaining.drop half).length = remaining.length - half := List.length_drop
    have hne' : remaining.drop half ≠ [] := List.ne_nil_of_length_pos (by omega)
    obtain ⟨i, d, hd, hi, hboundary, hcost⟩ := ih _ hdims' hne' hlower' hwhole'
    refine ⟨i, d, hd, hi, hboundary, hcost.trans ?_⟩
    have hverdicts : next.verdicts = s.verdicts + 1 := by rw [← hnext]; rfl
    have hclog := clog_half hlong (le_of_eq hlength)
    omega
  | case3 lower remaining s hshort =>
    obtain ⟨d, rfl⟩ : ∃ d, remaining = [d] := by
      have hpos : 0 < remaining.length := List.length_pos_iff.mpr hne
      exact List.length_eq_one_iff.mp (by omega)
    subst hdims
    refine ⟨lower.length, d, rfl, ?_, ⟨?_, ?_⟩, Nat.le_add_right _ _⟩
    · simp
    · rw [List.append_assoc, List.take_left]
      exact hlower
    · have htake : (lower ++ [d] ++ rest).take (lower.length + 1) = lower ++ [d] :=
        List.take_left' (by simp)
      rw [htake]
      exact hwhole

variable (fails)

/-- The session behind the two checks. -/
def checkedSession (dimensions : List Dimension) (caller : σ) : Session σ :=
  (ask fails dimensions (ask fails [] (Session.start caller)).1).1

variable {fails}

/-- The search goes past its checks when the baseline passes and everything together fails. -/
theorem bisectDimensions_checked {dimensions : List Dimension} {caller : σ} (hne : dimensions ≠ [])
    (hbaseline : (ask fails [] (Session.start caller)).2 = false)
    (hfull : (ask fails dimensions (ask fails [] (Session.start caller)).1).2 = true) :
    bisectDimensions fails dimensions caller =
      let found := narrow fails [] dimensions (checkedSession fails dimensions caller)
      ⟨found.2.head?, found.1.verdicts, found.1.trail, none⟩ := by
  rw [bisectDimensions, if_neg hne]
  simp only [hbaseline, hfull, Bool.false_eq_true, if_false, Bool.not_true]
  rfl

/-- A check that fails leaves no culprit, and a reason. -/
theorem bisectDimensions_unchecked {dimensions : List Dimension} {caller : σ}
    (h : dimensions = [] ∨ (ask fails [] (Session.start caller)).2 = true ∨
      (ask fails dimensions (ask fails [] (Session.start caller)).1).2 = false) :
    (bisectDimensions fails dimensions caller).culprit = none ∧
      (bisectDimensions fails dimensions caller).inconclusiveBecause ≠ none := by
  unfold bisectDimensions
  by_cases hne : dimensions = []
  · rw [if_pos hne]
    exact ⟨rfl, by simp⟩
  · rw [if_neg hne]
    by_cases hbaseline : (ask fails [] (Session.start caller)).2 = true
    · simp [hbaseline]
    · rcases h.resolve_left hne with hfails | hfull
      · exact absurd hfails hbaseline
      · simp [eq_false_of_ne_true hbaseline, hfull]

/-- Behind the checks a culprit is named, whatever the verdict function answers: the
dimensions before it pass, and with it they fail.  It takes two questions and one for each
halving. -/
theorem bisect_boundary {dimensions : List Dimension} {caller : σ} (hne : dimensions ≠ [])
    (hbaseline : (ask fails [] (Session.start caller)).2 = false)
    (hfull : (ask fails dimensions (ask fails [] (Session.start caller)).1).2 = true) :
    ∃ i d s, (bisectDimensions fails dimensions caller).culprit = some d ∧
      (bisectDimensions fails dimensions caller).inconclusiveBecause = none ∧
      dimensions[i]? = some d ∧ Boundary fails s dimensions i ∧
      s.trail = (bisectDimensions fails dimensions caller).trail ∧
      (bisectDimensions fails dimensions caller).verdicts ≤ 2 + Nat.clog 2 dimensions.length := by
  have hempty : Answered fails (ask fails [] (Session.start caller)).1 [] false := by
    have hasked : Answered fails _ _ _ := answered_ask [] (Session.start caller)
    rw [hbaseline] at hasked
    exact hasked
  have hwhole : Answered fails (checkedSession fails dimensions caller) ([] ++ dimensions) true := by
    have hasked : Answered fails _ _ _ :=
      answered_ask dimensions (ask fails [] (Session.start caller)).1
    rw [hfull] at hasked
    exact hasked
  have hdims : dimensions = [] ++ dimensions ++ [] := by simp
  obtain ⟨i, d, hd, hi, hboundary, hcost⟩ :=
    narrow_spec [] dimensions _ [] hdims hne (hempty.ask dimensions) hwhole
  rw [bisectDimensions_checked hne hbaseline hfull]
  refine ⟨i, d, _, ?_, rfl, hi, hboundary, rfl, hcost⟩
  dsimp only
  rw [checkedSession, hd]
  rfl

/-- A culprit is only named behind the checks. -/
theorem checks_of_culprit {dimensions : List Dimension} {caller : σ} {d : Dimension}
    (h : (bisectDimensions fails dimensions caller).culprit = some d) :
    dimensions ≠ [] ∧ (ask fails [] (Session.start caller)).2 = false ∧
      (ask fails dimensions (ask fails [] (Session.start caller)).1).2 = true := by
  by_cases hchecks : dimensions = [] ∨ (ask fails [] (Session.start caller)).2 = true ∨
      (ask fails dimensions (ask fails [] (Session.start caller)).1).2 = false
  · rw [(bisectDimensions_unchecked hchecks).1] at h
    cases h
  · simpa [not_or] using hchecks

/-- A culprit that a search names is a boundary of the answers, found in logarithmic time; a
single cause is named. -/
theorem bisect_sound (fails : Verdict σ) (dimensions : List Dimension) (caller : σ) :
    (∀ d, (bisectDimensions fails dimensions caller).culprit = some d →
      ∃ i, dimensions[i]? = some d ∧
        (names (dimensions.take i), false) ∈ (bisectDimensions fails dimensions caller).trail ∧
        (names (dimensions.take (i + 1)), true) ∈
          (bisectDimensions fails dimensions caller).trail ∧
        (bisectDimensions fails dimensions caller).verdicts ≤ 2 + Nat.clog 2 dimensions.length) ∧
      ∀ d ∈ dimensions, (∀ caller candidate, (fails caller candidate).2 = decide (d ∈ candidate)) →
        (bisectDimensions fails dimensions caller).culprit = some d := by
  constructor
  · intro d hd
    obtain ⟨hne, hbaseline, hfull⟩ := checks_of_culprit hd
    obtain ⟨i, found, s, hfound, -, hi, hboundary, htrail, hcost⟩ :=
      bisect_boundary hne hbaseline hfull
    obtain rfl : found = d := Option.some.inj (hfound.symm.trans hd)
    exact ⟨i, hi, htrail ▸ hboundary.passing.recorded, htrail ▸ hboundary.failing.recorded, hcost⟩
  · intro d hmem hsingle
    have hbaseline : (ask fails [] (Session.start caller)).2 = false := by
      rw [ask, hsingle]
      simp
    have hfull : (ask fails dimensions (ask fails [] (Session.start caller)).1).2 = true := by
      rw [ask, hsingle]
      simpa using hmem
    obtain ⟨i, found, s, hfound, -, hi, hboundary, -, -⟩ :=
      bisect_boundary (List.ne_nil_of_mem hmem) hbaseline hfull
    obtain ⟨caller₁, hpass⟩ := hboundary.passing.given
    obtain ⟨caller₂, hfail⟩ := hboundary.failing.given
    rw [hsingle, decide_eq_false_iff_not] at hpass
    rw [hsingle, decide_eq_true_eq, List.take_add_one, hi, List.mem_append] at hfail
    rw [hfound, List.mem_singleton.mp (hfail.resolve_left hpass)]

end DevRepro.Reproduce
