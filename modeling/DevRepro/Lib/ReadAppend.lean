import Mathlib

/-!
# Participants that read a log and append to it

Each participant reads a shared log, makes a record from what it has read, and
appends the record.  The two steps are not one: other participants may step in
between, and nothing holds them back.

`Fits log r` says that a record belongs behind a log.  The one assumption is
that a record fits behind the log it was made from, and behind no longer one.
`Run.invariant` then says what a run leaves behind.  Every record is there, and
all of them fit where they stand exactly when no append came between the read
and the append of one participant.
-/

namespace DevRepro.Lib.ReadAppend

/-! ## The machine -/

inductive Event (ι : Type) where
  | read (i : ι)
  | append (i : ι)

/-- Where a participant stands. -/
inductive Phase (Rec : Type) where
  | waiting
  | ready (r : Rec)
  | finished (r : Rec)

structure State (ι Rec : Type) where
  log : List Rec
  phase : ι → Phase Rec

section

variable {ι Rec : Type} [DecidableEq ι]

def State.setPhase (s : State ι Rec) (i : ι) (p : Phase Rec) : State ι Rec :=
  { s with phase := Function.update s.phase i p }

def State.push (s : State ι Rec) (r : Rec) : State ι Rec := { s with log := s.log ++ [r] }

@[simp] theorem State.setPhase_log (s : State ι Rec) (i : ι) (p : Phase Rec) :
    (s.setPhase i p).log = s.log := rfl

@[simp] theorem State.setPhase_phase_self (s : State ι Rec) (i : ι) (p : Phase Rec) :
    (s.setPhase i p).phase i = p := by simp [State.setPhase]

theorem State.setPhase_phase_of_ne (s : State ι Rec) {i k : ι} (h : k ≠ i) (p : Phase Rec) :
    (s.setPhase i p).phase k = s.phase k := by simp [State.setPhase, h]

omit [DecidableEq ι] in
@[simp] theorem State.push_log (s : State ι Rec) (r : Rec) : (s.push r).log = s.log ++ [r] := rfl

omit [DecidableEq ι] in
@[simp] theorem State.push_phase (s : State ι Rec) (r : Rec) : (s.push r).phase = s.phase := rfl

variable (makes : ι → List Rec → Rec → Prop)

/-- A read makes the record, an append writes it. -/
inductive Step : State ι Rec → Event ι → State ι Rec → Prop where
  | read {s : State ι Rec} {i : ι} {r : Rec} (waiting : s.phase i = .waiting)
      (made : makes i s.log r) :
      Step s (.read i) (s.setPhase i (.ready r))
  | append {s : State ι Rec} {i : ι} {r : Rec} (ready : s.phase i = .ready r) :
      Step s (.append i) ((s.push r).setPhase i (.finished r))

/-- The states that a schedule leads to. -/
inductive Run (first : State ι Rec) : List (Event ι) → State ι Rec → Prop where
  | nil : Run first [] first
  | snoc {es : List (Event ι)} {s s' : State ι Rec} {e : Event ι} (run : Run first es s)
      (step : Step makes s e s') : Run first (es ++ [e]) s'

/-- No participant has done anything. -/
def start (log : List Rec) : State ι Rec := ⟨log, fun _ => .waiting⟩

end

/-! ## Schedules -/

section

variable {ι : Type}

/-- An append has come since the read of a participant. -/
def Behind (es : List (Event ι)) (i : ι) : Prop :=
  ∃ before after j, es = before ++ .read i :: after ∧ .append j ∈ after

/-- An append comes between the read and the append of one participant. -/
def Overlapping (es : List (Event ι)) : Prop :=
  ∃ i j before between after,
    es = before ++ .read i :: (between ++ .append i :: after) ∧ .append j ∈ between

theorem not_behind_nil (i : ι) : ¬Behind [] i := by
  rintro ⟨before, after, j, h, _⟩
  cases before <;> cases h

theorem not_overlapping_nil : ¬Overlapping ([] : List (Event ι)) := by
  rintro ⟨i, j, before, between, after, h, _⟩
  cases before <;> cases h

theorem behind_snoc {es : List (Event ι)} {e : Event ι} {i : ι} :
    Behind (es ++ [e]) i ↔ Behind es i ∨ (∃ j, e = .append j) ∧ .read i ∈ es := by
  constructor
  · rintro ⟨before, after, j, heq, hj⟩
    rcases List.eq_nil_or_concat' after with rfl | ⟨after, last, rfl⟩
    · cases hj
    · rw [← List.cons_append, ← List.append_assoc] at heq
      obtain ⟨rfl, hlast⟩ := List.append_inj' heq rfl
      obtain rfl : e = last := by simpa using hlast
      rcases List.mem_append.mp hj with hj | hj
      · exact Or.inl ⟨before, after, j, rfl, hj⟩
      · exact Or.inr ⟨⟨j, (List.mem_singleton.mp hj).symm⟩, by simp⟩
  · rintro (⟨before, after, j, rfl, hj⟩ | ⟨⟨j, rfl⟩, hread⟩)
    · exact ⟨before, after ++ [e], j, by simp, by simp [hj]⟩
    · obtain ⟨before, after, rfl⟩ := List.append_of_mem hread
      exact ⟨before, after ++ [.append j], j, by simp, by simp⟩

theorem overlapping_snoc {es : List (Event ι)} {e : Event ι} :
    Overlapping (es ++ [e]) ↔ Overlapping es ∨ ∃ i, e = .append i ∧ Behind es i := by
  constructor
  · rintro ⟨i, j, before, between, after, heq, hj⟩
    rcases List.eq_nil_or_concat' after with rfl | ⟨after, last, rfl⟩
    · rw [← List.cons_append, ← List.append_assoc] at heq
      obtain ⟨rfl, hlast⟩ := List.append_inj' heq rfl
      exact Or.inr ⟨i, by simpa using hlast, before, between, j, rfl, hj⟩
    · have heq' : es ++ [e] =
          (before ++ .read i :: (between ++ .append i :: after)) ++ [last] := by simpa using heq
      obtain ⟨rfl, _⟩ := List.append_inj' heq' rfl
      exact Or.inl ⟨i, j, before, between, after, rfl, hj⟩
  · rintro (⟨i, j, before, between, after, rfl, hj⟩ | ⟨i, rfl, before, between, j, rfl, hj⟩)
    · exact ⟨i, j, before, between, after ++ [e], by simp, hj⟩
    · exact ⟨i, j, before, between, [], by simp, hj⟩

end

/-! ## Records in their place -/

section

variable {Rec : Type} (Fits : List Rec → Rec → Prop)

/-- Every record fits behind the log and the records before it. -/
def InPlace (log : List Rec) : List Rec → Prop
  | [] => True
  | r :: rest => Fits log r ∧ InPlace (log ++ [r]) rest

theorem inPlace_snoc (log rest : List Rec) (r : Rec) :
    InPlace Fits log (rest ++ [r]) ↔ InPlace Fits log rest ∧ Fits (log ++ rest) r := by
  induction rest generalizing log with
  | nil => simp [InPlace]
  | cons x rest ih => simp [InPlace, ih, and_assoc]

end

/-! ## What a run leaves behind -/

section

variable {ι Rec : Type} [DecidableEq ι] {makes : ι → List Rec → Rec → Prop}
  {Fits : List Rec → Rec → Prop}

/-- What holds of a state that a schedule has led to. -/
structure Invariant (makes : ι → List Rec → Rec → Prop) (Fits : List Rec → Rec → Prop)
    (log : List Rec) (es : List (Event ι)) (s : State ι Rec) (appended : List Rec) : Prop where
  log_eq : s.log = log ++ appended
  inPlace : InPlace Fits log appended ↔ ¬Overlapping es
  waiting : ∀ i, s.phase i = .waiting → .read i ∉ es
  ready : ∀ i r, s.phase i = .ready r → .read i ∈ es ∧
    ∃ seen more, s.log = seen ++ more ∧ makes i seen r ∧ (more = [] ↔ ¬Behind es i)
  finished : ∀ i r, s.phase i = .finished r → r ∈ appended ∧ ∃ seen, makes i seen r
  mem : ∀ r ∈ appended, ∃ i, s.phase i = .finished r

omit [DecidableEq ι] in
theorem invariant_start (log : List Rec) :
    Invariant makes Fits log [] (start log : State ι Rec) [] where
  log_eq := by simp [start]
  inPlace := iff_of_true trivial not_overlapping_nil
  waiting := by simp
  ready := by simp [start]
  finished := by simp [start]
  mem := by simp

theorem Invariant.read {log appended : List Rec} {es : List (Event ι)} {s : State ι Rec} {i : ι}
    {r : Rec} (h : Invariant makes Fits log es s appended) (hwaiting : s.phase i = .waiting)
    (hmade : makes i s.log r) :
    Invariant makes Fits log (es ++ [.read i]) (s.setPhase i (.ready r)) appended := by
  have hbehind : ∀ k, Behind (es ++ [.read i]) k ↔ Behind es k := by
    intro k
    rw [behind_snoc]
    simp
  refine ⟨h.log_eq, ?_, ?_, ?_, ?_, ?_⟩
  · rw [h.inPlace, overlapping_snoc]
    simp
  · intro k hk
    by_cases hki : k = i
    · simp [hki] at hk
    · rw [State.setPhase_phase_of_ne _ hki] at hk
      simp [h.waiting k hk, hki]
  · intro k r' hk
    by_cases hki : k = i
    · subst hki
      obtain rfl : r = r' := by simpa using hk
      refine ⟨by simp, s.log, [], by simp, hmade, iff_of_true rfl ?_⟩
      rw [hbehind]
      rintro ⟨before, after, j, rfl, _⟩
      exact h.waiting k hwaiting (by simp)
    · rw [State.setPhase_phase_of_ne _ hki] at hk
      obtain ⟨hread, seen, more, hlog, hmade', hmore⟩ := h.ready k r' hk
      exact ⟨by simp [hread], seen, more, hlog, hmade', by rw [hbehind]; exact hmore⟩
  · intro k r' hk
    by_cases hki : k = i
    · simp [hki] at hk
    · rw [State.setPhase_phase_of_ne _ hki] at hk
      exact h.finished k r' hk
  · intro x hx
    obtain ⟨k, hk⟩ := h.mem x hx
    have hki : k ≠ i := by
      rintro rfl
      rw [hwaiting] at hk
      cases hk
    exact ⟨k, by rw [State.setPhase_phase_of_ne _ hki]; exact hk⟩

theorem Invariant.append
    (hfits : ∀ i seen more r, makes i seen r → (Fits (seen ++ more) r ↔ more = []))
    {log appended : List Rec} {es : List (Event ι)} {s : State ι Rec} {i : ι}
    {r : Rec} (h : Invariant makes Fits log es s appended) (hready : s.phase i = .ready r) :
    Invariant makes Fits log (es ++ [.append i]) ((s.push r).setPhase i (.finished r))
      (appended ++ [r]) := by
  obtain ⟨_, seen, more, hlog, hmade, hmore⟩ := h.ready i r hready
  refine ⟨?_, ?_, ?_, ?_, ?_, ?_⟩
  · rw [State.setPhase_log, State.push_log, h.log_eq, List.append_assoc]
  · rw [inPlace_snoc, ← h.log_eq, hlog, hfits i seen more r hmade, h.inPlace, hmore,
      overlapping_snoc, not_or]
    simp
  · intro k hk
    by_cases hki : k = i
    · simp [hki] at hk
    · rw [State.setPhase_phase_of_ne _ hki] at hk
      simp [h.waiting k hk]
  · intro k r' hk
    by_cases hki : k = i
    · simp [hki] at hk
    · rw [State.setPhase_phase_of_ne _ hki] at hk
      obtain ⟨hread, seen', more', hlog', hmade', _⟩ := h.ready k r' hk
      refine ⟨by simp [hread], seen', more' ++ [r], ?_, hmade', ?_⟩
      · rw [State.setPhase_log, State.push_log, hlog', List.append_assoc]
      · rw [behind_snoc]
        simp [hread]
  · intro k r' hk
    by_cases hki : k = i
    · subst hki
      obtain rfl : r = r' := by simpa using hk
      exact ⟨by simp, seen, hmade⟩
    · rw [State.setPhase_phase_of_ne _ hki] at hk
      obtain ⟨hmem, hmade'⟩ := h.finished k r' hk
      exact ⟨by simp [hmem], hmade'⟩
  · intro x hx
    rcases List.mem_append.mp hx with hx | hx
    · obtain ⟨k, hk⟩ := h.mem x hx
      have hki : k ≠ i := by
        rintro rfl
        rw [hready] at hk
        cases hk
      exact ⟨k, by rw [State.setPhase_phase_of_ne _ hki]; exact hk⟩
    · rw [List.mem_singleton] at hx
      subst hx
      exact ⟨i, by simp⟩

/-- Every run keeps the invariant. -/
theorem Run.invariant
    (hfits : ∀ i seen more r, makes i seen r → (Fits (seen ++ more) r ↔ more = []))
    {log : List Rec} {es : List (Event ι)} {s : State ι Rec}
    (h : Run makes (start log) es s) : ∃ appended, Invariant makes Fits log es s appended := by
  induction h with
  | nil => exact ⟨[], invariant_start log⟩
  | snoc run step ih =>
    obtain ⟨appended, hinv⟩ := ih
    cases step with
    | read waiting made => exact ⟨appended, hinv.read waiting made⟩
    | append ready => exact ⟨_, hinv.append hfits ready⟩

end

end DevRepro.Lib.ReadAppend
