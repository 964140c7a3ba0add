import Mathlib

/-!
# Machines and their traces

A machine takes an input in a state and gives a new state and an output.  Its
`trace` on a list of inputs is the list of what happened: for every input the
state that it met, the output, and the state that it left.

The rules carry a fact about one step to a fact about a trace.  `Admits` says
that every input is allowed in the state that it meets, so an invariant need
only survive allowed inputs.  `forall_trace` proves a property of every entry,
and `forall_trace_iff` replaces one property by another that is equivalent
under the invariant.
-/

namespace DevRepro.Lib.Machine

variable {σ ι ο : Type}

/-- One step of a machine that ran. -/
structure Entry (σ ι ο : Type) where
  before : σ
  input : ι
  output : ο
  after : σ

section

variable (step : σ → ι → σ × ο)

/-- The step from a state on an input. -/
def entry (s : σ) (i : ι) : Entry σ ι ο := ⟨s, i, (step s i).2, (step s i).1⟩

/-- What happens on a list of inputs. -/
def trace : σ → List ι → List (Entry σ ι ο)
  | _, [] => []
  | s, i :: rest => entry step s i :: trace (step s i).1 rest

/-- The state after a list of inputs. -/
def final : σ → List ι → σ
  | s, [] => s
  | s, i :: rest => final (step s i).1 rest

/-- Every input is allowed in the state that it meets. -/
def Admits (allowed : σ → ι → Prop) : σ → List ι → Prop
  | _, [] => True
  | s, i :: rest => allowed s i ∧ Admits allowed (step s i).1 rest

/-- A property of states that allowed inputs keep. -/
def Keeps (allowed : σ → ι → Prop) (I : σ → Prop) : Prop :=
  ∀ s i, I s → allowed s i → I (step s i).1

end

variable {step : σ → ι → σ × ο} {allowed : σ → ι → Prop} {I : σ → Prop}

theorem trace_append (s : σ) (xs ys : List ι) :
    trace step s (xs ++ ys) = trace step s xs ++ trace step (final step s xs) ys := by
  induction xs generalizing s with
  | nil => rfl
  | cons i xs ih =>
    rw [List.cons_append, trace, trace, final, ih, List.cons_append]

theorem final_append (s : σ) (xs ys : List ι) :
    final step s (xs ++ ys) = final step (final step s xs) ys := by
  induction xs generalizing s with
  | nil => rfl
  | cons i xs ih =>
    rw [List.cons_append, final, final, ih]

theorem admits_of_forall (h : ∀ s i, allowed s i) (s : σ) (inputs : List ι) :
    Admits step allowed s inputs := by
  induction inputs generalizing s with
  | nil => exact trivial
  | cons i rest ih => exact ⟨h s i, ih _⟩

/-- An invariant holds after a run. -/
theorem Keeps.final (hkeeps : Keeps step allowed I) {s : σ} {inputs : List ι} (hs : I s)
    (hallowed : Admits step allowed s inputs) : I (final step s inputs) := by
  induction inputs generalizing s with
  | nil => exact hs
  | cons i rest ih => exact ih (hkeeps s i hs hallowed.1) hallowed.2

/-- A property of a single step holds of every entry of a run. -/
theorem Keeps.forall_trace (hkeeps : Keeps step allowed I) {P : Entry σ ι ο → Prop}
    (hstep : ∀ s i, I s → allowed s i → P (entry step s i)) {s : σ} {inputs : List ι} (hs : I s)
    (hallowed : Admits step allowed s inputs) : ∀ e ∈ trace step s inputs, P e := by
  induction inputs generalizing s with
  | nil => simp [trace]
  | cons i rest ih =>
    intro e he
    rcases List.mem_cons.mp he with rfl | he
    · exact hstep s i hs hallowed.1
    · exact ih (hkeeps s i hs hallowed.1) hallowed.2 e he

/-- Two properties that agree on a single step agree on a run. -/
theorem Keeps.forall_trace_iff (hkeeps : Keeps step allowed I) {P Q : Entry σ ι ο → Prop}
    (hstep : ∀ s i, I s → allowed s i → (P (entry step s i) ↔ Q (entry step s i))) {s : σ}
    {inputs : List ι} (hs : I s) (hallowed : Admits step allowed s inputs) :
    (∀ e ∈ trace step s inputs, P e) ↔ ∀ e ∈ trace step s inputs, Q e := by
  have hiff : ∀ e ∈ trace step s inputs, (P e ↔ Q e) :=
    hkeeps.forall_trace (P := fun e => P e ↔ Q e) hstep hs hallowed
  exact ⟨fun h e he => (hiff e he).mp (h e he), fun h e he => (hiff e he).mpr (h e he)⟩

/-- A relation between what happened and the state holds after a run when every
step keeps it. -/
theorem trace_induction {R : List (Entry σ ι ο) → σ → Prop} {s : σ} (hstart : R [] s)
    (hstep : ∀ done t i, R done t → R (done ++ [entry step t i]) (step t i).1)
    (inputs : List ι) : R (trace step s inputs) (final step s inputs) := by
  induction inputs using List.reverseRecOn with
  | nil => exact hstart
  | append_singleton done i ih =>
    rw [trace_append, final_append]
    exact hstep _ _ i ih

end DevRepro.Lib.Machine

/-!
## Actions that may fail and keep what they stored

An action takes a state, and gives the state that it leaves and a value or an
exception.  Unlike in a transaction, an exception keeps what was stored before it.
-/

namespace DevRepro.Lib

/-- An action on states, with exceptions. -/
def Action (σ ε α : Type) : Type := σ → σ × Except ε α

namespace Action

variable {σ ε α β : Type}

/-- The action that gives a value. -/
def ret (a : α) : Action σ ε α := fun s => (s, .ok a)

/-- One action after the other. -/
def andThen (x : Action σ ε α) (f : α → Action σ ε β) : Action σ ε β := fun s =>
  match x s with
  | (s', .ok a) => f a s'
  | (s', .error e) => (s', .error e)

instance : Monad (Action σ ε) where
  pure := ret
  bind := andThen

/-- The action that does what a function says. -/
def of (f : σ → σ × Except ε α) : Action σ ε α := f

/-- A computation that does not look at the state. -/
def lift (x : Except ε α) : Action σ ε α := fun s => (s, x)

/-- A computation that looks at the state and keeps it. -/
def query (f : σ → Except ε α) : Action σ ε α := fun s => (s, f s)

/-- What a sequence does when its first action gives a value. -/
theorem bind_of_ok {x : Action σ ε α} {f : α → Action σ ε β} {s t : σ} {a : α}
    (h : x s = (t, .ok a)) : (x >>= f) s = f a t := by
  show andThen x f s = _
  rw [andThen, h]

/-- What a sequence does when its first action fails. -/
theorem bind_of_error {x : Action σ ε α} {f : α → Action σ ε β} {s t : σ} {e : ε}
    (h : x s = (t, .error e)) : (x >>= f) s = (t, .error e) := by
  show andThen x f s = _
  rw [andThen, h]

end Action

end DevRepro.Lib

/-!
## Interrupted effects on files

A program that writes and removes files can stop between two effects, and in the middle of a
write: the file is emptied first and then filled.  `Points` are the stores that a list of
effects passes through, `points_write_remove` those of the usual two effects.
-/

namespace DevRepro.Lib

variable {κ β : Type} [DecidableEq κ]

/-- Files by name. -/
abbrev Files (κ β : Type) := κ → Option (List β)

inductive Effect (κ β : Type) where
  | write (name : κ) (content : List β)
  | remove (name : κ)

namespace Effect

/-- The store after an effect. -/
def apply (s : Files κ β) : Effect κ β → Files κ β
  | write name content => Function.update s name (some content)
  | remove name => Function.update s name none

/-- The stores in the middle of an effect. -/
def During (s : Files κ β) : Effect κ β → Files κ β → Prop
  | write name content, t => ∃ part, part <+: content ∧ t = Function.update s name (some part)
  | remove _, _ => False

end Effect

/-- The store after a list of effects. -/
def applyAll (s : Files κ β) (effects : List (Effect κ β)) : Files κ β := effects.foldl Effect.apply s

/-- The stores that a list of effects passes through. -/
inductive Points : Files κ β → List (Effect κ β) → Files κ β → Prop
  | here (s : Files κ β) (effects : List (Effect κ β)) : Points s effects s
  | during {s t : Files κ β} {e : Effect κ β} (rest : List (Effect κ β)) (h : e.During s t) :
      Points s (e :: rest) t
  | later {s t : Files κ β} {e : Effect κ β} {rest : List (Effect κ β)}
      (h : Points (e.apply s) rest t) : Points s (e :: rest) t

variable {s t : Files κ β}

theorem points_nil : Points s [] t ↔ t = s := by
  constructor
  · intro h
    cases h
    rfl
  · rintro rfl
    exact .here _ []

theorem points_cons {e : Effect κ β} {rest : List (Effect κ β)} :
    Points s (e :: rest) t ↔ t = s ∨ e.During s t ∨ Points (e.apply s) rest t := by
  constructor
  · intro h
    cases h with
    | here => exact .inl rfl
    | during _ h => exact .inr (.inl h)
    | later h => exact .inr (.inr h)
  · rintro (rfl | h | h)
    · exact .here _ _
    · exact .during rest h
    · exact .later h

/-- The points of a write and a removal behind it. -/
theorem points_write_remove {name other : κ} {content : List β} :
    Points s [.write name content, .remove other] t ↔ t = s ∨
      (∃ part, part <+: content ∧ t = Function.update s name (some part)) ∨
      t = Function.update (Function.update s name (some content)) other none := by
  rw [points_cons, points_cons, points_nil]
  constructor
  · rintro (rfl | h | rfl | h | rfl)
    · exact .inl rfl
    · exact .inr (.inl h)
    · exact .inr (.inl ⟨content, List.prefix_refl content, rfl⟩)
    · cases h
    · exact .inr (.inr rfl)
  · rintro (rfl | h | rfl)
    · exact .inl rfl
    · exact .inr (.inl h)
    · exact .inr (.inr (.inr (.inr rfl)))

/-- The points of a write. -/
theorem points_write {name : κ} {content : List β} :
    Points s [.write name content] t ↔ t = s ∨
      ∃ part, part <+: content ∧ t = Function.update s name (some part) := by
  rw [points_cons, points_nil]
  constructor
  · rintro (rfl | h | rfl)
    · exact .inl rfl
    · exact .inr h
    · exact .inr ⟨content, List.prefix_refl content, rfl⟩
  · rintro (rfl | h)
    · exact .inl rfl
    · exact .inr (.inl h)

end DevRepro.Lib
