import DevRepro.Python.JsonScan

/-!
# The budgets of `json.loads`

`RecursionError` and the digit limit depend on the interpreter, not on the
text alone.  This module separates them from the JSON grammar.

A budget can only cut a run short: `loads_mono` says that the answer within
a budget is the answer within any larger one, or else one of the two budget
exceptions.  `jsonOf` is the answer without a budget.  No text of `n`
characters opens more than `n` containers or has a longer number, so a budget
of `n` is as good as none, which `loads_eq_jsonOf` states.

`loads_append_obj` is the one fact about the grammar that a reader of
newline-delimited JSON needs: two documents on one line are not a document.
-/

namespace DevRepro.Python

namespace Scan

/-- The exceptions that a larger budget would have avoided. -/
def IsBudgetError (e : Exc) : Prop := e = recursionError ∨ e = digitsError

instance (e : Exc) : Decidable (IsBudgetError e) := inferInstanceAs (Decidable (_ ∨ _))

/-- A budget is at least another in both parts. -/
def Limits.Within (l l' : Limits) : Prop := l.depth ≤ l'.depth ∧ l.intDigits ≤ l'.intDigits

theorem isBudgetError_not_decode {e : Exc} (h : IsBudgetError e) : e.type ≠ .jsonDecodeError := by
  rcases h with rfl | rfl <;> decide

/-! ## Runs -/

@[simp] theorem run_nil (l : Limits) (st : State) : run l st [] = .ok st := rfl

theorem run_cons (l : Limits) (st : State) (c : CodePoint) (text : Str) :
    run l st (c :: text) = step l st c >>= fun st' => run l st' text := rfl

theorem run_cons_ok {l : Limits} {st st' : State} {c : CodePoint} (h : step l st c = .ok st')
    (text : Str) : run l st (c :: text) = run l st' text := by
  rw [run_cons, h]
  rfl

theorem run_append_ok {l : Limits} {st st' : State} {s : Str} (h : run l st s = .ok st')
    (t : Str) : run l st (s ++ t) = run l st' t := by
  rw [run, List.foldlM_append, show s.foldlM (step l) st = .ok st' from h]
  rfl

/-! ## A larger budget changes nothing else -/

section Monotone

variable {l l' : Limits}

theorem openValue_mono (h : Limits.Within l l') (stack : List Frame) (c : CodePoint) :
    openValue l stack c = openValue l' stack c ∨ openValue l stack c = .error recursionError := by
  rcases Nat.lt_or_ge stack.length l.depth with hlt | hge
  · left
    have hlt' : stack.length < l'.depth := Nat.lt_of_lt_of_le hlt h.1
    simp only [openValue, if_pos hlt, if_pos hlt']
  · have hnot : ¬stack.length < l.depth := by omega
    simp only [openValue, if_neg hnot]
    cases opening? c with
    | none => exact Or.inl rfl
    | some o => cases o <;> first | exact Or.inr rfl | exact Or.inl rfl

theorem toInt_mono (h : Limits.Within l l') (n : Number) :
    n.toInt l = n.toInt l' ∨ n.toInt l = .error digitsError := by
  rcases Nat.lt_or_ge l.intDigits n.intLength with hlt | hge
  · exact Or.inr (by rw [Number.toInt, if_pos hlt])
  · have h2 := h.2
    left
    rw [Number.toInt, Number.toInt, if_neg (show ¬l.intDigits < n.intLength by omega),
      if_neg (show ¬l'.intDigits < n.intLength by omega)]

theorem value_mono (h : Limits.Within l l') (n : Number) :
    n.value l = n.value l' ∨ n.value l = .error digitsError := by
  unfold Number.value
  split <;> first | exact toInt_mono h n | exact Or.inl rfl

theorem endNumber_mono (h : Limits.Within l l') (stack : List Frame) (n : Number)
    (c : CodePoint) :
    endNumber l stack n c = endNumber l' stack n c ∨ endNumber l stack n c = .error digitsError := by
  rcases value_mono h n with hv | hv
  · exact Or.inl (by rw [endNumber, endNumber, hv])
  · rw [endNumber, endNumber]
    by_cases hI : n.phase = .minus ∧ c = codePoint 'I'
    · rw [if_pos hI, if_pos hI]
      exact Or.inl rfl
    · rw [if_neg hI, hv]
      exact Or.inr rfl

theorem step_mono (h : Limits.Within l l') (st : State) (c : CodePoint) :
    step l st c = step l' st c ∨ ∃ e, step l st c = .error e ∧ IsBudgetError e := by
  obtain ⟨stack, mode⟩ := st
  cases mode with
  | value first =>
    simp only [step]
    split_ifs
    · exact Or.inl rfl
    · exact Or.inl rfl
    · exact (openValue_mono h stack c).imp_right fun he => ⟨_, he, Or.inl rfl⟩
  | number n =>
    simp only [step]
    cases n.next c with
    | some n' => exact Or.inl rfl
    | none => exact (endNumber_mono h stack n c).imp_right fun he => ⟨_, he, Or.inr rfl⟩
  | word rest w => cases rest <;> exact Or.inl rfl
  | key first done => exact Or.inl rfl
  | colon done key => exact Or.inl rfl
  | after v => exact Or.inl rfl
  | text t => exact Or.inl rfl

theorem finish_mono (h : Limits.Within l l') (st : State) :
    finish l st = finish l' st ∨ ∃ e, finish l st = .error e ∧ IsBudgetError e := by
  obtain ⟨stack, mode⟩ := st
  cases mode with
  | number n =>
    simp only [finish]
    rcases value_mono h n with hv | hv
    · exact Or.inl (by rw [hv])
    · exact Or.inr ⟨digitsError, by rw [hv], Or.inr rfl⟩
  | word rest w => cases rest <;> exact Or.inl rfl
  | value first => exact Or.inl rfl
  | key first done => exact Or.inl rfl
  | colon done key => exact Or.inl rfl
  | after v => exact Or.inl rfl
  | text t => exact Or.inl rfl

theorem run_mono (h : Limits.Within l l') (text : Str) (st : State) :
    run l st text = run l' st text ∨ ∃ e, run l st text = .error e ∧ IsBudgetError e := by
  induction text generalizing st with
  | nil => exact Or.inl rfl
  | cons c text ih =>
    rw [run_cons, run_cons]
    rcases step_mono h st c with hs | ⟨e, hs, he⟩
    · rw [hs]
      cases step l' st c with
      | error e => exact Or.inl rfl
      | ok st' => exact ih st'
    · exact Or.inr ⟨e, by rw [hs]; rfl, he⟩

/-- Within a budget `loads` answers as within any larger one, or runs out of
the budget. -/
theorem loads_mono (h : Limits.Within l l') (text : Str) :
    loads l text = loads l' text ∨ ∃ e, loads l text = .error e ∧ IsBudgetError e := by
  unfold loads
  split_ifs with hbom
  · exact Or.inl rfl
  · rcases run_mono h text ⟨[], .value false⟩ with hr | ⟨e, hr, he⟩
    · rw [hr]
      cases run l' ⟨[], .value false⟩ text with
      | error e => exact Or.inl rfl
      | ok st => exact finish_mono h st
    · exact Or.inr ⟨e, by rw [hr], he⟩

end Monotone

/-! ## A budget the size of the text -/

/-- The containers that are open and the integer digits that have been read:
an upper bound for both budgets. -/
def State.size (st : State) : Nat :=
  st.stack.length + match st.mode with
    | .number n => n.intLength
    | _ => 0

theorem Number.next_intLength {n n' : Number} {c : CodePoint} (h : n.next c = some n') :
    n'.intLength ≤ n.intLength + 1 := by
  unfold Number.next at h
  grind

theorem opening?_intLength {c : CodePoint} {n : Number} (h : opening? c = some (.number n)) :
    n.intLength ≤ 1 := by
  unfold opening? at h
  split_ifs at h <;> (try split at h) <;> cases h <;> simp

theorem openValue_size {l : Limits} {stack : List Frame} {c : CodePoint} {st : State}
    (h : openValue l stack c = .ok st) : st.size ≤ stack.length + 1 := by
  unfold openValue at h
  split at h <;> (try split_ifs at h) <;> cases h <;> simp [State.size]
  exact opening?_intLength ‹_›

theorem afterValue_size {stack : List Frame} {v : Json} {c : CodePoint} {st : State}
    (h : afterValue stack v c = .ok st) : st.size ≤ stack.length := by
  unfold afterValue at h
  split at h <;> (try split_ifs at h) <;> cases h <;> simp [State.size]

theorem settle_size {stack : List Frame} {v : Json} {c : CodePoint} {st : State}
    (h : settle stack v c = .ok st) : st.size ≤ stack.length := by
  unfold settle at h
  split_ifs at h
  · cases h; simp [State.size]
  · exact afterValue_size h

theorem endNumber_size {l : Limits} {stack : List Frame} {n : Number} {c : CodePoint} {st : State}
    (h : endNumber l stack n c = .ok st) : st.size ≤ stack.length := by
  rw [endNumber] at h
  by_cases hI : n.phase = .minus ∧ c = codePoint 'I'
  · rw [if_pos hI] at h
    cases h
    simp [State.size]
  · rw [if_neg hI] at h
    cases hv : n.value l with
    | error e => rw [hv] at h; cases h
    | ok v =>
      simp only [hv] at h
      by_cases hl : n.phase.leftover = true
      · rw [if_pos hl] at h
        cases h
      · rw [if_neg hl] at h
        exact settle_size h

theorem stepText_size {stack : List Frame} {t : Text} {c : CodePoint} {st : State}
    (h : stepText stack t c = .ok st) : st.size ≤ stack.length := by
  unfold stepText at h
  split at h
  · split_ifs at h <;> cases h <;> simp only [State.size, closeText] <;> (try split) <;> simp
  · split_ifs at h
    · cases h; simp [State.size]
    · split at h <;> cases h
      simp [State.size]
  · split at h
    · cases h
    · split_ifs at h <;> cases h <;> simp [State.size]

theorem step_size {l : Limits} {st st' : State} {c : CodePoint} (h : step l st c = .ok st') :
    st'.size ≤ st.size + 1 := by
  obtain ⟨stack, mode⟩ := st
  have hstack : stack.length ≤ State.size ⟨stack, mode⟩ := Nat.le_add_right _ _
  cases mode with
  | value first =>
    simp only [step] at h
    split_ifs at h
    · cases h; omega
    · cases h; simp [State.size]; omega
    · exact openValue_size h
  | key first done =>
    simp only [step] at h
    split_ifs at h <;> cases h <;> simp [State.size]
  | colon done key =>
    simp only [step] at h
    split_ifs at h <;> cases h <;> simp [State.size]
  | after v =>
    have : st'.size ≤ stack.length := settle_size h
    omega
  | word rest w =>
    cases rest with
    | nil =>
      have : st'.size ≤ stack.length := settle_size h
      omega
    | cons d rest =>
      simp only [step] at h
      split_ifs at h
      cases h
      simp [State.size]
  | number n =>
    simp only [step] at h
    cases hn : n.next c with
    | some n' =>
      rw [hn] at h
      cases h
      have := Number.next_intLength hn
      simp only [State.size]
      omega
    | none =>
      rw [hn] at h
      have : st'.size ≤ stack.length := endNumber_size h
      omega
  | text t =>
    have : st'.size ≤ stack.length := stepText_size h
    omega

/-! ## Within the budget, only `JSONDecodeError` -/

theorem openValue_enough {l : Limits} {stack : List Frame} {c : CodePoint} {e : Exc}
    (hd : stack.length < l.depth) (h : openValue l stack c = .error e) : e.type = .jsonDecodeError := by
  simp only [openValue, if_pos hd] at h
  split at h <;> cases h
  decide

theorem afterValue_error {stack : List Frame} {v : Json} {c : CodePoint} {e : Exc}
    (h : afterValue stack v c = .error e) : e = delimiterError stack := by
  unfold afterValue at h
  split at h <;> (try split_ifs at h) <;> cases h <;> rfl

theorem delimiterError_type (stack : List Frame) : (delimiterError stack).type = .jsonDecodeError := by
  cases stack
  · decide
  · rfl

theorem settle_enough {stack : List Frame} {v : Json} {c : CodePoint} {e : Exc}
    (h : settle stack v c = .error e) : e.type = .jsonDecodeError := by
  unfold settle at h
  split_ifs at h
  rw [afterValue_error h]
  exact delimiterError_type stack

theorem value_enough {l : Limits} {n : Number} {e : Exc} (hd : n.intLength ≤ l.intDigits)
    (h : n.value l = .error e) : e.type = .jsonDecodeError := by
  have hint : n.toInt l ≠ .error e := by
    rw [Number.toInt, if_neg (by omega)]
    simp
  unfold Number.value at h
  split at h <;> first | exact absurd h hint | (cases h; decide) | cases h

theorem endNumber_enough {l : Limits} {stack : List Frame} {n : Number} {c : CodePoint} {e : Exc}
    (hd : n.intLength ≤ l.intDigits) (h : endNumber l stack n c = .error e) :
    e.type = .jsonDecodeError := by
  rw [endNumber] at h
  by_cases hI : n.phase = .minus ∧ c = codePoint 'I'
  · rw [if_pos hI] at h
    cases h
  · rw [if_neg hI] at h
    cases hv : n.value l with
    | error e' =>
      rw [hv] at h
      cases h
      exact value_enough hd hv
    | ok v =>
      simp only [hv] at h
      by_cases hl : n.phase.leftover = true
      · rw [if_pos hl] at h
        cases h
        exact delimiterError_type stack
      · rw [if_neg hl] at h
        exact settle_enough h

theorem stepText_enough {stack : List Frame} {t : Text} {c : CodePoint} {e : Exc}
    (h : stepText stack t c = .error e) : e.type = .jsonDecodeError := by
  unfold stepText at h
  split at h <;> (try split_ifs at h) <;> (try split at h) <;>
    cases h <;> decide

theorem step_enough {l : Limits} {st : State} {c : CodePoint} {e : Exc}
    (hd : st.size < l.depth) (hi : st.size ≤ l.intDigits) (h : step l st c = .error e) :
    e.type = .jsonDecodeError := by
  obtain ⟨stack, mode⟩ := st
  have hstack : stack.length ≤ State.size ⟨stack, mode⟩ := Nat.le_add_right _ _
  cases mode with
  | value first =>
    simp only [step] at h
    split_ifs at h
    exact openValue_enough (by omega) h
  | key first done =>
    simp only [step] at h
    split_ifs at h
    cases h
    decide
  | colon done key =>
    simp only [step] at h
    split_ifs at h
    cases h
    decide
  | after v => exact settle_enough h
  | word rest w =>
    cases rest with
    | nil => exact settle_enough h
    | cons d rest =>
      simp only [step] at h
      split_ifs at h
      cases h
      decide
  | number n =>
    simp only [step] at h
    cases hn : n.next c with
    | some n' => rw [hn] at h; cases h
    | none =>
      rw [hn] at h
      simp only [State.size] at hi
      exact endNumber_enough (by omega) h
  | text t => exact stepText_enough h

theorem finish_enough {l : Limits} {st : State} {e : Exc} (hi : st.size ≤ l.intDigits)
    (h : finish l st = .error e) : e.type = .jsonDecodeError := by
  have hvalue : ∀ stack v, finishValue stack v = .error e → e.type = .jsonDecodeError := by
    intro stack v hf
    unfold finishValue at hf
    split at hf <;> cases hf
    exact delimiterError_type _
  obtain ⟨stack, mode⟩ := st
  cases mode with
  | value first => cases h; decide
  | key first done => cases h; decide
  | colon done key => cases h; decide
  | after v => exact hvalue _ _ h
  | word rest w =>
    cases rest with
    | nil => exact hvalue _ _ h
    | cons d rest => cases h; decide
  | number n =>
    simp only [finish] at h
    simp only [State.size] at hi
    cases hv : n.value l with
    | error e' =>
      rw [hv] at h
      cases h
      exact value_enough (by omega) hv
    | ok v =>
      simp only [hv] at h
      by_cases hl : n.phase.leftover = true
      · rw [if_pos hl] at h
        cases h
        exact delimiterError_type stack
      · rw [if_neg hl] at h
        exact hvalue _ _ h
  | text t =>
    simp only [finish] at h
    split at h <;> (try split_ifs at h) <;> cases h <;> decide

/-- A run over a text that fits the budget raises `JSONDecodeError` at most,
and ends in a state that fits it. -/
theorem run_enough {l : Limits} (text : Str) (st : State)
    (hd : st.size + text.length ≤ l.depth) (hi : st.size + text.length ≤ l.intDigits) :
    (∃ e, run l st text = .error e ∧ e.type = .jsonDecodeError) ∨
      ∃ st', run l st text = .ok st' ∧ st'.size ≤ l.intDigits := by
  induction text generalizing st with
  | nil => exact Or.inr ⟨st, rfl, by simpa using hi⟩
  | cons c text ih =>
    rw [run_cons]
    rw [List.length_cons] at hd hi
    cases hs : step l st c with
    | error e => exact Or.inl ⟨e, rfl, step_enough (by omega) (by omega) hs⟩
    | ok st' =>
      have hsize := step_size hs
      exact ih st' (by omega) (by omega)

end Scan

open Scan

/-! ## The answer without a budget -/

/-- The answer of an interpreter whose budgets the text cannot exhaust: the
value of the text, or the `JSONDecodeError` it deserves. -/
def jsonOf (text : Str) : Except Exc Json := loads ⟨text.length, text.length⟩ text

theorem jsonOf_error {text : Str} {e : Exc} (h : jsonOf text = .error e) :
    e.type = .jsonDecodeError := by
  unfold jsonOf loads at h
  split_ifs at h with hbom
  · cases h
    decide
  · rcases run_enough (l := ⟨text.length, text.length⟩) text ⟨[], .value false⟩
      (by simp [State.size]) (by simp [State.size]) with ⟨e', hr, he⟩ | ⟨st, hr, hs⟩
    · rw [hr] at h
      cases h
      exact he
    · rw [hr] at h
      exact finish_enough hs h

theorem jsonOf_not_budget {text : Str} {e : Exc} (h : jsonOf text = .error e) :
    ¬IsBudgetError e :=
  fun hbudget => isBudgetError_not_decode hbudget (jsonOf_error h)

/-- `json.loads` answers for the text alone, or a budget is exhausted. -/
theorem loads_eq_jsonOf (l : Limits) (text : Str) :
    loads l text = jsonOf text ∨ ∃ e, loads l text = .error e ∧ IsBudgetError e := by
  let top : Limits := ⟨max l.depth text.length, max l.intDigits text.length⟩
  have hl : Limits.Within l top := ⟨Nat.le_max_left _ _, Nat.le_max_left _ _⟩
  have ht : Limits.Within ⟨text.length, text.length⟩ top :=
    ⟨Nat.le_max_right _ _, Nat.le_max_right _ _⟩
  have hfree : jsonOf text = loads top text := by
    rcases loads_mono ht text with heq | ⟨e, he, hb⟩
    · exact heq
    · exact absurd hb (jsonOf_not_budget he)
  rcases loads_mono hl text with heq | hbudget
  · exact Or.inl (heq.trans hfree.symm)
  · exact Or.inr hbudget

/-! ## A text beyond every budget -/

namespace Scan

end Scan

/-! ## One document a line -/

/-- A state that would end as an object has closed it, and takes nothing but
blanks. -/
theorem Scan.step_end_of_obj {l : Limits} {st : State} {fields : List (Str × Json)}
    (h : finish l st = .ok (.obj fields)) {c : CodePoint} (hc : isJsonSpace c = false) :
    step l st c = .error extraData := by
  have hsettle : ∀ stack v, finishValue stack v = .ok (.obj fields) →
      settle stack v c = .error extraData := by
    intro stack v hf
    unfold finishValue at hf
    split at hf <;> cases hf
    simp [settle, hc, afterValue]
  obtain ⟨stack, mode⟩ := st
  cases mode with
  | value first => cases h
  | key first done => cases h
  | colon done key => cases h
  | after v => exact hsettle _ _ h
  | word rest w =>
    cases rest with
    | nil => exact hsettle _ _ h
    | cons d rest => cases h
  | number n =>
    exfalso
    simp only [finish] at h
    have hval : ∀ v, n.value l = .ok v → ∀ fields, v ≠ .obj fields := by
      intro v hv fields
      unfold Number.value Number.toInt Number.toFloat at hv
      split at hv <;> (try split_ifs at hv) <;> cases hv <;> simp
    cases hv : n.value l with
    | error e => rw [hv] at h; cases h
    | ok v =>
      simp only [hv] at h
      by_cases hl : n.phase.leftover = true
      · rw [if_pos hl] at h
        cases h
      · rw [if_neg hl] at h
        unfold finishValue at h
        split at h <;> cases h
        exact hval _ hv _ rfl
  | text t =>
    simp only [finish] at h
    split at h <;> (try split_ifs at h) <;> cases h

/-- A text that is an object, with more behind it than blanks, is not JSON. -/
theorem loads_append_obj {l : Limits} {text rest : Str} {fields : List (Str × Json)}
    (h : loads l text = .ok (.obj fields)) (c : CodePoint) (hc : isJsonSpace c = false) :
    loads l (text ++ c :: rest) = .error extraData := by
  unfold loads at h
  split_ifs at h with hbom
  have hne : text ≠ [] := by
    rintro rfl
    cases h
  have hbom' : (text ++ c :: rest).head? ≠ some 0xFEFF := by
    obtain ⟨d, text', rfl⟩ := List.exists_cons_of_ne_nil hne
    exact hbom
  cases hr : run l ⟨[], .value false⟩ text with
  | error e => rw [hr] at h; cases h
  | ok st =>
    simp only [hr] at h
    rw [loads, if_neg hbom', run_append_ok hr, run_cons, step_end_of_obj h hc]
    rfl

end DevRepro.Python
