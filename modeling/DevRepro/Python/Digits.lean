import DevRepro.Python.JsonDump

/-!
# Numbers in decimal digits

What `int` reads from a text of decimal digits, of any script, and what an f-string
writes of a number.
-/

namespace DevRepro.Python

/-- A text of decimal digits. -/
def IsNumber (s : Str) : Prop := s ≠ [] ∧ ∀ c ∈ s, (digitValue? c).isSome = true

instance (s : Str) : Decidable (IsNumber s) :=
  decidable_of_iff ((s != [] && s.all fun c => (digitValue? c).isSome) = true)
    (by simp [IsNumber])

/-- The number that the digits of a text make. -/
def numberOf (s : Str) : Nat := s.foldl (fun acc c => acc * 10 + (digitValue? c).getD 0) 0

theorem digitValue?_lt {c : CodePoint} {d : Nat} (h : digitValue? c = some d) : d < 10 := by
  unfold digitValue? at h
  obtain ⟨start, hfind, rfl⟩ := Option.map_eq_some_iff.mp h
  have hrange := List.find?_some hfind
  rw [Bool.and_eq_true, decide_eq_true_eq, decide_eq_true_eq] at hrange
  omega

/-- What holds of the ten digits of every script holds of a decimal digit. -/
theorem digit_each {P : CodePoint → Bool} {c : CodePoint}
    (h : (decimalZeros.all fun start => (List.range 10).all fun k =>
      P (Fin.ofNat 0x110000 (start + k))) = true)
    (hc : (digitValue? c).isSome = true) : P c = true := by
  unfold digitValue? at hc
  rw [Option.isSome_map, List.find?_isSome] at hc
  obtain ⟨start, hstart, hrange⟩ := hc
  rw [Bool.and_eq_true, decide_eq_true_eq, decide_eq_true_eq] at hrange
  have hall := List.all_eq_true.mp (List.all_eq_true.mp h start hstart) (c.val - start)
    (List.mem_range.mpr (by omega))
  have heq : Fin.ofNat 0x110000 (start + (c.val - start)) = c := by
    apply Fin.ext
    show (start + (c.val - start)) % 0x110000 = c.val
    rw [Nat.add_sub_cancel' hrange.1, Nat.mod_eq_of_lt c.isLt]
  rwa [heq] at hall

theorem digit_not_space {c : CodePoint} (hc : (digitValue? c).isSome = true) :
    isSpace c = false := by
  have h := digit_each (P := fun c => !isSpace c) (by decide +kernel) hc
  rwa [Bool.not_eq_true'] at h

theorem digit_ne {c d : CodePoint} (hc : (digitValue? c).isSome = true)
    (hd : digitValue? d = none) : c ≠ d := by
  rintro rfl
  rw [hd] at hc
  cases hc

theorem IsNumber.not_mem {s : Str} (h : IsNumber s) {d : CodePoint} (hd : digitValue? d = none) :
    d ∉ s := fun hmem => digit_ne (h.2 d hmem) hd rfl

theorem IsNumber.not_space {s : Str} (h : IsNumber s) : ∀ c ∈ s, isSpace c = false :=
  fun c hc => digit_not_space (h.2 c hc)

/-! ## Reading -/

theorem numberOf_append (s : Str) (c : CodePoint) :
    numberOf (s ++ [c]) = numberOf s * 10 + (digitValue? c).getD 0 := by
  simp [numberOf]

theorem numberOf_lt {s : Str} (h : ∀ c ∈ s, (digitValue? c).isSome = true) :
    numberOf s < 10 ^ s.length := by
  induction s using List.reverseRecOn with
  | nil => simp [numberOf]
  | append_singleton s c ih =>
    have hs := ih fun d hd => h d (List.mem_append_left _ hd)
    obtain ⟨d, hd⟩ := Option.isSome_iff_exists.mp (h c (by simp))
    have hlt := digitValue?_lt hd
    rw [numberOf_append, hd, Option.getD_some, List.length_append, List.length_singleton, pow_succ]
    omega

theorem mapM_digitValue? {s : Str} (h : ∀ c ∈ s, (digitValue? c).isSome = true) :
    s.mapM digitValue? = some (s.map fun c => (digitValue? c).getD 0) := by
  induction s with
  | nil => rfl
  | cons c s ih =>
    obtain ⟨d, hd⟩ := Option.isSome_iff_exists.mp (h c List.mem_cons_self)
    rw [List.mapM_cons, ih fun e he => h e (List.mem_cons_of_mem _ he), hd, List.map_cons, hd]
    rfl

/-! ## Writing -/

theorem digitValue?_digit {d : Nat} (h : d < 10) : digitValue? (digit d) = some d := by
  have hall : ∀ d < 10, digitValue? (digit d) = some d := by decide
  exact hall d h

theorem natStr_ne_nil (n : Nat) : natStr n ≠ [] := by
  rcases Nat.lt_or_ge n 10 with hlt | hge
  · rw [natStr_of_lt hlt]
    exact List.cons_ne_nil _ _
  · rw [natStr_of_le hge]
    simp

/-- A written number is read as itself. -/
theorem natStr_spec (n : Nat) : IsNumber (natStr n) ∧ numberOf (natStr n) = n := by
  induction n using Nat.strongRecOn with
  | ind n ih =>
    rcases Nat.lt_or_ge n 10 with hlt | hge
    · rw [natStr_of_lt hlt]
      have hd := digitValue?_digit hlt
      exact ⟨⟨List.cons_ne_nil _ _, by simp [hd]⟩, by simp [numberOf, hd]⟩
    · obtain ⟨⟨-, hdigits⟩, hvalue⟩ := ih (n / 10) (by omega)
      have hd := digitValue?_digit (d := n % 10) (by omega)
      refine ⟨⟨natStr_ne_nil n, ?_⟩, ?_⟩
      · rw [natStr_of_le hge]
        intro c hc
        rcases List.mem_append.mp hc with hc | hc
        · exact hdigits c hc
        · rw [List.mem_singleton.mp hc, hd]
          rfl
      · rw [natStr_of_le hge, numberOf_append, hvalue, hd, Option.getD_some]
        omega

theorem natStr_isNumber (n : Nat) : IsNumber (natStr n) := (natStr_spec n).1

@[simp] theorem numberOf_natStr (n : Nat) : numberOf (natStr n) = n := (natStr_spec n).2

/-- A number takes no more digits than its value calls for. -/
theorem length_natStr_le {n k : Nat} (hk : 0 < k) (h : n < 10 ^ k) : (natStr n).length ≤ k := by
  induction k generalizing n with
  | zero => exact absurd hk (lt_irrefl 0)
  | succ k ih =>
    rcases Nat.lt_or_ge n 10 with hlt | hge
    · rw [natStr_of_lt hlt]
      simp
    · have hdiv : n / 10 < 10 ^ k := by
        rw [pow_succ] at h
        omega
      have hpos : 0 < k := by
        rcases Nat.eq_zero_or_pos k with rfl | hpos
        · simp at hdiv
          omega
        · exact hpos
      have hle := ih hpos hdiv
      rw [natStr_of_le hge, List.length_append, List.length_singleton]
      omega

/-- A number is not written with more digits than it is read from. -/
theorem length_natStr_numberOf {s : Str} (h : IsNumber s) :
    (natStr (numberOf s)).length ≤ s.length :=
  length_natStr_le (List.length_pos_of_ne_nil h.1) (numberOf_lt h.2)

end DevRepro.Python
