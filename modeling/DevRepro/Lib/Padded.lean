import Mathlib.Algebra.Order.Monoid.Canonical.Defs
import Mathlib.Data.List.DropRight
import Mathlib.Data.List.GetD
import Mathlib.Data.List.Lex
import Mathlib.Order.PiLex

/-!
# Lists padded with zeros

A list stands for the sequence that goes on with zeros, and such sequences are compared
at the first place at which they differ.  Lists of one length keep the order that they
have as lists.
-/

namespace DevRepro.Lib

variable {α : Type*} [Zero α] {xs ys : List α}

/-- The sequence of a list with zeros behind it, in the order of the first difference. -/
def padded (xs : List α) : Lex (ℕ → α) := toLex fun i => xs.getD i 0

theorem padded_eq_iff : padded xs = padded ys ↔ ∀ i, xs.getD i 0 = ys.getD i 0 := by
  unfold padded
  rw [toLex_inj, funext_iff]

private theorem getD_tail (l : List α) (i : Nat) : l.tail.getD i 0 = l.getD (i + 1) 0 := by
  cases l <;> rfl

theorem padded_eq_cons :
    padded xs = padded ys ↔
      xs.getD 0 0 = ys.getD 0 0 ∧ padded xs.tail = padded ys.tail := by
  simp only [padded_eq_iff, getD_tail]
  constructor
  · intro h
    exact ⟨h 0, fun i => h (i + 1)⟩
  · rintro ⟨hfirst, hrest⟩ i
    cases i with
    | zero => exact hfirst
    | succ i => exact hrest i

@[simp] theorem padded_append_zeros (xs : List α) (n : Nat) :
    padded (xs ++ List.replicate n 0) = padded xs := by
  rw [padded_eq_iff]
  intro i
  rcases lt_or_ge i xs.length with hi | hi
  · rw [List.getD_append _ _ _ _ hi]
  · rw [List.getD_append_right _ _ _ _ hi, List.getD_eq_default xs _ hi]
    by_cases hn : i - xs.length < n
    · rw [List.getD_replicate _ hn]
    · rw [List.getD_eq_default _ _ (by simpa using hn)]

/-! ## Without the zeros at the end -/

section Trimmed

variable [DecidableEq α]

/-- The list without the zeros at its end. -/
def withoutTrailingZeros (xs : List α) : List α := xs.rdropWhile fun x => decide (x = 0)

theorem padded_withoutTrailingZeros (xs : List α) : padded (withoutTrailingZeros xs) = padded xs := by
  have hzeros : xs.rtakeWhile (fun x => decide (x = 0)) =
      List.replicate (xs.rtakeWhile fun x => decide (x = 0)).length 0 :=
    List.eq_replicate_of_mem fun x hx => of_decide_eq_true
      (List.mem_rtakeWhile_imp (p := fun x => decide (x = 0)) hx)
  conv_rhs => rw [← List.rdropWhile_append_rtakeWhile (p := fun x => decide (x = 0)) (l := xs), hzeros,
    padded_append_zeros]
  rfl

/-- A list that is no shorter than it has to be for its sequence. -/
theorem length_le_of_padded_eq (h : padded xs = padded ys) (hys : withoutTrailingZeros ys = ys) :
    ys.length ≤ xs.length := by
  by_contra hshort
  rw [not_le] at hshort
  have hne : ys ≠ [] := List.length_pos_iff.mp (by omega)
  have hlast : ys.getD (ys.length - 1) 0 = ys.getLast hne := by
    rw [List.getD_eq_getElem _ _ (by omega), List.getLast_eq_getElem]
  have hzero : xs.getD (ys.length - 1) 0 = 0 := List.getD_eq_default _ _ (by omega)
  refine List.rdropWhile_eq_self_iff.mp hys hne (decide_eq_true ?_)
  rw [← hlast, ← padded_eq_iff.mp h, hzero]

/-- The sequence is the list up to the zeros at its end. -/
theorem padded_eq_iff_trimmed :
    padded xs = padded ys ↔ withoutTrailingZeros xs = withoutTrailingZeros ys := by
  constructor
  · intro h
    have htrimmed : padded (withoutTrailingZeros xs) = padded (withoutTrailingZeros ys) := by
      rw [padded_withoutTrailingZeros, padded_withoutTrailingZeros, h]
    have hidem : ∀ zs : List α, withoutTrailingZeros (withoutTrailingZeros zs) = withoutTrailingZeros zs :=
      fun zs => List.rdropWhile_idempotent _ zs
    refine List.ext_getElem ?_ fun i hx hy => ?_
    · exact le_antisymm (length_le_of_padded_eq htrimmed.symm (hidem xs))
        (length_le_of_padded_eq htrimmed (hidem ys))
    · have hat := padded_eq_iff.mp htrimmed i
      rwa [List.getD_eq_getElem _ _ hx, List.getD_eq_getElem _ _ hy] at hat
  · intro h
    rw [← padded_withoutTrailingZeros xs, h, padded_withoutTrailingZeros]

end Trimmed

section Order

variable [LinearOrder α]

theorem padded_lt_iff :
    padded xs < padded ys ↔
      ∃ i, (∀ j < i, xs.getD j 0 = ys.getD j 0) ∧ xs.getD i 0 < ys.getD i 0 := Iff.rfl

/-- The first places decide, unless they are equal. -/
theorem padded_lt_cons :
    padded xs < padded ys ↔
      xs.getD 0 0 < ys.getD 0 0 ∨
        xs.getD 0 0 = ys.getD 0 0 ∧ padded xs.tail < padded ys.tail := by
  simp only [padded_lt_iff, getD_tail]
  constructor
  · rintro ⟨i, hbefore, hat⟩
    cases i with
    | zero => exact Or.inl hat
    | succ i =>
      exact Or.inr ⟨hbefore 0 (by omega), i, fun j hj => hbefore (j + 1) (by omega), hat⟩
  · rintro (hat | ⟨hfirst, i, hbefore, hat⟩)
    · exact ⟨0, fun j hj => by omega, hat⟩
    · refine ⟨i + 1, fun j hj => ?_, hat⟩
      cases j with
      | zero => exact hfirst
      | succ j => exact hbefore j (by omega)

/-- Lists of one length are compared as lists. -/
theorem lt_iff_padded_lt (h : xs.length = ys.length) : xs < ys ↔ padded xs < padded ys := by
  induction xs generalizing ys with
  | nil =>
    obtain rfl := List.length_eq_zero_iff.mp h.symm
    exact iff_of_false (lt_irrefl _) (lt_irrefl _)
  | cons x xs ih =>
    obtain ⟨y, ys, rfl⟩ := List.exists_cons_of_length_eq_add_one h.symm
    rw [List.length_cons, List.length_cons, Nat.add_right_cancel_iff] at h
    rw [List.cons_lt_cons_iff, padded_lt_cons, ih h]
    rfl

theorem eq_iff_padded_eq (h : xs.length = ys.length) : xs = ys ↔ padded xs = padded ys := by
  constructor
  · exact fun heq => heq ▸ rfl
  · intro heq
    rcases lt_trichotomy xs ys with hlt | hsame | hlt
    · exact absurd ((lt_iff_padded_lt h).mp hlt) (heq ▸ lt_irrefl _)
    · exact hsame
    · exact absurd ((lt_iff_padded_lt h.symm).mp hlt) (heq ▸ lt_irrefl _)

/-- Of two lists that differ in zeros at the end alone, the shorter one is the smaller list. -/
theorem lt_of_shorter (h : padded xs = padded ys) (hlen : xs.length < ys.length) : xs < ys := by
  induction xs generalizing ys with
  | nil =>
    cases ys with
    | nil => exact absurd hlen (lt_irrefl _)
    | cons y ys => exact List.nil_lt_cons y ys
  | cons x xs ih =>
    cases ys with
    | nil => exact absurd hlen (by simp)
    | cons y ys =>
      obtain ⟨hfirst, hrest⟩ := padded_eq_cons.mp h
      rw [List.cons_lt_cons_iff]
      exact Or.inr ⟨hfirst, ih hrest (by simpa using hlen)⟩

end Order

/-! ## Where zero is the least value -/

section Least

variable {β : Type*} [LinearOrder β] [AddMonoid β] [CanonicallyOrderedAdd β] {xs ys : List β}

@[simp] theorem not_padded_lt_nil (xs : List β) : ¬padded xs < padded [] := by
  rintro ⟨i, -, hat⟩
  exact absurd hat (not_lt.mpr zero_le)

/-- A list that is smaller with zeros behind both is smaller as it stands. -/
theorem lt_of_padded_lt (h : padded xs < padded ys) : xs < ys := by
  induction xs generalizing ys with
  | nil =>
    cases ys with
    | nil => exact absurd h (lt_irrefl _)
    | cons y ys => exact List.nil_lt_cons y ys
  | cons x xs ih =>
    cases ys with
    | nil => exact absurd h (not_padded_lt_nil _)
    | cons y ys =>
      rw [List.cons_lt_cons_iff]
      rcases padded_lt_cons.mp h with hlt | ⟨heq, hlt⟩
      · exact Or.inl hlt
      · exact Or.inr ⟨heq, ih hlt⟩

end Least

end DevRepro.Lib
