import Mathlib.Data.List.Nodup
import Mathlib.Data.List.Sublists
import Mathlib.Data.List.Basic
import Mathlib.Tactic.Common
import Mathlib.Order.Nat

/-!
# Minimal sublists

A test on lists, and the sublists of one list that pass it.  A sublist is 1-minimal when
it passes and no element can be left out of it; it is minimal when no proper sublist of it
passes.

`OneMinimal.eq_of_supersets` says what a 1-minimal sublist is when the test asks for some
elements.  `exists_minimal_ending` finds a minimal sublist where the first elements of a
list begin to pass.
-/

namespace DevRepro.Lib

variable {α : Type} [DecidableEq α] {test : List α → Bool} {l s t : List α}

/-! ## Sublists of a list without repetitions -/

/-- A sublist is the part of the list that it has. -/
theorem sublist_eq_filter (hl : l.Nodup) (hs : s.Sublist l) : s = l.filter (· ∈ s) := by
  induction hs with
  | slnil => rfl
  | cons a hs ih =>
    rw [List.nodup_cons] at hl
    have ha : a ∉ _ := fun hmem => hl.1 (hs.subset hmem)
    rw [List.filter_cons_of_neg (by simpa using ha)]
    exact ih hl.2
  | @cons_cons s l a hs ih =>
    rw [List.nodup_cons] at hl
    rw [List.filter_cons_of_pos (by simp)]
    congr 1
    calc s = l.filter (· ∈ s) := ih hl.2
      _ = l.filter (· ∈ a :: s) := by
        refine List.filter_congr fun b hb => ?_
        have hne : b ≠ a := by
          rintro rfl
          exact hl.1 hb
        simp [hne]

/-- Sublists with the same elements are equal. -/
theorem sublist_ext (hl : l.Nodup) (hs : s.Sublist l) (ht : t.Sublist l) (h : ∀ a, a ∈ s ↔ a ∈ t) :
    s = t := by
  rw [sublist_eq_filter hl hs, sublist_eq_filter hl ht]
  exact List.filter_congr fun a _ => by simp [h a]

/-! ## 1-minimal lists -/

/-- The list passes, and without any one of its elements it does not. -/
structure OneMinimal (test : List α → Bool) (s : List α) : Prop where
  holds : test s = true
  minimal : ∀ a ∈ s, test (s.filter (· ≠ a)) = false

theorem oneMinimal_singleton {a : α} (h : test [a] = true) (hempty : test [] = false) :
    OneMinimal test [a] := by
  refine ⟨h, fun b hb => ?_⟩
  rw [List.mem_singleton.mp hb]
  simpa using hempty

/-- Where a test asks for the elements of a list, that list is the only 1-minimal one. -/
theorem OneMinimal.eq_of_supersets (hmin : OneMinimal test s) (hl : l.Nodup) (hs : s.Sublist l)
    (ht : t.Sublist l) (htest : ∀ c, c.Sublist l → (test c = true ↔ t ⊆ c)) : s = t := by
  have hsub : t ⊆ s := (htest s hs).mp hmin.holds
  refine sublist_ext hl hs ht fun a => ⟨fun ha => ?_, fun ha => hsub ha⟩
  by_contra hnot
  have hfails : test (s.filter (· ≠ a)) = true := by
    rw [htest _ (List.filter_sublist.trans hs)]
    intro b hb
    have hne : b ≠ a := by
      rintro rfl
      exact hnot hb
    exact List.mem_filter.mpr ⟨hsub hb, by simpa using hne⟩
  rw [hmin.minimal a ha] at hfails
  cases hfails

/-! ## Minimal lists -/

/-- The list passes, and no proper sublist of it does. -/
structure MinimalList (test : List α → Bool) (s : List α) : Prop where
  holds : test s = true
  minimal : ∀ t, t.Sublist s → t ≠ s → test t = false

/-- On the sublists of a list, more elements never make the test fail. -/
def Increasing (test : List α → Bool) (l : List α) : Prop :=
  ∀ s t, s.Sublist t → t.Sublist l → test s = true → test t = true

omit [DecidableEq α] in
theorem exists_minimalList (h : test s = true) : ∃ m, m.Sublist s ∧ MinimalList test m := by
  induction hn : s.length using Nat.strong_induction_on generalizing s with
  | h n ih =>
    by_cases hminimal : ∀ t, t.Sublist s → t ≠ s → test t = false
    · exact ⟨s, List.Sublist.refl s, h, hminimal⟩
    · obtain ⟨t, ht, hne, htest⟩ : ∃ t, t.Sublist s ∧ t ≠ s ∧ test t = true := by
        by_contra hnone
        refine hminimal fun t ht hne => ?_
        by_contra htest
        exact hnone ⟨t, ht, hne, eq_true_of_ne_false htest⟩
      have hlt : t.length < n := by
        have hle := ht.length_le
        have hlength : t.length ≠ s.length := fun heq => hne (ht.eq_of_length heq)
        omega
      obtain ⟨m, hm, hmin⟩ := ih t.length hlt htest rfl
      exact ⟨m, hm.trans ht, hmin⟩

omit [DecidableEq α] in
/-- Where the first elements of a list begin to pass, a minimal list ends. -/
theorem exists_minimal_ending (hmono : Increasing test l) {i : Nat} (hi : i < l.length)
    (hpass : test (l.take i) = false) (hfail : test (l.take (i + 1)) = true) :
    ∃ m, m.Sublist l ∧ MinimalList test m ∧ m.getLast? = some l[i] := by
  obtain ⟨m, hm, hmin⟩ := exists_minimalList hfail
  have hm' := hm
  rw [List.take_succ_eq_append_getElem hi, List.sublist_append_iff] at hm'
  obtain ⟨front, last, rfl, hfront, hlast⟩ := hm'
  refine ⟨front ++ last, hm.trans (List.take_sublist _ _), hmin, ?_⟩
  rcases List.sublist_singleton.mp hlast with rfl | rfl
  · -- The list would pass without the last element.
    rw [List.append_nil] at hmin
    rw [hmono front (l.take i) hfront (List.take_sublist _ _) hmin.holds] at hpass
    cases hpass
  · rw [List.getLast?_append, List.getLast?_singleton]
    rfl

end DevRepro.Lib

/-!
## Slices

A list cut into slices of one size; the last one may be shorter.
-/

namespace DevRepro.Lib

variable {α : Type} {xs slice : List α} {size : Nat}

/-- `[xs[i : i + size] for i in range(0, len(xs), size)]` -/
def slices (size : Nat) (xs : List α) : List (List α) :=
  (List.range ((xs.length + size - 1) / size)).map fun i => (xs.drop (i * size)).take size

theorem mem_slices (hsize : 0 < size) :
    slice ∈ slices size xs ↔ ∃ i, i * size < xs.length ∧ slice = (xs.drop (i * size)).take size := by
  have hrange : ∀ i, i < (xs.length + size - 1) / size ↔ i * size < xs.length := by
    intro i
    rw [← Nat.succ_le_iff, Nat.le_div_iff_mul_le hsize, Nat.succ_mul]
    omega
  rw [slices, List.mem_map]
  constructor
  · rintro ⟨i, hi, rfl⟩
    exact ⟨i, (hrange i).mp (List.mem_range.mp hi), rfl⟩
  · rintro ⟨i, hi, rfl⟩
    exact ⟨i, List.mem_range.mpr ((hrange i).mpr hi), rfl⟩

theorem slice_ne_nil (hsize : 0 < size) (h : slice ∈ slices size xs) : slice ≠ [] := by
  obtain ⟨i, hi, rfl⟩ := (mem_slices hsize).mp h
  rw [← List.length_pos_iff, List.length_take, List.length_drop]
  omega

theorem slice_sublist (hsize : 0 < size) (h : slice ∈ slices size xs) : slice.Sublist xs := by
  obtain ⟨i, -, rfl⟩ := (mem_slices hsize).mp h
  exact (List.take_sublist _ _).trans (List.drop_sublist _ _)

theorem length_slice_le (hsize : 0 < size) (h : slice ∈ slices size xs) : slice.length ≤ size := by
  obtain ⟨i, -, rfl⟩ := (mem_slices hsize).mp h
  exact List.length_take_le _ _

/-- The slices of size one are the elements. -/
theorem mem_slices_one {x : α} (h : x ∈ xs) : [x] ∈ slices 1 xs := by
  obtain ⟨i, hi, rfl⟩ := List.getElem_of_mem h
  refine (mem_slices Nat.one_pos).mpr ⟨i, by omega, ?_⟩
  rw [Nat.mul_one, List.drop_eq_getElem_cons hi]
  rfl

end DevRepro.Lib

/-!
## Loops

One turn of a loop ends it with a result, or leaves the state that the next turn starts
from.  A loop whose turns make a measure smaller ends: `exists_end`.
-/

namespace DevRepro.Lib

variable {α ρ : Type*} {turn : α → ρ ⊕ α}

/-- At most so many turns of a loop. -/
def turnsFor (turn : α → ρ ⊕ α) : Nat → α → ρ ⊕ α
  | 0, a => .inr a
  | n + 1, a =>
    match turn a with
    | .inl r => .inl r
    | .inr b => turnsFor turn n b

theorem turnsFor_end {a : α} {r : ρ} (h : turn a = .inl r) (n : Nat) :
    turnsFor turn (n + 1) a = .inl r := by
  rw [turnsFor, h]

theorem turnsFor_next {a b : α} (h : turn a = .inr b) (n : Nat) :
    turnsFor turn (n + 1) a = turnsFor turn n b := by
  rw [turnsFor, h]

/-- A loop takes no more turns than its measure allows. -/
theorem exists_end (measure : α → Nat) (hturn : ∀ a b, turn a = .inr b → measure b < measure a)
    (a : α) : ∃ n ≤ measure a + 1, ∃ r, turnsFor turn n a = .inl r := by
  induction hm : measure a using Nat.strong_induction_on generalizing a with
  | _ m ih =>
    subst hm
    cases h : turn a with
    | inl r => exact ⟨1, Nat.le_add_left 1 _, r, turnsFor_end h 0⟩
    | inr b =>
      have hlt := hturn a b h
      obtain ⟨n, hn, r, hr⟩ := ih (measure b) hlt b rfl
      exact ⟨n + 1, by omega, r, (turnsFor_next h n).trans hr⟩

end DevRepro.Lib
