import Mathlib.Data.List.Sort
import Mathlib.Order.Basic

/-!
# Sorted lists

A list in ascending order, and the element at a place of it: how many elements are smaller
says where an element stands (`getElem_le_iff` and `le_getElem_iff`).

A sort that is stable keeps the elements that are tied in the order of the list, so the first
element that a test takes from the sorted list is the first of the best ones in the list
itself: `find?_mergeSort`.  There is one whenever there is any: `exists_first_best`.
-/

namespace DevRepro.Lib

section Ascending

variable {α : Type*} [LinearOrder α]

/-- `sorted(xs)` -/
def ascending (xs : List α) : List α := xs.mergeSort fun a b => decide (a ≤ b)

@[simp] theorem length_ascending (xs : List α) : (ascending xs).length = xs.length :=
  List.length_mergeSort xs

theorem ascending_perm (xs : List α) : (ascending xs).Perm xs := List.mergeSort_perm xs _

theorem pairwise_ascending (xs : List α) : (ascending xs).Pairwise (· ≤ ·) :=
  List.pairwise_mergeSort' (r := (· ≤ ·)) xs

/-- Sorting forgets the order of a list. -/
theorem ascending_eq_of_perm {xs ys : List α} (h : xs.Perm ys) : ascending xs = ascending ys :=
  ((ascending_perm xs).trans (h.trans (ascending_perm ys).symm)).eq_of_pairwise'
    (pairwise_ascending xs) (pairwise_ascending ys)

/-- And nothing else. -/
theorem ascending_eq_iff {xs ys : List α} : ascending xs = ascending ys ↔ xs.Perm ys :=
  ⟨fun h => (ascending_perm xs).symm.trans (h ▸ ascending_perm ys), ascending_eq_of_perm⟩

/-! ## Places -/

section Sorted

variable {xs : List α} (hsorted : xs.Pairwise (· ≤ ·))
include hsorted

/-- The element at a place is at most a bound when more elements than stand before it are. -/
theorem getElem_le_iff_of_sorted {x : α} {k : Nat} (hk : k < xs.length) :
    xs[k] ≤ x ↔ k < xs.countP fun y => decide (y ≤ x) := by
  induction xs generalizing k with
  | nil => cases hk
  | cons y ys ih =>
    obtain ⟨hfirst, hrest⟩ := List.pairwise_cons.mp hsorted
    by_cases hy : y ≤ x
    · rw [List.countP_cons_of_pos (by simpa using hy)]
      cases k with
      | zero => exact iff_of_true hy (Nat.succ_pos _)
      | succ k =>
        rw [List.getElem_cons_succ, ih hrest, Nat.succ_lt_succ_iff]
    · -- No element is below the bound.
      have hlarge : ∀ z ∈ y :: ys, ¬z ≤ x := by
        intro z hz hzx
        rcases List.mem_cons.mp hz with rfl | hz
        · exact hy hzx
        · exact hy ((hfirst z hz).trans hzx)
      have hnone : (y :: ys).countP (fun z => decide (z ≤ x)) = 0 :=
        List.countP_eq_zero.mpr fun z hz => by simpa using hlarge z hz
      rw [hnone]
      exact iff_of_false (hlarge _ (List.getElem_mem hk)) (Nat.not_lt_zero k)

/-- It is at least a bound when no more elements are smaller than that. -/
theorem le_getElem_iff_of_sorted {x : α} {k : Nat} (hk : k < xs.length) :
    x ≤ xs[k] ↔ (xs.countP fun y => decide (y < x)) ≤ k := by
  induction xs generalizing k with
  | nil => cases hk
  | cons y ys ih =>
    obtain ⟨hfirst, hrest⟩ := List.pairwise_cons.mp hsorted
    by_cases hy : y < x
    · rw [List.countP_cons_of_pos (by simpa using hy)]
      cases k with
      | zero => exact iff_of_false (not_le.mpr hy) (Nat.not_succ_le_zero _)
      | succ k =>
        rw [List.getElem_cons_succ, ih hrest, Nat.succ_le_succ_iff]
    · have hlarge : ∀ z ∈ y :: ys, x ≤ z := by
        intro z hz
        rcases List.mem_cons.mp hz with rfl | hz
        · exact not_lt.mp hy
        · exact (not_lt.mp hy).trans (hfirst z hz)
      have hnone : (y :: ys).countP (fun z => decide (z < x)) = 0 :=
        List.countP_eq_zero.mpr fun z hz => by simpa using hlarge z hz
      rw [hnone]
      exact iff_of_true (hlarge _ (List.getElem_mem hk)) (Nat.zero_le k)

end Sorted

variable {xs : List α} {x : α} {k : Nat}

theorem getElem_le_iff (hk : k < (ascending xs).length) :
    (ascending xs)[k] ≤ x ↔ k < xs.countP fun y => decide (y ≤ x) := by
  rw [getElem_le_iff_of_sorted (pairwise_ascending xs) hk, (ascending_perm xs).countP_eq]

theorem le_getElem_iff (hk : k < (ascending xs).length) :
    x ≤ (ascending xs)[k] ↔ (xs.countP fun y => decide (y < x)) ≤ k := by
  rw [le_getElem_iff_of_sorted (pairwise_ascending xs) hk, (ascending_perm xs).countP_eq]

theorem getElem_mono {i j : Nat} (hij : i ≤ j) (hj : j < (ascending xs).length) :
    (ascending xs)[i] ≤ (ascending xs)[j] :=
  (getElem_le_iff (hij.trans_lt hj)).mpr (hij.trans_lt ((getElem_le_iff hj).mp le_rfl))

/-- Raising an element leaves no more elements below a bound. -/
theorem countP_le_set {i : Nat} (hi : i < xs.length) {y : α} (h : xs[i] ≤ y) :
    ((xs.set i y).countP fun z => decide (z ≤ x)) ≤ xs.countP fun z => decide (z ≤ x) := by
  rw [List.countP_set hi]
  by_cases hy : y ≤ x
  · have hpos : 0 < xs.countP fun z => decide (z ≤ x) :=
      List.countP_pos_iff.mpr ⟨xs[i], List.getElem_mem hi, by simpa using h.trans hy⟩
    simp only [hy, h.trans hy, decide_true, if_true]
    omega
  · simp only [hy, decide_false, Bool.false_eq_true, if_false, Nat.add_zero]
    exact Nat.sub_le _ _

/-- So the element at a place does not go down. -/
theorem getElem_le_set {i : Nat} (hi : i < xs.length) {y : α} (h : xs[i] ≤ y)
    (hk : k < (ascending xs).length) (hk' : k < (ascending (xs.set i y)).length) :
    (ascending xs)[k] ≤ (ascending (xs.set i y))[k] := by
  have hnew := (getElem_le_iff hk').mp (le_refl (ascending (xs.set i y))[k])
  exact (getElem_le_iff hk).mpr (hnew.trans_le (countP_le_set hi h))

end Ascending

section Stable

variable {α : Type} {le : α → α → Bool} {p tied : α → Bool} {l : List α}

section Sorted

variable (trans : ∀ a b c : α, le a b = true → le b c = true → le a c = true)
  (total : ∀ a b : α, (le a b || le b a) = true)
include trans total

/-- Elements that are tied with each other keep their order. -/
theorem filter_mergeSort (htied : ∀ a ∈ l, ∀ b ∈ l, tied a = true → tied b = true → le a b = true) :
    (l.mergeSort le).filter tied = l.filter tied := by
  have hpairwise : (l.filter tied).Pairwise fun a b => le a b = true := by
    refine List.Pairwise.imp_of_mem ?_ (List.pairwise_of_forall fun _ _ => trivial)
    intro a b ha hb _
    rw [List.mem_filter] at ha hb
    exact htied a ha.1 b hb.1 ha.2 hb.2
  have hsub : (l.filter tied).Sublist (l.mergeSort le) :=
    List.sublist_mergeSort trans total hpairwise List.filter_sublist
  have hfiltered := hsub.filter tied
  rw [List.filter_filter] at hfiltered
  simp only [Bool.and_self] at hfiltered
  exact (hfiltered.eq_of_length ((List.mergeSort_perm l le).filter tied).length_eq.symm).symm

/-- The first element that a test takes is the first one of the tied elements, if they are the
best that it takes. -/
theorem find?_mergeSort
    (htied : ∀ a ∈ l, ∀ b ∈ l, tied a = true → tied b = true → le a b = true)
    (htaken : ∀ a ∈ l, tied a = true → p a = true)
    (hbest : ∀ a ∈ l, ∀ b ∈ l, tied a = true → p b = true → tied b = false → le b a = false)
    {first : α} (hfirst : l.find? tied = some first) : (l.mergeSort le).find? p = some first := by
  have hhead : (l.mergeSort le).find? tied = some first := by
    rw [← List.head?_filter, filter_mergeSort trans total htied, List.head?_filter, hfirst]
  obtain ⟨hfirsttied, before, behind, hsplit, hbefore⟩ := List.find?_eq_some_iff_append.mp hhead
  have hmem : ∀ a, a ∈ l.mergeSort le ↔ a ∈ l := fun a => List.mem_mergeSort
  have hfirstmem : first ∈ l := List.mem_of_find?_eq_some hfirst
  refine List.find?_eq_some_iff_append.mpr ⟨htaken first hfirstmem hfirsttied, before, behind, hsplit, ?_⟩
  intro b hb
  have hbl : b ∈ l := (hmem b).mp (hsplit ▸ List.mem_append_left _ hb)
  have hsorted := List.pairwise_mergeSort trans total l
  rw [hsplit, List.pairwise_append] at hsorted
  have hle := hsorted.2.2 b hb first List.mem_cons_self
  cases hpb : p b with
  | false => rfl
  | true =>
    have hnot : tied b = false := by simpa using hbefore b hb
    rw [hbest first hfirstmem b hbl hfirsttied hpb hnot] at hle
    cases hle

end Sorted

/-! ## Best elements -/

variable {β : Type} [LinearOrder β] (value : α → β)

/-- Of the elements that a test takes, there is a first one among the best. -/
theorem exists_first_best (h : ∃ a ∈ l, p a = true) :
    ∃ before best behind, l = before ++ best :: behind ∧ p best = true ∧
      (∀ a ∈ l, p a = true → value a ≤ value best) ∧
      ∀ a ∈ before, p a = true → value a < value best := by
  induction l with
  | nil =>
    obtain ⟨a, ha, -⟩ := h
    cases ha
  | cons a l ih =>
    by_cases hrest : ∃ b ∈ l, p b = true ∧ (p a = true → value a < value b)
    · obtain ⟨b, hb, hpb, hless⟩ := hrest
      obtain ⟨before, best, behind, rfl, hbest, hmax, hfirst⟩ := ih ⟨b, hb, hpb⟩
      have ha : p a = true → value a < value best := fun hpa => (hless hpa).trans_le (hmax b hb hpb)
      refine ⟨a :: before, best, behind, rfl, hbest, ?_, ?_⟩
      · exact List.forall_mem_cons.mpr ⟨fun hpa => (ha hpa).le, hmax⟩
      · exact List.forall_mem_cons.mpr ⟨ha, hfirst⟩
    · have hpa : p a = true := by
        by_contra hpa
        obtain ⟨b, hb, hpb⟩ := h
        rcases List.mem_cons.mp hb with rfl | hb
        · exact hpa hpb
        · exact hrest ⟨b, hb, hpb, fun h => absurd h hpa⟩
      refine ⟨[], a, l, rfl, hpa, ?_, by simp⟩
      refine List.forall_mem_cons.mpr ⟨fun _ => le_rfl, fun b hb hpb => ?_⟩
      by_contra hless
      exact hrest ⟨b, hb, hpb, fun _ => not_le.mp hless⟩

/-- And a last one. -/
theorem exists_last_best (h : ∃ a ∈ l, p a = true) :
    ∃ before best behind, l = before ++ best :: behind ∧ p best = true ∧
      (∀ a ∈ l, p a = true → value a ≤ value best) ∧
      ∀ a ∈ behind, p a = true → value a < value best := by
  obtain ⟨a, ha, hpa⟩ := h
  obtain ⟨before, best, behind, hsplit, hbest, hmax, hfirst⟩ :=
    exists_first_best value ⟨a, List.mem_reverse.mpr ha, hpa⟩
  refine ⟨behind.reverse, best, before.reverse, ?_, hbest, ?_, ?_⟩
  · rw [← List.reverse_reverse l, hsplit, List.reverse_append, List.reverse_cons, List.append_assoc,
      List.singleton_append]
  · exact fun b hb => hmax b (List.mem_reverse.mpr hb)
  · exact fun b hb => hfirst b (List.mem_reverse.mp hb)

end Stable

end DevRepro.Lib
